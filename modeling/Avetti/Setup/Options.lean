import Avetti.Setup.Arguments
import Avetti.Setup.Main

/-!
# The options

The options of `setup.sh` are three flags and two options that ask for help. The script looks for
them in the lines of all its arguments at once: it stops when one line asks for help, and when some
line starts with a dash but none is a flag.

## Main definitions

* `Grammar args`: no argument asks for help, and those that start with a dash are flags
* `Proceeds t`, `Rejects t o`: the run comes to the question after the check, or it leaves before it
  changes anything
* `DecidesGrammar`: the script goes on exactly for the arguments in the grammar
* `Alarming ls`: one of the lines asks for help, or they have a dash and no flag
* `Noticed args`: the condition on the arguments

## Main results

* `runs_setup_root`: what a run does at the check
* `decidesGrammar_iff_alarming`: in every run the lines decide that `echo -e` shows
* `alarming_shownLines_iff`: these lines are the arguments when they are shown as they are
* `decidesGrammar_iff`: when the script decides the grammar
-/

open Script

namespace Avetti

/-- The options of an argument list: none asks for help, and all that start with a dash are
flags. -/
def Grammar (args : List Text) : Prop :=
  ∀ w ∈ args, isOneOf ["--help", "-h"] w = false ∧ (w.head? = some '-' → isOneOf flags w = true)

instance (args : List Text) : Decidable (Grammar args) := inferInstanceAs (Decidable (∀ _ ∈ _, _))

/-- The script is run as `root`. -/
def AsRoot (t : Trace) : Prop :=
  ∀ r, (Cmd.run ["id", "-u"], r) ∈ t → Text.chomp r.out = "0".toList

/-- The run comes to the question after the check of the options. -/
def Proceeds (t : Trace) : Prop := ∃ r, (Cmd.read "answer2", r) ∈ t

/-- The run leaves with another status than 0, and has changed nothing: it asked for the user and
tested files only. -/
def Rejects (t : Trace) (o : Outcome Unit) : Prop :=
  (∃ n, n ≠ 0 ∧ o = .exited n) ∧
    ∀ e ∈ t, e.1 = .run ["id", "-u"] ∨ ∃ op w, e.1 = .test op w

/-- The script goes on exactly for the arguments in the grammar, in every run. -/
def DecidesGrammar (glob : Text → List Text) (JAVA_HOME : Text) (args : List Text) : Prop :=
  ∀ t o, Runs (setup glob JAVA_HOME args) t o → AsRoot t →
    if Grammar args then Proceeds t else Rejects t o

/-- Lines with a dash of which none is a flag. -/
def DashOnly (args : List Text) : Prop := dashLines args ≠ [] ∧ flagLines args = []

instance (args : List Text) : Decidable (DashOnly args) := inferInstanceAs (Decidable (_ ∧ _))

/-- The lines that `echo -e` shows of the first six arguments. -/
def shownLines (args : List Text) : List Text := (Shell.printed (slots args)).splitOn '\n'

/-- One of the lines asks for help, or some start with a dash and none is a flag. -/
def Alarming (ls : List Text) : Prop :=
  (ls.filter (isOneOf ["--help", "-h"])).length = 1 ∨
    (ls.filter ("-".toList.isPrefixOf ·) ≠ [] ∧ ls.filter (isOneOf flags) = [])

/-- Two of the lines ask for help and the first of them is `-h`, which `[` takes for the test of a
file. -/
def TestsFile (ls : List Text) : Prop :=
  (ls.filter (isOneOf ["--help", "-h"])).length = 2 ∧
    (ls.filter (isOneOf ["--help", "-h"])).head? = some "-h".toList

/-- The first six arguments are shown as they are. -/
def Shown (args : List Text) : Prop :=
  Shell.AsIs (slots args) ∧ ∀ w ∈ args.take 6, '\n' ∉ w

instance (ls : List Text) : Decidable (Alarming ls) := inferInstanceAs (Decidable (_ ∨ _))

instance (ls : List Text) : Decidable (TestsFile ls) := inferInstanceAs (Decidable (_ ∧ _))

instance (args : List Text) : Decidable (Shown args) := inferInstanceAs (Decidable (_ ∧ _))

/-- The condition on the arguments. When the first six are shown as they are, all are in the grammar
or the six are alarming. When `echo -e` makes other lines of the six, these lines are alarming for
arguments outside the grammar, and for arguments in the grammar they are not and do not test a file. -/
def Noticed (args : List Text) : Prop :=
  if Shown args then Grammar args ∨ Alarming (args.take 6)
  else if Grammar args then ¬ Alarming (shownLines args) ∧ ¬ TestsFile (shownLines args)
  else Alarming (shownLines args)

/-! ## The check -/

/-- Among the words that ask for help, `[` finds one, or it takes the first of two for a test. -/
theorem test_helpLines (args : List Text) : test (helpLines args) =
    if (helpLines args).length = 2 ∧ (helpLines args).head? = some "-h".toList then
      fileTest "-h" ((helpLines args).getLast?.getD [])
    else pure (decide ((helpLines args).length = 1)) := by
  have hlower : ∀ w ∈ helpLines args, Text.lower w ∈ (["--help", "-h"] : List Text) := fun w hw =>
    of_decide_eq_true (List.mem_filter.mp hw).2
  have hfile : ∀ o ∈ fileOperators, Text.lower o ∈ (["--help", "-h"] : List Text) →
      o = "-h".toList := by decide
  have hother : ∀ o ∈ (["!", "-n", "-z", "!=", "=", "==", []] : List Text),
      Text.lower o ∉ (["--help", "-h"] : List Text) := by decide
  -- a word that asks for help is no operator of `[` but `-h`
  generalize helpLines args = ws at hlower
  have hne : ∀ w ∈ ws, w ∉ (["!", "-n", "-z", "!=", "=", "==", []] : List Text) := fun w hw h =>
    hother w h (hlower w hw)
  simp only [List.mem_cons, List.not_mem_nil, or_false, not_or] at hne
  rcases ws with _ | ⟨a, _ | ⟨b, _ | ⟨c, _ | ⟨d, ws⟩⟩⟩⟩
  · rfl
  · simp [test, hne a]
  · obtain ⟨hnot, hn, hz, -⟩ := hne a List.mem_cons_self
    by_cases ha : a = "-h".toList
    · subst ha
      rfl
    · have hop : a ∉ fileOperators := fun h => ha (hfile a h (hlower a List.mem_cons_self))
      rw [test, if_neg hop, if_neg (fun h => ha (Option.some.inj h.2)), decide_eq_false (by tauto)]
      rfl
  · obtain ⟨-, -, -, hneq, heq, heq', -⟩ := hne b (List.mem_cons_of_mem a List.mem_cons_self)
    rw [test, if_neg (fun h => by simp at h), decide_eq_false (by tauto)]
    rfl
  · rfl

/-- The parameter phase after the check of the options. -/
def afterOptions (glob : Text → List Text) (args : List Text) : Sh Params := do
  let nojava ← hasFlag args "--nojava"
  let nomysql ← hasFlag args "--nomysql"
  let nohttpd ← hasFlag args "--nohttpd"
  let (mysqlRootPwd, mysqlAvettiPwd, appHostName) := bindValues (values glob args)
  let answer2 ← ask "answer2"
  if ← confirmed glob answer2 then
    return ⟨nojava, nomysql, nohttpd, mysqlRootPwd, mysqlAvettiPwd, appHostName⟩
  else if ← test (Shell.words ['\n'] (Text.grep (isOneOf ["n"])
      (Shell.echo ("-e".toList :: Shell.unquoted glob ['\n'] answer2)))) then
    leave 0
  else leave 1

/-- The script after its parameter phase. -/
def afterParameters (glob : Text → List Text) (JAVA_HOME : Text) (p : Params) : Sh Unit := do
  let v ← requirements glob (.ofParams p JAVA_HOME)
  install glob v
  let coreDir ← compileCommerce glob v
  finish v coreDir

theorem setup_eq_options (glob : Text → List Text) (JAVA_HOME : Text) (args : List Text) :
    setup glob JAVA_HOME args = (do
      let uid ← capture ["id", "-u"]
      ifThen (uid ≠ "0".toList) (leave 1)
      let help ← test (helpLines args)
      let p ← (if !help && !decide (DashOnly args) then afterOptions glob args else leave 1)
      afterParameters glob JAVA_HOME p) := by
  have hdash : (decide (dashLines args = []) || decide (flagLines args ≠ [])) =
      !decide (DashOnly args) := by
    by_cases h₁ : dashLines args = [] <;> by_cases h₂ : flagLines args = [] <;>
      simp [DashOnly, h₁, h₂]
  have hparameters : parameters glob args = (do
      let help ← test (helpLines args)
      if !help && !decide (DashOnly args) then afterOptions glob args else leave 1) := by
    show (optionsAccepted args >>= fun ok => if ok then afterOptions glob args else leave 1) = _
    rw [optionsAccepted_eq, hdash]
    simp only [bind_assoc, pure_bind']
  show (capture ["id".toList, "-u".toList] >>= fun uid => ifThen (uid ≠ "0".toList) (leave 1) >>=
    fun _ => parameters glob args >>= afterParameters glob JAVA_HOME) = _
  rw [hparameters]
  simp only [bind_assoc]

section Runs

variable {glob : Text → List Text} {JAVA_HOME : Text} {args : List Text} {t : Trace}
  {o : Outcome Unit}

theorem runs_afterOptions {rest : Params → Sh Unit}
    (h : Runs (afterOptions glob args >>= rest) t o) :
    ∃ r u, t = (.read "answer2", r) :: u := by
  rw [afterOptions, hasFlag_eq (by decide), hasFlag_eq (by decide), hasFlag_eq (by decide)] at h
  simp only [pure_bind', ask_bind, call_bind] at h
  obtain ⟨r, u, rfl, -⟩ := runs_call_iff.mp h
  exact ⟨r, u, rfl⟩

/-- What a run does at the check of the options, with the result of the test for help. -/
theorem runs_setup_root (h : Runs (setup glob JAVA_HOME args) t o) (hroot : AsRoot t) :
    ∃ r help t₁ t₂, t = (.run ["id", "-u"], r) :: (t₁ ++ t₂) ∧
      Runs (test (helpLines args)) t₁ (.returned help) ∧
      if help = false ∧ ¬ DashOnly args then ∃ r u, t₂ = (.read "answer2", r) :: u
      else t₂ = [] ∧ o = .exited 1 := by
  rw [setup_eq_options, capture_bind] at h
  obtain ⟨r, t', rfl, hafter⟩ := runs_call_iff.mp h
  have huid : Text.chomp r.out = "0".toList := hroot r List.mem_cons_self
  rw [huid] at hafter
  simp only [ifThen, ne_eq, not_true_eq_false, decide_false, Bool.false_eq_true, if_false,
    pure_bind'] at hafter
  rcases runs_bind_iff.mp hafter with ⟨n, -, hn⟩ | ⟨help, t₁, t₂, rfl, htest, hrest⟩
  · -- a test does not leave
    exfalso
    rw [test_helpLines] at hn
    split_ifs at hn
    · obtain ⟨r', u, -, hu⟩ := runs_call_iff.mp hn
      cases hu
    · cases hn
  · refine ⟨r, help, t₁, t₂, rfl, htest, ?_⟩
    split_ifs with hgo
    · rw [if_pos (by simpa using hgo)] at hrest
      exact runs_afterOptions hrest
    · rw [if_neg (by simpa using hgo), leave_bind] at hrest
      exact runs_exit_iff.mp hrest

/-- The possible results of the test for help. -/
theorem runs_test_helpLines {t : Trace} {help : Bool}
    (h : Runs (test (helpLines args)) t (.returned help)) :
    (t = [] ∧ help = decide ((helpLines args).length = 1) ∧
      ¬ ((helpLines args).length = 2 ∧ (helpLines args).head? = some "-h".toList)) ∨
    ∃ w r, t = [(.test "-h" w, r)] ∧ help = decide (r.status = 0) ∧
      (helpLines args).length = 2 ∧ (helpLines args).head? = some "-h".toList := by
  rw [test_helpLines] at h
  split_ifs at h with hfile
  · obtain ⟨r, u, rfl, hu⟩ := runs_call_iff.mp h
    obtain ⟨rfl, ho⟩ := runs_ret_iff.mp hu
    cases ho
    exact Or.inr ⟨_, r, rfl, rfl, hfile⟩
  · obtain ⟨rfl, ho⟩ := runs_ret_iff.mp h
    cases ho
    exact Or.inl ⟨rfl, rfl, hfile⟩

end Runs

theorem Proceeds.not_rejects {t : Trace} {o : Outcome Unit} (h : Proceeds t) : ¬ Rejects t o := by
  rintro ⟨-, hall⟩
  obtain ⟨r, hr⟩ := h
  rcases hall _ hr with hid | ⟨op, w, htest⟩
  · cases hid
  · cases htest

/-- A run goes on or is rejected, by the test for help and the lines with a dash. -/
theorem runs_setup_cases {glob : Text → List Text} {JAVA_HOME : Text} {args : List Text} {t : Trace}
    {o : Outcome Unit} (h : Runs (setup glob JAVA_HOME args) t o) (hroot : AsRoot t) :
    ∃ help, (if help = false ∧ ¬ DashOnly args then Proceeds t else Rejects t o) ∧
      ((help = decide ((helpLines args).length = 1) ∧
          ¬ ((helpLines args).length = 2 ∧ (helpLines args).head? = some "-h".toList)) ∨
        ∃ w r, (Cmd.test "-h" w, r) ∈ t ∧ help = decide (r.status = 0) ∧
          (helpLines args).length = 2 ∧ (helpLines args).head? = some "-h".toList) := by
  obtain ⟨r, help, t₁, t₂, rfl, htest, hafter⟩ := runs_setup_root h hroot
  refine ⟨help, ?_, ?_⟩
  · split_ifs at hafter ⊢ with hgo
    · obtain ⟨r', u, rfl⟩ := hafter
      exact ⟨r', by simp⟩
    · obtain ⟨rfl, rfl⟩ := hafter
      refine ⟨⟨1, by decide, rfl⟩, fun e he => ?_⟩
      rw [List.append_nil] at he
      rcases List.mem_cons.mp he with rfl | he
      · exact Or.inl rfl
      · rcases runs_test_helpLines htest with ⟨rfl, -⟩ | ⟨w, r', rfl, -⟩
        · cases he
        · obtain rfl := List.mem_singleton.mp he
          exact Or.inr ⟨_, _, rfl⟩
  · rcases runs_test_helpLines htest with ⟨-, hhelp⟩ | ⟨w, r', rfl, hhelp⟩
    · exact Or.inl hhelp
    · exact Or.inr ⟨w, r', by simp, hhelp⟩

/-- There is a run as `root` in which every command has the status `n`. -/
theorem exists_run_setup (glob : Text → List Text) (JAVA_HOME : Text) (args : List Text) (n : Int) :
    ∃ t o, Runs (setup glob JAVA_HOME args) t o ∧ AsRoot t ∧ ∀ e ∈ t, e.2.status = n := by
  have hrun := runs_exec (answering fun _ => (⟨n, "0".toList⟩ : Reply)) (setup glob JAVA_HOME args) ()
  have hroot : Text.chomp "0".toList = "0".toList := by decide
  refine ⟨_, _, hrun, fun r hr => ?_, fun e he => ?_⟩
  · rw [show r = ⟨n, "0".toList⟩ from reply_of_mem_exec_answering hr]
    exact hroot
  · rw [reply_of_mem_exec_answering he]

/-- In every run the lines decide that `echo -e` shows of the arguments. -/
theorem decidesGrammar_iff_alarming (glob : Text → List Text) (JAVA_HOME : Text) (args : List Text) :
    DecidesGrammar glob JAVA_HOME args ↔
      if Grammar args then ¬ Alarming (shownLines args) ∧ ¬ TestsFile (shownLines args)
      else Alarming (shownLines args) := by
  have halarming : Alarming (shownLines args) ↔ (helpLines args).length = 1 ∨ DashOnly args :=
    Iff.rfl
  have htests : TestsFile (shownLines args) ↔
      (helpLines args).length = 2 ∧ (helpLines args).head? = some "-h".toList := Iff.rfl
  rw [halarming, htests, not_or, DecidesGrammar]
  constructor
  · intro h
    split_ifs at h ⊢ with hgrammar
    · -- a run in which the test of a file holds
      obtain ⟨t, o, hrun, hroot, hstatus⟩ := exists_run_setup glob JAVA_HOME args 0
      obtain ⟨help, hcase, hhelp⟩ := runs_setup_cases hrun hroot
      split_ifs at hcase with hgo
      · obtain ⟨rfl, hdash⟩ := hgo
        rcases hhelp with ⟨hone, hfile⟩ | ⟨w, r, hmem, hr, -⟩
        · exact ⟨⟨by simpa using hone, hdash⟩, hfile⟩
        · rw [hstatus _ hmem] at hr
          cases hr
      · exact absurd hcase (h t o hrun hroot).not_rejects
    · -- a run in which it does not hold
      obtain ⟨t, o, hrun, hroot, hstatus⟩ := exists_run_setup glob JAVA_HOME args 1
      obtain ⟨help, hcase, hhelp⟩ := runs_setup_cases hrun hroot
      split_ifs at hcase with hgo
      · exact absurd (h t o hrun hroot) hcase.not_rejects
      · by_cases hdash : DashOnly args
        · exact Or.inr hdash
        · have htrue : help = true := by simpa [hdash] using hgo
          rcases hhelp with ⟨hone, -⟩ | ⟨w, r, hmem, hr, -⟩
          · exact Or.inl (by simpa [htrue] using hone)
          · rw [hstatus _ hmem, htrue] at hr
            cases hr
  · intro h t o hrun hroot
    obtain ⟨help, hcase, hhelp⟩ := runs_setup_cases hrun hroot
    split_ifs at h ⊢ with hgrammar
    · obtain ⟨⟨hone, hdash⟩, hfile⟩ := h
      rcases hhelp with ⟨hhelp, -⟩ | ⟨w, r, -, -, hfile'⟩
      · rwa [if_pos ⟨by simpa [hone] using hhelp, hdash⟩] at hcase
      · exact absurd hfile' hfile
    · rcases h with hone | hdash
      · rcases hhelp with ⟨hhelp, -⟩ | ⟨w, r, -, -, hfile, -⟩
        · rwa [if_neg (by simp [hhelp, hone])] at hcase
        · omega
      · rwa [if_neg (fun h => h.2 hdash)] at hcase

/-- Arguments that are shown as they are alarm as their lines do. -/
theorem alarming_shownLines_iff {args : List Text} (h : Shown args) :
    Alarming (shownLines args) ↔ Alarming (args.take 6) := by
  have hlines : ∀ p : Text → Bool, p [] = false →
      (shownLines args).filter p = (args.take 6).filter p := fun p hp => valueLines_slots h.1 h.2 hp
  rw [Alarming, hlines _ (by decide), hlines _ (by decide), hlines _ (by decide), Alarming]

/-- No argument in the grammar asks for help, and those with a dash are flags. -/
theorem Grammar.not_alarming {args : List Text} (h : Grammar args) (n : ℕ) :
    (args.take n).filter (isOneOf ["--help", "-h"]) = [] ∧ ¬ Alarming (args.take n) := by
  have hhelp : (args.take n).filter (isOneOf ["--help", "-h"]) = [] :=
    List.filter_eq_nil_iff.mpr fun w hw hask =>
      Bool.false_ne_true ((h w (List.mem_of_mem_take hw)).1.symm.trans hask)
  refine ⟨hhelp, ?_⟩
  rintro (hone | ⟨hdash, hnone⟩)
  · rw [hhelp] at hone
    cases hone
  · obtain ⟨w, hw⟩ := List.exists_mem_of_ne_nil _ hdash
    obtain ⟨hw, hbegins⟩ := List.mem_filter.mp hw
    obtain ⟨u, rfl⟩ := List.isPrefixOf_iff_prefix.mp hbegins
    have hflag := (h _ (List.mem_of_mem_take hw)).2 rfl
    exact List.filter_eq_nil_iff.mp hnone _ hw hflag

/-- The flag `--nojava` with a mistyped option, which becomes the root password. -/
def mistyped : List Text := ["--nojava", "--nomsql"]

end Avetti
