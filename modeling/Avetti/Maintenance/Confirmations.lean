import Avetti.Maintenance.Platforms

/-!
# The confirmations of the batch files

The batch files of the four jobs ask before they go on, and ask again when they show the version.
The second answer is stored in `ANSWERcode`, and the tests that follow are on `ANSWER`. An empty
entry keeps the answer of an earlier batch file in the same console.

## Main definitions

* `confirm c`: the two questions, with the console afterwards
* `Session c is c'`: a sequence of invocations in one console
* `Honours t`: the run `t` of a batch file honours both confirmations
* `Confirmed c t`: the condition on the console and on the entries

## Main results

* `enterVersionBat_eq`: the common beginning of the batch files, by way of `confirm`
* `honours_iff`: a run honours the confirmations exactly when the condition holds
* `honours_of_session`: the same for all invocations of a session
-/

open Script

namespace Avetti

/-! ## Answers -/

theorem toLower_eq_iff {c d u : Char} (hval : d.val = u.val + 32) (hd : d.toLower = d)
    (hu : u.toLower = d) : c.toLower = d ↔ c = d ∨ c = u := by
  constructor
  · intro hc
    unfold Char.toLower at hc
    split_ifs at hc with h
    · right
      have hsum : c.val + 32 = u.val + 32 := (congrArg Char.val hc).trans hval
      exact Char.ext ((UInt32.add_left_inj 32).mp hsum)
    · exact Or.inl hc
  · rintro (rfl | rfl)
    · exact hd
    · exact hu

/-- A letter in either case. -/
theorem lower_eq_singleton_iff {d u : Char} (hval : d.val = u.val + 32) (hd : d.toLower = d)
    (hu : u.toLower = d) {t : Text} : Text.lower t = [d] ↔ t = [d] ∨ t = [u] := by
  rw [Text.lower, List.map_eq_singleton_iff]
  constructor
  · rintro ⟨c, rfl, hc⟩
    rcases (toLower_eq_iff hval hd hu).mp hc with rfl | rfl
    · exact Or.inl rfl
    · exact Or.inr rfl
  · rintro (rfl | rfl)
    · exact ⟨d, rfl, hd⟩
    · exact ⟨u, rfl, hu⟩

/-- The answer is yes. -/
def IsYes (t : Text) : Prop := t = "y".toList ∨ t = "Y".toList

/-- The answer is no. -/
def IsNo (t : Text) : Prop := t = "n".toList ∨ t = "N".toList

instance (t : Text) : Decidable (IsYes t) := inferInstanceAs (Decidable (_ ∨ _))

instance (t : Text) : Decidable (IsNo t) := inferInstanceAs (Decidable (_ ∨ _))

theorem lower_eq_y_iff {t : Text} : Text.lower t = "y".toList ↔ IsYes t :=
  lower_eq_singleton_iff (by decide) (by decide) (by decide)

/-- What `SET /P` leaves in the variable. -/
def entered (old entry : Text) : Text := if entry = [] then old else entry

/-- The characters that `cmd` does not take as they are in a comparison. -/
def cmdSpecial : List Char := " \t,;=\"&|<>^()".toList

/-- `cmd` compares the value of the variable: its text has no other meaning on the line. -/
def IsPlain (t : Text) : Prop := ∀ c ∈ t, c ∉ cmdSpecial

instance (t : Text) : Decidable (IsPlain t) := inferInstanceAs (Decidable (∀ c ∈ t, _))

/-! ## The questions -/

/-- Where a batch file goes after its questions: to its stages, to `:END`, or out of the file. -/
inductive Next where
  | compiling
  | theEnd
  | unknown
  deriving DecidableEq, Repr

/-- The version of `deploy.log`, in the variables of the console. -/
def Console.readVersion (c : Console) (log : Text) : Console :=
  let version := secondToken log c.version_to_install
  let (codeNum, comp) := loop (version.length + 1) version c.comp
  { c with version_to_install := version, codeNum := withoutLast codeNum, comp := comp }

/-- The second question, and the tests after it: they are on the answer to the first one. -/
def confirmVersion (c : Console) : Sh (Console × Next) := do
  let ANSWERcode ← prompt "ANSWERcode" c.ANSWERcode
  if Text.lower c.ANSWER = "y".toList then
    return ({ c with ANSWERcode := ANSWERcode }, .compiling)
  else if Text.lower c.ANSWER = "n".toList then
    let codeNum ← prompt "codeNum" c.codeNum
    return ({ c with ANSWERcode := ANSWERcode, codeNum := codeNum }, .compiling)
  else return ({ c with ANSWERcode := ANSWERcode }, .unknown)

/-- The two questions, with the console that they leave. -/
def confirm (c : Console) : Sh (Console × Next) := do
  let ANSWER ← prompt "ANSWER" c.ANSWER
  if Text.lower ANSWER = "y".toList then
    let log ← command (.run ["type", "\\avetti\\svn\\deploy.log"])
    confirmVersion ({ c with ANSWER := ANSWER }.readVersion log.out)
  else if Text.lower ANSWER = "n".toList then return ({ c with ANSWER := ANSWER }, .theEnd)
  else return ({ c with ANSWER := ANSWER }, .unknown)

/-- From the questions on to the stages. -/
def goOn : Console × Next → Sh Bool
  | (c, .compiling) => compiling c.codeNum
  | (_, .theEnd) => pure false
  | (_, .unknown) => leave 1

theorem prompt_bind {α : Type} (var old : Text) (k : Text → Sh α) :
    (prompt var old >>= k) = call (.read var) fun r => k (entered old r.out) := rfl

/-- Once the first answer is yes, the version is not asked for. -/
theorem confirmVersion_of_yes {c : Console} (hyes : Text.lower c.ANSWER = "y".toList) :
    confirmVersion c = call (.read "ANSWERcode") fun r =>
      ret ({ c with ANSWERcode := entered c.ANSWERcode r.out }, .compiling) := by
  rw [confirmVersion, prompt_bind]
  exact congrArg (call _) (funext fun r => if_pos hyes)

/-- The batch files enter a version by way of the two questions. -/
theorem enterVersionBat_eq (c : Console) : enterVersionBat c = confirm c >>= goOn := by
  simp only [enterVersionBat, confirm, prompt_bind, command_bind, call_bind]
  refine congrArg (call _) (funext fun r => ?_)
  by_cases hyes : Text.lower (entered c.ANSWER r.out) = "y".toList
  · rw [if_pos hyes, if_pos hyes, call_bind]
    refine congrArg (call _) (funext fun log => ?_)
    rw [confirmVersion_of_yes (by exact hyes), call_bind]
    exact congrArg (call _) (funext fun r' => if_pos hyes)
  · rw [if_neg hyes, if_neg hyes]
    by_cases hno : Text.lower (entered c.ANSWER r.out) = "n".toList
    · rw [if_pos hno, if_pos hno]
      rfl
    · rw [if_neg hno, if_neg hno]
      rfl

/-- The batch file of a job. -/
def Job.batFile : Job → Console → Sh Unit
  | updatecodefromsvn => updatecodefromsvnBat
  | recompile => recompileBat
  | recompileshop => recompileshopBat
  | setupdatabases => setupdatabasesBat

/-- The batch file of a job after its questions. -/
def Job.rest (j : Job) (after : Console × Next) : Sh Unit := do
  let entered ← goOn after
  whenEntered j.batch entered

theorem Job.batFile_eq (j : Job) (c : Console) : j.batFile c = confirm c >>= j.rest := by
  have hbatch : j.batFile c = enterVersionBat c >>= whenEntered j.batch := by cases j <;> rfl
  rw [hbatch, enterVersionBat_eq, bind_assoc']
  rfl

/-! ## Runs -/

/-- A stage is started. -/
def Starts (t : Trace) : Prop := attempts t ≠ []

/-- The first entry at the prompt for the variable; without one it is empty. -/
def entryOf (var : Text) (t : Trace) : Text :=
  (t.findSome? fun e => if e.1 = .read var then some e.2.out else none).getD []

/-- The operator enters a version. -/
def EntersVersion (t : Trace) : Prop := ∃ r, (Cmd.read "codeNum".toList, r) ∈ t ∧ r.out ≠ []

/-- **A run honours both confirmations**: it starts stages in the version of `deploy.log` only after
two answers yes, and in a version of the operator only after a yes and a no. -/
structure Honours (t : Trace) : Prop where
  deployed : Starts t → ¬ EntersVersion t →
    IsYes (entryOf "ANSWER" t) ∧ IsYes (entryOf "ANSWERcode" t)
  operator : Starts t → EntersVersion t →
    IsYes (entryOf "ANSWER" t) ∧ IsNo (entryOf "ANSWERcode" t)

/-- The script asks nothing. -/
def Unattended {α : Type} (p : Sh α) : Prop := Emits (fun c _ => ∀ var, c ≠ .read var) p

theorem run_ne_read (ws : List Text) (var : Text) : Cmd.run ws ≠ .read var := fun h => by cases h

theorem unattended_batStage (m : Mvn) : Unattended (batStage m) := by
  simp only [batStage, run_bind, mvn_bind]
  have hmvn : ∀ a var, Cmd.mvn m a ≠ .read var := fun a var h => by cases h
  refine emits_call (fun _ => run_ne_read _) fun _ => emits_call (fun _ => hmvn _) fun r => ?_
  exact emits_ite (emits_ite (emits_call (fun _ => hmvn _) fun _ => trivial) trivial) trivial

theorem unattended_batch (j : Job) : Unattended j.batch := by
  cases j with
  | updatecodefromsvn =>
    iterate 7 refine emits_bind (unattended_batStage _) fun _ => ?_
    exact unattended_batStage _
  | recompile =>
    iterate 6 refine emits_bind (unattended_batStage _) fun _ => ?_
    exact unattended_batStage _
  | recompileshop =>
    iterate 3 refine emits_bind (unattended_batStage _) fun _ => ?_
    exact unattended_batStage _
  | setupdatabases =>
    iterate 2 refine emits_bind (unattended_batStage _) fun _ => ?_
    exact unattended_batStage _

/-- Every batch file starts a stage once it has come to its stages. -/
theorem batch_eq (j : Job) : ∃ (m : Mvn) (k : Unit → Sh Unit), j.batch = batStage m >>= k := by
  cases j with
  | updatecodefromsvn => exact ⟨_, _, rfl⟩
  | recompile => exact ⟨_, _, rfl⟩
  | recompileshop => exact ⟨_, _, rfl⟩
  | setupdatabases => exact ⟨_, _, rfl⟩

section Rest

variable {j : Job} {c : Console} {t : Trace} {o : Outcome Unit}

theorem starts_of_runs_batch (h : Runs j.batch t o) : Starts t := by
  obtain ⟨m, k, hbatch⟩ := batch_eq j
  rw [hbatch] at h
  obtain ⟨verify, u, rfl, hfirst⟩ := runs_call_iff.mp h
  obtain ⟨errorlevel, u', rfl, -⟩ := runs_call_iff.mp hfirst
  rw [Starts, attempts, events_of_quiet rfl, events_mvn]
  simp [RetryChain.attempted]

theorem unattended_rest (after : Console × Next) : Unattended (j.rest after) := by
  have hwhen : ∀ entered, Unattended (whenEntered j.batch entered) := fun entered => by
    cases entered with
    | false => trivial
    | true => exact unattended_batch j
  obtain ⟨c, next⟩ := after
  refine emits_bind ?_ hwhen
  cases next with
  | compiling =>
    refine emits_call (fun _ => run_ne_read _) fun _ => ?_
    exact emits_call (fun _ => run_ne_read _) fun _ => trivial
  | theEnd => trivial
  | unknown => trivial

theorem starts_of_runs_rest (h : Runs (j.rest (c, .compiling)) t o) : Starts t := by
  obtain ⟨cd, u, rfl, hcd⟩ := runs_call_iff.mp h
  obtain ⟨cd', u', rfl, hbatch⟩ := runs_call_iff.mp hcd
  have hstarts : Starts u' := starts_of_runs_batch hbatch
  rw [Starts, attempts, events_of_quiet rfl, events_of_quiet rfl]
  exact hstarts

theorem eq_nil_of_runs_rest {next : Next} (hnext : next ≠ .compiling)
    (h : Runs (j.rest (c, next)) t o) : t = [] := by
  cases next with
  | compiling => exact absurd rfl hnext
  | theEnd => exact (runs_ret_iff.mp h).1
  | unknown => exact (runs_exit_iff.mp h).1

end Rest

section Questions

variable {j : Job} {c : Console} {t : Trace}

/-- After the answer yes both questions are asked and the stages follow; otherwise only the first
is asked, and no stage follows. -/
theorem runs_confirm {out : Outcome (Console × Next)} (h : Runs (confirm c) t out) :
    ∃ r c' next, out = .returned (c', next) ∧ c'.ANSWER = entered c.ANSWER r.out ∧
      ((IsYes c'.ANSWER ∧ next = .compiling ∧ ∃ log r', t = [(.read "ANSWER".toList, r),
          (.run ["type".toList, "\\avetti\\svn\\deploy.log".toList], log),
          (.read "ANSWERcode".toList, r')]) ∨
        (¬ IsYes c'.ANSWER ∧ next ≠ .compiling ∧ t = [(.read "ANSWER".toList, r)])) := by
  rw [confirm, prompt_bind] at h
  obtain ⟨r, u, rfl, htests⟩ := runs_call_iff.mp h
  by_cases hyes : Text.lower (entered c.ANSWER r.out) = "y".toList
  · rw [if_pos hyes, command_bind] at htests
    obtain ⟨log, v, rfl, hversion⟩ := runs_call_iff.mp htests
    rw [confirmVersion_of_yes (by exact hyes)] at hversion
    obtain ⟨r', w, rfl, hreturn⟩ := runs_call_iff.mp hversion
    obtain ⟨rfl, rfl⟩ := runs_ret_iff.mp hreturn
    exact ⟨r, _, _, rfl, rfl, Or.inl ⟨lower_eq_y_iff.mp hyes, rfl, log, r', rfl⟩⟩
  · have hnot : ¬ IsYes (entered c.ANSWER r.out) := fun h => hyes (lower_eq_y_iff.mpr h)
    rw [if_neg hyes] at htests
    by_cases hno : Text.lower (entered c.ANSWER r.out) = "n".toList
    · rw [if_pos hno] at htests
      obtain ⟨rfl, rfl⟩ := runs_ret_iff.mp htests
      exact ⟨r, _, _, rfl, rfl, Or.inr ⟨hnot, by decide, rfl⟩⟩
    · rw [if_neg hno] at htests
      obtain ⟨rfl, rfl⟩ := runs_ret_iff.mp htests
      exact ⟨r, _, _, rfl, rfl, Or.inr ⟨hnot, by decide, rfl⟩⟩

/-- **A run of a batch file**: when the answer is yes, entered or kept, stages are started without
asking for a version, and otherwise none is started. -/
theorem runs_batFile {o : Outcome Unit} (h : Runs (j.batFile c) t o) :
    (Starts t ↔ IsYes (entered c.ANSWER (entryOf "ANSWER" t))) ∧ ¬ EntersVersion t := by
  rw [Job.batFile_eq] at h
  rcases runs_bind_iff.mp h with ⟨n, rfl, hconfirm⟩ | ⟨after, t₁, t₂, rfl, hconfirm, hrest⟩
  · obtain ⟨r, c', next, hout, -⟩ := runs_confirm hconfirm
    cases hout
  · obtain ⟨r, c', next, hout, hanswer, hcase⟩ := runs_confirm hconfirm
    cases hout
    have hasks : ∀ e ∈ t₂, ∀ var, e.1 ≠ .read var := hrest.emits (unattended_rest _)
    rcases hcase with ⟨hyes, rfl, log, r', rfl⟩ | ⟨hnot, hnext, rfl⟩
    · have hstarts : Starts t₂ := starts_of_runs_rest hrest
      refine ⟨iff_of_true ?_ (hanswer ▸ hyes), ?_⟩
      · rw [Starts, attempts, List.cons_append, events_of_quiet rfl, List.cons_append,
          events_of_quiet rfl, List.cons_append, events_of_quiet rfl]
        exact hstarts
      · rintro ⟨entry, hmem, -⟩
        simp only [List.cons_append, List.nil_append, List.mem_cons, Prod.mk.injEq,
          Cmd.read.injEq, reduceCtorEq, false_and, false_or] at hmem
        rcases hmem with ⟨hvar, -⟩ | ⟨hvar, -⟩ | hmem
        · exact absurd hvar (by decide)
        · exact absurd hvar (by decide)
        · exact hasks _ hmem _ rfl
    · have hnil : t₂ = [] := eq_nil_of_runs_rest hnext hrest
      subst hnil
      refine ⟨iff_of_false ?_ (hanswer ▸ hnot), ?_⟩
      · exact fun hstarts => hstarts rfl
      · rintro ⟨entry, hmem, -⟩
        simp only [List.cons_append, List.nil_append, List.mem_singleton, Prod.mk.injEq,
          Cmd.read.injEq] at hmem
        exact absurd hmem.1 (by decide)

/-- A run honours the confirmations exactly when the answer yes was entered, and entered twice. -/
theorem honours_iff {o : Outcome Unit} (h : Runs (j.batFile c) t o) :
    Honours t ↔ (IsYes (entered c.ANSWER (entryOf "ANSWER" t)) →
      IsYes (entryOf "ANSWER" t) ∧ IsYes (entryOf "ANSWERcode" t)) := by
  obtain ⟨hstarts, henters⟩ := runs_batFile h
  constructor
  · exact fun hhonours hyes => hhonours.deployed (hstarts.mpr hyes) henters
  · intro hboth
    exact ⟨fun hs _ => hboth (hstarts.mp hs), fun _ he => absurd he henters⟩

end Questions

/-! ## Sessions -/

/-- A call of a batch file, with the console before it and its run. -/
structure Invocation where
  job : Job
  before : Console
  trace : Trace

/-- **A session**: calls of the batch files in one console, each from the variables that the call
before it has left. Of a call that puts special characters of `cmd` into the comparison nothing is
known. -/
inductive Session : Console → List Invocation → Console → Prop where
  | nil (c : Console) : Session c [] c
  | run {j : Job} {c c' c'' : Console} {next : Next} {t u : Trace} {o : Outcome Unit}
      {is : List Invocation} (plain : IsPlain c'.ANSWER)
      (confirmed : Runs (confirm c) t (.returned (c', next))) (went : Runs (j.rest (c', next)) u o)
      (rest : Session c' is c'') : Session c (⟨j, c, t ++ u⟩ :: is) c''
  | unread {j : Job} {c c' c'' : Console} {r : Reply} {t : Trace} {is : List Invocation}
      (special : ¬ IsPlain (entered c.ANSWER r.out)) (rest : Session c' is c'') :
      Session c (⟨j, c, (.read "ANSWER".toList, r) :: t⟩ :: is) c''

/-- The condition on the answer that the console keeps and on the entries: an answer yes is entered,
and is entered again at the second question. -/
structure Confirmed (c : Console) (t : Trace) : Prop where
  plain : IsPlain (entered c.ANSWER (entryOf "ANSWER" t))
  both : IsYes (entered c.ANSWER (entryOf "ANSWER" t)) →
    IsYes (entryOf "ANSWER" t) ∧ IsYes (entryOf "ANSWERcode" t)

/-- Every run of a batch file is a session. -/
theorem session_of_runs {j : Job} {c : Console} {t : Trace} {o : Outcome Unit}
    (h : Runs (j.batFile c) t o) (hplain : IsPlain (entered c.ANSWER (entryOf "ANSWER" t))) :
    ∃ c', Session c [⟨j, c, t⟩] c' := by
  rw [Job.batFile_eq] at h
  rcases runs_bind_iff.mp h with ⟨n, rfl, hconfirm⟩ | ⟨after, t₁, t₂, rfl, hconfirm, hrest⟩
  · obtain ⟨r, c', next, hout, -⟩ := runs_confirm hconfirm
    cases hout
  · obtain ⟨r, c', next, hout, hanswer, hcase⟩ := runs_confirm hconfirm
    cases hout
    have hentry : entryOf "ANSWER" (t₁ ++ t₂) = r.out := by
      rcases hcase with ⟨-, -, log, r', rfl⟩ | ⟨-, -, rfl⟩
      · rfl
      · rfl
    rw [hentry, ← hanswer] at hplain
    exact ⟨c', .run hplain hconfirm hrest (.nil c')⟩

/-- **The confirmations in a session**: when every call meets the condition, every call honours both
confirmations. -/
theorem honours_of_session {c c' : Console} {is : List Invocation} (h : Session c is c')
    (hconfirmed : ∀ i ∈ is, Confirmed i.before i.trace) : ∀ i ∈ is, Honours i.trace := by
  induction h with
  | nil => simp
  | @run j c c' c'' next t u o is plain confirmed went rest ih =>
    intro i hi
    rcases List.mem_cons.mp hi with rfl | hi
    · have hrun : Runs (j.batFile c) (t ++ u) o := j.batFile_eq c ▸ confirmed.bind went
      exact (honours_iff hrun).mpr (hconfirmed _ List.mem_cons_self).both
    · exact ih (fun i hi => hconfirmed i (List.mem_cons_of_mem _ hi)) i hi
  | @unread j c c' c'' r t is special rest ih =>
    exact absurd (hconfirmed _ List.mem_cons_self).plain special

/-- A console in which none of the variables is set. -/
def freshConsole : Console := ⟨[], [], [], [], []⟩

/-- The replies to a batch file whose questions are answered with `first` and `second`. -/
def answers (first second : Text) : Cmd → Reply
  | .read var => ⟨0, if var = "ANSWER".toList then first else second⟩
  | .run ws => ⟨0, if ws.head? = some "type".toList then "to Commerce8.5.2-enterprise,\n" else []⟩
  | _ => ⟨0, []⟩

/-- The call of the batch file of a job with these two answers, in a fresh console. -/
def answeredCall (j : Job) (first second : Text) : Invocation :=
  ⟨j, freshConsole, (exec (answering (answers first second)) (j.batFile freshConsole) ()).trace⟩

/-- `recompile.bat`, answered twice with `y`, runs its stages. -/
theorem honours_of_session_recompile :
    ∃ c', Session freshConsole [answeredCall .recompile "y" "y"] c' ∧
      ∀ i ∈ [answeredCall .recompile "y" "y"], Honours i.trace := by
  have hrun := runs_exec (answering (answers "y" "y")) (Job.recompile.batFile freshConsole) ()
  obtain ⟨c', hsession⟩ := session_of_runs hrun (by decide)
  refine ⟨c', hsession, honours_of_session hsession fun i hi => ?_⟩
  rw [List.mem_singleton.mp hi]
  exact ⟨by decide, by decide⟩

/-- `setupdatabases.bat` sets up the databases of the version it shows when the second answer is
`n`. -/
theorem not_honours_setupdatabases :
    ¬ ∀ c is c', Session c is c' → ∀ i ∈ is, Honours i.trace := by
  intro h
  have hrun := runs_exec (answering (answers "y" "n")) (Job.setupdatabases.batFile freshConsole) ()
  obtain ⟨c', hsession⟩ := session_of_runs hrun (by decide)
  have hhonours : Honours (answeredCall .setupdatabases "y" "n").trace :=
    h _ _ _ hsession _ (List.mem_singleton_self _)
  have hboth := (honours_iff hrun).mp hhonours (by decide)
  exact absurd hboth.2 (by decide)

end Avetti
