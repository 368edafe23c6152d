import Avetti.Setup.Windows

/-!
# The verified credentials and the ones that are used

`setup.bat` verifies what was typed in one of two branches, and the checkout uses the variables of
one of them. With values that have no meaning of their own on a command line, the verified
credentials are used exactly when these variables have the same values.

## Main definitions

* `UsesVerifiedBat cmd t`: in the run `t` the checkout of the code uses the credentials of a
  successful `svn info`, where `cmd` says how a command line is read
* `SameVariables env`: the variables of the checkout have the values that were verified
* `Accepted env`: the answers to the first two questions lead to the steps

## Main results

* `usesVerified_setupBat`: with the same values the verified credentials are used
* `triple_setupBat`: the only `svn info` of a run is that for the verified credentials
* `meets_setupBat`: there is a run that comes to the checkout
* `usesVerified_iff_of_plain`: for both scripts, with plain credentials
-/

open Script

namespace Avetti

/-- **The verified credentials are used**: before a checkout of the code, an `svn info` succeeded
with the user and the password that the checkout gets as single arguments, and no other command is
run with these lines, and with the line that hands the credentials over. -/
def UsesVerifiedBat (cmd : Text → List (List Text)) (t : Trace) : Prop :=
  ∀ pre line r post, t = pre ++ (.run [line], r) :: post → isCheckout line = true → line ≠ lgplLine →
    ∃ user password rest rest' info r', (.run [info], r') ∈ pre ∧ r'.status = 0 ∧
      NoOption rest ∧ NoOption rest' ∧ cmd info = [batInfoCommand user password rest] ∧
      cmd line = [batCheckoutCommand user password rest'] ∧
      ∀ call r'', (.run [call], r'') ∈ pre → isStep4 call = true → (cmd call).length = 1

/-- The variables of the checkout have the values that were verified. -/
def SameVariables (env : Env) : Prop := verified env = (env "avettisvnuser", env "avettisvnpassword")

/-- The answers to the first two questions lead to the steps. -/
def Accepted (env : Env) : Prop :=
  (env "useParam" = "y".toList ∨ env "useParam" = "Y".toList) ∧
    (Text.lower (env "ANSWER") = "y".toList ∨ Text.lower (env "ANSWER") = "n".toList)

instance (env : Env) : Decidable (Accepted env) := inferInstanceAs (Decidable (_ ∧ _))

section Runs

variable {entries env : Env} {args : List Text} {t : Trace} {o : Outcome Unit}

/-- Before the steps, the answers have been accepted. -/
theorem ensures_beforeSteps : Ensures (Entered entries)
    (fun x => x = afterQuestions entries env ∧ Accepted (env.answers entries))
    (beforeSteps env args) := by
  have haccepted : Ensures (Entered entries) (fun _ => Accepted (env.answers entries))
      (askVersion env) := by
    refine ensures_bind (ensures_setP env _) fun env₁ h₁ => ensures_ite (fun _ => ensures_leave 0) ?_
    refine fun huse => ensures_bind (ensures_setP env₁ _) fun env₂ h₂ => ?_
    have hanswers : env₂ = env.answers entries := by rw [h₂, h₁, Env.answers]
    have huse : env₂ "useParam" = "y".toList ∨ env₂ "useParam" = "Y".toList := by
      rw [h₂, Env.enter, Function.update_of_ne (by decide)]
      tauto
    rw [← hanswers]
    refine ensures_ite (fun hy => ?_) fun _ => ensures_ite (fun hn => ?_) fun _ => ensures_leave 1
    · exact fun _ _ _ _ => ⟨huse, Or.inl hy⟩
    · exact fun _ _ _ _ => ⟨huse, Or.inr hn⟩
  refine ensures_seq fun _ => ensures_seq fun _ => ensures_seq fun _ => fun t x h ht => ?_
  exact ⟨ensures_askVersion env t x h ht, haccepted t x h ht⟩

/-- **The same variables with plain values**: the credentials that were verified are used. -/
theorem usesVerified_setupBat (hx : PlainConsole (afterQuestions entries env))
    (hsame : Accepted (env.answers entries) → SameVariables (afterQuestions entries env).1)
    (other : Text → List (List Text)) (h : Runs (setupBat env args) t o)
    (ht : ∀ e ∈ t, Entered entries e.1 e.2) : UsesVerifiedBat (batchCommands other) t := by
  intro pre line r post heq hcheckout hline
  have haside : ∀ {u : Trace}, (∀ e ∈ u, e.1.IsAside) → (Cmd.run [line], r) ∉ u := by
    intro u hu hmem
    have hnot := (hu _ hmem line rfl).1
    rw [hcheckout] at hnot
    cases hnot
  rw [setupBat_eq] at h
  rcases runs_bind_iff.mp h with ⟨n, -, hn⟩ | ⟨x, t₁, t₂, rfl, h₁, h₂⟩
  · exact absurd (by simp [heq]) (haside (hn.emits (isAside_beforeSteps env args)))
  · have hbefore := h₁.emits (isAside_beforeSteps env args)
    obtain ⟨q, rfl, hq⟩ := eq_append_of_notMem heq (haside hbefore)
    have hvisits : Visits VerifiesBat (beforeSteps env args) :=
      visits_seq fun _ => visits_seq fun _ => visits_seq fun _ => visits_askVersion env
    obtain ⟨⟨c, r'⟩, he, rfl, hstatus⟩ := hvisits t₁ x h₁
    obtain ⟨hvalue, haccepted⟩ := ensures_beforeSteps t₁ x h₁ fun e he =>
      ht e (List.mem_append_left t₂ he)
    have hsame : SameVariables x.1 := hvalue ▸ hsame haccepted
    rw [← hvalue] at hx
    -- the checkout is a step, so it is the one of `setup-step4.bat`
    have hsteps := h₂.emits (isStep_installBat hx args)
    have hmem : (Cmd.run [line], r) ∈ t₂ := by simp [hq]
    obtain ⟨version, hversion, rfl⟩ := ((hsteps _ hmem line rfl).1 hcheckout).resolve_left hline
    have hinfo : batchCommands other (svnInfoLine (verified x.1).1 (verified x.1).2 x.2) = _ :=
      commands_infoLine hx
    refine ⟨_, _, _, _, _, r', List.mem_append_left q he, hstatus, hx.address,
      noOption_repository hversion, hinfo, ?_, ?_⟩
    · rw [hsame]
      exact commands_codeLine hx hversion
    · intro call r'' hcall hstep
      rcases List.mem_append.mp hcall with hcall | hcall
      · have hnot := (hbefore _ hcall call rfl).2
        rw [hstep] at hnot
        cases hnot
      · rw [(hsteps (.run [call], r'') (by simp [hq, hcall]) call rfl).2 hstep,
          batchCommands_of_plain (plain_step4Line hx)]
        rfl

end Runs

/-! ## The `svn info` of a run -/

/-- The line is read as an `svn info` with a user and a password. -/
def ReadsInfo (line : Text) : Prop :=
  ∃ user password rest, batchCommands (fun _ => []) line = [batInfoCommand user password rest]

theorem ReadsInfo.begins {line : Text} (h : ReadsInfo line) :
    ["svn".toList, "info".toList] <+: batchWords line := by
  obtain ⟨user, password, rest, hcmd⟩ := h
  unfold batchCommands at hcmd
  split_ifs at hcmd
  rw [(List.cons.inj hcmd).1]
  exact ⟨_, rfl⟩

/-- A line that begins with other words is no `svn info`. -/
theorem not_readsInfo {t line : Text} (hline : (t ++ [' ']).isPrefixOf line = true)
    (ht : ¬ (batchWords t).take 2 <+: ["svn".toList, "info".toList]) : ¬ ReadsInfo line := by
  intro h
  obtain ⟨u, rfl⟩ := List.isPrefixOf_iff_prefix.mp hline
  have hbegins := h.begins
  rw [List.append_assoc, List.singleton_append, batchWords,
    Shell.words_append_separator List.mem_cons_self] at hbegins
  have htake := hbegins.take 2
  have hleft : (batchWords t).take 2 <+: (batchWords t ++ Shell.words [' ', '\t'] u).take 2 :=
    (List.prefix_append _ _).take 2
  refine ht ?_
  have hinfo : ["svn".toList, "info".toList] =
      (batchWords t ++ Shell.words [' ', '\t'] u).take 2 := by
    refine htake.eq_of_length_le ?_
    rw [List.length_take]
    exact Nat.min_le_left _ _
  rw [hinfo]
  exact hleft

/-- The command is no `svn info`, or the one for the verified credentials. -/
def Cmd.IsInfoFor (x : Env × Text) (c : Cmd) : Prop :=
  ∀ line, c = .run [line] → ReadsInfo line →
    line = svnInfoLine (verified x.1).1 (verified x.1).2 x.2

section Info

variable {x : Env × Text}

theorem isInfoFor_line {line : Text} (h : ¬ ReadsInfo line) : (Cmd.run [line]).IsInfoFor x := by
  rintro _ ⟨⟩ hinfo
  exact absurd hinfo h

theorem emits_installBat_isInfoFor (args : List Text) (env : Env) (version : Text) :
    Emits (fun c _ => c.IsInfoFor x) (installBat args env version) := by
  have hexit : ∀ (b : Bool) n, Emits (fun c _ => c.IsInfoFor x) (ifThen b (leave n)) := fun _ _ =>
    emits_ite trivial trivial
  have hother : ∀ {t line : Text}, (t ++ [' ']).isPrefixOf line = true →
      ¬ (batchWords t).take 2 <+: ["svn".toList, "info".toList] → (Cmd.run [line]).IsInfoFor x :=
    fun hline ht => isInfoFor_line (not_readsInfo hline ht)
  have hcalls : ¬ (batchWords "CALL").take 2 <+: ["svn".toList, "info".toList] := by decide
  have hcd : ¬ (batchWords "cd").take 2 <+: ["svn".toList, "info".toList] := by decide
  have hcheckout : ¬ (batchWords "svn checkout").take 2 <+: ["svn".toList, "info".toList] := by
    decide
  have hverify : (Cmd.run ["verify"]).IsInfoFor x :=
    isInfoFor_line fun h => absurd h.begins (by decide)
  have hcall : ∀ {line : Text}, ("CALL".toList ++ [' ']).isPrefixOf line = true →
      Emits (fun c _ => c.IsInfoFor x) (callStep line) := fun hline =>
    emits_call (fun _ => hother hline hcalls) fun _ => hexit _ _
  have hstep4 : ∀ arg, Emits (fun c _ => c.IsInfoFor x) (setupStep4 env arg) := by
    intro arg
    cases arg with
    | none => exact trivial
    | some version =>
      simp only [setupStep4, Option.elim_some, commandLine_bind, fileTest_bind]
      refine emits_call (fun _ => hother rfl hcd) fun _ => emits_ite trivial ?_
      refine emits_call (fun _ => hother rfl hcheckout) fun _ => ?_
      refine emits_call (fun _ => hother rfl hcheckout) fun _ => ?_
      refine emits_call (fun _ _ h => by cases h) fun _ => emits_ite ?_ ?_
      · exact emits_call (fun _ => hother rfl hcd) fun _ => trivial
      · exact emits_call (fun _ => hother rfl hcd) fun _ => trivial
  simp only [installBat, commandLine_bind]
  refine emits_call (fun _ => hverify) fun _ => emits_bind (hcall rfl) fun _ => ?_
  refine emits_bind (hcall rfl) fun _ => emits_bind (hcall rfl) fun _ => ?_
  refine emits_call (fun _ => hother rfl hcalls) fun _ => emits_bind (hstep4 _) fun _ => ?_
  exact emits_bind (hexit _ _) fun _ => hcall rfl

theorem emits_verifySvn {user password path : Text}
    (h : (Cmd.run [svnInfoLine user password path]).IsInfoFor x) :
    Emits (fun c _ => c.IsInfoFor x) (verifySvn user password path) := by
  have hexit : ∀ (b : Bool) n, Emits (fun c _ => c.IsInfoFor x) (ifThen b (leave n)) := fun _ _ =>
    emits_ite trivial trivial
  have hversion : (Cmd.run ["svn --version"]).IsInfoFor x :=
    isInfoFor_line fun h => absurd h.begins (by decide)
  simp only [verifySvn, commandLine_bind]
  refine emits_call (fun _ => hversion) fun _ => emits_bind (hexit _ _) fun _ => ?_
  exact emits_call (fun _ => h) fun _ => hexit _ _

end Info

section Questions

variable {entries : Env} (env : Env) {x : Env × Text}

theorem triple_setP (var : Text) : Triple (Entered entries) (·.IsInfoFor x)
    (· = env.enter entries var) (setP var env) :=
  triple_of_emits (emits_call (fun _ _ h => by cases h) fun _ => trivial) (ensures_setP env var)

/-- The environment after the questions, when the default version is accepted. -/
theorem afterQuestions_yes (hy : Text.lower (env.answers entries "ANSWER") = "y".toList) :
    ∃ final, final = ((env.answers entries).enter entries "svnuser").enter entries "svnpassword" ∧
      afterQuestions entries env = (final, defaultPath) ∧
      verified final = (final "svnuser", final "svnpassword") := by
  refine ⟨_, rfl, if_pos hy, if_pos ?_⟩
  rw [Env.enter, Env.enter, Function.update_of_ne (by decide), Function.update_of_ne (by decide), hy]

/-- The environment after the questions, when another version is typed. -/
theorem afterQuestions_no (hy : Text.lower (env.answers entries "ANSWER") ≠ "y".toList) :
    ∃ final, final = (((env.answers entries).enter entries "diffcode").enter entries
        "avettisvnuser").enter entries "avettisvnpassword" ∧
      afterQuestions entries env = (final, final "diffcode") ∧
      verified final = (final "avettisvnuser", final "avettisvnpassword") := by
  refine ⟨_, rfl, if_neg hy, if_neg ?_⟩
  rw [Env.enter, Env.enter, Env.enter, Function.update_of_ne (by decide),
    Function.update_of_ne (by decide), Function.update_of_ne (by decide)]
  exact hy

/-- **The only `svn info`** before the steps is that for the verified credentials. -/
theorem triple_askVersion : Triple (Entered entries) (·.IsInfoFor (afterQuestions entries env))
    (fun _ => True) (askVersion env) := by
  refine triple_bind (triple_setP env _) fun env₁ h₁ => triple_ite (fun _ => triple_leave 0) ?_
  refine fun _ => triple_bind (triple_setP env₁ _) fun env₂ h₂ => ?_
  have hanswers : env₂ = env.answers entries := by rw [h₂, h₁, Env.answers]
  refine triple_ite (fun hy => ?_) fun hy => triple_ite (fun _ => ?_) fun _ => triple_leave 1
  · rw [hanswers] at hy
    obtain ⟨final, hfinal', hafter, hverified⟩ := afterQuestions_yes env hy
    refine triple_bind (triple_setP env₂ _) fun env₃ h₃ => ?_
    refine triple_bind (triple_setP env₃ _) fun env₄ h₄ => ?_
    have hfinal : env₄ = final := by rw [h₄, h₃, hanswers, hfinal']
    refine triple_seq (emits_verifySvn ?_) fun _ => triple_pure trivial
    rintro _ ⟨⟩ -
    rw [hafter, hverified, hfinal]
  · rw [hanswers] at hy
    obtain ⟨final, hfinal', hafter, hverified⟩ := afterQuestions_no env hy
    refine triple_bind (triple_setP env₂ _) fun env₃ h₃ => ?_
    refine triple_bind (triple_setP env₃ _) fun env₄ h₄ => ?_
    refine triple_bind (triple_setP env₄ _) fun env₅ h₅ => ?_
    have hfinal : env₅ = final := by rw [h₅, h₄, h₃, hanswers, hfinal']
    refine triple_seq (emits_verifySvn ?_) fun _ => triple_pure trivial
    rintro _ ⟨⟩ -
    rw [hafter, hverified, hfinal]

theorem triple_setupBat (args : List Text) :
    Triple (Entered entries) (·.IsInfoFor (afterQuestions entries env)) (fun _ => True)
      (setupBat env args) := by
  have hexit : ∀ (b : Bool) n,
      Emits (fun c _ => c.IsInfoFor (afterQuestions entries env)) (ifThen b (leave n)) := fun _ _ =>
    emits_ite trivial trivial
  have hsession : (Cmd.run ["net session"]).IsInfoFor (afterQuestions entries env) :=
    isInfoFor_line fun h => absurd h.begins (by decide)
  simp only [setupBat, commandLine_bind]
  refine triple_seq (hexit _ _) fun _ => triple_call hsession fun _ _ => ?_
  refine triple_seq (hexit _ _) fun _ => triple_bind (triple_askVersion env) fun x _ => ?_
  exact triple_of_emits (emits_installBat_isInfoFor _ _ _) fun _ _ _ _ => trivial

end Questions

/-! ## A run that comes to the checkout -/

/-- The replies of a console with the entries, where every command line succeeds. -/
def entering (entries : Env) : Cmd → Reply
  | .read var => ⟨0, entries var⟩
  | _ => ⟨0, []⟩

theorem entered_entering (entries : Env) (c : Cmd) : Entered entries c (entering entries c) := by
  cases c with
  | read var => rfl
  | _ => trivial

section Meets

variable {entries : Env} {env : Env}

theorem returns_setP (var : Text) (env : Env) :
    Returns (entering entries) (· = env.enter entries var) (setP var env) :=
  returns_call (returns_pure rfl)

/-- The test of an `errorlevel` of 0 goes on. -/
theorem returns_ifThen (p : Sh Unit) :
    Returns (entering entries) (fun _ => True) (ifThen (decide ((0 : Int) ≠ 0)) p) :=
  returns_pure trivial

theorem returns_verifySvn (user password path : Text) :
    Returns (entering entries) (fun _ => True) (verifySvn user password path) := by
  simp only [verifySvn, commandLine_bind]
  refine returns_call (returns_bind (returns_ifThen _) fun _ _ => ?_)
  exact returns_call (returns_ifThen _)

theorem returns_callStep (line : Text) :
    Returns (entering entries) (fun _ => True) (callStep line) := returns_call (returns_ifThen _)

theorem returns_askVersion (haccepted : Accepted (env.answers entries))
    (hy : Text.lower (env.answers entries "ANSWER") = "y".toList) :
    Returns (entering entries) (· = afterQuestions entries env) (askVersion env) := by
  refine returns_bind (returns_setP _ env) fun env₁ h₁ => ?_
  have huse : ¬ (env₁ "useParam" ≠ "y".toList ∧ env₁ "useParam" ≠ "Y".toList) := by
    have h := haccepted.1
    rw [Env.answers, Env.enter, Function.update_of_ne (by decide)] at h
    rw [h₁]
    tauto
  rw [if_neg huse]
  refine returns_bind (returns_setP _ env₁) fun env₂ h₂ => ?_
  have hanswers : env₂ = env.answers entries := by rw [h₂, h₁, Env.answers]
  obtain ⟨final, hfinal', hafter, -⟩ := afterQuestions_yes env hy
  rw [if_pos (hanswers ▸ hy), hafter]
  refine returns_bind (returns_setP _ env₂) fun env₃ h₃ => ?_
  refine returns_bind (returns_setP _ env₃) fun env₄ h₄ => ?_
  refine returns_bind (returns_verifySvn _ _ _) fun _ _ => returns_pure ?_
  rw [h₄, h₃, hanswers, hfinal']

/-- The fourth step takes the default path as its first argument. -/
theorem head?_step4Line (env : Env) : (Shell.words argumentSeparators
    ((step4Line env defaultPath).drop "CALL setup-step4.bat".length)).head? = some defaultPath := by
  have hdrop : (step4Line env defaultPath).drop "CALL setup-step4.bat".length =
      [] ++ ' ' :: (defaultPath ++ ' ' :: (env "avettisvnuser" ++ ' ' :: env "avettisvnpassword")) := by
    have hcall : "CALL setup-step4.bat ".toList = "CALL setup-step4.bat".toList ++ [' '] := rfl
    have hblank : " ".toList = [' '] := rfl
    unfold step4Line
    generalize defaultPath = path
    rw [hcall, hblank]
    simp only [List.append_assoc, List.cons_append, List.nil_append]
    exact List.drop_left
  have hword : Shell.IsWord argumentSeparators defaultPath := ⟨by decide, by decide⟩
  have hblank : ' ' ∈ argumentSeparators := by decide
  rw [hdrop, Shell.words_append_separator hblank, Shell.words_append_cons hword hblank]
  rfl

/-- **A run that comes to the checkout** of the default version. -/
theorem meets_setupBat (haccepted : Accepted (env.answers entries))
    (hy : Text.lower (env.answers entries "ANSWER") = "y".toList) :
    Meets (entering entries) (· = .run [svnCheckoutLine
        ((afterQuestions entries env).1 "avettisvnuser")
        ((afterQuestions entries env).1 "avettisvnpassword") (repository defaultPath)])
      (setupBat env ["secret"]) := by
  have hbefore : Returns (entering entries) (· = afterQuestions entries env)
      (beforeSteps env ["secret"]) := by
    simp only [beforeSteps, commandLine_bind]
    refine returns_bind (returns_pure trivial : Returns _ (fun _ => True) _) fun _ _ => ?_
    refine returns_call (returns_bind (returns_ifThen _) fun _ _ => ?_)
    exact returns_askVersion haccepted hy
  obtain ⟨final, -, hafter, -⟩ := afterQuestions_yes env hy
  rw [hafter] at hbefore ⊢
  have hstep4 : Meets (entering entries) (· = .run [svnCheckoutLine (final "avettisvnuser")
      (final "avettisvnpassword") (repository defaultPath)]) (setupStep4 final (some defaultPath)) := by
    simp only [setupStep4, Option.elim_some, commandLine_bind]
    refine meets_call ?_
    rw [if_neg (by simp [entering])]
    refine meets_call_here ?_ _
    rfl
  rw [setupBat_eq]
  refine meets_bind hbefore fun x hx => ?_
  rw [hx]
  simp only [installBat, commandLine_bind]
  refine meets_call (meets_bind (returns_callStep _) fun _ _ => ?_)
  refine meets_bind (returns_callStep _) fun _ _ => meets_bind (returns_callStep _) fun _ _ => ?_
  refine meets_call (Meets.bind ?_ _)
  rw [head?_step4Line]
  exact hstep4

end Meets

/-! ## Both directions -/

section Variables

variable {entries env : Env}

/-- With plain values, the verified credentials are used in all runs only if the variables of the
checkout have the same values. -/
theorem sameVariables_of_usesVerified (hx : PlainConsole (afterQuestions entries env))
    (h : ∀ (other : Text → List (List Text)) args t o, Runs (setupBat env args) t o →
      (∀ e ∈ t, Entered entries e.1 e.2) → UsesVerifiedBat (batchCommands other) t)
    (haccepted : Accepted (env.answers entries)) : SameVariables (afterQuestions entries env).1 := by
  by_cases hy : Text.lower (env.answers entries "ANSWER") = "y".toList
  · obtain ⟨final, -, hafter, -⟩ := afterQuestions_yes env hy
    obtain ⟨t, o, hrun, hreply, ⟨c, r⟩, hmem, rfl⟩ := meets_setupBat haccepted hy
    have hentered : ∀ e ∈ t, Entered entries e.1 e.2 := fun e he =>
      hreply e he ▸ entered_entering entries e.1
    have hinfos := (triple_setupBat env ["secret"] t o hrun hentered).1
    obtain ⟨pre, post, rfl⟩ := List.append_of_mem hmem
    have hnot : svnCheckoutLine ((afterQuestions entries env).1 "avettisvnuser")
        ((afterQuestions entries env).1 "avettisvnpassword") (repository defaultPath) ≠ lgplLine := by
      intro heq
      have hcode : "enterprise".toList <:+ repository defaultPath := by decide
      have hlgpl : ¬ "enterprise".toList <:+ lgplLine := by decide
      exact hlgpl (heq ▸ hcode.trans (List.suffix_append _ _))
    obtain ⟨user, password, rest, rest', info, r', hinfo, -, -, -, hcmd, hcode, -⟩ :=
      h (fun _ => []) ["secret"] _ o hrun hentered pre _ r post rfl rfl hnot
    -- the line that was read as `svn info` is the one for the verified credentials
    have hline := hinfos _ (List.mem_append_left _ hinfo) info rfl ⟨user, password, rest, hcmd⟩
    rw [hline, commands_infoLine hx] at hcmd
    have hversion : ∀ c ∈ defaultPath, c ∉ batchOperators ++ [' ', '\t'] := by decide
    rw [commands_codeLine hx hversion] at hcode
    simp only [batInfoCommand, batCheckoutCommand, List.cons_append, List.cons.injEq,
      List.append_cancel_left_eq, true_and, and_true] at hcmd hcode
    exact Prod.ext (hcmd.1.trans hcode.1.symm) (hcmd.2.1.trans hcode.2.1.symm)
  · obtain ⟨final, -, hafter, hverified⟩ := afterQuestions_no env hy
    rw [hafter]
    exact hverified

end Variables

/-- **The verified credentials are used**, with values that have no meaning of their own for the
shells that read them: in every run of `setup.sh`, and in every run of `setup.bat` exactly when the
variables of the checkout have the values that were verified. -/
theorem usesVerified_iff_of_plain (glob glob' : Text → List Text) (a : SvnAnswers)
    (ha : PlainAnswers glob glob' a) (entries env : Env)
    (hx : PlainConsole (afterQuestions entries env)) :
    (∀ (other : Text → List (List Text)) JAVA_HOME args t o,
      Runs (setup glob JAVA_HOME args) t o → (∀ e ∈ t, SvnAnswered a e.1 e.2) →
        UsesVerified (Shell.commands other glob') t) ∧
    ((∀ (other : Text → List (List Text)) args t o, Runs (setupBat env args) t o →
      (∀ e ∈ t, Entered entries e.1 e.2) → UsesVerifiedBat (batchCommands other) t) ↔
        (Accepted (env.answers entries) → SameVariables (afterQuestions entries env).1)) :=
  ⟨fun other _ _ _ _ h ht => usesVerified_setup ha other h ht,
    sameVariables_of_usesVerified hx,
    fun hsame other _ _ _ h ht => usesVerified_setupBat hx hsame other h ht⟩

/-- The run of the batch file with the entries. -/
def enteredRun (entries env : Env) (args : List Text) : Trace :=
  (exec (answering (entering entries)) (setupBat env args) ()).trace

theorem entered_enteredRun (entries env : Env) (args : List Text) :
    ∀ e ∈ enteredRun entries env args, Entered entries e.1 e.2 := by
  rintro ⟨c, r⟩ he
  have hr : r = entering entries c := reply_of_mem_exec_answering he
  cases c with
  | read var => exact congrArg Reply.out hr
  | _ => trivial

/-- The default version is accepted, and the credentials are typed. -/
def defaultEntries : Env := fun var =>
  if var ∈ ["useParam".toList, "ANSWER".toList] then "y"
  else if var = "svnuser".toList then "anna"
  else if var = "svnpassword".toList then "s3cret"
  else []

/-- Another version is typed, and the credentials for it. -/
def typedEntries : Env := fun var =>
  if var = "useParam".toList then "y"
  else if var = "ANSWER".toList then "n"
  else if var = "diffcode".toList then "commerce8.5/trunk"
  else if var = "avettisvnuser".toList then "anna"
  else if var = "avettisvnpassword".toList then "s3cret"
  else []

theorem plainConsole_of_forall {x : Env × Text}
    (h : (∀ w ∈ [(verified x.1).1, (verified x.1).2, x.1 "avettisvnuser", x.1 "avettisvnpassword"],
        ∀ c ∈ w, c ∉ batchOperators ++ [' ', '\t']) ∧ (∀ c ∈ x.2, c ∉ batchOperators) ∧
      ∀ w ∈ batchWords (repository x.2), w.head? ≠ some '-') : PlainConsole x :=
  ⟨h.1 _ (by simp), h.1 _ (by simp), h.1 _ (by simp), h.1 _ (by simp), h.2.1, h.2.2⟩

theorem plainAnswers_y : PlainAnswers (fun _ => []) (fun _ => []) ⟨"y", "y", "y"⟩ := by
  have hword : ∀ w ∈ Shell.words Shell.defaultIFS
      (repository (typedPath (fun _ => []) "y".toList)),
      Shell.isInert w = true ∧ Shell.expand (fun _ => []) w = [w] ∧ w.head? ≠ some '-' := by
    decide
  refine ⟨⟨by decide, by decide, by decide, by decide⟩, ⟨by decide, by decide, by decide, by decide⟩, ?_⟩
  exact ⟨by decide, fun w hw => (hword w hw).1, by decide,
    fun w hw => (hword w hw).2.1, fun w hw => (hword w hw).2.2⟩

theorem plainConsole_typed : PlainConsole (afterQuestions typedEntries fun _ => []) :=
  plainConsole_of_forall (by decide)

theorem plainConsole_default : PlainConsole (afterQuestions defaultEntries fun _ => []) :=
  plainConsole_of_forall (by decide)

theorem usesVerified_iff_of_plain_typed :
    UsesVerified (Shell.commands (fun _ => []) fun _ => [])
      (exec (answering (succeeding [])) (setup (fun _ => []) [] ["secret"]) ()).trace ∧
    UsesVerifiedBat (batchCommands fun _ => []) (enteredRun typedEntries (fun _ => []) ["secret"]) := by
  have h := usesVerified_iff_of_plain _ _ _ plainAnswers_y _ _ plainConsole_typed
  have hsame : SameVariables (afterQuestions typedEntries fun _ => []).1 := by
    have hpair : verified (afterQuestions typedEntries fun _ => []).1 =
        ((afterQuestions typedEntries fun _ => []).1 "avettisvnuser",
          (afterQuestions typedEntries fun _ => []).1 "avettisvnpassword") := by decide
    exact hpair
  refine ⟨h.1 _ _ _ _ _ (runs_exec _ _ ()) ?_,
    h.2.mpr (fun _ => hsame) _ _ _ _ (runs_exec _ _ ()) (entered_enteredRun _ _ _)⟩
  rintro ⟨c, r⟩ he
  have hr : r = succeeding [] c := reply_of_mem_exec_answering he
  cases c with
  | read var =>
    have hout : r.out = "y".toList := congrArg Reply.out hr
    exact ⟨fun _ => hout, fun _ => hout, fun _ => hout⟩
  | _ => trivial

/-- With the default version the checkout gets no credentials: nothing has set its variables. -/
theorem not_usesVerifiedBat_default :
    ¬ ∀ (other : Text → List (List Text)) (entries env : Env) args t o,
      Runs (setupBat env args) t o → (∀ e ∈ t, Entered entries e.1 e.2) →
        UsesVerifiedBat (batchCommands other) t := by
  intro h
  have haccepted : Accepted (Env.answers (fun _ => []) defaultEntries) := by decide
  have hsame := sameVariables_of_usesVerified plainConsole_default
    (fun other => h other defaultEntries fun _ => []) haccepted
  have hdiffer : verified (afterQuestions defaultEntries fun _ => []).1 ≠
      ((afterQuestions defaultEntries fun _ => []).1 "avettisvnuser",
        (afterQuestions defaultEntries fun _ => []).1 "avettisvnpassword") := by decide
  exact hdiffer hsame

end Avetti
