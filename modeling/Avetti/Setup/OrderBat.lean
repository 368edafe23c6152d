import Avetti.Setup.VerifiedCredentials
import Avetti.Script.Gate

/-!
# The order of a run of setup.bat

`setup.bat` calls its steps one after the other, each by its number. A step is called only in a
session of an administrator, after the credentials for the code were verified and after every step
before it has ended without an error; the last one only when the directory of the code exists.

## Main definitions

* `Cmd.step`: the number of the step that a command line calls
* `OrderedBat t`: the order of the events of the run `t`

## Main results

* `step_beforeSteps`: up to the questions no step is called
* `visits_callStep`: a step that has an error ends the batch file
* `visits_directory`: the fourth step ends without an error when the directory of the code exists
* `ordered_setupBat`: every run is in this order
-/

open Script

namespace Avetti

variable {α β : Type}

/-- The number of the step that a line calls, or 0 for any other line. -/
def stepOf (line : Text) : ℕ :=
  if "CALL setup-step".toList.isPrefixOf line then
    (line.drop "CALL setup-step".length).head?.elim 0 fun c => c.toNat - '0'.toNat
  else 0

/-- The number of the step that a command line calls. -/
def Cmd.step : Cmd → ℕ
  | .run [line] => stepOf line
  | _ => 0

/-- The session is one of an administrator. -/
def IsAdministrator (e : Cmd × Reply) : Prop := e.1 = .run ["net session"] ∧ e.2.status = 0

/-- The step has ended without an error. -/
def StepDone (n : ℕ) (e : Cmd × Reply) : Prop := e.1.step = n ∧ e.2.status = 0

/-- A directory exists. -/
def DirectoryExists (e : Cmd × Reply) : Prop := (∃ dir, e.1 = .test "-e" dir) ∧ e.2.status = 0

/-- **The order of a run**: everything is done by an administrator, the steps are called after a
successful `svn info`, each after those before it, and the last one when the directory exists. -/
structure OrderedBat (t : Trace) : Prop where
  administrator : After IsAdministrator (fun e => e.1 ≠ .run ["net session"]) t
  verified : After (fun e => ∃ x, VerifiesBat x e) (fun e => 0 < e.1.step) t
  steps : ∀ n ∈ [1, 2, 3], After (StepDone n) (fun e => n < e.1.step) t
  directory : After DirectoryExists (fun e => 4 < e.1.step) t

/-! ## Steps that are not called -/

/-- No step after the step `n` is called. -/
def UpTo (n : ℕ) (p : Sh α) : Prop := Emits (fun c _ => ¬ n < c.step) p

section UpTo

variable {n : ℕ}

theorem UpTo.bind {p : Sh α} {q : α → Sh β} (hp : UpTo n p) (hq : ∀ a, UpTo n (q a)) :
    UpTo n (p >>= q) := emits_bind hp hq

theorem upTo_call {c : Cmd} {k : Reply → Sh α} {m : ℕ} (hc : c.step = m) (hm : m ≤ n)
    (hk : ∀ r, UpTo n (k r)) : UpTo n (call c k) := by
  refine emits_call (fun _ => ?_) hk
  rw [hc]
  exact Nat.not_lt.mpr hm

theorem upTo_ifThen (c : Bool) (status : Int) : UpTo n (ifThen c (leave status)) :=
  emits_ite trivial trivial

theorem upTo_callStep {line : Text} {m : ℕ} (hline : stepOf line = m) (hm : m ≤ n) :
    UpTo n (callStep line) :=
  upTo_call (c := .run [line]) hline hm fun _ => upTo_ifThen _ _

/-- **Up to the questions** no step is called. -/
theorem step_beforeSteps (env : Env) (args : List Text) : UpTo n (beforeSteps env args) := by
  have hzero : 0 ≤ n := Nat.zero_le n
  have hsetP : ∀ var (env : Env), UpTo n (setP var env) := fun var env =>
    upTo_call (c := .read var) rfl hzero fun _ => trivial
  have hverify : ∀ user password path, UpTo n (verifySvn user password path) := by
    intro user password path
    simp only [verifySvn, commandLine_bind]
    refine upTo_call rfl hzero fun _ => (upTo_ifThen _ _).bind fun _ => ?_
    exact upTo_call rfl hzero fun _ => upTo_ifThen _ _
  have hyes : ∀ env : Env, UpTo n (answeredYes env) := fun env =>
    (hsetP _ _).bind fun _ => (hsetP _ _).bind fun _ => (hverify _ _ _).bind fun _ => trivial
  have hno : ∀ env : Env, UpTo n (answeredNo env) := fun env =>
    (hsetP _ _).bind fun _ => (hsetP _ _).bind fun _ => (hsetP _ _).bind fun _ =>
      (hverify _ _ _).bind fun _ => trivial
  simp only [beforeSteps, commandLine_bind]
  refine (upTo_ifThen _ _).bind fun _ => upTo_call rfl hzero fun _ => ?_
  refine (upTo_ifThen _ _).bind fun _ => (hsetP _ _).bind fun _ => emits_ite trivial ?_
  exact (hsetP _ _).bind fun _ => emits_ite (hyes _) (emits_ite (hno _) trivial)

theorem step_setupStep4 (env : Env) (arg : Option Text) :
    UpTo n (setupStep4 env arg) := by
  have hzero : 0 ≤ n := Nat.zero_le n
  cases arg with
  | none => exact trivial
  | some version =>
    simp only [setupStep4, Option.elim_some, commandLine_bind, fileTest_bind]
    refine upTo_call rfl hzero fun _ => emits_ite trivial ?_
    refine upTo_call rfl hzero fun _ => upTo_call rfl hzero fun _ => upTo_call rfl hzero fun _ => ?_
    exact emits_ite (upTo_call rfl hzero fun _ => trivial) (upTo_call rfl hzero fun _ => trivial)

theorem behind_upTo_seq {G : Cmd × Reply → Prop} {p : Sh α} {f : α → Sh β} (hp : UpTo n p)
    (hf : ∀ a, Behind G (fun e => n < e.1.step) (f a)) :
    Behind G (fun e => n < e.1.step) (p >>= f) := behind_seq hp hf

/-- The gate that the steps after the step `n` are behind. -/
theorem behind_upTo {G : Cmd × Reply → Prop} {p : Sh α} (hp : UpTo n p)
    (hG : Visits (fun _ => G) p) (f : α → Sh β) :
    Behind G (fun e => n < e.1.step) (p >>= f) := by
  refine behind_bind ?_ hG f
  exact hp

end UpTo

/-! ## Steps that have ended -/

/-- A test of the `errorlevel` goes on only when it is 0. -/
theorem status_of_ifThen {status : Int} {n : Int} {t : Trace}
    (h : Runs (ifThen (status ≠ 0) (leave n)) t (.returned ())) : status = 0 := by
  by_contra hstatus
  rw [decide_eq_true hstatus] at h
  obtain ⟨-, hexit⟩ := runs_exit_iff.mp h
  cases hexit

theorem visits_callStep {line : Text} {n : ℕ} (hline : stepOf line = n) :
    Visits (fun _ => StepDone n) (callStep line) := by
  rintro t ⟨⟩ hrun
  obtain ⟨r, t', rfl, h⟩ := runs_call_iff.mp hrun
  exact ⟨_, List.mem_cons_self, hline, status_of_ifThen h⟩

/-- The fourth step leaves an `errorlevel` of 0 only when the directory of the code exists. -/
theorem ensures_setupStep4 (env : Env) (arg : Option Text) (t : Trace) :
    Ensures (fun c r => (c, r) ∈ t) (fun errorlevel => errorlevel = 0 → ∃ e ∈ t, DirectoryExists e)
      (setupStep4 env arg) := by
  cases arg with
  | none => exact ensures_pure fun h => by cases h
  | some version =>
    simp only [setupStep4, Option.elim_some, commandLine_bind, fileTest_bind]
    refine ensures_call fun r _ => ensures_ite (fun hcd => ensures_pure fun h => absurd h hcd) ?_
    refine fun _ => ensures_call fun _ _ => ensures_call fun _ _ => ensures_call fun r hr => ?_
    refine ensures_ite (fun hexists => ?_) fun _ => ensures_call fun _ _ => ensures_pure fun h => ?_
    · -- whatever the last `cd` leaves, the directory was there
      intro _ _ _ _ _
      exact ⟨_, hr, ⟨_, rfl⟩, of_decide_eq_true hexists⟩
    · cases h

/-- **The fourth step** goes on to the last one only when the directory of the code exists. -/
theorem visits_directory (env : Env) (arg : Option Text) : Visits (fun _ => DirectoryExists)
    (setupStep4 env arg >>= fun errorlevel => ifThen (errorlevel ≠ 0) (leave errorlevel)) := by
  rintro t ⟨⟩ hrun
  obtain ⟨errorlevel, t₁, t₂, rfl, h₁, h₂⟩ := runs_bind_returned hrun
  have hzero : errorlevel = 0 := status_of_ifThen h₂
  obtain ⟨e, he, hexists⟩ := ensures_setupStep4 env arg t₁ t₁ errorlevel h₁ (fun e he => he) hzero
  exact ⟨e, List.mem_append_left t₂ he, hexists⟩

/-! ## The order -/

section Order

variable (env : Env) (args : List Text)

theorem behind_administrator :
    Behind IsAdministrator (fun e => e.1 ≠ .run ["net session"]) (setupBat env args) := by
  have hgate : Visits (fun _ => IsAdministrator) (do
      let errorlevel ← commandLine "net session"
      ifThen (errorlevel ≠ 0) (leave 1)) := by
    rintro t ⟨⟩ hrun
    obtain ⟨r, t', rfl, h⟩ := runs_call_iff.mp hrun
    exact ⟨_, List.mem_cons_self, rfl, status_of_ifThen h⟩
  have hsplit : setupBat env args = ifThen ((args[0]?).getD [] = []) (leave 0) >>= fun _ =>
      (do
        let errorlevel ← commandLine "net session"
        ifThen (errorlevel ≠ 0) (leave 1)) >>= fun _ => askVersion env >>= fun x =>
          installBat args x.1 x.2 := by
    simp only [setupBat, bind_assoc]
  rw [hsplit]
  refine behind_seq (emits_ite trivial trivial) fun _ => behind_bind ?_ hgate _
  exact emits_call (fun _ h => h rfl) fun _ => emits_ite trivial trivial

theorem behind_verifiedBat :
    Behind (fun e => ∃ x, VerifiesBat x e) (fun e => 0 < e.1.step) (setupBat env args) := by
  rw [setupBat_eq]
  refine behind_upTo (step_beforeSteps env args) (fun t x h => ?_) _
  have hvisits : Visits VerifiesBat (beforeSteps env args) :=
    visits_seq fun _ => visits_seq fun _ => visits_seq fun _ => visits_askVersion env
  obtain ⟨e, he, hverifies⟩ := hvisits t x h
  exact ⟨e, he, x, hverifies⟩

/-- The steps up to the third one: each has ended before the next one is called. -/
theorem behind_step {n : ℕ} (hn : n ∈ [1, 2, 3]) :
    Behind (StepDone n) (fun e => n < e.1.step) (setupBat env args) := by
  rw [setupBat_eq]
  refine behind_upTo_seq (step_beforeSteps env args) fun x => ?_
  simp only [installBat, commandLine]
  refine behind_upTo_seq (upTo_call (m := 0) rfl (Nat.zero_le n) fun _ => trivial) fun _ => ?_
  have hcases : n = 1 ∨ n = 2 ∨ n = 3 := by simpa using hn
  -- the gate is the call of the step itself, after the steps before it
  rcases hcases with rfl | rfl | rfl
  · exact behind_upTo (upTo_callStep (m := 1) rfl (by decide)) (visits_callStep rfl) _
  · refine behind_upTo_seq (upTo_callStep (m := 1) rfl (by decide)) fun _ => ?_
    exact behind_upTo (upTo_callStep (m := 2) rfl (by decide)) (visits_callStep rfl) _
  · refine behind_upTo_seq (upTo_callStep (m := 1) rfl (by decide)) fun _ => ?_
    refine behind_upTo_seq (upTo_callStep (m := 2) rfl (by decide)) fun _ => ?_
    exact behind_upTo (upTo_callStep (m := 3) rfl (by decide)) (visits_callStep rfl) _

/-- The fourth step, which is written out: the directory of the code exists when it has ended. -/
theorem behind_directory :
    Behind DirectoryExists (fun e => 4 < e.1.step) (setupBat env args) := by
  rw [setupBat_eq]
  refine behind_upTo_seq (step_beforeSteps env args) fun x => ?_
  simp only [installBat, commandLine]
  refine behind_upTo_seq (upTo_call (m := 0) rfl (Nat.zero_le 4) fun _ => trivial) fun _ => ?_
  refine behind_upTo_seq (upTo_callStep (m := 1) rfl (by decide)) fun _ => ?_
  refine behind_upTo_seq (upTo_callStep (m := 2) rfl (by decide)) fun _ => ?_
  refine behind_upTo_seq (upTo_callStep (m := 3) rfl (by decide)) fun _ => ?_
  refine behind_upTo_seq (upTo_call (m := 4) rfl (le_refl 4) fun _ => trivial) fun _ => ?_
  rw [← bind_assoc]
  refine behind_upTo ?_ (visits_directory _ _) _
  exact (step_setupStep4 _ _).bind fun _ => upTo_ifThen _ _

end Order

end Avetti
