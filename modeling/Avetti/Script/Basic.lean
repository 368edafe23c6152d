import Mathlib.Data.List.Basic

/-!
# Scripts and their runs

A script returns a value, leaves with an exit status, or runs a command and continues with the
command's reply. A run is one branch of that tree: the commands it runs, each with its reply, and
how it ends. Against a handler, which answers every command from a state, a script has exactly one
run.

## Main definitions

* `Script C R α`: scripts over the commands `C`, with replies `R`, returning `α`
* `Runs p t o`: the run of `p` with the trace `t` and the outcome `o`
* `exec h p s`: the run of `p` against the handler `h`, from the state `s`
* `Emits S p`: every command `p` can run has a reply in `S`
* `Stops F p`: a run of `p` ends at the first event in `F`

## Main results

* `runs_bind_iff`: the runs of a sequence are those of its parts
* `runs_exec`: the run against a handler is a run
* `Runs.emits`, `emits_bind`: the events of a run are those its script emits
* `stops_bind`: a sequence of scripts that stop at a failure stops at a failure
-/

/-- A script: it returns a value, leaves with an exit status, or runs a command and continues
with the reply. -/
inductive Script (C R α : Type) where
  | ret (a : α)
  | exit (status : Int)
  | call (c : C) (k : R → Script C R α)

/-- How a run ends: the script returned a value, or it left with an exit status. -/
inductive Outcome (α : Type) where
  | returned (a : α)
  | exited (status : Int)
  deriving DecidableEq, Repr

namespace Outcome

variable {α : Type}

/-- The run came to the end of the script. -/
def isReturned : Outcome α → Bool
  | returned _ => true
  | exited _ => false

@[simp] theorem isReturned_returned (a : α) : (returned a).isReturned = true := rfl

@[simp] theorem isReturned_exited (n : Int) : (exited n : Outcome α).isReturned = false := rfl

end Outcome

namespace Script

variable {C R α β σ : Type}

/-- Sequencing: the second script continues with the value of the first, unless the first
leaves. -/
def bind : Script C R α → (α → Script C R β) → Script C R β
  | ret a, f => f a
  | exit n, _ => exit n
  | call c k, f => call c fun r => (k r).bind f

instance : Monad (Script C R) where
  pure := ret
  bind := bind

/-- Run one command. -/
def command (c : C) : Script C R R := call c ret

/-- Leave the script with an exit status. -/
def leave (status : Int) : Script C R α := exit status

@[simp] theorem ret_bind (a : α) (f : α → Script C R β) : (ret a >>= f) = f a := rfl

@[simp] theorem pure_bind' (a : α) (f : α → Script C R β) :
    ((pure a : Script C R α) >>= f) = f a := rfl

@[simp] theorem exit_bind (n : Int) (f : α → Script C R β) :
    ((exit n : Script C R α) >>= f) = exit n := rfl

@[simp] theorem leave_bind (n : Int) (f : α → Script C R β) :
    ((leave n : Script C R α) >>= f) = leave n := rfl

@[simp] theorem call_bind (c : C) (k : R → Script C R α) (f : α → Script C R β) :
    (call c k >>= f) = call c fun r => k r >>= f := rfl

@[simp] theorem command_bind (c : C) (f : R → Script C R β) :
    (command c >>= f) = call c f := rfl

@[simp] theorem leave_map (n : Int) (f : α → β) :
    f <$> (leave n : Script C R α) = leave n := rfl

theorem bind_ret (p : Script C R α) : p >>= ret = p := by
  induction p with
  | ret a => rfl
  | exit n => rfl
  | call c k ih => exact congrArg (call c) (funext ih)

theorem bind_assoc' {γ : Type} (p : Script C R α) (f : α → Script C R β)
    (g : β → Script C R γ) : p >>= f >>= g = p >>= fun a => f a >>= g := by
  induction p with
  | ret a => rfl
  | exit n => rfl
  | call c k ih => exact congrArg (call c) (funext ih)

instance : LawfulMonad (Script C R) :=
  LawfulMonad.mk' (Script C R) bind_ret (fun _ _ => rfl) bind_assoc'

/-! ## Runs -/

/-- The runs of a script: the commands run, each with its reply, and the outcome. -/
inductive Runs : Script C R α → List (C × R) → Outcome α → Prop where
  | ret (a : α) : Runs (ret a) [] (.returned a)
  | exit (n : Int) : Runs (exit n) [] (.exited n)
  | call {c : C} {k : R → Script C R α} {t : List (C × R)} {o : Outcome α} (r : R)
      (rest : Runs (k r) t o) : Runs (call c k) ((c, r) :: t) o

theorem runs_ret_iff {a : α} {t : List (C × R)} {o : Outcome α} :
    Runs (ret a) t o ↔ t = [] ∧ o = .returned a := by
  constructor
  · rintro ⟨⟩
    exact ⟨rfl, rfl⟩
  · rintro ⟨rfl, rfl⟩
    exact .ret a

theorem runs_exit_iff {n : Int} {t : List (C × R)} {o : Outcome α} :
    Runs (exit n) t o ↔ t = [] ∧ o = .exited n := by
  constructor
  · rintro ⟨⟩
    exact ⟨rfl, rfl⟩
  · rintro ⟨rfl, rfl⟩
    exact .exit n

theorem runs_call_iff {c : C} {k : R → Script C R α} {t : List (C × R)} {o : Outcome α} :
    Runs (call c k) t o ↔ ∃ r t', t = (c, r) :: t' ∧ Runs (k r) t' o := by
  constructor
  · rintro ⟨⟩
    exact ⟨_, _, rfl, ‹_›⟩
  · rintro ⟨r, t', rfl, h⟩
    exact .call r h

theorem Runs.bind {p : Script C R α} {f : α → Script C R β} {t u : List (C × R)} {a : α}
    {o : Outcome β} (hp : Runs p t (.returned a)) (hf : Runs (f a) u o) :
    Runs (p >>= f) (t ++ u) o := by
  induction p generalizing t with
  | ret b =>
    obtain ⟨rfl, h⟩ := runs_ret_iff.mp hp
    cases h
    exact hf
  | exit n =>
    obtain ⟨-, h⟩ := runs_exit_iff.mp hp
    cases h
  | call c k ih =>
    obtain ⟨r, t', rfl, h⟩ := runs_call_iff.mp hp
    exact .call r (ih r h)

theorem Runs.bind_exited {p : Script C R α} (f : α → Script C R β) {t : List (C × R)} {n : Int}
    (hp : Runs p t (.exited n)) : Runs (p >>= f) t (.exited n) := by
  induction p generalizing t with
  | ret b =>
    obtain ⟨-, h⟩ := runs_ret_iff.mp hp
    cases h
  | exit m =>
    obtain ⟨rfl, h⟩ := runs_exit_iff.mp hp
    cases h
    exact .exit _
  | call c k ih =>
    obtain ⟨r, t', rfl, h⟩ := runs_call_iff.mp hp
    exact .call r (ih r h)

/-- **The runs of a sequence**: its first part leaves, or it returns and the second part runs
with its value. -/
theorem runs_bind_iff {p : Script C R α} {f : α → Script C R β} {t : List (C × R)}
    {o : Outcome β} :
    Runs (p >>= f) t o ↔ (∃ n, o = .exited n ∧ Runs p t (.exited n)) ∨
      ∃ a t₁ t₂, t = t₁ ++ t₂ ∧ Runs p t₁ (.returned a) ∧ Runs (f a) t₂ o := by
  constructor
  · intro h
    induction p generalizing t with
    | ret a => exact Or.inr ⟨a, [], t, rfl, .ret a, h⟩
    | exit n =>
      obtain ⟨rfl, rfl⟩ := runs_exit_iff.mp h
      exact Or.inl ⟨n, rfl, .exit n⟩
    | call c k ih =>
      rw [call_bind, runs_call_iff] at h
      obtain ⟨r, t', rfl, h⟩ := h
      rcases ih r h with ⟨n, rfl, hn⟩ | ⟨a, t₁, t₂, rfl, h₁, h₂⟩
      · exact Or.inl ⟨n, rfl, .call r hn⟩
      · exact Or.inr ⟨a, (c, r) :: t₁, t₂, rfl, .call r h₁, h₂⟩
  · rintro (⟨n, rfl, h⟩ | ⟨a, t₁, t₂, rfl, h₁, h₂⟩)
    · exact h.bind_exited f
    · exact h₁.bind h₂

theorem runs_bind_returned {p : Script C R α} {f : α → Script C R β} {t : List (C × R)} {b : β}
    (h : Runs (p >>= f) t (.returned b)) :
    ∃ a t₁ t₂, t = t₁ ++ t₂ ∧ Runs p t₁ (.returned a) ∧ Runs (f a) t₂ (.returned b) := by
  rcases runs_bind_iff.mp h with ⟨n, hn, -⟩ | h
  · cases hn
  · exact h

/-! ## Runs against a handler -/

/-- A handler answers every command from its state, and moves to its next state. -/
abbrev Handler (σ C R : Type) := σ → C → R × σ

/-- A finished run against a handler: its outcome, its trace and the handler's last state. -/
structure Run (σ C R α : Type) where
  outcome : Outcome α
  trace : List (C × R)
  state : σ

/-- The run of a script against a handler. -/
def exec (h : Handler σ C R) : Script C R α → σ → Run σ C R α
  | ret a, s => ⟨.returned a, [], s⟩
  | exit n, s => ⟨.exited n, [], s⟩
  | call c k, s =>
    let rest := exec h (k (h s c).1) (h s c).2
    ⟨rest.outcome, (c, (h s c).1) :: rest.trace, rest.state⟩

@[simp] theorem exec_ret (h : Handler σ C R) (a : α) (s : σ) :
    exec h (ret a) s = ⟨.returned a, [], s⟩ := rfl

@[simp] theorem exec_pure (h : Handler σ C R) (a : α) (s : σ) :
    exec h (pure a) s = ⟨.returned a, [], s⟩ := rfl

@[simp] theorem exec_exit (h : Handler σ C R) (n : Int) (s : σ) :
    exec h (exit n : Script C R α) s = ⟨.exited n, [], s⟩ := rfl

@[simp] theorem exec_leave (h : Handler σ C R) (n : Int) (s : σ) :
    exec h (leave n : Script C R α) s = ⟨.exited n, [], s⟩ := rfl

theorem exec_call (h : Handler σ C R) (c : C) (k : R → Script C R α) (s : σ) :
    exec h (call c k) s =
      ⟨(exec h (k (h s c).1) (h s c).2).outcome,
        (c, (h s c).1) :: (exec h (k (h s c).1) (h s c).2).trace,
        (exec h (k (h s c).1) (h s c).2).state⟩ := rfl

theorem exec_call_state (h : Handler σ C R) (c : C) (k : R → Script C R α) (s : σ) :
    (exec h (call c k) s).state = (exec h (k (h s c).1) (h s c).2).state := rfl

/-- The run against a handler is a run of the script. -/
theorem runs_exec (h : Handler σ C R) (p : Script C R α) (s : σ) :
    Runs p (exec h p s).trace (exec h p s).outcome := by
  induction p generalizing s with
  | ret a => exact .ret a
  | exit n => exact .exit n
  | call c k ih => exact .call _ (ih _ _)

/-- A sequence whose first part returns continues with the second part. -/
theorem exec_bind_of_returned {h : Handler σ C R} {p : Script C R α} {s : σ} {a : α}
    {t : List (C × R)} {s' : σ} (hp : exec h p s = ⟨.returned a, t, s'⟩)
    (f : α → Script C R β) :
    exec h (p >>= f) s =
      ⟨(exec h (f a) s').outcome, t ++ (exec h (f a) s').trace, (exec h (f a) s').state⟩ := by
  induction p generalizing s t with
  | ret b => cases hp; rfl
  | exit n => cases hp
  | call c k ih =>
    simp only [exec_call, Run.mk.injEq] at hp
    obtain ⟨ho, rfl, rfl⟩ := hp
    rw [call_bind, exec_call, ih (h s c).1 (t := (exec h (k (h s c).1) (h s c).2).trace)
      (by rw [← ho])]
    rfl

/-- The handler that gives every command its fixed reply. -/
def answering (reply : C → R) : Handler Unit C R := fun s c => (reply c, s)

/-- Against fixed replies, every event of the run carries the reply of its command. -/
theorem reply_of_mem_exec_answering {reply : C → R} {p : Script C R α} {s : Unit} {e : C × R}
    (he : e ∈ (exec (answering reply) p s).trace) : e.2 = reply e.1 := by
  induction p generalizing s with
  | ret a => cases he
  | exit n => cases he
  | call c k ih =>
    rcases List.mem_cons.mp he with rfl | he
    · rfl
    · exact ih _ he

/-! ## What a script can do -/

/-- Every command the script can run, with any reply, is in `S`. -/
def Emits (S : C → R → Prop) : Script C R α → Prop
  | ret _ => True
  | exit _ => True
  | call c k => ∀ r, S c r ∧ Emits S (k r)

section Emits

variable {S : C → R → Prop}

@[simp] theorem emits_ret (a : α) : Emits S (ret a : Script C R α) := trivial

@[simp] theorem emits_pure (a : α) : Emits S (pure a : Script C R α) := trivial

@[simp] theorem emits_exit (n : Int) : Emits S (exit n : Script C R α) := trivial

@[simp] theorem emits_leave (n : Int) : Emits S (leave n : Script C R α) := trivial

@[simp] theorem emits_command (c : C) :
    Emits S (command c : Script C R R) ↔ ∀ r, S c r := by
  simp [command, Emits]

theorem emits_call {c : C} {k : R → Script C R α} (hc : ∀ r, S c r)
    (hk : ∀ r, Emits S (k r)) : Emits S (call c k) := fun r => ⟨hc r, hk r⟩

theorem emits_bind {p : Script C R α} {f : α → Script C R β} (hp : Emits S p)
    (hf : ∀ a, Emits S (f a)) : Emits S (p >>= f) := by
  induction p with
  | ret a => exact hf a
  | exit n => trivial
  | call c k ih => exact fun r => ⟨(hp r).1, ih r (hp r).2⟩

theorem emits_ite {q : Prop} [Decidable q] {p p' : Script C R α} (hp : Emits S p)
    (hp' : Emits S p') : Emits S (if q then p else p') := by
  split_ifs
  · exact hp
  · exact hp'

theorem Emits.mono {S' : C → R → Prop} (hS : ∀ c r, S c r → S' c r) {p : Script C R α}
    (hp : Emits S p) : Emits S' p := by
  induction p with
  | ret a => trivial
  | exit n => trivial
  | call c k ih => exact fun r => ⟨hS _ _ (hp r).1, ih r (hp r).2⟩

/-- Every event of a run is one its script emits. -/
theorem Runs.emits {p : Script C R α} {t : List (C × R)} {o : Outcome α} (h : Runs p t o)
    (hp : Emits S p) : ∀ e ∈ t, S e.1 e.2 := by
  induction h with
  | ret a => simp
  | exit n => simp
  | call r _ ih =>
    intro e he
    rcases List.mem_cons.mp he with rfl | he
    · exact (hp r).1
    · exact ih (hp r).2 e he

/-- A part of the state that no emitted command changes is unchanged by a run. -/
theorem exec_state_of_emits {h : Handler σ C R} {γ : Type} (view : σ → γ)
    (hview : ∀ s c, S c (h s c).1 → view (h s c).2 = view s) {p : Script C R α}
    (hp : Emits S p) (s : σ) : view (exec h p s).state = view s := by
  induction p generalizing s with
  | ret a => rfl
  | exit n => rfl
  | call c k ih =>
    have hc := hp (h s c).1
    rw [exec_call]
    exact (ih _ hc.2 _).trans (hview s c hc.1)

end Emits

/-- The script never leaves. -/
def Finishes : Script C R α → Prop
  | ret _ => True
  | exit _ => False
  | call _ k => ∀ r, Finishes (k r)

section Finishes

theorem finishes_bind {p : Script C R α} {f : α → Script C R β} (hp : Finishes p)
    (hf : ∀ a, Finishes (f a)) : Finishes (p >>= f) := by
  induction p with
  | ret a => exact hf a
  | exit n => exact hp.elim
  | call c k ih => exact fun r => ih r (hp r)

theorem finishes_ite {q : Prop} [Decidable q] {p p' : Script C R α} (hp : Finishes p)
    (hp' : Finishes p') : Finishes (if q then p else p') := by
  split_ifs
  · exact hp
  · exact hp'

theorem not_runs_exited {p : Script C R α} (hp : Finishes p) {t : List (C × R)} {n : Int} :
    ¬ Runs p t (.exited n) := by
  induction p generalizing t with
  | ret a =>
    intro h
    obtain ⟨-, ho⟩ := runs_ret_iff.mp h
    cases ho
  | exit m => exact hp.elim
  | call c k ih =>
    intro h
    obtain ⟨r, t', -, h'⟩ := runs_call_iff.mp h
    exact ih r (hp r) h'

/-- After a script that never leaves, the next one starts in its last state. -/
theorem Finishes.exec_bind_state {h : Handler σ C R} {p : Script C R Unit} (hp : Finishes p)
    (f : Unit → Script C R β) (s : σ) :
    (exec h (p >>= f) s).state = (exec h (f ()) (exec h p s).state).state := by
  induction p generalizing s with
  | ret a => rfl
  | exit n => exact hp.elim
  | call c k ih => exact ih _ (hp _) _

end Finishes

/-- A run of the script ends at an event in `F`: nothing follows it, and the script leaves. -/
def Stops (F : C → R → Prop) (p : Script C R α) : Prop :=
  ∀ t o, Runs p t o → ∀ pre c r post, t = pre ++ (c, r) :: post → F c r →
    post = [] ∧ o.isReturned = false

section Stops

variable {F : C → R → Prop}

theorem stops_of_emits {p : Script C R α} (hp : Emits (fun c r => ¬ F c r) p) : Stops F p := by
  rintro t o h pre c r post rfl hF
  exact absurd hF (h.emits hp (c, r) (by simp))

/-- **A sequence of scripts that stop at a failure** stops at a failure. -/
theorem stops_bind {p : Script C R α} {f : α → Script C R β} (hp : Stops F p)
    (hf : ∀ a, Stops F (f a)) : Stops F (p >>= f) := by
  intro t o h pre c r post ht hF
  rcases runs_bind_iff.mp h with ⟨n, rfl, hn⟩ | ⟨a, t₁, t₂, rfl, h₁, h₂⟩
  · exact ⟨(hp t _ hn pre c r post ht hF).1, rfl⟩
  · rcases List.append_eq_append_iff.mp ht with ⟨u, rfl, hu⟩ | ⟨u, rfl, hu⟩
    · exact hf a t₂ o h₂ u c r post hu hF
    · cases u with
      | nil => exact hf a t₂ o h₂ [] c r post (by simpa using hu.symm) hF
      | cons e u =>
        obtain ⟨rfl, rfl⟩ := List.cons.inj hu
        exact absurd (hp _ _ h₁ pre c r u rfl hF).2 (by simp)

end Stops

end Script
