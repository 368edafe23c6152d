import Avetti.Script.Hoare

/-!
# Scripts and the state around them

The events of a run change a state around the script, which it sees in the replies only. An effect
relates the states before and after an event; a reply that does not go with the state before it has
none. The rules give what a script makes of a condition on that state, whether it returns or exits.

## Main definitions

* `Follows E t s s'`: the events `t` lead from the state `s` to `s'`
* `Leads E S P p Q X`: in every run of `p` with replies in `S` the events lead from a state in `P`
  to one in `Q`, or in `X` when the script exits

## Main results

* `follows_append`: the states along a sequence
* `Follows.map`: the effects on a part of the state
* `leads_bind`, `leads_call`, `leads_frame`, `leads_of_triple`: the rules for a sequence, for one
  command, and for a script without an effect
* `follows_exec`: the run against a handler follows its states
-/

namespace Script

variable {C R σ α β : Type}

/-- The events lead from the first state to the second one. -/
def Follows (E : C × R → σ → σ → Prop) : List (C × R) → σ → σ → Prop
  | [], s, s' => s' = s
  | e :: t, s, s'' => ∃ s', E e s s' ∧ Follows E t s' s''

section Follows

variable {E : C × R → σ → σ → Prop}

theorem follows_append {t u : List (C × R)} {s s'' : σ} :
    Follows E (t ++ u) s s'' ↔ ∃ s', Follows E t s s' ∧ Follows E u s' s'' := by
  induction t generalizing s with
  | nil =>
    constructor
    · exact fun h => ⟨s, rfl, h⟩
    · rintro ⟨s', rfl, h⟩
      exact h
  | cons e t ih =>
    constructor
    · rintro ⟨s₁, he, h⟩
      obtain ⟨s', ht, hu⟩ := ih.mp h
      exact ⟨s', ⟨s₁, he, ht⟩, hu⟩
    · rintro ⟨s', ⟨s₁, he, ht⟩, hu⟩
      exact ⟨s₁, he, ih.mpr ⟨s', ht, hu⟩⟩

/-- Events without an effect leave the state. -/
theorem Follows.eq_of_keeps {t : List (C × R)} {s s' : σ} (h : Follows E t s s')
    (ht : ∀ e ∈ t, ∀ s s', E e s s' → s' = s) : s' = s := by
  induction t generalizing s with
  | nil => exact h
  | cons e t ih =>
    obtain ⟨s₁, he, hrest⟩ := h
    obtain rfl := ht e List.mem_cons_self s s₁ he
    exact ih hrest fun e' he' => ht e' (List.mem_cons_of_mem e he')

/-- What the events make of a part of the state. -/
theorem Follows.map {τ : Type} {E' : C × R → τ → τ → Prop} {g : σ → τ}
    (hE : ∀ e s s', E e s s' → E' e (g s) (g s')) {t : List (C × R)} {s s' : σ}
    (h : Follows E t s s') : Follows E' t (g s) (g s') := by
  induction t generalizing s with
  | nil => exact congrArg g h
  | cons e t ih =>
    obtain ⟨s₁, he, hrest⟩ := h
    exact ⟨g s₁, hE e s s₁ he, ih hrest⟩

/-- The run against a handler follows its states, when each of its steps has the effect. -/
theorem follows_exec {h : Handler σ C R} (hh : ∀ s c, E (c, (h s c).1) s (h s c).2)
    (p : Script C R α) (s : σ) : Follows E (exec h p s).trace s (exec h p s).state := by
  induction p generalizing s with
  | ret a => rfl
  | exit n => rfl
  | call c k ih => exact ⟨_, hh s c, ih _ _⟩

/-- The events of a run against a handler are its replies. -/
theorem forall_mem_exec {h : Handler σ C R} {P : C × R → Prop} (hh : ∀ s c, P (c, (h s c).1))
    (p : Script C R α) (s : σ) : ∀ e ∈ (exec h p s).trace, P e := by
  induction p generalizing s with
  | ret a => exact fun e he => by cases he
  | exit n => exact fun e he => by cases he
  | call c k ih =>
    intro e he
    rcases List.mem_cons.mp he with rfl | he
    · exact hh s c
    · exact ih _ _ e he

end Follows

/-- In every run with replies in `S`, the events lead from a state in `P` to one that is in `Q`
for the value, or in `X` when the script X. -/
def Leads (E : C × R → σ → σ → Prop) (S : C → R → Prop) (P : σ → Prop) (p : Script C R α)
    (Q : α → σ → Prop) (X : σ → Prop) : Prop :=
  ∀ t o s s', P s → Runs p t o → (∀ e ∈ t, S e.1 e.2) → Follows E t s s' →
    match o with
    | .returned a => Q a s'
    | .exited _ => X s'

section Leads

variable {E : C × R → σ → σ → Prop} {S : C → R → Prop} {P X : σ → Prop} {Q : α → σ → Prop}
  {Q' : β → σ → Prop}

theorem leads_pure {a : α} (h : ∀ s, P s → Q a s) :
    Leads E S P (pure a : Script C R α) Q X := by
  intro t o s s' hs hrun _ hfollows
  obtain ⟨rfl, rfl⟩ := runs_ret_iff.mp hrun
  obtain rfl : s' = s := hfollows
  exact h s' hs

theorem leads_leave (n : Int) (h : ∀ s, P s → X s) :
    Leads E S P (leave n : Script C R α) Q X := by
  intro t o s s' hs hrun _ hfollows
  obtain ⟨rfl, rfl⟩ := runs_exit_iff.mp hrun
  obtain rfl : s' = s := hfollows
  exact h s' hs

/-- One command: its effect leads to the condition for the rest. -/
theorem leads_call {c : C} {k : R → Script C R α} {M : R → σ → Prop}
    (hc : ∀ r s s', S c r → P s → E (c, r) s s' → M r s')
    (hk : ∀ r, S c r → Leads E S (M r) (k r) Q X) :
    Leads E S P (call c k) Q X := by
  intro t o s s'' hs hrun hS hfollows
  obtain ⟨r, t', rfl, hrest⟩ := runs_call_iff.mp hrun
  obtain ⟨s', he, hfollows⟩ := hfollows
  have hr : S c r := hS (c, r) List.mem_cons_self
  exact hk r hr t' o s' s'' (hc r s s' hr hs he) hrest
    (fun e he => hS e (List.mem_cons_of_mem _ he)) hfollows

theorem leads_bind {p : Script C R α} {f : α → Script C R β} (hp : Leads E S P p Q X)
    (hf : ∀ a, Leads E S (Q a) (f a) Q' X) : Leads E S P (p >>= f) Q' X := by
  intro t o s s'' hs hrun hS hfollows
  rcases runs_bind_iff.mp hrun with ⟨n, rfl, hn⟩ | ⟨a, t₁, t₂, rfl, h₁, h₂⟩
  · exact hp t _ s s'' hs hn hS hfollows
  · obtain ⟨s', hs₁, hs₂⟩ := follows_append.mp hfollows
    have ha : Q a s' := hp t₁ _ s s' hs h₁ (fun e he => hS e (List.mem_append_left t₂ he)) hs₁
    exact hf a t₂ o s' s'' ha h₂ (fun e he => hS e (List.mem_append_right t₁ he)) hs₂

theorem leads_ite {c : Prop} [Decidable c] {p p' : Script C R α}
    (hp : c → Leads E S P p Q X) (hp' : ¬ c → Leads E S P p' Q X) :
    Leads E S P (if c then p else p') Q X := by
  split_ifs with h
  · exact hp h
  · exact hp' h

theorem Leads.mono {P' X' : σ → Prop} {Q' : α → σ → Prop} {p : Script C R α}
    (hp : Leads E S P p Q X) (hP : ∀ s, P' s → P s)
    (hQ : ∀ a s, Q a s → Q' a s) (hX : ∀ s, X s → X' s) :
    Leads E S P' p Q' X' := by
  intro t o s s' hs hrun hS hfollows
  have h := hp t o s s' (hP s hs) hrun hS hfollows
  cases o with
  | returned a => exact hQ a s' h
  | exited n => exact hX s' h

/-- A fact that does not depend on the state. -/
theorem leads_of_imp {q : Prop} {p : Script C R α} (hP : ∀ s, P s → q)
    (hp : q → Leads E S P p Q X) : Leads E S P p Q X :=
  fun t o s s' hs => hp (hP s hs) t o s s' hs

/-- **A script without an effect** leaves every condition on the state. -/
theorem leads_frame {p : Script C R α} {V : α → Prop}
    (hp : Emits (fun c r => ∀ s s', E (c, r) s s' → s' = s) p) (hV : Ensures S V p)
    (hX : Finishes p ∨ ∀ s, P s → X s) : Leads E S P p (fun a s => V a ∧ P s) X := by
  intro t o s s' hs hrun hS hfollows
  obtain rfl := hfollows.eq_of_keeps fun e he => hrun.emits hp e he
  cases o with
  | returned a => exact ⟨hV t a hrun hS, hs⟩
  | exited n =>
    rcases hX with hp | hP
    · exact (not_runs_exited hp hrun).elim
    · exact hP s' hs

/-- A script whose commands have no effect, when the replies are as assumed. -/
theorem leads_of_triple {p : Script C R α} {K : C → Prop} {V : α → Prop} (hp : Triple S K V p)
    (hK : ∀ c r s s', K c → E (c, r) s s' → s' = s) (hX : ∀ s, P s → X s) :
    Leads E S P p (fun a s => V a ∧ P s) X := by
  intro t o s s' hs hrun hS hfollows
  obtain ⟨hcommands, hvalue⟩ := hp t o hrun hS
  obtain rfl := hfollows.eq_of_keeps fun e he s s' h => hK e.1 e.2 s s' (hcommands e he) h
  cases o with
  | returned a => exact ⟨hvalue a rfl, hs⟩
  | exited n => exact hX s' hs

end Leads

end Script
