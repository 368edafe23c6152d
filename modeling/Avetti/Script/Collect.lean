import Avetti.Script.Basic

/-!
# What the events of a run add up to

A function picks a value from some events of a run. When the script runs to its end in one way only,
as far as these values are concerned, they are the same in all its runs that return.

## Main definitions

* `Collects pick L p`: in every run of `p` that returns, the values that are picked are `L`

## Main results

* `Collects.bind`: the values of a sequence are those of its parts
-/

namespace Script

variable {C R α β γ : Type}

/-- In every run that returns, the values that are picked from the events are `L`. -/
def Collects (pick : C × R → Option γ) (L : List γ) (p : Script C R α) : Prop :=
  ∀ t a, Runs p t (.returned a) → t.filterMap pick = L

section Collects

variable {pick : C × R → Option γ} {L M : List γ}

theorem collects_pure (a : α) : Collects pick [] (pure a : Script C R α) := by
  intro t b h
  obtain ⟨rfl, -⟩ := runs_ret_iff.mp h
  rfl

/-- A script that leaves does not return. -/
theorem collects_leave (n : Int) : Collects pick L (leave n : Script C R α) := by
  intro t b h
  obtain ⟨-, hb⟩ := runs_exit_iff.mp h
  cases hb

/-- An event from which nothing is picked. -/
theorem collects_call {c : C} {k : R → Script C R α} (hc : ∀ r, pick (c, r) = none)
    (hk : ∀ r, Collects pick L (k r)) : Collects pick L (call c k) := by
  intro t a h
  obtain ⟨r, t', rfl, h'⟩ := runs_call_iff.mp h
  rw [List.filterMap_cons_none (hc r)]
  exact hk r t' a h'

/-- An event from which a value is picked. -/
theorem collects_picked {c : C} {k : R → Script C R α} {x : γ} (hc : ∀ r, pick (c, r) = some x)
    (hk : ∀ r, Collects pick L (k r)) : Collects pick (x :: L) (call c k) := by
  intro t a h
  obtain ⟨r, t', rfl, h'⟩ := runs_call_iff.mp h
  rw [List.filterMap_cons_some (hc r), hk r t' a h']

/-- **The values of a sequence** are those of its parts. -/
theorem Collects.bind {p : Script C R α} {f : α → Script C R β} (hp : Collects pick L p)
    (hf : ∀ a, Collects pick M (f a)) : Collects pick (L ++ M) (p >>= f) := by
  intro t b h
  obtain ⟨a, t₁, t₂, rfl, h₁, h₂⟩ := runs_bind_returned h
  rw [List.filterMap_append, hp t₁ a h₁, hf a t₂ b h₂]

theorem collects_ite {c : Prop} [Decidable c] {p p' : Script C R α} (hp : c → Collects pick L p)
    (hp' : ¬ c → Collects pick L p') : Collects pick L (if c then p else p') := by
  split_ifs with h
  · exact hp h
  · exact hp' h

/-- A script from whose events nothing is picked. -/
theorem collects_of_emits {p : Script C R α} (hp : Emits (fun c r => pick (c, r) = none) p) :
    Collects pick [] p := by
  intro t a h
  exact List.filterMap_eq_nil_iff.mpr (h.emits hp)

end Collects

end Script
