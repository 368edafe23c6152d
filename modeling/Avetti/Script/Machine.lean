import Mathlib.Data.List.Basic
import Mathlib.Data.Set.Basic

/-!
# Machines

A machine has a step: what an event makes of a state, unless the event cannot happen there. A path
is a finite run in which every step meets a side condition; its history has each event with the
state it happens in. It is built at its end, so that an induction over it extends the history by one
event. An execution goes on for ever, and may be idle.

## Main definitions

* `Path step Q s h s'`: the history `h` leads from `s` to `s'`, and every step meets `Q`
* `Execution step`: an infinite run

## Main results

* `Path.history`: what every step keeps of the history and the state
* `Path.invariant`: what every step keeps of the state
* `Execution.eventually`: the last of some stages is reached when each of them is left for a lower one
-/

namespace Machine

variable {σ ε : Type} {step : σ → ε → Option σ} {Q : σ → ε → Prop} {s s' s'' : σ}
  {t u : List (σ × ε)}

/-- The events lead from one state to the other, and each of them meets `Q` in its state. -/
inductive Path (step : σ → ε → Option σ) (Q : σ → ε → Prop) (s : σ) :
    List (σ × ε) → σ → Prop where
  | nil : Path step Q s [] s
  | snoc {t : List (σ × ε)} {s₁ s₂ : σ} {e : ε} (path : Path step Q s t s₁) (meets : Q s₁ e)
      (next : step s₁ e = some s₂) : Path step Q s (t ++ [(s₁, e)]) s₂

section Path

/-- **The rule for histories**: what holds at the start and is kept by every step. -/
theorem Path.history {P : List (σ × ε) → σ → Prop} (h : Path step Q s t s') (hstart : P [] s)
    (hstep : ∀ t s₁ e s₂, P t s₁ → Q s₁ e → step s₁ e = some s₂ → P (t ++ [(s₁, e)]) s₂) :
    P t s' := by
  induction h with
  | nil => exact hstart
  | snoc _ hmeets hnext ih => exact hstep _ _ _ _ ih hmeets hnext

/-- **The rule for invariants**. -/
theorem Path.invariant {P : σ → Prop} (h : Path step Q s t s') (hstart : P s)
    (hstep : ∀ s₁ e s₂, P s₁ → Q s₁ e → step s₁ e = some s₂ → P s₂) : P s' :=
  h.history (P := fun _ => P) hstart fun _ => hstep

theorem Path.trans (h : Path step Q s t s') (h' : Path step Q s' u s'') :
    Path step Q s (t ++ u) s'' := by
  induction h' with
  | nil =>
    rw [List.append_nil]
    exact h
  | snoc _ hmeets hnext ih =>
    rw [← List.append_assoc]
    exact .snoc ih hmeets hnext

theorem Path.single {e : ε} (hmeets : Q s e) (hnext : step s e = some s') :
    Path step Q s [(s, e)] s' := .snoc .nil hmeets hnext

/-- A path with a first event. -/
theorem Path.cons {e : ε} (hmeets : Q s e) (hnext : step s e = some s')
    (h : Path step Q s' t s'') : Path step Q s ((s, e) :: t) s'' :=
  (Path.single hmeets hnext).trans h

/-- The events of a list, one after the other. -/
theorem exists_path_of_foldlM {es : List ε} (h : es.foldlM step s = some s') :
    ∃ t, Path step (fun _ _ => True) s t s' ∧ t.map Prod.snd = es := by
  induction es generalizing s with
  | nil =>
    obtain rfl := Option.some.inj h
    exact ⟨[], .nil, rfl⟩
  | cons e es ih =>
    rw [List.foldlM_cons, Option.bind_eq_bind, Option.bind_eq_some_iff] at h
    obtain ⟨s₁, hnext, hrest⟩ := h
    obtain ⟨t, hpath, hevents⟩ := ih hrest
    exact ⟨(s, e) :: t, .cons trivial hnext hpath, by rw [List.map_cons, hevents]⟩

end Path

/-- An infinite run: at every time an event happens, or nothing. -/
structure Execution (step : σ → ε → Option σ) where
  state : ℕ → σ
  event : ℕ → Option ε
  next : ∀ n, (event n).elim (some (state n)) (step (state n)) = some (state (n + 1))

namespace Execution

/-- A finite run, and then nothing. -/
def ofEvents {s : σ} {es : List ε} {s' : σ} (h : es.foldlM step s = some s') : Execution step where
  state n := ((es.take n).foldlM step s).getD s
  event n := es[n]?
  next n := by
    -- every initial part of the events is possible, as all of them are
    have htake : ∀ n, ((es.take n).foldlM step s).isSome := by
      intro n
      rw [← List.take_append_drop n es, List.foldlM_append, Option.bind_eq_bind,
        Option.bind_eq_some_iff] at h
      obtain ⟨s₁, hs₁, -⟩ := h
      rw [hs₁]
      rfl
    obtain ⟨s₁, hs₁⟩ := Option.isSome_iff_exists.mp (htake n)
    obtain ⟨s₂, hs₂⟩ := Option.isSome_iff_exists.mp (htake (n + 1))
    rw [hs₁, hs₂]
    rw [List.take_add_one, List.foldlM_append, hs₁] at hs₂
    cases he : es[n]? with
    | none =>
      rw [he] at hs₂
      exact hs₂
    | some e =>
      rw [he] at hs₂
      simpa using hs₂

variable (x : Execution step)

theorem state_succ_of_none {n : ℕ} (h : x.event n = none) : x.state (n + 1) = x.state n := by
  have hnext := x.next n
  rw [h] at hnext
  exact (Option.some.inj hnext).symm

theorem step_of_some {n : ℕ} {e : ε} (h : x.event n = some e) :
    step (x.state n) e = some (x.state (n + 1)) := by
  have hnext := x.next n
  rw [h] at hnext
  exact hnext

/-- A stage is kept or left for a lower one, also over many steps. -/
theorem stage_le {S : ℕ → σ → Prop} {b : ℕ}
    (hkeeps : ∀ n k, k ≤ b → S k (x.state n) → ∃ j ≤ k, S j (x.state (n + 1)))
    {m n k : ℕ} (hmn : m ≤ n) (hk : k ≤ b) (h : S k (x.state m)) : ∃ j ≤ k, S j (x.state n) := by
  induction hmn with
  | refl => exact ⟨k, le_rfl, h⟩
  | @step n _ ih =>
    obtain ⟨j, hj, hstage⟩ := ih
    obtain ⟨j', hj', hstage'⟩ := hkeeps n j (hj.trans hk) hstage
    exact ⟨j', hj'.trans hj, hstage'⟩

/-- **The rule for liveness**: the last stage is reached when no step leads to a higher stage, and
from every other stage some later step leads to a lower one unless it was left before. -/
theorem eventually {S : ℕ → σ → Prop} {b : ℕ}
    (hkeeps : ∀ n k, k ≤ b → S k (x.state n) → ∃ j ≤ k, S j (x.state (n + 1)))
    (hfalls : ∀ n k, 0 < k → k ≤ b → S k (x.state n) →
      ∃ m, n ≤ m ∧ (S k (x.state m) → ∃ j < k, S j (x.state (m + 1))))
    {n k : ℕ} (hk : k ≤ b) (h : S k (x.state n)) : ∃ m, n ≤ m ∧ S 0 (x.state m) := by
  -- the induction is on the stage
  induction k using Nat.strong_induction_on generalizing n with
  | _ k ih =>
    rcases Nat.eq_zero_or_pos k with rfl | hpos
    · exact ⟨n, le_rfl, h⟩
    · obtain ⟨m, hnm, hm⟩ := hfalls n k hpos hk h
      obtain ⟨j, hj, hstage⟩ := x.stage_le hkeeps hnm hk h
      -- the stage was left before `m`, or it is left there
      rcases Nat.lt_or_eq_of_le hj with hlt | rfl
      · obtain ⟨l, hml, hl⟩ := ih j hlt (hj.trans hk) hstage
        exact ⟨l, hnm.trans hml, hl⟩
      · obtain ⟨j', hlt, hstage'⟩ := hm hstage
        obtain ⟨l, hml, hl⟩ := ih j' hlt (hlt.le.trans hk) hstage'
        exact ⟨l, (hnm.trans (Nat.le_succ m)).trans hml, hl⟩

end Execution

end Machine
