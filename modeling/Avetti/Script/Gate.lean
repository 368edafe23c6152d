import Avetti.Script.Hoare

/-!
# Events behind a gate

A gate lets the events behind it through once an event of its own has happened. A script keeps a gate
closed until then when its first part has no event behind the gate, and does not return without
passing it; whatever follows that part is then behind the gate in every run.

## Main definitions

* `After G F t`: in the trace `t`, an event in `G` comes before every event in `F`
* `Behind G F p`: in every run of `p` an event in `G` comes before every event in `F`
* `Covers Gs p`: every run of `p` that returns has an event in each `G` of the list

## Main results

* `behind_bind`: a part that passes the gate, and then any other script
* `behind_seq`: a part without an event behind the gate, and then a script that keeps it closed
-/

namespace Script

variable {C R α β : Type}

/-- An event in `G` comes before every event in `F`. -/
def After (G F : C × R → Prop) (t : List (C × R)) : Prop :=
  ∀ pre e post, t = pre ++ e :: post → F e → ∃ g ∈ pre, G g

section After

variable {G F : C × R → Prop} {t u : List (C × R)}

theorem after_of_forall_not (h : ∀ e ∈ t, ¬ F e) : After G F t := by
  rintro pre e post rfl he
  exact absurd he (h e (by simp))

/-- The second trace is behind the gate, which is passed in the first one. -/
theorem after_append (ht : ∀ e ∈ t, ¬ F e) (hG : ∃ g ∈ t, G g) : After G F (t ++ u) := by
  intro pre e post heq he
  -- the event stands in the second trace, so that the first one comes before it
  have htake : t <+: pre := by
    rcases List.append_eq_append_iff.mp heq with ⟨w, rfl, -⟩ | ⟨w, rfl, hw⟩
    · exact List.prefix_append t w
    · cases w with
      | nil => simp
      | cons a w =>
        obtain ⟨rfl, -⟩ := List.cons.inj hw
        exact absurd he (ht e (by simp))
  obtain ⟨g, hg, hgate⟩ := hG
  exact ⟨g, htake.subset hg, hgate⟩

/-- The first trace has no event behind the gate. -/
theorem After.append (ht : ∀ e ∈ t, ¬ F e) (hu : After G F u) : After G F (t ++ u) := by
  intro pre e post heq he
  rcases List.append_eq_append_iff.mp heq with ⟨w, rfl, hw⟩ | ⟨w, rfl, hw⟩
  · obtain ⟨g, hg, hgate⟩ := hu w e post hw he
    exact ⟨g, List.mem_append_right t hg, hgate⟩
  · cases w with
    | nil =>
      obtain ⟨g, hg, -⟩ := hu [] e post (by simpa using hw.symm) he
      cases hg
    | cons a w =>
      obtain ⟨rfl, -⟩ := List.cons.inj hw
      exact absurd he (ht e (by simp))

end After

/-- In every run of the script an event in `G` comes before every event in `F`. -/
def Behind (G F : C × R → Prop) (p : Script C R α) : Prop := ∀ t o, Runs p t o → After G F t

section Behind

variable {G F : C × R → Prop}

/-- **Passing the gate**: a part that returns only after an event in `G`, and has none in `F`. -/
theorem behind_bind {p : Script C R α} (hp : Emits (fun c r => ¬ F (c, r)) p)
    (hG : Visits (fun _ => G) p) (f : α → Script C R β) : Behind G F (p >>= f) := by
  intro t o h
  rcases runs_bind_iff.mp h with ⟨n, -, hn⟩ | ⟨a, t₁, t₂, rfl, h₁, -⟩
  · exact after_of_forall_not (hn.emits hp)
  · exact after_append (h₁.emits hp) (hG t₁ a h₁)

/-- **Before the gate**: a part without an event in `F`. -/
theorem behind_seq {p : Script C R α} {f : α → Script C R β}
    (hp : Emits (fun c r => ¬ F (c, r)) p) (hf : ∀ a, Behind G F (f a)) : Behind G F (p >>= f) := by
  intro t o h
  rcases runs_bind_iff.mp h with ⟨n, -, hn⟩ | ⟨a, t₁, t₂, rfl, h₁, h₂⟩
  · exact after_of_forall_not (hn.emits hp)
  · exact .append (h₁.emits hp) (hf a t₂ o h₂)

end Behind

/-- Every run that returns has an event in each `G` of the list. -/
def Covers (Gs : List (C × R → Prop)) (p : Script C R α) : Prop :=
  ∀ G ∈ Gs, Visits (fun _ => G) p

section Covers

variable {Gs Hs : List (C × R → Prop)}

theorem covers_nil (p : Script C R α) : Covers [] p := nofun

/-- The events of a sequence are those of its parts. -/
theorem Covers.bind {p : Script C R α} {f : α → Script C R β} (hp : Covers Gs p)
    (hf : ∀ a, Covers Hs (f a)) : Covers (Gs ++ Hs) (p >>= f) := by
  intro G hG
  rcases List.mem_append.mp hG with hG | hG
  · exact visits_bind (hp G hG) fun _ _ _ _ _ _ he => he
  · exact visits_seq fun a => hf a G hG

theorem Covers.ite {c : Prop} [Decidable c] {p p' : Script C R α} (hp : Covers Gs p)
    (hp' : Covers Gs p') : Covers Gs (if c then p else p') :=
  fun G hG => visits_ite (fun _ => hp G hG) fun _ => hp' G hG

end Covers

/-- A script that has each property of a family has them together. -/
theorem emits_forall {ι : Type} {S : ι → C → R → Prop} {p : Script C R α}
    (hp : ∀ i, Emits (S i) p) : Emits (fun c r => ∀ i, S i c r) p := by
  induction p with
  | ret a => trivial
  | exit n => trivial
  | call c k ih => exact fun r => ⟨fun i => (hp i r).1, ih r fun i => (hp i r).2⟩

end Script
