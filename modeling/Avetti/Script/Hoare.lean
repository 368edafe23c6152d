import Avetti.Script.Basic

/-!
# Postconditions of scripts

Rules of reasoning about the value and the commands of a script. What a script ensures holds of its
value in every run whose replies are as assumed, and a triple also says which commands such a run
consists of. What a script returns against fixed replies is the value of one run, and what it meets
is a command of one.

## Main definitions

* `Ensures S Q p`: in every run of `p` with replies in `S` the value is in `Q`
* `Triple S P Q p`: in every run of `p` with replies in `S` the commands are in `P` and the value is
  in `Q`
* `Visits E p`: every run of `p` that returns has an event in `E`
* `Returns reply Q p`: the run of `p` against the replies `reply` returns a value in `Q`
* `Meets reply F p`: the run of `p` against the replies `reply` comes to a command in `F`

## Main results

* `ensures_bind`, `triple_bind`, `returns_bind`, `meets_bind`: the rules for a sequence
-/

namespace Script

variable {C R α β : Type}

/-- In every run with replies in `S`, the script returns values in `Q` only. -/
def Ensures (S : C → R → Prop) (Q : α → Prop) (p : Script C R α) : Prop :=
  ∀ t a, Runs p t (.returned a) → (∀ e ∈ t, S e.1 e.2) → Q a

section Ensures

variable {S : C → R → Prop} {Q : α → Prop} {Q' : β → Prop}

theorem ensures_pure {a : α} (h : Q a) : Ensures S Q (pure a : Script C R α) := by
  intro t b hrun _
  obtain ⟨-, hb⟩ := runs_ret_iff.mp hrun
  cases hb
  exact h

theorem ensures_leave (n : Int) : Ensures S Q (leave n : Script C R α) := by
  intro t b hrun _
  obtain ⟨-, hb⟩ := runs_exit_iff.mp hrun
  cases hb

theorem ensures_call {c : C} {k : R → Script C R α} (hk : ∀ r, S c r → Ensures S Q (k r)) :
    Ensures S Q (call c k) := by
  intro t b hrun ht
  obtain ⟨r, t', rfl, h⟩ := runs_call_iff.mp hrun
  have hr : S c r := ht (c, r) List.mem_cons_self
  exact hk r hr t' b h fun e he => ht e (List.mem_cons_of_mem _ he)

theorem ensures_bind {p : Script C R α} {f : α → Script C R β} (hp : Ensures S Q p)
    (hf : ∀ a, Q a → Ensures S Q' (f a)) : Ensures S Q' (p >>= f) := by
  intro t b hrun ht
  rcases runs_bind_iff.mp hrun with ⟨n, hn, -⟩ | ⟨a, t₁, t₂, rfl, h₁, h₂⟩
  · cases hn
  · have ha : Q a := hp t₁ a h₁ fun e he => ht e (List.mem_append_left t₂ he)
    exact hf a ha t₂ b h₂ fun e he => ht e (List.mem_append_right t₁ he)

theorem Ensures.mono {Q' : α → Prop} {p : Script C R α} (hp : Ensures S Q p)
    (h : ∀ a, Q a → Q' a) : Ensures S Q' p := fun t a hrun ht => h a (hp t a hrun ht)

theorem ensures_ite {c : Prop} [Decidable c] {p p' : Script C R α} (hp : c → Ensures S Q p)
    (hp' : ¬ c → Ensures S Q p') : Ensures S Q (if c then p else p') := by
  split_ifs with h
  · exact hp h
  · exact hp' h

/-- A script whose value is not looked at. -/
theorem ensures_seq {p : Script C R α} {f : α → Script C R β} (hf : ∀ a, Ensures S Q' (f a)) :
    Ensures S Q' (p >>= f) :=
  ensures_bind (fun _ _ _ _ => trivial) fun a (_ : True) => hf a

end Ensures

/-- In every run with replies in `S`, the script runs commands in `P` only, and returns values in `Q`
only. -/
def Triple (S : C → R → Prop) (P : C → Prop) (Q : α → Prop) (p : Script C R α) : Prop :=
  ∀ t o, Runs p t o → (∀ e ∈ t, S e.1 e.2) → (∀ e ∈ t, P e.1) ∧ ∀ a, o = .returned a → Q a

section Triple

variable {S : C → R → Prop} {P : C → Prop} {Q : α → Prop} {Q' : β → Prop}

/-- A script whose commands do not depend on the replies. -/
theorem triple_of_emits {p : Script C R α} (hp : Emits (fun c _ => P c) p) (hq : Ensures S Q p) :
    Triple S P Q p := by
  intro t o hrun ht
  refine ⟨hrun.emits hp, ?_⟩
  rintro a rfl
  exact hq t a hrun ht

theorem triple_pure {a : α} (h : Q a) : Triple S P Q (pure a : Script C R α) :=
  triple_of_emits trivial (ensures_pure h)

theorem triple_leave (n : Int) : Triple S P Q (leave n : Script C R α) :=
  triple_of_emits trivial (ensures_leave n)

theorem triple_call {c : C} {k : R → Script C R α} (hc : P c)
    (hk : ∀ r, S c r → Triple S P Q (k r)) : Triple S P Q (call c k) := by
  intro t o hrun ht
  obtain ⟨r, t', rfl, h⟩ := runs_call_iff.mp hrun
  have hr : S c r := ht (c, r) List.mem_cons_self
  obtain ⟨hP, hQ⟩ := hk r hr t' o h fun e he => ht e (List.mem_cons_of_mem _ he)
  refine ⟨fun e he => ?_, hQ⟩
  rcases List.mem_cons.mp he with rfl | he
  · exact hc
  · exact hP e he

theorem triple_ite {c : Prop} [Decidable c] {p p' : Script C R α} (hp : c → Triple S P Q p)
    (hp' : ¬ c → Triple S P Q p') : Triple S P Q (if c then p else p') := by
  split_ifs with h
  · exact hp h
  · exact hp' h

theorem triple_bind {p : Script C R α} {f : α → Script C R β} (hp : Triple S P Q p)
    (hf : ∀ a, Q a → Triple S P Q' (f a)) : Triple S P Q' (p >>= f) := by
  intro t o hrun ht
  rcases runs_bind_iff.mp hrun with ⟨n, rfl, hn⟩ | ⟨a, t₁, t₂, rfl, h₁, h₂⟩
  · exact ⟨(hp t _ hn ht).1, fun b hb => nomatch hb⟩
  · obtain ⟨hP₁, ha⟩ := hp t₁ _ h₁ fun e he => ht e (List.mem_append_left t₂ he)
    obtain ⟨hP₂, hb⟩ := hf a (ha a rfl) t₂ o h₂ fun e he => ht e (List.mem_append_right t₁ he)
    refine ⟨fun e he => ?_, hb⟩
    rcases List.mem_append.mp he with he | he
    · exact hP₁ e he
    · exact hP₂ e he

/-- A script whose value is not looked at. -/
theorem triple_seq {p : Script C R α} {f : α → Script C R β} (hp : Emits (fun c _ => P c) p)
    (hf : ∀ a, Triple S P Q' (f a)) : Triple S P Q' (p >>= f) :=
  triple_bind (triple_of_emits hp fun _ _ _ _ => trivial) fun a (_ : True) => hf a

end Triple

/-- Every run of the script that returns has an event that is in `E` for the value. -/
def Visits (E : α → C × R → Prop) (p : Script C R α) : Prop :=
  ∀ t a, Runs p t (.returned a) → ∃ e ∈ t, E a e

section Visits

variable {E : α → C × R → Prop} {E' : β → C × R → Prop}

theorem visits_leave (n : Int) : Visits E (leave n : Script C R α) := by
  intro t a hrun
  obtain ⟨-, ha⟩ := runs_exit_iff.mp hrun
  cases ha

theorem visits_ite {c : Prop} [Decidable c] {p p' : Script C R α} (hp : c → Visits E p)
    (hp' : ¬ c → Visits E p') : Visits E (if c then p else p') := by
  split_ifs with h
  · exact hp h
  · exact hp' h

theorem visits_call {c : C} {k : R → Script C R α} (hk : ∀ r, Visits E (k r)) :
    Visits E (call c k) := by
  intro t a hrun
  obtain ⟨r, t', rfl, h⟩ := runs_call_iff.mp hrun
  obtain ⟨e, he, hE⟩ := hk r t' a h
  exact ⟨e, List.mem_cons_of_mem _ he, hE⟩

/-- The event stands in the second part of a sequence. -/
theorem visits_seq {p : Script C R α} {f : α → Script C R β} (hf : ∀ a, Visits E' (f a)) :
    Visits E' (p >>= f) := by
  intro t b hrun
  obtain ⟨a, t₁, t₂, rfl, -, h₂⟩ := runs_bind_returned hrun
  obtain ⟨e, he, hE⟩ := hf a t₂ b h₂
  exact ⟨e, List.mem_append_right t₁ he, hE⟩

/-- The event stands in the first part of a sequence, and is one for the value of the second. -/
theorem visits_bind {p : Script C R α} {f : α → Script C R β} (hp : Visits E p)
    (hf : ∀ a, Ensures (fun _ _ => True) (fun b => ∀ e, E a e → E' b e) (f a)) :
    Visits E' (p >>= f) := by
  intro t b hrun
  obtain ⟨a, t₁, t₂, rfl, h₁, h₂⟩ := runs_bind_returned hrun
  obtain ⟨e, he, hE⟩ := hp t₁ a h₁
  exact ⟨e, List.mem_append_left t₂ he, hf a t₂ b h₂ (fun _ _ => trivial) e hE⟩

end Visits

/-- The script has a run with the replies `reply` that returns a value in `Q`. -/
def Returns (reply : C → R) (Q : α → Prop) (p : Script C R α) : Prop :=
  ∃ t a, Runs p t (.returned a) ∧ (∀ e ∈ t, e.2 = reply e.1) ∧ Q a

section Returns

variable {reply : C → R} {Q : α → Prop} {Q' : β → Prop}

theorem returns_pure {a : α} (h : Q a) : Returns reply Q (pure a : Script C R α) :=
  ⟨[], a, .ret a, by simp, h⟩

theorem returns_call {c : C} {k : R → Script C R α} (hk : Returns reply Q (k (reply c))) :
    Returns reply Q (call c k) := by
  obtain ⟨t, a, h, ht, ha⟩ := hk
  refine ⟨(c, reply c) :: t, a, .call _ h, fun e he => ?_, ha⟩
  rcases List.mem_cons.mp he with rfl | he
  · rfl
  · exact ht e he

theorem returns_bind {p : Script C R α} {f : α → Script C R β} (hp : Returns reply Q p)
    (hf : ∀ a, Q a → Returns reply Q' (f a)) : Returns reply Q' (p >>= f) := by
  obtain ⟨t, a, h, ht, ha⟩ := hp
  obtain ⟨u, b, h', hu, hb⟩ := hf a ha
  refine ⟨t ++ u, b, h.bind h', fun e he => ?_, hb⟩
  rcases List.mem_append.mp he with he | he
  · exact ht e he
  · exact hu e he

/-- The value against fixed replies is one that the script ensures for them. -/
theorem Returns.ensures {S : C → R → Prop} {P : α → Prop} {p : Script C R α}
    (hp : Returns reply P p) (hQ : Ensures S Q p) (hS : ∀ c, S c (reply c)) :
    Returns reply Q p := by
  obtain ⟨t, a, h, ht, -⟩ := hp
  exact ⟨t, a, h, ht, hQ t a h fun e he => ht e he ▸ hS e.1⟩

end Returns

/-- The script has a run with the replies `reply` that comes to a command in `F`. -/
def Meets (reply : C → R) (F : C → Prop) (p : Script C R α) : Prop :=
  ∃ t o, Runs p t o ∧ (∀ e ∈ t, e.2 = reply e.1) ∧ ∃ e ∈ t, F e.1

section Meets

variable {reply : C → R} {F : C → Prop} {Q : α → Prop}

theorem meets_call_here {c : C} (hc : F c) (k : R → Script C R α) : Meets reply F (call c k) := by
  refine ⟨_, _, runs_exec (answering reply) (call c k) (), ?_, (c, reply c), ?_, hc⟩
  · exact fun e he => reply_of_mem_exec_answering he
  · rw [exec_call]
    exact List.mem_cons_self

theorem meets_call {c : C} {k : R → Script C R α} (hk : Meets reply F (k (reply c))) :
    Meets reply F (call c k) := by
  obtain ⟨t, o, h, ht, e, he, hF⟩ := hk
  refine ⟨(c, reply c) :: t, o, .call _ h, ?_, e, List.mem_cons_of_mem _ he, hF⟩
  intro e' he'
  rcases List.mem_cons.mp he' with rfl | he'
  · rfl
  · exact ht e' he'

/-- The command is met in the first part of a sequence. -/
theorem Meets.bind {p : Script C R α} (hp : Meets reply F p) (f : α → Script C R β) :
    Meets reply F (p >>= f) := by
  obtain ⟨t, o, h, ht, e, he, hF⟩ := hp
  cases o with
  | exited n => exact ⟨t, _, h.bind_exited f, ht, e, he, hF⟩
  | returned a =>
    have hrest := runs_exec (answering reply) (f a) ()
    refine ⟨_, _, h.bind hrest, fun e' he' => ?_, e, List.mem_append_left _ he, hF⟩
    rcases List.mem_append.mp he' with he' | he'
    · exact ht e' he'
    · exact reply_of_mem_exec_answering he'

/-- The command is met in the second part of a sequence. -/
theorem meets_bind {p : Script C R α} {f : α → Script C R β} (hp : Returns reply Q p)
    (hf : ∀ a, Q a → Meets reply F (f a)) : Meets reply F (p >>= f) := by
  obtain ⟨t, a, h, ht, ha⟩ := hp
  obtain ⟨u, o, h', hu, e, he, hF⟩ := hf a ha
  refine ⟨t ++ u, o, h.bind h', fun e' he' => ?_, e, List.mem_append_right t he, hF⟩
  rcases List.mem_append.mp he' with he' | he'
  · exact ht e' he'
  · exact hu e' he'

end Meets

end Script
