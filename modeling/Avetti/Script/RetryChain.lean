import Mathlib.Data.List.Basic
import Mathlib.Data.List.Induction

/-!
# Chains of stages with one retry

A chain is a list of stages, with other actions between them. A stage is attempted, and attempted
a second time when its first attempt ends with code 2; the chain breaks off at a stage whose first
attempt ends with any other code than 0 and 2. The second attempt decides nothing.

## Main definitions

* `Passes f i`: the chain goes on after the stage `i`, at the exit codes `f`
* `tries f i`, `chain f is`: the attempts at a stage, and at the stages of a chain
* `Gated t done`: a stage is started only after every earlier one ended with code 0
* `trace f xs`: the events of a chain with actions
* `Bracketed p stop start t`: the stages in `p` run between `stop` and `start`, and every `stop` is
  followed by `start`

## Main results

* `gated_chain_iff`: a chain is gated exactly when no stage it reaches fails both attempts, unless
  nothing comes after it
* `bracketed_trace_iff`: a chain is bracketed exactly when it breaks off before `stop`, or not
  before `start`
* `attempted_trace`: the attempts of a chain with actions are those of its stages
-/

/-- The two attempts at a stage. -/
inductive Attempt where
  | first
  | second
  deriving DecidableEq, Repr

namespace RetryChain

variable {ι κ : Type}

/-- An attempt at a stage, with the exit code it ended with. -/
structure Try (ι : Type) where
  stage : ι
  attempt : Attempt
  code : Int
  deriving DecidableEq, Repr

/-- The chain goes on after the stage: its first attempt ended with code 0 or 2. -/
def Passes (f : ι → Attempt → Int) (i : ι) : Prop :=
  f i .first = 0 ∨ f i .first = 2

instance (f : ι → Attempt → Int) (i : ι) : Decidable (Passes f i) :=
  inferInstanceAs (Decidable (_ ∨ _))

/-- The attempts at one stage. -/
def tries (f : ι → Attempt → Int) (i : ι) : List (Try ι) :=
  ⟨i, .first, f i .first⟩ :: if f i .first = 2 then [⟨i, .second, f i .second⟩] else []

/-- The attempts at the stages of a chain. -/
def chain (f : ι → Attempt → Int) : List ι → List (Try ι)
  | [] => []
  | i :: is => tries f i ++ if Passes f i then chain f is else []

/-- The exit code of the last attempt at a stage. -/
def lastCode [DecidableEq ι] (i : ι) (t : List (Try ι)) : Option Int :=
  ((t.filter fun x => x.stage = i).map Try.code).getLast?

/-- **Stage gating**: a stage is started only if the last attempt at every earlier stage ended with
code 0, a stage is attempted a second time exactly when its first attempt ended with code 2, and
the run is `done` only if the last attempt at every stage ended with code 0. -/
structure Gated [DecidableEq ι] (t : List (Try ι)) (done : Prop) : Prop where
  started : ∀ pre i c post, t = pre ++ ⟨i, .first, c⟩ :: post →
    ∀ x ∈ pre, lastCode x.stage pre = some 0
  retried : ∀ i, (∃ c, ⟨i, .second, c⟩ ∈ t) ↔ ⟨i, .first, 2⟩ ∈ t
  finished : done → ∀ x ∈ t, lastCode x.stage t = some 0

theorem gated_nil [DecidableEq ι] (p : Prop) : Gated ([] : List (Try ι)) p :=
  ⟨by simp, by simp, by simp⟩

theorem Gated.mono [DecidableEq ι] {t : List (Try ι)} {p q : Prop} (h : Gated t p)
    (hqp : q → p) : Gated t q :=
  ⟨h.started, h.retried, fun hq => h.finished (hqp hq)⟩

section Chain

variable (f : ι → Attempt → Int)

@[simp] theorem chain_nil : chain f [] = [] := rfl

theorem chain_cons (i : ι) (is : List ι) :
    chain f (i :: is) = tries f i ++ if Passes f i then chain f is else [] := rfl

theorem mem_tries {i : ι} {x : Try ι} : x ∈ tries f i ↔
    x = ⟨i, .first, f i .first⟩ ∨ f i .first = 2 ∧ x = ⟨i, .second, f i .second⟩ := by
  by_cases h : f i .first = 2 <;> simp [tries, h]

theorem stage_of_mem_tries {i : ι} {x : Try ι} (hx : x ∈ tries f i) : x.stage = i := by
  rcases (mem_tries f).mp hx with rfl | ⟨-, rfl⟩ <;> rfl

/-- A chain none of whose stages breaks off attempts them all. -/
theorem chain_append_of_passes {xs : List ι} (h : ∀ i ∈ xs, Passes f i) (ys : List ι) :
    chain f (xs ++ ys) = xs.flatMap (tries f) ++ chain f ys := by
  induction xs with
  | nil => rfl
  | cons i xs ih =>
    have hi : Passes f i := h i (by simp)
    rw [List.cons_append, chain_cons, if_pos hi, ih fun j hj => h j (by simp [hj]),
      List.flatMap_cons, List.append_assoc]

/-- A chain whose exit codes depend on an image of its stages is that of the images. -/
theorem chain_map {γ : Type} (g : ι → γ) (f : γ → Attempt → Int) (is : List ι) :
    (chain (fun i => f (g i)) is).map (fun x => Try.mk (g x.stage) x.attempt x.code) =
      chain f (is.map g) := by
  induction is with
  | nil => rfl
  | cons i is ih =>
    have htries : (tries (fun i => f (g i)) i).map
        (fun x => Try.mk (g x.stage) x.attempt x.code) = tries f (g i) := by
      by_cases h : f (g i) .first = 2 <;> simp [tries, h]
    rw [chain_cons, List.map_cons, chain_cons, List.map_append, htries]
    by_cases hp : Passes f (g i)
    · rw [if_pos hp, if_pos (show Passes (fun i => f (g i)) i from hp), ih]
    · rw [if_neg hp, if_neg (show ¬ Passes (fun i => f (g i)) i from hp), List.map_nil]

theorem mem_chain {is : List ι} {x : Try ι} (hx : x ∈ chain f is) :
    ∃ i ∈ is, x ∈ tries f i := by
  induction is with
  | nil => simp at hx
  | cons i is ih =>
    rw [chain_cons, List.mem_append] at hx
    rcases hx with hx | hx
    · exact ⟨i, by simp, hx⟩
    · by_cases hi : Passes f i
      · rw [if_pos hi] at hx
        obtain ⟨j, hj, hx⟩ := ih hx
        exact ⟨j, by simp [hj], hx⟩
      · simp [hi] at hx

/-- The attempts at a stage come together: a chain with one of them has them all. -/
theorem tries_subset_chain {is : List ι} {x : Try ι} (hx : x ∈ chain f is) :
    ∀ y ∈ tries f x.stage, y ∈ chain f is := by
  induction is with
  | nil => simp at hx
  | cons i is ih =>
    intro y hy
    rw [chain_cons, List.mem_append] at hx ⊢
    rcases hx with hx | hx
    · exact Or.inl (stage_of_mem_tries f hx ▸ hy)
    · by_cases hi : Passes f i
      · rw [if_pos hi] at hx ⊢
        exact Or.inr (ih hx y hy)
      · simp [hi] at hx

/-- A start within or after the attempts at `j` is the first attempt at `j`, or comes after
them all. -/
theorem start_of_tries_append {j i : ι} {c : Int} {rest pre post : List (Try ι)}
    (h : tries f j ++ rest = pre ++ ⟨i, .first, c⟩ :: post) :
    (pre = [] ∧ i = j) ∨
      ∃ pre', pre = tries f j ++ pre' ∧ rest = pre' ++ ⟨i, .first, c⟩ :: post := by
  rcases pre with _ | ⟨x, pre⟩
  · rw [tries, List.cons_append, List.nil_append, List.cons.injEq, Try.mk.injEq] at h
    exact Or.inl ⟨rfl, h.1.1.symm⟩
  · rw [tries, List.cons_append, List.cons_append, List.cons.injEq] at h
    obtain ⟨rfl, h⟩ := h
    by_cases h2 : f j .first = 2
    · rw [if_pos h2] at h
      rcases pre with _ | ⟨y, pre⟩
      · simp at h
      · rw [List.singleton_append, List.cons_append, List.cons.injEq] at h
        obtain ⟨rfl, h⟩ := h
        exact Or.inr ⟨pre, by simp [tries, h2], h⟩
    · rw [if_neg h2, List.nil_append] at h
      exact Or.inr ⟨pre, by simp [tries, h2], h⟩

/-- Where a stage starts, the stages before it have all been attempted and passed. -/
theorem chain_eq_append {is : List ι} {pre post : List (Try ι)} {i : ι} {c : Int}
    (h : chain f is = pre ++ ⟨i, .first, c⟩ :: post) :
    ∃ xs ys, is = xs ++ i :: ys ∧ (∀ j ∈ xs, Passes f j) ∧ pre = xs.flatMap (tries f) := by
  induction is generalizing pre with
  | nil => simp at h
  | cons j is ih =>
    rw [chain_cons] at h
    rcases start_of_tries_append f h with ⟨rfl, rfl⟩ | ⟨pre', rfl, hrest⟩
    · exact ⟨[], is, rfl, by simp, rfl⟩
    · by_cases hp : Passes f j
      · rw [if_pos hp] at hrest
        obtain ⟨xs, ys, rfl, hxs, rfl⟩ := ih hrest
        refine ⟨j :: xs, ys, rfl, ?_, by simp⟩
        intro k hk
        rcases List.mem_cons.mp hk with rfl | hk
        · exact hp
        · exact hxs k hk
      · simp [hp] at hrest

/-- The exit code of the last attempt at a stage, when it has been attempted. -/
def finalCode (i : ι) : Int := if f i .first = 2 then f i .second else f i .first

theorem finalCode_eq_zero {i : ι} (hp : Passes f i)
    (h : f i .first = 2 → f i .second = 0) : finalCode f i = 0 := by
  rcases hp with h0 | h2
  · simp [finalCode, h0]
  · simp [finalCode, h2, h h2]

section Gating

variable [DecidableEq ι]

theorem lastCode_append_of_forall_ne (i : ι) (t : List (Try ι)) {u : List (Try ι)}
    (hu : ∀ x ∈ u, x.stage ≠ i) : lastCode i (t ++ u) = lastCode i t := by
  have h : (u.filter fun x => x.stage = i) = [] := by
    simpa [List.filter_eq_nil_iff] using hu
  rw [lastCode, List.filter_append, h, List.append_nil, lastCode]

theorem lastCode_append_tries (i : ι) (t : List (Try ι)) :
    lastCode i (t ++ tries f i) = some (finalCode f i) := by
  by_cases h : f i .first = 2 <;> simp [lastCode, finalCode, tries, h]

/-- The last attempt at a stage that has been attempted ended with its final code. -/
theorem lastCode_flatMap_tries {i : ι} {xs : List ι} (hi : i ∈ xs) :
    lastCode i (xs.flatMap (tries f)) = some (finalCode f i) := by
  induction xs using List.reverseRecOn with
  | nil => simp at hi
  | append_singleton xs j ih =>
    rw [List.flatMap_append, List.flatMap_singleton]
    by_cases hj : j = i
    · rw [hj, lastCode_append_tries]
    · have hi' : i ∈ xs := by
        rcases List.mem_append.mp hi with h | h
        · exact h
        · exact absurd (List.mem_singleton.mp h).symm hj
      rw [lastCode_append_of_forall_ne, ih hi']
      intro x hx
      rwa [stage_of_mem_tries f hx]

/-- **A chain is gated** exactly when no stage it reaches fails both attempts, unless that stage is
the last one and the run is not carried on to its end. -/
theorem gated_chain_iff (is : List ι) (ok : Prop) :
    Gated (chain f is) ((∀ i ∈ is, Passes f i) ∧ ok) ↔
      ∀ xs i ys, is = xs ++ i :: ys → (∀ j ∈ xs, Passes f j) → f i .first = 2 →
        f i .second ≠ 0 → ys = [] ∧ ¬ ok := by
  constructor
  · -- a stage that fails twice is the last one, and the run does not go on
    rintro ⟨started, -, finished⟩ xs i ys rfl hxs h2 hne
    have hi : Passes f i := Or.inr h2
    have hfinal : finalCode f i ≠ 0 := by simpa [finalCode, h2] using hne
    have hlast : lastCode i ((xs ++ [i]).flatMap (tries f)) = some (finalCode f i) :=
      lastCode_flatMap_tries f (by simp)
    have hmem : ⟨i, .first, f i .first⟩ ∈ (xs ++ [i]).flatMap (tries f) := by simp [tries]
    have htrace : chain f (xs ++ i :: ys) = (xs ++ [i]).flatMap (tries f) ++ chain f ys := by
      rw [← chain_append_of_passes]
      · simp
      · intro j hj
        rcases List.mem_append.mp hj with hj | hj
        · exact hxs j hj
        · exact List.mem_singleton.mp hj ▸ hi
    rcases ys with _ | ⟨j, ys⟩
    · refine ⟨rfl, fun hok => hfinal ?_⟩
      rw [chain_nil, List.append_nil] at htrace
      have hall : ∀ j ∈ xs ++ [i], Passes f j := by
        intro j hj
        rcases List.mem_append.mp hj with hj | hj
        · exact hxs j hj
        · exact List.mem_singleton.mp hj ▸ hi
      have h0 := finished ⟨hall, hok⟩ _ (htrace ▸ hmem)
      rw [htrace, hlast] at h0
      exact Option.some.inj h0
    · have h0 := started _ j (f j .first) _ (by rw [htrace, chain_cons, tries]; rfl) _ hmem
      rw [hlast] at h0
      exact absurd (Option.some.inj h0) hfinal
  · intro h
    refine ⟨?_, ?_, ?_⟩
    · -- what was tried before `i` belongs to stages that the chain has passed
      intro pre i c post ht x hx
      obtain ⟨xs, ys, rfl, hxs, rfl⟩ := chain_eq_append f ht
      obtain ⟨j, hj, hxj⟩ := List.mem_flatMap.mp hx
      rw [stage_of_mem_tries f hxj, lastCode_flatMap_tries f hj,
        finalCode_eq_zero f (hxs j hj)]
      intro h2
      by_contra hne
      obtain ⟨us, vs, rfl⟩ := List.append_of_mem hj
      have := (h us j (vs ++ i :: ys) (by simp) (fun k hk => hxs k (by simp [hk])) h2 hne).1
      simp at this
    · -- a second attempt stands in the attempts of its own stage
      intro i
      constructor
      · rintro ⟨c, hc⟩
        obtain ⟨j, hj, hx⟩ := mem_chain f hc
        obtain rfl : i = j := stage_of_mem_tries f hx
        rcases (mem_tries f).mp hx with hx | ⟨h2, -⟩
        · simp at hx
        · exact tries_subset_chain f hc _ ((mem_tries f).mpr (Or.inl (by simp [h2])))
      · intro hc
        obtain ⟨j, hj, hx⟩ := mem_chain f hc
        obtain rfl : i = j := stage_of_mem_tries f hx
        rcases (mem_tries f).mp hx with hx | ⟨-, hx⟩
        · exact ⟨_, tries_subset_chain f hc _
            ((mem_tries f).mpr (Or.inr ⟨(Try.mk.inj hx).2.2.symm, rfl⟩))⟩
        · simp at hx
    · -- when all stages pass, the chain is the attempts of all of them
      rintro ⟨hall, hok⟩ x hx
      have ht : chain f is = is.flatMap (tries f) := by
        simpa using chain_append_of_passes f hall []
      obtain ⟨j, hj, hxj⟩ := mem_chain f hx
      rw [ht, stage_of_mem_tries f hxj, lastCode_flatMap_tries f hj,
        finalCode_eq_zero f (hall j hj)]
      intro h2
      by_contra hne
      obtain ⟨us, vs, rfl⟩ := List.append_of_mem hj
      exact (h us j vs rfl (fun k hk => hall k (by simp [hk])) h2 hne).2 hok

end Gating

end Chain

/-! ## Chains with other actions -/

/-- An entry of a chain: a stage, or another action. -/
inductive Item (ι κ : Type) where
  | stage (i : ι)
  | act (a : κ)
  deriving DecidableEq

/-- An event of a chain: an attempt at a stage, or another action. -/
inductive Event (ι κ : Type) where
  | tried (x : Try ι)
  | did (a : κ)
  deriving DecidableEq

/-- The stages of a chain. -/
def stages : List (Item ι κ) → List ι :=
  List.filterMap fun
    | .stage i => some i
    | .act _ => none

/-- The attempts among the events of a chain. -/
def attempted : List (Event ι κ) → List (Try ι) :=
  List.filterMap fun
    | .tried x => some x
    | .did _ => none

/-- The events of a chain. -/
def trace (f : ι → Attempt → Int) : List (Item ι κ) → List (Event ι κ)
  | [] => []
  | .act a :: xs => .did a :: trace f xs
  | .stage i :: xs => (tries f i).map .tried ++ if Passes f i then trace f xs else []

@[simp] theorem stages_nil : stages ([] : List (Item ι κ)) = [] := rfl

@[simp] theorem stages_stage (i : ι) (xs : List (Item ι κ)) :
    stages (.stage i :: xs) = i :: stages xs := rfl

theorem mem_stages {i : ι} {xs : List (Item ι κ)} (hi : .stage i ∈ xs) : i ∈ stages xs :=
  List.mem_filterMap.mpr ⟨_, hi, rfl⟩

@[simp] theorem stages_act (a : κ) (xs : List (Item ι κ)) :
    stages (.act a :: xs) = stages xs := rfl

@[simp] theorem attempted_nil : attempted ([] : List (Event ι κ)) = [] := rfl

@[simp] theorem attempted_did (a : κ) (t : List (Event ι κ)) :
    attempted (.did a :: t) = attempted t := rfl

@[simp] theorem attempted_append (t u : List (Event ι κ)) :
    attempted (t ++ u) = attempted t ++ attempted u := List.filterMap_append

@[simp] theorem attempted_map_tried (t : List (Try ι)) :
    attempted (t.map Event.tried : List (Event ι κ)) = t := by
  induction t with
  | nil => rfl
  | cons x t ih => exact congrArg (x :: ·) ih

/-- **Forgetting the actions**: the attempts of a chain are those of its stages. -/
theorem attempted_trace (f : ι → Attempt → Int) (xs : List (Item ι κ)) :
    attempted (trace f xs) = chain f (stages xs) := by
  induction xs with
  | nil => rfl
  | cons x xs ih =>
    cases x with
    | act a => exact ih
    | stage i =>
      rw [trace, stages_stage, chain_cons, attempted_append, attempted_map_tried]
      split_ifs with hp
      · rw [ih]
      · rfl

/-! ## Bracketing -/

section Bracketing

variable (f : ι → Attempt → Int)

theorem trace_append (xs ys : List (Item ι κ)) :
    trace f (xs ++ ys) =
      trace f xs ++ if ∀ i ∈ stages xs, Passes f i then trace f ys else [] := by
  induction xs with
  | nil => simp [trace]
  | cons x xs ih =>
    cases x with
    | act a =>
      show .did a :: trace f (xs ++ ys) = .did a :: (trace f xs ++ _)
      rw [ih]
      rfl
    | stage i =>
      by_cases hp : Passes f i
      · simp [trace, ih, hp]
      · simp [trace, hp]

theorem did_mem_trace {a : κ} {xs : List (Item ι κ)} (h : .did a ∈ trace f xs) :
    .act a ∈ xs := by
  induction xs with
  | nil => simp [trace] at h
  | cons x xs ih =>
    cases x with
    | act b =>
      rcases List.mem_cons.mp h with hb | h
      · exact Event.did.inj hb ▸ by simp
      · exact List.mem_cons_of_mem _ (ih h)
    | stage i =>
      by_cases hp : Passes f i
      · exact List.mem_cons_of_mem _ (ih (by simpa [trace, hp] using h))
      · simp [trace, hp] at h

theorem stage_mem_of_tried_mem_trace {x : Try ι} {xs : List (Item ι κ)}
    (h : .tried x ∈ trace f xs) : .stage x.stage ∈ xs := by
  induction xs with
  | nil => simp [trace] at h
  | cons y xs ih =>
    cases y with
    | act b => exact List.mem_cons_of_mem _ (ih (by simpa [trace] using h))
    | stage i =>
      rw [trace, List.mem_append] at h
      rcases h with h | h
      · obtain ⟨y, hy, he⟩ := List.mem_map.mp h
        rw [← Event.tried.inj he, stage_of_mem_tries f hy]
        simp
      · by_cases hp : Passes f i
        · exact List.mem_cons_of_mem _ (ih (by simpa [hp] using h))
        · simp [hp] at h

/-- After the events `t`, `stop` has been issued and not undone by `start`. -/
def Stopped (stop start : κ) (t : List (Event ι κ)) : Prop :=
  ∃ pre post, t = pre ++ .did stop :: post ∧ .did start ∉ post

/-- **Bracketing**: the stages in `p` are attempted only while stopped, and every `stop` is followed
by `start`. -/
structure Bracketed (p : ι → Prop) (stop start : κ) (t : List (Event ι κ)) : Prop where
  inside : ∀ pre x post, t = pre ++ .tried x :: post → p x.stage → Stopped stop start pre
  closed : ∀ pre post, t = pre ++ .did stop :: post → .did start ∈ post

theorem bracketed_nil (p : ι → Prop) (stop start : κ) : Bracketed p stop start [] :=
  ⟨by simp, by simp⟩

/-- An attempt that is not before `stop` comes after it. -/
theorem append_did_eq_append_tried {stop : κ} {x : Try ι} {t u pre post : List (Event ι κ)}
    (h : t ++ .did stop :: u = pre ++ .tried x :: post) (hx : .tried x ∉ t) :
    ∃ q, pre = t ++ .did stop :: q ∧ u = q ++ .tried x :: post := by
  rcases List.append_eq_append_iff.mp h with ⟨v, rfl, hv⟩ | ⟨v, rfl, hv⟩
  · rcases v with _ | ⟨e, v⟩
    · simp at hv
    · obtain ⟨rfl, rfl⟩ := List.cons.inj hv
      exact ⟨v, rfl, rfl⟩
  · rcases v with _ | ⟨e, v⟩
    · simp at hv
    · obtain ⟨rfl, -⟩ := List.cons.inj hv
      simp at hx

/-- **A chain is bracketed** exactly when, once it has come to `stop`, it comes to `start`. -/
theorem bracketed_trace_iff {p : ι → Prop} {stop start : κ} {before inside : List (Item ι κ)}
    (hne : stop ≠ start)
    (hbefore : ∀ i, .stage i ∈ before → ¬ p i) (hstop : .act stop ∉ before)
    (hstop' : .act stop ∉ inside) (hstart : .act start ∉ inside) :
    Bracketed p stop start (trace f (before ++ .act stop :: (inside ++ [.act start]))) ↔
      ((∀ i ∈ stages before, Passes f i) → ∀ i ∈ stages inside, Passes f i) := by
  have hnotTried : ∀ x, p x.stage → .tried x ∉ trace f before := fun x hx hm =>
    hbefore _ (stage_mem_of_tried_mem_trace f hm) hx
  have hnotStop : .did stop ∉ trace f before := fun hm => hstop (did_mem_trace f hm)
  have hnotStart : .did start ∉ trace f inside := fun hm => hstart (did_mem_trace f hm)
  rw [trace_append, trace]
  by_cases hb : ∀ i ∈ stages before, Passes f i
  · rw [if_pos hb, trace_append]
    by_cases hi : ∀ i ∈ stages inside, Passes f i
    · rw [if_pos hi]
      refine iff_of_true ⟨?_, ?_⟩ fun _ => hi
      · intro pre x post h hx
        obtain ⟨q, rfl, hq⟩ := append_did_eq_append_tried h (hnotTried x hx)
        refine ⟨_, q, rfl, fun hm => ?_⟩
        -- the only `start` is the last event, and the attempt comes after `q`
        rcases List.append_eq_append_iff.mp hq with ⟨v, rfl, hv⟩ | ⟨v, hv, -⟩
        · rcases v with _ | ⟨e, v⟩ <;> simp [trace] at hv
        · exact hnotStart (by rw [hv]; simp [hm])
      · intro pre post h
        have hrest : .did stop ∉ trace f inside ++ trace f [.act start] := by
          intro hm
          rcases List.mem_append.mp hm with hm | hm
          · exact hstop' (did_mem_trace f hm)
          · simp [trace, hne] at hm
        obtain ⟨-, -, rfl⟩ := (List.append_cons_inj_of_notMem hnotStop hrest).mp h
        simp [trace]
    · refine iff_of_false (fun h => ?_) fun h => hi (h hb)
      have hm := h.closed _ _ rfl
      rw [if_neg hi, List.append_nil] at hm
      exact hnotStart hm
  · -- the chain breaks off before it stops anything
    rw [if_neg hb, List.append_nil]
    refine iff_of_true ⟨?_, ?_⟩ fun h => absurd h hb
    · intro pre x post h hx
      exact absurd (by rw [h]; simp) (hnotTried x hx)
    · intro pre post h
      exact absurd (by rw [h]; simp) hnotStop

end Bracketing

end RetryChain
