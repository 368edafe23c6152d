import Avetti.Sed.Lines

/-!
# Texts that no match crosses

A substitution treats the texts on the two sides of a border apart, when no match goes over the
border. What it puts in the place of its matches becomes a part of another match only if its
characters fit there.

## Main definitions

* `Regex.blocks as e`: no match that starts before `e` goes on into it
* `Regex.admits as w`: some of the atoms in a row accept `w`
* `Regex.Shuns as w`: no match of the atoms has a part of `w`
* `Takes ps w m m₁ x`: after `m₁`, the text `m` has a part of the new text `w`

## Main results

* `sub_append_of_blocks`, `subAll_append_of_blocks`: the texts on the two sides of a border
* `sub_append_of_match`: a match at the start of a text
* `infix_source_or`: what stands in the text after an edit
* `finds_of_finds_sub`: no match arises where the atoms shun what is put in
-/

namespace Regex

/-! ## Borders -/

/-- No rest of a match is found at the start of the text. -/
def blocks : List Atom → Text → Bool
  | [], _ => true
  | a :: as, e => clashes (a :: as) e && blocks as e

theorem clashes_append {as : List Atom} {p : Text} (h : clashes as p = true) (q : Text) :
    clashes as (p ++ q) = true := by
  induction as generalizing p with
  | nil => cases h
  | cons a as ih =>
    rcases p with _ | ⟨c, p⟩
    · cases h
    · rw [clashes, List.zip_cons_cons, List.any_cons, Bool.or_eq_true, ← clashes] at h
      rw [List.cons_append, clashes, List.zip_cons_cons, List.any_cons, Bool.or_eq_true, ← clashes]
      exact h.imp_right ih

theorem steady_append {as : List Atom} {p q : Text} (hp : steady as p = true)
    (hq : steady as q = true) : steady as (p ++ q) = true := by
  induction p with
  | nil => exact hq
  | cons c p ih =>
    rw [steady, Bool.and_eq_true] at hp
    rw [List.cons_append, steady, Bool.and_eq_true]
    exact ⟨clashes_append hp.1 q, ih hp.2⟩

theorem blocks_append {as : List Atom} {p : Text} (h : blocks as p = true) (q : Text) :
    blocks as (p ++ q) = true := by
  induction as with
  | nil => rfl
  | cons a as ih =>
    rw [blocks, Bool.and_eq_true] at h ⊢
    exact ⟨clashes_append h.1 q, ih h.2⟩

theorem steady_flatten {as : List Atom} {ps : List Text} (h : ∀ p ∈ ps, steady as p = true) :
    steady as ps.flatten = true := by
  induction ps with
  | nil => rfl
  | cons p ps ih =>
    exact steady_append (h p List.mem_cons_self) (ih fun q hq => h q (List.mem_cons_of_mem p hq))

theorem longest_append_of_blocks {as : List Atom} {e : Text} (h : blocks as e = true) (l t : Text) :
    longest (plain as) (l ++ (e ++ t)) = longest (plain as) l := by
  induction as generalizing l with
  | nil => rfl
  | cons a as ih =>
    rw [blocks, Bool.and_eq_true] at h
    rcases l with _ | ⟨c, l⟩
    · rw [List.nil_append, longest_of_clashes h.1]
      rfl
    · rw [List.cons_append, plain, List.map_cons, longest, longest, ← plain, ih h.2]

/-! ## Shunned texts -/

/-- Some of the atoms in a row accept the text. -/
def admits (as : List Atom) (w : Text) : Bool :=
  as.tails.any fun p => w.length ≤ p.length && !clashes p w

/-- No match of the atoms has a part of the text: it cannot start or end in it, nor go over it. -/
structure Shuns (as : List Atom) (w : Text) : Prop where
  first : ∀ a ∈ as.head?, ∀ c ∈ w, a.accepts c = false
  last : ∀ a ∈ as.getLast?, ∀ c ∈ w, a.accepts c = false
  inside : admits as w = false

instance (as : List Atom) (w : Text) : Decidable (Shuns as w) :=
  decidable_of_iff ((∀ a ∈ as.head?, ∀ c ∈ w, a.accepts c = false) ∧
      (∀ a ∈ as.getLast?, ∀ c ∈ w, a.accepts c = false) ∧ admits as w = false)
    ⟨fun ⟨h₁, h₂, h₃⟩ => ⟨h₁, h₂, h₃⟩, fun ⟨h₁, h₂, h₃⟩ => ⟨h₁, h₂, h₃⟩⟩

theorem not_clashes_of_prefix {as : List Atom} {m w : Text}
    (h : List.Forall₂ (fun a c => a.accepts c = true) as m) (hw : w <+: m) :
    clashes as w = false := by
  induction h generalizing w with
  | nil =>
    obtain rfl := List.prefix_nil.mp hw
    rfl
  | @cons a c as m ha _ ih =>
    rcases w with _ | ⟨d, w⟩
    · rfl
    · obtain ⟨rfl, hrest⟩ := List.cons_prefix_cons.mp hw
      have htail := ih hrest
      rw [clashes] at htail ⊢
      rw [List.zip_cons_cons, List.any_cons, htail, ha]
      rfl

theorem newline_not_mem_of_forall₂ {as : List Atom} {m : Text}
    (h : List.Forall₂ (fun a c => a.accepts c = true) as m) : '\n' ∉ m := by
  induction h with
  | nil => exact List.not_mem_nil
  | @cons a c as m ha _ ih =>
    refine fun hmem => (List.mem_cons.mp hmem).elim ?_ ih
    rintro rfl
    cases ha

/-- A match of some atoms has a match of the first ones. -/
theorem finds_of_finds_append {as bs : List Atom} {t : Text}
    (h : (plain (as ++ bs)).finds t = true) : (plain as).finds t = true := by
  obtain ⟨m, hin, hm⟩ := finds_plain_iff.mp h
  have htake := List.forall₂_take as.length hm
  rw [List.take_left] at htake
  exact finds_plain_iff.mpr ⟨_, (List.take_prefix _ m).isInfix.trans hin, htake⟩

theorem accepts_last {as : List Atom} {m : Text} {a : Atom}
    (h : List.Forall₂ (fun a c => a.accepts c = true) as m) (ha : as.getLast? = some a) :
    ∃ c, m.getLast? = some c ∧ a.accepts c = true := by
  induction h with
  | nil => cases ha
  | @cons b c as m hb hm ih =>
    rcases as with _ | ⟨a', as⟩
    · cases hm
      cases ha
      exact ⟨c, rfl, hb⟩
    · obtain ⟨d, hd, had⟩ := ih ha
      exact ⟨d, by rw [List.getLast?_cons, hd]; rfl, had⟩

end Regex

namespace Sed

open Piece

section Borders

variable {as : List Atom} {e : Text}

/-- The texts on the two sides of a border. -/
theorem sub_append_of_blocks (h : Regex.blocks as.tail e = true) (f : Text → Text) (l t : Text) :
    sub (Regex.plain as) f (l ++ (e ++ t)) =
      sub (Regex.plain as) f l ++ sub (Regex.plain as) f (e ++ t) := by
  have hlongest : ∀ l ≠ [], (Regex.plain as).longest (l ++ (e ++ t)) = (Regex.plain as).longest l := by
    intro l hl
    obtain ⟨c, l, rfl⟩ := List.exists_cons_of_ne_nil hl
    rcases as with _ | ⟨a, as⟩
    · rfl
    · have hrest := Regex.longest_append_of_blocks h l t
      rw [List.tail_cons] at hrest
      rw [List.cons_append, Regex.plain, List.map_cons, Regex.longest, Regex.longest, ← Regex.plain,
        hrest]
  rw [sub, pieces_append_of_longest hlongest (Nat.zero_le _), List.flatMap_append]
  rfl

/-- A match at the start of a text. -/
theorem sub_append_of_match {m : Text} (hne : m ≠ [])
    (hm : List.Forall₂ (fun a c => a.accepts c = true) as m) (f : Text → Text) (t : Text) :
    sub (Regex.plain as) f (m ++ t) = f m ++ sub (Regex.plain as) f t := by
  obtain ⟨c, m, rfl⟩ := List.exists_cons_of_ne_nil hne
  have hlongest := Regex.longest_plain_append hm t
  rw [List.cons_append, List.length_cons] at hlongest
  have hpieces : pieces (Regex.plain as) 0 (c :: m ++ t) =
      found (c :: m) :: pieces (Regex.plain as) 0 t := by
    -- the other characters of the match are passed over
    have hrest : ∀ m t : Text, pieces (Regex.plain as) m.length (m ++ t) =
        pieces (Regex.plain as) 0 t := by
      intro m t
      induction m with
      | nil => rfl
      | cons c m ih => exact ih
    rw [List.cons_append, pieces, hlongest]
    exact congrArg₂ List.cons (by simp) (hrest m t)
  rw [sub, hpieces, List.flatMap_cons]
  rfl

/-- A border that stays, and the texts on its two sides. -/
theorem subAll_append_of_blocks {rs : List Rule}
    (hrs : ∀ r ∈ rs, Regex.blocks r.atoms.tail e = true ∧ Regex.steady r.atoms e = true) (l t : Text) :
    subAll rs (l ++ (e ++ t)) = subAll rs l ++ (e ++ subAll rs t) := by
  induction rs generalizing l t with
  | nil => rfl
  | cons r rs ih =>
    obtain ⟨hblocks, hsteady⟩ := hrs r List.mem_cons_self
    rw [subAll_cons, subAll_cons, subAll_cons, Rule.apply, sub_append_of_blocks hblocks,
      sub_append_of_steady hsteady, ih fun r' hr' => hrs r' (List.mem_cons_of_mem _ hr')]
    rfl

end Borders

/-! ## New matches -/

section New

variable {as : List Atom} {w m : Text} {ps : List Piece}

/-- The new text is a part of `m` in this place: `m` starts with `m₁`, which stood before a match,
and goes on with the new text, or with a part of it. -/
def Takes (ps : List Piece) (w m m₁ x : Text) : Prop :=
  found x ∈ ps ∧ m₁ <+: m ∧ m₁ ≠ m ∧ (m <+: m₁ ++ w ∨ m₁ ++ w <+: m)

theorem Takes.cons {m₁ x : Text} (h : Takes ps w m m₁ x) (d : Char) :
    Takes (kept d :: ps) w (d :: m) (d :: m₁) x := by
  obtain ⟨hx, hprefix, hne, hw⟩ := h
  refine ⟨List.mem_cons_of_mem _ hx, List.cons_prefix_cons.mpr ⟨rfl, hprefix⟩, ?_, ?_⟩
  · exact fun heq => hne (List.cons.inj heq).2
  · exact hw.imp (fun h => List.cons_prefix_cons.mpr ⟨rfl, h⟩)
      fun h => List.cons_prefix_cons.mpr ⟨rfl, h⟩

theorem Takes.mono {m₁ x : Text} (h : Takes ps w m m₁ x) (p : Piece) : Takes (p :: ps) w m m₁ x :=
  ⟨List.mem_cons_of_mem p h.1, h.2⟩

/-- What the text after the edit starts with was there before, or takes in a new text. -/
theorem prefix_source_or (h : m <+: ps.flatMap (image fun _ => w)) :
    m <+: ps.flatMap source ∨
      ∃ m₁ x, m₁ ++ x <+: ps.flatMap source ∧ Takes ps w m m₁ x := by
  induction m generalizing ps with
  | nil => exact Or.inl List.nil_prefix
  | cons c m ih =>
    rcases ps with _ | ⟨p, ps⟩
    · cases List.prefix_nil.mp h
    · cases p with
      | kept d =>
        obtain ⟨rfl, hrest⟩ := List.cons_prefix_cons.mp h
        rcases ih hrest with hsource | ⟨m₁, x, hsource, hx⟩
        · exact Or.inl (List.cons_prefix_cons.mpr ⟨rfl, hsource⟩)
        · exact Or.inr ⟨c :: m₁, x, List.cons_prefix_cons.mpr ⟨rfl, hsource⟩, hx.cons c⟩
      | found x =>
        -- the text goes on into what is put in for this match, and `m₁` ends here
        have hw : c :: m <+: w ∨ w <+: c :: m :=
          List.prefix_or_prefix_of_prefix h (List.prefix_append w _)
        exact Or.inr ⟨[], x, List.prefix_append x _, List.mem_cons_self, List.nil_prefix,
          (List.cons_ne_nil c m).symm, hw⟩

/-- What stands in the text after the edit, and cannot start in a new text, stood there before, or
takes in a new text. -/
theorem infix_source_or (hm : ∀ c ∈ m.head?, c ∉ w) (hne : m ≠ [])
    (h : m <:+: ps.flatMap (image fun _ => w)) :
    m <:+: ps.flatMap source ∨
      ∃ m₁ x, m₁ ++ x <:+: ps.flatMap source ∧ Takes ps w m m₁ x := by
  induction ps with
  | nil => exact Or.inl h
  | cons p ps ih =>
    have hrest : m <:+: ps.flatMap (image fun _ => w) → m <:+: (p :: ps).flatMap source ∨
        ∃ m₁ x, m₁ ++ x <:+: (p :: ps).flatMap source ∧ Takes (p :: ps) w m m₁ x := by
      intro hin
      have hsuffix : ps.flatMap source <:+ (p :: ps).flatMap source := List.suffix_append _ _
      rcases ih hin with hsource | ⟨m₁, x, hsource, hx⟩
      · exact Or.inl (hsource.trans hsuffix.isInfix)
      · exact Or.inr ⟨m₁, x, hsource.trans hsuffix.isInfix, hx.mono p⟩
    cases p with
    | kept d =>
      rcases List.infix_cons_iff.mp h with hprefix | hin
      · have hbegins : m <+: (kept d :: ps).flatMap (image fun _ => w) := hprefix
        rcases prefix_source_or hbegins with hsource | ⟨m₁, x, hsource, hx⟩
        · exact Or.inl hsource.isInfix
        · exact Or.inr ⟨m₁, x, hsource.isInfix, hx⟩
      · exact hrest hin
    | found x =>
      -- it does not start in what is put in, so it starts behind it
      have hnew : ∀ w' t : Text, (∀ d ∈ w', d ∈ w) → m <:+: w' ++ t → m <:+: t := by
        intro w' t hw' hin
        induction w' with
        | nil => exact hin
        | cons d w' ih' =>
          rcases List.infix_cons_iff.mp hin with hprefix | hin
          · exfalso
            obtain ⟨c, m, rfl⟩ := List.exists_cons_of_ne_nil hne
            obtain ⟨rfl, -⟩ := List.cons_prefix_cons.mp hprefix
            exact hm c rfl (hw' c List.mem_cons_self)
          · exact ih' (fun d' hd' => hw' d' (List.mem_cons_of_mem d hd')) hin
      exact hrest (hnew w _ (fun _ hd => hd) h)

/-- A match takes in no text that the atoms shun. -/
theorem not_takes_of_shuns (hw : Regex.Shuns as w)
    (hm : List.Forall₂ (fun a c => a.accepts c = true) as m) (m₁ x : Text) :
    ¬ Takes ps w m m₁ x := by
  rintro ⟨-, ⟨m₂, rfl⟩, hne, hends | hover⟩
  · -- the match would end in the new text
    have hm₂ : m₂ ≠ [] := by
      rintro rfl
      exact hne (List.append_nil m₁).symm
    have hprefix : m₂ <+: w := (List.prefix_append_right_inj m₁).mp hends
    obtain ⟨a, ha⟩ : ∃ a, as.getLast? = some a := by
      rw [← Option.isSome_iff_exists, List.getLast?_isSome]
      rintro rfl
      exact hm₂ (List.append_eq_nil_iff.mp (List.forall₂_nil_left_iff.mp hm)).2
    obtain ⟨c, hc, hac⟩ := Regex.accepts_last hm ha
    have hcw : c ∈ w := by
      rw [List.getLast?_append_of_ne_nil m₁ hm₂] at hc
      exact hprefix.subset (List.mem_of_getLast? hc)
    rw [hw.last a ha c hcw] at hac
    cases hac
  · -- it would go over the new text
    have hprefix : w <+: m₂ := (List.prefix_append_right_inj m₁).mp hover
    have hdrop : List.Forall₂ (fun a c => a.accepts c = true) (as.drop m₁.length) m₂ := by
      have h := List.forall₂_drop m₁.length hm
      rwa [List.drop_left] at h
    have hclash := Regex.not_clashes_of_prefix hdrop hprefix
    have hlength : w.length ≤ (as.drop m₁.length).length := hdrop.length_eq ▸ hprefix.length_le
    have hpart := List.any_eq_false.mp hw.inside (as.drop m₁.length)
      ((List.mem_tails _ _).mpr (List.drop_suffix _ _))
    rw [hclash, decide_eq_true hlength] at hpart
    exact hpart rfl

/-- **No match arises** where the atoms shun what is put in. -/
theorem finds_of_finds_sub {r : Regex} {t : Text} (hne : as ≠ []) (hw : Regex.Shuns as w)
    (h : (Regex.plain as).finds (sub r (fun _ => w) t) = true) :
    (Regex.plain as).finds t = true := by
  obtain ⟨m, hin, hm⟩ := Regex.finds_plain_iff.mp h
  have hsource : (pieces r 0 t).flatMap source = t := flatMap_source_pieces r 0 t
  obtain ⟨a, as, rfl⟩ := List.exists_cons_of_ne_nil hne
  cases hm with
  | @cons _ c _ m ha hm =>
    have hstart : ∀ d ∈ (c :: m).head?, d ∉ w := by
      rintro d ⟨⟩ hd
      have hreject := hw.first a rfl c hd
      rw [ha] at hreject
      cases hreject
    rcases infix_source_or hstart (List.cons_ne_nil c m) hin with hold | ⟨m₁, x, -, hx⟩
    · rw [hsource] at hold
      exact Regex.finds_plain_iff.mpr ⟨c :: m, hold, .cons ha hm⟩
    · exact absurd hx (not_takes_of_shuns hw (.cons ha hm) m₁ x)

/-- A character that is not there, and is not put in, is not there after the substitutions. -/
theorem not_mem_subAll {c : Char} {rs : List Rule} (hrs : ∀ r ∈ rs, ∀ m, c ∉ r.image m) {t : Text}
    (ht : c ∉ t) : c ∉ subAll rs t := by
  induction rs generalizing t with
  | nil => exact ht
  | cons r rs ih =>
    refine ih (fun r' hr' => hrs r' (List.mem_cons_of_mem r hr')) fun hc => ?_
    obtain ⟨p, hp, hc⟩ := List.mem_flatMap.mp hc
    cases p with
    | kept d => exact ht (mem_of_mem_pieces hp hc)
    | found m => exact hrs r List.mem_cons_self m hc

end New

end Sed
