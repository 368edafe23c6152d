import Avetti.Sed.Regex

/-!
# Substitutions of sed

The command `s/pattern/replacement/g` of `sed`: the matches of a regular expression are found from
the left, each as long as possible, and replaced. In the replacement `&` stands for the match, and a
backslash takes a special meaning away.

## Main definitions

* `Sed.pieces r k t`: the characters that are kept and the matches that are found in a text
* `Sed.sub r f t`: every match `m` replaced by `f m`
* `Sed.Substitution.parse`: the substitution that is written so
* `Sed.refuses script`: `sed` refuses the script
* `Sed.edit other script t`: the text after `sed -i script`, when `other` is what `sed` makes of the
  scripts that are not read here
* `Sed.OnlyMatch r a m b`: `m` is the only match that is found in `a ++ m ++ b`
* `Sed.Verbatim w`: `w` stands for itself in a replacement

## Main results

* `Sed.Substitution.apply_eq_sub`: the lines of a text are edited as the text itself
* `Sed.pieces_append_cons`: the matches on the two sides of a character that the expression avoids
* `Sed.pieces_of_sub_eq`: the matches, when the text that is obtained is known
* `Sed.verbatim_of_expand_eq`: a replacement that is read as itself has no special characters
-/

namespace Sed

/-! ## Matches in a text -/

/-- A character that is kept, or a match. -/
inductive Piece where
  | kept (c : Char)
  | found (m : Text)
  deriving DecidableEq, Repr

namespace Piece

/-- What a piece was before. -/
def source : Piece → Text
  | kept c => [c]
  | found m => m

/-- What a piece is replaced by. -/
def image (f : Text → Text) : Piece → Text
  | kept c => [c]
  | found m => f m

end Piece

open Piece

/-- The pieces of a text, `k` characters of which belong to a match that is already found. -/
def pieces (r : Regex) : ℕ → Text → List Piece
  | _, [] => []
  | k + 1, _ :: t => pieces r k t
  | 0, c :: t =>
    match r.longest (c :: t) with
    | some (n + 1) => found ((c :: t).take (n + 1)) :: pieces r n t
    | _ => kept c :: pieces r 0 t

/-- Every match `m` replaced by `f m`. -/
def sub (r : Regex) (f : Text → Text) (t : Text) : Text := (pieces r 0 t).flatMap (image f)

/-- `m` is the only match that is found in `a ++ m ++ b`. -/
def OnlyMatch (r : Regex) (a m b : Text) : Prop :=
  pieces r 0 (a ++ m ++ b) = a.map kept ++ found m :: b.map kept

instance (r : Regex) (a m b : Text) : Decidable (OnlyMatch r a m b) :=
  inferInstanceAs (Decidable (_ = _))

section Pieces

variable {r : Regex}

/-- The first character is kept, or a match starts with it. -/
theorem pieces_cons (r : Regex) (c : Char) (t : Text) :
    (pieces r 0 (c :: t) = kept c :: pieces r 0 t ∧ ∀ n, r.longest (c :: t) ≠ some (n + 1)) ∨
      ∃ n, r.longest (c :: t) = some (n + 1) ∧
        pieces r 0 (c :: t) = found ((c :: t).take (n + 1)) :: pieces r n t := by
  rcases h : r.longest (c :: t) with _ | _ | n
  · exact Or.inl ⟨by rw [pieces, h], by simp⟩
  · exact Or.inl ⟨by rw [pieces, h], by simp⟩
  · exact Or.inr ⟨n, rfl, by rw [pieces, h]⟩

@[simp] theorem flatMap_source_map_kept (t : Text) : (t.map kept).flatMap source = t := by
  induction t with
  | nil => rfl
  | cons c t ih => simp [source, ih]

@[simp] theorem flatMap_image_map_kept (f : Text → Text) (t : Text) :
    (t.map kept).flatMap (image f) = t := by
  induction t with
  | nil => rfl
  | cons c t ih => simp [image, ih]

theorem flatMap_source_pieces (r : Regex) (k : ℕ) (t : Text) :
    (pieces r k t).flatMap source = t.drop k := by
  induction t generalizing k with
  | nil => cases k <;> rfl
  | cons c t ih =>
    cases k with
    | succ k => exact ih k
    | zero =>
      rcases pieces_cons r c t with ⟨h, -⟩ | ⟨n, -, h⟩
      · rw [h, List.flatMap_cons, ih]
        rfl
      · rw [h, List.flatMap_cons, ih]
        exact List.take_append_drop (n + 1) (c :: t)

/-- The pieces are kept, or a match comes after those that are kept. -/
theorem eq_map_kept_or (ps : List Piece) :
    (∃ t : Text, ps = t.map kept) ∨
      ∃ (t : Text) (m : Text) (qs : List Piece), ps = t.map kept ++ found m :: qs := by
  induction ps with
  | nil => exact Or.inl ⟨[], rfl⟩
  | cons p ps ih =>
    cases p with
    | found m => exact Or.inr ⟨[], m, ps, rfl⟩
    | kept c =>
      rcases ih with ⟨t, rfl⟩ | ⟨t, m, qs, rfl⟩
      · exact Or.inl ⟨c :: t, rfl⟩
      · exact Or.inr ⟨c :: t, m, qs, rfl⟩

theorem OnlyMatch.sub_eq {a m b : Text} (h : OnlyMatch r a m b) (f : Text → Text) :
    sub r f (a ++ m ++ b) = a ++ f m ++ b := by
  rw [OnlyMatch] at h
  rw [sub, h]
  simp [image]

/-- When every piece is kept there is no match anywhere. -/
theorem longest_of_pieces_kept {t : Text} (h : pieces r 0 t = t.map kept) {a b : Text}
    (ht : t = a ++ b) (n : ℕ) : r.longest b ≠ some (n + 1) := by
  subst ht
  induction a with
  | nil =>
    rcases b with _ | ⟨c, b⟩
    · intro hn
      have := r.longest_le [] _ hn
      simp at this
    · rcases pieces_cons r c b with ⟨-, hnone⟩ | ⟨k, -, hp⟩
      · exact hnone n
      · rw [List.nil_append, hp] at h
        cases h
  | cons c a ih =>
    rcases pieces_cons r c (a ++ b) with ⟨hp, -⟩ | ⟨k, -, hp⟩
    · rw [List.cons_append, hp] at h
      exact ih (List.cons.inj h).2
    · rw [List.cons_append, hp] at h
      cases h

/-- A match that is found is the longest one at the start of what is left of the text there. -/
theorem longest_of_found {m : Text} {k : ℕ} {t : Text} (h : found m ∈ pieces r k t) :
    m ≠ [] ∧ ∃ b, r.longest (m ++ b) = some m.length := by
  induction t generalizing k with
  | nil => cases k <;> cases h
  | cons c t ih =>
    cases k with
    -- the character belongs to the match before it
    | succ k => exact ih h
    | zero =>
      rcases pieces_cons r c t with ⟨hp, -⟩ | ⟨n, hn, hp⟩
      · rw [hp] at h
        rcases List.mem_cons.mp h with h | h
        · cases h
        · exact ih h
      · rw [hp] at h
        rcases List.mem_cons.mp h with h | h
        · cases h
          have hlength : ((c :: t).take (n + 1)).length = n + 1 :=
            List.length_take_of_le (r.longest_le _ _ hn)
          refine ⟨List.ne_nil_of_length_pos (by omega), (c :: t).drop (n + 1), ?_⟩
          rw [List.take_append_drop, hlength]
          exact hn
        · exact ih h

/-- The matches of an expression without stars match its atoms one by one. -/
theorem forall₂_of_found {as : List Atom} {m : Text} {k : ℕ} {t : Text}
    (h : found m ∈ pieces (Regex.plain as) k t) :
    List.Forall₂ (fun a c => a.accepts c = true) as m := by
  obtain ⟨-, b, hb⟩ := longest_of_found h
  obtain ⟨m', b', heq, hlength, hm'⟩ := Regex.exists_of_longest_plain hb
  rw [(List.append_inj heq hlength.symm).1]
  exact hm'

/-- The matches on the two sides of a place that no match crosses. -/
theorem pieces_append_of_longest {t : Text} (ht : ∀ l ≠ [], r.longest (l ++ t) = r.longest l) {k : ℕ}
    {l : Text} (hk : k ≤ l.length) : pieces r k (l ++ t) = pieces r k l ++ pieces r 0 t := by
  induction l generalizing k with
  | nil =>
    obtain rfl : k = 0 := Nat.le_zero.mp hk
    rfl
  | cons c l ih =>
    cases k with
    | succ k => exact ih (Nat.le_of_succ_le_succ hk)
    | zero =>
      have hlongest := ht (c :: l) (List.cons_ne_nil c l)
      rw [List.cons_append] at hlongest ⊢
      rcases pieces_cons r c l with ⟨hp, hnone⟩ | ⟨n, hn, hp⟩
      · -- what is kept in front of `t` alone is kept here as well
        rcases pieces_cons r c (l ++ t) with ⟨hp', -⟩ | ⟨n', hn', -⟩
        · rw [hp', hp, ih (Nat.zero_le _), List.cons_append]
        · exact absurd (hlongest ▸ hn') (hnone n')
      · -- the match ends before `t`
        have hle : n ≤ l.length := Nat.le_of_succ_le_succ (r.longest_le _ _ hn)
        have hpieces : pieces r 0 (c :: (l ++ t)) =
            found ((c :: (l ++ t)).take (n + 1)) :: pieces r n (l ++ t) := by
          rw [pieces, hlongest, hn]
        rw [hpieces, hp, ih hle, List.take_succ_cons, List.take_append_of_le_length hle,
          List.take_succ_cons, List.cons_append]

/-- The matches on the two sides of a character that the expression avoids. -/
theorem pieces_append_cons {d : Char} (hr : r.Avoids d) {k : ℕ} {l : Text} (hk : k ≤ l.length)
    (t : Text) : pieces r k (l ++ d :: t) = pieces r k l ++ kept d :: pieces r 0 t := by
  have hd : pieces r 0 (d :: t) = kept d :: pieces r 0 t := by
    rcases pieces_cons r d t with ⟨hp, -⟩ | ⟨n, hn, -⟩
    · exact hp
    · have hlongest := Regex.longest_append_cons hr [] t
      rw [List.nil_append, hn] at hlongest
      have := r.longest_le [] _ hlongest.symm
      simp at this
  rw [pieces_append_of_longest (fun l _ => Regex.longest_append_cons hr l t) hk, hd]

theorem sub_append_cons {d : Char} (hr : r.Avoids d) (f : Text → Text) (l t : Text) :
    sub r f (l ++ d :: t) = sub r f l ++ d :: sub r f t := by
  rw [sub, pieces_append_cons hr (Nat.zero_le _), List.flatMap_append, List.flatMap_cons]
  rfl

/-- **The matches, when the text that is obtained is known**: the replacements end with a text that
occurs there only once. -/
theorem pieces_of_sub_eq {f h : Text → Text} {e A B t : Text} (hf : ∀ m, f m = h m ++ e)
    (hne : e ≠ []) (honce : ∀ p q, A ++ e ++ B = p ++ e ++ q → p = A)
    (hsub : sub r f t = A ++ e ++ B) :
    pieces r 0 t = t.map kept ∨
      ∃ p m, pieces r 0 t = p.map kept ++ found m :: B.map kept ∧ p ++ h m = A := by
  have hsource : (pieces r 0 t).flatMap source = t := flatMap_source_pieces r 0 t
  rcases eq_map_kept_or (pieces r 0 t) with ⟨p, hp⟩ | ⟨p, m, qs, hp⟩
  · rw [hp, flatMap_source_map_kept] at hsource
    exact Or.inl (hsource ▸ hp)
  · have himage : A ++ e ++ B = p ++ h m ++ e ++ qs.flatMap (image f) := by
      rw [← hsub, sub, hp]
      simp [image, hf]
    have hA : p ++ h m = A := honce _ _ himage
    have hB : B = qs.flatMap (image f) := by
      rw [← hA, List.append_assoc _ e, List.append_assoc _ e] at himage
      exact List.append_cancel_left (List.append_cancel_left himage)
    rcases eq_map_kept_or qs with ⟨q, hq⟩ | ⟨q, m', qs', hq⟩
    · rw [hq, flatMap_image_map_kept] at hB
      rw [hq, ← hB] at hp
      exact Or.inr ⟨p, m, hp, hA⟩
    · -- a second match would put the text there a second time
      have hsecond : A ++ e ++ B = (A ++ e ++ q ++ h m') ++ e ++ qs'.flatMap (image f) := by
        rw [hB, hq]
        simp [image, hf]
      have hlength := congrArg List.length (honce _ _ hsecond)
      have hpos := List.length_pos_of_ne_nil hne
      simp only [List.length_append] at hlength
      omega

/-! A replacement that starts as the matches do, and has that character nowhere else, leaves a text
only when all the matches are the replacement. -/

section Const

variable {c : Char} {w : Text} {ps : List Piece}

/-- What a longer match is too long by is never made up for. -/
theorem append_source_ne_image (hw : c ∉ w) (hps : ∀ m, found m ∈ ps → m.head? = some c) {z : Text}
    (hz : z ≠ []) : z ++ ps.flatMap source ≠ ps.flatMap (image fun _ => c :: w) := by
  induction ps generalizing z with
  | nil => simpa using hz
  | cons p ps ih =>
    have ih := @ih fun m hm => hps m (List.mem_cons_of_mem p hm)
    cases p with
    | kept d =>
      -- the surplus moves on by one character
      obtain ⟨e, z, rfl⟩ := List.exists_cons_of_ne_nil hz
      intro h
      have htail : z ++ d :: ps.flatMap source = ps.flatMap (image fun _ => c :: w) := by
        obtain ⟨rfl, htail⟩ := List.cons.inj h
        exact htail
      exact ih (z := z ++ [d]) (by simp) (by rw [List.append_assoc]; exact htail)
    | found m =>
      obtain ⟨m, rfl⟩ : ∃ m', m = c :: m' := List.head?_eq_some_iff.mp (hps m List.mem_cons_self)
      intro h
      have h : z ++ (c :: m ++ ps.flatMap source) =
          c :: w ++ ps.flatMap (image fun _ => c :: w) := h
      rcases List.append_eq_append_iff.mp h with ⟨a, ha, hrest⟩ | ⟨a, rfl, hrest⟩
      · rcases a with _ | ⟨d, a⟩
        · -- the surplus is the replacement, and the match is the new one
          exact ih (List.cons_ne_nil c m) hrest
        · -- the match would start inside the replacement
          obtain ⟨e, z, rfl⟩ := List.exists_cons_of_ne_nil hz
          rw [← (List.cons.inj hrest).1] at ha
          exact hw ((List.cons.inj ha).2 ▸ by simp)
      · exact ih (z := a ++ c :: m) (by simp) (by rw [hrest, List.append_assoc])

/-- Nor is what a shorter match is too short by. -/
theorem source_ne_append_image (hps : ∀ m, found m ∈ ps → m.head? = some c) {e : Text}
    (hne : e ≠ []) (he : c ∉ e) (f : Text → Text) :
    ps.flatMap source ≠ e ++ ps.flatMap (image f) := by
  induction ps generalizing e with
  | nil => simpa using hne
  | cons p ps ih =>
    obtain ⟨d, e, rfl⟩ := List.exists_cons_of_ne_nil hne
    intro h
    cases p with
    | kept d' =>
      obtain ⟨rfl, htail⟩ : d' = d ∧ ps.flatMap source = e ++ d' :: ps.flatMap (image f) :=
        List.cons.inj h
      -- what is missing moves on by one character
      refine ih (e := e ++ [d']) (fun m hm => hps m (List.mem_cons_of_mem _ hm)) (by simp) ?_ ?_
      · simpa [and_comm, eq_comm] using he
      · rw [htail, List.append_assoc, List.singleton_append]
    | found m =>
      obtain ⟨m, rfl⟩ : ∃ m', m = c :: m' := List.head?_eq_some_iff.mp (hps m List.mem_cons_self)
      exact he ((List.cons.inj h).1 ▸ List.mem_cons_self)

theorem source_eq_image_iff (hw : c ∉ w) (hps : ∀ m, found m ∈ ps → m.head? = some c) :
    ps.flatMap source = ps.flatMap (image fun _ => c :: w) ↔ ∀ m, found m ∈ ps → m = c :: w := by
  induction ps with
  | nil => simp
  | cons p ps ih =>
    have hrest : ∀ m, found m ∈ ps → m.head? = some c := fun m hm =>
      hps m (List.mem_cons_of_mem p hm)
    cases p with
    | kept d => simpa [source, image] using ih hrest
    | found m =>
      have hcons : (∀ m', found m' ∈ found m :: ps → m' = c :: w) ↔
          m = c :: w ∧ ∀ m', found m' ∈ ps → m' = c :: w := by
        simp [or_imp, forall_and]
      rw [hcons, ← ih hrest, List.flatMap_cons, List.flatMap_cons, source, image]
      constructor
      · intro h
        rcases List.append_eq_append_iff.mp h with ⟨a, ha, htail⟩ | ⟨a, rfl, htail⟩
        · rcases a with _ | ⟨d, a⟩
          · rw [List.append_nil] at ha
            exact ⟨ha.symm, htail⟩
          · -- the match is shorter than the replacement
            exfalso
            obtain ⟨m, rfl⟩ : ∃ m', m = c :: m' :=
              List.head?_eq_some_iff.mp (hps m List.mem_cons_self)
            refine source_ne_append_image hrest (List.cons_ne_nil d a) (fun hmem => hw ?_) _ htail
            rw [(List.cons.inj ha).2]
            exact List.mem_append_right m hmem
        · rcases a with _ | ⟨d, a⟩
          · exact ⟨by simp, htail.symm⟩
          · -- it is longer
            exact absurd htail.symm (append_source_ne_image hw hrest (List.cons_ne_nil d a))
      · rintro ⟨rfl, h⟩
        rw [h]

end Const

end Pieces

/-! ## Replacements -/

/-- A part of a replacement: a character, or the match. -/
inductive Part where
  | lit (c : Char)
  | matched
  deriving DecidableEq, Repr

/-- The text of a part, for a match. -/
def Part.text (m : Text) : Part → Text
  | lit c => [c]
  | matched => m

open Sed.Part

/-- The replacement of a match. -/
def expand (ps : List Part) (m : Text) : Text := ps.flatMap (Part.text m)

/-- What a character stands for after a backslash. A digit from 1 on refers to a group, of which
there are none, and the meaning of another letter is not read. -/
def escaped (c : Char) : Option Part :=
  if c = '0' then some matched
  else if c = 'n' then some (lit '\n')
  else if c.isAlphanum then none
  else some (lit c)

/-- The parts of a replacement up to the delimiter, and what follows it. -/
def replacement : Text → Option (List Part × Text)
  | [] => none
  | '\n' :: _ => none
  | '/' :: t => some ([], t)
  | '&' :: t => (replacement t).map fun (ps, t) => (matched :: ps, t)
  | '\\' :: c :: t => do
    let p ← escaped c
    let (ps, t) ← replacement t
    return (p :: ps, t)
  | c :: t => (replacement t).map fun (ps, t) => (lit c :: ps, t)

/-- The text stands for itself in a replacement. -/
def Verbatim (w : Text) : Prop := ∀ c ∈ w, c ∉ "/&\\\n".toList

instance (w : Text) : Decidable (Verbatim w) :=
  inferInstanceAs (Decidable (∀ c ∈ w, c ∉ "/&\\\n".toList))

theorem verbatim_cons {c : Char} {w : Text} :
    Verbatim (c :: w) ↔ (c ≠ '/' ∧ c ≠ '&' ∧ c ≠ '\\' ∧ c ≠ '\n') ∧ Verbatim w := by
  rw [Verbatim, List.forall_mem_cons, ← Verbatim]
  simp only [show "/&\\\n".toList = ['/', '&', '\\', '\n'] from rfl, List.mem_cons,
    List.not_mem_nil, or_false, not_or, Ne]

theorem Verbatim.slash_not_mem {w : Text} (hw : Verbatim w) : '/' ∉ w :=
  fun h => hw '/' h (by decide)

theorem replacement_cons {c : Char} (hc : c ≠ '/' ∧ c ≠ '&' ∧ c ≠ '\\' ∧ c ≠ '\n') (t : Text) :
    replacement (c :: t) = (replacement t).map fun (ps, t) => (lit c :: ps, t) := by
  rw [replacement]
  all_goals simp_all

theorem replacement_append {w : Text} (hw : Verbatim w) (t : Text) :
    replacement (w ++ t) = (replacement t).map fun (ps, t) => (w.map lit ++ ps, t) := by
  induction w with
  | nil => simp
  | cons c w ih =>
    obtain ⟨hc, hw⟩ := verbatim_cons.mp hw
    rw [List.cons_append, replacement_cons hc, ih hw, Option.map_map]
    rfl

@[simp] theorem expand_map_lit (w m : Text) : expand (w.map lit) m = w := by
  induction w with
  | nil => rfl
  | cons c w ih => simpa [expand, Part.text] using ih

@[simp] theorem expand_append (ps qs : List Part) (m : Text) :
    expand (ps ++ qs) m = expand ps m ++ expand qs m := List.flatMap_append

/-- The parts of a text inside a replacement. A backslash that comes last escapes what follows the
text. -/
def inner : Text → Option (List Part)
  | [] => some []
  | c :: t =>
    if c = '/' ∨ c = '\n' then none
    else if c = '&' then (inner t).map (matched :: ·)
    else if c = '\\' then
      match t with
      | [] => some []
      | d :: t => do
        let p ← escaped d
        let ps ← inner t
        return p :: ps
    else (inner t).map (lit c :: ·)

/-- A replacement goes on after a text inside it, with a character that an escape leaves. -/
theorem replacement_inner_append {w : Text} {ps : List Part} (hw : inner w = some ps) {d : Char}
    (hd : d ≠ '/' ∧ d ≠ '&' ∧ d ≠ '\\' ∧ d ≠ '\n') (hesc : escaped d = some (lit d)) (t : Text) :
    replacement (w ++ d :: t) = (replacement (d :: t)).map fun (qs, t) => (ps ++ qs, t) := by
  fun_induction inner w generalizing ps with
  | case1 =>
    cases hw
    simp
  | case2 => cases hw
  | case3 w _ ih =>
    obtain ⟨ps', hps', rfl⟩ := Option.map_eq_some_iff.mp hw
    rw [List.cons_append, replacement, ih hps', Option.map_map]
    rfl
  | case4 =>
    -- the backslash that comes last escapes `d`
    cases hw
    rw [replacement_cons hd]
    simp only [List.cons_append, List.nil_append, replacement, hesc]
    cases replacement t <;> rfl
  | case5 c w _ _ ih =>
    obtain ⟨p, hp, hw⟩ := Option.bind_eq_some_iff.mp hw
    obtain ⟨ps', hps', hps⟩ := Option.bind_eq_some_iff.mp hw
    cases hps
    simp only [List.cons_append, replacement, hp, ih hps']
    cases replacement (d :: t) <;> rfl
  | case6 c w hdelim hamp hback ih =>
    obtain ⟨ps', hps', rfl⟩ := Option.map_eq_some_iff.mp hw
    rw [not_or] at hdelim
    rw [List.cons_append, replacement_cons ⟨hdelim.1, hamp, hback, hdelim.2⟩, ih hps',
      Option.map_map]
    rfl

/-- A replacement ends inside a text that is none, or before it does. -/
theorem suffix_of_inner_eq_none {w t r : Text} {ps : List Part} (hw : inner w = none)
    (h : replacement (w ++ t) = some (ps, r)) : t <:+ r := by
  fun_induction inner w generalizing ps with
  | case1 => cases hw
  | case2 c w hc =>
    -- the replacement ends here, or is broken off
    rcases hc with rfl | rfl
    · rw [List.cons_append, replacement] at h
      cases h
      exact List.suffix_append w t
    · rw [List.cons_append, replacement] at h
      cases h
  | case3 w _ ih =>
    rw [List.cons_append, replacement] at h
    obtain ⟨⟨ps', r'⟩, h', hr⟩ := Option.map_eq_some_iff.mp h
    cases hr
    exact ih (Option.map_eq_none_iff.mp hw) h'
  | case4 => cases hw
  | case5 c w _ _ ih =>
    simp only [List.cons_append, replacement] at h
    obtain ⟨p, hp, h⟩ := Option.bind_eq_some_iff.mp h
    obtain ⟨⟨ps', r'⟩, h', hr⟩ := Option.bind_eq_some_iff.mp h
    cases hr
    rcases hinner : inner w with _ | qs
    · exact ih hinner h'
    · simp [hp, hinner] at hw
  | case6 c w hdelim hamp hback ih =>
    rw [not_or] at hdelim
    rw [List.cons_append, replacement_cons ⟨hdelim.1, hamp, hback, hdelim.2⟩] at h
    obtain ⟨⟨ps', r'⟩, h', hr⟩ := Option.map_eq_some_iff.mp h
    cases hr
    exact ih (Option.map_eq_none_iff.mp hw) h'

theorem occurs_pair_cons {c d e : Char} {w : Text} :
    Text.Occurs [d, e] (c :: w) ↔ c = d ∧ w.head? = some e ∨ Text.Occurs [d, e] w := by
  rw [Text.Occurs, List.infix_cons_iff, List.cons_prefix_cons, ← Text.Occurs]
  rcases w with _ | ⟨c', w⟩
  · simp
  · simp [List.cons_prefix_cons, eq_comm]

/-- Inside a replacement a slash comes only after a backslash. -/
theorem not_occurs_slash_of_inner {w : Text} {ps : List Part} (hw : inner w = some ps) {d : Char}
    (hd : d ≠ '\\') : w.head? ≠ some '/' ∧ ¬ Text.Occurs [d, '/'] w := by
  fun_induction inner w generalizing ps with
  | case1 => simp [Text.Occurs]
  | case2 => cases hw
  | case3 w _ ih =>
    obtain ⟨ps', hps', -⟩ := Option.map_eq_some_iff.mp hw
    obtain ⟨hhead, hocc⟩ := ih hps'
    exact ⟨by simp, by simp [occurs_pair_cons, hhead, hocc]⟩
  | case4 =>
    refine ⟨by simp, fun h => ?_⟩
    have := h.length_le
    simp at this
  | case5 c w _ _ ih =>
    obtain ⟨p, -, hw⟩ := Option.bind_eq_some_iff.mp hw
    obtain ⟨ps', hps', -⟩ := Option.bind_eq_some_iff.mp hw
    obtain ⟨hhead, hocc⟩ := ih hps'
    exact ⟨by simp, by simp [occurs_pair_cons, hhead, hocc, hd.symm]⟩
  | case6 c w hdelim hamp hback ih =>
    obtain ⟨ps', hps', -⟩ := Option.map_eq_some_iff.mp hw
    obtain ⟨hhead, hocc⟩ := ih hps'
    rw [not_or] at hdelim
    exact ⟨by simp [hdelim.1], by simp [occurs_pair_cons, hhead, hocc]⟩

/-- A replacement without `&` gets no longer, and keeps its length only when it stands for itself. -/
theorem length_expand_inner {w : Text} {ps : List Part} (hw : inner w = some ps)
    (hps : matched ∉ ps) (m : Text) :
    (expand ps m).length ≤ w.length ∧ ((expand ps m).length = w.length → Verbatim w) := by
  fun_induction inner w generalizing ps with
  | case1 =>
    cases hw
    exact ⟨le_rfl, fun _ => by simp [Verbatim]⟩
  | case2 => cases hw
  | case3 w _ ih =>
    obtain ⟨ps', hps', rfl⟩ := Option.map_eq_some_iff.mp hw
    exact absurd List.mem_cons_self hps
  | case4 =>
    cases hw
    simp [expand]
  | case5 c w _ _ ih =>
    obtain ⟨p, hp, hw⟩ := Option.bind_eq_some_iff.mp hw
    obtain ⟨ps', hps', hcons⟩ := Option.bind_eq_some_iff.mp hw
    cases hcons
    rw [List.mem_cons, not_or] at hps
    -- two characters stand for one
    obtain ⟨hle, -⟩ := ih hps' hps.2
    have hlength : (expand (p :: ps') m).length = (expand ps' m).length + 1 := by
      cases p with
      | lit c => simp [expand, Part.text]
      | matched => exact absurd rfl hps.1
    simp only [hlength, List.length_cons]
    exact ⟨by omega, fun h => by omega⟩
  | case6 c w hdelim hamp hback ih =>
    obtain ⟨ps', hps', rfl⟩ := Option.map_eq_some_iff.mp hw
    rw [List.mem_cons, not_or] at hps
    obtain ⟨hle, heq⟩ := ih hps' hps.2
    have hlength : (expand (lit c :: ps') m).length = (expand ps' m).length + 1 := by
      simp [expand, Part.text]
    rw [not_or] at hdelim
    simp only [hlength, List.length_cons]
    refine ⟨by omega, fun h => verbatim_cons.mpr ⟨⟨hdelim.1, hamp, hback, hdelim.2⟩, heq ?_⟩⟩
    omega

/-- **A replacement that is read as itself** has no special characters: a match that has a slash
after another character than a backslash cannot come from `&`. -/
theorem verbatim_of_expand_eq {w m : Text} {ps : List Part} {d : Char} (hd : d ≠ '\\')
    (hm : Text.Occurs [d, '/'] m) (hw : inner w = some ps) (h : expand ps m = w) : Verbatim w := by
  have hps : matched ∉ ps := by
    intro hmatched
    obtain ⟨qs, rs, rfl⟩ := List.append_of_mem hmatched
    have hocc : Text.Occurs m w := by
      rw [← h, expand_append]
      exact ⟨expand qs m, expand rs m, by simp [expand, Part.text]⟩
    exact (not_occurs_slash_of_inner hw hd).2 (hm.trans hocc)
  exact (length_expand_inner hw hps m).2 (by rw [h])

/-! ## Commands -/

/-- The text up to the delimiter, which a backslash makes part of it, and what follows the
delimiter. A pattern that goes on after a newline is not read. -/
def delimited : Text → Option (Text × Text)
  | [] => none
  | '\n' :: _ => none
  | '/' :: t => some ([], t)
  | '\\' :: '/' :: t => (delimited t).map fun (p, t) => ('/' :: p, t)
  | '\\' :: '\n' :: _ => none
  | '\\' :: c :: t => (delimited t).map fun (p, t) => ('\\' :: c :: p, t)
  | c :: t => (delimited t).map fun (p, t) => (c :: p, t)

/-- A substitution: its regular expression and its replacement. -/
structure Substitution where
  regex : Regex
  parts : List Part
  deriving DecidableEq, Repr

namespace Substitution

/-- The substitution that is written `s/pattern/replacement/g`. There is none for a script that
`sed` refuses, and for one that is not read here: with other flags, further commands, or what has
another meaning than in a basic regular expression. -/
def parse : Text → Option Substitution
  | 's' :: '/' :: t => do
    let (pattern, t) ← delimited t
    let regex ← Regex.parse pattern
    let (parts, flags) ← replacement t
    if flags = ['g'] then some ⟨regex, parts⟩ else none
  | _ => none

/-- The text with its lines edited. -/
def apply (s : Substitution) (t : Text) : Text := Text.mapLines (sub s.regex (expand s.parts)) t

end Substitution

/-- The flags of a substitution, and what can come after it. -/
def flagChars : Text := "gpiImMew0123456789 \t\r\n;#\x7d"

/-- A replacement that `sed` refuses: it does not end, or refers to a group, of which there are none,
or neither a flag nor the end of the command comes after it. -/
def refusesReplacement : Text → Bool
  | [] => true
  | '/' :: t => t.head?.any fun c => c ∉ flagChars
  | '\\' :: c :: t => (c.isDigit && c ≠ '0') || refusesReplacement t
  | _ :: t => refusesReplacement t

/-- A newline that no backslash comes before, in front of so many delimiters. -/
def breaksOff : ℕ → Text → Bool
  | _, [] => false
  | 0, _ => false
  | _ + 1, '\n' :: _ => true
  | k + 1, '/' :: t => breaksOff k t
  | k + 1, '\\' :: _ :: t => breaksOff (k + 1) t
  | k + 1, _ :: t => breaksOff (k + 1) t

/-- A substitution that `sed` refuses: a newline breaks it off, or its pattern has no group and
its replacement is refused. -/
def refuses : Text → Bool
  | 's' :: '/' :: t => breaksOff 2 t || match delimited t with
    | some (pattern, t) =>
      '\n' ∉ t && pattern.all (fun c => c ∉ "[\\".toList) && refusesReplacement t
    | none => false
  | _ => false

/-- A refused replacement is not read. -/
theorem replacement_ne_of_refuses {t : Text} (h : refusesReplacement t = true) (ps : List Part) :
    replacement t ≠ some (ps, ['g']) := by
  fun_induction refusesReplacement t generalizing ps with
  | case1 => simp [replacement]
  | case2 t =>
    rw [replacement]
    rintro ⟨⟩
    revert h
    decide
  | case3 c t ih =>
    rw [replacement]
    intro hps
    obtain ⟨p, hp, hps⟩ := Option.bind_eq_some_iff.mp hps
    obtain ⟨⟨ps', t'⟩, hps', heq⟩ := Option.bind_eq_some_iff.mp hps
    cases heq
    rw [Bool.or_eq_true, Bool.and_eq_true] at h
    rcases h with ⟨hdigit, hzero⟩ | h
    · -- a reference to a group
      have halpha : c.isAlphanum = true := by simp [Char.isAlphanum, hdigit]
      have hn : c ≠ 'n' := by
        rintro rfl
        exact absurd hdigit (by decide)
      rw [escaped, if_neg (by simpa using hzero), if_neg hn, if_pos halpha] at hp
      cases hp
    · exact ih h ps' hps'
  | case4 c t hslash hback ih =>
    by_cases hc : c = '\\'
    · -- nothing comes after the backslash
      obtain rfl : t = [] := by
        rcases t with _ | ⟨d, t⟩
        · rfl
        · exact absurd rfl (hback d t hc)
      subst hc
      simp [replacement]
    · rcases eq_or_ne c '\n' with rfl | hnl
      · simp [replacement]
      · rcases eq_or_ne c '&' with rfl | hamp
        · rw [replacement]
          intro hps
          obtain ⟨⟨ps', t'⟩, hps', heq⟩ := Option.map_eq_some_iff.mp hps
          cases heq
          exact ih h ps' hps'
        · rw [replacement_cons ⟨hslash, hamp, hc, hnl⟩]
          intro hps
          obtain ⟨⟨ps', t'⟩, hps', heq⟩ := Option.map_eq_some_iff.mp hps
          cases heq
          exact ih h ps' hps'

@[simp] theorem breaksOff_zero (t : Text) : breaksOff 0 t = false := by
  cases t <;> rfl

@[simp] theorem breaksOff_slash (k : ℕ) (t : Text) : breaksOff (k + 1) ('/' :: t) = breaksOff k t :=
  rfl

@[simp] theorem breaksOff_newline (k : ℕ) (t : Text) : breaksOff (k + 1) ('\n' :: t) = true := rfl

@[simp] theorem breaksOff_escaped (k : ℕ) (c : Char) (t : Text) :
    breaksOff (k + 1) ('\\' :: c :: t) = breaksOff (k + 1) t := rfl

theorem breaksOff_cons {k : ℕ} {c : Char} {t : Text} (hnl : c ≠ '\n') (hslash : c ≠ '/')
    (hback : c = '\\' → t = []) : breaksOff (k + 1) (c :: t) = breaksOff (k + 1) t := by
  rw [breaksOff]
  all_goals simp_all

/-- A newline without a backslash breaks off a replacement. -/
theorem replacement_eq_none_of_breaksOff {t : Text} (h : breaksOff 1 t = true) :
    replacement t = none := by
  fun_induction replacement t with
  | case1 => rfl
  | case2 => rfl
  | case3 t => simp at h
  | case4 t ih =>
    rw [breaksOff_cons (by decide) (by decide) (fun hc => absurd hc (by decide))] at h
    rw [ih h]
    rfl
  | case5 c t ih =>
    rw [breaksOff_escaped] at h
    rw [ih h]
    cases escaped c <;> rfl
  | case6 c t hnl hslash hamp hback ih =>
    rw [breaksOff_cons hnl hslash fun hc => ?_] at h
    · rw [ih h]
      rfl
    · rcases t with _ | ⟨d, t⟩
      · rfl
      · exact absurd rfl (hback d t hc)

theorem breaksOff_of_delimited {t p t' : Text} (h : delimited t = some (p, t'))
    (hoff : breaksOff 2 t = true) : breaksOff 1 t' = true := by
  fun_induction delimited t generalizing p with
  | case1 => cases h
  | case2 => cases h
  | case3 t =>
    cases h
    exact hoff
  | case4 t ih =>
    obtain ⟨⟨p', r⟩, h', hr⟩ := Option.map_eq_some_iff.mp h
    cases hr
    exact ih h' hoff
  | case5 => cases h
  | case6 c t hslash hnl ih =>
    obtain ⟨⟨p', r⟩, h', hr⟩ := Option.map_eq_some_iff.mp h
    cases hr
    exact ih h' hoff
  | case7 c t hnl hslash _ _ hback ih =>
    obtain ⟨⟨p', r⟩, h', hr⟩ := Option.map_eq_some_iff.mp h
    cases hr
    rw [breaksOff_cons hnl hslash fun hc => ?_] at hoff
    · exact ih h' hoff
    · rcases t with _ | ⟨d, t⟩
      · rfl
      · exact absurd rfl (hback d t hc)

/-- What `sed` refuses is not read. -/
theorem Substitution.parse_eq_none_of_refuses {script : Text} (h : refuses script = true) :
    Substitution.parse script = none := by
  rw [← Option.not_isSome_iff_eq_none, Option.isSome_iff_exists]
  rintro ⟨s, hs⟩
  unfold Substitution.parse at hs
  split at hs
  · next t =>
    obtain ⟨⟨p, t'⟩, hp, hs⟩ := Option.bind_eq_some_iff.mp hs
    obtain ⟨r, -, hs⟩ := Option.bind_eq_some_iff.mp hs
    obtain ⟨⟨ps, flags⟩, hps, hs⟩ := Option.bind_eq_some_iff.mp hs
    simp only [Option.ite_none_right_eq_some] at hs
    rw [refuses, hp, Bool.or_eq_true] at h
    rcases h with hoff | h
    · rw [replacement_eq_none_of_breaksOff (breaksOff_of_delimited hp hoff)] at hps
      cases hps
    · simp only [Bool.and_eq_true] at h
      exact replacement_ne_of_refuses h.2 ps (hs.1 ▸ hps)
  · cases hs

/-- The text after `sed -i script`. A script that is refused leaves it, and one that is not read here
makes `other script t` of it. -/
def edit (other : Text → Text → Text) (script t : Text) : Text :=
  match Substitution.parse script with
  | some s => s.apply t
  | none => if refuses script then t else other script t

/-- The lines of a text are edited as the text itself: no match contains a newline. -/
theorem Substitution.apply_eq_sub (s : Substitution) (t : Text) :
    s.apply t = sub s.regex (expand s.parts) t :=
  Text.mapLines_eq rfl (fun l t => sub_append_cons s.regex.avoids_newline _ l t) t

section Edit

variable {other : Text → Text → Text} {script : Text}

theorem edit_of_parse {s : Substitution} (h : Substitution.parse script = some s) (t : Text) :
    edit other script t = sub s.regex (expand s.parts) t := by
  rw [edit, h]
  exact s.apply_eq_sub t

theorem edit_of_refuses (h : refuses script = true) (t : Text) : edit other script t = t := by
  rw [edit, Substitution.parse_eq_none_of_refuses h]
  exact if_pos h

end Edit

theorem inner_of_verbatim {w : Text} (hw : Verbatim w) : inner w = some (w.map lit) := by
  induction w with
  | nil => rfl
  | cons c w ih =>
    obtain ⟨⟨hslash, hamp, hback, hnl⟩, hw⟩ := verbatim_cons.mp hw
    have hdelim : ¬ (c = '/' ∨ c = '\n') := by simp [hslash, hnl]
    have hcons : inner (c :: w) = (inner w).map (lit c :: ·) := by
      conv_lhs => unfold inner
      rw [if_neg hdelim, if_neg hamp, if_neg hback]
    rw [hcons, ih hw]
    rfl

theorem delimited_slash (t : Text) : delimited ('/' :: t) = some ([], t) := by rw [delimited]

theorem delimited_escaped_slash (t : Text) :
    delimited ('\\' :: '/' :: t) = (delimited t).map fun (p, t) => ('/' :: p, t) := by
  rw [delimited]

theorem delimited_append {w : Text} (hw : ∀ c ∈ w, c ∉ "/\\\n".toList) (t : Text) :
    delimited (w ++ t) = (delimited t).map fun (p, t) => (w ++ p, t) := by
  induction w with
  | nil => simp
  | cons c w ih =>
    have hc := hw c List.mem_cons_self
    simp only [show "/\\\n".toList = ['/', '\\', '\n'] from rfl, List.mem_cons, List.not_mem_nil,
      or_false, not_or] at hc
    have hstep : delimited (c :: (w ++ t)) =
        (delimited (w ++ t)).map fun (p, t) => (c :: p, t) := by
      rw [delimited]
      all_goals simp_all
    rw [List.cons_append, hstep, ih fun d hd => hw d (List.mem_cons_of_mem _ hd), Option.map_map]
    rfl

theorem Substitution.parse_of_delimited {t pattern t' : Text}
    (h : delimited t = some (pattern, t')) :
    parse ('s' :: '/' :: t) = (Regex.parse pattern).bind fun r =>
      (replacement t').bind fun q => if q.2 = ['g'] then some ⟨r, q.1⟩ else none := by
  rw [parse, h]
  rfl

end Sed
