import Avetti.Sed.Script
import Avetti.Setup.Credentials

/-!
# What the edits make of the elements

The edits of `pom.xml` find their matches wherever they stand, and the credentials in them are
whatever was typed. An edit that puts a value into an element, or takes one out, leaves the values
of the other element; and an element is empty after the edits when its value was found by the
pattern that takes it out.

## Main definitions

* `HasValue k v t`: wherever the start tag of the element stands, the element has the value `v`
* `PutInAs w v`: the value that was typed as `w` is put in as `v`
* `Finds k w v`: the pattern that takes out what was typed as `w` finds the value `v`

## Main results

* `hasValue_sub`: what a substitution makes of the values
* `hasValue_insertion`: what an edit that puts in a value makes of the values
* `hasValue_removal`: what an edit that takes one out makes of them
-/

open Sed

namespace Avetti

/-- Wherever the start tag of the element stands, the element has the value. -/
def HasValue (k : Key) (v t : Text) : Prop :=
  ∀ u, u <:+ t → startTag k <+: u → element k v <+: u

instance (k : Key) (v t : Text) : Decidable (HasValue k v t) :=
  decidable_of_iff (∀ u ∈ t.tails, startTag k <+: u → element k v <+: u) (by
    simp only [List.mem_tails]
    exact Iff.rfl)

section Values

variable {k l : Key} {v v' x t : Text}

theorem hasValue_cons {c : Char} : HasValue k v (c :: t) ↔
    (startTag k <+: c :: t → element k v <+: c :: t) ∧ HasValue k v t := by
  constructor
  · exact fun h => ⟨h _ List.suffix_rfl, fun u hu => h u (hu.trans (List.suffix_cons c t))⟩
  · rintro ⟨hhead, ht⟩ u hu
    rcases List.suffix_cons_iff.mp hu with rfl | hu
    · exact hhead
    · exact ht u hu

theorem hasValue_nil : HasValue k v [] := by
  intro u hu h
  obtain rfl := List.suffix_nil.mp hu
  cases List.prefix_nil.mp h

/-- A text without `<` starts no tag. -/
theorem HasValue.append {w : Text} (hw : '<' ∉ w) (ht : HasValue k v t) :
    HasValue k v (w ++ t) := by
  induction w with
  | nil => exact ht
  | cons c w ih =>
    rw [List.mem_cons, not_or] at hw
    refine hasValue_cons.mpr ⟨fun h => ?_, ih hw.2⟩
    exact absurd (List.cons_prefix_cons.mp h).1 hw.1

theorem length_name (k : Key) : k.name.length = 8 := by cases k <;> decide

theorem eq_of_name_eq (h : k.name = l.name) : l = k := by
  revert h
  cases k <;> cases l <;> decide

theorem eq_of_tagName_prefix (h : tagName k <+: tagName l ++ t) : l = k := by
  unfold tagName at h
  simp only [List.append_assoc] at h
  have hname : k.name ++ ['>'] <+: l.name ++ (['>'] ++ t) := (List.prefix_append_right_inj _).mp h
  have hlength : k.name.length = l.name.length := by rw [length_name, length_name]
  have hkey : k.name <+: l.name :=
    List.prefix_of_prefix_length_le ((List.prefix_append _ _).trans hname)
      (List.prefix_append _ _) hlength.le
  exact eq_of_name_eq (hkey.eq_of_length hlength)

/-- An end tag is no start tag. -/
theorem HasValue.append_endTag (ht : HasValue k v t) : HasValue k v (endTag l ++ t) := by
  refine hasValue_cons.mpr ⟨fun h => ?_, ht.append (not_mem_end l)⟩
  obtain ⟨w, hw⟩ := exists_tagName k
  obtain ⟨-, h⟩ := List.cons_prefix_cons.mp h
  rw [hw] at h
  cases (List.cons_prefix_cons.mp h).1

/-- An element before a text, of the one kind or with the value. -/
theorem HasValue.append_element (hx : '<' ∉ x) (hl : l = k → x = v) (ht : HasValue k v t) :
    HasValue k v (element l x ++ t) := by
  have hsplit : element l x ++ t = '<' :: (tagName l ++ x ++ (endTag l ++ t)) := by
    unfold element startTag
    simp only [List.append_assoc, List.cons_append]
  have hname : '<' ∉ tagName l ++ x := by
    simp [not_mem_tagName, hx]
  rw [hsplit]
  refine hasValue_cons.mpr ⟨fun h => ?_, ht.append_endTag.append hname⟩
  obtain ⟨-, h⟩ := List.cons_prefix_cons.mp h
  rw [List.append_assoc] at h
  obtain rfl := eq_of_tagName_prefix h
  rw [← hsplit, hl rfl]
  exact List.prefix_append _ t

/-! ## Substitutions -/

/-- A match starts as a tag does. -/
def StartsTag (r : Regex) : Prop := ∀ t n, r.longest t = some (n + 1) → ['<', 'p'] <+: t

section Sub

variable {r : Regex} {f : Text → Text}

/-- A text without `<` is kept. -/
theorem pieces_append_of_startsTag (hr : StartsTag r) {w : Text} (hw : '<' ∉ w) (t : Text) :
    pieces r 0 (w ++ t) = w.map .kept ++ pieces r 0 t := by
  induction w with
  | nil => rfl
  | cons c w ih =>
    rw [List.mem_cons, not_or] at hw
    rcases pieces_cons r c (w ++ t) with ⟨hp, -⟩ | ⟨n, hn, -⟩
    · rw [List.cons_append, hp, ih hw.2]
      rfl
    · exact absurd (List.cons_prefix_cons.mp (hr _ n hn)).1 hw.1

/-- An end tag is kept. -/
theorem pieces_endTag_append (hr : StartsTag r) (l : Key) (t : Text) :
    pieces r 0 (endTag l ++ t) = (endTag l).map .kept ++ pieces r 0 t := by
  rcases pieces_cons r '<' ('/' :: tagName l ++ t) with ⟨hp, -⟩ | ⟨n, hn, -⟩
  · have hrest := pieces_append_of_startsTag hr (not_mem_end l) t
    calc pieces r 0 (endTag l ++ t)
        = .kept '<' :: pieces r 0 ('/' :: tagName l ++ t) := hp
      _ = (endTag l).map .kept ++ pieces r 0 t := by
        rw [hrest]
        rfl
  · have h := (List.cons_prefix_cons.mp (hr _ n hn)).2
    cases (List.cons_prefix_cons.mp h).1

/-- What is obtained without a `<` was there before. -/
theorem prefix_of_prefix_image (hf : ∀ m, ∃ y, f m = '<' :: y) {w : Text} (hw : '<' ∉ w)
    (h : w <+: (pieces r 0 t).flatMap (Piece.image f)) : w <+: t := by
  induction w generalizing t with
  | nil => exact List.nil_prefix
  | cons c w ih =>
    rw [List.mem_cons, not_or] at hw
    rcases t with _ | ⟨d, t⟩
    · exact h
    · rcases pieces_cons r d t with ⟨hp, -⟩ | ⟨n, -, hp⟩
      · rw [hp, List.flatMap_cons, Piece.image, List.singleton_append] at h
        obtain ⟨rfl, hrest⟩ := List.cons_prefix_cons.mp h
        exact List.cons_prefix_cons.mpr ⟨rfl, ih hw.2 hrest⟩
      · obtain ⟨y, hy⟩ := hf ((d :: t).take (n + 1))
        rw [hp, List.flatMap_cons, Piece.image, hy] at h
        exact absurd (List.cons_prefix_cons.mp h).1.symm hw.1

/-- **What a substitution makes of the values**: what it puts in has the new value, and it keeps the
element only if the value is the same. -/
theorem hasValue_sub (hr : StartsTag r) (hv : '<' ∉ v) (hf : ∀ m, ∃ y, f m = '<' :: y)
    (himage : ∀ m t, HasValue k v' t → HasValue k v' (f m ++ t))
    (hkept : v = v' ∨ ∀ t, ∃ n, r.longest (element k v ++ t) = some (n + 1)) {n : ℕ}
    (ht : HasValue k v t) : HasValue k v' ((pieces r n t).flatMap (Piece.image f)) := by
  induction t generalizing n with
  | nil => cases n <;> exact hasValue_nil
  | cons c t ih =>
    obtain ⟨hhead, ht⟩ := hasValue_cons.mp ht
    cases n with
    | succ n => exact ih ht
    | zero =>
      rcases pieces_cons r c t with ⟨hp, hnone⟩ | ⟨n, -, hp⟩
      · rw [hp, List.flatMap_cons, Piece.image, List.singleton_append]
        refine hasValue_cons.mpr ⟨fun h => ?_, ih ht⟩
        -- a start tag that is kept was one before, with the value after it
        obtain ⟨rfl, hrest⟩ := List.cons_prefix_cons.mp h
        have hstart := prefix_of_prefix_image hf (not_mem_tagName k) hrest
        obtain ⟨u, hu⟩ := hhead (List.cons_prefix_cons.mpr ⟨rfl, hstart⟩)
        rcases hkept with rfl | hfound
        · have hsplit : t = tagName k ++ v ++ (endTag k ++ u) := by
            have hcons : '<' :: (tagName k ++ v ++ (endTag k ++ u)) = '<' :: t := by
              rw [← hu, element, startTag]
              simp only [List.append_assoc, List.cons_append]
            exact (List.cons.inj hcons).2.symm
          have hname : '<' ∉ tagName k ++ v := by
            simp [not_mem_tagName, hv]
          have himage : (pieces r 0 t).flatMap (Piece.image f) =
              tagName k ++ v ++ (endTag k ++ (pieces r 0 u).flatMap (Piece.image f)) := by
            rw [hsplit, pieces_append_of_startsTag hr hname, pieces_endTag_append hr,
              List.flatMap_append, List.flatMap_append, flatMap_image_map_kept,
              flatMap_image_map_kept]
          refine ⟨(pieces r 0 u).flatMap (Piece.image f), ?_⟩
          rw [himage, element, startTag]
          simp only [List.append_assoc, List.cons_append]
        · obtain ⟨n, hn⟩ := hfound u
          rw [hu] at hn
          exact absurd hn (hnone n)
      · rw [hp, List.flatMap_cons]
        exact himage _ _ (ih ht)

end Sub

/-! ## The edits -/

theorem getLast?_credential (k : Key) (w : Text) : (credential k.name w).getLast? = some '>' :=
  List.getLast?_concat

/-- However the edit that takes out a value is read, its pattern starts with the tag, and it puts in
the empty element. -/
theorem parse_removal_cases {w : Text} {s : Substitution}
    (h : Substitution.parse (removal l w) = some s) :
    (∃ z, Regex.parse (startTag l ++ z) = some s.regex) ∧ s.parts = (element l []).map .lit := by
  rw [removal_eq] at h
  have hlast : (credential l.name w).getLast? ≠ some '\\' := by
    rw [getLast?_credential]
    decide
  rcases hdelimited : delimited (credential l.name w ++ '/' :: (startTag l ++ insertionEnd l)) with
    _ | ⟨p, u⟩
  · rw [Substitution.parse, hdelimited] at h
    cases h
  · rw [Substitution.parse_of_delimited hdelimited] at h
    obtain ⟨r, hr, h⟩ := Option.bind_eq_some_iff.mp h
    obtain ⟨⟨ps, flags⟩, hps, h⟩ := Option.bind_eq_some_iff.mp h
    simp only [Option.ite_none_right_eq_some, Option.some.injEq] at h
    obtain ⟨rfl, rfl⟩ := h
    refine ⟨?_, ?_⟩
    · have hstart : ∀ c ∈ startTag l, c ∉ "/\\\n".toList :=
        List.forall_mem_cons.mpr ⟨by decide, forall_mem_tagName l (by decide)⟩
      rw [credential_eq, List.append_assoc, List.append_assoc,
        delimited_append hstart] at hdelimited
      obtain ⟨⟨z, u'⟩, -, hz⟩ := Option.map_eq_some_iff.mp hdelimited
      cases hz
      exact ⟨z, hr⟩
    · rcases delimited_append_slash hdelimited with ⟨rfl, -⟩ | ⟨a, b, heq, -, rfl⟩ | ⟨hback, -⟩
      · rw [replacement_append (verbatim_startTag l), replacement_insertionEnd] at hps
        cases hps
        simp [element]
      · -- a slash of the value would have to be part of the replacement
        have hlength : (['g'] : Text).length < (startTag l ++ insertionEnd l).length := by
          simp only [insertionEnd, startTag, List.length_append, List.length_cons, List.length_nil]
          omega
        obtain ⟨-, hback⟩ := replacement_append_slash hps hlength
        refine absurd ?_ hlast
        rw [heq, List.getLast?_append, getLast?_cons_of_getLast? hback]
        rfl
      · exact absurd hback hlast

/-- A pattern that starts with the tag has two characters that every match starts with. -/
theorem exists_of_parse_startTag {z : Text} {r : Regex}
    (h : Regex.parse (startTag l ++ z) = some r) :
    ∃ r', r = ⟨.char '<', false⟩ :: ⟨.char 'p', false⟩ :: r' := by
  have hsplit : startTag l ++ z = '<' :: (("project.svn.".toList ++ l.name) ++ '>' :: z) := by
    unfold startTag tagName
    simp only [List.append_assoc, List.cons_append, List.nil_append]
  have hname : ∀ c ∈ "project.svn.".toList ++ l.name, c ∉ "*[\\".toList := by
    cases l <;> decide
  rw [hsplit] at h
  have hbegins := Regex.prefix_of_parse (by decide) hname (by simp) h
  have htag : [⟨.char '<', false⟩, ⟨.char 'p', false⟩] <+:
      (Regex.plain (('<' :: ("project.svn.".toList ++ l.name)).map Regex.atomOf)).dropLast := by
    cases l <;> decide
  obtain ⟨r', rfl⟩ := htag.trans hbegins
  exact ⟨r', rfl⟩

theorem startsTag_of_parse {z : Text} {r : Regex} (h : Regex.parse (startTag l ++ z) = some r) :
    StartsTag r := by
  obtain ⟨r', rfl⟩ := exists_of_parse_startTag h
  exact fun t n hn => (Regex.prefix_of_longest hn).1

theorem parse_emptyPattern (l : Key) :
    Regex.parse (startTag l ++ endTag l) = some (emptyPattern l) := by
  have hsplit : startTag l ++ endTag l = element l [] := by rw [element, List.append_nil]
  rw [hsplit]
  exact parse_element (by simp)

/-- A value that a pattern finds is found with whatever follows. -/
theorem exists_longest {z e : Text} {r : Regex} (h : Regex.parse (startTag l ++ z) = some r)
    (he : (r.longest e).isSome = true) (t : Text) : ∃ n, r.longest (e ++ t) = some (n + 1) := by
  obtain ⟨n, hn⟩ := Option.isSome_iff_exists.mp (Regex.isSome_longest_append t he)
  obtain ⟨r', rfl⟩ := exists_of_parse_startTag h
  obtain ⟨n, rfl⟩ := Nat.exists_eq_succ_of_ne_zero (Regex.prefix_of_longest hn).2.ne'
  exact ⟨n, hn⟩

/-- The value that was typed as `w` is put in as `v`, which has no `<`. -/
structure PutInAs (w v : Text) : Prop where
  parts : inner w = some (v.map .lit)
  noTag : '<' ∉ v

/-- The edit that takes out `w` finds the element with the value `v`. -/
def Finds (k : Key) (w v : Text) : Prop :=
  ∃ s, Substitution.parse (removal k w) = some s ∧
    (s.regex.longest (element k v)).isSome = true

instance (k : Key) (w v : Text) : Decidable (Finds k w v) :=
  decidable_of_iff ((Substitution.parse (removal k w)).any fun s =>
    (s.regex.longest (element k v)).isSome) (Option.any_eq_true _ _)

/-- An edit that puts a value into an element: the other element keeps its value, and an empty
element gets the one that is put in. -/
theorem hasValue_insertion {w : Text} (hw : PutInAs w x) (hv : '<' ∉ v) (hx : l = k → x = v')
    (h : v = v' ∨ l = k ∧ v = []) (ht : HasValue k v t) (other : Text → Text → Text) :
    HasValue k v' (edit other (insertion l w) t) := by
  have himage : ∀ m, expand ((startTag l).map .lit ++ x.map .lit ++ (endTag l).map .lit) m =
      element l x := by
    intro m
    rw [expand_tags, expand_map_lit]
    rfl
  rw [edit_of_parse (parse_insertion hw.parts)]
  refine hasValue_sub (startsTag_of_parse (parse_emptyPattern l)) hv (fun m => ?_)
    (fun m t ht => ?_) ?_ ht
  · exact ⟨_, himage m⟩
  · rw [himage]
    exact ht.append_element hw.noTag hx
  · -- the pattern is the empty element, and finds it wherever it stands
    refine h.imp_right ?_
    rintro ⟨rfl, rfl⟩ t
    have hnl : '\n' ∉ element l [] := by cases l <;> decide
    have hself : (emptyPattern l).longest (element l [] ++ []) = some (element l []).length :=
      Regex.longest_plain_append (Regex.forall₂_atomOf hnl) []
    rw [List.append_nil] at hself
    exact exists_longest (parse_emptyPattern l) (by rw [hself]; rfl) t

/-- An edit that takes a value out of an element: the other element keeps its value, and the element
is empty if it was, or if its value is found. -/
theorem hasValue_removal {w : Text} (hw : Known (removal l w)) (hv : '<' ∉ v) (hl : l = k → v' = [])
    (h : v = v' ∨ l = k ∧ Finds k w v) (ht : HasValue k v t) (other : Text → Text → Text) :
    HasValue k v' (edit other (removal l w) t) := by
  rcases hparse : Substitution.parse (removal l w) with _ | s
  · -- a known edit that is not read is refused, and changes nothing
    rw [edit_of_refuses (hw.resolve_left (by simp [hparse]))]
    rcases h with rfl | ⟨rfl, s, hs, -⟩
    · exact ht
    · rw [hs] at hparse
      cases hparse
  · obtain ⟨⟨z, hz⟩, hparts⟩ := parse_removal_cases hparse
    have himage : ∀ m, expand s.parts m = element l [] := by
      intro m
      rw [hparts, expand_map_lit]
    rw [edit_of_parse hparse]
    refine hasValue_sub (startsTag_of_parse hz) hv (fun m => ?_) (fun m t ht => ?_) ?_ ht
    · exact ⟨_, himage m⟩
    · rw [himage]
      exact ht.append_element List.not_mem_nil fun heq => (hl heq).symm
    · refine h.imp_right ?_
      rintro ⟨rfl, s', hs', hfound⟩ t
      obtain rfl := Option.some.inj (hs'.symm.trans hparse)
      exact exists_longest hz hfound t

end Values

end Avetti
