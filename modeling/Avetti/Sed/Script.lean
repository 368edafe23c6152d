import Avetti.Sed.Substitute

/-!
# Scripts with a text in the pattern

In the script `s/pattern/replacement/g` the pattern may have delimiters and newlines of its own. The
script is then refused, its replacement is not the one that was meant, or it is not read here.

## Main definitions

* `Sed.script pattern repl`: the text `s/pattern/repl/g`
* `Sed.Known script`: the script is read, or `sed` refuses it
* `Sed.editLine script l`: a line after `sed -i script`, when the script is known

## Main results

* `Sed.parse_script_cases`: how a script is read
* `Sed.parse_script_of_newline`: a pattern with a newline is not read
* `Sed.Known.splitOn_edit`: the lines of a text are edited one by one
-/

namespace Sed

open Piece Sed.Part

/-! ## Delimiters -/

theorem delimited_cons {c : Char} (hc : c ≠ '/' ∧ c ≠ '\\' ∧ c ≠ '\n') (t : Text) :
    delimited (c :: t) = (delimited t).map fun (p, t) => (c :: p, t) := by
  rw [delimited]
  all_goals simp_all

theorem delimited_escaped {c : Char} (hc : c ≠ '/' ∧ c ≠ '\n') (t : Text) :
    delimited ('\\' :: c :: t) = (delimited t).map fun (p, t) => ('\\' :: c :: p, t) := by
  rw [delimited]
  all_goals simp_all

/-- What is read before the delimiter has no newline. -/
theorem exists_of_delimited {t p t' : Text} (h : delimited t = some (p, t')) :
    ∃ u, t = u ++ '/' :: t' ∧ '\n' ∉ u := by
  fun_induction delimited t generalizing p with
  | case1 => cases h
  | case2 => cases h
  | case3 t =>
    cases h
    exact ⟨[], rfl, List.not_mem_nil⟩
  | case4 t ih =>
    obtain ⟨⟨p', r⟩, h', hr⟩ := Option.map_eq_some_iff.mp h
    cases hr
    obtain ⟨u, rfl, hu⟩ := ih h'
    exact ⟨'\\' :: '/' :: u, rfl, by simp [hu]⟩
  | case5 => cases h
  | case6 c t hslash hnl ih =>
    obtain ⟨⟨p', r⟩, h', hr⟩ := Option.map_eq_some_iff.mp h
    cases hr
    obtain ⟨u, rfl, hu⟩ := ih h'
    refine ⟨'\\' :: c :: u, rfl, ?_⟩
    simp only [List.mem_cons, not_or]
    exact ⟨by decide, fun hc => hnl hc.symm, hu⟩
  | case7 c t hnl hslash _ _ _ ih =>
    obtain ⟨⟨p', r⟩, h', hr⟩ := Option.map_eq_some_iff.mp h
    cases hr
    obtain ⟨u, rfl, hu⟩ := ih h'
    refine ⟨c :: u, rfl, ?_⟩
    simp only [List.mem_cons, not_or]
    exact ⟨fun hc => hnl hc.symm, hu⟩

theorem getLast?_cons_of_getLast? {c d : Char} {v : Text} (h : v.getLast? = some d) :
    (c :: v).getLast? = some d := by
  rw [List.getLast?_cons, h]
  rfl

/-- The delimiter is the one that was meant, one inside the text before it, or one after it, when a
backslash takes the one that was meant for part of the pattern. -/
theorem delimited_append_slash {w t p t' : Text} (h : delimited (w ++ '/' :: t) = some (p, t')) :
    (t' = t ∧ delimited (w ++ ['/']) = some (p, [])) ∨
      (∃ u v, w = u ++ '/' :: v ∧ '\n' ∉ u ∧ t' = v ++ '/' :: t) ∨
        w.getLast? = some '\\' ∧ ∃ u, t = u ++ '/' :: t' := by
  fun_induction delimited w generalizing p with
  | case1 =>
    rw [List.nil_append, delimited_slash] at h
    cases h
    exact Or.inl ⟨rfl, rfl⟩
  | case2 => cases h
  | case3 w =>
    rw [List.cons_append, delimited_slash] at h
    cases h
    exact Or.inr (Or.inl ⟨[], w, rfl, List.not_mem_nil, rfl⟩)
  | case4 w ih =>
    rw [List.cons_append, List.cons_append, delimited_escaped_slash] at h
    obtain ⟨⟨p', r⟩, h', hr⟩ := Option.map_eq_some_iff.mp h
    cases hr
    rcases ih h' with ⟨hr, hw⟩ | ⟨u, v, rfl, hu, hr⟩ | ⟨hlast, hr⟩
    · refine Or.inl ⟨hr, ?_⟩
      rw [List.cons_append, List.cons_append, delimited_escaped_slash, hw]
      rfl
    · exact Or.inr (Or.inl ⟨'\\' :: '/' :: u, v, rfl, by simp [hu], hr⟩)
    · exact Or.inr (Or.inr ⟨getLast?_cons_of_getLast? (getLast?_cons_of_getLast? hlast), hr⟩)
  | case5 => cases h
  | case6 c w hslash hnl ih =>
    rw [List.cons_append, List.cons_append, delimited_escaped ⟨hslash, hnl⟩] at h
    obtain ⟨⟨p', r⟩, h', hr⟩ := Option.map_eq_some_iff.mp h
    cases hr
    rcases ih h' with ⟨hr, hw⟩ | ⟨u, v, rfl, hu, hr⟩ | ⟨hlast, hr⟩
    · refine Or.inl ⟨hr, ?_⟩
      rw [List.cons_append, List.cons_append, delimited_escaped ⟨hslash, hnl⟩, hw]
      rfl
    · refine Or.inr (Or.inl ⟨'\\' :: c :: u, v, rfl, ?_, hr⟩)
      simp only [List.mem_cons, not_or]
      exact ⟨by decide, fun hc => hnl hc.symm, hu⟩
    · exact Or.inr (Or.inr ⟨getLast?_cons_of_getLast? (getLast?_cons_of_getLast? hlast), hr⟩)
  | case7 c w hnl hslash hback₁ hback₂ hback₃ ih =>
    by_cases hc : c = '\\'
    · -- a backslash that comes last
      have hw : w = [] := by
        rcases w with _ | ⟨d, w⟩
        · rfl
        · exact absurd rfl (hback₃ d w hc)
      subst hc hw
      rw [List.singleton_append, delimited_escaped_slash] at h
      obtain ⟨⟨p', r⟩, h', hr⟩ := Option.map_eq_some_iff.mp h
      cases hr
      obtain ⟨u, hu, -⟩ := exists_of_delimited h'
      exact Or.inr (Or.inr ⟨rfl, u, hu⟩)
    · rw [List.cons_append, delimited_cons ⟨hslash, hc, hnl⟩] at h
      obtain ⟨⟨p', r⟩, h', hr⟩ := Option.map_eq_some_iff.mp h
      cases hr
      rcases ih h' with ⟨hr, hw⟩ | ⟨u, v, rfl, hu, hr⟩ | ⟨hlast, hr⟩
      · refine Or.inl ⟨hr, ?_⟩
        rw [List.cons_append, delimited_cons ⟨hslash, hc, hnl⟩, hw]
        rfl
      · refine Or.inr (Or.inl ⟨c :: u, v, rfl, ?_, hr⟩)
        simp only [List.mem_cons, not_or]
        exact ⟨fun hc => hnl hc.symm, hu⟩
      · exact Or.inr (Or.inr ⟨getLast?_cons_of_getLast? hlast, hr⟩)

/-- What follows the delimiter does not matter. -/
theorem delimited_append_of_eq_some {w p r : Text} (h : delimited w = some (p, r)) (t : Text) :
    delimited (w ++ t) = some (p, r ++ t) := by
  fun_induction delimited w generalizing p with
  | case1 => cases h
  | case2 => cases h
  | case3 w =>
    cases h
    exact delimited_slash _
  | case4 w ih =>
    obtain ⟨⟨p', r'⟩, h', hr⟩ := Option.map_eq_some_iff.mp h
    cases hr
    rw [List.cons_append, List.cons_append, delimited_escaped_slash, ih h']
    rfl
  | case5 => cases h
  | case6 c w hslash hnl ih =>
    obtain ⟨⟨p', r'⟩, h', hr⟩ := Option.map_eq_some_iff.mp h
    cases hr
    rw [List.cons_append, List.cons_append, delimited_escaped ⟨hslash, hnl⟩, ih h']
    rfl
  | case7 c w hnl hslash hback₁ hback₂ hback₃ ih =>
    obtain ⟨⟨p', r'⟩, h', hr⟩ := Option.map_eq_some_iff.mp h
    cases hr
    have hc : c ≠ '\\' := by
      rintro rfl
      rcases w with _ | ⟨d, w⟩
      · cases h'
      · exact hback₃ d w rfl rfl
    rw [List.cons_append, delimited_cons ⟨hslash, hc, hnl⟩, ih h']
    rfl

/-- A replacement that goes on after a slash has a backslash before it. -/
theorem replacement_append_slash {v t r : Text} {ps : List Part}
    (h : replacement (v ++ '/' :: t) = some (ps, r)) (hr : r.length < t.length) :
    lit '/' ∈ ps ∧ v.getLast? = some '\\' := by
  fun_induction inner v generalizing ps with
  | case1 =>
    rw [List.nil_append, replacement] at h
    cases h
    omega
  | case2 c v hc =>
    rcases hc with rfl | rfl
    · rw [List.cons_append, replacement] at h
      cases h
      simp only [List.length_append, List.length_cons] at hr
      omega
    · rw [List.cons_append, replacement] at h
      cases h
  | case3 v _ ih =>
    rw [List.cons_append, replacement] at h
    obtain ⟨⟨ps', r'⟩, h', heq⟩ := Option.map_eq_some_iff.mp h
    cases heq
    obtain ⟨hmem, hlast⟩ := ih h'
    exact ⟨List.mem_cons_of_mem _ hmem, getLast?_cons_of_getLast? hlast⟩
  | case4 =>
    -- the backslash that comes last escapes the slash
    rw [List.singleton_append, replacement] at h
    obtain ⟨p, hp, h⟩ := Option.bind_eq_some_iff.mp h
    obtain ⟨⟨ps', r'⟩, -, heq⟩ := Option.bind_eq_some_iff.mp h
    cases heq
    cases hp
    exact ⟨List.mem_cons_self, rfl⟩
  | case5 c v _ _ ih =>
    simp only [List.cons_append, replacement] at h
    obtain ⟨p, -, h⟩ := Option.bind_eq_some_iff.mp h
    obtain ⟨⟨ps', r'⟩, h', heq⟩ := Option.bind_eq_some_iff.mp h
    cases heq
    obtain ⟨hmem, hlast⟩ := ih h'
    exact ⟨List.mem_cons_of_mem _ hmem,
      getLast?_cons_of_getLast? (getLast?_cons_of_getLast? hlast)⟩
  | case6 c v hdelim hamp hback ih =>
    rw [not_or] at hdelim
    rw [List.cons_append, replacement_cons ⟨hdelim.1, hamp, hback, hdelim.2⟩] at h
    obtain ⟨⟨ps', r'⟩, h', heq⟩ := Option.map_eq_some_iff.mp h
    cases heq
    obtain ⟨hmem, hlast⟩ := ih h'
    exact ⟨List.mem_cons_of_mem _ hmem, getLast?_cons_of_getLast? hlast⟩

/-- A replacement does not go on after a newline that has no backslash before it. -/
theorem newline_mem_of_replacement {v t r : Text} {ps : List Part}
    (h : replacement (v ++ '\n' :: t) = some (ps, r)) (hv : v.getLast? ≠ some '\\') : '\n' ∈ r := by
  fun_induction inner v generalizing ps with
  | case1 =>
    rw [List.nil_append, replacement] at h
    cases h
  | case2 c v hc =>
    rcases hc with rfl | rfl
    · rw [List.cons_append, replacement] at h
      cases h
      simp
    · rw [List.cons_append, replacement] at h
      cases h
  | case3 v _ ih =>
    rw [List.cons_append, replacement] at h
    obtain ⟨⟨ps', r'⟩, h', heq⟩ := Option.map_eq_some_iff.mp h
    cases heq
    exact ih h' fun hlast => hv (getLast?_cons_of_getLast? hlast)
  | case4 => exact absurd rfl hv
  | case5 c v _ _ ih =>
    simp only [List.cons_append, replacement] at h
    obtain ⟨p, -, h⟩ := Option.bind_eq_some_iff.mp h
    obtain ⟨⟨ps', r'⟩, h', heq⟩ := Option.bind_eq_some_iff.mp h
    cases heq
    exact ih h' fun hlast => hv (getLast?_cons_of_getLast? (getLast?_cons_of_getLast? hlast))
  | case6 c v hdelim hamp hback ih =>
    rw [not_or] at hdelim
    rw [List.cons_append, replacement_cons ⟨hdelim.1, hamp, hback, hdelim.2⟩] at h
    obtain ⟨⟨ps', r'⟩, h', heq⟩ := Option.map_eq_some_iff.mp h
    cases heq
    exact ih h' fun hlast => hv (getLast?_cons_of_getLast? hlast)

/-! ## Scripts -/

/-- The script `s/pattern/repl/g`. -/
def script (pattern repl : Text) : Text := 's' :: '/' :: (pattern ++ '/' :: (repl ++ ['/', 'g']))

section Script

variable {pattern repl : Text}

theorem replacement_verbatim (hrepl : Verbatim repl) :
    replacement (repl ++ ['/', 'g']) = some (repl.map lit, ['g']) := by
  have hend : replacement (['/', 'g'] : Text) = some ([], ['g']) := rfl
  rw [replacement_append hrepl, hend]
  simp

/-- A pattern whose delimiter is the one that was meant. -/
theorem parse_script {p : Text} {r : Regex} (hrepl : Verbatim repl)
    (hp : delimited (pattern ++ ['/']) = some (p, [])) (hr : Regex.parse p = some r) :
    Substitution.parse (script pattern repl) = some ⟨r, repl.map lit⟩ := by
  have hdelimited := delimited_append_of_eq_some hp (repl ++ ['/', 'g'])
  rw [List.append_assoc, List.singleton_append, List.nil_append] at hdelimited
  rw [script, Substitution.parse_of_delimited hdelimited, hr, Option.bind_some,
    replacement_verbatim hrepl]
  rfl

/-- **How a script is read**: as it was meant, or with a slash of the pattern as the delimiter, and
then the replacement has a slash as well. -/
theorem parse_script_cases {s : Substitution} (hrepl : Verbatim repl)
    (h : Substitution.parse (script pattern repl) = some s) :
    ∃ p t, delimited (pattern ++ '/' :: (repl ++ ['/', 'g'])) = some (p, t) ∧
      Regex.parse p = some s.regex ∧
      ((delimited (pattern ++ ['/']) = some (p, []) ∧ s.parts = repl.map lit) ∨
        ∃ u v, pattern = u ++ '/' :: v ∧ '\n' ∉ u ∧ v.getLast? = some '\\' ∧ lit '/' ∈ s.parts ∧
          replacement (v ++ '/' :: (repl ++ ['/', 'g'])) = some (s.parts, ['g'])) := by
  rcases hdelimited : delimited (pattern ++ '/' :: (repl ++ ['/', 'g'])) with _ | ⟨p, t⟩
  · rw [script, Substitution.parse, hdelimited] at h
    cases h
  · rw [script, Substitution.parse_of_delimited hdelimited] at h
    obtain ⟨r, hr, h⟩ := Option.bind_eq_some_iff.mp h
    obtain ⟨⟨ps, flags⟩, hps, h⟩ := Option.bind_eq_some_iff.mp h
    simp only [Option.ite_none_right_eq_some, Option.some.injEq] at h
    obtain ⟨rfl, rfl⟩ := h
    refine ⟨p, t, rfl, hr, ?_⟩
    rcases delimited_append_slash hdelimited with ⟨rfl, hp⟩ | ⟨u, v, rfl, hu, rfl⟩ | ⟨-, u, hu⟩
    · rw [replacement_verbatim hrepl] at hps
      cases hps
      exact Or.inl ⟨hp, rfl⟩
    · obtain ⟨hmem, hlast⟩ := replacement_append_slash hps (by simp)
      exact Or.inr ⟨u, v, rfl, hu, hlast, hmem, hps⟩
    · -- the only slash after the pattern is the one before the flag
      exfalso
      have hslash : '/' ∉ repl := hrepl.slash_not_mem
      have ht : t = ['g'] := by
        rcases List.append_eq_append_iff.mp hu with ⟨w, -, hw⟩ | ⟨w, rfl, hw⟩
        · rcases w with _ | ⟨d, w⟩
          · exact (List.cons.inj hw).2.symm
          · obtain ⟨-, hw⟩ := List.cons.inj hw
            have hmem : '/' ∈ (['g'] : Text) := by
              rw [hw]
              simp
            simp at hmem
        · rcases w with _ | ⟨d, w⟩
          · simpa using hw
          · obtain ⟨rfl, -⟩ := List.cons.inj hw
            simp at hslash
      rw [ht] at hps
      cases hps

/-- A pattern with a newline is not read, unless a backslash comes before it and another one at the
end. -/
theorem parse_script_of_newline {a b : Text} (hrepl : Verbatim repl)
    (hback : a.getLast? ≠ some '\\' ∨ (a ++ '\n' :: b).getLast? ≠ some '\\') :
    Substitution.parse (script (a ++ '\n' :: b) repl) = none := by
  rcases h : Substitution.parse (script (a ++ '\n' :: b) repl) with _ | s
  · rfl
  · exfalso
    obtain ⟨p, t, -, -, ⟨hp, -⟩ | ⟨u, v, hpattern, hu, hlast, -, hps⟩⟩ := parse_script_cases hrepl h
    · -- the pattern is read to its end, and what is read has no newline
      obtain ⟨u, heq, hu⟩ := exists_of_delimited hp
      have hpattern : a ++ '\n' :: b = u := List.append_cancel_right heq
      exact hu (hpattern ▸ by simp)
    · -- a slash of the pattern is the delimiter, and the newline stands in the replacement
      rcases hback with hback | hback
      · obtain ⟨a', rfl, rfl⟩ : ∃ a', a = u ++ '/' :: a' ∧ v = a' ++ '\n' :: b := by
          rcases List.append_eq_append_iff.mp hpattern with ⟨w, rfl, hw⟩ | ⟨w, rfl, hw⟩
          · rcases w with _ | ⟨d, w⟩
            · cases hw
            · obtain ⟨rfl, -⟩ := List.cons.inj hw
              simp at hu
          · rcases w with _ | ⟨d, w⟩
            · cases hw
            · obtain ⟨rfl, hv⟩ := List.cons.inj hw
              exact ⟨w, rfl, hv⟩
        rw [List.append_assoc, List.cons_append] at hps
        have hmem := newline_mem_of_replacement hps fun hlast' =>
          hback (by rw [List.getLast?_append, getLast?_cons_of_getLast? hlast']; rfl)
        simp at hmem
      · apply hback
        rw [hpattern, List.getLast?_append, getLast?_cons_of_getLast? hlast]
        rfl

end Script

/-! ## Lines -/

theorem length_splitOn (d : Char) (t : Text) : (t.splitOn d).length = t.count d + 1 := by
  induction t with
  | nil => rfl
  | cons c t ih =>
    rw [List.splitOn_cons_eq_if_modifyHead, List.count_cons]
    split_ifs with h
    · rw [List.length_cons, ih]
    · rw [List.length_modifyHead, ih, Nat.add_zero]

theorem mem_of_mem_pieces {r : Regex} {c : Char} {p : Piece} {k : ℕ} {t : Text}
    (hp : p ∈ pieces r k t) (hc : c ∈ p.source) : c ∈ t := by
  have hmem : c ∈ (pieces r k t).flatMap source := List.mem_flatMap.mpr ⟨p, hp, hc⟩
  rw [flatMap_source_pieces] at hmem
  exact List.mem_of_mem_drop hmem

/-- No match has a newline. -/
theorem newline_not_mem_of_found {r : Regex} {m : Text} {k : ℕ} {t : Text}
    (h : found m ∈ pieces r k t) : '\n' ∉ m := by
  intro hmem
  obtain ⟨-, b, hb⟩ := longest_of_found h
  obtain ⟨a, a', rfl, -⟩ := List.eq_append_cons_of_mem hmem
  -- the match would end before the newline
  rw [List.append_assoc, List.cons_append, Regex.longest_append_cons r.avoids_newline] at hb
  have hle := r.longest_le a _ hb
  rw [List.length_append, List.length_cons] at hle
  omega

/-- A replacement puts newlines in, and takes none out. -/
theorem count_newline_le {f : Text → Text} {ps : List Piece} (hps : ∀ m, found m ∈ ps → '\n' ∉ m) :
    (ps.flatMap source).count '\n' ≤ (ps.flatMap (image f)).count '\n' ∧
      ((ps.flatMap source).count '\n' = (ps.flatMap (image f)).count '\n' →
        ∀ m, found m ∈ ps → '\n' ∉ f m) := by
  induction ps with
  | nil => simp
  | cons p ps ih =>
    obtain ⟨hle, heq⟩ := ih fun m hm => hps m (List.mem_cons_of_mem p hm)
    rw [List.flatMap_cons, List.flatMap_cons, List.count_append, List.count_append]
    cases p with
    | kept c =>
      refine ⟨Nat.add_le_add_left hle _, fun h m hm => ?_⟩
      rcases List.mem_cons.mp hm with hm | hm
      · cases hm
      · exact heq (Nat.add_left_cancel h) m hm
    | found m =>
      -- a match counts nothing, so whatever its replacement counts is put in
      have hzero : (source (found m)).count '\n' = 0 :=
        List.count_eq_zero.mpr (hps m List.mem_cons_self)
      rw [hzero]
      refine ⟨by omega, fun h m' hm' => ?_⟩
      have himage : (image f (found m)).count '\n' = 0 := by omega
      rcases List.mem_cons.mp hm' with hm' | hm'
      · cases hm'
        exact List.count_eq_zero.mp himage
      · exact heq (by omega) m' hm'

section Lines

variable {r : Regex} {f : Text → Text}

theorem sub_lines (r : Regex) (f : Text → Text) (t : Text) :
    sub r f t = ['\n'].intercalate ((t.splitOn '\n').map (sub r f)) := by
  have hmap : ∀ ls : List Text, ls ≠ [] →
      sub r f (['\n'].intercalate ls) = ['\n'].intercalate (ls.map (sub r f)) := by
    intro ls hls
    induction ls with
    | nil => exact absurd rfl hls
    | cons l ls ih =>
      rcases ls with _ | ⟨l', ls⟩
      · simp
      · rw [List.intercalate_cons_cons, List.append_assoc, List.singleton_append,
          sub_append_cons r.avoids_newline, ih (by simp)]
        simp only [List.map_cons, List.intercalate_cons_cons, List.append_assoc,
          List.singleton_append]
  have hjoin : ['\n'].intercalate (t.splitOn '\n') = t := List.intercalate_splitOn '\n'
  rw [← hmap _ (List.splitOn_ne_nil '\n' t), hjoin]

/-- A match starts as the first atom of the expression says. -/
theorem head_of_found {a : Atom} {r' : Regex} {m : Text} {k : ℕ} {t : Text}
    (h : found m ∈ pieces (⟨a, false⟩ :: r') k t) : ∃ c m', m = c :: m' ∧ a.accepts c = true := by
  obtain ⟨hne, b, hb⟩ := longest_of_found h
  obtain ⟨c, m', rfl⟩ := List.exists_cons_of_ne_nil hne
  rw [List.cons_append, Regex.longest] at hb
  split_ifs at hb with hac
  exact ⟨c, m', rfl, hac⟩

/-- The pieces of a line are pieces of the text. -/
theorem mem_pieces_of_line {l t : Text} {p : Piece} (hl : l ∈ t.splitOn '\n')
    (hp : p ∈ pieces r 0 l) : p ∈ pieces r 0 t := by
  have hmem : ∀ ls : List Text, l ∈ ls → p ∈ pieces r 0 (['\n'].intercalate ls) := by
    intro ls hls
    induction ls with
    | nil => cases hls
    | cons l' ls ih =>
      rcases ls with _ | ⟨l'', ls⟩
      · rw [List.intercalate_singleton, ← List.mem_singleton.mp hls]
        exact hp
      · rw [List.intercalate_cons_cons, List.append_assoc, List.singleton_append,
          pieces_append_cons r.avoids_newline (Nat.zero_le _), List.mem_append]
        rcases List.mem_cons.mp hls with rfl | hls
        · exact Or.inl hp
        · exact Or.inr (List.mem_cons_of_mem _ (ih hls))
  have hjoin : ['\n'].intercalate (t.splitOn '\n') = t := List.intercalate_splitOn '\n'
  rw [← hjoin]
  exact hmem _ hl

/-- Lines whose matches are replaced by texts without newlines are edited one by one. -/
theorem splitOn_sub {t : Text} (hf : ∀ m, found m ∈ pieces r 0 t → '\n' ∉ f m) :
    (sub r f t).splitOn '\n' = (t.splitOn '\n').map (sub r f) := by
  rw [sub_lines]
  refine List.splitOn_intercalate '\n' (fun l hl hnl => ?_)
    (by simp)
  obtain ⟨l', hl', rfl⟩ := List.mem_map.mp hl
  obtain ⟨p, hp, hc⟩ := List.mem_flatMap.mp hnl
  cases p with
  | kept c => exact Text.newline_not_mem_of_mem_splitOn hl' (mem_of_mem_pieces hp hc)
  | found m => exact hf m (mem_pieces_of_line hl' hp) hc

/-- A text gets no fewer lines, and when it gets no more they are edited one by one. -/
theorem splitOn_sub_of_length {t : Text} :
    (t.splitOn '\n').length ≤ ((sub r f t).splitOn '\n').length ∧
      ((t.splitOn '\n').length = ((sub r f t).splitOn '\n').length →
        (sub r f t).splitOn '\n' = (t.splitOn '\n').map (sub r f)) := by
  obtain ⟨hle, heq⟩ :=
    count_newline_le (f := f) fun m (hm : found m ∈ pieces r 0 t) => newline_not_mem_of_found hm
  rw [flatMap_source_pieces, List.drop_zero, ← sub] at hle heq
  rw [length_splitOn, length_splitOn]
  exact ⟨by omega, fun h => splitOn_sub (heq (by omega))⟩

/-- A line is left as it is, or its first match is replaced. -/
theorem sub_eq_self_or (r : Regex) (f : Text → Text) (l : Text) :
    sub r f l = l ∨ ∃ p m q q', l = p ++ m ++ q ∧ sub r f l = p ++ f m ++ q' ∧
      found m ∈ pieces r 0 l := by
  have hsource : (pieces r 0 l).flatMap source = l := flatMap_source_pieces r 0 l
  rcases eq_map_kept_or (pieces r 0 l) with ⟨p, hp⟩ | ⟨p, m, qs, hp⟩
  · left
    rw [hp, flatMap_source_map_kept] at hsource
    rw [sub, hp, flatMap_image_map_kept, hsource]
  · refine Or.inr ⟨p, m, qs.flatMap source, qs.flatMap (image f), ?_, ?_, by simp [hp]⟩
    · rw [← hsource, hp]
      simp [source]
    · rw [sub, hp]
      simp [image]

end Lines

/-- The script is read, or `sed` refuses it. -/
def Known (script : Text) : Prop :=
  (Substitution.parse script).isSome = true ∨ refuses script = true

instance (script : Text) : Decidable (Known script) := inferInstanceAs (Decidable (_ ∨ _))

/-- A line after `sed -i script`, when the script is known. -/
def editLine (script l : Text) : Text :=
  match Substitution.parse script with
  | some s => sub s.regex (expand s.parts) l
  | none => l

section Edit

variable {other : Text → Text → Text} {script : Text}

/-- What is not known can be anything. -/
theorem edit_of_not_known (h : ¬ Known script) (t : Text) :
    edit other script t = other script t := by
  rw [Known, not_or, Option.not_isSome_iff_eq_none] at h
  rw [edit, h.1]
  exact if_neg h.2

theorem Known.edit_eq (h : Known script) (t : Text) :
    edit other script t = editLine script t := by
  rw [editLine]
  rcases hs : Substitution.parse script with _ | s
  · exact edit_of_refuses (h.resolve_left (by simp [hs])) t
  · exact edit_of_parse hs t

/-- **The lines of a text are edited one by one**, unless the script puts newlines in. -/
theorem Known.splitOn_edit (h : Known script) (t : Text) :
    (t.splitOn '\n').length ≤ ((edit other script t).splitOn '\n').length ∧
      ((t.splitOn '\n').length = ((edit other script t).splitOn '\n').length →
        (edit other script t).splitOn '\n' = (t.splitOn '\n').map (editLine script)) := by
  rw [h.edit_eq]
  rcases hs : Substitution.parse script with _ | s
  · have hid : editLine script = id := by
      funext l
      unfold editLine
      rw [hs]
      rfl
    simp [hid]
  · have hsub : editLine script = sub s.regex (expand s.parts) := by
      funext l
      unfold editLine
      rw [hs]
    rw [hsub]
    exact splitOn_sub_of_length

end Edit

end Sed
