import Avetti.Text.Basic

/-!
# String literals of SQL

A string literal of MySQL is read up to its closing quote. A quote inside is doubled or preceded by
a backslash, and a backslash starts an escape sequence.

## Main definitions

* `Sql.literal t`: the value of the literal that starts `t`, after its opening quote, and the rest
* `Sql.IsVerbatim w`: `w` stands for itself between quotes

## Main results

* `Sql.literal_append_iff`: a text put between quotes is read back exactly when it stands for itself
-/

namespace Sql

/-- The character after a backslash, with what the two stand for. -/
def escape : Char → Text
  | '0' => ['\x00']
  | 'b' => ['\x08']
  | 'n' => ['\n']
  | 'r' => ['\r']
  | 't' => ['\t']
  | 'Z' => ['\x1a']
  | '%' => ['\\', '%']
  | '_' => ['\\', '_']
  | c => [c]

/-- The value of a string literal after its opening quote, and the text after its closing quote. -/
def literal : Text → Option (Text × Text)
  | [] => none
  | '\'' :: '\'' :: t => (literal t).map fun (v, r) => ('\'' :: v, r)
  | '\'' :: t => some ([], t)
  | '\\' :: c :: t => (literal t).map fun (v, r) => (escape c ++ v, r)
  | c :: t => (literal t).map fun (v, r) => (c :: v, r)

/-- The text stands for itself between quotes: it has no quote, and a backslash only before `%` or
`_`. -/
def IsVerbatim : Text → Prop
  | [] => True
  | '\'' :: _ => False
  | '\\' :: c :: t => (c = '%' ∨ c = '_') ∧ IsVerbatim t
  | ['\\'] => False
  | _ :: t => IsVerbatim t

theorem length_escape_le (c : Char) : (escape c).length ≤ 2 := by
  unfold escape
  split <;> simp

theorem eq_of_length_escape {c : Char} (h : (escape c).length = 2) :
    (c = '%' ∨ c = '_') ∧ escape c = ['\\', c] := by
  unfold escape at h ⊢
  split <;> simp_all

theorem isVerbatim_cons {c : Char} {t : Text} (hquote : c ≠ '\'') (hback : c ≠ '\\') :
    IsVerbatim (c :: t) ↔ IsVerbatim t := by
  rw [IsVerbatim]
  all_goals simp_all

/-- A text that stands for itself is read back. -/
theorem literal_of_isVerbatim {w t : Text} (hw : IsVerbatim w) (ht : t.head? ≠ some '\'') :
    literal (w ++ '\'' :: t) = some (w, t) := by
  fun_induction IsVerbatim w with
  | case1 =>
    rcases t with _ | ⟨c, t⟩
    · rfl
    · rw [List.nil_append, literal]
      rintro t' ⟨⟩
      exact ht rfl
  | case2 => exact hw.elim
  | case3 c w ih =>
    obtain ⟨rfl | rfl, hw⟩ := hw
    · simp [literal, ih hw, escape]
    · simp [literal, ih hw, escape]
  | case4 => exact hw.elim
  | case5 c w hquote hback hsingle ih =>
    have hne : c ≠ '\\' := by
      rintro rfl
      rcases w with _ | ⟨c, w⟩
      · exact hsingle rfl rfl
      · exact hback _ _ rfl rfl
    have hliteral : literal (c :: (w ++ '\'' :: t)) =
        (literal (w ++ '\'' :: t)).map fun (v, r) => (c :: v, r) := by
      rw [literal]
      all_goals simp_all
    rw [List.cons_append, hliteral, ih hw]
    rfl

/-- The value of a literal is no longer than the text it is read from, and of the same length only
when that text stands for itself. -/
theorem literal_eq_some {t v r : Text} (h : literal t = some (v, r)) :
    ∃ w, t = w ++ '\'' :: r ∧ v.length ≤ w.length ∧
      (v.length = w.length → v = w ∧ IsVerbatim w) := by
  fun_induction literal t generalizing v with
  | case1 => cases h
  | case2 t ih =>
    -- two quotes stand for one, so the value is shorter
    obtain ⟨⟨v', r'⟩, h', hv⟩ := Option.map_eq_some_iff.mp h
    obtain ⟨rfl, rfl⟩ := Prod.mk.inj hv
    obtain ⟨w, rfl, hle, -⟩ := ih h'
    refine ⟨'\'' :: '\'' :: w, rfl, ?_, ?_⟩
    · simp only [List.length_cons]
      omega
    · intro heq
      simp only [List.length_cons] at heq
      omega
  | case3 t hquote =>
    obtain ⟨rfl, rfl⟩ := Prod.mk.inj (Option.some.inj h)
    exact ⟨[], rfl, le_rfl, fun _ => ⟨rfl, trivial⟩⟩
  | case4 c t ih =>
    obtain ⟨⟨v', r'⟩, h', hv⟩ := Option.map_eq_some_iff.mp h
    obtain ⟨rfl, rfl⟩ := Prod.mk.inj hv
    obtain ⟨w, rfl, hle, heq⟩ := ih h'
    -- an escape keeps its length only when it stands for itself
    have hescape := length_escape_le c
    refine ⟨'\\' :: c :: w, rfl, ?_, ?_⟩
    · simp only [List.length_append, List.length_cons]
      omega
    · intro hlength
      simp only [List.length_append, List.length_cons] at hlength
      obtain ⟨hc, hval⟩ := eq_of_length_escape (c := c) (by omega)
      obtain ⟨rfl, hw⟩ := heq (by omega)
      exact ⟨by rw [hval]; rfl, hc, hw⟩
  | case5 c t hquote hquote' hback ih =>
    obtain ⟨⟨v', r'⟩, h', hv⟩ := Option.map_eq_some_iff.mp h
    obtain ⟨rfl, rfl⟩ := Prod.mk.inj hv
    obtain ⟨w, rfl, hle, heq⟩ := ih h'
    refine ⟨c :: w, rfl, by simpa using hle, fun hlength => ?_⟩
    obtain ⟨rfl, hw⟩ := heq (by simpa using hlength)
    refine ⟨rfl, (isVerbatim_cons ?_ ?_).mpr hw⟩
    · rintro rfl
      exact hquote' rfl
    · rintro rfl
      rcases v' with _ | ⟨c, v'⟩
      · exact hback _ _ rfl rfl
      · exact hback _ _ rfl rfl

/-- **A text between quotes** is read back exactly when it stands for itself. -/
theorem literal_append_iff {w : Text} :
    (∃ r, literal (w ++ ['\'', ';']) = some (w, r)) ↔ IsVerbatim w := by
  constructor
  · rintro ⟨r, h⟩
    obtain ⟨u, hu, hle, heq⟩ := literal_eq_some h
    have hlength : w.length + 2 = u.length + (r.length + 1) := by
      simpa using congrArg List.length hu
    by_cases hlt : w.length = u.length
    · exact (heq hlt).1 ▸ (heq hlt).2
    · -- the text read would end with the quote that is to close it, before a semicolon
      have hr : r = [] := List.length_eq_zero_iff.mp (by omega)
      rw [hr, show w ++ ['\'', ';'] = (w ++ ['\'']) ++ [';'] by simp] at hu
      obtain ⟨-, hlast⟩ := List.append_inj' hu rfl
      cases hlast
  · exact fun hw => ⟨[';'], literal_of_isVerbatim hw (by simp)⟩

end Sql
