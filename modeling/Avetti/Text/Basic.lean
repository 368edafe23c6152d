import Mathlib.Data.List.Basic
import Mathlib.Data.List.DropRight
import Mathlib.Data.List.Infix

/-!
# Texts, lines and fields

A text is the list of its characters. The text utilities work on the lines of a text, and `cut` on
the fields of a line.

## Main definitions

* `Text`: texts
* `Text.lines`, `Text.unlines`: the lines of a text, and the text of some lines
* `Text.mapLines f`: every line replaced by its image, the end of the text kept
* `Text.grep p`: the lines satisfying `p`
* `Text.chomp`: a text without its trailing newlines, as a command substitution gives it
* `Text.cut d n`: the `n`-th field of a line

## Main results

* `Text.infix_delimited_iff`: a word stands between two delimiters of a line exactly when it is one
  of its fields and neither the first nor the last
* `Text.occurs_iff_exists_mem_splitOn`: a word without the delimiter occurs in a text exactly when
  it occurs in one of its pieces
* `Text.chomp_grep_ne_nil_iff`: a `grep` for a word has an output exactly when the word occurs
-/

/-- Texts. -/
abbrev Text := List Char

instance : Coe String Text := ⟨String.toList⟩

/-- A property of the characters of a text is decided one after the other, not for all characters
there are. -/
instance (priority := high) decidableForallMem {α : Type} (l : List α) (p : α → Prop)
    [DecidablePred p] : Decidable (∀ a ∈ l, p a) := List.decidableBAll p l

instance (priority := high) decidableExistsMem {α : Type} (l : List α) (p : α → Prop)
    [DecidablePred p] : Decidable (∃ a ∈ l, p a) := List.decidableBEx p l

instance (priority := high) decidableMemTexts (t : Text) (ts : List Text) : Decidable (t ∈ ts) :=
  List.instDecidableMemOfLawfulBEq t ts

namespace Text

/-- The lines of a text; a last line without its newline is a line unless it is empty. -/
def lines (t : Text) : List Text :=
  if (t.splitOn '\n').getLast? = some [] then (t.splitOn '\n').dropLast else t.splitOn '\n'

/-- The text with the given lines. -/
def unlines (ls : List Text) : Text := ls.flatMap (· ++ ['\n'])

/-- Replace every line by its image, and keep a missing last newline missing. -/
def mapLines (f : Text → Text) (t : Text) : Text :=
  ['\n'].intercalate ((t.splitOn '\n').dropLast.map f ++
    ((t.splitOn '\n').getLast?.toList.map fun l => if l = [] then [] else f l))

/-- The lines satisfying `p`. -/
def grep (p : Text → Bool) (t : Text) : Text := unlines ((lines t).filter p)

/-- The text without its trailing newlines. -/
def chomp (t : Text) : Text := t.rdropWhile (· = '\n')

/-- The `n`-th field of a line, counted from 1; the whole line when it has no delimiter. -/
def cut (d : Char) (n : Nat) (l : Text) : Text :=
  if d ∈ l then ((l.splitOn d)[n - 1]?).getD [] else l

/-- The fields from the `m`-th to the `n`-th of a line, counted from 1; the whole line when it has no
delimiter. -/
def cutRange (d : Char) (m n : ℕ) (l : Text) : Text :=
  if d ∈ l then [d].intercalate (((l.splitOn d).take n).drop (m - 1)) else l

/-- The fields of a line from the `m`-th on; the whole line when it has no delimiter. -/
def cutFrom (d : Char) (m : ℕ) (l : Text) : Text :=
  if d ∈ l then [d].intercalate ((l.splitOn d).drop (m - 1)) else l

/-- The `n`-th field of every line. -/
def cutLines (d : Char) (n : ℕ) (t : Text) : Text := unlines ((lines t).map (cut d n))

/-- The last line of a text. -/
def lastLine (t : Text) : Text := (lines t).getLast?.getD []

/-- The text in lower case. -/
def lower (t : Text) : Text := t.map Char.toLower

/-- `w` occurs in `t`. -/
def Occurs (w t : Text) : Prop := w <:+: t

instance (w t : Text) : Decidable (Occurs w t) := inferInstanceAs (Decidable (w <:+: t))

theorem mem_intercalate {d c : Char} {ws : List Text} (hc : c ∈ [d].intercalate ws) :
    c = d ∨ ∃ w ∈ ws, c ∈ w := by
  induction ws with
  | nil => cases hc
  | cons w ws ih =>
    rcases ws with _ | ⟨w', ws⟩
    · rw [List.intercalate_singleton] at hc
      exact Or.inr ⟨w, List.mem_cons_self, hc⟩
    · rw [List.intercalate_cons_cons, List.append_assoc, List.mem_append, List.mem_append,
        List.mem_singleton] at hc
      rcases hc with hc | rfl | hc
      · exact Or.inr ⟨w, List.mem_cons_self, hc⟩
      · exact Or.inl rfl
      · rcases ih hc with rfl | ⟨u, hu, hcu⟩
        · exact Or.inl rfl
        · exact Or.inr ⟨u, List.mem_cons_of_mem w hu, hcu⟩

/-! ## Fields between blanks -/

/-- The inner fields of a line: neither the first nor the last. -/
def innerFields (d : Char) (l : Text) : List Text := (l.splitOn d).tail.dropLast

theorem intercalate_append {d : Char} {xs ys : List Text} (hx : xs ≠ []) (hy : ys ≠ []) :
    [d].intercalate (xs ++ ys) = [d].intercalate xs ++ d :: [d].intercalate ys := by
  induction xs with
  | nil => exact absurd rfl hx
  | cons x xs ih =>
    rcases xs with _ | ⟨x', xs⟩
    · rw [List.singleton_append, List.intercalate_cons_of_ne_nil hy]
      simp
    · rw [List.cons_append, List.intercalate_cons_of_ne_nil (by simp), ih (by simp),
        List.intercalate_cons_of_ne_nil (List.cons_ne_nil x' xs)]
      simp

/-- The first of joined texts stands at the beginning. -/
theorem exists_intercalate_cons (d : Char) (w : Text) (ws : List Text) :
    ∃ u, [d].intercalate (w :: ws) = w ++ u := by
  rcases ws with _ | ⟨w', ws⟩
  · exact ⟨[], by simp⟩
  · exact ⟨d :: [d].intercalate (w' :: ws), by simp [List.intercalate_cons_cons]⟩

/-- The last of joined texts stands at the end. -/
theorem exists_intercalate_concat (d : Char) (ws : List Text) (w : Text) :
    ∃ u, [d].intercalate (ws ++ [w]) = u ++ w := by
  rcases ws with _ | ⟨w', ws⟩
  · exact ⟨[], by simp⟩
  · refine ⟨[d].intercalate (w' :: ws) ++ [d], ?_⟩
    rw [intercalate_append (List.cons_ne_nil w' ws) (List.cons_ne_nil w [])]
    simp

/-- A word without the delimiter stands between two delimiters of a line exactly when it is one of
its inner fields. -/
theorem infix_delimited_iff {d : Char} {w l : Text} (hw : d ∉ w) :
    Occurs (d :: w ++ [d]) l ↔ w ∈ innerFields d l := by
  constructor
  · rintro ⟨p, q, rfl⟩
    have hsplit : (p ++ (d :: w ++ [d]) ++ q).splitOn d =
        p.splitOn d ++ (w :: q.splitOn d) := by
      rw [show p ++ (d :: w ++ [d]) ++ q = p ++ d :: (w ++ d :: q) by simp,
        List.splitOn_append_cons_self, List.splitOn_append_cons_self_of_not_mem hw]
    rw [innerFields, hsplit]
    obtain ⟨f, fs, hp⟩ := List.exists_cons_of_ne_nil (List.splitOn_ne_nil d p)
    obtain ⟨g, gs, hq⟩ := List.exists_cons_of_ne_nil (List.splitOn_ne_nil d q)
    rw [hp, hq, List.cons_append, List.tail_cons, List.dropLast_append_of_ne_nil (by simp)]
    simp
  · intro h
    obtain ⟨f, fs, hl⟩ := List.exists_cons_of_ne_nil (List.splitOn_ne_nil d l)
    rw [innerFields, hl, List.tail_cons] at h
    rcases List.eq_nil_or_concat fs with rfl | ⟨fs, g, rfl⟩
    · simp at h
    · rw [List.concat_eq_append, List.dropLast_concat] at h
      obtain ⟨us, vs, rfl⟩ := List.append_of_mem h
      have hl' : l.splitOn d = (f :: us) ++ ([w] ++ (vs ++ [g])) := by
        rw [hl]
        simp
      have hjoin : [d].intercalate (l.splitOn d) = l := List.intercalate_splitOn d
      rw [hl', intercalate_append (by simp) (by simp), intercalate_append (by simp) (by simp)]
        at hjoin
      exact ⟨[d].intercalate (f :: us), [d].intercalate (vs ++ [g]), by
        rw [← hjoin]
        simp⟩

theorem splitOn_intercalate_flatMap {d : Char} {ws : List Text} (hws : ws ≠ []) :
    ([d].intercalate ws).splitOn d = ws.flatMap (·.splitOn d) := by
  induction ws with
  | nil => exact absurd rfl hws
  | cons w ws ih =>
    rcases ws with _ | ⟨w', ws⟩
    · simp
    · rw [List.intercalate_cons_cons, List.append_assoc, List.singleton_append,
        List.splitOn_append_cons_self, ih (by simp), List.flatMap_cons]
      rfl

theorem occurs_append_cons {d : Char} {w l r : Text} (hw : d ∉ w) :
    Occurs w (l ++ d :: r) ↔ Occurs w l ∨ Occurs w r := by
  constructor
  · rintro ⟨p, q, h⟩
    rcases List.append_eq_append_iff.mp h with ⟨u, rfl, -⟩ | ⟨u, hl, hr⟩
    · exact Or.inl ⟨p, u, rfl⟩
    · rcases u with _ | ⟨c, u⟩
      · rw [List.append_nil] at hl
        exact Or.inl ⟨p, [], by simpa using hl⟩
      · obtain ⟨rfl, rfl⟩ := List.cons.inj hr
        rcases List.append_eq_append_iff.mp hl with ⟨v, rfl, hv⟩ | ⟨v, rfl, hv⟩
        · exact absurd (hv ▸ List.mem_append_right v List.mem_cons_self) hw
        · -- the delimiter is not in `w`, so it stands before it
          rcases v with _ | ⟨c', v⟩
          · rw [List.nil_append] at hv
            exact absurd (hv ▸ List.mem_cons_self) hw
          · obtain ⟨rfl, rfl⟩ := List.cons.inj hv
            exact Or.inr ⟨v, q, by simp⟩
  · rintro (⟨p, q, rfl⟩ | ⟨p, q, rfl⟩)
    · exact ⟨p, q ++ d :: r, by simp⟩
    · exact ⟨l ++ d :: p, q, by simp⟩

/-- A word without the delimiter occurs in a text exactly when it occurs in one of its pieces. -/
theorem occurs_iff_exists_mem_splitOn {d : Char} {w t : Text} (hw : d ∉ w) :
    Occurs w t ↔ ∃ l ∈ t.splitOn d, Occurs w l := by
  have hpieces : ∀ ls : List Text, ls ≠ [] →
      (Occurs w ([d].intercalate ls) ↔ ∃ l ∈ ls, Occurs w l) := by
    intro ls hls
    induction ls with
    | nil => exact absurd rfl hls
    | cons l ls ih =>
      rcases ls with _ | ⟨l', ls⟩
      · simp
      · rw [List.intercalate_cons_cons, List.append_assoc, List.singleton_append,
          occurs_append_cons hw, ih (by simp)]
        simp
  have h := hpieces (t.splitOn d) (List.splitOn_ne_nil d t)
  rwa [List.intercalate_splitOn] at h

/-! ## Words that start with a delimiter -/

theorem occurs_cons_cons {d : Char} {w l : Text} :
    Occurs (d :: w) (d :: l) ↔ w <+: l ∨ Occurs (d :: w) l := by
  rw [Occurs, List.infix_cons_iff, List.cons_prefix_cons, ← Occurs]
  simp

theorem occurs_append_of_not_mem {d : Char} {w l r : Text} (hl : d ∉ l) :
    Occurs (d :: w) (l ++ r) ↔ Occurs (d :: w) r := by
  induction l with
  | nil => rfl
  | cons c l ih =>
    rw [List.mem_cons, not_or] at hl
    rw [List.cons_append, Occurs, List.infix_cons_iff, List.cons_prefix_cons, ← Occurs, ih hl.2]
    simp [hl.1]

/-- A word with one delimiter, its first character, does not reach over a delimiter. -/
theorem occurs_append_delimiter {d : Char} {w l r : Text} (hw : d ∉ w) :
    Occurs (d :: w) (l ++ d :: r) ↔ Occurs (d :: w) l ∨ Occurs (d :: w) (d :: r) := by
  constructor
  · rintro ⟨p, q, h⟩
    rw [List.append_assoc] at h
    rcases List.append_eq_append_iff.mp h with ⟨u, rfl, hu⟩ | ⟨u, rfl, hu⟩
    · rcases List.append_eq_append_iff.mp hu with ⟨v, rfl, -⟩ | ⟨v, hv, hr⟩
      · exact Or.inl ⟨p, v, by simp⟩
      · -- the delimiter would stand inside the word
        rcases u with _ | ⟨c, u⟩
        · exact Or.inr ⟨[], q, by simpa using hu⟩
        · rcases v with _ | ⟨c', v⟩
          · exact Or.inl ⟨p, [], by simp [hv]⟩
          · obtain ⟨rfl, rfl⟩ := List.cons.inj hr
            obtain ⟨-, rfl⟩ := List.cons.inj hv
            exact absurd (List.mem_append_right u List.mem_cons_self) hw
    · exact Or.inr ⟨u, q, by rw [List.append_assoc, hu]⟩
  · rintro (h | h)
    · exact h.trans (List.prefix_append l _).isInfix
    · exact h.trans (List.suffix_append l _).isInfix

/-- Another word with one delimiter, its first character, can be left out of a text. -/
theorem occurs_append_word {d : Char} {w u l r : Text} (hw : d ∉ w) (hu : d ∉ u)
    (hwu : ¬ w <+: u) (huw : ¬ u <+: w) :
    Occurs (d :: w) (l ++ d :: u ++ r) ↔ Occurs (d :: w) l ∨ Occurs (d :: w) r := by
  have hbegins : ¬ w <+: u ++ r := fun h =>
    (List.prefix_or_prefix_of_prefix h (List.prefix_append u r)).elim hwu huw
  rw [List.append_assoc, List.cons_append, occurs_append_delimiter hw, occurs_cons_cons,
    occurs_append_of_not_mem hu]
  simp [hbegins]

/-- A word with one delimiter, its first character, that occurs only once occurs at one place. -/
theorem eq_of_append_once {d : Char} {w a b p q : Text} (hw : d ∉ w) (ha : ¬ Occurs (d :: w) a)
    (hb : ¬ Occurs (d :: w) b) (h : a ++ (d :: w) ++ b = p ++ (d :: w) ++ q) : p = a := by
  rw [List.append_assoc, List.append_assoc] at h
  rcases List.append_eq_append_iff.mp h with ⟨u, rfl, hu⟩ | ⟨u, rfl, hu⟩
  · rcases u with _ | ⟨c, u⟩
    · simp
    · -- the second place would be after the first one
      obtain ⟨rfl, hu'⟩ := List.cons.inj hu
      have hu' : w ++ b = u ++ (d :: w ++ q) := hu'
      have hocc : Occurs (d :: w) (w ++ b) := ⟨u, q, by rw [hu', List.append_assoc]⟩
      exact absurd ((occurs_append_of_not_mem hw).mp hocc) hb
  · rcases u with _ | ⟨c, u⟩
    · simp
    · -- the second place would be before the first one
      exfalso
      apply ha
      rcases List.append_eq_append_iff.mp hu with ⟨v, hv, -⟩ | ⟨v, hv, hv'⟩
      · exact ⟨p, v, by rw [hv, List.append_assoc]⟩
      · rcases v with _ | ⟨c', v⟩
        · exact ⟨p, [], by rw [hv]; simp⟩
        · obtain ⟨rfl, -⟩ := List.cons.inj hv'
          obtain ⟨rfl, rfl⟩ := List.cons.inj hv
          exact absurd (List.mem_append_right u List.mem_cons_self) hw

/-! ## Lines -/

theorem not_of_mem_splitOnP {p : Char → Bool} {t w : Text} (hw : w ∈ t.splitOnP p) :
    ∀ c ∈ w, p c = false := by
  induction t generalizing w with
  | nil =>
    rw [List.splitOnP_nil, List.mem_singleton] at hw
    simp [hw]
  | cons a t ih =>
    rw [List.splitOnP_cons_eq_if_modifyHead] at hw
    obtain ⟨v, vs, hv⟩ := List.exists_cons_of_ne_nil (List.splitOnP_ne_nil p t)
    split_ifs at hw with ha
    · rcases List.mem_cons.mp hw with rfl | hw
      · simp
      · exact ih hw
    · rw [hv, List.modifyHead_cons] at hw
      rcases List.mem_cons.mp hw with rfl | hw
      · intro c hc
        rcases List.mem_cons.mp hc with rfl | hc
        · simpa using ha
        · exact ih (hv ▸ List.mem_cons_self) c hc
      · exact ih (hv ▸ List.mem_cons_of_mem v hw)

theorem exists_splitOn_eq (t : Text) : ∃ ls last, t.splitOn '\n' = ls ++ [last] := by
  obtain ⟨ls, last, h⟩ := List.eq_nil_or_concat (t.splitOn '\n') |>.resolve_left
    (List.splitOn_ne_nil '\n' t)
  exact ⟨ls, last, by rw [h, List.concat_eq_append]⟩

/-- An empty last line need not be set apart when it is its own image. -/
theorem mapLines_of_nil {f : Text → Text} (hnil : f [] = []) (t : Text) :
    mapLines f t = ['\n'].intercalate ((t.splitOn '\n').map f) := by
  have hlast : (fun l => if l = [] then [] else f l) = f := by
    funext l
    split_ifs with h
    · rw [h, hnil]
    · rfl
  obtain ⟨ls, last, h⟩ := exists_splitOn_eq t
  rw [mapLines, hlast, h, List.dropLast_concat, List.getLast?_concat, Option.toList_some,
    ← List.map_append]

/-- A function that treats the lines of a text one by one maps them. -/
theorem mapLines_eq {f : Text → Text} (hnil : f [] = [])
    (happ : ∀ l t, f (l ++ '\n' :: t) = f l ++ '\n' :: f t) (t : Text) : mapLines f t = f t := by
  have hmap : ∀ ls : List Text, f (['\n'].intercalate ls) = ['\n'].intercalate (ls.map f) := by
    intro ls
    induction ls with
    | nil => exact hnil
    | cons l ls ih =>
      rcases ls with _ | ⟨l', ls⟩
      · simp
      · rw [List.intercalate_cons_cons, List.append_assoc, List.singleton_append, happ, ih]
        simp only [List.map_cons, List.intercalate_cons_cons, List.append_assoc,
          List.singleton_append]
  have hjoin : ['\n'].intercalate (t.splitOn '\n') = t := List.intercalate_splitOn '\n'
  rw [mapLines_of_nil hnil, ← hmap, hjoin]

/-- What the newlines delimit is the lines, and nothing after the last newline. -/
theorem splitOn_eq_lines_or (t : Text) :
    t.splitOn '\n' = lines t ∨ t.splitOn '\n' = lines t ++ [[]] := by
  rw [lines]
  split_ifs with hlast
  · right
    obtain ⟨ls, last, h⟩ := exists_splitOn_eq t
    rw [h, List.getLast?_concat] at hlast
    obtain rfl := Option.some.inj hlast
    rw [h, List.dropLast_concat]
  · exact Or.inl rfl

theorem mem_lines_iff {l t : Text} (hl : l ≠ []) : l ∈ lines t ↔ l ∈ t.splitOn '\n' := by
  rcases splitOn_eq_lines_or t with h | h
  · rw [h]
  · rw [h]
    simp [hl]

theorem filter_lines {p : Text → Bool} (hp : p [] = false) (t : Text) :
    (lines t).filter p = (t.splitOn '\n').filter p := by
  rcases splitOn_eq_lines_or t with h | h
  · rw [h]
  · rw [h]
    simp [hp]

/-- A piece of a text occurs in it. -/
theorem occurs_of_mem_splitOnP {p : Char → Bool} {t w : Text} (hw : w ∈ t.splitOnP p) :
    Occurs w t := by
  -- the induction needs that the first piece starts the text
  have hpieces : ∃ v vs, t.splitOnP p = v :: vs ∧ v <+: t ∧ ∀ u ∈ vs, Occurs u t := by
    clear hw
    induction t with
    | nil => exact ⟨[], [], List.splitOnP_nil, List.prefix_rfl, by simp⟩
    | cons a t ih =>
      obtain ⟨v, vs, hv, hbegins, hvs⟩ := ih
      have htail : t <:+: a :: t := (List.suffix_cons a t).isInfix
      rw [List.splitOnP_cons_eq_if_modifyHead, hv]
      split_ifs
      · refine ⟨[], v :: vs, rfl, List.nil_prefix, fun u hu => ?_⟩
        rcases List.mem_cons.mp hu with rfl | hu
        · exact hbegins.isInfix.trans htail
        · exact (hvs u hu).trans htail
      · exact ⟨a :: v, vs, rfl, List.cons_prefix_cons.mpr ⟨rfl, hbegins⟩,
          fun u hu => (hvs u hu).trans htail⟩
  obtain ⟨v, vs, hv, hbegins, hvs⟩ := hpieces
  rw [hv] at hw
  rcases List.mem_cons.mp hw with rfl | hw
  · exact hbegins.isInfix
  · exact hvs w hw

theorem subset_of_mem_splitOnP {p : Char → Bool} {t w : Text} (hw : w ∈ t.splitOnP p) : w ⊆ t :=
  (occurs_of_mem_splitOnP hw).subset

theorem cut_subset (d : Char) (n : ℕ) (l : Text) : cut d n l ⊆ l := by
  rw [cut]
  split_ifs
  · rcases h : (l.splitOn d)[n - 1]? with _ | w
    · simp
    · have hmem : w ∈ l.splitOn d := List.mem_of_getElem? h
      rw [List.splitOn_eq_splitOnP] at hmem
      exact subset_of_mem_splitOnP hmem
  · exact List.Subset.refl l

theorem newline_not_mem_of_mem_splitOn {l t : Text} (hl : l ∈ t.splitOn '\n') : '\n' ∉ l := by
  rw [List.splitOn_eq_splitOnP] at hl
  intro hnl
  have hfalse := not_of_mem_splitOnP hl '\n' hnl
  simp at hfalse

theorem newline_not_mem_of_mem_lines {l t : Text} (hl : l ∈ lines t) : '\n' ∉ l := by
  rw [lines] at hl
  split_ifs at hl
  · exact newline_not_mem_of_mem_splitOn (List.mem_of_mem_dropLast hl)
  · exact newline_not_mem_of_mem_splitOn hl

theorem chomp_eq_nil_iff {t : Text} : chomp t = [] ↔ ∀ c ∈ t, c = '\n' := by
  simp [chomp]

/-- `grep` in a command substitution has no output when it prints no line. -/
theorem chomp_grep_eq_nil_iff {p : Text → Bool} (hp : p [] = false) (t : Text) :
    chomp (grep p t) = [] ↔ ∀ l ∈ t.splitOn '\n', p l = false := by
  have hne : ∀ l, p l = true → l ≠ [] := by
    rintro l hl rfl
    rw [hp] at hl
    cases hl
  rw [chomp_eq_nil_iff]
  constructor
  · intro h l hl
    by_contra htrue
    rw [Bool.not_eq_false] at htrue
    obtain ⟨c, hc⟩ := List.exists_mem_of_ne_nil l (hne l htrue)
    have hl' : l ∈ (lines t).filter p :=
      List.mem_filter.mpr ⟨(mem_lines_iff (hne l htrue)).mpr hl, htrue⟩
    have hnl := h c (List.mem_flatMap.mpr ⟨l, hl', List.mem_append_left _ hc⟩)
    exact newline_not_mem_of_mem_splitOn hl (hnl ▸ hc)
  · intro h c hc
    obtain ⟨l, hl, -⟩ := List.mem_flatMap.mp hc
    obtain ⟨hl, htrue⟩ := List.mem_filter.mp hl
    have hfalse := h l ((mem_lines_iff (hne l htrue)).mp hl)
    rw [htrue] at hfalse
    cases hfalse

/-- `grep` for a word, in a command substitution, has an output exactly when the word occurs. -/
theorem chomp_grep_ne_nil_iff {w t : Text} (hne : w ≠ []) (hw : '\n' ∉ w) :
    chomp (grep (Occurs w) t) ≠ [] ↔ Occurs w t := by
  have hnil : decide (Occurs w []) = false := decide_eq_false fun h => hne (List.infix_nil.mp h)
  rw [Ne, chomp_grep_eq_nil_iff hnil, occurs_iff_exists_mem_splitOn hw]
  simp

/-- A text is its `chomp` and some newlines. -/
theorem exists_chomp_append (t : Text) : ∃ n, t = chomp t ++ List.replicate n '\n' := by
  have hnl : t.rtakeWhile (· = '\n') =
      List.replicate (t.rtakeWhile (· = '\n')).length '\n' :=
    List.eq_replicate_of_mem fun c hc => by simpa using List.mem_rtakeWhile_imp hc
  exact ⟨_, by rw [← hnl, chomp, List.rdropWhile_append_rtakeWhile]⟩

theorem chomp_append (s r : Text) :
    chomp (s ++ r) = if chomp r = [] then chomp s else s ++ chomp r := by
  rw [chomp, List.rdropWhile, List.reverse_append, List.dropWhile_append]
  by_cases hr : chomp r = []
  · have hnil : r.reverse.dropWhile (· = '\n') = [] := List.reverse_eq_nil_iff.mp hr
    rw [if_pos (by rw [hnil]; rfl), if_pos hr]
    rfl
  · have hne : r.reverse.dropWhile (· = '\n') ≠ [] := fun h => hr (List.reverse_eq_nil_iff.mpr h)
    rw [if_neg (by simpa using hne), if_neg hr, List.reverse_append, List.reverse_reverse]
    rfl

theorem chomp_of_not_mem {l : Text} (hl : '\n' ∉ l) : chomp l = l := by
  rw [chomp, List.rdropWhile_eq_self_iff]
  intro hne hlast
  have hnl : l.getLast hne = '\n' := by simpa using hlast
  exact hl (hnl ▸ List.getLast_mem hne)

theorem unlines_append (ls ls' : List Text) : unlines (ls ++ ls') = unlines ls ++ unlines ls' :=
  List.flatMap_append

theorem unlines_cons (l : Text) (ls : List Text) : unlines (l :: ls) = l ++ '\n' :: unlines ls := by
  simp [unlines]

theorem splitOn_unlines {ls : List Text} (hls : ∀ l ∈ ls, '\n' ∉ l) :
    (unlines ls).splitOn '\n' = ls ++ [[]] := by
  induction ls with
  | nil => rfl
  | cons l ls ih =>
    rw [unlines_cons, List.splitOn_append_cons_self_of_not_mem (hls l List.mem_cons_self),
      ih fun l' hl' => hls l' (List.mem_cons_of_mem l hl'), List.cons_append]

/-- The lines of some lines are these lines. -/
theorem lines_unlines {ls : List Text} (hls : ∀ l ∈ ls, '\n' ∉ l) : lines (unlines ls) = ls := by
  rw [lines, splitOn_unlines hls, List.getLast?_concat, if_pos rfl, List.dropLast_concat]

theorem lines_grep (p : Text → Bool) (t : Text) : lines (grep p t) = (lines t).filter p :=
  lines_unlines fun _ hl => newline_not_mem_of_mem_lines (List.mem_of_mem_filter hl)

/-- Some lines in a command substitution: the last one that is not empty ends the text. -/
theorem chomp_unlines_append (us : List Text) {vs : List Text} {a : Text} (hne : a ≠ []) (ha : '\n' ∉ a)
    (hvs : ∀ v ∈ vs, '\n' ∉ v) :
    (chomp (unlines (us ++ a :: vs)) = unlines us ++ a ∧ ∀ v ∈ vs, v = []) ∨
      ∃ y, chomp (unlines (us ++ a :: vs)) = unlines us ++ a ++ '\n' :: y := by
  have hchomp : chomp a = a := chomp_of_not_mem ha
  have hsplit : unlines (us ++ a :: vs) = unlines us ++ a ++ ('\n' :: unlines vs) := by
    rw [unlines_append, unlines_cons, List.append_assoc]
  have hcons : chomp ('\n' :: unlines vs) =
      if chomp (unlines vs) = [] then [] else '\n' :: chomp (unlines vs) :=
    chomp_append ['\n'] (unlines vs)
  rw [hsplit, chomp_append, hcons]
  -- nothing but newlines after `a`, or a line that is not empty
  by_cases hnil : chomp (unlines vs) = []
  · left
    rw [if_pos hnil, if_pos rfl, chomp_append, hchomp, if_neg hne]
    refine ⟨rfl, fun v hv => List.eq_nil_iff_forall_not_mem.mpr fun c hc => ?_⟩
    have hnl : c = '\n' := chomp_eq_nil_iff.mp hnil c
      (List.mem_flatMap.mpr ⟨v, hv, List.mem_append_left _ hc⟩)
    exact hvs v hv (hnl ▸ hc)
  · right
    rw [if_neg hnil, if_neg (by simp)]
    exact ⟨chomp (unlines vs), rfl⟩

theorem chomp_unlines_replicate {w : Text} (hw : '\n' ∉ w) (n : ℕ) :
    chomp (unlines (w :: List.replicate n [])) = w := by
  have hnil : chomp ('\n' :: unlines (List.replicate n [])) = [] := by
    rw [chomp_eq_nil_iff]
    intro c hc
    rcases List.mem_cons.mp hc with hc | hc
    · exact hc
    · obtain ⟨l, hl, hcl⟩ := List.mem_flatMap.mp hc
      rw [List.eq_of_mem_replicate hl] at hcl
      simpa using hcl
  rw [unlines_cons, chomp_append, if_pos hnil, chomp_of_not_mem hw]

end Text
