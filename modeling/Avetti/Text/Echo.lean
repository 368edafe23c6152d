import Avetti.Text.Shell

/-!
# Lines printed by `echo -e`

`echo -e` prints some arguments as lines, with the escape sequence of the newline written between
them. An argument is read on its own: its last backslash may take the separator away, and `\c` ends
the output, but no escape sequence reaches further. What is printed for an argument is never longer
than the argument, and it is the argument itself or shorter.

## Main definitions

* `Shell.separator`: the escape sequence of the newline
* `Shell.Unescaped w`: `echo -e` prints `w` and the separator as they are meant
* `Shell.Prints w`: the three ways in which an argument and its separator are printed

## Main results

* `Shell.prints`: every argument is printed in one of these ways
* `Shell.printed_of_asIs`: unescaped arguments are printed as they are
-/

namespace Shell

/-! ## Escape sequences -/

theorem digits_suffix (b n : ℕ) (t : Text) (v : ℕ) : (digits b n t v).2.2 <:+ t := by
  induction n generalizing t v with
  | zero => exact List.suffix_rfl
  | succ n ih =>
    rcases t with _ | ⟨c, t⟩
    · exact List.suffix_rfl
    · rw [digits]
      rcases digit b c with _ | d
      · exact List.suffix_rfl
      · exact (ih t (b * v + d)).trans (List.suffix_cons c t)

/-- The digits of a code end at a backslash. -/
theorem digits_append (b n : ℕ) (t s : Text) (v : ℕ) :
    digits b n (t ++ '\\' :: s) v =
      ((digits b n t v).1, (digits b n t v).2.1, (digits b n t v).2.2 ++ '\\' :: s) := by
  have hdigit : digit b '\\' = none := by
    have h : '\\'.isDigit = false ∧ '\\'.isUpper = false ∧ '\\'.isLower = false := by decide
    simp [digit, h]
  induction n generalizing t v with
  | zero => rfl
  | succ n ih =>
    rcases t with _ | ⟨c, t⟩
    · simp only [List.nil_append, digits, hdigit]
    · rw [List.cons_append, digits, digits]
      rcases digit b c with _ | d
      · rfl
      · simp only [ih]

theorem coded_eq (c : Char) (n : ℕ) (t : Text) : escape.coded c n t =
    if (digits 16 n t 0).1 = 0 then some (['\\', c], t)
    else some ([Char.ofNat (digits 16 n t 0).2.1], (digits 16 n t 0).2.2) := by
  rcases h : digits 16 n t 0 with ⟨_ | k, v, r⟩ <;> simp [escape.coded, h]

/-- The kinds of escape sequences, by the character after the backslash. -/
inductive EscapeKind (c : Char) : Prop where
  | one (d : Char) (h : ∀ t, escape (c :: t) = some ([d], t))
  | stop (h : ∀ t, escape (c :: t) = none)
  | octal (h : ∀ t, escape (c :: t) =
      some ([Char.ofNat ((digits 8 3 t 0).2.1 % 256)], (digits 8 3 t 0).2.2))
  | coded (n : ℕ) (h : ∀ t, escape (c :: t) = escape.coded c n t)
  | itself (h : ∀ t, escape (c :: t) = some (['\\', c], t))

theorem escapeKind (c : Char) : EscapeKind c := by
  by_cases hc : c ∈ ['a', 'b', 'c', 'e', 'E', 'f', 'n', 'r', 't', 'v', '\\', '0', 'x', 'u', 'U']
  · simp only [List.mem_cons, List.not_mem_nil, or_false] at hc
    rcases hc with rfl | rfl | rfl | rfl | rfl | rfl | rfl | rfl | rfl | rfl | rfl | rfl | rfl |
      rfl | rfl
    case inr.inr.inl => exact .stop fun _ => rfl
    case inr.inr.inr.inr.inr.inr.inr.inr.inr.inr.inr.inl => exact .octal fun _ => rfl
    case inr.inr.inr.inr.inr.inr.inr.inr.inr.inr.inr.inr.inl => exact .coded 2 fun _ => rfl
    case inr.inr.inr.inr.inr.inr.inr.inr.inr.inr.inr.inr.inr.inl => exact .coded 4 fun _ => rfl
    case inr.inr.inr.inr.inr.inr.inr.inr.inr.inr.inr.inr.inr.inr => exact .coded 8 fun _ => rfl
    all_goals exact .one _ fun _ => rfl
  · refine .itself fun t => ?_
    simp only [List.mem_cons, List.not_mem_nil, or_false, not_or] at hc
    unfold escape
    split <;> simp_all

/-- An escape sequence stands for one character, or for itself, and reads nothing after a
backslash. -/
theorem escape_cons {c : Char} {t u r : Text} (h : escape (c :: t) = some (u, r)) :
    ((u = ['\\', c] ∧ r = t) ∨ (u.length = 1 ∧ r <:+ t)) ∧
      ∀ s, escape (c :: (t ++ '\\' :: s)) = some (u, r ++ '\\' :: s) := by
  rcases escapeKind c with ⟨d, hd⟩ | hd | hd | ⟨n, hd⟩ | hd
  · rw [hd] at h
    obtain ⟨rfl, rfl⟩ := Prod.mk.inj (Option.some.inj h)
    exact ⟨Or.inr ⟨rfl, List.suffix_rfl⟩, fun s => hd _⟩
  · rw [hd] at h
    cases h
  · -- an octal number
    rw [hd] at h
    obtain ⟨rfl, rfl⟩ := Prod.mk.inj (Option.some.inj h)
    refine ⟨Or.inr ⟨rfl, digits_suffix 8 3 t 0⟩, fun s => ?_⟩
    rw [hd, digits_append]
  · -- a hexadecimal number, or nothing when no digit follows
    rw [hd, coded_eq] at h
    have hread : ∀ s, escape (c :: (t ++ '\\' :: s)) =
        if (digits 16 n t 0).1 = 0 then some (['\\', c], t ++ '\\' :: s)
        else some ([Char.ofNat (digits 16 n t 0).2.1], (digits 16 n t 0).2.2 ++ '\\' :: s) :=
      fun s => by rw [hd, coded_eq, digits_append]
    split_ifs at h with hzero
    · obtain ⟨rfl, rfl⟩ := Prod.mk.inj (Option.some.inj h)
      exact ⟨Or.inl ⟨rfl, rfl⟩, fun s => by rw [hread, if_pos hzero]⟩
    · obtain ⟨rfl, rfl⟩ := Prod.mk.inj (Option.some.inj h)
      exact ⟨Or.inr ⟨rfl, digits_suffix 16 n t 0⟩, fun s => by rw [hread, if_neg hzero]⟩
  · rw [hd] at h
    obtain ⟨rfl, rfl⟩ := Prod.mk.inj (Option.some.inj h)
    exact ⟨Or.inl ⟨rfl, rfl⟩, fun s => hd _⟩

theorem escape_eq_none {c : Char} {t : Text} (h : escape (c :: t) = none) (s : Text) :
    escape (c :: s) = none := by
  rcases escapeKind c with ⟨d, hd⟩ | hd | hd | ⟨n, hd⟩ | hd
  · rw [hd] at h
    cases h
  · exact hd s
  · rw [hd] at h
    cases h
  · rw [hd, coded_eq] at h
    split_ifs at h
  · rw [hd] at h
    cases h

/-! ## Reading a text -/

theorem length_le_of_escape {t u r : Text} (h : escape t = some (u, r)) : r.length ≤ t.length := by
  rcases t with _ | ⟨c, t⟩
  · obtain ⟨-, rfl⟩ := Prod.mk.inj (Option.some.inj h)
    exact le_rfl
  · rcases (escape_cons h).1 with ⟨-, rfl⟩ | ⟨-, hr⟩
    · simp
    · exact (hr.trans (List.suffix_cons c t)).length_le

/-- The fuel does not matter when it is more than the length of the text. -/
theorem unescapeAux_eq {n m : ℕ} {t : Text} (hn : t.length < n) (hm : t.length < m) :
    unescapeAux n t = unescapeAux m t := by
  induction n generalizing m t with
  | zero => exact absurd hn (Nat.not_lt_zero _)
  | succ n ih =>
    rcases m with _ | m
    · exact absurd hm (Nat.not_lt_zero _)
    · rcases t with _ | ⟨c, t⟩
      · rfl
      · rw [List.length_cons] at hn hm
        by_cases hc : c = '\\'
        · subst hc
          simp only [unescapeAux]
          rcases h : escape t with _ | ⟨u, r⟩
          · rfl
          · have hr := length_le_of_escape h
            dsimp only
            rw [ih (m := m) (by omega) (by omega)]
        · rw [unescapeAux, unescapeAux, ih (m := m) (by omega) (by omega)]
          · exact hc
          · exact hc

theorem unescape_nil : unescape [] = ([], true) := rfl

theorem unescape_cons {c : Char} (hc : c ≠ '\\') (t : Text) :
    unescape (c :: t) = (c :: (unescape t).1, (unescape t).2) := by
  rw [unescape, unescapeAux]
  · rfl
  · exact hc

theorem unescape_escape {t u r : Text} (h : escape t = some (u, r)) :
    unescape ('\\' :: t) = (u ++ (unescape r).1, (unescape r).2) := by
  have hr := length_le_of_escape h
  rw [unescape, List.length_cons, unescapeAux, h]
  dsimp only
  rw [unescape, unescapeAux_eq (n := t.length + 1) (m := r.length + 1) (by omega) (by omega)]

theorem unescape_stop {t : Text} (h : escape t = none) : unescape ('\\' :: t) = ([], false) := by
  rw [unescape, List.length_cons, unescapeAux, h]

/-! ## Arguments and separators -/

/-- The escape sequence of the newline. -/
def separator : Text := "\\n"

/-- `echo -e` prints the word as it is, and the separator as a newline. -/
def Unescaped (w : Text) : Prop := unescape (w ++ separator) = (w ++ ['\n'], true)

instance (w : Text) : Decidable (Unescaped w) := inferInstanceAs (Decidable (_ = _))

/-- How `echo -e` prints a word, alone and with a separator after it: it ends its output in the
word, it prints a line, which is the word or shorter, or the last backslash of the word takes the
separator away. -/
inductive Prints (w : Text) : Prop where
  | stops (d : Text) (hd : d.length < w.length) (hword : unescape w = (d, false))
      (h : ∀ t, unescape (w ++ separator ++ t) = (d, false))
  | line (d : Text) (hd : d = w ∨ d.length < w.length) (hword : unescape w = (d, true))
      (h : ∀ t, unescape (w ++ separator ++ t) = (d ++ '\n' :: (unescape t).1, (unescape t).2))
  | joins (d : Text) (hd : d ++ ['\\'] = w ∨ d.length + 1 < w.length)
      (hlast : w.getLast? = some '\\')
      (hword : unescape w = (d ++ ['\\'], true))
      (h : ∀ t, unescape (w ++ separator ++ t) = (d ++ separator ++ (unescape t).1, (unescape t).2))

theorem unescape_separator (t : Text) :
    unescape (separator ++ t) = ('\n' :: (unescape t).1, (unescape t).2) :=
  unescape_escape (t := 'n' :: t) rfl

/-- What is printed for the end of a word is printed after what stands for its beginning. -/
theorem Prints.append {r : Text} (hr : Prints r) {w u : Text} (hsuffix : r <:+ w)
    (hu : u ++ r = w ∨ u.length + r.length < w.length)
    (hread : ∀ t, (∃ t', t = separator ++ t') ∨ t = [] →
      unescape (w ++ t) = (u ++ (unescape (r ++ t)).1, (unescape (r ++ t)).2)) :
    Prints w := by
  have hlength : u.length + r.length ≤ w.length := by
    rcases hu with rfl | hu
    · rw [List.length_append]
    · omega
  have hword : unescape w = (u ++ (unescape r).1, (unescape r).2) := by
    have hnil := hread [] (Or.inr rfl)
    rwa [List.append_nil, List.append_nil] at hnil
  have hread : ∀ t, unescape (w ++ separator ++ t) =
      (u ++ (unescape (r ++ separator ++ t)).1, (unescape (r ++ separator ++ t)).2) := by
    intro t
    rw [List.append_assoc, List.append_assoc]
    exact hread _ (Or.inl ⟨t, rfl⟩)
  cases hr with
  | stops d hd hr h =>
    refine .stops (u ++ d) (by rw [List.length_append]; omega) (by rw [hword, hr]) fun t => ?_
    rw [hread, h]
  | line d hd hr h =>
    refine .line (u ++ d) ?_ (by rw [hword, hr]) fun t => ?_
    · rcases hd with rfl | hd
      · exact hu.imp_right fun hlt => by rwa [List.length_append]
      · exact Or.inr (by rw [List.length_append]; omega)
    · rw [hread, h, List.append_assoc]
  | joins d hd hlast hr h =>
    refine .joins (u ++ d) ?_ ?_ ?_ fun t => ?_
    · rcases hd with rfl | hd
      · refine hu.imp (fun h => by rwa [List.append_assoc]) fun hlt => ?_
        rw [List.length_append, List.length_singleton] at hlt
        rw [List.length_append]
        omega
      · exact Or.inr (by rw [List.length_append]; omega)
    · obtain ⟨v, rfl⟩ := hsuffix
      rw [List.getLast?_append, hlast]
      rfl
    · rw [hword, hr, List.append_assoc]
    · rw [hread, h]
      simp only [List.append_assoc]

/-- **Every word is printed in one of the three ways.** -/
theorem prints (w : Text) : Prints w := by
  induction hn : w.length using Nat.strong_induction_on generalizing w with
  | _ n ih =>
    subst hn
    rcases w with _ | ⟨c, w⟩
    · exact .line [] (Or.inl rfl) rfl unescape_separator
    · by_cases hc : c = '\\'
      · subst hc
        rcases w with _ | ⟨c, w⟩
        · -- the backslash is read with the one of the separator
          refine .joins [] (Or.inl rfl) rfl rfl fun t => ?_
          have hread : unescape ('\\' :: '\\' :: 'n' :: t) =
              (['\\'] ++ (unescape ('n' :: t)).1, (unescape ('n' :: t)).2) := unescape_escape rfl
          have hletter : unescape ('n' :: t) = ('n' :: (unescape t).1, (unescape t).2) :=
            unescape_cons (by decide) t
          rw [hletter] at hread
          exact hread
        · rcases h : escape (c :: w) with _ | ⟨u, r⟩
          · exact .stops [] (Nat.succ_pos _) (unescape_stop h) fun t =>
              unescape_stop (escape_eq_none h _)
          · obtain ⟨hone, happend⟩ := escape_cons h
            have hsuffix : r <:+ w := hone.elim (fun h => h.2 ▸ List.suffix_rfl) And.right
            have hlength := hsuffix.length_le
            have hr : Prints r := ih r.length (by simp only [List.length_cons]; omega) r rfl
            refine hr.append ((hsuffix.trans (List.suffix_cons c w)).trans (List.suffix_cons _ _))
              (u := u) ?_ ?_
            · rcases hone with ⟨rfl, rfl⟩ | ⟨hu, -⟩
              · exact Or.inl rfl
              · exact Or.inr (by simp only [List.length_cons]; omega)
            · rintro _ (⟨t, rfl⟩ | rfl)
              · exact unescape_escape (happend ('n' :: t))
              · rw [List.append_nil, List.append_nil]
                exact unescape_escape h
      · have hw : Prints w := ih w.length (Nat.lt_succ_self _) w rfl
        exact hw.append (List.suffix_cons c w) (u := [c]) (Or.inl rfl) fun t _ => unescape_cons hc _

/-- A word is printed as it is, or what is printed is shorter. -/
theorem unescape_eq_or (w : Text) :
    unescape w = (w, true) ∨ (unescape w).1.length < w.length := by
  cases prints w with
  | stops d hd hword h => exact Or.inr (by rwa [hword])
  | line d hd hword h =>
    rw [hword]
    exact hd.imp_left fun h => by rw [h]
  | joins d hd hlast hword h =>
    rw [hword]
    exact hd.imp (fun h => by rw [h]) fun h => by rwa [List.length_append]

theorem Unescaped.unescape_append {w : Text} (hw : Unescaped w) (t : Text) :
    unescape w = (w, true) ∧
      unescape (w ++ separator ++ t) = (w ++ '\n' :: (unescape t).1, (unescape t).2) := by
  unfold Unescaped at hw
  cases prints w with
  | stops d hd hword h =>
    have hnil := h []
    rw [List.append_nil, hw] at hnil
    cases hnil
  | line d hd hword h =>
    have hnil := h []
    rw [List.append_nil, hw] at hnil
    obtain rfl : w = d := List.append_cancel_right (Prod.mk.inj hnil).1
    exact ⟨hword, h t⟩
  | joins d hd hlast hword h =>
    have hnil := h []
    rw [List.append_nil, hw, unescape_nil, List.append_nil] at hnil
    have hend := congrArg List.getLast? (Prod.mk.inj hnil).1
    rw [List.getLast?_concat, List.getLast?_append] at hend
    cases hend

theorem unescaped_of_not_mem {w : Text} (hw : '\\' ∉ w) : Unescaped w := by
  unfold Unescaped
  induction w with
  | nil => rfl
  | cons c w ih =>
    rw [List.mem_cons, not_or] at hw
    rw [List.cons_append, unescape_cons (Ne.symm hw.1), ih hw.2]
    rfl

/-! ## Some words as lines -/

/-- What `echo -e` prints for some words with separators between them. -/
def printed (ws : List Text) : Text := (unescape (separator.intercalate ws)).1

/-- The first of some words is printed as it is, with the separator after it if there is one. -/
def FirstAsIs (w : Text) (ws : List Text) : Prop :=
  if ws = [] then unescape w = (w, true) else Unescaped w

/-- Every word is printed as it is. -/
def AsIs : List Text → Prop
  | [] => True
  | w :: ws => FirstAsIs w ws ∧ AsIs ws

instance (w : Text) (ws : List Text) : Decidable (FirstAsIs w ws) :=
  inferInstanceAs (Decidable (if ws = [] then unescape w = (w, true) else Unescaped w))

instance decidableAsIs : ∀ ws, Decidable (AsIs ws)
  | [] => .isTrue trivial
  | w :: ws =>
    have := decidableAsIs ws
    inferInstanceAs (Decidable (FirstAsIs w ws ∧ AsIs ws))

theorem Unescaped.firstAsIs {w : Text} (hw : Unescaped w) (ws : List Text) : FirstAsIs w ws := by
  unfold FirstAsIs
  split_ifs
  · exact (hw.unescape_append []).1
  · exact hw

theorem printed_cons_of_unescaped {w : Text} (hw : Unescaped w) {ws : List Text} (hws : ws ≠ []) :
    printed (w :: ws) = w ++ '\n' :: printed ws := by
  rw [printed, List.intercalate_cons_of_ne_nil hws, (hw.unescape_append _).2]
  rfl

theorem printed_singleton (w : Text) : printed [w] = (unescape w).1 := by simp [printed]

/-- Words that are printed as they are make the lines. -/
theorem printed_of_asIs {ws : List Text} (hws : AsIs ws) : printed ws = ['\n'].intercalate ws := by
  induction ws with
  | nil => rfl
  | cons w ws ih =>
    obtain ⟨hw, hws⟩ := hws
    unfold FirstAsIs at hw
    split_ifs at hw with hnil
    · rw [hnil, printed_singleton, hw, List.intercalate_singleton]
    · rw [printed_cons_of_unescaped hw hnil, ih hws, List.intercalate_cons_of_ne_nil hnil]
      simp

theorem exists_of_not_asIs {ws : List Text} (h : ¬ AsIs ws) :
    ∃ us w vs, ws = us ++ w :: vs ∧ (∀ u ∈ us, Unescaped u) ∧ ¬ FirstAsIs w vs := by
  induction ws with
  | nil => exact absurd trivial h
  | cons w ws ih =>
    by_cases hw : FirstAsIs w ws
    · have hws : ¬ AsIs ws := fun hws => h ⟨hw, hws⟩
      have hnil : ws ≠ [] := by
        rintro rfl
        exact hws trivial
      obtain ⟨us, v, vs, rfl, hus, hv⟩ := ih hws
      unfold FirstAsIs at hw
      rw [if_neg hnil] at hw
      exact ⟨w :: us, v, vs, rfl, by simpa [hw] using hus, hv⟩
    · exact ⟨[], w, ws, rfl, by simp, hw⟩

theorem asIs_iff {ws : List Text} : AsIs ws ↔
    (∀ w ∈ ws.dropLast, Unescaped w) ∧ ∀ w ∈ ws.getLast?, unescape w = (w, true) := by
  induction ws with
  | nil => simp [AsIs]
  | cons w ws ih =>
    rw [AsIs, FirstAsIs]
    split_ifs with hnil
    · simp [hnil, AsIs]
    · rw [ih, List.dropLast_cons_of_ne_nil hnil, List.getLast?_cons_of_ne_nil hnil,
        List.forall_mem_cons, and_assoc]

/-- What is printed for a word before other words. -/
inductive PrintsFirst (w : Text) : Prop where
  | ends (d : Text) (hd : d.length < w.length) (h : ∀ ws, ws ≠ [] → printed (w :: ws) = d)
  | line (d : Text) (hd : d = w ∧ Unescaped w ∨ d.length < w.length)
      (h : ∀ ws, ws ≠ [] → printed (w :: ws) = d ++ '\n' :: printed ws)
  | joins (d : Text) (hd : d.length < w.length) (hlast : w.getLast? = some '\\')
      (h : ∀ ws, ws ≠ [] → printed (w :: ws) = d ++ separator ++ printed ws)

theorem printsFirst (w : Text) : PrintsFirst w := by
  have hw : ∀ ws, ws ≠ [] → printed (w :: ws) =
      (unescape (w ++ separator ++ separator.intercalate ws)).1 := fun ws hws => by
    rw [printed, List.intercalate_cons_of_ne_nil hws]
  cases prints w with
  | stops d hd hword h => exact .ends d hd fun ws hws => by rw [hw ws hws, h]
  | line d hd hword h =>
    refine .line d (hd.imp_left ?_) fun ws hws => by rw [hw ws hws, h]; rfl
    rintro rfl
    have hnil := h []
    rw [List.append_nil] at hnil
    exact ⟨rfl, hnil⟩
  | joins d hd hlast hword h =>
    refine .joins d ?_ hlast fun ws hws => by rw [hw ws hws, h]; rfl
    rcases hd with rfl | hd
    · simp
    · omega

/-! ## The lines that are values -/

section Values

variable {value : Text → Bool}

/-- The lines of a text that are values. -/
def valueLines (value : Text → Bool) (t : Text) : List Text := (t.splitOn '\n').filter value

theorem valueLines_append (t u : Text) :
    valueLines value (t ++ '\n' :: u) = valueLines value t ++ valueLines value u := by
  rw [valueLines, List.splitOn_append_cons_self, List.filter_append]
  rfl

theorem valueLines_of_not_mem {l : Text} (hl : '\n' ∉ l) : valueLines value l = [l].filter value := by
  rw [valueLines, List.splitOn_eq_singleton hl]

theorem length_le_of_mem_valueLines {w t : Text} (hw : w ∈ valueLines value t) :
    w.length ≤ t.length := by
  induction hn : t.length using Nat.strong_induction_on generalizing t with
  | _ n ih =>
    subst hn
    by_cases ht : '\n' ∈ t
    · obtain ⟨l, u, rfl, hl⟩ := List.eq_append_cons_of_mem ht
      rw [valueLines_append, valueLines_of_not_mem hl, List.mem_append] at hw
      rw [List.length_append, List.length_cons]
      rcases hw with hw | hw
      · rw [List.mem_singleton.mp (List.mem_of_mem_filter hw)]
        omega
      · have hu := ih u.length (by rw [List.length_append, List.length_cons]; omega) hw rfl
        omega
    · rw [valueLines_of_not_mem ht] at hw
      rw [List.mem_singleton.mp (List.mem_of_mem_filter hw)]

/-- An element of a prefix of two lists stands in the first one, or it starts the rest of a prefix of
the second one. -/
theorem prefix_append_cases {α : Type} {us vs xs ys : List α} {x : α}
    (h : us ++ x :: vs <+: xs ++ ys) :
    us ++ [x] <+: xs ∨ ∃ us', us' ++ x :: vs <+: ys := by
  obtain ⟨zs, hzs⟩ := h
  rw [List.append_assoc] at hzs
  rcases List.append_eq_append_iff.mp hzs with ⟨as, rfl, has⟩ | ⟨as, rfl, has⟩
  · rcases as with _ | ⟨a, as⟩
    · exact Or.inr ⟨[], zs, by simpa using has⟩
    · obtain ⟨rfl, -⟩ := List.cons.inj has
      exact Or.inl ⟨as, by simp⟩
  · exact Or.inr ⟨as, zs, by rw [has, List.append_assoc]⟩

/-- Of two values that some lines begin with, the second one stands after a newline. -/
theorem length_lt_of_second {l d q w : Text} {us vs : List Text} (hl : '\n' ∉ l)
    (h : us ++ q :: w :: vs <+: valueLines value (l ++ d)) : w.length < d.length := by
  have hone : ∀ f : Text, '\n' ∉ f → ((valueLines value f).length ≤ 1) := fun f hf => by
    rw [valueLines_of_not_mem hf]
    exact List.length_filter_le value [f]
  by_cases hd : '\n' ∈ d
  · obtain ⟨f, g, rfl, hf⟩ := List.eq_append_cons_of_mem hd
    rw [← List.append_assoc, valueLines_append, List.append_cons] at h
    have hlf : '\n' ∉ l ++ f := by simp [hl, hf]
    rcases prefix_append_cases h with h | ⟨us', h⟩
    · -- the first line cannot have both values
      have hle := h.length_le
      have hlf := hone _ hlf
      simp only [List.length_append, List.length_singleton] at hle
      omega
    · have hw := length_le_of_mem_valueLines (h.subset (List.mem_append_right us' List.mem_cons_self))
      rw [List.length_append, List.length_cons]
      omega
  · have hle := h.length_le
    have hld := hone (l ++ d) (by simp [hl, hd])
    simp only [List.length_append, List.length_cons] at hle
    omega

/-- The beginning of a line before the next word: nothing, or what a word `q` that takes its
separator away has left there. -/
inductive Begun (q : Text) : Text → Prop where
  | nil : Begun q []
  | line (l : Text) (hl : '\n' ∉ l) (hq : q.getLast? = some '\\') : Begun q (l ++ separator)

theorem Begun.newline_not_mem {q l : Text} (h : Begun q l) : '\n' ∉ l := by
  cases h with
  | nil => simp
  | line l hl hq => simp [hl, separator]

/-- The complete lines of a text, and its last line. -/
theorem exists_last_line (d : Text) : '\n' ∉ d ∨ ∃ f l, d = f ++ '\n' :: l ∧ '\n' ∉ l := by
  by_cases hd : '\n' ∈ d
  · right
    obtain ⟨g, f, hgf, hg⟩ := List.eq_append_cons_of_mem (List.mem_reverse.mpr hd)
    refine ⟨f.reverse, g.reverse, ?_, by simpa using hg⟩
    have hrev := congrArg List.reverse hgf
    simpa using hrev
  · exact Or.inl hd

/-- Every text that is not a value is printed as it is, in one line. -/
def PlainElse (value : Text → Bool) : Prop := ∀ w, value w = false → '\\' ∉ w ∧ '\n' ∉ w

theorem PlainElse.value_eq_true (hvalue : PlainElse value) {w : Text} (hw : '\\' ∈ w) :
    value w = true := by
  by_contra h
  exact (hvalue w (by simpa using h)).1 hw

/-- A word that is no value leaves a begun line that is not the word that began it. -/
theorem ne_append_of_not_mem {q l w : Text} (hq : q.getLast? = some '\\') (hw : '\\' ∉ w) :
    l ++ separator ++ w ≠ q := by
  rintro rfl
  rcases List.eq_nil_or_concat w with rfl | ⟨u, c, rfl⟩
  · rw [List.append_nil, List.getLast?_append] at hq
    cases hq
  · rw [List.concat_eq_append, ← List.append_assoc, List.getLast?_concat] at hq
    exact hw (by simp [Option.some.inj hq])

/-- **A word that was not printed as it is has no line**: after the words up to `q`, the lines that
are values do not go on as `q` and the values after it. -/
theorem not_prefix_valueLines (hvalue : PlainElse value) {ws : List Text} (hws : ws ≠ [])
    {us : List Text} {q l : Text} (hl : Begun q l) :
    ¬ us ++ q :: ws.filter value <+: valueLines value (l ++ printed ws) := by
  intro h
  induction ws generalizing us q l with
  | nil => exact hws rfl
  | cons w ws ih =>
    cases hw : value w with
    | false =>
      have hplain := hvalue w hw
      rw [List.filter_cons_of_neg (by simp [hw])] at h
      have hfirst : printed (w :: ws) = if ws = [] then w else w ++ '\n' :: printed ws := by
        split_ifs with hnil
        · rw [hnil, printed, List.intercalate_singleton,
            ((unescaped_of_not_mem hplain.1).unescape_append []).1]
        · exact printed_cons_of_unescaped (unescaped_of_not_mem hplain.1) hnil
      -- the line of the word is not `q`
      have hline : q ∉ valueLines value (l ++ w) := by
        rw [valueLines_of_not_mem (by simp [hl.newline_not_mem, hplain.2])]
        intro hq
        obtain ⟨hq, hvq⟩ := List.mem_filter.mp hq
        obtain rfl := List.mem_singleton.mp hq
        cases hl with
        | nil =>
          rw [List.nil_append, hw] at hvq
          cases hvq
        | line l hl hlast => exact ne_append_of_not_mem hlast hplain.1 rfl
      rw [hfirst] at h
      split_ifs at h with hnil
      · exact hline (h.subset (List.mem_append_right us List.mem_cons_self))
      · rw [← List.append_assoc, valueLines_append] at h
        rcases prefix_append_cases h with h | ⟨us', h⟩
        · exact hline (h.subset (List.mem_append_right us List.mem_cons_self))
        · exact ih hnil .nil h
    | true =>
      rw [List.filter_cons_of_pos hw] at h
      by_cases hnil : ws = []
      · rw [hnil, printed_singleton] at h
        have hlt := length_lt_of_second hl.newline_not_mem h
        rcases unescape_eq_or w with hd | hd
        · rw [hd] at hlt
          exact absurd hlt (lt_irrefl _)
        · omega
      · cases printsFirst w with
        | ends d hd hprinted =>
          rw [hprinted ws hnil] at h
          have hlt := length_lt_of_second hl.newline_not_mem h
          omega
        | line d hd hprinted =>
          rw [hprinted ws hnil, ← List.append_assoc, valueLines_append, List.append_cons] at h
          rcases prefix_append_cases h with h | ⟨us', h⟩
          · rw [List.append_assoc] at h
            have hlt := length_lt_of_second hl.newline_not_mem h
            rcases hd with ⟨rfl, -⟩ | hd <;> omega
          · exact ih hnil .nil h
        | joins d hd hlast hprinted =>
          rw [hprinted ws hnil] at h
          rcases exists_last_line d with hd' | ⟨f, g, rfl, hg⟩
          · have hlast : Begun w (l ++ d ++ separator) :=
              .line _ (by simp [hl.newline_not_mem, hd']) hlast
            rw [← List.append_assoc, ← List.append_assoc, List.append_cons] at h
            exact ih hnil hlast h
          · have hassoc : l ++ (f ++ '\n' :: g ++ separator ++ printed ws) =
                l ++ f ++ '\n' :: (g ++ separator ++ printed ws) := by simp
            rw [hassoc, valueLines_append, List.append_cons] at h
            rcases prefix_append_cases h with h | ⟨us', h⟩
            · rw [List.append_assoc] at h
              have hlt := length_lt_of_second hl.newline_not_mem h
              rw [List.length_append] at hd
              omega
            · exact ih hnil (.line g hg hlast) h

/-- What is left of the first word when it was not printed as it is: with no value printed for it,
nothing or the beginning of a line. -/
theorem exists_begun {w : Text} {ws us vs : List Text} (hw : ¬ Unescaped w) (hws : ws ≠ [])
    (h : us ++ w :: vs <+: valueLines value (printed (w :: ws))) :
    ∃ us' l, Begun w l ∧ us' ++ w :: vs <+: valueLines value (l ++ printed ws) := by
  have hshort : ∀ d : Text, d.length < w.length → ¬ us ++ [w] <+: valueLines value d := by
    intro d hd hbegins
    have hle := length_le_of_mem_valueLines
      (hbegins.subset (List.mem_append_right us List.mem_cons_self))
    omega
  cases printsFirst w with
  | ends d hd hprinted =>
    -- what is printed is too short for the word
    rw [hprinted ws hws] at h
    have hle := length_le_of_mem_valueLines (h.subset (List.mem_append_right us List.mem_cons_self))
    omega
  | line d hd hprinted =>
    have hd := hd.resolve_left fun h => hw h.2
    rw [hprinted ws hws, valueLines_append] at h
    rcases prefix_append_cases h with h | ⟨us', h⟩
    · exact absurd h (hshort d hd)
    · exact ⟨us', [], .nil, h⟩
  | joins d hd hlast hprinted =>
    rw [hprinted ws hws] at h
    -- the last line of what is printed for it goes on with the next word
    rcases exists_last_line d with hd' | ⟨f, g, rfl, hg⟩
    · exact ⟨us, _, .line d hd' hlast, h⟩
    · have hassoc : f ++ '\n' :: g ++ separator ++ printed ws =
          f ++ '\n' :: (g ++ separator ++ printed ws) := by simp
      rw [hassoc, valueLines_append] at h
      rcases prefix_append_cases h with h | ⟨us', h⟩
      · rw [List.length_append] at hd
        exact absurd h (hshort f (by omega))
      · exact ⟨us', _, .line g hg hlast, h⟩

/-- The values of a list whose first word is not printed as it is are not the lines. -/
theorem not_prefix_of_not_firstAsIs (hvalue : PlainElse value) {w : Text} {ws us : List Text}
    (hw : ¬ FirstAsIs w ws) :
    ¬ us ++ w :: ws.filter value <+: valueLines value (printed (w :: ws)) := by
  intro h
  unfold FirstAsIs at hw
  split_ifs at hw with hnil
  · rw [hnil, printed_singleton] at h
    have hle := length_le_of_mem_valueLines (h.subset (List.mem_append_right us List.mem_cons_self))
    rcases unescape_eq_or w with h | h
    · exact hw h
    · omega
  · obtain ⟨us', l, hl, h⟩ := exists_begun hw hnil h
    exact not_prefix_valueLines hvalue hnil hl h

/-- Words that are printed as they are have their own lines. -/
theorem valueLines_printed_append {vs ws : List Text} (hvs : ∀ v ∈ vs, Unescaped v ∧ '\n' ∉ v)
    (hws : ws ≠ []) : valueLines value (printed (vs ++ ws)) =
      vs.filter value ++ valueLines value (printed ws) := by
  induction vs with
  | nil => rfl
  | cons v vs ih =>
    obtain ⟨hv, hnl⟩ := hvs v List.mem_cons_self
    have hvs := ih fun u hu => hvs u (List.mem_cons_of_mem v hu)
    rw [List.cons_append, printed_cons_of_unescaped hv (by simp [hws]), valueLines_append,
      valueLines_of_not_mem hnl, hvs, ← List.append_assoc, ← List.filter_append]
    rfl

/-- Words without a backslash leave no line that is a word with one. -/
theorem not_mem_valueLines {ws : List Text} (hws : ws ≠ [])
    (hplain : ∀ w ∈ ws, '\\' ∉ w ∧ '\n' ∉ w) {q l : Text} (hq : '\\' ∈ q) (hl : Begun q l) :
    q ∉ valueLines value (l ++ printed ws) := by
  induction ws generalizing l with
  | nil => exact absurd rfl hws
  | cons w ws ih =>
    have hw := hplain w List.mem_cons_self
    have hline : q ∉ valueLines value (l ++ w) := by
      rw [valueLines_of_not_mem (by simp [hl.newline_not_mem, hw.2])]
      intro hmem
      obtain rfl := List.mem_singleton.mp (List.mem_of_mem_filter hmem)
      cases hl with
      | nil => exact hw.1 hq
      | line l hl hlast => exact ne_append_of_not_mem hlast hw.1 rfl
    by_cases hnil : ws = []
    · rwa [hnil, printed_singleton, ((unescaped_of_not_mem hw.1).unescape_append []).1]
    · rw [printed_cons_of_unescaped (unescaped_of_not_mem hw.1) hnil, ← List.append_assoc,
        valueLines_append, List.mem_append, not_or]
      exact ⟨hline, ih hnil (fun v hv => hplain v (List.mem_cons_of_mem w hv)) .nil⟩

/-- A word that was not printed as it is, and the same word again: the line that is the word comes
after both. -/
theorem exists_begun_twice (hvalue : PlainElse value) {w : Text} {ws P V : List Text}
    (hw : ¬ Unescaped w) (hws : ws.filter value = w :: P) (hP : P ≠ [])
    (h : valueLines value (printed (w :: ws)) = w :: V) :
    ∃ us l, us <:+ ws ∧ Begun w l ∧ us ≠ [] ∧ us.filter value = P ∧
      w :: V = valueLines value (l ++ printed us) := by
  obtain ⟨vs, us, rfl, hvs, hvalw, hus⟩ := List.filter_eq_cons_iff.mp hws
  have hsuffix : us <:+ vs ++ w :: us := ⟨vs ++ [w], by simp⟩
  have hnil : us ≠ [] := by
    rintro rfl
    exact hP hus.symm
  have hvs : ∀ v ∈ vs, value v = false := fun v hv => by simpa using hvs v hv
  have hlines : valueLines value (printed (vs ++ w :: us)) = valueLines value (printed (w :: us)) := by
    have hnone : vs.filter value = [] := List.filter_eq_nil_iff.mpr fun v hv => by simp [hvs v hv]
    rw [valueLines_printed_append (fun v hv => ?_) (List.cons_ne_nil w us), hnone, List.nil_append]
    have hplain := hvalue v (hvs v hv)
    exact ⟨unescaped_of_not_mem hplain.1, hplain.2⟩
  have hcons : vs ++ w :: us ≠ [] := by simp
  have hshort : ∀ (d : Text) (xs : List Text), d.length < w.length →
      w :: V = valueLines value d ++ xs → valueLines value d = [] := by
    intro d xs hd hcons
    rcases hd' : valueLines value d with _ | ⟨x, ys⟩
    · rfl
    · rw [hd'] at hcons
      obtain ⟨rfl, -⟩ := List.cons.inj hcons
      have hmem : w ∈ valueLines value d := hd' ▸ List.mem_cons_self
      have hle := length_le_of_mem_valueLines hmem
      omega
  cases printsFirst w with
  | ends d hd hprinted =>
    rw [hprinted _ hcons] at h
    have hmem : w ∈ valueLines value d := h ▸ List.mem_cons_self
    have hle := length_le_of_mem_valueLines hmem
    omega
  | line d hd hprinted =>
    have hd := hd.resolve_left fun h => hw h.2
    rw [hprinted _ hcons, valueLines_append] at h
    have hnone := hshort d _ hd h.symm
    rw [hnone, List.nil_append, hlines, hprinted us hnil, valueLines_append, hnone,
      List.nil_append] at h
    exact ⟨us, [], hsuffix, .nil, hnil, hus, h.symm⟩
  | joins d hd hlast hprinted =>
    -- a word that is no value between the two would end the line that begins with `l`
    have hadjacent : ∀ l : Text, '\n' ∉ l →
        valueLines value (l ++ separator ++ printed (vs ++ w :: us)) = w :: V → vs = [] := by
      intro l hl h
      rcases vs with _ | ⟨v, vs⟩
      · rfl
      · have hv := hvalue v (hvs v List.mem_cons_self)
        have hline : value (l ++ separator ++ v) = true :=
          hvalue.value_eq_true (by simp [separator])
        rw [List.cons_append, printed_cons_of_unescaped (unescaped_of_not_mem hv.1) (by simp),
          ← List.append_assoc, valueLines_append,
          valueLines_of_not_mem (by simp [hl, hv.2, separator]), List.filter_singleton, hline] at h
        exact absurd (List.cons.inj h).1 (ne_append_of_not_mem hlast hv.1)
    rw [hprinted _ hcons] at h
    rcases exists_last_line d with hd' | ⟨f, g, rfl, hg⟩
    · obtain rfl := hadjacent d hd' h
      rw [List.nil_append, hprinted us hnil] at h
      refine ⟨us, d ++ separator ++ d ++ separator, hsuffix, .line _ (by simp [hd', separator]) hlast,
        hnil, hus, ?_⟩
      rw [← h]
      simp only [List.append_assoc]
    · exfalso
      have hassoc : f ++ '\n' :: g ++ separator ++ printed (vs ++ w :: us) =
          f ++ '\n' :: (g ++ separator ++ printed (vs ++ w :: us)) := by simp
      rw [hassoc, valueLines_append] at h
      rw [List.length_append] at hd
      have hnone := hshort f _ (by omega) h.symm
      rw [hnone, List.nil_append] at h
      obtain rfl := hadjacent g hg h
      -- the second word ends the line with its own first line, which is no value
      obtain ⟨f', r, hf', hnl, hval⟩ : ∃ f' r, f ++ '\n' :: g = f' ++ '\n' :: r ∧ '\n' ∉ f' ∧
          value f' = false := by
        by_cases hf : '\n' ∈ f
        · obtain ⟨f', r, rfl, hnl⟩ := List.eq_append_cons_of_mem hf
          rw [valueLines_append, valueLines_of_not_mem hnl, List.append_eq_nil_iff] at hnone
          exact ⟨f', r ++ '\n' :: g, by simp, hnl, by simpa using hnone.1⟩
        · rw [valueLines_of_not_mem hf] at hnone
          exact ⟨f, g, rfl, hf, by simpa using hnone⟩
      have hplain := hvalue f' hval
      have hline : value (g ++ separator ++ f') = true :=
        hvalue.value_eq_true (by simp [separator])
      have hassoc' : g ++ separator ++ (f' ++ '\n' :: r ++ separator ++ printed us) =
          g ++ separator ++ f' ++ '\n' :: (r ++ separator ++ printed us) := by simp
      rw [List.nil_append, hprinted us hnil, hf', hassoc', valueLines_append,
        valueLines_of_not_mem (by simp [hg, hnl, separator]), List.filter_singleton, hline] at h
      exact absurd (List.cons.inj h).1 (ne_append_of_not_mem hlast hplain.1)

end Values

end Shell
