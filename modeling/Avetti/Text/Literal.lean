import Avetti.Text.Basic

/-!
# Replacing a word

Every occurrence of a word in a text is replaced, from left to right: what is put in is not searched
again, and occurrences that overlap one on their left do not count.

## Main definitions

* `Literal.strstr m t`: the place of the first occurrence of `m` in `t`
* `Literal.replaceAll m r t`: every occurrence of `m` in `t` replaced by `r`
* `Literal.Replaces m r n t u`: `n` occurrences are replaced, one after the other

## Main results

* `Literal.exists_replaces`: the occurrences that are replaced, one after the other
* `Literal.replaceAll_eq_self`: a text without the word is kept
* `Literal.Replaces.length_eq`: the length of the result
-/

namespace Literal

variable {m r t u : Text}

/-- The place of the first occurrence. -/
def strstr (m : Text) : Text → Option ℕ
  | [] => if m = [] then some 0 else none
  | c :: t => if m.isPrefixOf (c :: t) then some 0 else (strstr m t).map (· + 1)

/-- The occurrences are replaced after some characters that are left out. -/
def replaceFrom (m r : Text) : ℕ → Text → Text
  | _, [] => []
  | 0, c :: t =>
    if m.isPrefixOf (c :: t) then r ++ replaceFrom m r (m.length - 1) t
    else c :: replaceFrom m r 0 t
  | k + 1, _ :: t => replaceFrom m r k t

/-- **Every occurrence of a word is replaced.** -/
def replaceAll (m r t : Text) : Text := if m = [] then t else replaceFrom m r 0 t

/-- The first `n` occurrences are replaced one after the other, and there are no more. -/
inductive Replaces (m r : Text) : ℕ → Text → Text → Prop where
  | none {t : Text} (h : strstr m t = none) : Replaces m r 0 t t
  | some {n : ℕ} {a t t' : Text} (h : strstr m (a ++ (m ++ t)) = some a.length)
      (rest : Replaces m r n t t') : Replaces m r (n + 1) (a ++ (m ++ t)) (a ++ (r ++ t'))

theorem exists_of_strstr {i : ℕ} (h : strstr m t = some i) :
    ∃ a b, t = a ++ (m ++ b) ∧ a.length = i := by
  induction t generalizing i with
  | nil =>
    rw [strstr] at h
    split_ifs at h with hm
    obtain rfl := Option.some.inj h
    exact ⟨[], [], by simp [hm], rfl⟩
  | cons c t ih =>
    rw [strstr] at h
    split_ifs at h with hstarts
    · obtain rfl := Option.some.inj h
      obtain ⟨b, hb⟩ := List.isPrefixOf_iff_prefix.mp hstarts
      exact ⟨[], b, hb.symm, rfl⟩
    · obtain ⟨j, hj, rfl⟩ := Option.map_eq_some_iff.mp h
      obtain ⟨a, b, rfl, rfl⟩ := ih hj
      exact ⟨c :: a, b, rfl, rfl⟩

/-- The word is found when it occurs. -/
theorem strstr_eq_none_iff : strstr m t = none ↔ ¬ Text.Occurs m t := by
  induction t with
  | nil =>
    rw [strstr, Text.Occurs, List.infix_nil]
    split_ifs with hm <;> simp [hm]
  | cons c t ih =>
    rw [strstr, Text.Occurs, List.infix_cons_iff, ← List.isPrefixOf_iff_prefix]
    split_ifs with hstarts
    · simp [hstarts]
    · rw [Option.map_eq_none_iff, ih]
      simp [hstarts, Text.Occurs]

theorem replaceFrom_eq_drop (k : ℕ) (t : Text) :
    replaceFrom m r k t = replaceFrom m r 0 (t.drop k) := by
  induction k generalizing t with
  | zero => rfl
  | succ k ih =>
    cases t with
    | nil => rfl
    | cons c t => rw [replaceFrom, ih, List.drop_succ_cons]

theorem replaceFrom_of_strstr_eq_none (h : strstr m t = none) : replaceFrom m r 0 t = t := by
  induction t with
  | nil => rfl
  | cons c t ih =>
    rw [strstr] at h
    split_ifs at h with hstarts
    rw [replaceFrom, if_neg hstarts, ih (Option.map_eq_none_iff.mp h)]

theorem replaceFrom_of_strstr {a : Text} (hm : m ≠ [])
    (h : strstr m (a ++ (m ++ t)) = some a.length) :
    replaceFrom m r 0 (a ++ (m ++ t)) = a ++ (r ++ replaceFrom m r 0 t) := by
  induction a with
  | nil =>
    obtain ⟨c, m', rfl⟩ := List.exists_cons_of_ne_nil hm
    have hstarts : (c :: m').isPrefixOf (c :: (m' ++ t)) = true :=
      List.isPrefixOf_iff_prefix.mpr ⟨t, rfl⟩
    -- the rest of the word is left out, character by character
    show replaceFrom _ _ 0 (c :: (m' ++ t)) = r ++ _
    rw [replaceFrom, if_pos hstarts, replaceFrom_eq_drop, List.length_cons, Nat.add_sub_cancel,
      List.drop_left]
  | cons c a ih =>
    rw [List.cons_append, strstr] at h
    split_ifs at h with hstarts
    · cases h
    obtain ⟨j, hj, hlength⟩ := Option.map_eq_some_iff.mp h
    obtain rfl := Nat.succ.inj hlength
    rw [List.cons_append, replaceFrom, if_neg hstarts, ih hj]
    rfl

/-- An occurrence at the start. -/
theorem replaceAll_append (hm : m ≠ []) (r t : Text) :
    replaceAll m r (m ++ t) = r ++ replaceAll m r t := by
  obtain ⟨c, m', rfl⟩ := List.exists_cons_of_ne_nil hm
  have hfound : strstr (c :: m') ([] ++ ((c :: m') ++ t)) = some 0 :=
    if_pos (List.isPrefixOf_iff_prefix.mpr ⟨t, rfl⟩)
  rw [replaceAll, if_neg hm, replaceAll, if_neg hm]
  exact replaceFrom_of_strstr hm hfound

/-- Characters that the word does not start with. -/
theorem replaceAll_append_of_not_mem {d : Char} {a : Text} (ha : d ∉ a) (m r t : Text) :
    replaceAll (d :: m) r (a ++ t) = a ++ replaceAll (d :: m) r t := by
  rw [replaceAll, if_neg (List.cons_ne_nil d m), replaceAll, if_neg (List.cons_ne_nil d m)]
  induction a with
  | nil => rfl
  | cons c a ih =>
    rw [List.mem_cons, not_or] at ha
    -- the word starts with another character
    have hstarts : ¬ (d :: m).isPrefixOf (c :: (a ++ t)) = true := by
      rw [List.isPrefixOf_iff_prefix, List.cons_prefix_cons]
      exact fun h => ha.1 h.1
    rw [List.cons_append, replaceFrom, if_neg hstarts, ih ha.2]
    rfl

/-- **The occurrences are replaced one after the other.** -/
theorem exists_replaces (hm : m ≠ []) (r t : Text) : ∃ n, Replaces m r n t (replaceAll m r t) := by
  rw [replaceAll, if_neg hm]
  -- the induction is on the length: what is left after an occurrence is shorter
  induction hlength : t.length using Nat.strong_induction_on generalizing t with
  | _ len ih =>
    subst hlength
    cases hfound : strstr m t with
    | none =>
      rw [replaceFrom_of_strstr_eq_none hfound]
      exact ⟨0, .none hfound⟩
    | some i =>
      obtain ⟨a, b, rfl, rfl⟩ := exists_of_strstr hfound
      have hpos := List.length_pos_iff.mpr hm
      obtain ⟨n, hn⟩ := ih b.length (by simp only [List.length_append]; omega) b rfl
      rw [replaceFrom_of_strstr hm hfound]
      exact ⟨n + 1, .some hfound hn⟩

/-- A text without the word is kept. -/
theorem replaceAll_eq_self (h : ¬ Text.Occurs m t) : replaceAll m r t = t := by
  rw [replaceAll]
  split_ifs
  · rfl
  · exact replaceFrom_of_strstr_eq_none (strstr_eq_none_iff.mpr h)

/-- Nothing comes in but what is put in. -/
theorem Replaces.mem {n : ℕ} (h : Replaces m r n t u) {c : Char} (hc : c ∈ u) : c ∈ t ∨ c ∈ r := by
  induction h with
  | none => exact .inl hc
  | some _ _ ih =>
    simp only [List.mem_append] at hc ⊢
    rcases hc with hc | hc | hc
    · exact .inl (.inl hc)
    · exact .inr hc
    · exact (ih hc).imp_left fun h => .inr (.inr h)

theorem mem_replaceAll {c : Char} (hc : c ∈ replaceAll m r t) : c ∈ t ∨ c ∈ r := by
  by_cases hm : m = []
  · rw [replaceAll, if_pos hm] at hc
    exact .inl hc
  · obtain ⟨n, hn⟩ := exists_replaces hm r t
    exact hn.mem hc

theorem replaceAll_of_not_mem {d : Char} (hd : d ∉ t) (m r : Text) :
    replaceAll (d :: m) r t = t :=
  replaceAll_eq_self fun h => hd (h.subset List.mem_cons_self)

/-- The length of the result. -/
theorem Replaces.length_eq {n : ℕ} (h : Replaces m r n t u) :
    u.length + n * m.length = t.length + n * r.length := by
  induction h with
  | none => simp
  | some _ _ ih =>
    simp only [List.length_append, Nat.add_mul, Nat.one_mul]
    omega

/-- An occurrence has its place in the text. -/
theorem Replaces.mul_length_le {n : ℕ} (h : Replaces m r n t u) : n * m.length ≤ t.length := by
  induction h with
  | none => simp
  | some _ _ ih =>
    simp only [List.length_append, Nat.add_mul, Nat.one_mul]
    omega

end Literal
