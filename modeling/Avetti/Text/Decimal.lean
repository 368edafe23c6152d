import Avetti.Text.Basic
import Mathlib.Algebra.Group.Nat.Defs
import Mathlib.Data.List.Lex

/-!
# Decimal numbers

A number is written with decimal digits, and may have leading zeros. Two numbers are compared through
their significant digits: the number of these first, and then the digits themselves. Dotted numbers
are compared component by component.

## Main definitions

* `Decimal.value w`: the number that some digits stand for
* `Decimal.significant w`: the digits without leading zeros
* `Decimal.Precedes x y`: the significant digits of `x` are fewer, or as many and smaller
* `Decimal.Newer xs ys`: the first number that differs is greater in `xs`, or `xs` goes on
* `Decimal.Ahead xs ys`: the first number that differs has greater digits from the left in `xs`, and
  is not smaller there

## Main results

* `Decimal.value_lt_iff`: the order of the numbers in terms of their digits
* `Decimal.newer_iff`: the order of dotted numbers
* `Decimal.ahead_iff`: the numbers that are later in byte order and not older
-/

namespace Decimal

/-- The value of a digit. -/
def digit (c : Char) : ℕ := c.toNat - '0'.toNat

/-- The number that some digits stand for. -/
def value : Text → ℕ
  | [] => 0
  | c :: w => digit c * 10 ^ w.length + value w

/-- The digits without leading zeros. -/
def significant (w : Text) : Text := w.dropWhile (· = '0')

/-- The text consists of digits. -/
def IsDigits (w : Text) : Prop := ∀ c ∈ w, c.isDigit = true

instance (w : Text) : Decidable (IsDigits w) :=
  inferInstanceAs (Decidable (∀ c ∈ w, c.isDigit = true))

/-- The significant digits are fewer, or as many and smaller. -/
def Precedes (x y : Text) : Prop :=
  (significant x).length < (significant y).length ∨
    (significant x).length = (significant y).length ∧ significant x < significant y

instance (x y : Text) : Decidable (Precedes x y) := inferInstanceAs (Decidable (_ ∨ _))

section Value

variable {x y : Text}

theorem digit_bounds {c : Char} (hc : c.isDigit = true) : 48 ≤ c.toNat ∧ c.toNat ≤ 57 := by
  simp only [Char.isDigit, ge_iff_le, Bool.and_eq_true, decide_eq_true_eq,
    UInt32.le_iff_toNat_le] at hc
  exact hc

theorem digit_lt_iff {c d : Char} (hc : c.isDigit = true) (hd : d.isDigit = true) :
    digit c < digit d ↔ c < d := by
  have hc := digit_bounds hc
  have hd := digit_bounds hd
  have hzero : '0'.toNat = 48 := rfl
  have hlt : c < d ↔ c.toNat < d.toNat := UInt32.lt_iff_toNat_lt
  rw [digit, digit, hzero, hlt]
  omega

theorem digit_inj {c d : Char} (hc : c.isDigit = true) (hd : d.isDigit = true)
    (h : digit c = digit d) : c = d := by
  have hc := digit_bounds hc
  have hd := digit_bounds hd
  have hzero : '0'.toNat = 48 := rfl
  rw [digit, digit, hzero] at h
  exact Char.toNat_inj.mp (by omega)

theorem IsDigits.tail {c : Char} {w : Text} (h : IsDigits (c :: w)) : IsDigits w :=
  fun d hd => h d (List.mem_cons_of_mem c hd)

theorem IsDigits.significant (h : IsDigits x) : IsDigits (significant x) :=
  fun c hc => h c ((List.dropWhile_sublist _).subset hc)

theorem value_lt (h : IsDigits x) : value x < 10 ^ x.length := by
  induction x with
  | nil => simp [value]
  | cons c w ih =>
    have hw := ih h.tail
    have hc := digit_bounds (h c List.mem_cons_self)
    have hzero : '0'.toNat = 48 := rfl
    have hdigit : digit c ≤ 9 := by
      rw [digit, hzero]
      omega
    have hmul : digit c * 10 ^ w.length ≤ 9 * 10 ^ w.length := Nat.mul_le_mul_right _ hdigit
    rw [value, List.length_cons, Nat.pow_succ]
    omega

theorem value_significant (w : Text) : value (significant w) = value w := by
  induction w with
  | nil => rfl
  | cons c w ih =>
    by_cases hc : c = '0'
    · have hdrop : significant (c :: w) = significant w := by simp [significant, hc]
      have hdigit : digit c = 0 := by rw [hc]; rfl
      rw [hdrop, ih, value, hdigit]
      omega
    · have hdrop : significant (c :: w) = c :: w := by simp [significant, hc]
      rw [hdrop]

/-- A number whose first digit is significant is at least a power of ten. -/
theorem pow_le_value {c : Char} {w : Text} (h : IsDigits (c :: w)) (hc : c ≠ '0') :
    10 ^ w.length ≤ value (c :: w) := by
  have hbounds := digit_bounds (h c List.mem_cons_self)
  have hzero : '0'.toNat = 48 := rfl
  have hne : c.toNat ≠ '0'.toNat := fun heq => hc (Char.toNat_inj.mp heq)
  have hdigit : 1 ≤ digit c := by
    rw [digit, hzero]
    omega
  have hmul := Nat.mul_le_mul_right (10 ^ w.length) hdigit
  rw [value]
  omega

theorem head_of_significant {c : Char} {w u : Text} (h : significant w = c :: u) : c ≠ '0' := by
  have hhead := List.head?_dropWhile_not (· = '0') w
  rw [← significant, h] at hhead
  simpa using hhead

/-- Fewer significant digits stand for a smaller number. -/
theorem value_lt_of_length (hx : IsDigits x) (hy : IsDigits y)
    (h : (significant x).length < (significant y).length) : value x < value y := by
  rcases hs : significant y with _ | ⟨c, w⟩
  · rw [hs] at h
    exact absurd h (Nat.not_lt_zero _)
  · have hle : 10 ^ w.length ≤ value y := by
      rw [← value_significant y, hs]
      exact pow_le_value (hs ▸ hy.significant) (head_of_significant hs)
    have hlt : value x < 10 ^ (significant x).length := by
      rw [← value_significant x]
      exact value_lt hx.significant
    rw [hs, List.length_cons] at h
    exact hlt.trans_le ((Nat.pow_le_pow_right (by omega) (by omega)).trans hle)

/-- Numbers with as many digits are ordered and distinguished by their digits. -/
theorem value_of_same_length (hx : IsDigits x) (hy : IsDigits y) (h : x.length = y.length) :
    (value x < value y ↔ x < y) ∧ (value x = value y ↔ x = y) := by
  induction x generalizing y with
  | nil =>
    obtain rfl := List.length_eq_zero_iff.mp h.symm
    exact ⟨by simp, by simp⟩
  | cons c w ih =>
    obtain ⟨d, u, rfl⟩ := List.exists_cons_of_length_eq_add_one h.symm
    have hlength : w.length = u.length := by simpa using h
    obtain ⟨hlt, heq⟩ := ih hx.tail hy.tail hlength
    have hc := hx c List.mem_cons_self
    have hd := hy d List.mem_cons_self
    have hw := value_lt hx.tail
    have hu := value_lt hy.tail
    rw [← hlength] at hu
    rw [value, value, ← hlength, List.cons_lt_cons_iff, List.cons.injEq]
    -- the first digits decide, unless they are the same
    rcases lt_trichotomy (digit c) (digit d) with hcd | hcd | hcd
    · have hmul := Nat.mul_le_mul_right (10 ^ w.length) (Nat.succ_le_of_lt hcd)
      rw [Nat.succ_mul] at hmul
      have hlt' := (digit_lt_iff hc hd).mp hcd
      have hne : c ≠ d := fun h => by rw [h] at hcd; omega
      exact ⟨iff_of_true (by omega) (Or.inl hlt'), iff_of_false (by omega) fun h => hne h.1⟩
    · obtain rfl := digit_inj hc hd hcd
      have hirrefl : ¬ c < c := fun h => lt_irrefl _ ((digit_lt_iff hc hc).mpr h)
      simp only [hirrefl, false_or, true_and]
      rw [← hlt, ← heq]
      omega
    · have hmul := Nat.mul_le_mul_right (10 ^ w.length) (Nat.succ_le_of_lt hcd)
      rw [Nat.succ_mul] at hmul
      have hne : c ≠ d := fun h => by rw [h] at hcd; omega
      refine ⟨iff_of_false (by omega) ?_, iff_of_false (by omega) fun h => hne h.1⟩
      rintro (h | h)
      · exact lt_asymm ((digit_lt_iff hc hd).mpr h) hcd
      · exact hne h.1

/-- **The order of numbers** in terms of their digits. -/
theorem value_lt_iff (hx : IsDigits x) (hy : IsDigits y) : value x < value y ↔ Precedes x y := by
  rcases lt_trichotomy (significant x).length (significant y).length with h | h | h
  · exact iff_of_true (value_lt_of_length hx hy h) (Or.inl h)
  · rw [← value_significant x, ← value_significant y,
      (value_of_same_length hx.significant hy.significant h).1, Precedes]
    simp [h]
  · have hlt := value_lt_of_length hy hx h
    refine iff_of_false (by omega) ?_
    rintro (h' | ⟨h', -⟩)
    · omega
    · omega

/-- Numbers are equal when their significant digits are. -/
theorem value_eq_iff (hx : IsDigits x) (hy : IsDigits y) :
    value x = value y ↔ significant x = significant y := by
  constructor
  · intro h
    have hlength : (significant x).length = (significant y).length := by
      rcases lt_trichotomy (significant x).length (significant y).length with hlt | heq | hgt
      · have := value_lt_of_length hx hy hlt
        omega
      · exact heq
      · have := value_lt_of_length hy hx hgt
        omega
    rw [← value_significant x, ← value_significant y] at h
    exact (value_of_same_length hx.significant hy.significant hlength).2.mp h
  · intro h
    rw [← value_significant x, h, value_significant]

end Value

/-! ## Dotted numbers -/

/-- The first number that differs is greater, or the numbers go on. -/
def Newer : List Text → List Text → Prop
  | [], _ => False
  | _ :: _, [] => True
  | x :: xs, y :: ys => Precedes y x ∨ significant x = significant y ∧ Newer xs ys

instance decidableNewer : ∀ xs ys, Decidable (Newer xs ys)
  | [], _ => .isFalse id
  | _ :: _, [] => .isTrue trivial
  | x :: xs, y :: ys =>
    have := decidableNewer xs ys
    inferInstanceAs (Decidable (Precedes y x ∨ significant x = significant y ∧ Newer xs ys))

/-- **The order of dotted numbers.** -/
theorem newer_iff {xs ys : List Text} (hxs : ∀ x ∈ xs, IsDigits x) (hys : ∀ y ∈ ys, IsDigits y) :
    Newer xs ys ↔ ys.map value < xs.map value := by
  induction xs generalizing ys with
  | nil => simp [Newer]
  | cons x xs ih =>
    rcases ys with _ | ⟨y, ys⟩
    · simp [Newer]
    · have hx := hxs x List.mem_cons_self
      have hy := hys y List.mem_cons_self
      rw [Newer, List.map_cons, List.map_cons, List.cons_lt_cons_iff, value_lt_iff hy hx,
        eq_comm (a := value y), value_eq_iff hx hy,
        ih (fun x hx => hxs x (List.mem_cons_of_mem _ hx))
          fun y hy => hys y (List.mem_cons_of_mem _ hy)]

/-! ## Byte order -/

/-- The first number that differs has greater digits from the left, and is not the smaller one; or
the numbers go on. Digits that are greater from the left stand for a smaller number where they are
fewer. -/
def Ahead : List Text → List Text → Prop
  | [], _ => False
  | _ :: _, [] => True
  | x :: xs, y :: ys =>
    if x = y then Ahead xs ys
    else y < x ∧ (Precedes y x ∨ significant x = significant y ∧ ¬ Newer ys xs)

/-- Numbers with dots between them. -/
def dotted (xs : List Text) : Text := ['.'].intercalate xs

theorem dotted_cons (x : Text) (xs : List Text) : ∃ r, dotted (x :: xs) = x ++ r ∧
    (xs = [] ∧ r = [] ∨ xs ≠ [] ∧ r = '.' :: dotted xs) := by
  rcases xs with _ | ⟨x', xs⟩
  · exact ⟨[], by simp [dotted], Or.inl ⟨rfl, rfl⟩⟩
  · refine ⟨'.' :: dotted (x' :: xs), ?_, Or.inr ⟨by simp, rfl⟩⟩
    rw [dotted, List.intercalate_cons_cons, List.append_assoc]
    rfl

theorem mem_dotted {xs : List Text} (h : ∀ x ∈ xs, IsDigits x) :
    ∀ c ∈ dotted xs, c = '.' ∨ c.isDigit = true := by
  intro c hc
  rcases Text.mem_intercalate hc with rfl | ⟨x, hx, hcx⟩
  · exact Or.inl rfl
  · exact Or.inr (h x hx c hcx)

theorem append_lt_append_iff (x : Text) {r s : Text} : x ++ r < x ++ s ↔ r < s := by
  induction x with
  | nil => rfl
  | cons c w ih =>
    have hirrefl : ¬ c < c := fun h => lt_irrefl c.toNat (UInt32.lt_iff_toNat_lt.mp h)
    rw [List.cons_append, List.cons_append, List.cons_lt_cons_iff, ih]
    simp only [hirrefl, false_or, true_and]

/-- Different numbers are in byte order as their digits are: a dot is before every digit. -/
theorem append_lt_append_iff_of_ne {x y r s : Text} (hx : IsDigits x) (hy : IsDigits y)
    (hne : x ≠ y) (hr : r = [] ∨ ∃ r', r = '.' :: r') (hs : s = [] ∨ ∃ s', s = '.' :: s') :
    y ++ s < x ++ r ↔ y < x := by
  have hdot : ∀ {c : Char}, c.isDigit = true → '.' < c := by
    intro c hc
    have hbounds := digit_bounds hc
    have hvalue : '.'.toNat = 46 := rfl
    have hlt : '.'.toNat < c.toNat := by omega
    exact UInt32.lt_iff_toNat_lt.mpr hlt
  induction y generalizing x with
  | nil =>
    -- the end, or a dot, comes before the next digit of `x`
    obtain ⟨c, w, rfl⟩ := List.exists_cons_of_ne_nil hne
    refine iff_of_true ?_ (List.nil_lt_cons c w)
    rcases hs with rfl | ⟨s, rfl⟩
    · exact List.nil_lt_cons c _
    · exact List.cons_lt_cons_iff.mpr (Or.inl (hdot (hx c List.mem_cons_self)))
  | cons d u ih =>
    have hd := hdot (hy d List.mem_cons_self)
    rcases x with _ | ⟨c, w⟩
    · -- and the next digit of `y` comes after it
      refine iff_of_false ?_ (List.not_lt_nil _)
      rcases hr with rfl | ⟨r, rfl⟩
      · exact List.not_lt_nil _
      · rw [List.cons_append, List.nil_append, List.cons_lt_cons_iff]
        rintro (h | ⟨rfl, -⟩)
        · exact absurd (UInt32.lt_iff_toNat_lt.mp h) (not_lt.mpr (UInt32.lt_iff_toNat_lt.mp hd).le)
        · exact absurd (UInt32.lt_iff_toNat_lt.mp hd) (lt_irrefl _)
    · rw [List.cons_append, List.cons_append, List.cons_lt_cons_iff, List.cons_lt_cons_iff]
      refine or_congr_right (and_congr_right fun hdc => ?_)
      exact ih hx.tail hy.tail fun hwu => hne (by rw [hwu, hdc])

/-- After a common first number the other numbers are in byte order as they are. -/
theorem dotted_cons_lt_iff {x : Text} {xs ys : List Text} (hxs : ∀ x ∈ xs, x ≠ []) :
    dotted (x :: ys) < dotted (x :: xs) ↔ dotted ys < dotted xs := by
  obtain ⟨r, hr, hxs'⟩ := dotted_cons x xs
  obtain ⟨s, hs, hys'⟩ := dotted_cons x ys
  rw [hr, hs, append_lt_append_iff]
  rcases hxs' with ⟨rfl, rfl⟩ | ⟨hne, rfl⟩
  · exact iff_of_false (List.not_lt_nil _) (List.not_lt_nil _)
  · rcases hys' with ⟨rfl, rfl⟩ | ⟨-, rfl⟩
    · obtain ⟨x', xs, rfl⟩ := List.exists_cons_of_ne_nil hne
      obtain ⟨r, hr, -⟩ := dotted_cons x' xs
      obtain ⟨c, w, hc⟩ := List.exists_cons_of_ne_nil (hxs x' List.mem_cons_self)
      refine iff_of_true (List.nil_lt_cons _ _) ?_
      rw [hr, hc]
      exact List.nil_lt_cons c _
    · exact append_lt_append_iff ['.']

/-- **Byte order and the order of versions**: numbers are ahead of others exactly when they are later
in byte order and not older. -/
theorem ahead_iff {xs ys : List Text} (hxs : ∀ x ∈ xs, x ≠ [] ∧ IsDigits x)
    (hys : ∀ y ∈ ys, y ≠ [] ∧ IsDigits y) :
    Ahead xs ys ↔ dotted ys < dotted xs ∧ ¬ Newer ys xs := by
  induction xs generalizing ys with
  | nil => exact iff_of_false id fun h => List.not_lt_nil _ h.1
  | cons x xs ih =>
    obtain ⟨hx, hxdigits⟩ := hxs x List.mem_cons_self
    have hxs' : ∀ x ∈ xs, x ≠ [] ∧ IsDigits x := fun x hx => hxs x (List.mem_cons_of_mem _ hx)
    rcases ys with _ | ⟨y, ys⟩
    · obtain ⟨r, hr, -⟩ := dotted_cons x xs
      obtain ⟨c, w, hc⟩ := List.exists_cons_of_ne_nil hx
      refine iff_of_true trivial ⟨?_, id⟩
      rw [hr, hc]
      exact List.nil_lt_cons c _
    · obtain ⟨-, hydigits⟩ := hys y List.mem_cons_self
      rw [Ahead, Newer]
      split_ifs with heq
      · -- the same first number: the others decide
        subst heq
        have hself : ¬ Precedes x x := fun h =>
          lt_irrefl _ ((value_lt_iff hxdigits hxdigits).mpr h)
        rw [dotted_cons_lt_iff fun x hx => (hxs' x hx).1,
          ih hxs' fun y hy => hys y (List.mem_cons_of_mem _ hy)]
        simp [hself]
      · -- other digits: the byte order is theirs, and the version order is that of their values
        obtain ⟨r, hr, hr'⟩ := dotted_cons x xs
        obtain ⟨s, hs, hs'⟩ := dotted_cons y ys
        have hdot : ∀ {zs : List Text} {t : Text},
            zs = [] ∧ t = [] ∨ zs ≠ [] ∧ t = '.' :: dotted zs → t = [] ∨ ∃ t', t = '.' :: t' := by
          rintro zs t (⟨-, rfl⟩ | ⟨-, rfl⟩)
          · exact Or.inl rfl
          · exact Or.inr ⟨_, rfl⟩
        rw [hr, hs, append_lt_append_iff_of_ne hxdigits hydigits heq (hdot hr') (hdot hs'),
          ← value_lt_iff hxdigits hydigits, ← value_lt_iff hydigits hxdigits,
          ← value_eq_iff hxdigits hydigits, ← value_eq_iff hydigits hxdigits]
        refine and_congr_right fun _ => ?_
        rcases lt_trichotomy (value x) (value y) with h | h | h
        · exact iff_of_false (by omega) (not_not.mpr (Or.inl h))
        · simp [h]
        · exact iff_of_true (Or.inl h) (by omega)

end Decimal
