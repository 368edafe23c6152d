import Avetti.Text.Decimal
import Mathlib.Algebra.Group.Int.Defs

/-!
# Numbers as C reads them

`strtol` and `atoi` of a text: the blanks before the number, a sign, and as many digits as there
are. What does not fit into a `long` is cut to its bounds, and a `long` is cut to an `int` by its
low 32 bits.

## Main definitions

* `Number.strtol b t`, `Number.atoi t`
* `Number.decimal n`: the digits of `%d`

## Main results

* `Number.strtol_of_digits`: a text that starts with the digits of a number
* `Number.atoi_decimal`: `atoi` reads what `%d` writes
* `Number.toInt_strtol_toDigits`: `strtol` reads the digits of a number in its base
-/

namespace Number

/-- `isspace`. -/
def isSpace (c : Char) : Bool := c ∈ [' ', '\t', '\n', '\x0b', '\x0c', '\r']

/-- The character is a digit of base `b`, which is at most ten. -/
def isDigitOf (b : ℕ) (c : Char) : Bool := c.isDigit && decide (c.toNat - '0'.toNat < b)

/-- The sign before a number, and the rest. -/
def signed : Text → ℤ × Text
  | '-' :: t => (-1, t)
  | '+' :: t => (1, t)
  | t => (1, t)

/-- `strtol(t, NULL, b)` for a base `b` of at most ten. -/
def strtol (b : ℕ) (t : Text) : ℤ :=
  let (sign, u) := signed (t.dropWhile isSpace)
  max (-2 ^ 63) (min (2 ^ 63 - 1) (sign * Nat.ofDigitChars b (u.takeWhile (isDigitOf b)) 0))

/-- The conversion of a `long` to an `int`. -/
def toInt (n : ℤ) : ℤ := n.bmod (2 ^ 32)

/-- `atoi(t)`. -/
def atoi (t : Text) : ℤ := toInt (strtol 10 t)

/-- The digits of `%d`. -/
def decimal (n : ℕ) : Text := Nat.toDigits 10 n

theorem isDigit_of_mem_decimal {n : ℕ} {c : Char} (hc : c ∈ decimal n) : c.isDigit = true :=
  Nat.isDigit_of_mem_toDigits (by decide) (by decide) hc

theorem decimal_ne_nil (n : ℕ) : decimal n ≠ [] := Nat.toDigits_ne_nil

theorem ofDigitChars_decimal (n : ℕ) : Nat.ofDigitChars 10 (decimal n) 0 = n :=
  Nat.ofDigitChars_ten_toDigits

theorem value_eq_ofDigitChars (w : Text) : Decimal.value w = Nat.ofDigitChars 10 w 0 := by
  induction w with
  | nil => rfl
  | cons c w ih =>
    have hcons : Nat.ofDigitChars 10 w (c.toNat - '0'.toNat) =
        10 ^ w.length * (c.toNat - '0'.toNat) + Nat.ofDigitChars 10 w 0 :=
      Nat.ofDigitChars_eq_ofDigitChars_zero
    rw [Decimal.value, ih, Nat.ofDigitChars_cons, Nat.mul_zero, Nat.zero_add, hcons, Nat.mul_comm]
    rfl

/-- The digits of a number have its value. -/
theorem value_decimal (n : ℕ) : Decimal.value (decimal n) = n := by
  rw [value_eq_ofDigitChars, ofDigitChars_decimal]

theorem isDigits_decimal (n : ℕ) : Decimal.IsDigits (decimal n) :=
  fun _ hc => isDigit_of_mem_decimal hc

/-- The value of a digit is less than ten. -/
theorem isDigitOf_ten {c : Char} (hc : c.isDigit = true) : isDigitOf 10 c = true := by
  have hzero : '0'.toNat = 48 := rfl
  have hle := (Decimal.digit_bounds hc).2
  rw [isDigitOf, hc, hzero, Bool.true_and, decide_eq_true_eq]
  omega

/-- The digits of a number in base `b`. -/
theorem isDigitOf_of_mem_toDigits {b n : ℕ} (hb : 1 < b) (hb' : b ≤ 10) :
    ∀ c ∈ Nat.toDigits b n, isDigitOf b c = true := by
  have hdigit : ∀ d < 10, (Nat.digitChar d).isDigit = true ∧
      (Nat.digitChar d).toNat - '0'.toNat = d := by decide
  have hlow : ∀ d < b, isDigitOf b (Nat.digitChar d) = true := by
    intro d hd
    obtain ⟨hisDigit, hvalue⟩ := hdigit d (hd.trans_le hb')
    rw [isDigitOf, hisDigit, hvalue, Bool.true_and, decide_eq_true hd]
  -- all digits but the last one are those of the quotient
  induction n using Nat.strong_induction_on with
  | _ n ih =>
    intro c hc
    rw [Nat.toDigits_eq_if hb] at hc
    split_ifs at hc with hn
    · exact List.mem_singleton.mp hc ▸ hlow n hn
    · rcases List.mem_append.mp hc with hc | hc
      · exact ih (n / b) (Nat.div_lt_self (by omega) hb) c hc
      · exact List.mem_singleton.mp hc ▸ hlow (n % b) (Nat.mod_lt n (by omega))

/-- A digit is neither a blank nor a sign. -/
theorem not_isSpace_of_isDigit {c : Char} (hc : c.isDigit = true) : isSpace c = false := by
  have hspaces : ∀ d ∈ [' ', '\t', '\n', '\x0b', '\x0c', '\r'], d.isDigit = false := by decide
  rw [isSpace, decide_eq_false_iff_not]
  intro hmem
  rw [hspaces c hmem] at hc
  cases hc

theorem signed_of_isDigit {c : Char} {t : Text} (hc : c.isDigit = true) :
    signed (c :: t) = (1, c :: t) := by
  have hminus : c ≠ '-' := by
    rintro rfl
    cases hc
  have hplus : c ≠ '+' := by
    rintro rfl
    cases hc
  rw [signed.eq_def]
  split
  · rename_i heq
    exact absurd (List.cons.inj heq).1 hminus
  · rename_i heq
    exact absurd (List.cons.inj heq).1 hplus
  · rfl

/-- A text that starts with digits, and goes on with another character or ends. -/
theorem strtol_of_digits {b : ℕ} {w t : Text} (hw : w ≠ []) (hdigits : ∀ c ∈ w, isDigitOf b c = true)
    (ht : ∀ c ∈ t.head?, isDigitOf b c = false) :
    strtol b (w ++ t) = min (2 ^ 63 - 1) (Nat.ofDigitChars b w 0 : ℤ) := by
  -- the digits end where the other text begins
  have htake : (w ++ t).takeWhile (isDigitOf b) = w := by
    rw [List.takeWhile_append_of_pos hdigits]
    cases t with
    | nil => simp
    | cons c t => simp [ht c rfl]
  obtain ⟨c, w, rfl⟩ := List.exists_cons_of_ne_nil hw
  have hc : c.isDigit = true := by
    have hdigit := hdigits c List.mem_cons_self
    rw [isDigitOf, Bool.and_eq_true] at hdigit
    exact hdigit.1
  -- there is neither a blank nor a sign before a digit
  have hdrop : (c :: w ++ t).dropWhile isSpace = c :: w ++ t := by
    rw [List.cons_append, List.dropWhile_cons_of_neg]
    simp [not_isSpace_of_isDigit hc]
  have hsigned : signed (c :: w ++ t) = (1, c :: w ++ t) := by
    rw [List.cons_append]
    exact signed_of_isDigit hc
  rw [strtol, hdrop, hsigned]
  show max (-2 ^ 63) (min (2 ^ 63 - 1) (1 * (Nat.ofDigitChars b
    ((c :: w ++ t).takeWhile (isDigitOf b)) 0 : ℤ))) = _
  rw [htake, Int.one_mul]
  omega

/-- **`atoi` reads what `%d` writes**, when another character or nothing follows. -/
theorem atoi_decimal {n : ℕ} {t : Text} (hn : n < 2 ^ 31) (ht : ∀ c ∈ t.head?, c.isDigit = false) :
    atoi (decimal n ++ t) = n := by
  have hstop : ∀ c ∈ t.head?, isDigitOf 10 c = false := fun c hc => by
    rw [isDigitOf, ht c hc, Bool.false_and]
  have hstrtol := strtol_of_digits (b := 10) (decimal_ne_nil n)
    (fun c hc => isDigitOf_ten (isDigit_of_mem_decimal hc)) hstop
  rw [atoi, hstrtol, ofDigitChars_decimal, toInt, Int.bmod_def]
  omega

/-- `strtol` reads the digits of a number. -/
theorem toInt_strtol_toDigits {b n : ℕ} (hb : 1 < b) (hb' : b ≤ 10) (hn : n < 2 ^ 31) :
    toInt (strtol b (Nat.toDigits b n)) = n := by
  have hstrtol := strtol_of_digits (t := []) Nat.toDigits_ne_nil
    (isDigitOf_of_mem_toDigits (n := n) hb hb') (by rintro c ⟨⟩)
  rw [List.append_nil] at hstrtol
  rw [hstrtol, Nat.ofDigitChars_toDigits hb hb', toInt, Int.bmod_def]
  omega

theorem toInt_lt (n : ℤ) : toInt n < 2 ^ 31 := by
  rw [toInt, Int.bmod_def]
  omega

end Number
