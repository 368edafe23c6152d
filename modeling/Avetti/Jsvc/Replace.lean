import Avetti.Text.Buffer
import Avetti.Text.Literal

/-!
# jsvc: replacing a text in a buffer

`replace` copies a string into a buffer and replaces every occurrence of a word there, in place: the
rest of the string is moved to make room for what is put in, or to close the gap. It returns the
size that is needed when the buffer is too small for the result. The string itself is copied before
anything is replaced, so a buffer for a result that is shorter has to hold the string as well, which
`replace` does not check.

## Main definitions

* `replace new len old mch rpl`: without a value when it writes out of the bounds of the buffer

## Main results

* `replaceLoop_of_replaces`: the loop that replaces, from any place of the buffer on
* `replace_spec`: the result, the size that is needed, and the buffers that are overrun
-/

namespace Avetti.Jsvc

open Buffer Literal

/-- `strcpy`. -/
def strcpy (b : Text) (t : Text) : Option Text := write b 0 (t ++ [nul])

/-- The loop that counts the occurrences; the first argument bounds the number of steps. -/
def countMatches (mch : Text) : ℕ → Text → ℕ
  | 0, _ => 0
  | fuel + 1, t =>
    match strstr mch t with
    | none => 0
    | some i => countMatches mch fuel (t.drop (i + mch.length)) + 1

/-- The rest of the string after a match at `tmp` is moved, by `shift = rlen - mlen`. -/
def moveRest (mlen rlen : ℕ) (b : Text) (tmp : ℕ) : Option Text :=
  if mlen < rlen then (strlen b tmp).bind fun n => moveRight tmp (rlen - mlen) n b
  else if rlen < mlen then moveLeft tmp (mlen - rlen) b.length mlen b
  else some b

/-- The loop that replaces; the first argument bounds the number of steps. -/
def replaceLoop (mch rpl : Text) : ℕ → ℕ → Text → Option Text
  | 0, _, _ => none
  | fuel + 1, tmp, b =>
    (stringAt b tmp).bind fun t =>
      match strstr mch t with
      | none => some b
      | some i =>
        (moveRest mch.length rpl.length b (tmp + i)).bind fun b =>
          (write b (tmp + i) rpl).bind (replaceLoop mch rpl fuel (tmp + i + rpl.length))

/-- A simple copy. -/
def simplyCopy (new : Text) (len : ℤ) (old : Text) : Option (ℤ × Option Text) :=
  if len ≤ old.length then some (old.length + 1, some new)
  else (strcpy new old).map fun b => (0, some b)

/-- **`replace`**, where `none` for a pointer is `NULL`: the value that is returned, and the buffer.
The lengths are less than `2 ^ 31`. -/
def replace (new : Option Text) (len : ℤ) (old mch rpl : Option Text) :
    Option (ℤ × Option Text) :=
  match new with
  | none => some (-1, none)
  | some new =>
    if len < 0 then some (-2, some new)
    else match old with
    | none => some (-3, some new)
    | some old =>
      match mch with
      | none => simplyCopy new len old
      | some mch =>
        if mch = [] then simplyCopy new len old
        else
          let rpl := rpl.getD []
          let count := countMatches mch (old.length + 1) old
          if count = 0 then simplyCopy new len old
          else
            let shift : ℤ := rpl.length - mch.length
            let nlen : ℤ := old.length + shift * count
            if len ≤ nlen then some (nlen + 1, some new)
            else
              ((strcpy new old).bind (replaceLoop mch rpl (old.length + 1) 0)).map
                fun b => (0, some b)

section Replace

variable {mch rpl old t u : Text}

/-- The occurrences are counted. -/
theorem countMatches_of_replaces {n : ℕ} (h : Replaces mch rpl n t u) {fuel : ℕ} (hfuel : n < fuel) :
    countMatches mch fuel t = n := by
  induction h generalizing fuel with
  | none hfound =>
    obtain ⟨fuel, rfl⟩ : ∃ k, fuel = k + 1 := ⟨fuel - 1, by omega⟩
    rw [countMatches, hfound]
  | @some n a t t' hfound _ ih =>
    obtain ⟨fuel, rfl⟩ : ∃ k, fuel = k + 1 := ⟨fuel - 1, by omega⟩
    have hdrop : (a ++ (mch ++ t)).drop (a.length + mch.length) = t := by
      rw [← List.drop_drop, List.drop_left, List.drop_left]
    rw [countMatches, hfound]
    dsimp only
    rw [hdrop, ih (by omega)]

/-- The rest of the string is moved. -/
theorem moveRest_append {p m t v r : Text} (hm : nul ∉ m) (ht : nul ∉ t) (hne : m ≠ [])
    (hroom : r.length ≤ m.length + v.length) :
    ∃ hole v', hole.length = r.length ∧ r.length + v'.length = m.length + v.length ∧
      moveRest m.length r.length (p ++ (m ++ (t ++ nul :: v))) p.length =
        some (p ++ (hole ++ (t ++ nul :: v'))) := by
  rw [moveRest]
  -- to the right from the end of the string, or to the left from its start
  split_ifs with hright hleft
  · have hstrlen : strlen (p ++ (m ++ (t ++ nul :: v))) p.length = some (m.length + t.length) := by
      have hmt : nul ∉ m ++ t := by simp [hm, ht]
      rw [← List.append_assoc m, strlen_append hmt, List.length_append]
    rw [hstrlen, Option.bind_some]
    exact moveRight_append hne hright (by omega)
  · refine moveLeft_append hm ht hleft ?_
    have hpos := List.length_pos_iff.mpr hne
    simp only [List.length_append, List.length_cons]
    omega
  · exact ⟨m, v, by omega, by omega, rfl⟩

/-- **The loop that replaces**, after the part `p` of the buffer. -/
theorem replaceLoop_of_replaces {n : ℕ} (h : Replaces mch rpl n t u) (hmch : mch ≠ [])
    (ht : nul ∉ t) {fuel : ℕ} (hfuel : n < fuel) (p v : Text)
    (hroom : u.length ≤ t.length + v.length) :
    ∃ v', replaceLoop mch rpl fuel p.length (p ++ (t ++ nul :: v)) = some (p ++ (u ++ nul :: v')) ∧
      u.length + v'.length = t.length + v.length := by
  -- the induction is on the occurrences: what is done is a part of `p` for the next one
  induction h generalizing fuel p v with
  | @none t hfound =>
    obtain ⟨fuel, rfl⟩ : ∃ k, fuel = k + 1 := ⟨fuel - 1, by omega⟩
    refine ⟨v, ?_, rfl⟩
    rw [replaceLoop, stringAt_append ht, Option.bind_some, hfound]
  | @some n a t t' hfound hrest ih =>
    obtain ⟨fuel, rfl⟩ : ∃ k, fuel = k + 1 := ⟨fuel - 1, by omega⟩
    have hnul : nul ∉ mch ∧ nul ∉ t := by
      simp only [List.mem_append, not_or] at ht
      exact ht.2
    -- the result of the rest is longer exactly when a single replacement is
    have hroom' : rpl.length ≤ mch.length + v.length ∧
        t'.length + rpl.length ≤ t.length + mch.length + v.length := by
      have hlength := hrest.length_eq
      simp only [List.length_append] at hroom
      rcases le_total mch.length rpl.length with hle | hle
      · have hmul := Nat.mul_le_mul_left n hle
        omega
      · omega
    -- the rest is moved, and the word is replaced in the hole that is left
    obtain ⟨hole, v₁, hhole, hv₁, hmove⟩ := moveRest_append (p := p ++ a) (v := v) hnul.1 hnul.2
      hmch hroom'.1
    have hwrite := write_append hhole.symm (p ++ a) (t ++ nul :: v₁)
    obtain ⟨v', hloop, hv'⟩ := ih hnul.2 (by omega : n < fuel) (p ++ a ++ rpl) v₁ (by omega)
    refine ⟨v', ?_, ?_⟩
    · rw [List.length_append] at hmove hwrite
      rw [List.length_append, List.length_append] at hloop
      simp only [List.append_assoc] at hmove hwrite hloop
      rw [replaceLoop, stringAt_append ht, Option.bind_some, hfound]
      dsimp only
      simp only [List.append_assoc]
      rw [hmove, Option.bind_some, hwrite, Option.bind_some, hloop]
    · simp only [List.length_append]
      omega

/-- The copy of a string into a buffer. -/
theorem strcpy_eq {new : Text} (h : old.length < new.length) :
    ∃ v, strcpy new old = some (old ++ nul :: v) ∧ old.length + 1 + v.length = new.length := by
  have hlength : (old ++ [nul]).length = (new.take (old.length + 1)).length := by
    rw [List.length_take, List.length_append, List.length_singleton]
    omega
  have hwrite := write_append hlength [] (new.drop (old.length + 1))
  rw [List.nil_append, List.nil_append, List.take_append_drop] at hwrite
  refine ⟨new.drop (old.length + 1), ?_, ?_⟩
  · rw [strcpy, ← List.length_nil (α := Char), hwrite]
    simp
  · rw [List.length_drop]
    omega

theorem strcpy_eq_none {new : Text} (h : new.length ≤ old.length) : strcpy new old = none := by
  refine write_eq_none new.length.zero_le ?_
  rw [List.length_append, List.length_singleton]
  omega

/-- What comes of a replacement in a buffer of `new.length` characters: when the result does not fit,
the size that is needed, and the buffer is kept; when the result fits but the string itself does
not, the buffer is overrun; otherwise the buffer starts with the result. -/
structure Replaced (new old result : Text) (outcome : Option (ℤ × Option Text)) : Prop where
  needed : new.length ≤ result.length → outcome = some ((result.length : ℤ) + 1, some new)
  overrun : result.length < new.length → new.length ≤ old.length → outcome = none
  done : result.length < new.length → old.length < new.length →
    ∃ rest, outcome = some (0, some (result ++ nul :: rest)) ∧
      result.length + 1 + rest.length = new.length

theorem replaced_simplyCopy (new old : Text) :
    Replaced new old old (simplyCopy new new.length old) where
  needed := fun h => if_pos (by omega)
  overrun := by omega
  done := by
    intro h _
    obtain ⟨v, hcopy, hv⟩ := strcpy_eq h
    refine ⟨v, ?_, hv⟩
    rw [simplyCopy, if_neg (by omega), hcopy]
    rfl

theorem replace_some (new : Text) (old mch rpl : Text) :
    replace (some new) new.length (some old) (some mch) (some rpl) =
      if mch = [] then simplyCopy new new.length old
      else if countMatches mch (old.length + 1) old = 0 then simplyCopy new new.length old
      else if (new.length : ℤ) ≤ old.length +
          ((rpl.length : ℤ) - mch.length) * countMatches mch (old.length + 1) old then
        some (old.length + ((rpl.length : ℤ) - mch.length) *
          countMatches mch (old.length + 1) old + 1, some new)
      else ((strcpy new old).bind (replaceLoop mch rpl (old.length + 1) 0)).map
        fun b => (0, some b) := by
  rw [replace, if_neg (by omega)]
  rfl

/-- The size that is computed is the length of the result. -/
theorem nlen_eq {n : ℕ} (h : Replaces mch rpl n t u) :
    (t.length : ℤ) + ((rpl.length : ℤ) - mch.length) * n = u.length := by
  have hlength : (u.length : ℤ) + n * mch.length = t.length + n * rpl.length := by
    exact_mod_cast h.length_eq
  rw [Int.sub_mul, Int.mul_comm rpl.length, Int.mul_comm mch.length]
  omega

/-- Nothing is replaced, or every match is. -/
theorem replace_cases (new : Text) {old : Text} (mch rpl : Text) :
    (replaceAll mch rpl old = old ∧ replace (some new) new.length (some old) (some mch) (some rpl) =
      simplyCopy new new.length old) ∨
    ∃ n, mch ≠ [] ∧ n < old.length + 1 ∧ Replaces mch rpl n old (replaceAll mch rpl old) ∧
      replace (some new) new.length (some old) (some mch) (some rpl) =
        if new.length ≤ (replaceAll mch rpl old).length then
          some (((replaceAll mch rpl old).length : ℤ) + 1, some new)
        else ((strcpy new old).bind (replaceLoop mch rpl (old.length + 1) 0)).map
          fun b => (0, some b) := by
  rw [replace_some]
  by_cases hmch : mch = []
  · exact Or.inl ⟨by rw [replaceAll, if_pos hmch], if_pos hmch⟩
  obtain ⟨n, hreplaces⟩ := exists_replaces hmch rpl old
  -- the fuel of the two loops is more than the number of the matches
  have hn : n < old.length + 1 := by
    have hmul : n * 1 ≤ n * mch.length := Nat.mul_le_mul_left n (List.length_pos_iff.mpr hmch)
    have hle := hreplaces.mul_length_le
    omega
  rw [if_neg hmch, countMatches_of_replaces hreplaces hn, nlen_eq hreplaces]
  generalize replaceAll mch rpl old = result at hreplaces ⊢
  by_cases hcount : n = 0
  · subst hcount
    cases hreplaces
    exact Or.inl ⟨rfl, if_pos rfl⟩
  · rw [if_neg hcount]
    exact Or.inr ⟨n, hmch, hn, hreplaces, if_congr Int.ofNat_le rfl rfl⟩

section Lengths

variable (new : Text) {old : Text} (mch rpl : Text)

/-- A result that does not fit. -/
theorem replace_of_length_le (h : new.length ≤ (replaceAll mch rpl old).length) :
    replace (some new) new.length (some old) (some mch) (some rpl) =
      some (((replaceAll mch rpl old).length : ℤ) + 1, some new) := by
  rcases replace_cases new mch rpl with ⟨hsame, hreplace⟩ | ⟨n, -, -, -, hreplace⟩
  · rw [hsame] at h ⊢
    rw [hreplace, (replaced_simplyCopy new old).needed h]
  · rw [hreplace, if_pos h]

/-- A result that fits, of a string that does not: the copy of the string overruns the buffer. -/
theorem replace_of_overrun (h : (replaceAll mch rpl old).length < new.length)
    (hold : new.length ≤ old.length) :
    replace (some new) new.length (some old) (some mch) (some rpl) = none := by
  rcases replace_cases new mch rpl with ⟨hsame, -⟩ | ⟨n, -, -, -, hreplace⟩
  · rw [hsame] at h
    omega
  · rw [hreplace, if_neg (not_le.mpr h), strcpy_eq_none hold]
    rfl

/-- A result that fits, of a string that fits. -/
theorem replace_of_lt (hnul : nul ∉ old) (h : (replaceAll mch rpl old).length < new.length)
    (hold : old.length < new.length) :
    ∃ rest, replace (some new) new.length (some old) (some mch) (some rpl) =
        some (0, some (replaceAll mch rpl old ++ nul :: rest)) ∧
      (replaceAll mch rpl old).length + 1 + rest.length = new.length := by
  rcases replace_cases new mch rpl with ⟨hsame, hreplace⟩ | ⟨n, hmch, hn, hreplaces, hreplace⟩
  · rw [hsame] at h ⊢
    rw [hreplace]
    exact (replaced_simplyCopy new old).done h hold
  · obtain ⟨v, hcopy, hv⟩ := strcpy_eq hold
    obtain ⟨v', hloop, hv'⟩ := replaceLoop_of_replaces hreplaces hmch hnul hn [] v (by omega)
    rw [List.nil_append, List.nil_append, List.length_nil] at hloop
    refine ⟨v', ?_, by omega⟩
    rw [hreplace, if_neg (not_le.mpr h), hcopy, Option.bind_some, hloop]
    rfl

end Lengths

end Replace

end Avetti.Jsvc
