import Avetti.Text.Basic

/-!
# Strings in a buffer

A buffer holds characters; a string in it starts at some place and goes on to the character NUL. An
access out of the bounds of the buffer has no result, and so has a string without an end.

## Main definitions

* `Buffer.strlen b p`, `Buffer.stringAt b p`: the string at a place, and its length
* `Buffer.write b p t`: the characters of `t` are put from a place on
* `Buffer.moveRight`, `Buffer.moveLeft`: the rest of a string is moved, character by character

## Main results

* `Buffer.stringAt_append`: the string at a place
* `Buffer.write_append`: what a write leaves
* `Buffer.moveRight_append`, `Buffer.moveLeft_append`: what a move leaves
-/

namespace Buffer

/-- The end of a string. -/
def nul : Char := '\x00'

/-- The length of the string at a place. -/
def strlen (b : Text) (p : ℕ) : Option ℕ := (b.drop p).findIdx? (· = nul)

/-- The string at a place. -/
def stringAt (b : Text) (p : ℕ) : Option Text := (strlen b p).map fun n => (b.drop p).take n

/-- One character is put at a place. -/
def store (b : Text) (i : ℕ) (c : Char) : Option Text :=
  if i < b.length then some (b.set i c) else none

/-- The characters of a text are put from a place on. -/
def write (b : Text) (p : ℕ) : Text → Option Text
  | [] => some b
  | c :: t => (store b p c).bind fun b => write b (p + 1) t

/-- One character is put where another one is read. -/
def copy (b : Text) (dst src : ℕ) : Option Text := b[src]?.bind fun c => store b dst c

/-- The characters at `p + 1`, ..., `p + n` are moved `d` places to the right, the last one first. -/
def moveRight (p d : ℕ) : ℕ → Text → Option Text
  | 0, b => some b
  | n + 1, b => (copy b (p + (n + 1) + d) (p + (n + 1))).bind (moveRight p d n)

/-- The characters from `p + x` on are moved `d` places to the left, the first one first, while `x`
is less than the length of the string at `p`, which is taken each time, and `d`. The first argument
bounds the number of steps. -/
def moveLeft (p d : ℕ) : ℕ → ℕ → Text → Option Text
  | 0, _, _ => none
  | fuel + 1, x, b =>
    (strlen b p).bind fun n =>
      if x < n + d then (copy b (p + x - d) (p + x)).bind (moveLeft p d fuel (x + 1)) else some b

variable {b b' : Text} {p : ℕ}

/-! ## Strings -/

theorem strlen_eq_some_iff {n : ℕ} :
    strlen b p = some n ↔ b[p + n]? = some nul ∧ ∀ j < n, b[p + j]? ≠ some nul := by
  rw [strlen, List.findIdx?_eq_some_iff_getElem]
  constructor
  · rintro ⟨hlt, hnul, hne⟩
    rw [decide_eq_true_eq] at hnul
    refine ⟨?_, fun j hj hget => ?_⟩
    · rw [← List.getElem?_drop, List.getElem?_eq_getElem hlt, hnul]
    · rw [← List.getElem?_drop, List.getElem?_eq_getElem (hj.trans hlt)] at hget
      exact hne j hj (decide_eq_true (Option.some.inj hget))
  · rintro ⟨hnul, hne⟩
    rw [← List.getElem?_drop] at hnul
    obtain ⟨hlt, hnul⟩ := List.getElem?_eq_some_iff.mp hnul
    refine ⟨hlt, decide_eq_true hnul, fun j hj hget => hne j hj ?_⟩
    rw [← List.getElem?_drop, List.getElem?_eq_getElem (hj.trans hlt), of_decide_eq_true hget]

theorem strlen_append {u t v : Text} (ht : nul ∉ t) :
    strlen (u ++ (t ++ nul :: v)) u.length = some t.length := by
  rw [strlen_eq_some_iff]
  constructor
  · simp
  · intro j hj hget
    rw [List.getElem?_append_right (by omega), Nat.add_sub_cancel_left,
      List.getElem?_append_left hj] at hget
    exact ht (List.mem_of_getElem? hget)

/-- **The string at a place.** -/
theorem stringAt_append {u t v : Text} (ht : nul ∉ t) :
    stringAt (u ++ (t ++ nul :: v)) u.length = some t := by
  rw [stringAt, strlen_append ht, Option.map_some, List.drop_left, List.take_left]

/-! ## Writes -/

theorem store_append {u v : Text} (c d : Char) :
    store (u ++ d :: v) u.length c = some (u ++ c :: v) := by
  rw [store, if_pos (by simp), List.set_append_right _ _ le_rfl, Nat.sub_self]
  rfl

/-- **What a write leaves.** -/
theorem write_append {t old : Text} (h : t.length = old.length) (u v : Text) :
    write (u ++ (old ++ v)) u.length t = some (u ++ (t ++ v)) := by
  -- one character after the other, each of which then belongs to what stands before
  induction t generalizing u old with
  | nil =>
    obtain rfl := List.length_eq_zero_iff.mp h.symm
    rfl
  | cons c t ih =>
    obtain ⟨d, old, rfl⟩ := List.exists_cons_of_length_eq_add_one h.symm
    have hnext := ih (Nat.succ.inj h) (u ++ [c])
    rw [List.length_append, List.length_singleton, List.append_assoc, List.append_assoc] at hnext
    rw [write, List.cons_append, store_append, Option.bind_some]
    exact hnext

/-- A write that does not fit. -/
theorem write_eq_none {t : Text} (hp : p ≤ b.length) (h : b.length < p + t.length) :
    write b p t = none := by
  induction t generalizing b p with
  | nil =>
    rw [List.length_nil] at h
    omega
  | cons c t ih =>
    rw [List.length_cons] at h
    rw [write, store]
    split_ifs with hlt
    · exact ih (by rw [List.length_set]; omega) (by rw [List.length_set]; omega)
    · rfl

/-! ## Moves -/

theorem exists_copy {dst src : ℕ} {c : Char} (hdst : dst < b.length) (hsrc : b[src]? = some c) :
    ∃ b', copy b dst src = some b' ∧ b'.length = b.length ∧
      ∀ i, b'[i]? = if i = dst then some c else b[i]? := by
  refine ⟨b.set dst c, ?_, List.length_set, fun i => ?_⟩
  · rw [copy, hsrc, Option.bind_some, store, if_pos hdst]
  · rw [List.getElem?_set]
    by_cases hi : i = dst
    · rw [if_pos hi.symm, if_pos hi, if_pos hdst]
    · rw [if_neg (Ne.symm hi), if_neg hi]

/-- The characters after a move to the right. -/
theorem exists_moveRight {d n : ℕ} (hd : 0 < d) (h : p + n + d < b.length) :
    ∃ b', moveRight p d n b = some b' ∧ b'.length = b.length ∧
      ∀ i, b'[i]? = if p + d < i ∧ i ≤ p + d + n then b[i - d]? else b[i]? := by
  -- the last character is moved first, and the induction does the others
  induction n generalizing b with
  | zero =>
    refine ⟨b, rfl, rfl, fun i => ?_⟩
    rw [if_neg (by omega)]
  | succ n ih =>
    have hsrc : p + (n + 1) < b.length := by omega
    obtain ⟨b₁, hcopy, hlength, hget⟩ := exists_copy h (List.getElem?_eq_getElem hsrc)
    obtain ⟨b₂, hmove, hlength', hget'⟩ := ih (b := b₁) (by omega)
    refine ⟨b₂, ?_, by omega, fun i => ?_⟩
    · rw [moveRight, hcopy, Option.bind_some, hmove]
    · -- the places that are read are left of the one that is written
      rw [hget', hget, hget]
      by_cases hi : i = p + (n + 1) + d
      · subst hi
        rw [if_neg (by omega), if_pos rfl, if_pos (by omega), Nat.add_sub_cancel,
          List.getElem?_eq_getElem hsrc]
      · by_cases hmoved : p + d < i ∧ i ≤ p + d + n
        · rw [if_pos hmoved, if_neg (by omega), if_pos (by omega)]
        · rw [if_neg hmoved, if_neg hi, if_neg (by omega)]

/-- The characters after a move to the left: the end of the string is moved as the last one. -/
theorem exists_moveLeft {d n x fuel : ℕ} (hd : 0 < d) (hdx : d ≤ x) (hxn : x ≤ n)
    (hn : strlen b p = some n) (hfuel : n - x + 2 ≤ fuel) :
    ∃ b', moveLeft p d fuel x b = some b' ∧ b'.length = b.length ∧
      ∀ i, b'[i]? = if p + x - d ≤ i ∧ i ≤ p + n - d then b[i + d]? else b[i]? := by
  -- the loop measures the string again in each round, so its length is a part of the induction
  induction fuel generalizing x b with
  | zero => omega
  | succ fuel ih =>
    obtain ⟨hnul, hne⟩ := strlen_eq_some_iff.mp hn
    have hlt : p + n < b.length := (List.getElem?_eq_some_iff.mp hnul).1
    have hsrc : p + x < b.length := by omega
    have hdst : p + x - d < b.length := by omega
    obtain ⟨b₁, hcopy, hlength, hget⟩ := exists_copy hdst (List.getElem?_eq_getElem hsrc)
    rw [← List.getElem?_eq_getElem hsrc] at hget
    have hstep : moveLeft p d (fuel + 1) x b = moveLeft p d fuel (x + 1) b₁ := by
      rw [moveLeft, hn, Option.bind_some, if_pos (by omega), hcopy, Option.bind_some]
    rw [hstep]
    rcases hxn.lt_or_eq with hxn | rfl
    · -- the string is as long as before
      have hn₁ : strlen b₁ p = some n := by
        refine strlen_eq_some_iff.mpr ⟨?_, fun j hj => ?_⟩
        · rw [hget, if_neg (by omega), hnul]
        · rw [hget]
          split_ifs
          · exact hne x hxn
          · exact hne j hj
      obtain ⟨b₂, hmove, hlength', hget'⟩ := ih (by omega) hxn hn₁ (by omega)
      refine ⟨b₂, hmove, by omega, fun i => ?_⟩
      rw [hget', hget, hget]
      by_cases hi : i = p + x - d
      · subst hi
        rw [if_neg (by omega), if_pos rfl, if_pos (by omega), Nat.sub_add_cancel (by omega)]
      · by_cases hmoved : p + (x + 1) - d ≤ i ∧ i ≤ p + n - d
        · rw [if_pos hmoved, if_neg (by omega), if_pos (by omega)]
        · rw [if_neg hmoved, if_neg hi, if_neg (by omega)]
    · -- the end of the string is moved, and the loop ends
      have hn₁ : strlen b₁ p = some (x - d) := by
        refine strlen_eq_some_iff.mpr ⟨?_, fun j hj => ?_⟩
        · rw [hget, if_pos (by omega), hnul]
        · rw [hget, if_neg (by omega)]
          exact hne j (by omega)
      refine ⟨b₁, ?_, hlength, fun i => ?_⟩
      · obtain ⟨fuel, rfl⟩ : ∃ k, fuel = k + 1 := ⟨fuel - 1, by omega⟩
        rw [moveLeft, hn₁, Option.bind_some, if_neg (by omega)]
      · rw [hget]
        by_cases hi : i = p + x - d
        · subst hi
          rw [if_pos rfl, if_pos (by omega), Nat.sub_add_cancel (by omega)]
        · rw [if_neg hi, if_neg (by omega)]

section Rest

variable {u m t v : Text} {k : ℕ}

/-- A buffer that starts with `u`, and has `w` after `k` further characters. -/
theorem exists_append {w : Text} (hlength : u.length + k + w.length ≤ b.length)
    (hu : ∀ i < u.length, b[i]? = u[i]?) (hw : ∀ j < w.length, b[u.length + k + j]? = w[j]?) :
    ∃ old v', old.length = k ∧ b = u ++ (old ++ (w ++ v')) := by
  -- the buffer is cut at the three places, and each part is known by its characters
  have htake : b.take u.length = u := by
    refine List.ext_getElem? fun i => ?_
    rw [List.getElem?_take]
    split_ifs with hi
    · exact hu i hi
    · exact (List.getElem?_eq_none (by omega)).symm
  have hmiddle : (b.drop (u.length + k)).take w.length = w := by
    refine List.ext_getElem? fun j => ?_
    rw [List.getElem?_take, List.getElem?_drop]
    split_ifs with hj
    · exact hw j hj
    · exact (List.getElem?_eq_none (by omega)).symm
  refine ⟨(b.drop u.length).take k, b.drop (u.length + k + w.length), ?_, ?_⟩
  · rw [List.length_take, List.length_drop]
    omega
  · rw [← List.drop_drop, ← List.drop_drop]
    conv_lhs => rw [← List.take_append_drop u.length b, htake,
      ← List.take_append_drop k (b.drop u.length),
      ← List.take_append_drop w.length ((b.drop u.length).drop k)]
    rw [List.drop_drop, hmiddle]

/-- The characters of `u ++ (m ++ (t ++ nul :: v))` behind `m`. -/
theorem getElem?_rest {j : ℕ} (hj : j < (t ++ [nul]).length) :
    (u ++ (m ++ (t ++ nul :: v)))[u.length + m.length + j]? = (t ++ [nul])[j]? := by
  have happend : t ++ nul :: v = (t ++ [nul]) ++ v := by simp
  rw [List.getElem?_append_right (by omega), List.getElem?_append_right (by omega), happend,
    List.getElem?_append_left (by omega)]
  congr 1
  omega

/-- **What a move to the right leaves**: room for `k` characters before the rest of the string. -/
theorem moveRight_append (hm : m ≠ []) (hk : m.length < k) (hroom : k - m.length ≤ v.length) :
    ∃ old v', old.length = k ∧ k + v'.length = m.length + v.length ∧
      moveRight u.length (k - m.length) (m.length + t.length) (u ++ (m ++ (t ++ nul :: v))) =
        some (u ++ (old ++ (t ++ nul :: v'))) := by
  have hpos := List.length_pos_iff.mpr hm
  have hlength : (u ++ (m ++ (t ++ nul :: v))).length =
      u.length + m.length + t.length + 1 + v.length := by
    simp only [List.length_append, List.length_cons]
    omega
  obtain ⟨b', hmove, hlength', hget⟩ := exists_moveRight (p := u.length) (n := m.length + t.length)
    (b := u ++ (m ++ (t ++ nul :: v))) (d := k - m.length) (by omega) (by omega)
  obtain ⟨old, v', hold, rfl⟩ := exists_append (b := b') (u := u) (k := k) (w := t ++ [nul])
    (by rw [hlength', hlength, List.length_append, List.length_singleton]; omega)
    (fun i hi => by rw [hget, if_neg (by omega), List.getElem?_append_left hi])
    (fun j hj => by
      have hj' : j ≤ t.length := by simpa [Nat.lt_succ_iff] using hj
      rw [hget, if_pos (by omega), ← getElem?_rest (u := u) (m := m) (v := v) hj]
      congr 1
      omega)
  rw [hlength] at hlength'
  simp only [List.length_append, List.length_singleton] at hlength'
  exact ⟨old, v', hold, by omega, by rw [hmove]; simp⟩

/-- **What a move to the left leaves**: `k` characters before the rest of the string. -/
theorem moveLeft_append (hm : nul ∉ m) (ht : nul ∉ t) (hk : k < m.length) {fuel : ℕ}
    (hfuel : t.length + 2 ≤ fuel) :
    ∃ old v', old.length = k ∧ k + v'.length = m.length + v.length ∧
      moveLeft u.length (m.length - k) fuel m.length (u ++ (m ++ (t ++ nul :: v))) =
        some (u ++ (old ++ (t ++ nul :: v'))) := by
  have hlength : (u ++ (m ++ (t ++ nul :: v))).length =
      u.length + m.length + t.length + 1 + v.length := by
    simp only [List.length_append, List.length_cons]
    omega
  have hstrlen : strlen (u ++ (m ++ (t ++ nul :: v))) u.length = some (m.length + t.length) := by
    have hmt : nul ∉ m ++ t := by simp [hm, ht]
    rw [← List.append_assoc m, strlen_append hmt, List.length_append]
  obtain ⟨b', hmove, hlength', hget⟩ := exists_moveLeft (d := m.length - k) (x := m.length)
    (by omega) (by omega) (by omega) hstrlen (by omega : _ ≤ fuel)
  obtain ⟨old, v', hold, rfl⟩ := exists_append (b := b') (u := u) (k := k) (w := t ++ [nul])
    (by rw [hlength', hlength, List.length_append, List.length_singleton]; omega)
    (fun i hi => by rw [hget, if_neg (by omega), List.getElem?_append_left hi])
    (fun j hj => by
      have hj' : j ≤ t.length := by simpa [Nat.lt_succ_iff] using hj
      rw [hget, if_pos (by omega), ← getElem?_rest (u := u) (m := m) (v := v) hj]
      congr 1
      omega)
  rw [hlength] at hlength'
  simp only [List.length_append, List.length_singleton] at hlength'
  exact ⟨old, v', hold, by omega, by rw [hmove]; simp⟩

end Rest

end Buffer
