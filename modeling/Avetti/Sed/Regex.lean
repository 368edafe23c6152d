import Avetti.Text.Basic
import Mathlib.Data.List.Forall2

/-!
# Basic regular expressions

The basic regular expressions of POSIX without anchors, groups and intervals, in the C locale: a
sequence of items, each of which matches one character, or any number of characters when it is
starred. The pattern space is one line, so that no item matches a newline.

## Main definitions

* `Regex`: regular expressions
* `Regex.longest r t`: the length of the longest match of `r` at the start of `t`
* `Regex.parse t`: the regular expression that is written `t`

## Main results

* `Regex.longest_append_cons`: a match ends before a character that the expression avoids
* `Regex.longest_plain_append`, `Regex.exists_of_longest_plain`: the matches of an expression
  without stars
* `Regex.isSome_longest_append`: a match at the start of a text stays one when the text goes on
-/

/-- What matches one character: the character itself, any character, or the characters of some
ranges, or outside them. -/
inductive Atom where
  | char (c : Char)
  | any
  | set (negated : Bool) (ranges : List (Char × Char))
  deriving DecidableEq, Repr

/-- An atom, or any number of its matches. -/
structure Item where
  atom : Atom
  starred : Bool
  deriving DecidableEq, Repr

/-- A regular expression. -/
abbrev Regex := List Item

namespace Atom

/-- The atom matches the character. -/
def accepts (a : Atom) (c : Char) : Bool :=
  c ≠ '\n' && match a with
    | char d => c = d
    | any => true
    | set negated ranges => ranges.any (fun r => r.1 ≤ c && c ≤ r.2) ≠ negated

@[simp] theorem accepts_char {c d : Char} : (char d).accepts c = (c ≠ '\n' ∧ c = d) := by
  simp [accepts]

@[simp] theorem accepts_any {c : Char} : any.accepts c = (c ≠ '\n') := by
  simp [accepts]

@[simp] theorem not_accepts_newline (a : Atom) : a.accepts '\n' = false := rfl

end Atom

namespace Regex

/-! ## Matches -/

/-- The longer of two matches. -/
def longer : Option ℕ → Option ℕ → Option ℕ
  | none, n => n
  | some m, none => some m
  | some m, some n => some (max m n)

/-- Any number of matches of an atom, and then the longest match `rest` finds. -/
def star (a : Atom) (rest : Text → Option ℕ) : Text → Option ℕ
  | [] => rest []
  | c :: t => longer (rest (c :: t)) (if a.accepts c then (star a rest t).map (· + 1) else none)

/-- The length of the longest match at the start of a text. -/
def longest : Regex → Text → Option ℕ
  | [], _ => some 0
  | ⟨a, true⟩ :: r, t => star a (longest r) t
  | ⟨_, false⟩ :: _, [] => none
  | ⟨a, false⟩ :: r, c :: t => if a.accepts c then (longest r t).map (· + 1) else none

/-- No atom of the expression matches the character. -/
def Avoids (r : Regex) (d : Char) : Prop := ∀ i ∈ r, i.atom.accepts d = false

instance (r : Regex) (d : Char) : Decidable (r.Avoids d) :=
  inferInstanceAs (Decidable (∀ i ∈ r, i.atom.accepts d = false))

theorem avoids_newline (r : Regex) : r.Avoids '\n' := fun i _ => i.atom.not_accepts_newline

theorem longer_le {m n : Option ℕ} {b k : ℕ} (hm : ∀ k, m = some k → k ≤ b)
    (hn : ∀ k, n = some k → k ≤ b) (h : longer m n = some k) : k ≤ b := by
  rcases m with _ | m
  · exact hn k h
  · rcases n with _ | n
    · exact hm k h
    · have hk : max m n = k := Option.some.inj h
      have := hm m rfl
      have := hn n rfl
      omega

theorem star_le {a : Atom} {rest : Text → Option ℕ}
    (hrest : ∀ t k, rest t = some k → k ≤ t.length) (t : Text) :
    ∀ k, star a rest t = some k → k ≤ t.length := by
  induction t with
  | nil => exact hrest []
  | cons c t ih =>
    intro k h
    refine longer_le (hrest (c :: t)) (fun n hn => ?_) h
    split_ifs at hn
    · obtain ⟨n', hn', rfl⟩ := Option.map_eq_some_iff.mp hn
      have := ih n' hn'
      simpa using this

/-- A match is no longer than the text. -/
theorem longest_le (r : Regex) : ∀ t k, longest r t = some k → k ≤ t.length := by
  induction r with
  | nil =>
    intro t k h
    cases h
    exact Nat.zero_le _
  | cons i r ih =>
    obtain ⟨a, starred⟩ := i
    intro t k h
    cases starred with
    | true => exact star_le ih t k h
    | false =>
      rcases t with _ | ⟨c, t⟩
      · cases h
      · rw [longest] at h
        split_ifs at h
        · obtain ⟨n, hn, rfl⟩ := Option.map_eq_some_iff.mp h
          have := ih t n hn
          simpa using this

theorem star_append_cons {a : Atom} {rest : Text → Option ℕ} {d : Char} {t : Text}
    (ha : a.accepts d = false) (hrest : ∀ l, rest (l ++ d :: t) = rest l) (l : Text) :
    star a rest (l ++ d :: t) = star a rest l := by
  induction l with
  | nil =>
    have h := hrest []
    rw [List.nil_append] at h
    have hstar : star a rest (d :: t) = longer (rest (d :: t)) none := by
      rw [star, if_neg (by simp [ha])]
    rw [List.nil_append, hstar, star, h]
    cases rest [] <;> rfl
  | cons c l ih =>
    have h := hrest (c :: l)
    rw [List.cons_append] at h
    rw [List.cons_append, star, star, ih, h]

/-- A match ends before a character that the expression avoids. -/
theorem longest_append_cons {r : Regex} {d : Char} (hr : r.Avoids d) (l t : Text) :
    longest r (l ++ d :: t) = longest r l := by
  induction r generalizing l with
  | nil => rfl
  | cons i r ih =>
    obtain ⟨a, starred⟩ := i
    have ha : a.accepts d = false := hr ⟨a, starred⟩ List.mem_cons_self
    have hr' : Avoids r d := fun i hi => hr i (List.mem_cons_of_mem _ hi)
    cases starred with
    | true => exact star_append_cons ha (ih hr') l
    | false =>
      rcases l with _ | ⟨c, l⟩
      · simp [longest, ha]
      · rw [List.cons_append, longest, longest, ih hr']

theorem isSome_longer (m n : Option ℕ) : (longer m n).isSome = (m.isSome || n.isSome) := by
  cases m <;> cases n <;> rfl

theorem isSome_star_of_isSome {a : Atom} {rest : Text → Option ℕ} {t : Text}
    (h : (rest t).isSome = true) : (star a rest t).isSome = true := by
  cases t with
  | nil => exact h
  | cons c t => rw [star, isSome_longer, h, Bool.true_or]

theorem isSome_star_append {a : Atom} {rest : Text → Option ℕ} {t : Text}
    (hrest : ∀ l, (rest l).isSome = true → (rest (l ++ t)).isSome = true) (l : Text)
    (h : (star a rest l).isSome = true) : (star a rest (l ++ t)).isSome = true := by
  induction l with
  | nil => exact isSome_star_of_isSome (hrest [] h)
  | cons c l ih =>
    rw [star, isSome_longer, Bool.or_eq_true] at h
    rcases h with h | h
    · exact isSome_star_of_isSome (hrest (c :: l) h)
    · rw [List.cons_append, star, isSome_longer, Bool.or_eq_true]
      right
      split_ifs at h ⊢
      · rw [Option.isSome_map] at h ⊢
        exact ih h
      · cases h

/-- A match at the start of a text stays one when the text goes on. -/
theorem isSome_longest_append {r : Regex} {l : Text} (t : Text)
    (h : (longest r l).isSome = true) : (longest r (l ++ t)).isSome = true := by
  induction r generalizing l with
  | nil => rfl
  | cons i r ih =>
    obtain ⟨a, starred⟩ := i
    cases starred with
    | true => exact isSome_star_append (fun l hl => ih hl) l h
    | false =>
      rcases l with _ | ⟨c, l⟩
      · cases h
      · rw [List.cons_append, longest]
        rw [longest] at h
        split_ifs at h ⊢
        · rw [Option.isSome_map] at h ⊢
          exact ih h
        · cases h

/-- A match of an expression that starts with two characters. -/
theorem prefix_of_longest {c d : Char} {r : Regex} {t : Text} {n : ℕ}
    (h : longest (⟨.char c, false⟩ :: ⟨.char d, false⟩ :: r) t = some n) :
    [c, d] <+: t ∧ 0 < n := by
  rcases t with _ | ⟨c', _ | ⟨d', t⟩⟩
  · cases h
  · rw [longest] at h
    split_ifs at h
    cases h
  · rw [longest] at h
    split_ifs at h with hc
    rw [longest] at h
    split_ifs at h with hd
    · obtain ⟨m, -, rfl⟩ := Option.map_eq_some_iff.mp h
      rw [Atom.accepts_char] at hc hd
      rw [hc.2, hd.2]
      exact ⟨⟨t, rfl⟩, Nat.succ_pos m⟩
    · cases h

/-! ## Expressions without stars -/

/-- The expression that matches the atoms one after the other. -/
def plain (as : List Atom) : Regex := as.map fun a => ⟨a, false⟩

theorem longest_plain_append {as : List Atom} {m : Text}
    (h : List.Forall₂ (fun a c => a.accepts c = true) as m) (t : Text) :
    longest (plain as) (m ++ t) = some m.length := by
  induction h with
  | nil => rfl
  | cons hac _ ih =>
    rw [List.cons_append, plain, List.map_cons, longest, if_pos hac]
    rw [plain] at ih
    rw [ih]
    rfl

theorem exists_of_longest_plain {as : List Atom} {t : Text} {n : ℕ}
    (h : longest (plain as) t = some n) :
    ∃ m b, t = m ++ b ∧ m.length = n ∧ List.Forall₂ (fun a c => a.accepts c = true) as m := by
  induction as generalizing t n with
  | nil =>
    cases h
    exact ⟨[], t, rfl, rfl, .nil⟩
  | cons a as ih =>
    rcases t with _ | ⟨c, t⟩
    · cases h
    · rw [plain, List.map_cons, longest] at h
      split_ifs at h with hac
      · obtain ⟨n', hn', rfl⟩ := Option.map_eq_some_iff.mp h
        obtain ⟨m, b, rfl, rfl, hm⟩ := ih hn'
        exact ⟨c :: m, b, rfl, rfl, .cons hac hm⟩

/-! ## Syntax -/

/-- The ranges of a character class. -/
def classRanges (name : Text) : Option (List (Char × Char)) :=
  if name = "upper".toList then some [('A', 'Z')]
  else if name = "lower".toList then some [('a', 'z')]
  else if name = "alpha".toList then some [('A', 'Z'), ('a', 'z')]
  else if name = "digit".toList then some [('0', '9')]
  else if name = "alnum".toList then some [('0', '9'), ('A', 'Z'), ('a', 'z')]
  else if name = "xdigit".toList then some [('0', '9'), ('A', 'F'), ('a', 'f')]
  else if name = "space".toList then some [('\t', '\r'), (' ', ' ')]
  else if name = "blank".toList then some [('\t', '\t'), (' ', ' ')]
  else if name = "punct".toList then
    some [('!', '/'), (':', '@'), ('[', '\x60'), ('\x7b', '~')]
  else if name = "graph".toList then some [('!', '~')]
  else if name = "print".toList then some [(' ', '~')]
  else if name = "cntrl".toList then some [('\x00', '\x1f'), ('\x7f', '\x7f')]
  else none

/-- An end of a range in a bracket expression, and what follows it. What a backslash or a slash
stands for there is not read. -/
def rangeEnd : Text → Option (Char × Text)
  | '[' :: '.' :: c :: '.' :: ']' :: t => if c ∈ "\\/".toList then none else some (c, t)
  | '[' :: d :: t => if d ∈ ".=:".toList then none else some ('[', d :: t)
  | c :: t => if c ∈ "\\/".toList then none else some (c, t)
  | [] => none

/-- The ranges of a class in a bracket expression, and what follows it. -/
def bracketClass : Text → Option (List (Char × Char) × Text)
  | '[' :: '=' :: c :: '=' :: ']' :: t => if c ∈ "\\/".toList then none else some ([(c, c)], t)
  | '[' :: ':' :: t => do
    let name := t.takeWhile (· ≠ ':')
    let ranges ← classRanges name
    if ":]".toList.isPrefixOf (t.drop name.length) then
      return (ranges, t.drop (name.length + 2))
    else none
  | _ => none

/-- A minus that would make a range out of what is no end of one. -/
def strayMinus : Text → Bool
  | '-' :: c :: _ => c ≠ ']'
  | _ => false

/-- The ranges of a bracket expression up to its closing bracket, and what follows it. A bracket
that comes first stands for itself. -/
def brackets (first : Bool) : ℕ → Text → Option (List (Char × Char) × Text)
  | 0, _ => none
  | n + 1, t =>
    if t.head? = some ']' ∧ ¬ first then some ([], t.tail)
    else if "[:".toList.isPrefixOf t || "[=".toList.isPrefixOf t then do
      let (ranges, t) ← bracketClass t
      if strayMinus t then none
      else
        let (rest, t) ← brackets false n t
        return (ranges ++ rest, t)
    else do
      let (lo, t) ← rangeEnd t
      match t with
      | '-' :: t' =>
        if t'.head? = some ']' then
          let (rest, t) ← brackets false n t
          return ((lo, lo) :: rest, t)
        else
          let (hi, t) ← rangeEnd t'
          if lo ≤ hi ∧ ¬ strayMinus t then
            let (rest, t) ← brackets false n t
            return ((lo, hi) :: rest, t)
          else none
      | _ =>
        let (rest, t) ← brackets false n t
        return ((lo, lo) :: rest, t)

/-- A bracket expression after its opening bracket, and what follows it. -/
def bracketed : Text → Option (Atom × Text)
  | '^' :: t => (brackets true (t.length + 1) t).map fun (ranges, t) => (.set true ranges, t)
  | t => (brackets true (t.length + 1) t).map fun (ranges, t) => (.set false ranges, t)

/-- The characters that stand for themselves after a backslash. -/
def specials : Text := ".*[]^$/\\"

/-- The items of a pattern after one more of its constructs, the last item first, and what follows
it. A star that comes first stands for itself, and one after a star is refused. -/
def readItem (read : Regex) (c : Char) (t : Text) : Option (Regex × Text) :=
  if c = '*' then
    match read with
    | [] => some ([⟨.char '*', false⟩], t)
    | i :: read => if i.starred then none else some (⟨i.atom, true⟩ :: read, t)
  else if c = '.' then some (⟨.any, false⟩ :: read, t)
  else if c = '[' then (bracketed t).map fun (a, t) => (⟨a, false⟩ :: read, t)
  else if c = '\\' then
    match t with
    | d :: t => if d ∈ specials then some (⟨.char d, false⟩ :: read, t) else none
    | [] => none
  else if c = '^' ∧ read = [] ∨ c = '$' ∧ t = [] then none
  else some (⟨.char c, false⟩ :: read, t)

/-- The items of a pattern, after those that are read. -/
def items : ℕ → Regex → Text → Option Regex
  | _, read, [] => some read.reverse
  | 0, _, _ :: _ => none
  | n + 1, read, c :: t => do
    let (read, t) ← readItem read c t
    items n read t

/-- The regular expression that is written so. There is none for a text that is no regular
expression, has an anchor, a group, an interval or a back-reference, or matches the empty text. -/
def parse (t : Text) : Option Regex :=
  match items t.length [] t with
  | some r => if r.all (·.starred) then none else some r
  | none => none

/-- The atom that a character without a special meaning stands for. -/
def atomOf (c : Char) : Atom := if c = '.' then .any else .char c

theorem items_cons {c : Char} {t : Text} {n : ℕ} {read : Regex} (hc : c ∉ "*[\\".toList)
    (hstart : c = '^' → read ≠ []) (hstop : c = '$' → t ≠ []) :
    items (n + 1) read (c :: t) = items n (⟨atomOf c, false⟩ :: read) t := by
  simp only [show "*[\\".toList = ['*', '[', '\\'] from rfl, List.mem_cons, List.not_mem_nil,
    or_false, not_or] at hc
  have hanchor : ¬ (c = '^' ∧ read = [] ∨ c = '$' ∧ t = []) := by
    rintro (⟨h, hread⟩ | ⟨h, ht⟩)
    · exact hstart h hread
    · exact hstop h ht
  have hread : readItem read c t = some (⟨atomOf c, false⟩ :: read, t) := by
    simp only [readItem, hc, if_false, if_neg hanchor, atomOf]
    split_ifs <;> rfl
  rw [items, hread]
  rfl

theorem accepts_atomOf {c : Char} (hc : c ≠ '\n') : (atomOf c).accepts c = true := by
  unfold atomOf
  split_ifs <;> simp [Atom.accepts, hc]

/-- A text without newlines matches itself, read character by character. -/
theorem forall₂_atomOf {t : Text} (ht : '\n' ∉ t) :
    List.Forall₂ (fun a c => a.accepts c = true) (t.map atomOf) t := by
  rw [List.forall₂_map_left_iff, List.forall₂_same]
  exact fun c hc => accepts_atomOf fun h => ht (h ▸ hc)

/-- Characters that are neither a star nor start an escape or a bracket expression are read one by
one, inside a pattern. -/
theorem items_append {t s : Text} (ht : ∀ c ∈ t, c ∉ "*[\\".toList) (hs : s ≠ []) (n : ℕ)
    {read : Regex} (hread : read ≠ []) :
    items (t.length + n) read (t ++ s) = items n ((plain (t.map atomOf)).reverse ++ read) s := by
  induction t generalizing read with
  | nil => simp [plain]
  | cons c t ih =>
    have hstep : items ((c :: t).length + n) read (c :: t ++ s) =
        items (t.length + n) (⟨atomOf c, false⟩ :: read) (t ++ s) := by
      rw [List.length_cons, show t.length + 1 + n = t.length + n + 1 by omega, List.cons_append]
      exact items_cons (ht c List.mem_cons_self) (fun _ => hread) fun _ => by simp [hs]
    rw [hstep, ih (fun d hd => ht d (List.mem_cons_of_mem _ hd)) (by simp)]
    simp [plain]

/-- A pattern of characters that are neither a star nor start an escape or a bracket expression, and
with no anchor at its ends, is read one by one. -/
theorem parse_of_ordinary {c d : Char} {t : Text} (hc : c ∉ "*[\\^".toList)
    (hd : d ∉ "*[\\$".toList) (ht : ∀ c ∈ t, c ∉ "*[\\".toList) :
    parse (c :: (t ++ [d])) = some (plain ((c :: (t ++ [d])).map atomOf)) := by
  have hitems : items (c :: (t ++ [d])).length [] (c :: (t ++ [d])) =
      some (plain ((c :: (t ++ [d])).map atomOf)) := by
    rw [List.length_cons, List.length_append, List.length_singleton,
      items_cons (fun h => hc (List.mem_append_left ['^'] h))
        (fun h => absurd (h ▸ by decide) hc) (fun _ => by simp),
      items_append ht (by simp) 1 (by simp),
      items_cons (fun h => hd (List.mem_append_left ['$'] h)) (fun _ => by simp)
        (fun h => absurd (h ▸ by decide) hd), items]
    simp [plain]
  rw [parse, hitems]
  simp [plain]

/-- A pattern that is read is the items of its characters. -/
theorem items_of_parse {t : Text} {r : Regex} (h : parse t = some r) :
    items t.length [] t = some r := by
  unfold parse at h
  split at h
  · next r' hr' =>
    rw [hr']
    split_ifs at h
    exact h
  · cases h

/-- A star changes the item before it, and everything else adds an item. -/
theorem tail_of_readItem {read read' : Regex} {c : Char} {t t' : Text}
    (h : readItem read c t = some (read', t')) : read'.tail = read ∨ read'.tail = read.tail := by
  unfold readItem at h
  split_ifs at h
  · cases read with
    | nil =>
      cases h
      exact Or.inl rfl
    | cons i read =>
      simp only [Option.ite_none_left_eq_some, Option.some.injEq, Prod.mk.injEq] at h
      rw [← h.2.1]
      exact Or.inr rfl
  · cases h
    exact Or.inl rfl
  · obtain ⟨⟨a, u⟩, -, hr⟩ := Option.map_eq_some_iff.mp h
    cases hr
    exact Or.inl rfl
  · rcases t with _ | ⟨d, t⟩
    · cases h
    · simp only [Option.ite_none_right_eq_some, Option.some.injEq, Prod.mk.injEq] at h
      rw [← h.2.1]
      exact Or.inl rfl
  · cases h
    exact Or.inl rfl

/-- Only the last item that is read can still change. -/
theorem prefix_of_items {n : ℕ} {read r : Regex} {t : Text} (h : items n read t = some r) :
    read.tail.reverse <+: r := by
  induction n generalizing read t with
  | zero =>
    rcases t with _ | ⟨c, t⟩
    · cases h
      rcases read with _ | ⟨i, read⟩
      · exact List.prefix_rfl
      · simp
    · cases h
  | succ n ih =>
    rcases t with _ | ⟨c, t⟩
    · cases h
      rcases read with _ | ⟨i, read⟩
      · exact List.prefix_rfl
      · simp
    · obtain ⟨⟨read', t'⟩, hread, h⟩ := Option.bind_eq_some_iff.mp h
      have hbegins := ih h
      rcases tail_of_readItem hread with htail | htail
      · -- an item is added, and the one before it is fixed now
        rw [htail] at hbegins
        refine List.IsPrefix.trans ?_ hbegins
        rcases read with _ | ⟨i, read⟩
        · exact List.prefix_rfl
        · simp
      · rwa [htail] at hbegins

/-- What a pattern begins with is read character by character, but for the last one, which a star
can follow. -/
theorem prefix_of_parse {c : Char} {w s : Text} {r : Regex} (hc : c ∉ "*[\\^".toList)
    (hw : ∀ d ∈ w, d ∉ "*[\\".toList) (hs : s ≠ []) (h : parse (c :: (w ++ s)) = some r) :
    (plain ((c :: w).map atomOf)).dropLast <+: r := by
  have hitems := items_of_parse h
  have hread : items s.length ((plain ((c :: w).map atomOf)).reverse) s = some r := by
    rw [List.length_cons, List.length_append,
      items_cons (fun hmem => hc (List.mem_append_left ['^'] hmem))
        (fun heq => absurd (heq ▸ by decide) hc) (fun _ => by simp [hs]),
      items_append hw hs _ (by simp)] at hitems
    simpa [plain] using hitems
  have hbegins := prefix_of_items hread
  rwa [List.tail_reverse, List.reverse_reverse] at hbegins

/-- The first character of a pattern is an item of its own, when no star follows it. -/
theorem exists_of_parse_cons_cons {c d : Char} {t : Text} {r : Regex} (hc : c ∉ "*[\\.^$".toList)
    (hd : d ∉ "*[\\$".toList) (h : parse (c :: d :: t) = some r) :
    ∃ r', r = ⟨.char c, false⟩ :: r' := by
  have hitems := items_of_parse h
  have hc' : c ∉ "*[\\".toList ∧ c ≠ '.' ∧ c ≠ '^' ∧ c ≠ '$' := by
    simpa [not_or, and_assoc] using hc
  have hd' : d ∉ "*[\\".toList ∧ d ≠ '$' := by
    simpa [not_or, and_assoc] using hd
  obtain ⟨hspecial, hdot, hcaret, hdollar⟩ := hc'
  rw [List.length_cons, items_cons hspecial (fun heq => absurd heq hcaret)
      (fun heq => absurd heq hdollar), List.length_cons,
    items_cons hd'.1 (fun _ => by simp) (fun heq => absurd heq hd'.2)] at hitems
  obtain ⟨r', hr'⟩ := prefix_of_items hitems
  have hatom : atomOf c = .char c := if_neg hdot
  refine ⟨r', ?_⟩
  rw [← hr', ← hatom]
  rfl

end Regex
