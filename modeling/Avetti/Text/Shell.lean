import Avetti.Text.Basic

/-!
# Words of the shell

An unquoted expansion is split into words at the characters of `IFS`, and a word with `*`, `?` or
`[` is a pattern for pathnames. `echo` joins its words with blanks; with `-e` it also interprets
escape sequences.

## Main definitions

* `Shell.words ifs t`: the words of an unquoted expansion
* `Shell.isPattern w`: the word is a pattern for pathnames
* `Shell.unquoted glob ifs t`: the words of an unquoted expansion, with their pathnames
* `Shell.hasWildcard w`: the word can match another pathname than itself
* `Shell.Matching`: what a shell matches with the components of a pattern
* `Shell.unescape`: the escape sequences of `echo -e`
* `Shell.echo ws`: the output of `echo` with the words `ws`

## Main results

* `Shell.isWord_of_mem_words`: the words of a text are words
* `Shell.words_chomp`, `Shell.words_unlines`: the words of a command substitution are the lines of
  the output, when each of them is a word
* `Shell.echo_of_head`: `echo` with a first word that is no option prints its words
* `Shell.words_intercalate`: the words of joined words are these words
* `Shell.exists_last_word`: where the last word of a text stands
-/

namespace Shell

/-- The blank, the tab and the newline: `IFS` as a shell starts with it. -/
def defaultIFS : List Char := [' ', '\t', '\n']

/-- The words of an unquoted expansion. -/
def words (ifs : List Char) (t : Text) : List Text :=
  (t.splitOnP (· ∈ ifs)).filter (· ≠ [])

/-- The word is a pattern for pathnames. -/
def isPattern (w : Text) : Bool := w.any (· ∈ ['*', '?', '['])

/-- The pathnames an unquoted word stands for, where `glob` gives the pathnames that match a
pattern; a pattern that matches nothing stands for itself. -/
def expand (glob : Text → List Text) (w : Text) : List Text :=
  if isPattern w ∧ glob w ≠ [] then glob w else [w]

/-- The words of an unquoted expansion, with their pathnames. -/
def unquoted (glob : Text → List Text) (ifs : List Char) (t : Text) : List Text :=
  (words ifs t).flatMap (expand glob)

/-- The text goes on with the `]` of a bracket expression. A backslash takes the next character, and
no expression goes over a `/`. -/
def closes : Text → Bool
  | [] => false
  | '\\' :: c :: t => c ≠ '/' && closes t
  | c :: t => c = ']' || (c ≠ '/' && closes t)

/-- The text after `[` closes a bracket expression that is not empty. -/
def closesBracket : Text → Bool
  | '!' :: t => closesSet t
  | '^' :: t => closesSet t
  | t => closesSet t
where
  /-- A `]` at the beginning is a character of the set. -/
  closesSet : Text → Bool
    | ']' :: t => closes t
    | t => closes t

/-- The word can match another pathname than itself: it has `*`, `?` or a bracket expression, and no
backslash takes it. Which characters the expression has is not looked at. -/
def hasWildcard : Text → Bool
  | [] => false
  | '\\' :: _ :: t => hasWildcard t
  | c :: t => c = '*' || c = '?' || (c = '[' && closesBracket t) || hasWildcard t

/-- The words without a wildcard match no other pathname than themselves. -/
def MatchesItself (glob : Text → List Text) : Prop :=
  ∀ w, hasWildcard w = false → glob w = [] ∨ glob w = [w]

theorem MatchesItself.expand_eq {glob : Text → List Text} (hglob : MatchesItself glob) {w : Text}
    (hw : hasWildcard w = false) : expand glob w = [w] := by
  unfold expand
  split_ifs with h
  · exact (hglob w hw).resolve_left h.2
  · rfl

/-- A word with a wildcard is a pattern. -/
theorem isPattern_of_hasWildcard {w : Text} (hw : hasWildcard w = true) : isPattern w = true := by
  fun_induction hasWildcard w with
  | case1 => cases hw
  | case2 c t ih =>
    have ht := ih hw
    rw [isPattern, List.any_eq_true] at ht ⊢
    obtain ⟨a, ha, hspecial⟩ := ht
    exact ⟨a, List.mem_cons_of_mem _ (List.mem_cons_of_mem c ha), hspecial⟩
  | case3 c t _ ih =>
    rw [Bool.or_eq_true] at hw
    rw [isPattern, List.any_cons, Bool.or_eq_true]
    rcases hw with hw | hw
    · left
      simp only [Bool.or_eq_true, Bool.and_eq_true, decide_eq_true_eq] at hw
      rcases hw with (rfl | rfl) | ⟨rfl, -⟩ <;> decide
    · exact Or.inr (ih hw)

/-- No bracket expression goes over a slash. -/
theorem closes_append_slash {c t : Text} (hc : '/' ∉ c) : closes (c ++ '/' :: t) = closes c := by
  fun_induction closes c with
  | case1 => simp [closes]
  | case2 a c ih =>
    have hc' : '/' ∉ c := fun h => hc (by simp [h])
    simp [closes, ih hc']
  | case3 a c hother ih =>
    have hc' : '/' ∉ c := fun h => hc (by simp [h])
    rcases c with _ | ⟨b, c⟩
    · by_cases ha : a = '\\' <;> simp [closes, ha]
    · have ha : a ≠ '\\' := fun ha => hother b c ha rfl
      have hih := ih hc'
      rw [List.cons_append] at hih ⊢
      simp [closes, ha, hih]

theorem closesBracket_append_slash {c t : Text} (hc : '/' ∉ c) :
    closesBracket (c ++ '/' :: t) = closesBracket c := by
  have hset : ∀ {u : Text}, '/' ∉ u →
      closesBracket.closesSet (u ++ '/' :: t) = closesBracket.closesSet u := by
    intro u hu
    rcases u with _ | ⟨a, u⟩
    · simp [closesBracket.closesSet, closes]
    · by_cases ha : a = ']'
      · subst ha
        exact closes_append_slash fun h => hu (List.mem_cons_of_mem _ h)
      · have hclose := closes_append_slash (t := t) hu
        rw [List.cons_append] at hclose ⊢
        simpa [closesBracket.closesSet, ha] using hclose
  rcases c with _ | ⟨a, c⟩
  · simp [closesBracket, closesBracket.closesSet, closes]
  · have hc' : '/' ∉ c := fun h => hc (List.mem_cons_of_mem _ h)
    by_cases hbang : a = '!'
    · subst hbang
      exact hset hc'
    by_cases hcaret : a = '^'
    · subst hcaret
      exact hset hc'
    · have hclose := hset hc
      rw [List.cons_append] at hclose ⊢
      simpa [closesBracket, hbang, hcaret] using hclose

/-- A wildcard stands in one component. -/
theorem hasWildcard_append_slash {c t : Text} (hc : '/' ∉ c) :
    hasWildcard (c ++ '/' :: t) = (hasWildcard c || hasWildcard t) := by
  fun_induction hasWildcard c with
  | case1 => simp [hasWildcard]
  | case2 a c ih =>
    have hc' : '/' ∉ c := fun h => hc (by simp [h])
    simp [hasWildcard, ih hc']
  | case3 a c hother ih =>
    have hc' : '/' ∉ c := fun h => hc (by simp [h])
    rcases c with _ | ⟨b, c⟩
    · by_cases ha : a = '\\' <;>
        simp [hasWildcard, ha, closesBracket, closesBracket.closesSet, closes]
    · have ha : a ≠ '\\' := fun ha => hother b c ha rfl
      have hih := ih hc'
      have hbracket := closesBracket_append_slash (t := t) hc'
      rw [List.cons_append] at hih hbracket ⊢
      simp [hasWildcard, ha, hih, hbracket, Bool.or_assoc]

/-! ## Echo -/

/-- The value of a digit in base `b`. -/
def digit (b : ℕ) (c : Char) : Option ℕ :=
  let v := if c.isDigit then c.toNat - '0'.toNat
    else if c.isUpper then c.toNat - 'A'.toNat + 10
    else if c.isLower then c.toNat - 'a'.toNat + 10
    else b
  if v < b then some v else none

/-- At most `n` leading digits in base `b`: how many there are, their value, and the rest. -/
def digits (b : ℕ) : ℕ → Text → ℕ → ℕ × ℕ × Text
  | 0, t, v => (0, v, t)
  | _ + 1, [], v => (0, v, [])
  | n + 1, c :: t, v =>
    match digit b c with
    | some d => let (k, r) := digits b n t (b * v + d); (k + 1, r)
    | none => (0, v, c :: t)

/-- One escape sequence, after its backslash: the characters it stands for and the rest, or `none`
for `\c`, which ends the output. -/
def escape : Text → Option (Text × Text)
  | [] => some (['\\'], [])
  | 'a' :: t => some (['\x07'], t)
  | 'b' :: t => some (['\x08'], t)
  | 'c' :: _ => none
  | 'e' :: t => some (['\x1b'], t)
  | 'E' :: t => some (['\x1b'], t)
  | 'f' :: t => some (['\x0c'], t)
  | 'n' :: t => some (['\n'], t)
  | 'r' :: t => some (['\r'], t)
  | 't' :: t => some (['\t'], t)
  | 'v' :: t => some (['\x0b'], t)
  | '\\' :: t => some (['\\'], t)
  | '0' :: t => let (_, v, r) := digits 8 3 t 0; some ([Char.ofNat (v % 256)], r)
  | 'x' :: t => coded 'x' 2 t
  | 'u' :: t => coded 'u' 4 t
  | 'U' :: t => coded 'U' 8 t
  | c :: t => some (['\\', c], t)
where
  /-- A hexadecimal code of at most `n` digits; without any digit the sequence stands for itself. -/
  coded (c : Char) (n : ℕ) (t : Text) : Option (Text × Text) :=
    match digits 16 n t 0 with
    | (0, _, _) => some (['\\', c], t)
    | (_, v, r) => some ([Char.ofNat v], r)

/-- The escape sequences of `echo -e` interpreted, with fuel for the length of the text, and
whether the output goes on to its end. -/
def unescapeAux : ℕ → Text → Text × Bool
  | 0, _ => ([], true)
  | _ + 1, [] => ([], true)
  | n + 1, '\\' :: t =>
    match escape t with
    | none => ([], false)
    | some (u, r) => let (v, b) := unescapeAux n r; (u ++ v, b)
  | n + 1, c :: t => let (v, b) := unescapeAux n t; (c :: v, b)

/-- The escape sequences of `echo -e` interpreted, and whether the output goes on to its end. -/
def unescape (t : Text) : Text × Bool := unescapeAux (t.length + 1) t

/-- The words that `echo` takes as options. -/
def isEchoOption : Text → Bool
  | '-' :: cs => cs ≠ [] ∧ ∀ c ∈ cs, c ∈ ['n', 'e', 'E']
  | _ => false

/-- The output of `echo` on its operands, with the newline (`n`) and the escapes (`e`) as the
options before them have set them. -/
def echoWith (n e : Bool) (ws : List Text) : Text :=
  let t := [' '].intercalate ws
  let (u, toEnd) := if e then unescape t else (t, true)
  if n && toEnd then u ++ ['\n'] else u

/-- The options of `echo` read in order. -/
def echoOptions (n e : Bool) : List Text → Text
  | [] => echoWith n e []
  | w :: ws =>
    if isEchoOption w then
      echoOptions (n && 'n' ∉ w)
        ((w.filter fun c => c = 'e' ∨ c = 'E').getLast?.elim e (· = 'e')) ws
    else echoWith n e (w :: ws)

/-- The output of `echo`. -/
def echo (ws : List Text) : Text := echoOptions true false ws

/-- `echo` with a first word that is no option prints its words. -/
theorem echo_of_head {w : Text} {ws : List Text} (hw : isEchoOption w = false) :
    echo (w :: ws) = [' '].intercalate (w :: ws) ++ ['\n'] := by
  simp [echo, echoOptions, hw, echoWith]

/-! ## Words -/

/-- A word contains no character of `IFS`. -/
theorem not_mem_of_mem_words {ifs : List Char} {t w : Text} {c : Char} (hc : c ∈ ifs)
    (hw : w ∈ words ifs t) : c ∉ w := by
  intro hcw
  have h := Text.not_of_mem_splitOnP (List.mem_of_mem_filter hw) c hcw
  simp [hc] at h

theorem occurs_of_mem_words {ifs : List Char} {t w : Text} (hw : w ∈ words ifs t) :
    Text.Occurs w t := Text.occurs_of_mem_splitOnP (List.mem_of_mem_filter hw)

/-- A word: not empty, and without the characters of `IFS`. -/
structure IsWord (ifs : List Char) (w : Text) : Prop where
  ne_nil : w ≠ []
  not_mem : ∀ c ∈ ifs, c ∉ w

theorem isWord_of_mem_words {ifs : List Char} {t w : Text} (hw : w ∈ words ifs t) : IsWord ifs w :=
  ⟨by simpa using (List.mem_filter.mp hw).2, fun _ hc => not_mem_of_mem_words hc hw⟩

section IsWord

variable {ifs : List Char} {w : Text}

theorem IsWord.not_separator (hw : IsWord ifs w) : ∀ c ∈ w, decide (c ∈ ifs) = false := by
  intro c hc
  exact decide_eq_false fun hifs => hw.not_mem c hifs hc

theorem words_append_cons (hw : IsWord ifs w) {c : Char} (hc : c ∈ ifs) (t : Text) :
    words ifs (w ++ c :: t) = w :: words ifs t := by
  have hsplit : (w ++ c :: t).splitOnP (· ∈ ifs) = w :: t.splitOnP (· ∈ ifs) :=
    List.splitOnP_append_cons_of_forall_mem hw.not_separator c (decide_eq_true hc) t
  rw [words, hsplit, List.filter_cons_of_pos (by simp [hw.ne_nil])]
  rfl

theorem words_of_isWord (hw : IsWord ifs w) : words ifs w = [w] := by
  rw [words, List.splitOnP_eq_singleton hw.not_separator]
  simp [hw.ne_nil]

/-- The words on both sides of a separator. -/
theorem words_append_separator {c : Char} (hc : c ∈ ifs) (t u : Text) :
    words ifs (t ++ c :: u) = words ifs t ++ words ifs u := by
  have hsplit : (t ++ c :: u).splitOnP (· ∈ ifs) = t.splitOnP (· ∈ ifs) ++ u.splitOnP (· ∈ ifs) :=
    List.splitOnP_append_cons t u (decide_eq_true hc)
  rw [words, hsplit, List.filter_append]
  rfl

theorem words_append_replicate {c : Char} (hc : c ∈ ifs) (t : Text) (n : ℕ) :
    words ifs (t ++ List.replicate n c) = words ifs t := by
  induction n with
  | zero => simp
  | succ n ih =>
    have hnil : words ifs [] = [] := rfl
    rw [List.replicate_succ', ← List.append_assoc, words_append_separator hc, hnil, ih,
      List.append_nil]

/-- The words of a command substitution are those of the output. -/
theorem words_chomp (hnl : '\n' ∈ ifs) (t : Text) : words ifs (Text.chomp t) = words ifs t := by
  obtain ⟨n, hn⟩ := Text.exists_chomp_append t
  conv_rhs => rw [hn]
  exact (words_append_replicate hnl _ n).symm

/-- The words of some lines, each of them a word, are the lines. -/
theorem words_unlines (hnl : '\n' ∈ ifs) {ls : List Text} (hls : ∀ l ∈ ls, IsWord ifs l) :
    words ifs (Text.unlines ls) = ls := by
  induction ls with
  | nil => rfl
  | cons l ls ih =>
    have hcons : Text.unlines (l :: ls) = l ++ '\n' :: Text.unlines ls := by
      simp [Text.unlines]
    rw [hcons, words_append_cons (hls l List.mem_cons_self) hnl,
      ih fun l' hl' => hls l' (List.mem_cons_of_mem l hl')]

/-- The words of some lines, when only newlines separate words: the lines that are not empty. -/
theorem words_unlines_newline {ls : List Text} (hls : ∀ l ∈ ls, '\n' ∉ l) :
    words ['\n'] (Text.unlines ls) = ls.filter (· ≠ []) := by
  induction ls with
  | nil => rfl
  | cons l ls ih =>
    have htail := ih fun l' hl' => hls l' (List.mem_cons_of_mem l hl')
    rw [Text.unlines_cons, words_append_separator List.mem_cons_self, htail]
    by_cases hl : l = []
    · rw [hl]
      rfl
    · have hword : IsWord ['\n'] l :=
        ⟨hl, fun c hc => List.mem_singleton.mp hc ▸ hls l List.mem_cons_self⟩
      rw [words_of_isWord hword, List.filter_cons_of_pos (by simpa using hl)]
      rfl

/-- Two separators that agree on a text give the same words. -/
theorem words_congr {ifs' : List Char} {t : Text} (h : ∀ c ∈ t, c ∈ ifs ↔ c ∈ ifs') :
    words ifs t = words ifs' t := by
  have hsplit : ∀ u : Text, (∀ c ∈ u, c ∈ ifs ↔ c ∈ ifs') →
      u.splitOnP (· ∈ ifs) = u.splitOnP (· ∈ ifs') := by
    intro u hu
    induction u with
    | nil => rfl
    | cons c u ih =>
      have hc : decide (c ∈ ifs) = decide (c ∈ ifs') :=
        decide_eq_decide.mpr (hu c List.mem_cons_self)
      rw [List.splitOnP_cons_eq_if_modifyHead, List.splitOnP_cons_eq_if_modifyHead, hc,
        ih fun c' hc' => hu c' (List.mem_cons_of_mem c hc')]
  rw [words, words, hsplit t h]

theorem exists_mem_words_iff {c : Char} {t : Text} (hc : c ∉ ifs) :
    (∃ w ∈ words ifs t, c ∈ w) ↔ c ∈ t := by
  have hsplit : ∀ u : Text, (∃ w ∈ u.splitOnP (· ∈ ifs), c ∈ w) ↔ c ∈ u := by
    intro u
    induction u with
    | nil => simp
    | cons a u ih =>
      obtain ⟨v, vs, hv⟩ := List.exists_cons_of_ne_nil (List.splitOnP_ne_nil (· ∈ ifs) u)
      rw [List.splitOnP_cons_eq_if_modifyHead]
      rw [hv] at ih ⊢
      split_ifs with ha
      · have hca : c ≠ a := fun h => hc (h ▸ of_decide_eq_true ha)
        simpa [hca] using ih
      · simp only [List.modifyHead_cons, List.mem_cons, exists_eq_or_imp] at ih ⊢
        rw [or_assoc, ih]
  rw [← hsplit t]
  constructor
  · rintro ⟨w, hw, hcw⟩
    exact ⟨w, List.mem_of_mem_filter hw, hcw⟩
  · rintro ⟨w, hw, hcw⟩
    exact ⟨w, List.mem_filter.mpr ⟨hw, by simpa using List.ne_nil_of_mem hcw⟩, hcw⟩

/-- The words of some words with a separator between them are the words. -/
theorem words_intercalate {d : Char} {ws : List Text} (hws : ∀ w ∈ ws, IsWord [d] w) :
    words [d] ([d].intercalate ws) = ws := by
  induction ws with
  | nil => rfl
  | cons w ws ih =>
    have hw : IsWord [d] w := hws w List.mem_cons_self
    rcases ws with _ | ⟨w', ws⟩
    · simpa using words_of_isWord hw
    · rw [List.intercalate_cons_cons, List.append_assoc, List.singleton_append,
        words_append_cons hw List.mem_cons_self, ih fun v hv => hws v (List.mem_cons_of_mem w hv)]

end IsWord

/-! ## One separator -/

section Separator

variable {d : Char} {t : Text}

theorem words_dropWhile (d : Char) (t : Text) : words [d] (t.dropWhile (· = d)) = words [d] t := by
  induction t with
  | nil => rfl
  | cons c t ih =>
    by_cases hc : c = d
    · rw [List.dropWhile_cons_of_pos (by simpa using hc), ih, hc]
      exact (words_append_separator List.mem_cons_self [] t).symm
    · rw [List.dropWhile_cons_of_neg (by simpa using hc)]

/-- The first word, and the words after it. -/
theorem words_eq_cons (ht : t.dropWhile (· = d) ≠ []) :
    words [d] t = (t.dropWhile (· = d)).takeWhile (· ≠ d) ::
      words [d] ((t.dropWhile (· = d)).dropWhile (· ≠ d)) := by
  obtain ⟨c, u, hu⟩ := List.exists_cons_of_ne_nil ht
  have hc : c ≠ d := by
    have hhead := List.head_dropWhile_not (· = d) ht
    simp only [hu, List.head_cons] at hhead
    simpa using hhead
  have hword : IsWord [d] ((c :: u).takeWhile (· ≠ d)) := by
    refine ⟨by simp [hc], fun e he hmem => ?_⟩
    have hne := List.mem_takeWhile_imp hmem
    simp [List.mem_singleton.mp he] at hne
  have happ := List.takeWhile_append_dropWhile (p := (· ≠ d)) (l := c :: u)
  rw [← words_dropWhile, hu]
  rcases hrest : (c :: u).dropWhile (· ≠ d) with _ | ⟨e, r⟩
  · -- the text is one word
    rw [hrest, List.append_nil] at happ
    conv_lhs => rw [← happ]
    rw [words_of_isWord hword]
    rfl
  · -- a separator ends the first word
    have he : e = d := by
      have hhead := List.head_dropWhile_not (· ≠ d) (hrest ▸ List.cons_ne_nil e r)
      simp only [hrest, List.head_cons] at hhead
      simpa using hhead
    rw [hrest, he] at happ
    conv_lhs => rw [← happ]
    rw [words_append_cons hword List.mem_cons_self, he]
    exact congrArg _ (words_append_separator List.mem_cons_self [] r).symm

theorem words_eq_nil_iff : words [d] t = [] ↔ t.dropWhile (· = d) = [] := by
  constructor
  · intro h
    by_contra ht
    rw [words_eq_cons ht] at h
    cases h
  · intro h
    rw [← words_dropWhile, h]
    rfl

/-- A text has a wildcard when one of its components has. -/
theorem exists_hasWildcard_of_hasWildcard {t : Text} (h : hasWildcard t = true) :
    ∃ w ∈ words ['/'] t, hasWildcard w = true := by
  induction hn : t.length using Nat.strong_induction_on generalizing t with
  | _ n ih =>
    by_cases hslash : '/' ∈ t
    · obtain ⟨c, u, rfl, hc⟩ := List.eq_append_cons_of_mem hslash
      rw [hasWildcard_append_slash hc, Bool.or_eq_true] at h
      rw [words_append_separator List.mem_cons_self]
      rcases h with h | h
      · obtain ⟨w, hw, hwild⟩ := ih c.length (by simp at hn; omega) h rfl
        exact ⟨w, List.mem_append_left _ hw, hwild⟩
      · obtain ⟨w, hw, hwild⟩ := ih u.length (by simp at hn; omega) h rfl
        exact ⟨w, List.mem_append_right _ hw, hwild⟩
    · have hne : t ≠ [] := by
        rintro rfl
        cases h
      have hword : IsWord ['/'] t := ⟨hne, fun c hc => List.mem_singleton.mp hc ▸ hslash⟩
      exact ⟨t, by rw [words_of_isWord hword]; exact List.mem_singleton_self t, h⟩

/-- The last word stands after a separator or at the beginning, and only separators follow it. -/
theorem exists_last_word (h : words [d] t ≠ []) :
    ∃ ws w pre n, words [d] t = ws ++ [w] ∧ IsWord [d] w ∧ t = pre ++ w ++ List.replicate n d ∧
      (pre = [] ∨ ∃ pre', pre = pre' ++ [d]) := by
  have hsep : t.rtakeWhile (· = d) = List.replicate (t.rtakeWhile (· = d)).length d :=
    List.eq_replicate_of_mem fun c hc => by simpa using List.mem_rtakeWhile_imp hc
  have ht : t.rdropWhile (· = d) ++ List.replicate (t.rtakeWhile (· = d)).length d = t := by
    rw [← hsep, List.rdropWhile_append_rtakeWhile]
  have hlast : ∀ hne, (t.rdropWhile (· = d)).getLast hne ≠ d := fun hne => by
    simpa using List.rdropWhile_last_not (· = d) t hne
  -- `v` is the text without the separators at its end
  generalize t.rdropWhile (· = d) = v, (t.rtakeWhile (· = d)).length = n at ht hlast
  subst ht
  rw [words_append_replicate List.mem_cons_self] at h ⊢
  have hne : v ≠ [] := by
    rintro rfl
    exact h rfl
  have hv : v.rdropWhile (· ≠ d) ++ v.rtakeWhile (· ≠ d) = v := List.rdropWhile_append_rtakeWhile
  have hword : IsWord [d] (v.rtakeWhile (· ≠ d)) := by
    refine ⟨fun hnil => ?_, fun c hc hmem => ?_⟩
    · exact (List.rtakeWhile_eq_nil_iff.mp hnil) hne (by simpa using hlast hne)
    · have hcd := List.mem_rtakeWhile_imp hmem
      simp [List.mem_singleton.mp hc] at hcd
  have hpre : v.rdropWhile (· ≠ d) = [] ∨ ∃ pre', v.rdropWhile (· ≠ d) = pre' ++ [d] := by
    rcases List.eq_nil_or_concat (v.rdropWhile (· ≠ d)) with hnil | ⟨pre', c, hc⟩
    · exact Or.inl hnil
    · rw [List.concat_eq_append] at hc
      have hcd := List.rdropWhile_last_not (· ≠ d) v (hc ▸ List.concat_ne_nil c pre')
      simp only [hc, List.getLast_concat] at hcd
      exact Or.inr ⟨pre', by rw [hc, show c = d by simpa using hcd]⟩
  generalize v.rdropWhile (· ≠ d) = pre, v.rtakeWhile (· ≠ d) = w at hv hword hpre
  subst hv
  rcases hpre with rfl | ⟨pre', rfl⟩
  · exact ⟨[], w, [], n, by rw [List.nil_append, words_of_isWord hword]; rfl, hword, rfl, Or.inl rfl⟩
  · refine ⟨words [d] pre', w, pre' ++ [d], n, ?_, hword, rfl, Or.inr ⟨pre', rfl⟩⟩
    rw [List.append_assoc, List.singleton_append, words_append_separator List.mem_cons_self,
      words_of_isWord hword]

end Separator

/-! ## Pathnames -/

/-- Which names a shell matches with a component of a pattern, in its locale and with its options. -/
structure Matching where
  Matches : Text → Text → Prop
  /-- Without a wildcard and a backslash a component matches no other name than itself. -/
  itself : ∀ {c d}, Matches c d → hasWildcard c = false → '\\' ∉ c → d = c
  isName : ∀ {c d}, Matches c d → IsWord ['/', '\n'] d

namespace Matching

/-- Every component matches only the name that it is. -/
def literal : Matching where
  Matches c d := d = c ∧ IsWord ['/', '\n'] d
  itself h _ _ := h.1
  isName h := h.2

/-- The pathnames that a directory has for each pattern: a name for each component, slashes where
the pattern has them, and no pathname twice. -/
structure Lists (m : Matching) (glob : Text → List Text) : Prop where
  itself : MatchesItself glob
  component : ∀ w, ∀ v ∈ glob w, List.Forall₂ m.Matches (words ['/'] w) (words ['/'] v)
  first : ∀ w, ∀ v ∈ glob w, v.head? = some '/' ↔ w.head? = some '/'
  last : ∀ w, ∀ v ∈ glob w, ['/'] <:+ v ↔ ['/'] <:+ w
  slashes : ∀ w, ∀ v ∈ glob w, ['/', '/'] <:+ v → ['/', '/'] <:+ w
  once : ∀ w, (glob w).Pairwise fun v v' => words ['/'] v ≠ words ['/'] v'

variable {m : Matching}

theorem lists_nil (m : Matching) : m.Lists fun _ => [] where
  itself _ _ := Or.inl rfl
  component := by rintro w v ⟨⟩
  first := by rintro w v ⟨⟩
  last := by rintro w v ⟨⟩
  slashes := by rintro w v ⟨⟩
  once _ := List.Pairwise.nil

/-- The names that the components of a pattern match. -/
theorem exists_forall₂ {ws : List Text} (h : ∀ c ∈ ws, ∃ d, m.Matches c d) :
    ∃ ds, List.Forall₂ m.Matches ws ds := by
  induction ws with
  | nil => exact ⟨[], List.Forall₂.nil⟩
  | cons c ws ih =>
    obtain ⟨d, hd⟩ := h c List.mem_cons_self
    obtain ⟨ds, hds⟩ := ih fun c' hc' => h c' (List.mem_cons_of_mem c hc')
    exact ⟨d :: ds, hds.cons hd⟩

section Forall₂

variable {ws ds : List Text}

theorem exists_of_forall₂ (h : List.Forall₂ m.Matches ws ds) : ∀ c ∈ ws, ∃ d, m.Matches c d := by
  intro c hc
  induction h with
  | nil => cases hc
  | cons hcd _ ih =>
    rcases List.mem_cons.mp hc with rfl | hc
    · exact ⟨_, hcd⟩
    · exact ih hc

theorem isWord_of_forall₂ (h : List.Forall₂ m.Matches ws ds) : ∀ d ∈ ds, IsWord ['/', '\n'] d := by
  intro d hd
  induction h with
  | nil => cases hd
  | cons hcd _ ih =>
    rcases List.mem_cons.mp hd with rfl | hd
    · exact m.isName hcd
    · exact ih hd

end Forall₂

end Matching

end Shell
