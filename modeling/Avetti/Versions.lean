import Avetti.Maintenance.VersionLoop
import Avetti.Maintenance.Shell
import Avetti.Setup.Requirements
import Mathlib.Data.List.Forall2

/-!
# The version in the shell and in the batch files

The scripts and the batch files derive the directory of a version from its path: the path that was
typed for an installation, or the path on the last line of `deploy.log`.

## Main definitions

* `VersionPath`: paths that may be typed
* `SameName m p`: `setup.sh` and the loop of the batch files find the last component of `p`, where
  the shell matches names as `m` does
* `DeployLog`: logs of deployments, with the paths on their lines
* `SameVersion d`: the scripts and the batch files read the version of the last line of `d`

## Main results

* `sameName_iff`: from which paths both find the last component
* `sameVersion_iff`: of which logs both read the version of the last line
-/

open Script

namespace Avetti

/-! ## Filters in a command substitution -/

section Echoed

variable {glob : Text → List Text} {filter : Text → Text} {x y : Text}

/-- A filter of what `echo` prints of `x` works on the line `y`. -/
def Prints (glob : Text → List Text) (x y : Text) : Prop :=
  ∀ filter : Text → Text, '\n' ∉ filter y → echoed glob filter x = filter y

/-- A line is one word, with the pathnames it stands for. -/
theorem unquoted_of_line (hne : x ≠ []) (hx : '\n' ∉ x) :
    Shell.unquoted glob ['\n'] x = Shell.expand glob x := by
  have hword : Shell.IsWord ['\n'] x := ⟨hne, fun c hc => List.mem_singleton.mp hc ▸ hx⟩
  rw [Shell.unquoted, Shell.words_of_isWord hword]
  simp

/-- Words of which the first is no option are printed with blanks between them. -/
theorem prints_of_unquoted {w : Text} {ws : List Text}
    (hwords : Shell.unquoted glob ['\n'] x = w :: ws) (hoption : Shell.isEchoOption w = false)
    (hnl : '\n' ∉ [' '].intercalate (w :: ws)) : Prints glob x ([' '].intercalate (w :: ws)) := by
  intro filter hfilter
  generalize hout : [' '].intercalate (w :: ws) = out at hnl hfilter ⊢
  have hline : out ++ ['\n'] = Text.unlines [out] := by simp [Text.unlines]
  rw [echoed, hwords, Shell.echo_of_head hoption, hout, hline,
    Text.lines_unlines (by simpa using hnl), List.map_singleton]
  exact Text.chomp_unlines_replicate hfilter 0

/-- What a line stands for is printed, unless it is an option. -/
theorem prints_of_expand (hne : x ≠ []) (hx : '\n' ∉ x) (hexpand : Shell.expand glob x = [y])
    (hy : '\n' ∉ y) (hoption : Shell.isEchoOption y = false) : Prints glob x y := by
  have hwords := (unquoted_of_line hne hx).trans hexpand
  have hprints := prints_of_unquoted hwords hoption (by rwa [List.intercalate_singleton])
  rwa [List.intercalate_singleton] at hprints

theorem expand_of_glob (hglob : glob x = []) : Shell.expand glob x = [x] := by
  simp [Shell.expand, hglob]

theorem prints_of_glob (hne : x ≠ []) (hx : '\n' ∉ x) (hglob : glob x = [])
    (hoption : Shell.isEchoOption x = false) : Prints glob x x :=
  prints_of_expand hne hx (expand_of_glob hglob) hx hoption

/-- Nothing that a filter could work on is printed. -/
def PrintsNothing (glob : Text → List Text) (x : Text) : Prop :=
  ∀ filter : Text → Text, filter [] = [] → echoed glob filter x = []

/-- `echo` without an operand prints an empty line or nothing. -/
theorem echoWith_nil (n e : Bool) : Shell.echoWith n e [] = [] ∨ Shell.echoWith n e [] = ['\n'] := by
  cases n <;> cases e <;> simp [Shell.echoWith, Shell.unescape, Shell.unescapeAux]

theorem printsNothing_of_echo (h : Shell.echo (Shell.unquoted glob ['\n'] x) = [] ∨
    Shell.echo (Shell.unquoted glob ['\n'] x) = ['\n']) : PrintsNothing glob x := by
  intro filter hfilter
  rcases h with hout | hout
  · rw [echoed, hout]
    rfl
  · have hlines : Text.lines ['\n'] = [[]] := by decide
    rw [echoed, hout, hlines, List.map_singleton, hfilter]
    rfl

theorem printsNothing_nil : PrintsNothing glob [] := printsNothing_of_echo (Or.inr rfl)

/-- A line that stands for an option prints nothing. -/
theorem printsNothing_of_expand (hne : x ≠ []) (hx : '\n' ∉ x) (hexpand : Shell.expand glob x = [y])
    (hoption : Shell.isEchoOption y = true) : PrintsNothing glob x := by
  refine printsNothing_of_echo ?_
  rw [unquoted_of_line hne hx, hexpand, Shell.echo, Shell.echoOptions, if_pos hoption]
  exact echoWith_nil _ _

theorem typedPath_of_printsNothing (h : PrintsNothing glob x) : typedPath glob x = [] := by
  rw [typedPath, h _ rfl, if_pos rfl, h _ rfl]

theorem codeOfPath_of_printsNothing (h : PrintsNothing glob x) : codeOfPath glob x = [] := by
  rw [codeOfPath, h _ rfl, if_pos rfl, h _ rfl]

/-- A word with a character that no option has. -/
theorem not_isEchoOption_of_mem {c : Char} (hx : c ∈ x) (hc : c ∉ ['-', 'n', 'e', 'E']) :
    Shell.isEchoOption x = false := by
  rcases x with _ | ⟨a, x⟩
  · cases hx
  · by_cases ha : a = '-'
    · subst ha
      rcases List.mem_cons.mp hx with rfl | hx
      · exact absurd List.mem_cons_self hc
      · simp only [Shell.isEchoOption, decide_eq_false_iff_not, not_and]
        exact fun _ h => hc (List.mem_cons_of_mem _ (h c hx))
    · simp [Shell.isEchoOption, ha]

/-- The path that goes on from the question, when `echo` prints a line. -/
theorem typedPath_of_prints (h : Prints glob x y) (hne : y ≠ []) (hnl : '\n' ∉ y) :
    typedPath glob x = if y.head? = some '/' then y.tail else x := by
  have hcut : '\n' ∉ Text.cut '/' 1 y := fun hmem => hnl (Text.cut_subset '/' 1 y hmem)
  rw [typedPath, h _ hcut]
  obtain ⟨c, t, rfl⟩ := List.exists_cons_of_ne_nil hne
  by_cases hc : c = '/'
  · subst hc
    have hsplit : ('/' :: t).splitOn '/' = [] :: t.splitOn '/' :=
      List.splitOn_append_cons_self_of_not_mem List.not_mem_nil t
    have hfirst : Text.cut '/' 1 ('/' :: t) = [] := by
      rw [Text.cut, if_pos List.mem_cons_self, hsplit]
      rfl
    have hrest : Text.cutFrom '/' 2 ('/' :: t) = t := by
      rw [Text.cutFrom, if_pos List.mem_cons_self, hsplit]
      exact List.intercalate_splitOn '/'
    rw [hfirst, if_pos rfl, if_pos (List.head?_cons ..),
      h _ (by rw [hrest]; exact fun hmem => hnl (List.mem_cons_of_mem _ hmem)), hrest,
      List.tail_cons]
  · have hfirst : Text.cut '/' 1 (c :: t) ≠ [] := by
      by_cases ht : '/' ∈ t
      · obtain ⟨f, u, rfl, hf⟩ := List.eq_append_cons_of_mem ht
        have hf' : '/' ∉ c :: f := by simp [Ne.symm hc, hf]
        rw [Text.cut, if_pos (List.mem_cons_of_mem c ht), ← List.cons_append,
          List.splitOn_append_cons_self_of_not_mem hf']
        exact List.cons_ne_nil c f
      · rw [Text.cut, if_neg (by simp [Ne.symm hc, ht])]
        exact List.cons_ne_nil c t
    rw [if_neg hfirst, if_neg (by simpa using hc)]

end Echoed

/-! ## The last component in setup.sh -/

/-- What stands before a component: nothing, or a text that ends with `/`. -/
def Before (pre : Text) : Prop := pre = [] ∨ ∃ pre', pre = pre' ++ ['/']

/-- The component that is read from a line. -/
def codeOfLine (line : Text) : Text := if codeOf 1 line = [] then codeOf 2 line else codeOf 1 line

theorem codeOf_one {pre w : Text} (hpre : Before pre) (hw : '/' ∉ w) : codeOf 1 (pre ++ w) = w := by
  have hw' : '/' ∉ w.reverse := by simpa using hw
  rcases hpre with rfl | ⟨pre, rfl⟩
  · simp [codeOf, Text.cut, hw]
  · have hrev : (pre ++ ['/'] ++ w).reverse = w.reverse ++ '/' :: pre.reverse := by simp
    rw [codeOf, Text.cut, if_pos (by simp), hrev, List.splitOn_append_cons_self_of_not_mem hw']
    simp

theorem codeOf_two {pre w : Text} (hpre : Before pre) (hw : '/' ∉ w) :
    codeOf 2 (pre ++ w ++ ['/']) = w := by
  have hw' : '/' ∉ w.reverse := by simpa using hw
  have hrev : (pre ++ w ++ ['/']).reverse = [] ++ '/' :: (w.reverse ++ pre.reverse) := by simp
  rw [codeOf, Text.cut, if_pos (by simp), hrev,
    List.splitOn_append_cons_self_of_not_mem (List.not_mem_nil)]
  rcases hpre with rfl | ⟨pre, rfl⟩
  · rw [List.reverse_nil, List.append_nil, List.splitOn_eq_singleton hw']
    simp
  · rw [List.reverse_append, List.reverse_singleton, List.singleton_append,
      List.splitOn_append_cons_self_of_not_mem hw']
    simp

theorem codeOfPath_of_prints {glob : Text → List Text} {x y : Text} (h : Prints glob x y)
    (hnl : '\n' ∉ y) : codeOfPath glob x = codeOfLine y := by
  have hcode : ∀ n, '\n' ∉ codeOf n y := fun n hmem => by
    rw [codeOf, List.mem_reverse] at hmem
    exact hnl (List.mem_reverse.mp (Text.cut_subset '/' n y.reverse hmem))
  rw [codeOfPath, h _ (hcode 1), h _ (hcode 2), codeOfLine]

section LastComponent

variable {name t u : Text}

/-- The last component, with what stands before it and the slashes after it. -/
theorem exists_eq_of_getLast?_components (h : (components t).getLast? = some name) :
    ∃ pre n, t = pre ++ name ++ List.replicate n '/' ∧ Before pre ∧ Shell.IsWord ['/'] name := by
  have hne : components t ≠ [] := fun hnil => by
    rw [hnil] at h
    cases h
  obtain ⟨ws, w, pre, n, hws, hw, ht, hpre⟩ := Shell.exists_last_word hne
  have hname : w = name := by
    rw [components, hws, List.getLast?_concat] at h
    exact Option.some.inj h
  exact ⟨pre, n, hname ▸ ht, hpre, hname ▸ hw⟩

/-- **The component that is read**: it is the last one when at most one slash follows it. -/
theorem codeOfLine_eq_iff (h : (components t).getLast? = some name) :
    codeOfLine t = name ↔ ¬ ['/', '/'] <:+ t := by
  obtain ⟨pre, n, ht, hpre, hword⟩ := exists_eq_of_getLast?_components h
  have hslash : '/' ∉ name := hword.not_mem '/' List.mem_cons_self
  -- the characters of a component are no slashes
  have hlast : ∀ u, u ++ ['/'] ≠ pre ++ name := by
    intro u hu
    have hgetLast := congrArg List.getLast? hu
    rw [List.getLast?_concat, List.getLast?_append_of_ne_nil _ hword.ne_nil] at hgetLast
    exact hslash (List.mem_of_getLast? hgetLast.symm)
  have hone : ∀ u, codeOf 1 (u ++ ['/']) = [] := fun u => by
    have hcode := codeOf_one (Or.inr ⟨u, rfl⟩) (List.not_mem_nil (a := '/'))
    rwa [List.append_nil] at hcode
  match n, ht with
  | 0, ht =>
    rw [List.replicate_zero, List.append_nil] at ht
    rw [codeOfLine, ht, codeOf_one hpre hslash, if_neg hword.ne_nil]
    refine iff_of_true rfl ?_
    rintro ⟨u, hu⟩
    exact hlast (u ++ ['/']) (by rw [← hu]; simp)
  | 1, ht =>
    rw [List.replicate_one] at ht
    rw [codeOfLine, ht, hone, if_pos rfl, codeOf_two hpre hslash]
    refine iff_of_true rfl ?_
    rintro ⟨u, hu⟩
    have hu' : u ++ ['/'] ++ ['/'] = pre ++ name ++ ['/'] := by
      rw [← hu]
      simp
    exact hlast u (List.append_cancel_right hu')
  | n + 2, ht =>
    have ht' : t = (pre ++ name ++ List.replicate n '/') ++ ['/'] ++ [] ++ ['/'] := by
      rw [ht, List.replicate_succ', List.replicate_succ']
      simp
    rw [codeOfLine, ht', hone, if_pos rfl, codeOf_two (Or.inr ⟨_, rfl⟩) List.not_mem_nil]
    refine iff_of_false hword.ne_nil.symm (not_not.mpr ⟨pre ++ name ++ List.replicate n '/', ?_⟩)
    simp

/-- A line that stands for one pathname is read as the last component of it, or not at all. -/
theorem codeOfPath_of_expand {glob : Text → List Text} {x y : Text} (hne : x ≠ []) (hx : '\n' ∉ x)
    (hexpand : Shell.expand glob x = [y]) (hy : '\n' ∉ y)
    (hlast : (components y).getLast? = some name) (hone : ¬ ['/', '/'] <:+ y) :
    codeOfPath glob x = name ∨ codeOfPath glob x = [] := by
  by_cases hoption : Shell.isEchoOption y = true
  · exact Or.inr (codeOfPath_of_printsNothing (printsNothing_of_expand hne hx hexpand hoption))
  · have hprints := prints_of_expand hne hx hexpand hy (Bool.not_eq_true _ ▸ hoption)
    rw [codeOfPath_of_prints hprints hy]
    exact Or.inl ((codeOfLine_eq_iff hlast).mpr hone)

theorem components_cons_slash (t : Text) : components ('/' :: t) = components t :=
  Shell.words_append_separator List.mem_cons_self [] t

/-- A text with two components has a slash after its first character. -/
theorem slash_mem_tail (h : 2 ≤ (components t).length) : '/' ∈ t.tail := by
  by_contra hslash
  have hle : ∀ u : Text, '/' ∉ u → (components u).length ≤ 1 := fun u hu => by
    have hsplit : u.splitOnP (· ∈ ['/']) = [u] :=
      List.splitOnP_eq_singleton fun c hc => by
        simpa using fun hcu : c = '/' => hu (hcu ▸ hc)
    rw [components, Shell.words, hsplit]
    exact List.length_filter_le _ _
  -- a slash can only be the first character
  rcases t with _ | ⟨c, t⟩
  · cases h
  · by_cases hc : c = '/'
    · have hshort := hle t hslash
      rw [hc, components_cons_slash] at h
      omega
    · have hshort := hle (c :: t) (by simpa [Ne.symm hc] using hslash)
      omega

/-- The components with `/` between them. -/
def slashed (path : List Text) : Text := ['/'].intercalate path

theorem not_suffix_slashed {ws : List Text} (hws : ∀ c ∈ ws, Shell.IsWord ['/'] c) :
    ¬ ['/'] <:+ slashed ws := by
  intro hsuffix
  rcases List.eq_nil_or_concat ws with rfl | ⟨init, w, rfl⟩
  · simp [slashed] at hsuffix
  · rw [List.concat_eq_append] at hws hsuffix
    have hw := hws w (by simp)
    obtain ⟨u, hu⟩ := Text.exists_intercalate_concat '/' init w
    obtain ⟨v, hv⟩ := hsuffix
    have hlast := congrArg List.getLast? (hv.trans hu)
    rw [List.getLast?_concat, List.getLast?_append_of_ne_nil _ hw.ne_nil] at hlast
    exact hw.not_mem '/' List.mem_cons_self (List.mem_of_getLast? hlast.symm)

theorem head?_slashed_ne {ws : List Text} (hws : ∀ c ∈ ws, Shell.IsWord ['/'] c) :
    (slashed ws).head? ≠ some '/' := by
  rcases ws with _ | ⟨w, ws⟩
  · simp [slashed]
  · have hw := hws w List.mem_cons_self
    obtain ⟨u, hu⟩ := Text.exists_intercalate_cons '/' w ws
    rw [slashed, hu, List.head?_append_of_ne_nil _ hw.ne_nil]
    exact fun hhead => hw.not_mem '/' List.mem_cons_self (List.mem_of_head? hhead)

/-- The last of two components, with anything before them. -/
theorem getLast?_components_append (h : (components t).getLast? = some name)
    (htwo : 2 ≤ (components t).length) : (components (u ++ t)).getLast? = some name := by
  obtain ⟨pre, n, ht, hpre, hword⟩ := exists_eq_of_getLast?_components h
  have hsingle : components (name ++ List.replicate n '/') = [name] := by
    rw [components, Shell.words_append_replicate List.mem_cons_self, Shell.words_of_isWord hword]
  rcases hpre with rfl | ⟨pre, rfl⟩
  · rw [ht, List.nil_append, hsingle] at htwo
    simp at htwo
  · have happend : u ++ t = (u ++ pre) ++ '/' :: (name ++ List.replicate n '/') := by
      rw [ht]
      simp
    rw [happend, components, Shell.words_append_separator List.mem_cons_self]
    rw [components] at hsingle
    rw [hsingle, List.getLast?_concat]

end LastComponent

/-- The characters that cmd acts on when a variable is expanded. -/
def metacharacters : List Char := ['&', '|', '<', '>', '(', ')', '^', '%', '!', '"']

/-- A version path: some components with `/` before, between and after them. -/
structure VersionPath where
  text : Text
  chars : ∀ c ∈ text, c ∉ metacharacters ∧ c ∉ Shell.defaultIFS
  component : components text ≠ []

namespace VersionPath

/-- The last component that is not empty. -/
def name (p : VersionPath) : Text := (components p.text).getLast p.component

/-- The path without a leading `/`. -/
def relative (p : VersionPath) : Text :=
  if p.text.head? = some '/' then p.text.tail else p.text

end VersionPath

/-- `setup.sh`, in every directory, and the loop, whatever `comp` is before it, find the last
component of the path. -/
structure SameName (m : Shell.Matching) (p : VersionPath) : Prop where
  shell : ∀ glob, m.Lists glob → codeOfPath glob (typedPath glob p.text) = p.name
  batch : ∀ comp, LoopEnds p.text comp p.name

/-- The path has no component that the loop or `echo` takes for something else, ends with at most
one `/`, and when it is a pattern that pathnames match, its last component matches only itself. -/
structure PlainPath (m : Shell.Matching) (p : VersionPath) : Prop where
  no_comment : ¬ IsComment p.text
  no_comment_after : ∀ c ∈ (components p.text).tail, ¬ IsComment c
  one_slash : ¬ ['/', '/'] <:+ p.text
  no_option : Shell.isEchoOption p.relative = false
  no_other : Shell.hasWildcard p.text → (∀ c ∈ components p.text, ∃ d, m.Matches c d) →
    ∀ d, m.Matches p.name d → d = p.name

/-! ## Patterns in the path -/

/-- A path from which the component `name` is read, in every directory. -/
structure Legible (m : Shell.Matching) (name path : Text) : Prop where
  last : (components path).getLast? = some name
  one_slash : ¬ ['/', '/'] <:+ path
  no_newline : '\n' ∉ path
  no_option : Shell.isEchoOption path = false
  no_other : Shell.hasWildcard path → (∀ c ∈ components path, ∃ d, m.Matches c d) →
    ∀ d, m.Matches name d → d = name

namespace Legible

variable {m : Shell.Matching} {glob : Text → List Text} {name path v : Text}

theorem ne_nil (h : Legible m name path) : path ≠ [] := by
  rintro rfl
  cases h.last

theorem newline_not_mem_of_mem (hglob : m.Lists glob) (hv : v ∈ glob path) : '\n' ∉ v := by
  intro hnl
  obtain ⟨d, hd, hmem⟩ := (exists_mem_components_iff (by decide)).mpr hnl
  have hword := Shell.Matching.isWord_of_forall₂ (hglob.component path v hv) d hd
  exact hword.not_mem '\n' (by decide) hmem

section Pathnames

variable (hglob : m.Lists glob) (h : Legible m name path) (hwild : Shell.hasWildcard path)
include hglob h hwild

/-- When a pathname matches the path, the last component matches only itself. -/
theorem eq_of_mem (hv : v ∈ glob path) {d : Text} (hd : m.Matches name d) : d = name :=
  h.no_other hwild (Shell.Matching.exists_of_forall₂ (hglob.component path v hv)) d hd

/-- A pathname that matches the path ends as the path does. -/
theorem getLast?_of_mem (hv : v ∈ glob path) : (components v).getLast? = some name := by
  have hreverse := List.forall₂_reverse_iff.mpr (hglob.component path v hv)
  have hhead : (components path).reverse.head? = some name := by
    rw [List.head?_reverse]
    exact h.last
  obtain ⟨ws, hws⟩ := List.head?_eq_some_iff.mp hhead
  rw [components] at hws
  rw [hws, List.forall₂_cons_left_iff] at hreverse
  obtain ⟨d, ds, hd, -, hds⟩ := hreverse
  rw [h.eq_of_mem hglob hwild hv hd] at hds
  rw [← List.head?_reverse, components, hds, List.head?_cons]

/-- A pathname with one component is the only component of the path. -/
theorem components_of_short (hv : v ∈ glob path) (hshort : (components v).length < 2) :
    components path = [name] ∧ components v = [name] := by
  have hlen := (hglob.component path v hv).length_eq
  have hsingle : ∀ ws : List Text, ws.getLast? = some name → ws.length < 2 → ws = [name] := by
    rintro (_ | ⟨w, _ | ⟨w', ws⟩⟩) hlast hlt
    · cases hlast
    · rw [List.getLast?_singleton, Option.some.injEq] at hlast
      rw [hlast]
    · rw [List.length_cons, List.length_cons] at hlt
      omega
  refine ⟨hsingle _ h.last ?_, hsingle _ (h.getLast?_of_mem hglob hwild hv) hshort⟩
  rwa [components, hlen]

/-- No pathname that matches the path is an option of `echo`: it has a slash or the wildcard. -/
theorem not_isEchoOption_of_glob (hv : v ∈ glob path) : Shell.isEchoOption v = false ∧
    (v.head? = some '/' → Shell.isEchoOption v.tail = false) := by
  by_cases htwo : 2 ≤ (components v).length
  · have hslash := slash_mem_tail htwo
    exact ⟨not_isEchoOption_of_mem (List.mem_of_mem_tail hslash) (by decide),
      fun _ => not_isEchoOption_of_mem hslash (by decide)⟩
  · obtain ⟨hpath, hname⟩ := h.components_of_short hglob hwild hv (not_le.mp htwo)
    obtain ⟨w, hw, hwwild⟩ := Shell.exists_hasWildcard_of_hasWildcard hwild
    obtain rfl : w = name := by
      rw [components] at hpath
      rwa [hpath, List.mem_singleton] at hw
    obtain ⟨c, hc, hspecial⟩ := List.any_eq_true.mp (Shell.isPattern_of_hasWildcard hwwild)
    have hplain : c ≠ '/' ∧ c ∉ ['-', 'n', 'e', 'E'] := by
      have hor : c = '*' ∨ c = '?' ∨ c = '[' := by simpa using hspecial
      rcases hor with rfl | rfl | rfl <;> decide
    have hcv : c ∈ v :=
      (exists_mem_components_iff hplain.1).mp ⟨w, hname ▸ List.mem_singleton_self w, hc⟩
    refine ⟨not_isEchoOption_of_mem hcv hplain.2, fun hhead => ?_⟩
    obtain ⟨t, rfl⟩ := List.head?_eq_some_iff.mp hhead
    exact not_isEchoOption_of_mem ((List.mem_cons.mp hcv).resolve_left hplain.1) hplain.2

/-- Of two pathnames that match the path each has a component before the last one. -/
theorem two_le_length {v' : Text} {vs : List Text} (hvs : glob path = v :: v' :: vs) {u : Text}
    (hu : u ∈ glob path) : 2 ≤ (components u).length := by
  by_contra hshort
  obtain ⟨hpath, -⟩ := h.components_of_short hglob hwild hu (not_le.mp hshort)
  have hcomponents : ∀ w ∈ glob path, components w = [name] := fun w hw => by
    refine (h.components_of_short hglob hwild hw ?_).2
    rw [components, ← (hglob.component path w hw).length_eq]
    rw [components] at hpath
    rw [hpath, List.length_singleton]
    exact Nat.one_lt_two
  have honce := hglob.once path
  rw [hvs] at honce
  refine List.rel_of_pairwise_cons honce List.mem_cons_self ?_
  have hv := hcomponents v (by simp [hvs])
  have hv' := hcomponents v' (by simp [hvs])
  rw [components] at hv hv'
  rw [hv, hv']

/-- Pathnames that match the path, with blanks between them, end as the path does. -/
theorem intercalate {v' : Text} {vs : List Text} (hvs : glob path = v :: v' :: vs) :
    Legible m name ([' '].intercalate (v :: v' :: vs)) ∧
      '/' ∈ ([' '].intercalate (v :: v' :: vs)).tail := by
  have hlong : ∀ u ∈ v :: v' :: vs, 2 ≤ (components u).length := fun u hu =>
    h.two_le_length hglob hwild hvs (hvs ▸ hu)
  have hmem : ∀ u ∈ v :: v' :: vs, u ∈ glob path := fun u hu => hvs ▸ hu
  have hslash : '/' ∈ ([' '].intercalate (v :: v' :: vs)).tail := by
    have htail := slash_mem_tail (hlong v List.mem_cons_self)
    rcases v with _ | ⟨c, v⟩
    · cases htail
    · obtain ⟨u, hu⟩ := Text.exists_intercalate_cons ' ' (c :: v) (v' :: vs)
      rw [hu, List.cons_append, List.tail_cons]
      exact List.mem_append_left u htail
  have hoption := not_isEchoOption_of_mem (List.mem_of_mem_tail hslash) (by decide)
  obtain ⟨ws, w, hlist⟩ : ∃ ws w, v :: v' :: vs = ws ++ [w] := by
    obtain ⟨ws, w, hws⟩ := (List.eq_nil_or_concat (v :: v' :: vs)).resolve_left (List.cons_ne_nil _ _)
    exact ⟨ws, w, hws.trans List.concat_eq_append⟩
  have hw : w ∈ v :: v' :: vs := hlist ▸ by simp
  have hwlong := hlong w hw
  obtain ⟨u, hu⟩ := Text.exists_intercalate_concat ' ' ws w
  rw [← hlist] at hu
  refine ⟨⟨?_, ?_, ?_, hoption, fun _ _ d hd => ?_⟩, hslash⟩
  · rw [hu]
    exact getLast?_components_append (h.getLast?_of_mem hglob hwild (hmem w hw)) hwlong
  · rw [hu]
    -- the pathname is longer than the two slashes
    intro hsuffix
    refine h.one_slash (hglob.slashes path w (hmem w hw) ?_)
    refine List.suffix_of_suffix_length_le hsuffix (List.suffix_append u w) ?_
    have hlen := List.length_pos_of_mem (slash_mem_tail hwlong)
    rw [List.length_tail] at hlen
    simp only [List.length_cons, List.length_nil]
    omega
  · intro hnl
    rcases Text.mem_intercalate hnl with hblank | ⟨w, hw, hnlw⟩
    · cases hblank
    · exact newline_not_mem_of_mem hglob (hmem w hw) hnlw
  · exact h.eq_of_mem hglob hwild (hmem w hw) hd

/-- A pathname that is the only one that matches the path is read as the path is. -/
theorem of_mem (hv : v ∈ glob path) : Legible m name v where
  last := h.getLast?_of_mem hglob hwild hv
  one_slash := fun hsuffix => h.one_slash (hglob.slashes path v hv hsuffix)
  no_newline := newline_not_mem_of_mem hglob hv
  no_option := (h.not_isEchoOption_of_glob hglob hwild hv).1
  no_other := fun _ _ _ hd => h.eq_of_mem hglob hwild hv hd

end Pathnames

/-- **What is read in every directory**: `echo` prints the path, or the pathnames that match it. -/
theorem exists_prints (hglob : m.Lists glob) (h : Legible m name path) :
    ∃ line, Prints glob path line ∧ Legible m name line ∧
      (line = path ∨ (line.head? = some '/' → Shell.isEchoOption line.tail = false)) := by
  by_cases hwild : Shell.hasWildcard path = true
  · rcases hvs : glob path with _ | ⟨v, vs⟩
    · exact ⟨path, prints_of_glob h.ne_nil h.no_newline hvs h.no_option, h, Or.inl rfl⟩
    · have hmem : v ∈ glob path := hvs ▸ List.mem_cons_self
      have hexpand : Shell.expand glob path = v :: vs := by
        rw [Shell.expand, if_pos ⟨Shell.isPattern_of_hasWildcard hwild, by simp [hvs]⟩, hvs]
      have hwords := (unquoted_of_line h.ne_nil h.no_newline).trans hexpand
      obtain ⟨hoption, htail⟩ := h.not_isEchoOption_of_glob hglob hwild hmem
      -- one pathname is printed in the place of the path, several with blanks between them
      rcases vs with _ | ⟨v', vs⟩
      · have hv := h.of_mem hglob hwild hmem
        have hprints := prints_of_unquoted hwords hoption
          (by rw [List.intercalate_singleton]; exact hv.no_newline)
        rw [List.intercalate_singleton] at hprints
        exact ⟨v, hprints, hv, Or.inr htail⟩
      · obtain ⟨hline, hslash⟩ := h.intercalate hglob hwild hvs
        exact ⟨_, prints_of_unquoted hwords hoption hline.no_newline, hline,
          Or.inr fun _ => not_isEchoOption_of_mem hslash (by decide)⟩
  · have hexpand := hglob.itself.expand_eq (Bool.not_eq_true _ ▸ hwild)
    exact ⟨path, prints_of_expand h.ne_nil h.no_newline hexpand h.no_newline h.no_option, h, Or.inl rfl⟩

theorem codeOfPath_eq (hglob : m.Lists glob) (h : Legible m name path) :
    codeOfPath glob path = name := by
  obtain ⟨line, hprints, hline, -⟩ := h.exists_prints hglob
  rw [codeOfPath_of_prints hprints hline.no_newline]
  exact (codeOfLine_eq_iff hline.last).mpr hline.one_slash

/-- Without a first slash the path is read in the same way, unless `echo` takes it for an option. -/
theorem tail {t : Text} (h : Legible m name ('/' :: t)) (hoption : Shell.isEchoOption t = false) :
    Legible m name t where
  last := components_cons_slash t ▸ h.last
  one_slash := fun hsuffix => h.one_slash (hsuffix.trans (List.suffix_cons '/' t))
  no_newline := fun hnl => h.no_newline (List.mem_cons_of_mem _ hnl)
  no_option := hoption
  no_other := fun hwild hall =>
    h.no_other (by simpa [Shell.hasWildcard] using hwild) (by rwa [components_cons_slash])

end Legible

namespace VersionPath

variable (p : VersionPath)

theorem newline_not_mem : '\n' ∉ p.text := fun h => (p.chars '\n' h).2 (by decide)

theorem text_ne_nil : p.text ≠ [] := fun h => p.component (by rw [h]; rfl)

theorem getLast?_components : (components p.text).getLast? = some p.name := by
  rw [List.getLast?_eq_some_getLast p.component]
  rfl

theorem isWord_name : Shell.IsWord ['/'] p.name :=
  Shell.isWord_of_mem_words (List.getLast_mem p.component)

theorem isEchoOption_text (h : Shell.isEchoOption p.relative = false) :
    Shell.isEchoOption p.text = false := by
  rw [relative] at h
  split_ifs at h with hslash
  · obtain ⟨t, ht⟩ := List.head?_eq_some_iff.mp hslash
    rw [ht]
    rfl
  · exact h

variable {m : Shell.Matching}

/-- A plain path is read in every directory. -/
theorem shell_of_plainPath (h : PlainPath m p) {glob : Text → List Text} (hglob : m.Lists glob) :
    codeOfPath glob (typedPath glob p.text) = p.name := by
  have htext : Legible m p.name p.text := ⟨p.getLast?_components, h.one_slash, p.newline_not_mem,
    p.isEchoOption_text h.no_option, h.no_other⟩
  obtain ⟨line, hprints, hline, hor⟩ := htext.exists_prints hglob
  rw [typedPath_of_prints hprints hline.ne_nil hline.no_newline]
  split_ifs with hslash
  · obtain ⟨t, rfl⟩ := List.head?_eq_some_iff.mp hslash
    refine (hline.tail ?_).codeOfPath_eq hglob
    rcases hor with heq | hoption
    · have hoption := h.no_option
      rwa [relative, ← heq, if_pos hslash] at hoption
    · exact hoption hslash
  · exact htext.codeOfPath_eq hglob

theorem relative_subset : p.relative ⊆ p.text := by
  rw [relative]
  split_ifs
  · exact List.tail_subset p.text
  · exact List.Subset.refl p.text

theorem getLast?_components_relative : (components p.relative).getLast? = some p.name := by
  rw [relative]
  split_ifs with h
  · obtain ⟨t, ht⟩ := List.head?_eq_some_iff.mp h
    have hlast := p.getLast?_components
    rw [ht, components_cons_slash] at hlast
    rwa [ht]
  · exact p.getLast?_components

/-- The slash that is taken off is not one of two at the end. -/
theorem suffix_relative (h : ['/', '/'] <:+ p.text) : ['/', '/'] <:+ p.relative := by
  rw [relative]
  split_ifs with hslash
  · obtain ⟨t, ht⟩ := List.head?_eq_some_iff.mp hslash
    rw [ht, List.suffix_cons_iff] at h
    rcases h with heq | h
    · have hcomponents : components p.text = [] := by
        rw [ht, ← heq]
        decide
      exact absurd hcomponents p.component
    · rwa [ht]
  · exact h

theorem newline_not_mem_relative : '\n' ∉ p.relative :=
  fun hmem => p.newline_not_mem (p.relative_subset hmem)

theorem relative_ne_nil : p.relative ≠ [] := fun hnil => by
  have hlast := p.getLast?_components_relative
  rw [hnil] at hlast
  cases hlast

section NoPathname

variable (h : codeOfPath (fun _ => []) (typedPath (fun _ => []) p.text) = p.name)
include h

/-- An option of `echo` in place of the path prints nothing. -/
theorem not_isEchoOption_of_shell : Shell.isEchoOption p.text = false := by
  by_contra hoption
  have hexpand : Shell.expand (fun _ => []) p.text = [p.text] := expand_of_glob rfl
  have hprints := printsNothing_of_expand p.text_ne_nil p.newline_not_mem hexpand
    (by simpa using hoption)
  rw [typedPath_of_printsNothing hprints, codeOfPath_of_printsNothing printsNothing_nil] at h
  exact p.isWord_name.ne_nil h.symm

theorem codeOfPath_relative_of_shell : codeOfPath (fun _ => []) p.relative = p.name := by
  have hprints : Prints (fun _ => []) p.text p.text :=
    prints_of_glob p.text_ne_nil p.newline_not_mem rfl (p.not_isEchoOption_of_shell h)
  rwa [typedPath_of_prints hprints p.text_ne_nil p.newline_not_mem, ← relative] at h

theorem not_isEchoOption_relative_of_shell : Shell.isEchoOption p.relative = false := by
  have hcode := p.codeOfPath_relative_of_shell h
  by_contra hoption
  have hexpand : Shell.expand (fun _ => []) p.relative = [p.relative] := expand_of_glob rfl
  have hprints := printsNothing_of_expand p.relative_ne_nil p.newline_not_mem_relative hexpand
    (by simpa using hoption)
  rw [codeOfPath_of_printsNothing hprints] at hcode
  exact p.isWord_name.ne_nil hcode.symm

/-- After two slashes at the end no name is read. -/
theorem one_slash_of_shell : ¬ ['/', '/'] <:+ p.text := by
  have hcode := p.codeOfPath_relative_of_shell h
  have hprints : Prints (fun _ => []) p.relative p.relative :=
    prints_of_glob p.relative_ne_nil p.newline_not_mem_relative rfl
      (p.not_isEchoOption_relative_of_shell h)
  rw [codeOfPath_of_prints hprints p.newline_not_mem_relative,
    codeOfLine_eq_iff p.getLast?_components_relative] at hcode
  exact fun hsuffix => hcode (p.suffix_relative hsuffix)

end NoPathname

/-! ### A directory with one pathname -/

/-- The `/` at the beginning of the path, if there is one. -/
def firstSlash : Text := if p.text.head? = some '/' then ['/'] else []

/-- The `/` at the end of the path, if there is one. -/
def lastSlash : Text := if ['/'] <:+ p.text then ['/'] else []

/-- The pathname with these names for the components of the path. -/
def pathname (ds : List Text) : Text := p.firstSlash ++ (slashed ds ++ p.lastSlash)

/-- In this directory only the path matches a pathname. -/
def directory (ds : List Text) (w : Text) : List Text := if w = p.text then [p.pathname ds] else []

section Directory

variable {ds : List Text} {d : Text} (hds : List.Forall₂ m.Matches (components p.text) ds)
include hds

theorem isWord_of_matches : ∀ d ∈ ds, Shell.IsWord ['/'] d := by
  intro d hd
  have hword := Shell.Matching.isWord_of_forall₂ hds d hd
  exact ⟨hword.ne_nil, fun c hc => hword.not_mem c (List.mem_singleton.mp hc ▸ List.mem_cons_self)⟩

theorem components_slashed_of_matches : components (slashed ds) = ds :=
  Shell.words_intercalate (p.isWord_of_matches hds)

theorem slashed_ne_nil : slashed ds ≠ [] := by
  intro hnil
  have hcomponents := p.components_slashed_of_matches hds
  rw [hnil] at hcomponents
  have hlen := hds.length_eq
  rw [← hcomponents] at hlen
  exact p.component (List.eq_nil_of_length_eq_zero hlen)

theorem components_pathname : components (p.pathname ds) = ds := by
  have hfirst : ∀ t : Text, components (p.firstSlash ++ t) = components t := fun t => by
    rw [firstSlash]
    split_ifs
    · exact components_cons_slash t
    · rfl
  have hlast : ∀ t : Text, components (t ++ p.lastSlash) = components t := fun t => by
    rw [lastSlash]
    split_ifs
    · exact Shell.words_append_replicate List.mem_cons_self t 1
    · rw [List.append_nil]
  rw [pathname, hfirst, hlast, p.components_slashed_of_matches hds]

theorem not_suffix_append_slashed (pre : Text) : ¬ ['/'] <:+ pre ++ slashed ds := by
  intro hsuffix
  refine not_suffix_slashed (p.isWord_of_matches hds) ?_
  refine List.suffix_of_suffix_length_le hsuffix (List.suffix_append pre _) ?_
  exact List.length_pos_of_ne_nil (p.slashed_ne_nil hds)

theorem suffix_pathname_iff : ['/'] <:+ p.pathname ds ↔ ['/'] <:+ p.text := by
  rw [pathname, ← List.append_assoc, lastSlash]
  by_cases hlast : ['/'] <:+ p.text
  · rw [if_pos hlast]
    exact iff_of_true (List.suffix_append _ _) hlast
  · rw [if_neg hlast, List.append_nil]
    exact iff_of_false (p.not_suffix_append_slashed hds _) hlast

theorem one_slash_pathname : ¬ ['/', '/'] <:+ p.pathname ds := by
  rw [pathname, ← List.append_assoc, lastSlash]
  rintro ⟨u, hu⟩
  have happend : u ++ ['/', '/'] = (u ++ ['/']) ++ ['/'] := by simp
  rw [happend] at hu
  split_ifs at hu
  · exact p.not_suffix_append_slashed hds _ ⟨u, List.append_cancel_right hu⟩
  · rw [List.append_nil] at hu
    exact p.not_suffix_append_slashed hds _ ⟨u ++ ['/'], hu⟩

theorem newline_not_mem_pathname : '\n' ∉ p.pathname ds := by
  intro hnl
  obtain ⟨d, hd, hmem⟩ := (exists_mem_components_iff (by decide)).mpr hnl
  rw [p.components_pathname hds] at hd
  exact (Shell.Matching.isWord_of_forall₂ hds d hd).not_mem '\n' (by decide) hmem

theorem head?_slashed_append (t : Text) : (slashed ds ++ t).head? ≠ some '/' := by
  rw [List.head?_append_of_ne_nil _ (p.slashed_ne_nil hds)]
  exact head?_slashed_ne (p.isWord_of_matches hds)

theorem head?_pathname_iff : (p.pathname ds).head? = some '/' ↔ p.text.head? = some '/' := by
  rw [pathname, firstSlash]
  by_cases hfirst : p.text.head? = some '/'
  · rw [if_pos hfirst]
    exact iff_of_true rfl hfirst
  · rw [if_neg hfirst]
    exact iff_of_false (p.head?_slashed_append hds _) hfirst

theorem lists_directory (hwild : Shell.hasWildcard p.text) : m.Lists (p.directory ds) := by
  have hmem : ∀ {w v}, v ∈ p.directory ds w → w = p.text ∧ v = p.pathname ds := by
    intro w v hv
    rw [directory] at hv
    split_ifs at hv with hw
    · exact ⟨hw, List.mem_singleton.mp hv⟩
    · cases hv
  refine ⟨fun w hw => ?_, fun w v hv => ?_, fun w v hv => ?_, fun w v hv => ?_,
    fun w v hv hsuffix => ?_, fun w => ?_⟩
  · refine Or.inl (if_neg ?_)
    rintro rfl
    rw [hw] at hwild
    cases hwild
  · obtain ⟨rfl, rfl⟩ := hmem hv
    have hcomponents := p.components_pathname hds
    rw [components] at hcomponents
    rwa [hcomponents]
  · obtain ⟨rfl, rfl⟩ := hmem hv
    exact p.head?_pathname_iff hds
  · obtain ⟨rfl, rfl⟩ := hmem hv
    exact p.suffix_pathname_iff hds
  · obtain ⟨rfl, rfl⟩ := hmem hv
    exact absurd hsuffix (p.one_slash_pathname hds)
  · rw [directory]
    split_ifs
    · exact List.pairwise_singleton _ _
    · exact List.Pairwise.nil

/-- In the directory the last name of the pathname is read, or none. -/
theorem codeOfPath_directory (hwild : Shell.hasWildcard p.text) (hd : ds.getLast? = some d) :
    codeOfPath (p.directory ds) (typedPath (p.directory ds) p.text) = d ∨
      codeOfPath (p.directory ds) (typedPath (p.directory ds) p.text) = [] := by
  have hcomponents := p.components_pathname hds
  have hnl := p.newline_not_mem_pathname hds
  have hexpand : Shell.expand (p.directory ds) p.text = [p.pathname ds] := by
    rw [Shell.expand, directory, if_pos rfl,
      if_pos ⟨Shell.isPattern_of_hasWildcard hwild, List.cons_ne_nil _ _⟩]
  by_cases hoption : Shell.isEchoOption (p.pathname ds) = true
  · have hprints := printsNothing_of_expand p.text_ne_nil p.newline_not_mem hexpand hoption
    rw [typedPath_of_printsNothing hprints]
    exact Or.inr (codeOfPath_of_printsNothing printsNothing_nil)
  have hprints := prints_of_expand p.text_ne_nil p.newline_not_mem hexpand hnl
    (Bool.not_eq_true _ ▸ hoption)
  have hne : p.pathname ds ≠ [] := fun hnil => by
    rw [hnil] at hcomponents
    rw [← hcomponents] at hd
    cases hd
  rw [typedPath_of_prints hprints hne hnl, if_congr (p.head?_pathname_iff hds) rfl rfl]
  split_ifs with hfirst
  · -- without its first slash the pathname stands for itself
    generalize hrest : slashed ds ++ p.lastSlash = rest
    have hpathname : p.pathname ds = '/' :: rest := by
      rw [pathname, firstSlash, if_pos hfirst, hrest]
      rfl
    rw [hpathname] at hcomponents hnl ⊢
    rw [components_cons_slash] at hcomponents
    have hne : rest ≠ p.text := by
      rintro rfl
      exact p.head?_slashed_append hds p.lastSlash (hrest ▸ hfirst)
    rw [List.tail_cons]
    refine codeOfPath_of_expand ?_ (fun hmem => hnl (List.mem_cons_of_mem _ hmem))
      (expand_of_glob (if_neg hne)) (fun hmem => hnl (List.mem_cons_of_mem _ hmem))
      (by rw [hcomponents]; exact hd) fun hsuffix => ?_
    · rintro rfl
      exact p.slashed_ne_nil hds (List.append_eq_nil_iff.mp hrest).1
    · refine p.one_slash_pathname hds ?_
      rw [hpathname]
      exact hsuffix.trans (List.suffix_cons '/' rest)
  · exact codeOfPath_of_expand p.text_ne_nil p.newline_not_mem hexpand hnl
      (by rw [hcomponents]; exact hd) (p.one_slash_pathname hds)

end Directory

/-- In a directory with a pathname that matches the path and has another last name the path is not
read. -/
theorem no_other_of_shell
    (h : ∀ glob, m.Lists glob → codeOfPath glob (typedPath glob p.text) = p.name)
    (hwild : Shell.hasWildcard p.text) (hall : ∀ c ∈ components p.text, ∃ d, m.Matches c d)
    (d : Text) (hd : m.Matches p.name d) : d = p.name := by
  obtain ⟨ws, hws⟩ : ∃ ws, components p.text = ws ++ [p.name] :=
    ⟨_, (List.dropLast_append_getLast p.component).symm⟩
  have hinit : ∀ c ∈ ws, ∃ d, m.Matches c d := fun c hc => hall c (by simp [hws, hc])
  obtain ⟨ds, hds⟩ := Shell.Matching.exists_forall₂ hinit
  have hall : List.Forall₂ m.Matches (components p.text) (ds ++ [d]) := by
    rw [hws]
    exact List.rel_append hds (List.Forall₂.nil.cons hd)
  have hread := p.codeOfPath_directory hall hwild (List.getLast?_concat ..)
  rw [h _ (p.lists_directory hall hwild)] at hread
  rcases hread with hname | hnil
  · exact hname.symm
  · exact absurd hnil p.isWord_name.ne_nil

end VersionPath

/-- **The name of the code**: setup.sh and the loop find the last component of a path exactly when
the path is a plain one. -/
theorem sameName_iff (m : Shell.Matching) (p : VersionPath) : SameName m p ↔ PlainPath m p := by
  obtain ⟨w, ws, hws⟩ := List.exists_cons_of_ne_nil p.component
  have hlast : (w :: ws).getLast? = some p.name := hws ▸ p.getLast?_components
  constructor
  · rintro ⟨shell, batch⟩
    have hcomment : ¬ IsComment p.text := fun h => not_loopEnds_of_isComment h (batch p.text)
    have hnone := shell _ m.lists_nil
    refine ⟨hcomment, fun c hc => ?_, p.one_slash_of_shell hnone,
      p.not_isEchoOption_relative_of_shell hnone, p.no_other_of_shell shell⟩
    rw [hws, List.tail_cons] at hc
    exact (((loopEnds_iff hws hcomment).mp (batch [])).2 c hc).1
  · intro h
    refine ⟨fun glob hglob => p.shell_of_plainPath h hglob, fun comp =>
      (loopEnds_iff hws h.no_comment).mpr ⟨hlast, fun c hc => ⟨?_, ?_⟩⟩⟩
    · exact h.no_comment_after c (by rwa [hws])
    · -- no character of the path is a bracket
      intro hbracket
      have hmem : ')' ∈ p.text :=
        (exists_mem_components_iff (by decide)).mp
          ⟨c, by rw [hws]; exact List.mem_cons_of_mem w hc, hbracket⟩
      exact (p.chars ')' hmem).1 (by decide)

/-- The path `commerce8.5/trunkwithmodules//`. -/
def trunkPath : VersionPath where
  text := "commerce8.5/trunkwithmodules//"
  chars := by decide
  component := by decide

/-- With two slashes at the end, `setup.sh` finds no name at all. -/
theorem not_sameName_trunkPath : ¬ SameName Shell.Matching.literal trunkPath := by
  intro h
  have hshell := h.shell _ (Shell.Matching.lists_nil _)
  revert hshell
  decide

/-! ## The version of deploy.log -/

/-- A line of `deploy.log`: fields between blanks, the second one a path and a comma. -/
structure IsDeployLine (l : Text) (path : List Text) : Prop where
  blanks : '\t' ∉ l
  ne_nil : path ≠ []
  component : ∀ c ∈ path, c ≠ [] ∧ '/' ∉ c ∧ ',' ∉ c
  second : (Shell.words [' '] l)[1]? = some (slashed path ++ [','])

/-- A log of deployments, with the paths on its lines. -/
structure DeployLog where
  text : Text
  path : Text → List Text
  ne_nil : Text.lines text ≠ []
  line : ∀ l ∈ Text.lines text, IsDeployLine l (path l)

/-- The last line of the log. -/
def DeployLog.last (d : DeployLog) : Text := Text.lastLine d.text

/-- The version: the last component of the path on the last line. -/
def DeployLog.version (d : DeployLog) : Text := ((d.path d.last).getLast?).getD []

/-- The value of a variable in a command. By convention it counts as not read when it has a character
that cmd acts on there, also where cmd would only drop it, as a caret. -/
def expansion (value : Text) : Option Text :=
  if value.all (· ∉ ['&', '|', '<', '>', '^', '"']) then some value else none

/-- The batch files read the version from the log. -/
def ReadsVersion (c : Console) (log version : Text) : Prop :=
  ∃ codeNum last, expansion (secondToken log c.version_to_install) = some codeNum ∧
    LoopEnds codeNum c.comp last ∧ withoutLast last = version

/-- The scripts, and the batch files in every console, read the version of the last line. -/
structure SameVersion (d : DeployLog) : Prop where
  shell : deployedVersion d.last = d.version
  batch : ∀ c, ReadsVersion c d.text d.version

/-- A path with no component that cmd or the loop take for something else. -/
structure PlainComponents (path : List Text) : Prop where
  no_comment : ∀ c ∈ path, ¬ IsComment c
  no_metacharacter : ∀ c ∈ path, ∀ a ∈ c, a ∉ ['&', '|', '<', '>', '^', '"']
  no_bracket : ∀ c ∈ path.tail, ')' ∉ c

/-- The path on the last line has one component, or its fourth component is its last one; and the
last line that is no comment has a plain path with the same last component. -/
structure OneVersion (d : DeployLog) : Prop where
  fourth : (d.path d.last).length = 1 ∨ (d.path d.last)[3]? = (d.path d.last).getLast?
  last_line : ∃ l, ((Text.lines d.text).filter (¬ IsComment ·)).getLast? = some l ∧
    (d.path l).getLast? = (d.path d.last).getLast? ∧ PlainComponents (d.path l)

namespace IsDeployLine

variable {l : Text} {path : List Text}

theorem components_slashed (hl : IsDeployLine l path) : components (slashed path) = path :=
  Shell.words_intercalate fun c hc =>
    ⟨(hl.component c hc).1, fun _ hd => List.mem_singleton.mp hd ▸ (hl.component c hc).2.1⟩

theorem mem_slashed_iff (hl : IsDeployLine l path) {a : Char} (ha : a ≠ '/') :
    a ∈ slashed path ↔ ∃ c ∈ path, a ∈ c := by
  rw [← exists_mem_components_iff ha, hl.components_slashed]

theorem comma_not_mem (hl : IsDeployLine l path) : ',' ∉ slashed path := by
  rw [hl.mem_slashed_iff (by decide)]
  rintro ⟨c, hc, hmem⟩
  exact (hl.component c hc).2.2 hmem

theorem slash_mem_iff (hl : IsDeployLine l path) : '/' ∈ slashed path ↔ path.length ≠ 1 := by
  rcases path with _ | ⟨c, _ | ⟨c', path⟩⟩
  · exact absurd rfl hl.ne_nil
  · simp [slashed, (hl.component c List.mem_cons_self).2.1]
  · simp [slashed, List.intercalate_cons_cons]

/-- What the scripts read from a line. -/
theorem deployedVersion_eq (hl : IsDeployLine l path) (hnl : '\n' ∉ l) :
    deployedVersion l = if path.length = 1 then slashed path else (path[3]?).getD [] := by
  have hwords : Shell.words Shell.defaultIFS l = Shell.words [' '] l := by
    refine Shell.words_congr fun c hc => ?_
    have htab : c ≠ '\t' := fun h => hl.blanks (h ▸ hc)
    have hnewline : c ≠ '\n' := fun h => hnl (h ▸ hc)
    simp [Shell.defaultIFS, htab, hnewline]
  have hcut : Text.cut ',' 1 (slashed path ++ [',']) = slashed path := by
    rw [Text.cut, if_pos (by simp), List.splitOn_append_cons_self_of_not_mem hl.comma_not_mem]
    rfl
  have hsplit : (slashed path).splitOn '/' = path :=
    List.splitOn_intercalate '/' (fun c hc => (hl.component c hc).2.1) hl.ne_nil
  rw [deployedVersion, hwords, hl.second, Option.getD_some, hcut, Text.cut, hsplit]
  by_cases hone : path.length = 1
  · rw [if_neg (by rw [hl.slash_mem_iff]; exact not_not.mpr hone), if_pos hone]
  · rw [if_pos (hl.slash_mem_iff.mpr hone), if_neg hone]

end IsDeployLine

theorem isComment_append {c t : Text} (hc : c ≠ []) : IsComment (c ++ t) ↔ IsComment c := by
  obtain ⟨a, c, rfl⟩ := List.exists_cons_of_ne_nil hc
  rfl

theorem isComment_slashed {w : Text} {ws : List Text} (hw : w ≠ []) :
    IsComment (slashed (w :: ws)) ↔ IsComment w := by
  rcases ws with _ | ⟨w', ws⟩
  · rw [slashed, List.intercalate_singleton]
  · rw [slashed, List.intercalate_cons_cons, List.append_assoc, isComment_append hw]

theorem expansion_eq_some_iff {value codeNum : Text} : expansion value = some codeNum ↔
    codeNum = value ∧ ∀ a ∈ value, a ∉ ['&', '|', '<', '>', '^', '"'] := by
  have hall : (value.all (· ∉ ['&', '|', '<', '>', '^', '"']) = true) ↔
      ∀ a ∈ value, a ∉ ['&', '|', '<', '>', '^', '"'] := by
    rw [List.all_eq_true]
    exact forall₂_congr fun a _ => decide_eq_true_iff
  by_cases h : value.all (· ∉ ['&', '|', '<', '>', '^', '"']) = true
  · rw [expansion, if_pos h, Option.some.injEq]
    exact ⟨fun heq => ⟨heq.symm, hall.mp h⟩, fun heq => heq.1.symm⟩
  · rw [expansion, if_neg h]
    exact ⟨fun heq => (by cases heq), fun heq => absurd (hall.mpr heq.2) h⟩

/-- What the batch files read from a line. -/
theorem IsDeployLine.reads_iff {l : Text} {path : List Text} (hl : IsDeployLine l path)
    (version : Text) :
    (∀ comp, ∃ codeNum last, expansion (slashed path ++ [',']) = some codeNum ∧
      LoopEnds codeNum comp last ∧ withoutLast last = version) ↔
    path.getLast? = some version ∧ PlainComponents path := by
  obtain ⟨init, x, hpath⟩ := (List.eq_nil_or_concat path).resolve_left hl.ne_nil
  rw [List.concat_eq_append] at hpath
  subst hpath
  obtain ⟨hx, hxslash, -⟩ := hl.component x (by simp)
  -- the comma belongs to the last component that the loop finds
  have hcomma : slashed (init ++ [x]) ++ [','] = slashed (init ++ [x ++ [',']]) := by
    by_cases hinit : init = []
    · simp [slashed, hinit]
    · rw [slashed, slashed, Text.intercalate_append hinit (by simp),
        Text.intercalate_append hinit (by simp)]
      simp
  have hcomponents : components (slashed (init ++ [x ++ [',']])) = init ++ [x ++ [',']] := by
    refine Shell.words_intercalate fun c hc => ⟨?_, fun d hd => List.mem_singleton.mp hd ▸ ?_⟩
    · rcases List.mem_append.mp hc with hc | hc
      · exact (hl.component c (by simp [hc])).1
      · simp [List.mem_singleton.mp hc]
    · rcases List.mem_append.mp hc with hc | hc
      · exact (hl.component c (by simp [hc])).2.1
      · simp [List.mem_singleton.mp hc, hxslash]
  have hmem : ∀ a ∈ (['&', '|', '<', '>', '^', '"'] : List Char),
      (a ∈ slashed (init ++ [x]) ++ [','] ↔ ∃ c ∈ init ++ [x], a ∈ c) := by
    intro a ha
    have hne : a ≠ '/' ∧ a ≠ ',' := by
      revert a
      decide
    rw [List.mem_append, List.mem_singleton, hl.mem_slashed_iff hne.1]
    simp [hne.2]
  have hwithout : withoutLast (x ++ [',']) = x := by simp [withoutLast]
  obtain ⟨w, ws, hws, hw, hfirst, hrest⟩ : ∃ w ws, init ++ [x ++ [',']] = w :: ws ∧ w ≠ [] ∧
      (IsComment w ∨ (∃ c ∈ ws, IsComment c) ↔ ∃ c ∈ init ++ [x], IsComment c) ∧
      ((∃ c ∈ ws, ')' ∈ c) ↔ ∃ c ∈ (init ++ [x]).tail, ')' ∈ c) := by
    rcases init with _ | ⟨w, init⟩
    · exact ⟨x ++ [','], [], rfl, by simp, by simp [isComment_append hx], by simp⟩
    · refine ⟨w, init ++ [x ++ [',']], rfl, (hl.component w (by simp)).1, ?_, ?_⟩
      · simp [or_and_right, exists_or, isComment_append hx]
      · simp [or_and_right, exists_or]
  have hhead : IsComment (slashed (init ++ [x]) ++ [',']) ↔ IsComment w := by
    rw [hcomma, hws, isComment_slashed hw]
  have hlast : (w :: ws).getLast? = some (x ++ [',']) := by rw [← hws, List.getLast?_concat]
  rw [List.getLast?_concat, Option.some.injEq]
  constructor
  · intro h
    obtain ⟨codeNum, last, hexp, hends, hversion⟩ := h (slashed (init ++ [x]) ++ [','])
    obtain ⟨rfl, hmeta⟩ := expansion_eq_some_iff.mp hexp
    have hcomment : ¬ IsComment (slashed (init ++ [x]) ++ [',']) := fun hc =>
      not_loopEnds_of_isComment hc hends
    rw [hcomma] at hends
    obtain ⟨hlast', hafter⟩ :=
      (loopEnds_iff (hcomponents.trans hws) (by rwa [← hcomma])).mp hends
    rw [hlast, Option.some.injEq] at hlast'
    rw [← hlast', hwithout] at hversion
    refine ⟨hversion, fun c hc hcom => ?_, fun c hc a ha hmem' => ?_, fun c hc hbracket => ?_⟩
    · rcases hfirst.mpr ⟨c, hc, hcom⟩ with hcom | ⟨c, hc, hcom⟩
      · exact hcomment (hhead.mpr hcom)
      · exact (hafter c hc).1 hcom
    · exact hmeta a ((hmem a hmem').mpr ⟨c, hc, ha⟩) hmem'
    · obtain ⟨c, hc, hbracket⟩ := hrest.mpr ⟨c, hc, hbracket⟩
      exact (hafter c hc).2 hbracket
  · rintro ⟨hversion, hplain, hmeta, hbracket⟩ comp
    have hnone : ¬ ∃ c ∈ init ++ [x], IsComment c := fun ⟨c, hc, hcom⟩ => hplain c hc hcom
    rw [← hfirst, not_or] at hnone
    refine ⟨_, x ++ [','], expansion_eq_some_iff.mpr ⟨rfl, fun a ha hmem' => ?_⟩, ?_,
      hwithout.trans hversion⟩
    · obtain ⟨c, hc, hac⟩ := (hmem a hmem').mp ha
      exact hmeta c hc a hac hmem'
    · rw [hcomma]
      refine (loopEnds_iff (hcomponents.trans hws) (by rw [← hcomma, hhead]; exact hnone.1)).mpr
        ⟨hlast, fun c hc => ⟨fun hcom => hnone.2 ⟨c, hc, hcom⟩, fun hb => ?_⟩⟩
      obtain ⟨c, hc, hb⟩ := hrest.mp ⟨c, hc, hb⟩
      exact hbracket c hc hb

namespace DeployLog

variable (d : DeployLog)

theorem last_mem : d.last ∈ Text.lines d.text := by
  rw [last, Text.lastLine, List.getLast?_eq_some_getLast d.ne_nil]
  exact List.getLast_mem d.ne_nil

theorem getLast?_path : (d.path d.last).getLast? = some d.version := by
  rw [version, List.getLast?_eq_some_getLast (d.line d.last d.last_mem).ne_nil]
  rfl

/-- What the batch files keep from the log: the second field of the last line that is no
comment. -/
theorem secondToken_text (old : Text) : secondToken d.text old =
    ((((Text.lines d.text).filter (¬ IsComment ·)).getLast?).map
      fun l => slashed (d.path l) ++ [',']).getD old := by
  have htokens : (Text.lines d.text).filterMap (fun l => if l.head? = some ';' then none
      else (Shell.words [' '] l)[1]?) =
      ((Text.lines d.text).filter (¬ IsComment ·)).map fun l => slashed (d.path l) ++ [','] := by
    rw [← List.filterMap_eq_map, List.filterMap_filter]
    refine List.filterMap_congr fun l hl => ?_
    by_cases hcom : IsComment l
    · have hhead : l.head? = some ';' := hcom
      rw [if_pos hhead]
      simp [hcom]
    · have hhead : ¬ l.head? = some ';' := hcom
      rw [if_neg hhead, (d.line l hl).second]
      simp [hcom]
  rw [secondToken, htokens, List.getLast?_map]

/-- The scripts read the version of the last line. -/
theorem deployedVersion_last_iff : deployedVersion d.last = d.version ↔
    (d.path d.last).length = 1 ∨ (d.path d.last)[3]? = (d.path d.last).getLast? := by
  have hline := d.line d.last d.last_mem
  have hne : d.version ≠ [] :=
    (hline.component d.version (List.mem_of_getLast? d.getLast?_path)).1
  rw [hline.deployedVersion_eq (Text.newline_not_mem_of_mem_lines d.last_mem), d.getLast?_path]
  split_ifs with hone
  · obtain ⟨c, hc⟩ := List.length_eq_one_iff.mp hone
    have hversion := d.getLast?_path
    rw [hc, List.getLast?_singleton, Option.some.injEq] at hversion
    simp [hc, slashed, hversion]
  · rcases hfour : (d.path d.last)[3]? with _ | c
    · simp [hone, hne.symm]
    · simp [hone]

/-- The batch files read the version of the last line, in every console. -/
theorem readsVersion_iff : (∀ c, ReadsVersion c d.text d.version) ↔
    ∃ l, ((Text.lines d.text).filter (¬ IsComment ·)).getLast? = some l ∧
      (d.path l).getLast? = (d.path d.last).getLast? ∧ PlainComponents (d.path l) := by
  rw [d.getLast?_path]
  rcases hl : ((Text.lines d.text).filter (¬ IsComment ·)).getLast? with _ | l
  · -- every line is a comment, and the version is what the console has
    refine iff_of_false (fun h => ?_) (by simp)
    obtain ⟨codeNum, last, hexp, hends, -⟩ := h ⟨[], [], ";", [], ";"⟩
    rw [d.secondToken_text, hl] at hexp
    obtain ⟨rfl, -⟩ := expansion_eq_some_iff.mp hexp
    exact not_loopEnds_of_isComment (show IsComment ";".toList from rfl) hends
  · have hmem : l ∈ Text.lines d.text := List.mem_of_mem_filter (List.mem_of_getLast? hl)
    have hreads := (d.line l hmem).reads_iff d.version
    have hsame : (∀ c, ReadsVersion c d.text d.version) ↔
        ∀ comp, ∃ codeNum last, expansion (slashed (d.path l) ++ [',']) = some codeNum ∧
          LoopEnds codeNum comp last ∧ withoutLast last = d.version := by
      simp only [ReadsVersion, d.secondToken_text, hl, Option.map_some, Option.getD_some]
      exact ⟨fun h comp => h ⟨[], [], [], [], comp⟩, fun h c => h c.comp⟩
    rw [hsame, hreads]
    simp

/-- The version that the batch files read is the value of their loop. -/
theorem deployedVersionBat_of_readsVersion (h : ∀ c, ReadsVersion c d.text d.version)
    (c : Console) : deployedVersionBat c d.text = d.version := by
  obtain ⟨l, hl, -⟩ := d.readsVersion_iff.mp h
  have htoken : ∀ old, secondToken d.text old = slashed (d.path l) ++ [','] := fun old => by
    rw [d.secondToken_text, hl]
    rfl
  have hcomment : ¬ IsComment (slashed (d.path l) ++ [',']) := fun hcom => by
    obtain ⟨codeNum, last, hexp, hends, -⟩ := h { c with comp := slashed (d.path l) ++ [','] }
    rw [htoken] at hexp
    obtain ⟨rfl, -⟩ := expansion_eq_some_iff.mp hexp
    exact not_loopEnds_of_isComment hcom hends
  have hcomponents : components (slashed (d.path l) ++ [',']) ≠ [] := fun hnil => by
    have hcomma : ',' ∈ slashed (d.path l) ++ [','] := by simp
    obtain ⟨w, hw, -⟩ := (exists_mem_components_iff (by decide)).mpr hcomma
    rw [hnil] at hw
    cases hw
  obtain ⟨codeNum, last, hexp, hends, hversion⟩ := h c
  rw [htoken] at hexp
  obtain ⟨rfl, -⟩ := expansion_eq_some_iff.mp hexp
  rw [deployedVersionBat, htoken, lastComponent_of_loopEnds hcomponents hcomment hends, hversion]

end DeployLog

/-- **The running version**: the scripts and the batch files read the version of the last line
exactly when its path has one component, or its fourth component is its last one, and the last line
that is no comment has a plain path to the same version. -/
theorem sameVersion_iff (d : DeployLog) : SameVersion d ↔ OneVersion d := by
  constructor
  · rintro ⟨shell, batch⟩
    exact ⟨d.deployedVersion_last_iff.mp shell, d.readsVersion_iff.mp batch⟩
  · rintro ⟨fourth, last_line⟩
    exact ⟨d.deployedVersion_last_iff.mpr fourth, d.readsVersion_iff.mpr last_line⟩

/-- A log with the path `commerce8.5/trunkwithmodules`. -/
def trunkLog : DeployLog where
  text := "deployed commerce8.5/trunkwithmodules, preview\n"
  path := fun _ => ["commerce8.5".toList, "trunkwithmodules".toList]
  ne_nil := by decide
  line := by
    have hlines : Text.lines "deployed commerce8.5/trunkwithmodules, preview\n".toList =
        ["deployed commerce8.5/trunkwithmodules, preview".toList] := by decide
    intro l hl
    rw [hlines, List.mem_singleton] at hl
    subst hl
    exact ⟨by decide, by simp, by decide, by decide⟩

/-- From a path of two components, the scripts read no version. -/
theorem not_sameVersion_trunkLog : ¬ SameVersion trunkLog := by
  intro h
  have hshell := h.shell
  revert hshell
  decide

end Avetti
