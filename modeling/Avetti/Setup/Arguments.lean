import Avetti.Setup.Parameters
import Avetti.Text.Echo

/-!
# The lines of the arguments

`setup.sh` looks at its first six arguments as the lines that `echo -e` prints for them. A flag is a
line that is the flag, and the values are the other lines that are not empty.

## Main definitions

* `slots args`: the six arguments that are looked at
* `isValue l`: the line is neither empty nor a flag

## Main results

* `filter_lines_argumentLines`: the lines are those that `echo -e` prints for the slots
* `values_eq`, `flagGiven_eq`: the values and the flags are read off the lines
-/

open Script

namespace Avetti

/-- The six arguments that are looked at; those that are not given are empty. -/
def slots (args : List Text) : List Text := (List.range 6).map fun i => (args[i]?).getD []

/-- The line is neither empty nor a flag. -/
def isValue (l : Text) : Bool := l ≠ [] ∧ ¬ isOneOf flags l

theorem slots_ne_nil (args : List Text) : slots args ≠ [] := by simp [slots]

theorem slots_eq (args : List Text) :
    slots args = args.take 6 ++ List.replicate (6 - args.length) [] := by
  refine List.ext_getElem? fun i => ?_
  rw [slots, List.getElem?_map, List.getElem?_append, List.length_take, List.getElem?_take,
    List.getElem?_replicate]
  rcases lt_or_ge i 6 with hi | hi
  · rw [List.getElem?_range hi, if_pos hi, Option.map_some]
    rcases lt_or_ge i args.length with hi' | hi'
    · rw [if_pos (by omega), List.getElem?_eq_getElem hi']
      rfl
    · rw [if_neg (by omega), if_pos (by omega), List.getElem?_eq_none hi']
      rfl
  · rw [List.getElem?_eq_none (by simpa using hi), if_neg (by omega), if_neg (by omega)]
    rfl

/-- A text without an escape letter in front is no option of `echo`. -/
theorem isEchoOption_of_mem {t : Text} (h : '\\' ∈ t) : Shell.isEchoOption t = false := by
  rcases t with _ | ⟨c, t⟩
  · cases h
  · by_cases hc : c = '-'
    · subst hc
      have hmem : '\\' ∈ t := by simpa using h
      refine decide_eq_false fun hall => ?_
      exact absurd (hall.2 '\\' hmem) (by decide)
    · unfold Shell.isEchoOption
      split
      · exact absurd (List.cons.inj ‹_›).1 hc
      · rfl

theorem argumentLines_eq (args : List Text) : argumentLines args =
    Shell.printed (slots args) ++
      if (Shell.unescape (Shell.separator.intercalate (slots args))).2 then ['\n'] else [] := by
  have hslots : argumentLines args =
      Shell.echo ["-e", Shell.separator.intercalate (slots args)] := rfl
  have hmem : '\\' ∈ Shell.separator.intercalate (slots args) := by
    have hcons : slots args = (args[0]?).getD [] :: (args[1]?).getD [] :: (slots args).tail.tail := rfl
    rw [hcons, List.intercalate_cons_cons]
    simp [Shell.separator]
  have hdash : Shell.isEchoOption "-e".toList = true := by decide
  rw [hslots, Shell.echo, Shell.echoOptions, if_pos hdash, Shell.echoOptions,
    if_neg (by simp [isEchoOption_of_mem hmem])]
  have hn : (true && decide ('n' ∉ "-e".toList)) = true := by decide
  have he : (("-e".toList.filter fun c => c = 'e' ∨ c = 'E').getLast?.elim false (· = 'e')) = true := by
    decide
  rw [hn, he, Shell.echoWith, List.intercalate_singleton, Shell.printed]
  rcases Shell.unescape (Shell.separator.intercalate (slots args)) with ⟨u, _ | _⟩ <;> simp

/-- The lines that are looked at are those that `echo -e` prints for the slots. -/
theorem filter_lines_argumentLines {p : Text → Bool} (hp : p [] = false) (args : List Text) :
    (Text.lines (argumentLines args)).filter p = Shell.valueLines p (Shell.printed (slots args)) := by
  rw [argumentLines_eq, Shell.valueLines]
  split_ifs
  · rw [Text.filter_lines hp, List.splitOn_append_cons_self, List.filter_append]
    simp [hp]
  · rw [List.append_nil, Text.filter_lines hp]

/-- The values of the arguments are the lines that are neither empty nor flags. -/
theorem values_eq (glob : Text → List Text) (args : List Text) : values glob args =
    (Shell.valueLines isValue (Shell.printed (slots args))).flatMap (Shell.expand glob) := by
  have hlines : ((Text.lines (argumentLines args)).filter fun l => ¬ isOneOf flags l).filter (· ≠ []) =
      (Text.lines (argumentLines args)).filter isValue := by
    rw [List.filter_filter]
    congr 1
    funext l
    simp [isValue, Bool.and_comm]
  rw [values, Shell.unquoted, Text.grep, Shell.words_unlines_newline fun l hl =>
    Text.newline_not_mem_of_mem_lines (List.mem_of_mem_filter hl), hlines,
    filter_lines_argumentLines (by decide)]

/-- The lines that are one of some words are words. -/
theorem isWord_of_isOneOf {ws : List Text} {l : Text}
    (hws : ∀ w ∈ ws, w ≠ [] ∧ ∀ c ∈ Shell.defaultIFS, c ∉ w) (hl : isOneOf ws l = true) :
    Shell.IsWord Shell.defaultIFS l := by
  have hlower : ∀ c ∈ Shell.defaultIFS, c.toLower = c := by decide
  have hmem : Text.lower l ∈ ws := of_decide_eq_true hl
  obtain ⟨hne, hblank⟩ := hws _ hmem
  refine ⟨?_, fun c hc hcl => hblank c hc (hlower c hc ▸ List.mem_map_of_mem hcl)⟩
  rintro rfl
  exact hne rfl

/-- A test that counts the lines that are one of some words. -/
theorem words_grep_isOneOf {ws : List Text} (hws : ∀ w ∈ ws, w ≠ [] ∧ ∀ c ∈ Shell.defaultIFS, c ∉ w)
    (args : List Text) :
    Shell.words Shell.defaultIFS (Text.grep (isOneOf ws) (argumentLines args)) =
      Shell.valueLines (isOneOf ws) (Shell.printed (slots args)) := by
  have hnil : isOneOf ws [] = false := decide_eq_false fun h => (hws [] h).1 rfl
  have hwords : ∀ l ∈ (Text.lines (argumentLines args)).filter (isOneOf ws),
      Shell.IsWord Shell.defaultIFS l := fun l hl =>
    isWord_of_isOneOf hws (List.mem_filter.mp hl).2
  rw [Text.grep, Shell.words_unlines (by decide) hwords, filter_lines_argumentLines hnil]

/-- A flag is given when one line is the flag. -/
theorem flagGiven_eq {flag : Text} (hflag : flag ∈ flags) (args : List Text) : flagGiven args flag =
    decide ((Shell.valueLines (isOneOf [flag]) (Shell.printed (slots args))).length = 1) := by
  have hwords : ∀ f ∈ flags, f ≠ [] ∧ ∀ c ∈ Shell.defaultIFS, c ∉ f := by decide
  have hws : ∀ w ∈ [flag], w ≠ [] ∧ ∀ c ∈ Shell.defaultIFS, c ∉ w := fun w hw =>
    List.mem_singleton.mp hw ▸ hwords flag hflag
  rw [flagGiven, words_grep_isOneOf hws]

/-- The lines that ask for help. -/
def helpLines (args : List Text) : List Text :=
  Shell.valueLines (isOneOf ["--help", "-h"]) (Shell.printed (slots args))

/-- The lines that start with a dash. -/
def dashLines (args : List Text) : List Text :=
  Shell.valueLines ("-".toList.isPrefixOf ·) (Shell.printed (slots args))

/-- The lines that are flags. -/
def flagLines (args : List Text) : List Text :=
  Shell.valueLines (isOneOf flags) (Shell.printed (slots args))

theorem grep_ne_nil_iff {p : Text → Bool} (hp : p [] = false) (args : List Text) :
    Text.grep p (argumentLines args) ≠ [] ↔
      Shell.valueLines p (Shell.printed (slots args)) ≠ [] := by
  have hunlines : ∀ ls, Text.unlines ls = [] ↔ ls = [] := by
    intro ls
    rcases ls with _ | ⟨l, ls⟩
    · simp [Text.unlines]
    · simp [Text.unlines]
  rw [Text.grep, Ne, hunlines, filter_lines_argumentLines hp]

/-- The check of the options: one line may ask for help, and lines with a dash need a flag among
the lines. -/
theorem optionsAccepted_eq (args : List Text) : optionsAccepted args = (do
    let help ← test (helpLines args)
    return !help && (decide (dashLines args = []) || decide (flagLines args ≠ []))) := by
  have hhelp : ∀ w ∈ (["--help", "-h"] : List Text), w ≠ [] ∧ ∀ c ∈ Shell.defaultIFS, c ∉ w := by
    decide
  have hdashes : ∀ l ∈ Shell.valueLines ("--".toList.isPrefixOf ·) (Shell.printed (slots args)),
      l ∈ dashLines args := by
    intro l hl
    obtain ⟨hl, hdash⟩ := List.mem_filter.mp hl
    refine List.mem_filter.mpr ⟨hl, ?_⟩
    have hbegins : "-".toList <+: "--".toList := ⟨['-'], rfl⟩
    exact List.isPrefixOf_iff_prefix.mpr (hbegins.trans (List.isPrefixOf_iff_prefix.mp hdash))
  have hknown := grep_ne_nil_iff (p := isOneOf flags) (by decide) args
  have hone := grep_ne_nil_iff (p := ("-".toList.isPrefixOf ·)) (by decide) args
  have htwo := grep_ne_nil_iff (p := ("--".toList.isPrefixOf ·)) (by decide) args
  rw [optionsAccepted, words_grep_isOneOf hhelp]
  refine congrArg _ (funext fun help => ?_)
  cases help with
  | true => rfl
  | false =>
    by_cases hflag : flagLines args = []
    · have hflag' : ¬ (Text.grep (isOneOf flags) (argumentLines args) ≠ []) := fun h =>
        hknown.mp h hflag
      by_cases hdash : dashLines args = []
      · have hone' : ¬ (Text.grep ("-".toList.isPrefixOf ·) (argumentLines args) ≠ []) := fun h =>
          hone.mp h hdash
        have htwo' : ¬ (Text.grep ("--".toList.isPrefixOf ·) (argumentLines args) ≠ []) := by
          intro h
          obtain ⟨l, hl⟩ := List.exists_mem_of_ne_nil _ (htwo.mp h)
          exact absurd hdash (List.ne_nil_of_mem (hdashes l hl))
        simp only [hflag', hone', htwo', hdash, false_and, if_false]
        rfl
      · have hone' : Text.grep ("-".toList.isPrefixOf ·) (argumentLines args) ≠ [] := hone.mpr hdash
        have hnone : ¬ (flagLines args ≠ []) := fun h => h hflag
        simp only [hflag', hone', hdash, hnone, not_false_eq_true, and_true, if_true, ne_eq,
          decide_false, Bool.or_self, Bool.and_false]
        split_ifs <;> rfl
    · have hflag' : Text.grep (isOneOf flags) (argumentLines args) ≠ [] := hknown.mpr hflag
      simp [hflag, hflag']

/-- A line that is no value is printed as it is. -/
theorem plainElse_isValue : Shell.PlainElse isValue := by
  have hplain : ∀ f ∈ flags, '\\' ∉ f ∧ '\n' ∉ f := by decide
  have hlower : ∀ {c : Char} {l : Text}, c.toLower = c → c ∈ l → c ∈ Text.lower l := fun hc hl =>
    hc ▸ List.mem_map_of_mem hl
  intro l hl
  by_cases hnil : l = []
  · simp [hnil]
  · have hflag : Text.lower l ∈ flags := by simpa [isValue, hnil, isOneOf] using hl
    obtain ⟨hslash, hnewline⟩ := hplain _ hflag
    exact ⟨fun h => hslash (hlower (by decide) h), fun h => hnewline (hlower (by decide) h)⟩

theorem eq_dash_of_toLower {c : Char} (h : c.toLower = '-') : c = '-' := by
  unfold Char.toLower at h
  split at h
  · next hupper =>
    exfalso
    have hval : c.val + ('a'.val - 'A'.val) = '-'.val := congrArg Char.val h
    have hnat := congrArg UInt32.toNat hval
    have hlo : 'A'.val.toNat ≤ c.val.toNat := UInt32.le_iff_toNat_le.mp hupper.1
    have hhi : c.val.toNat ≤ 'Z'.val.toNat := UInt32.le_iff_toNat_le.mp hupper.2
    have hbounds : ('a'.val - 'A'.val).toNat = 32 ∧ 'A'.val.toNat = 65 ∧ 'Z'.val.toNat = 90 ∧
        '-'.val.toNat = 45 := by decide
    rw [UInt32.toNat_add] at hnat
    omega
  · exact h

/-- A word that asks for help starts with a dash. -/
theorem head_of_lower {w : Text} (h : Text.lower w ∈ (["--help", "-h"] : List Text)) :
    w.head? = some '-' := by
  have hdash : ∀ f ∈ (["--help", "-h"] : List Text), f.head? = some '-' := by decide
  have hhead := hdash _ h
  rcases w with _ | ⟨c, w⟩
  · cases hhead
  · rw [Text.lower, List.map_cons, List.head?_cons, Option.some.injEq] at hhead
    rw [List.head?_cons, eq_dash_of_toLower hhead]

/-- The lines of arguments that are printed as they are. -/
theorem valueLines_slots {args : List Text} (has : Shell.AsIs (slots args))
    (hnl : ∀ w ∈ args.take 6, '\n' ∉ w) {p : Text → Bool} (hp : p [] = false) :
    Shell.valueLines p (Shell.printed (slots args)) = (args.take 6).filter p := by
  have hslots : ∀ w ∈ slots args, '\n' ∉ w := by
    intro w hw
    rw [slots_eq, List.mem_append] at hw
    rcases hw with hw | hw
    · exact hnl w hw
    · rw [List.eq_of_mem_replicate hw]
      exact List.not_mem_nil
  rw [Shell.valueLines, Shell.printed_of_asIs has,
    List.splitOn_intercalate '\n' hslots (slots_ne_nil args), slots_eq, List.filter_append]
  simp [hp]

end Avetti
