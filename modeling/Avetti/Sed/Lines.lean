import Avetti.Sed.Script

/-!
# Lines that match

`grep` prints the lines in which a regular expression has a match. An address of `sed` selects the
lines that start with one, and `s/$/text/` adds a text to them.

## Main definitions

* `Regex.finds r t`: `r` has a match in `t`
* `Regex.grep pattern t`: the lines that `grep` prints
* `Appending`: the edits `/^address/ s/$/text/`
* `stream other script t`, `streams other scripts t`: the text after `sed -i`, when `other` is what
  `sed` makes of the scripts that are not read here
* `subAll rs t`: the text after several substitutions
* `Regex.steady as p`: no match starts in `p`, whatever follows it

## Main results

* `Regex.finds_plain_iff`: what `grep` finds
* `Appending.splitOn_apply`: an addition edits the lines one by one
* `sub_const_eq_self_iff`, `length_sub_const`: matches that are replaced by one text
* `subAll_append`, `subAll_concat`: the text before and after the matches stays
-/

namespace Regex

/-! ## Search -/

/-- The expression has a match in the text. -/
def finds (r : Regex) : Text → Bool
  | [] => (longest r []).isSome
  | c :: t => (longest r (c :: t)).isSome || finds r t

/-- `grep pattern`. -/
def grep (pattern t : Text) : Text := (parse pattern).elim [] fun r => Text.grep r.finds t

theorem isSome_longest_plain_iff {as : List Atom} {t : Text} :
    (longest (plain as) t).isSome = true ↔
      ∃ m, m <+: t ∧ List.Forall₂ (fun a c => a.accepts c = true) as m := by
  rw [Option.isSome_iff_exists]
  constructor
  · rintro ⟨n, hn⟩
    obtain ⟨m, b, rfl, -, hm⟩ := exists_of_longest_plain hn
    exact ⟨m, List.prefix_append m b, hm⟩
  · rintro ⟨m, ⟨b, rfl⟩, hm⟩
    exact ⟨m.length, longest_plain_append hm b⟩

theorem finds_plain_iff {as : List Atom} {t : Text} : finds (plain as) t = true ↔
    ∃ m, Text.Occurs m t ∧ List.Forall₂ (fun a c => a.accepts c = true) as m := by
  induction t with
  | nil =>
    rw [finds, isSome_longest_plain_iff]
    simp [Text.Occurs]
  | cons c t ih =>
    rw [finds, Bool.or_eq_true, isSome_longest_plain_iff, ih, ← exists_or]
    refine exists_congr fun m => ?_
    rw [← or_and_right, Text.Occurs, Text.Occurs, List.infix_cons_iff]

/-- A pattern without special characters other than the dot is read one by one. -/
theorem parse_of_forall {t : Text} (hne : t ≠ []) (ht : ∀ c ∈ t, c ∉ "*[\\^$".toList) :
    parse t = some (plain (t.map atomOf)) := by
  have hspecial : "*[\\^$".toList = ['*', '[', '\\', '^', '$'] := rfl
  have hchar : ∀ c ∈ t, c ∉ "*[\\^".toList ∧ c ∉ "*[\\$".toList ∧ c ∉ "*[\\".toList := by
    intro c hc
    have h := ht c hc
    simp_all
  obtain ⟨c, w, rfl⟩ := List.exists_cons_of_ne_nil hne
  rcases List.eq_nil_or_concat w with rfl | ⟨w, d, rfl⟩
  · have hc := ht c List.mem_cons_self
    have hitems : items 1 [] [c] = items 0 [⟨atomOf c, false⟩] [] :=
      items_cons (hchar c List.mem_cons_self).2.2 (fun h => absurd (h ▸ by decide) hc)
        fun h => absurd (h ▸ by decide) hc
    rw [parse, List.length_singleton, hitems]
    rfl
  · rw [List.concat_eq_append] at hchar ⊢
    refine parse_of_ordinary (hchar c List.mem_cons_self).1 (hchar d (by simp)).2.1 fun e he => ?_
    exact (hchar e (by simp [he])).2.2

/-- The texts that the name of a file or of a host matches contain a match of the same length. -/
theorem finds_of_occurs {w t : Text} (hw : '\n' ∉ w) (h : Text.Occurs w t) :
    finds (plain (w.map atomOf)) t = true :=
  finds_plain_iff.mpr ⟨w, h, forall₂_atomOf hw⟩

theorem finds_plain_nil {as : List Atom} (has : as ≠ []) : finds (plain as) [] = false := by
  obtain ⟨a, as, rfl⟩ := List.exists_cons_of_ne_nil has
  rfl

/-! ## Text around matches -/

/-- An atom rejects its character. -/
def clashes (as : List Atom) (t : Text) : Bool := (as.zip t).any fun p => !p.1.accepts p.2

/-- No match of the atoms starts in the text, whatever follows it. -/
def steady (as : List Atom) : Text → Bool
  | [] => true
  | c :: t => clashes as (c :: t) && steady as t

theorem longest_of_clashes {as : List Atom} {p : Text} (h : clashes as p = true) (t : Text) :
    longest (plain as) (p ++ t) = none := by
  induction as generalizing p with
  | nil => cases h
  | cons a as ih =>
    rcases p with _ | ⟨c, p⟩
    · cases h
    · rw [clashes, List.zip_cons_cons, List.any_cons, Bool.or_eq_true, ← clashes] at h
      rw [plain, List.map_cons, List.cons_append, longest, ← plain]
      rcases h with h | h
      · exact if_neg (by simpa using h)
      · rw [ih h]
        split_ifs <;> rfl

/-- A match ends before a last character that its last atom rejects. -/
theorem longest_concat {as : List Atom} {a : Atom} {d : Char} (ha : a.accepts d = false)
    (t : Text) : longest (plain (as ++ [a])) (t ++ [d]) = longest (plain (as ++ [a])) t := by
  induction as generalizing t with
  | nil =>
    rcases t with _ | ⟨c, t⟩
    · exact if_neg (by simp [ha])
    · rfl
  | cons b as ih =>
    rcases t with _ | ⟨c, t⟩
    · have hrest : longest (plain (as ++ [a])) [] = none := by cases as <;> rfl
      rw [plain] at hrest
      rw [List.nil_append, List.cons_append, plain, List.map_cons, longest, longest, hrest]
      split_ifs <;> rfl
    · rw [List.cons_append, List.cons_append, plain, List.map_cons, longest, longest, ← plain, ih]

end Regex

namespace Sed

open Piece

section Around

variable {as : List Atom} {a : Atom} {p : Text}

theorem sub_append_of_steady (h : Regex.steady as p = true) (f : Text → Text) (t : Text) :
    sub (Regex.plain as) f (p ++ t) = p ++ sub (Regex.plain as) f t := by
  have hpieces : pieces (Regex.plain as) 0 (p ++ t) =
      p.map Piece.kept ++ pieces (Regex.plain as) 0 t := by
    induction p with
    | nil => rfl
    | cons c p ih =>
      rw [Regex.steady, Bool.and_eq_true] at h
      have hnone := Regex.longest_of_clashes h.1 t
      rw [List.cons_append] at hnone ⊢
      rw [pieces, hnone, ih h.2]
      rfl
  rw [sub, hpieces, List.flatMap_append, flatMap_image_map_kept, ← sub]

theorem sub_concat {d : Char} (ha : a.accepts d = false) (f : Text → Text) (t : Text) :
    sub (Regex.plain (as ++ [a])) f (t ++ [d]) = sub (Regex.plain (as ++ [a])) f t ++ [d] := by
  have hlongest : ∀ u, (Regex.plain (as ++ [a])).longest (u ++ [d]) =
      (Regex.plain (as ++ [a])).longest u := Regex.longest_concat ha
  have hlast : pieces (Regex.plain (as ++ [a])) 0 [d] = [Piece.kept d] := by
    have hnone := hlongest []
    have hnil : (Regex.plain (as ++ [a])).longest [] = none := by cases as <;> rfl
    rw [List.nil_append, hnil] at hnone
    rw [pieces, hnone]
    rfl
  have hpieces := pieces_append_of_longest (fun u _ => hlongest u) (Nat.zero_le t.length)
  rw [sub, hpieces, hlast, List.flatMap_append]
  rfl

theorem sub_of_not_finds {r : Regex} {t : Text} (h : r.finds t = false) (f : Text → Text) :
    sub r f t = t := by
  have hpieces : pieces r 0 t = t.map Piece.kept := by
    induction t with
    | nil => rfl
    | cons c t ih =>
      rw [Regex.finds, Bool.or_eq_false_iff, Option.isSome_eq_false_iff, Option.isNone_iff_eq_none] at h
      rw [pieces, h.1, ih h.2]
      rfl
  rw [sub, hpieces, flatMap_image_map_kept]

end Around

/-! ## Matches of the same length -/

section Constant

variable {as : List Atom} {w t : Text} {ps : List Piece}

theorem length_of_found {m : Text} {k : ℕ} (h : found m ∈ pieces (Regex.plain as) k t) :
    m.length = as.length := (forall₂_of_found h).length_eq.symm

/-- What replacing the matches by one text makes of the length. -/
theorem length_image_const {n : ℕ} (hps : ∀ m, found m ∈ ps → m.length = n) :
    ∃ k, (ps.flatMap (image fun _ => w)).length + k * n =
        (ps.flatMap source).length + k * w.length ∧ (k = 0 → ∃ t : Text, ps = t.map kept) := by
  -- `k` is the number of the matches
  induction ps with
  | nil => exact ⟨0, by simp, fun _ => ⟨[], rfl⟩⟩
  | cons p ps ih =>
    obtain ⟨k, hk, hkept⟩ := ih fun m hm => hps m (List.mem_cons_of_mem p hm)
    rw [List.flatMap_cons, List.flatMap_cons, List.length_append, List.length_append]
    cases p with
    | kept c =>
      refine ⟨k, ?_, fun h => ?_⟩
      · simp only [image, source, List.length_singleton]
        omega
      · obtain ⟨t, rfl⟩ := hkept h
        exact ⟨c :: t, rfl⟩
    | found m =>
      refine ⟨k + 1, ?_, fun h => absurd h (Nat.succ_ne_zero k)⟩
      have hm := hps m List.mem_cons_self
      simp only [image, source, Nat.succ_mul]
      omega

theorem image_eq_source_iff {n : ℕ} (hps : ∀ m, found m ∈ ps → m.length = n) :
    ps.flatMap (image fun _ => w) = ps.flatMap source ↔ ∀ m, found m ∈ ps → m = w := by
  constructor
  · intro h
    obtain ⟨k, hk, hkept⟩ := length_image_const (w := w) hps
    rw [h] at hk
    rcases Nat.eq_zero_or_pos k with rfl | hpos
    · obtain ⟨t, rfl⟩ := hkept rfl
      simp
    · -- the matches are as long as the replacement, so the pieces can be compared one by one
      have hlength : n = w.length := Nat.eq_of_mul_eq_mul_left hpos (Nat.add_left_cancel hk)
      clear hk hkept hpos
      induction ps with
      | nil => simp
      | cons p ps ih =>
        have ih := ih fun m hm => hps m (List.mem_cons_of_mem p hm)
        cases p with
        | kept c =>
          have htail := ih (List.cons.inj h).2
          simpa using htail
        | found m =>
          obtain ⟨hm, htail⟩ := List.append_inj h
            ((hps m List.mem_cons_self).trans hlength).symm
          intro m' hm'
          rcases List.mem_cons.mp hm' with hm' | hm'
          · cases hm'
            exact hm.symm
          · exact ih htail m' hm'
  · intro h
    refine List.flatMap_congr fun p hp => ?_
    cases p with
    | kept c => rfl
    | found m => exact (h m hp).symm

/-- A text stays exactly when nothing but the replacement is found in it. -/
theorem sub_const_eq_self_iff : sub (Regex.plain as) (fun _ => w) t = t ↔
    ∀ m, found m ∈ pieces (Regex.plain as) 0 t → m = w := by
  have hsource : (pieces (Regex.plain as) 0 t).flatMap source = t :=
    flatMap_source_pieces (Regex.plain as) 0 t
  have hiff : sub (Regex.plain as) (fun _ => w) t = (pieces (Regex.plain as) 0 t).flatMap source ↔
      ∀ m, found m ∈ pieces (Regex.plain as) 0 t → m = w :=
    image_eq_source_iff fun m hm => length_of_found hm
  rwa [hsource] at hiff

/-- Nothing is found where all is kept. -/
theorem finds_eq_false_of_kept (has : as ≠ []) (h : pieces (Regex.plain as) 0 t = t.map kept) :
    (Regex.plain as).finds t = false := by
  rw [Bool.eq_false_iff, Ne, Regex.finds_plain_iff]
  rintro ⟨m, ⟨a, b, hab⟩, hm⟩
  have hlongest := Regex.longest_plain_append hm b
  obtain ⟨n, hn⟩ := Nat.exists_eq_succ_of_ne_zero
    (n := m.length) (by rw [← hm.length_eq]; simpa using has)
  rw [hn] at hlongest
  exact longest_of_pieces_kept h (a := a) (b := m ++ b) (by rw [← hab, List.append_assoc]) n
    hlongest

/-- What a shorter replacement makes of the length. -/
theorem length_sub_const (has : as ≠ []) : ∃ k,
    (sub (Regex.plain as) (fun _ => w) t).length + k * as.length = t.length + k * w.length ∧
      (k = 0 → (Regex.plain as).finds t = false) := by
  have hsource : (pieces (Regex.plain as) 0 t).flatMap source = t :=
    flatMap_source_pieces (Regex.plain as) 0 t
  obtain ⟨k, hk, hkept⟩ :=
    length_image_const (w := w) fun m (hm : found m ∈ pieces (Regex.plain as) 0 t) =>
      length_of_found hm
  rw [hsource, ← sub] at hk
  refine ⟨k, hk, fun h => ?_⟩
  obtain ⟨u, hu⟩ := hkept h
  rw [hu, flatMap_source_map_kept] at hsource
  exact finds_eq_false_of_kept has (hsource ▸ hu)

end Constant

/-! ## Additions -/

/-- An edit `/^address/ s/$/text/`. -/
structure Appending where
  address : Regex
  parts : List Part
  deriving DecidableEq, Repr

namespace Appending

/-- The addition that is written so, if it is one. -/
def parse : Text → Option Appending
  | '/' :: '^' :: t => do
    let (pattern, t) ← delimited t
    let address ← Regex.parse pattern
    match t with
    | ' ' :: 's' :: '/' :: '$' :: '/' :: t =>
      let (parts, t) ← replacement t
      if t = [] then some ⟨address, parts⟩ else none
    | _ => none
  | _ => none

/-- A line after the edit. -/
def line (e : Appending) (l : Text) : Text :=
  if (e.address.longest l).isSome then l ++ expand e.parts [] else l

/-- A text after the edit. -/
def apply (e : Appending) (t : Text) : Text := Text.mapLines e.line t

/-- An addition with an ordinary address and an ordinary text. -/
theorem parse_script {text : Text} (address : Text) (hne : address ≠ [])
    (haddress : ∀ c ∈ address, c ∉ "*[\\^$/\n".toList) (htext : Verbatim text) :
    parse ("/^".toList ++ address ++ "/ s/$/".toList ++ text ++ "/".toList) =
      some ⟨Regex.plain (address.map Regex.atomOf), text.map .lit⟩ := by
  have hshape : "/^".toList ++ address ++ "/ s/$/".toList ++ text ++ "/".toList =
      '/' :: '^' :: (address ++ '/' :: ' ' :: 's' :: '/' :: '$' :: '/' :: (text ++ ['/'])) := by
    have hstart : "/^".toList = ['/', '^'] := rfl
    have hmiddle : "/ s/$/".toList = ['/', ' ', 's', '/', '$', '/'] := rfl
    have hend : "/".toList = ['/'] := rfl
    rw [hstart, hmiddle, hend]
    simp only [List.append_assoc, List.cons_append, List.nil_append]
  have hdelimited : ∀ t, delimited (address ++ '/' :: t) = some (address, t) := by
    intro t
    rw [delimited_append fun c hc h => haddress c hc ?_, delimited_slash]
    · simp
    · exact List.subset_def.mp (by decide : "/\\\n".toList ⊆ "*[\\^$/\n".toList) h
  have hparse : Regex.parse address = some (Regex.plain (address.map Regex.atomOf)) :=
    Regex.parse_of_forall hne fun c hc h => haddress c hc (List.mem_append_left "/\n".toList h)
  have hreplacement : replacement (text ++ ['/']) = some (text.map .lit, []) := by
    rw [replacement_append htext]
    simp [replacement]
  rw [hshape, parse]
  simp only [hdelimited, hparse, hreplacement, Option.bind_eq_bind, Option.bind_some, if_true]

/-- An addition edits the lines one by one. -/
theorem splitOn_apply {e : Appending} (hnil : e.address.longest [] = none)
    (hparts : '\n' ∉ expand e.parts []) (t : Text) :
    (e.apply t).splitOn '\n' = (t.splitOn '\n').map e.line := by
  have hline : e.line [] = [] := if_neg (by simp [hnil])
  rw [apply, Text.mapLines_of_nil hline]
  refine List.splitOn_intercalate '\n' (fun l hl => ?_) (by simp)
  obtain ⟨l', hl', rfl⟩ := List.mem_map.mp hl
  have hnl : '\n' ∉ l' := Text.newline_not_mem_of_mem_splitOn hl'
  rw [line]
  split_ifs
  · simp [hnl, hparts]
  · exact hnl

end Appending

/-- A text after `sed -i` with a substitution or an addition. -/
def stream (other : Text → Text → Text) (script t : Text) : Text :=
  match Appending.parse script with
  | some e => e.apply t
  | none => edit other script t

theorem stream_of_parse {other : Text → Text → Text} {script : Text} {e : Appending}
    (h : Appending.parse script = some e) : stream other script = e.apply := by
  funext t
  rw [stream, h]

/-- A text after several edits, in order. -/
def streams (other : Text → Text → Text) (scripts : List Text) (t : Text) : Text :=
  scripts.foldl (fun t script => stream other script t) t

/-! ## Substitutions in order -/

/-- A substitution of an expression without stars. -/
structure Rule where
  atoms : List Atom
  image : Text → Text

/-- A text after a substitution. -/
def Rule.apply (r : Rule) (t : Text) : Text := sub (Regex.plain r.atoms) r.image t

/-- A text after several substitutions, in order. -/
def subAll (rs : List Rule) (t : Text) : Text := rs.foldl (fun t r => r.apply t) t

section SubAll

variable {rs : List Rule}

theorem subAll_cons (r : Rule) (rs : List Rule) (t : Text) :
    subAll (r :: rs) t = subAll rs (r.apply t) := rfl

/-- A script with an ordinary pattern is the substitution of its characters. -/
theorem stream_script {pattern repl : Text} {parts : List Part} (hne : pattern ≠ [])
    (hpattern : ∀ c ∈ pattern, c ∉ "*[\\^$/\n".toList)
    (hrepl : replacement (repl ++ ['/', 'g']) = some (parts, ['g']))
    (other : Text → Text → Text) (t : Text) :
    stream other (script pattern repl) t = Rule.apply ⟨pattern.map Regex.atomOf, expand parts⟩ t := by
  have hparse : Regex.parse pattern = some (Regex.plain (pattern.map Regex.atomOf)) :=
    Regex.parse_of_forall hne fun c hc h => hpattern c hc (List.mem_append_left "/\n".toList h)
  have hdelimited : delimited (pattern ++ '/' :: (repl ++ ['/', 'g'])) =
      some (pattern, repl ++ ['/', 'g']) := by
    rw [delimited_append fun c hc h => hpattern c hc ?_, delimited_slash]
    · simp
    · exact List.subset_def.mp (by decide : "/\\\n".toList ⊆ "*[\\^$/\n".toList) h
  have hread : Substitution.parse (script pattern repl) =
      some ⟨Regex.plain (pattern.map Regex.atomOf), parts⟩ := by
    rw [script, Substitution.parse_of_delimited hdelimited, hparse]
    simp only [Option.bind_some, hrepl, if_true]
  exact edit_of_parse hread t

theorem streams_eq_subAll {other : Text → Text → Text} {scripts : List Text}
    (h : List.Forall₂ (fun script r => ∀ t, stream other script t = Rule.apply r t) scripts rs)
    (t : Text) : streams other scripts t = subAll rs t := by
  induction h generalizing t with
  | nil => rfl
  | cons hr _ ih =>
    rw [streams, List.foldl_cons, hr, subAll_cons, ← ih]
    rfl

theorem splitOn_subAll (hrs : ∀ r ∈ rs, ∀ m, '\n' ∉ m → '\n' ∉ r.image m) (t : Text) :
    (subAll rs t).splitOn '\n' = (t.splitOn '\n').map (subAll rs) := by
  induction rs generalizing t with
  | nil => exact (List.map_id _).symm
  | cons r rs ih =>
    have hr := hrs r List.mem_cons_self
    rw [subAll_cons, ih (fun r' hr' => hrs r' (List.mem_cons_of_mem _ hr')), Rule.apply,
      splitOn_sub fun m hm => hr m (newline_not_mem_of_found hm), List.map_map]
    rfl

/-- A text in which no match starts stays in front. -/
theorem subAll_append {p : Text} (hrs : ∀ r ∈ rs, Regex.steady r.atoms p = true) (t : Text) :
    subAll rs (p ++ t) = p ++ subAll rs t := by
  induction rs generalizing t with
  | nil => rfl
  | cons r rs ih =>
    rw [subAll_cons, Rule.apply, sub_append_of_steady (hrs r List.mem_cons_self),
      ih fun r' hr' => hrs r' (List.mem_cons_of_mem _ hr')]
    rfl

/-- A last character that ends no match stays at the end. -/
theorem subAll_concat {d : Char}
    (hrs : ∀ r ∈ rs, ∃ as a, r.atoms = as ++ [a] ∧ a.accepts d = false) (t : Text) :
    subAll rs (t ++ [d]) = subAll rs t ++ [d] := by
  induction rs generalizing t with
  | nil => rfl
  | cons r rs ih =>
    obtain ⟨as, a, hatoms, ha⟩ := hrs r List.mem_cons_self
    have hr : r.apply (t ++ [d]) = r.apply t ++ [d] := by
      rw [Rule.apply, hatoms, sub_concat ha, ← hatoms]
      rfl
    rw [subAll_cons, hr, ih fun r' hr' => hrs r' (List.mem_cons_of_mem _ hr')]
    rfl

end SubAll

end Sed
