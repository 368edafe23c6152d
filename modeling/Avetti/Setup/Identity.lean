import Avetti.Setup.Files

/-!
# The identity of the web server

`configureHttpd` reads the user and the group of the web server from `httpd.conf`, and replaces them
by `httpd` and `apache`. The names that are read are spliced into two substitutions of the whole
file; the pattern of both starts with `User`.

## Main definitions

* `HttpdConf`: a configuration with one directive for the user and one for the group
* `identityText other v t`: the configuration after the edits
* `Intended other v d`: the user is `httpd`, the group is `apache`, and nothing else has changed
* `Renamable d`: the group is `apache`, and the patterns that are read find nothing but the user
* `HttpdConf.ReadsWanted d`: the wanted names are read from the directives that have them

## Main results

* `Edits.group_eq`: the group is never renamed
* `renamable_of_intended`, `Renamable.intended`: when the edits do what they are for
-/

open Sed Script

namespace Avetti

/-! ## The configuration -/

/-- The name in a directive: it follows the keyword, which can be written in any case, and one blank.
Blanks around the directive do not matter. -/
def directive (keyword l : Text) : Option Text :=
  let w := l.dropWhile Char.isWhitespace
  let rest := w.drop (keyword.length + 1)
  let name := rest.takeWhile fun c => ¬ c.isWhitespace
  if (w.take keyword.length).map Char.toLower = keyword.map Char.toLower ∧
      (w[keyword.length]?).any Char.isWhitespace ∧ name ≠ [] ∧
      (rest.drop name.length).all Char.isWhitespace then some name
  else none

/-- A configuration of the web server with one directive for the user and one for the group. The
other lines can be any lines. -/
structure HttpdConf where
  text : Text
  userLine : Text
  groupLine : Text
  user : Text
  group : Text
  one_user : (text.splitOn '\n').filter (fun l => (directive "User" l).isSome) = [userLine]
  one_group : (text.splitOn '\n').filter (fun l => (directive "Group" l).isSome) = [groupLine]
  user_eq : directive "User" userLine = some user
  group_eq : directive "Group" groupLine = some group

/-- The content of a file, with `grep` for a word in it, and `sed -i` on it. -/
def fileHandler (other : Text → Text → Text) (path : Text) : Handler Text Cmd Reply := fun t c =>
  match c with
  | .run [cmd, word, file] =>
    if cmd = "grep".toList ∧ file = path then (⟨0, Text.grep (Text.Occurs word) t⟩, t)
    else (⟨0, []⟩, t)
  | .run [cmd, option, script, file] =>
    if cmd = "sed".toList ∧ option = "-i".toList ∧ file = path then (⟨0, []⟩, edit other script t)
    else (⟨0, []⟩, t)
  | _ => (⟨0, []⟩, t)

/-- The configuration after the edits of the user and the group. -/
def identityText (other : Text → Text → Text) (v : Vars) (t : Text) : Text :=
  (exec (fileHandler other (httpdConf v)) (configureIdentity v) t).state

/-- What becomes of a line of the configuration. -/
def Becomes (l l' : Text) : Prop :=
  if (directive "User" l).isSome then directive "User" l' = some "httpd".toList
  else if (directive "Group" l).isSome then directive "Group" l' = some "apache".toList
  else l' = l

instance (l l' : Text) : Decidable (Becomes l l') := inferInstanceAs (Decidable (ite _ _ _))

/-- The user is `httpd`, the group is `apache`, and nothing else has changed. -/
def Intended (other : Text → Text → Text) (v : Vars) (d : HttpdConf) : Prop :=
  List.Forall₂ Becomes (d.text.splitOn '\n') ((identityText other v d.text).splitOn '\n')

/-! ## Directives -/

/-- A text of blanks. -/
abbrev Blank (t : Text) : Prop := t.all Char.isWhitespace = true

/-- The characters of a text that are no blanks. -/
def solid (t : Text) : Text := t.filter fun c => ¬ c.isWhitespace

@[simp] theorem solid_append (t u : Text) : solid (t ++ u) = solid t ++ solid u :=
  List.filter_append t u

theorem solid_eq_nil_iff {t : Text} : solid t = [] ↔ Blank t := by
  simp [solid, Blank, List.filter_eq_nil_iff]

theorem solid_eq_self {t : Text} (h : ∀ c ∈ t, c.isWhitespace = false) : solid t = t :=
  List.filter_eq_self.mpr fun c hc => by simp [h c hc]

theorem mem_solid {c : Char} {t : Text} (hc : c.isWhitespace = false) : c ∈ solid t ↔ c ∈ t := by
  simp [solid, hc]

theorem solid_dropWhile (t : Text) : solid (t.dropWhile Char.isWhitespace) = solid t := by
  have hblank : solid (t.takeWhile Char.isWhitespace) = [] :=
    solid_eq_nil_iff.mpr (List.all_eq_true.mpr fun c hc => List.mem_takeWhile_imp hc)
  conv_rhs => rw [← List.takeWhile_append_dropWhile (p := Char.isWhitespace) (l := t), solid_append,
    hblank, List.nil_append]

theorem mem_of_isWhitespace {c : Char} (h : c.isWhitespace = true) : c ∈ " \t\r\n".toList := by
  simpa [Char.isWhitespace, or_assoc] using h

/-- Without its blanks a directive is the keyword and the name. -/
theorem solid_of_directive {keyword l name : Text}
    (hkeyword : ∀ c ∈ " \t\r\n".toList, c.toLower ∉ keyword.map Char.toLower)
    (h : directive keyword l = some name) :
    ∃ k, k.map Char.toLower = keyword.map Char.toLower ∧ solid l = k ++ name := by
  unfold directive at h
  simp only [Option.ite_none_right_eq_some, Option.some.injEq] at h
  obtain ⟨⟨hk, hblank, -, hrest⟩, rfl⟩ := h
  rw [← solid_dropWhile l]
  generalize l.dropWhile Char.isWhitespace = w at hk hblank hrest ⊢
  obtain ⟨c, hc, hwhite⟩ := (Option.any_eq_true _ _).mp hblank
  obtain ⟨hlt, rfl⟩ := List.getElem?_eq_some_iff.mp hc
  -- the keyword, one blank, the name and the blanks after it
  have hsplit : w = w.take keyword.length ++ w[keyword.length] :: w.drop (keyword.length + 1) := by
    rw [List.getElem_cons_drop, List.take_append_drop]
  have hsolid : solid (w.take keyword.length) = w.take keyword.length := by
    refine solid_eq_self fun c hc => Bool.eq_false_iff.mpr fun hwhite => ?_
    exact hkeyword c (mem_of_isWhitespace hwhite) (hk ▸ List.mem_map_of_mem hc)
  have hname : ∀ t : Text, (t.drop (t.takeWhile fun c => ¬ c.isWhitespace).length).all
      Char.isWhitespace = true → solid t = t.takeWhile fun c => ¬ c.isWhitespace := by
    intro t ht
    have hself : solid (t.takeWhile fun c => ¬ c.isWhitespace) =
        t.takeWhile fun c => ¬ c.isWhitespace :=
      solid_eq_self fun c hc => by simpa using List.mem_takeWhile_imp hc
    have hprefix := List.prefix_iff_eq_append.mp (List.takeWhile_prefix (l := t) fun c => ¬ c.isWhitespace)
    conv_lhs => rw [← hprefix, solid_append, hself, solid_eq_nil_iff.mpr ht, List.append_nil]
  refine ⟨_, hk, ?_⟩
  have hblanks : solid [w[keyword.length]] = [] := by simp [solid, hwhite]
  conv_lhs => rw [hsplit, ← List.singleton_append, solid_append, solid_append, hblanks, hsolid,
    hname _ hrest, List.nil_append]

theorem directive_user_httpd {p q : Text} (hp : Blank p) (hq : Blank q) :
    directive "User" (p ++ "User httpd".toList ++ q) = some "httpd".toList := by
  have hdrop : (p ++ "User httpd".toList ++ q).dropWhile Char.isWhitespace =
      "User ".toList ++ ("httpd".toList ++ q) := by
    rw [List.append_assoc, List.dropWhile_append_of_pos (List.all_eq_true.mp hp)]
    rfl
  have hname : ("httpd".toList ++ q).takeWhile (fun c => ¬ c.isWhitespace) = "httpd".toList := by
    rw [List.takeWhile_append_of_pos (by decide)]
    rcases q with _ | ⟨c, q⟩
    · rfl
    · rw [Blank, List.all_cons, Bool.and_eq_true] at hq
      simp [hq.1]
  unfold directive
  rw [hdrop]
  have hrest : ("User ".toList ++ ("httpd".toList ++ q)).drop ("User".toList.length + 1) =
      "httpd".toList ++ q := rfl
  simp only [hrest, hname]
  exact if_pos ⟨rfl, rfl, by decide, by simpa using hq⟩

/-! ## The names that are read -/

/-- The second fields of some lines. -/
def secondFields (p : Text → Bool) (t : Text) : List Text :=
  ((Text.lines t).filter p).map (Text.cut ' ' 2)

/-- The lines that the user is read from: they have the keyword, and no `#`. -/
def isUserLine (l : Text) : Bool := Text.Occurs "User " l ∧ ¬ Text.Occurs "#" l

/-- The user that is read. -/
def apacheUser (t : Text) : Text := Text.chomp (Text.unlines (secondFields isUserLine t))

/-- The group that is read. -/
def apacheGroup (t : Text) : Text :=
  Text.chomp (Text.unlines (secondFields (Text.Occurs "Group ") t))

/-- An edit of the name that follows `User`, unless the name is the one that is wanted. -/
def renamed (other : Text → Text → Text) (name wanted repl t : Text) : Text :=
  if name ≠ wanted then edit other (script ("User ".toList ++ name) repl) t else t

/-- The edits of the script. -/
theorem identityText_eq (other : Text → Text → Text) (v : Vars) (t : Text) :
    identityText other v t = renamed other (apacheGroup t) "apache" "Group apache"
      (renamed other (apacheUser t) "httpd" "User httpd" t) := by
  have hgrep : ∀ word u, fileHandler other (httpdConf v) u (.run ["grep".toList, word, httpdConf v]) =
      (⟨0, Text.grep (Text.Occurs word) u⟩, u) := fun word u => if_pos ⟨rfl, rfl⟩
  have hsed : ∀ script u, fileHandler other (httpdConf v) u (.run (sed script (httpdConf v))) =
      (⟨0, []⟩, edit other script u) := fun script u => if_pos ⟨rfl, rfl, rfl⟩
  have huser : Text.chomp (Text.cutLines ' ' 2 (Text.grep (fun l => ¬ Text.Occurs "#" l)
      (Text.grep (Text.Occurs "User ") t))) = apacheUser t := by
    rw [Text.cutLines, Text.lines_grep, Text.lines_grep, List.filter_filter, apacheUser,
      secondFields]
    congr 4
    funext l
    simp [isUserLine, Bool.and_comm]
  have hgroup : Text.chomp (Text.cutLines ' ' 2 (Text.grep (Text.Occurs "Group ") t)) =
      apacheGroup t := by
    rw [Text.cutLines, Text.lines_grep]
    rfl
  have hstep : ∀ name wanted repl u (k : Sh Unit),
      (exec (fileHandler other (httpdConf v)) (ifThen (name ≠ wanted) (do
        let _ ← run (sed (substituteAll ("User ".toList ++ name) repl) (httpdConf v))) >>=
          fun _ => k) u).state =
      (exec (fileHandler other (httpdConf v)) k (renamed other name wanted repl u)).state := by
    intro name wanted repl u k
    rw [renamed]
    by_cases h : name = wanted
    · have hskip : ifThen (name ≠ wanted) (do
          let _ ← run (sed (substituteAll ("User ".toList ++ name) repl) (httpdConf v))) =
          pure () := if_neg (by simp [h])
      rw [hskip, if_neg (not_not.mpr h)]
      rfl
    · have hrun : ifThen (name ≠ wanted) (do
          let _ ← run (sed (substituteAll ("User ".toList ++ name) repl) (httpdConf v))) =
          run (sed (substituteAll ("User ".toList ++ name) repl) (httpdConf v)) >>= fun _ =>
            pure () := if_pos (by simpa using h)
      rw [hrun, if_pos h, bind_assoc', run_bind, exec_call, hsed, substituteAll_eq_script]
      rfl
  simp only [identityText, configureIdentity, command_bind, exec_call, hgrep, huser, hgroup]
  have hlast := hstep (apacheGroup t) "apache" "Group apache"
    (renamed other (apacheUser t) "httpd" "User httpd" t) (pure ())
  rw [bind_pure_unit] at hlast
  rw [hstep, hlast]
  rfl

/-! ## Edits of a line -/

/-- An edit that leaves a line as it is, or puts `repl` or a text with a slash in the place of a
match that starts with `U`. -/
def Edits (repl : Text) (E : Text → Text) : Prop :=
  ∀ l, E l = l ∨ ∃ p u q rest, E l = p ++ u ++ q ∧ (u = repl ∨ '/' ∈ u) ∧ l = p ++ 'U' :: rest

theorem delimited_user {name t p t' : Text}
    (h : delimited ("User ".toList ++ name ++ t) = some (p, t')) :
    ∃ p', p = "User ".toList ++ p' ∧ delimited (name ++ t) = some (p', t') := by
  rw [List.append_assoc, delimited_append (by decide)] at h
  obtain ⟨⟨p', r⟩, hp', hr⟩ := Option.map_eq_some_iff.mp h
  cases hr
  exact ⟨p', rfl, hp'⟩

theorem exists_of_parse_user {p : Text} {r : Regex}
    (h : Regex.parse ("User ".toList ++ p) = some r) : ∃ r', r = ⟨.char 'U', false⟩ :: r' := by
  have hshape : "User ".toList ++ p = 'U' :: 's' :: (['e', 'r', ' '] ++ p) := rfl
  rw [hshape] at h
  exact Regex.exists_of_parse_cons_cons (by decide) (by decide) h

theorem edits_editLine {repl : Text} (hrepl : Verbatim repl) (name : Text) :
    Edits repl (editLine (script ("User ".toList ++ name) repl)) := by
  intro l
  rcases h : Substitution.parse (script ("User ".toList ++ name) repl) with _ | s
  · -- a script that is not read changes no line
    left
    unfold editLine
    rw [h]
  · have hline : editLine (script ("User ".toList ++ name) repl) l =
        sub s.regex (expand s.parts) l := by
      unfold editLine
      rw [h]
    obtain ⟨p, t, hp, hregex, hparts⟩ := parse_script_cases hrepl h
    obtain ⟨p', rfl, -⟩ := delimited_user hp
    obtain ⟨r', hr⟩ := exists_of_parse_user hregex
    rw [hline]
    rcases sub_eq_self_or s.regex (expand s.parts) l with hself | ⟨a, m, b, b', hl, hsub, hm⟩
    · exact Or.inl hself
    · rw [hr] at hm
      obtain ⟨c, m', rfl, hc⟩ := head_of_found hm
      have hU : c = 'U' := by
        rw [Atom.accepts_char] at hc
        exact hc.2
      refine Or.inr ⟨a, _, b', m' ++ b, hsub, ?_, by rw [hl, hU]; simp⟩
      -- the delimiter is the one that was meant, or the replacement has a slash
      rcases hparts with ⟨-, hlit⟩ | ⟨-, -, -, -, -, hslash, -⟩
      · left
        rw [hlit, expand_map_lit]
      · right
        exact List.mem_flatMap.mpr ⟨_, hslash, List.mem_singleton_self _⟩

/-- The edit of a line by `renamed`. -/
def renamedLine (name wanted repl l : Text) : Text :=
  if name ≠ wanted then editLine (script ("User ".toList ++ name) repl) l else l

theorem edits_renamedLine {repl : Text} (hrepl : Verbatim repl) (name wanted : Text) :
    Edits repl (renamedLine name wanted repl) := by
  intro l
  rw [renamedLine]
  split_ifs
  · exact edits_editLine hrepl name l
  · exact Or.inl rfl

theorem splitOn_renamed {name wanted repl : Text}
    (h : name ≠ wanted → Known (script ("User ".toList ++ name) repl))
    (other : Text → Text → Text) (t : Text) :
    (t.splitOn '\n').length ≤ ((renamed other name wanted repl t).splitOn '\n').length ∧
      ((t.splitOn '\n').length = ((renamed other name wanted repl t).splitOn '\n').length →
        (renamed other name wanted repl t).splitOn '\n' =
          (t.splitOn '\n').map (renamedLine name wanted repl)) := by
  by_cases hwanted : name = wanted
  · have hid : renamedLine name wanted repl = id := funext fun l => if_neg (not_not.mpr hwanted)
    rw [hid, renamed, if_neg (not_not.mpr hwanted)]
    simp
  · have hline : renamedLine name wanted repl = editLine (script ("User ".toList ++ name) repl) :=
      funext fun l => if_pos hwanted
    rw [hline, renamed, if_pos hwanted]
    exact (h hwanted).splitOn_edit t

/-- The characters of a directive for the group `apache`. -/
theorem length_solid_group {l : Text} (h : directive "Group" l = some "apache".toList) :
    (solid l).length = 11 ∧ 's' ∉ l ∧ '/' ∉ l := by
  obtain ⟨k, hk, hl⟩ := solid_of_directive (by decide) h
  have hlength : k.length = 5 := by simpa using congrArg List.length hk
  have hmem : ∀ c : Char, c.isWhitespace = false → c.toLower ∉ "group".toList →
      c ∉ "apache".toList → c ∉ l := by
    intro c hwhite hlower happle hc
    rw [← mem_solid hwhite, hl, List.mem_append] at hc
    rcases hc with hc | hc
    · have hmem := List.mem_map_of_mem (f := Char.toLower) hc
      rw [hk] at hmem
      exact hlower hmem
    · exact happle hc
  refine ⟨?_, hmem 's' (by decide) (by decide) (by decide),
    hmem '/' (by decide) (by decide) (by decide)⟩
  rw [hl, List.length_append, hlength]
  rfl

/-- The first character of a directive for the group that is no blank. -/
theorem toLower_of_group {l name : Text} (h : directive "Group" l = some name) :
    ∃ c t, solid l = c :: t ∧ c.toLower = 'g' := by
  obtain ⟨k, hk, hl⟩ := solid_of_directive (by decide) h
  rcases k with _ | ⟨c, k⟩
  · cases hk
  · exact ⟨c, k ++ name, hl, (List.cons.inj hk).1⟩

/-- **The group is never renamed**: no edit can turn another group into `apache`. -/
theorem Edits.group_eq {E₁ E₂ : Text → Text} (h₁ : Edits "User httpd" E₁)
    (h₂ : Edits "Group apache" E₂) {l group : Text} (hl : directive "Group" l = some group)
    (h : directive "Group" (E₂ (E₁ l)) = some "apache".toList) : E₁ l = l ∧ group = "apache".toList := by
  obtain ⟨hlength, hs, hslash⟩ := length_solid_group h
  obtain ⟨c, t, hsolid, hc⟩ := toLower_of_group hl
  have hU : c ≠ 'U' := by
    rintro rfl
    exact absurd hc (by decide)
  have hsolidU : ∀ t : Text, solid ('U' :: t) = 'U' :: solid t := fun t => rfl
  rcases h₂ (E₁ l) with hself | ⟨p, u, q, rest, heq, hu, hrest⟩
  · rw [hself] at h hs hslash
    rcases h₁ l with hself' | ⟨p, u, q, rest, heq, hu, -⟩
    · rw [hself', hl] at h
      exact ⟨hself', Option.some.inj h⟩
    · -- neither an `s` nor a slash is in the directive
      exfalso
      rw [heq] at hs hslash
      rcases hu with rfl | hu
      · exact hs (by simp)
      · exact hslash (by simp [hu])
  · exfalso
    rw [heq] at hslash hlength
    rcases hu with rfl | hu
    · -- only blanks are left around the replacement
      have hp : solid p = [] := by
        have happle : (solid "Group apache".toList).length = 11 := by decide
        rw [solid_append, solid_append, List.length_append, List.length_append, happle] at hlength
        exact List.length_eq_zero_iff.mp (by omega)
      have hedited : solid (E₁ l) = 'U' :: solid rest := by
        rw [hrest, solid_append, hp, hsolidU, List.nil_append]
      rcases h₁ l with hself' | ⟨p', u', q', rest', heq', -, hl'⟩
      · rw [hself', hsolid] at hedited
        exact hU (List.cons.inj hedited).1
      · rw [hl', solid_append, hsolidU] at hsolid
        rw [heq', List.append_assoc, solid_append] at hedited
        rcases hp' : solid p' with _ | ⟨d, r⟩
        · rw [hp'] at hsolid
          exact hU (List.cons.inj hsolid).1.symm
        · rw [hp'] at hsolid hedited
          exact hU ((List.cons.inj hsolid).1.symm.trans (List.cons.inj hedited).1)
    · exact hslash (by simp [hu])

/-! ## The names that are read as patterns -/

/-- The edit for the name that is read is left out, or `sed` refuses it. -/
def Skips (name wanted repl : Text) : Prop :=
  name = wanted ∨ refuses (script ("User ".toList ++ name) repl) = true

/-- The expression that the name which is read is after `User`. -/
def ReadsAs (name : Text) (r : Regex) : Prop :=
  ∃ p, delimited (name ++ ['/']) = some (p, []) ∧ Regex.parse ("User ".toList ++ p) = some r

section Reads

variable {name wanted repl : Text} {r : Regex}

theorem Skips.renamed_eq (h : Skips name wanted repl) (other : Text → Text → Text) (t : Text) :
    renamed other name wanted repl t = t := by
  rw [renamed]
  split_ifs with hne
  · exact edit_of_refuses (h.resolve_left hne) t
  · rfl

theorem ReadsAs.parse_script (h : ReadsAs name r) (hrepl : Verbatim repl) :
    Substitution.parse (script ("User ".toList ++ name) repl) = some ⟨r, repl.map .lit⟩ := by
  obtain ⟨p, hp, hr⟩ := h
  refine Sed.parse_script hrepl ?_ hr
  rw [List.append_assoc, delimited_append (by decide), hp]
  rfl

theorem ReadsAs.renamed_eq (h : ReadsAs name r) (hne : name ≠ wanted) (hrepl : Verbatim repl)
    (other : Text → Text → Text) (t : Text) :
    renamed other name wanted repl t = sub r (fun _ => repl) t := by
  have hexpand : expand (repl.map .lit) = fun _ => repl := funext fun m => expand_map_lit repl m
  rw [renamed, if_pos hne, edit_of_parse (h.parse_script hrepl), hexpand]

theorem ReadsAs.head_of_found (h : ReadsAs name r) {m l : Text} (hm : Piece.found m ∈ pieces r 0 l) :
    m.head? = some 'U' := by
  obtain ⟨p, -, hr⟩ := h
  obtain ⟨r', rfl⟩ := exists_of_parse_user hr
  obtain ⟨c, m', rfl, hc⟩ := Sed.head_of_found hm
  rw [Atom.accepts_char] at hc
  rw [List.head?_cons, hc.2]

/-- A line stays exactly when nothing but the replacement is found in it. -/
theorem ReadsAs.sub_eq_self_iff (h : ReadsAs name r) (l : Text) :
    sub r (fun _ => "User httpd".toList) l = l ↔
      ∀ m, Piece.found m ∈ pieces r 0 l → m = "User httpd".toList := by
  have hsource : (pieces r 0 l).flatMap Piece.source = l := flatMap_source_pieces r 0 l
  have hself : l = sub r (fun _ => "User httpd".toList) l ↔
      ∀ m, Piece.found m ∈ pieces r 0 l → m = "User httpd".toList := by
    conv_lhs => lhs; rw [← hsource]
    exact source_eq_image_iff (by decide) fun m hm => h.head_of_found hm
  rw [← hself, eq_comm]

end Reads

/-- A directive that gets the user `httpd`, and had another one, is a match, and blanks around it. -/
theorem exists_of_editLine_user {name l user : Text} (hl : directive "User" l = some user)
    (huser : user ≠ "httpd".toList)
    (h : directive "User" (editLine (script ("User ".toList ++ name) "User httpd") l) =
      some "httpd".toList) :
    ∃ r, ReadsAs name r ∧ ∃ p m q, l = p ++ m ++ q ∧ Blank p ∧ Blank q ∧ OnlyMatch r p m q := by
  obtain ⟨k, hk, hsolid⟩ := solid_of_directive (by decide) h
  have hlength : k.length = 4 := by simpa using congrArg List.length hk
  have hslash : '/' ∉ editLine (script ("User ".toList ++ name) "User httpd") l := by
    rw [← mem_solid (by decide), hsolid, List.mem_append]
    rintro (hmem | hmem)
    · have hlower := List.mem_map_of_mem (f := Char.toLower) hmem
      rw [hk] at hlower
      revert hlower
      decide
    · revert hmem
      decide
  have hself : editLine (script ("User ".toList ++ name) "User httpd") l ≠ l := fun heq => by
    rw [heq, hl] at h
    exact huser (Option.some.inj h)
  rcases hs : Substitution.parse (script ("User ".toList ++ name) "User httpd") with _ | s
  · unfold editLine at hself
    rw [hs] at hself
    exact absurd rfl hself
  · have hline : editLine (script ("User ".toList ++ name) "User httpd") l =
        sub s.regex (expand s.parts) l := by
      unfold editLine
      rw [hs]
    rw [hline] at hself hsolid hslash
    obtain ⟨p', t, -, hregex, ⟨hp', hlit⟩ | ⟨-, -, -, -, -, hmem, -⟩⟩ :=
      parse_script_cases (by decide) hs
    · obtain ⟨p'', rfl, hp''⟩ := delimited_user hp'
      have hexpand : expand s.parts = fun _ => "User httpd".toList := by
        rw [hlit]
        exact funext fun m => expand_map_lit _ m
      refine ⟨s.regex, ⟨p'', hp'', hregex⟩, ?_⟩
      have hsource : (pieces s.regex 0 l).flatMap Piece.source = l :=
        flatMap_source_pieces s.regex 0 l
      rcases eq_map_kept_or (pieces s.regex 0 l) with ⟨t, ht⟩ | ⟨p, m, qs, hps⟩
      · rw [sub, ht, flatMap_image_map_kept] at hself
        rw [ht, flatMap_source_map_kept] at hsource
        exact absurd hsource hself
      · -- only blanks are left around the replacement
        have hsub : sub s.regex (expand s.parts) l =
            p ++ "User httpd".toList ++ qs.flatMap (Piece.image (expand s.parts)) := by
          rw [sub, hps, List.flatMap_append, List.flatMap_cons, flatMap_image_map_kept,
            List.append_assoc, Piece.image, hexpand]
        have hsolids := congrArg List.length hsolid
        have hhttpd : (solid "User httpd".toList).length = 9 := by decide
        rw [hsub, solid_append, solid_append] at hsolids
        simp only [List.length_append, hhttpd, hlength,
          show "httpd".toList.length = 5 from rfl] at hsolids
        have hp : Blank p := solid_eq_nil_iff.mp (List.length_eq_zero_iff.mp (by omega))
        have hq : Blank (qs.flatMap (Piece.image (expand s.parts))) :=
          solid_eq_nil_iff.mp (List.length_eq_zero_iff.mp (by omega))
        rcases eq_map_kept_or qs with ⟨q, rfl⟩ | ⟨q, m', qs', rfl⟩
        · rw [flatMap_image_map_kept] at hq
          refine ⟨p, m, q, ?_, hp, hq, ?_⟩
          · rw [← hsource, hps]
            simp [Piece.source]
          · have hl' : p ++ m ++ q = l := by
              rw [← hsource, hps]
              simp [Piece.source]
            rw [OnlyMatch, hl', hps]
        · exfalso
          have hmem : 'U' ∈ (q.map Piece.kept ++ Piece.found m' :: qs').flatMap
              (Piece.image (expand s.parts)) := by
            rw [hexpand]
            simp [Piece.image]
          exact absurd (List.all_eq_true.mp hq 'U' hmem) (by decide)
    · -- the replacement has a slash
      exfalso
      rcases sub_eq_self_or s.regex (expand s.parts) l with heq | ⟨a, m, b, b', -, hsub, -⟩
      · exact hself heq
      · refine hslash ?_
        have hm : '/' ∈ expand s.parts m :=
          List.mem_flatMap.mpr ⟨_, hmem, List.mem_singleton_self _⟩
        rw [hsub]
        simp [hm]

/-! ## A name that is the wanted one -/

theorem newline_not_mem_secondFields {p : Text → Bool} {t f : Text}
    (hf : f ∈ secondFields p t) : '\n' ∉ f := by
  obtain ⟨l, hl, rfl⟩ := List.mem_map.mp hf
  exact fun hnl => Text.newline_not_mem_of_mem_lines (List.mem_of_mem_filter hl)
    (Text.cut_subset _ _ _ hnl)

/-- When the wanted name is among the names that are read, nothing is edited: the names are the
wanted one, or they are several lines, which a known script refuses. -/
theorem skips_of_mem {p : Text → Bool} {wanted repl t : Text} (hrepl : Verbatim repl)
    (hne : wanted ≠ []) (hback : wanted.getLast? ≠ some '\\') (hmem : wanted ∈ secondFields p t)
    (hknown : Text.chomp (Text.unlines (secondFields p t)) ≠ wanted →
      Known (script ("User ".toList ++ Text.chomp (Text.unlines (secondFields p t))) repl)) :
    Skips (Text.chomp (Text.unlines (secondFields p t))) wanted repl := by
  have hnl := newline_not_mem_secondFields hmem
  have hfields : ∀ f ∈ secondFields p t, '\n' ∉ f := fun f hf => newline_not_mem_secondFields hf
  -- a newline in the script makes it unread, and a known script is then one that is refused
  have hrefused : ∀ a b, "User ".toList ++ Text.chomp (Text.unlines (secondFields p t)) =
      a ++ '\n' :: b → a.getLast? ≠ some '\\' ∨ (a ++ '\n' :: b).getLast? ≠ some '\\' →
      Skips (Text.chomp (Text.unlines (secondFields p t))) wanted repl := by
    intro a b hab hlast
    by_cases hwanted : Text.chomp (Text.unlines (secondFields p t)) = wanted
    · exact Or.inl hwanted
    · right
      have hnone := parse_script_of_newline hrepl hlast
      rw [← hab] at hnone
      exact (hknown hwanted).resolve_left fun hsome => by rw [hnone] at hsome; cases hsome
  obtain ⟨us, vs, hsplit⟩ := List.append_of_mem hmem
  rw [hsplit] at hfields
  have hvs : ∀ v ∈ vs, '\n' ∉ v := fun v hv =>
    hfields v (List.mem_append_right us (List.mem_cons_of_mem wanted hv))
  have hgetLast : ∀ x : Text, (x ++ wanted).getLast? = wanted.getLast? := fun x =>
    List.getLast?_append_of_ne_nil x hne
  rcases Text.chomp_unlines_append us hne hnl hvs with ⟨hchomp, -⟩ | ⟨y, hchomp⟩
  · -- the wanted name is the last line
    rcases List.eq_nil_or_concat us with rfl | ⟨us, x, rfl⟩
    · left
      rw [hsplit, hchomp]
      rfl
    · refine hrefused ("User ".toList ++ (Text.unlines us ++ x)) wanted ?_ (Or.inr ?_)
      · rw [hsplit, hchomp, List.concat_eq_append, Text.unlines_append]
        simp [Text.unlines]
      · rw [List.getLast?_append_of_ne_nil _ (List.cons_ne_nil _ _),
          List.getLast?_cons_of_ne_nil hne]
        exact hback
  · -- another line comes after it
    refine hrefused ("User ".toList ++ (Text.unlines us ++ wanted)) y ?_ (Or.inl ?_)
    · rw [hsplit, hchomp]
      simp
    · rw [← List.append_assoc, hgetLast]
      exact hback

/-! ## The condition -/

section Condition

variable (d : HttpdConf)

/-- The first edit makes `l` of the directive for the user: nothing but `User httpd` is found in the
other lines, and what is found in the directive is the whole of it, or `User httpd` as well. -/
structure RenamesUser (r : Regex) (l : Text) : Prop where
  others : ∀ l ∈ d.text.splitOn '\n', directive "User" l = none →
    ∀ m, Piece.found m ∈ pieces r 0 l → m = "User httpd".toList
  user : (∃ p m q, d.userLine = p ++ m ++ q ∧ Blank p ∧ Blank q ∧ OnlyMatch r p m q ∧
      l = p ++ "User httpd".toList ++ q) ∨
    d.user = "httpd".toList ∧ l = d.userLine ∧
      ∀ m, Piece.found m ∈ pieces r 0 d.userLine → m = "User httpd".toList

/-- The first edit makes `l` of the directive for the user, or is left out. -/
def UserEdit (l : Text) : Prop :=
  (Skips (apacheUser d.text) "httpd" "User httpd" ∧ d.user = "httpd".toList ∧ l = d.userLine) ∨
    ∃ r, apacheUser d.text ≠ "httpd".toList ∧ ReadsAs (apacheUser d.text) r ∧ RenamesUser d r l

/-- The second edit finds nothing, when the directive for the user is `l`, or is left out. -/
def GroupEdit (l : Text) : Prop :=
  Skips (apacheGroup d.text) "apache" "Group apache" ∨
    ∃ r, ReadsAs (apacheGroup d.text) r ∧ r.finds l = false ∧
      ∀ l ∈ d.text.splitOn '\n', directive "User" l = none → r.finds l = false

/-- The group is `apache` already, the first edit finds nothing but the user, and the second one
nothing. -/
structure Renamable : Prop where
  group : d.group = "apache".toList
  edits : ∃ l, UserEdit d l ∧ GroupEdit d l

/-- A wanted name that a directive has is among the names that are read, as it is when the directive
fills its line. -/
structure HttpdConf.ReadsWanted : Prop where
  user : d.user = "httpd".toList → "httpd".toList ∈ secondFields isUserLine d.text
  group : d.group = "apache".toList →
    "apache".toList ∈ secondFields (Text.Occurs "Group ") d.text

end Condition

theorem mem_of_filter_eq_singleton {p : Text → Bool} {ls : List Text} {x : Text}
    (h : ls.filter p = [x]) : x ∈ ls :=
  List.mem_of_mem_filter (p := p) (h ▸ List.mem_singleton_self x)

theorem iff_eq_of_filter_eq_singleton {p : Text → Bool} {ls : List Text} {x l : Text}
    (h : ls.filter p = [x]) (hl : l ∈ ls) : p l = true ↔ l = x := by
  have hmem : l ∈ ls.filter p ↔ l ∈ ls ∧ p l = true := List.mem_filter
  rwa [h, List.mem_singleton, and_iff_right hl, iff_comm] at hmem

namespace HttpdConf

variable {d : HttpdConf}

theorem isUser_iff {l : Text} (hl : l ∈ d.text.splitOn '\n') :
    (directive "User" l).isSome = true ↔ l = d.userLine :=
  iff_eq_of_filter_eq_singleton d.one_user hl

theorem isGroup_iff {l : Text} (hl : l ∈ d.text.splitOn '\n') :
    (directive "Group" l).isSome = true ↔ l = d.groupLine :=
  iff_eq_of_filter_eq_singleton d.one_group hl

theorem userLine_mem (d : HttpdConf) : d.userLine ∈ d.text.splitOn '\n' :=
  mem_of_filter_eq_singleton d.one_user

theorem groupLine_mem (d : HttpdConf) : d.groupLine ∈ d.text.splitOn '\n' :=
  mem_of_filter_eq_singleton d.one_group

/-- A directive for the group is none for the user. -/
theorem directive_groupLine (d : HttpdConf) : directive "User" d.groupLine = none := by
  rcases h : directive "User" d.groupLine with _ | name
  · rfl
  · exfalso
    obtain ⟨k, hk, hsolid⟩ := solid_of_directive (by decide) h
    obtain ⟨c, t, hsolid', hc⟩ := toLower_of_group d.group_eq
    rcases k with _ | ⟨c', k⟩
    · cases hk
    · rw [hsolid] at hsolid'
      have hc' := (List.cons.inj hk).1
      rw [(List.cons.inj hsolid').1, hc] at hc'
      exact absurd hc' (by decide)

/-- What becomes of the lines of the configuration. -/
theorem forall_becomes_iff (d : HttpdConf) {E : Text → Text} :
    (∀ l ∈ d.text.splitOn '\n', Becomes l (E l)) ↔
      directive "User" (E d.userLine) = some "httpd".toList ∧
        directive "Group" (E d.groupLine) = some "apache".toList ∧
          ∀ l ∈ d.text.splitOn '\n', directive "User" l = none → directive "Group" l = none →
            E l = l := by
  have huser : (directive "User" d.userLine).isSome = true := (isUser_iff d.userLine_mem).mpr rfl
  have hgroup : (directive "Group" d.groupLine).isSome = true :=
    (isGroup_iff d.groupLine_mem).mpr rfl
  have hnot : ∀ {l}, directive "User" l = none → ¬ (directive "User" l).isSome = true := by
    intro l h hsome
    rw [h] at hsome
    cases hsome
  constructor
  · intro h
    refine ⟨?_, ?_, fun l hl hl' hl'' => ?_⟩
    · have hu := h _ d.userLine_mem
      rwa [Becomes, if_pos huser] at hu
    · have hg := h _ d.groupLine_mem
      rwa [Becomes, if_neg (hnot d.directive_groupLine), if_pos hgroup] at hg
    · have ho := h l hl
      rwa [Becomes, if_neg (hnot hl'), hl''] at ho
  · rintro ⟨hu, hg, hothers⟩ l hl
    unfold Becomes
    split_ifs with hl' hl''
    · rw [(isUser_iff hl).mp hl']
      exact hu
    · rw [(isGroup_iff hl).mp hl'']
      exact hg
    · exact hothers l hl (by simpa using hl') (by simpa using hl'')

end HttpdConf

/-! ## The lines after the edits -/

section Lines

variable {d : HttpdConf}

/-- What the first edit does to the lines, and what it makes of the directive for the user. -/
theorem UserEdit.exists_lines {l : Text} (h : UserEdit d l) (other : Text → Text → Text) :
    directive "User" l = some "httpd".toList ∧ ∃ E : Text → Text,
      (renamed other (apacheUser d.text) "httpd" "User httpd" d.text).splitOn '\n' =
        (d.text.splitOn '\n').map E ∧
      E d.userLine = l ∧ ∀ l' ∈ d.text.splitOn '\n', directive "User" l' = none → E l' = l' := by
  rcases h with ⟨hskips, huser, rfl⟩ | ⟨r, hne, hr, hothers, hline⟩
  · refine ⟨by rw [d.user_eq, huser], id, ?_, rfl, fun _ _ _ => rfl⟩
    rw [hskips.renamed_eq, List.map_id]
  · have hlines : (renamed other (apacheUser d.text) "httpd" "User httpd" d.text).splitOn '\n' =
        (d.text.splitOn '\n').map (sub r fun _ => "User httpd".toList) := by
      rw [hr.renamed_eq hne (by decide)]
      exact splitOn_sub fun m _ => by decide
    have hkept : ∀ l' ∈ d.text.splitOn '\n', directive "User" l' = none →
        sub r (fun _ => "User httpd".toList) l' = l' := fun l' hl' hdir =>
      (hr.sub_eq_self_iff l').mpr (hothers l' hl' hdir)
    rcases hline with ⟨p, m, q, hsplit, hp, hq, honly, rfl⟩ | ⟨huser, rfl, hself⟩
    · refine ⟨directive_user_httpd hp hq, _, hlines, ?_, hkept⟩
      rw [hsplit]
      exact honly.sub_eq _
    · exact ⟨by rw [d.user_eq, huser], _, hlines, (hr.sub_eq_self_iff _).mpr hself, hkept⟩

/-- What the second edit leaves. -/
theorem GroupEdit.splitOn_eq {l t : Text} (h : GroupEdit d l) (other : Text → Text → Text)
    (ht : ∀ l' ∈ t.splitOn '\n', l' = l ∨ l' ∈ d.text.splitOn '\n' ∧ directive "User" l' = none) :
    (renamed other (apacheGroup d.text) "apache" "Group apache" t).splitOn '\n' =
      t.splitOn '\n' := by
  by_cases hwanted : apacheGroup d.text = "apache".toList
  · rw [renamed, if_neg (not_not.mpr hwanted)]
  · rcases h with hskips | ⟨r, hr, hl, hothers⟩
    · rw [hskips.renamed_eq]
    · rw [hr.renamed_eq hwanted (by decide), splitOn_sub fun m _ => by decide]
      refine (List.map_congr_left fun l' hl' => ?_).trans (List.map_id _)
      rcases ht l' hl' with rfl | ⟨hmem, hdir⟩
      · exact sub_of_not_finds hl _
      · exact sub_of_not_finds (hothers l' hmem hdir) _

/-- The edits do what they are for when the condition holds. -/
theorem Renamable.intended (h : Renamable d) (other : Text → Text → Text) (v : Vars) :
    Intended other v d := by
  obtain ⟨hgroup, l, huser, hedit⟩ := h
  obtain ⟨hl, E, hlines, hE, hkept⟩ := huser.exists_lines other
  have hboth : (identityText other v d.text).splitOn '\n' = (d.text.splitOn '\n').map E := by
    rw [identityText_eq, hedit.splitOn_eq other fun l' hl' => ?_, hlines]
    -- after the first edit a line is the one for the user, or as it was
    rw [hlines] at hl'
    obtain ⟨l₀, hl₀, rfl⟩ := List.mem_map.mp hl'
    by_cases hdir : directive "User" l₀ = none
    · rw [hkept l₀ hl₀ hdir]
      exact Or.inr ⟨hl₀, hdir⟩
    · rw [(HttpdConf.isUser_iff hl₀).mp (Option.isSome_iff_ne_none.mpr hdir)]
      exact Or.inl hE
  rw [Intended, hboth, List.forall₂_map_right_iff, List.forall₂_same, d.forall_becomes_iff, hE]
  refine ⟨hl, ?_, fun l' hl' hdir _ => hkept l' hl' hdir⟩
  rw [hkept _ d.groupLine_mem d.directive_groupLine, d.group_eq, hgroup]

/-- The lines of the configuration are edited one by one, when none is added. -/
theorem renamed_renamed_lines {t : Text} {name₁ name₂ wanted₁ wanted₂ repl₁ repl₂ : Text}
    (h₁ : name₁ ≠ wanted₁ → Known (script ("User ".toList ++ name₁) repl₁))
    (h₂ : name₂ ≠ wanted₂ → Known (script ("User ".toList ++ name₂) repl₂))
    {other : Text → Text → Text}
    (hlength : (t.splitOn '\n').length = ((renamed other name₂ wanted₂ repl₂
      (renamed other name₁ wanted₁ repl₁ t)).splitOn '\n').length) :
    (renamed other name₂ wanted₂ repl₂ (renamed other name₁ wanted₁ repl₁ t)).splitOn '\n' =
      (t.splitOn '\n').map
        (renamedLine name₂ wanted₂ repl₂ ∘ renamedLine name₁ wanted₁ repl₁) := by
  obtain ⟨hle₁, hlines₁⟩ := splitOn_renamed h₁ other t
  obtain ⟨hle₂, hlines₂⟩ := splitOn_renamed h₂ other (renamed other name₁ wanted₁ repl₁ t)
  rw [hlines₂ (by omega), hlines₁ (by omega), List.map_map]

/-- A script that is not known can leave nothing of the configuration. -/
theorem known_of_intended (d : HttpdConf) {v : Vars} (h : Intended (fun _ _ => []) v d) :
    (apacheUser d.text ≠ "httpd".toList →
        Known (script ("User ".toList ++ apacheUser d.text) "User httpd")) ∧
      (apacheGroup d.text ≠ "apache".toList →
        Known (script ("User ".toList ++ apacheGroup d.text) "Group apache")) := by
  -- the two directives are two lines, and the empty text has one
  have hlength : 2 ≤ (d.text.splitOn '\n').length := by
    have hne : d.userLine ≠ d.groupLine := fun heq => by
      have huser := d.user_eq
      rw [heq, d.directive_groupLine] at huser
      cases huser
    have huser := d.userLine_mem
    have hgroup := d.groupLine_mem
    rcases hlines : d.text.splitOn '\n' with _ | ⟨a, _ | ⟨b, ls⟩⟩
    · rw [hlines] at huser
      cases huser
    · rw [hlines, List.mem_singleton] at huser hgroup
      exact absurd (huser.trans hgroup.symm) hne
    · simp
  rw [Intended, identityText_eq] at h
  have hnil : renamed (fun _ _ => []) (apacheGroup d.text) "apache" "Group apache"
      (renamed (fun _ _ => []) (apacheUser d.text) "httpd" "User httpd" d.text) ≠ [] := by
    intro hnil
    rw [hnil] at h
    have hlines := h.length_eq
    simp at hlines
    omega
  constructor
  · intro hwanted
    by_contra hknown
    -- the second edit makes nothing of an empty text
    have hedit : ∀ script, edit (fun _ _ => []) script [] = [] := by
      intro script
      unfold edit
      split
      · rfl
      · split_ifs <;> rfl
    have hfirst : renamed (fun _ _ => []) (apacheUser d.text) "httpd" "User httpd" d.text = [] := by
      rw [renamed, if_pos hwanted, edit_of_not_known hknown]
    refine hnil ?_
    rw [hfirst, renamed]
    split_ifs
    · exact hedit _
    · rfl
  · intro hwanted
    by_contra hknown
    refine hnil ?_
    rw [renamed, if_pos hwanted, edit_of_not_known hknown]

/-- What the configuration is like, when the edits do what they are for. -/
theorem renamable_of_intended {v : Vars} (h : ∀ other, Intended other v d) :
    d.group = "apache".toList ∧ (d.ReadsWanted → Renamable d) := by
  have h := h fun _ _ => []
  obtain ⟨hknown₁, hknown₂⟩ := known_of_intended d h
  rw [Intended, identityText_eq] at h
  rw [renamed_renamed_lines hknown₁ hknown₂ h.length_eq, List.forall₂_map_right_iff,
    List.forall₂_same, d.forall_becomes_iff] at h
  obtain ⟨huser, hgroup, hothers⟩ := h
  have huserEdit : Edits "User httpd" (renamedLine (apacheUser d.text) "httpd" "User httpd") :=
    edits_renamedLine (by decide) _ _
  have hgroupEdit : Edits "Group apache"
      (renamedLine (apacheGroup d.text) "apache" "Group apache") := edits_renamedLine (by decide) _ _
  obtain ⟨hkept, hapache⟩ := huserEdit.group_eq hgroupEdit d.group_eq hgroup
  refine ⟨hapache, fun hread => ?_⟩
  have hskips : Skips (apacheGroup d.text) "apache" "Group apache" :=
    skips_of_mem (by decide) (by decide) (by decide) (hread.group hapache) hknown₂
  -- the second edit is left out
  have hid : ∀ l, renamedLine (apacheGroup d.text) "apache" "Group apache" l = l := by
    intro l
    rw [renamedLine]
    split_ifs with hne
    · rw [editLine, Substitution.parse_eq_none_of_refuses (hskips.resolve_left hne)]
    · rfl
  simp only [Function.comp_apply, hid] at huser hothers
  suffices hedit : ∃ l, UserEdit d l from
    ⟨hapache, hedit.imp fun l hl => ⟨hl, Or.inl hskips⟩⟩
  by_cases hhttpd : d.user = "httpd".toList
  · exact ⟨_, Or.inl ⟨skips_of_mem (by decide) (by decide) (by decide) (hread.user hhttpd) hknown₁,
      hhttpd, rfl⟩⟩
  · rw [renamedLine] at huser
    split_ifs at huser with hwanted
    · obtain ⟨r, hr, p, m, q, hsplit, hp, hq, honly⟩ :=
        exists_of_editLine_user d.user_eq hhttpd huser
      have hedit : ∀ l, renamedLine (apacheUser d.text) "httpd" "User httpd" l =
          sub r (fun _ => "User httpd".toList) l := by
        intro l
        have hexpand : expand ("User httpd".toList.map Part.lit) = fun _ => "User httpd".toList :=
          funext fun m => expand_map_lit _ m
        rw [renamedLine, if_pos hwanted, editLine, hr.parse_script (by decide)]
        simp only [hexpand]
      refine ⟨_, Or.inr ⟨r, hwanted, hr, fun l hl hdir => ?_,
        Or.inl ⟨p, m, q, hsplit, hp, hq, honly, rfl⟩⟩⟩
      rw [← hr.sub_eq_self_iff, ← hedit]
      by_cases hdir' : directive "Group" l = none
      · exact hothers l hl hdir hdir'
      · rw [(HttpdConf.isGroup_iff hl).mp (Option.isSome_iff_ne_none.mpr hdir')]
        exact hkept
    · rw [d.user_eq] at huser
      exact absurd (Option.some.inj huser) hhttpd

end Lines

/-- **The identity of the web server**: the edits do what they are for, whatever `sed` makes of
scripts that are not read here, when the condition holds. They do it only when the group is `apache`
already, and, unless a wanted name stands in its directive but is not read, only when the condition
holds. -/
theorem intended_iff (v : Vars) (d : HttpdConf) :
    (Renamable d → ∀ other, Intended other v d) ∧
      ((∀ other, Intended other v d) → d.group = "apache".toList ∧ (d.ReadsWanted → Renamable d)) :=
  ⟨fun h other => h.intended other v, renamable_of_intended⟩

/-- A configuration as the sources of the web server have it. -/
def daemonConf : HttpdConf where
  text := "Listen 80\nUser daemon\nGroup daemon\n"
  userLine := "User daemon"
  groupLine := "Group daemon"
  user := "daemon"
  group := "daemon"
  one_user := by decide
  one_group := by decide
  user_eq := by decide
  group_eq := by decide

/-- The group `daemon` is not renamed. -/
theorem not_intended_daemonConf :
    ¬ ∀ other, Intended other (.ofParams ⟨false, false, false, [], [], []⟩ []) daemonConf :=
  fun h => absurd (renamable_of_intended h).1 (by decide)

end Avetti
