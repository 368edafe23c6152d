import Avetti.Sed.Substitute
import Avetti.Setup.Compile

/-!
# The credentials in pom.xml

`setup.sh` puts the user and the password of the repository into two empty elements of `pom.xml`,
and takes them out when the modules are set up. The credentials are a replacement in the first
edits, and a part of the pattern in the second ones.

## Main definitions

* `Pom`: a text with one element of either kind, and `Pom.text` with the values of the elements
* `FindsElement`: the element, read as a regular expression, finds itself and nothing else
* `Restores`, `Inverse`: what the edits are for
* `Restorable`: the condition on the credentials and the text

## Main results

* `edit_insertion_iff`, `edit_removal_iff`: one edit that puts in a value, or takes it out
* `restores_iff`: when the edits do what they are for
-/

open Sed

namespace Avetti

/-! ## Elements -/

/-- The two elements. -/
inductive Key where
  | username
  | password
  deriving DecidableEq, Repr

namespace Key

/-- The name of the element. -/
def name : Key → Text
  | username => "username"
  | password => "password"

/-- The other element. -/
def other : Key → Key
  | username => password
  | password => username

@[simp] theorem other_other (k : Key) : k.other.other = k := by cases k <;> rfl

theorem ne_other (k : Key) : k ≠ k.other := by cases k <;> decide

theorem eq_or_eq_other (k l : Key) : l = k ∨ l = k.other := by cases k <;> cases l <;> decide

end Key

/-- The name of an element, as its tags have it, with their last character. -/
def tagName (k : Key) : Text := "project.svn.".toList ++ k.name ++ ['>']

/-- The start tag of an element. -/
def startTag (k : Key) : Text := '<' :: tagName k

/-- The end tag of an element. -/
def endTag (k : Key) : Text := '<' :: '/' :: tagName k

/-- The element with a value. -/
def element (k : Key) (value : Text) : Text := startTag k ++ value ++ endTag k

/-- The edit that puts a value into an element. -/
def insertion (k : Key) (value : Text) : Text :=
  substituteAll (credential k.name []) (credential k.name value)

/-- The edit that takes a value out of an element. -/
def removal (k : Key) (value : Text) : Text :=
  substituteAll (credential k.name value) (credential k.name [])

theorem insertCredentials_eq (user password : Text) :
    insertCredentials user password = [insertion .username user, insertion .password password] :=
  rfl

theorem removeCredentials_eq (user password : Text) :
    removeCredentials user password = [removal .username user, removal .password password] := rfl

theorem credential_eq (k : Key) (value : Text) :
    credential k.name value = startTag k ++ value ++ '<' :: '\\' :: '/' :: tagName k := by
  have hstart : "<project.svn.".toList = '<' :: "project.svn.".toList := by simp
  have hend : "<\\/project.svn.".toList = '<' :: '\\' :: '/' :: "project.svn.".toList := by
    simp
  have hclose : ">".toList = ['>'] := rfl
  unfold credential startTag tagName
  simp only [hstart, hend, hclose, List.append_assoc, List.cons_append]

/-! ## Where the tags occur -/

theorem forall_mem_tagName {p : Char → Prop} (k : Key)
    (h : ∀ c ∈ "project.svn.usernameword>".toList, p c) : ∀ c ∈ tagName k, p c := by
  have hsubset : tagName k ⊆ "project.svn.usernameword>".toList := by cases k <;> decide
  exact fun c hc => h c (hsubset hc)

theorem exists_tagName (k : Key) : ∃ w, tagName k = 'p' :: w :=
  ⟨"roject.svn.".toList ++ k.name ++ ['>'], by unfold tagName; simp⟩

theorem not_mem_tagName (k : Key) : '<' ∉ tagName k :=
  fun h => forall_mem_tagName (p := (· ≠ '<')) k (by decide) _ h rfl

theorem not_mem_end (k : Key) : '<' ∉ '/' :: tagName k := by
  simp [not_mem_tagName]

theorem occurs_endTag_append_startTag {k l : Key} {a v : Text} :
    Text.Occurs (endTag k) (a ++ startTag l ++ v) ↔
      Text.Occurs (endTag k) a ∨ Text.Occurs (endTag k) v := by
  obtain ⟨w, hw⟩ := exists_tagName l
  have hl : '<' ∉ 'p' :: w := hw ▸ not_mem_tagName l
  unfold startTag endTag
  rw [hw]
  exact Text.occurs_append_word (not_mem_end k) hl (by simp) (by simp)

theorem occurs_endTag_append_endTag {k : Key} {a v : Text} :
    Text.Occurs (endTag k) (a ++ endTag k.other ++ v) ↔
      Text.Occurs (endTag k) a ∨ Text.Occurs (endTag k) v := by
  refine Text.occurs_append_word (not_mem_end k) (not_mem_end _) ?_ ?_ <;> cases k <;> decide

/-- The end tag of an element does not occur in the other element. -/
theorem occurs_endTag_append_element {k : Key} {a v b : Text} :
    Text.Occurs (endTag k) (a ++ element k.other v ++ b) ↔
      Text.Occurs (endTag k) a ∨ Text.Occurs (endTag k) v ∨ Text.Occurs (endTag k) b := by
  have hsplit : a ++ element k.other v ++ b =
      a ++ startTag k.other ++ (v ++ endTag k.other ++ b) := by
    unfold element
    simp only [List.append_assoc]
  rw [hsplit, occurs_endTag_append_startTag, occurs_endTag_append_endTag]

theorem not_occurs_endTag_of_not_mem {k : Key} {v : Text} (hv : '/' ∉ v) :
    ¬ Text.Occurs (endTag k) v :=
  fun h => hv (h.subset (List.mem_cons_of_mem _ List.mem_cons_self))

/-- The end tag of an element stands at one place, when it occurs nowhere else. -/
theorem eq_of_append_endTag {k : Key} {a b p q : Text} (ha : ¬ Text.Occurs (endTag k) a)
    (hb : ¬ Text.Occurs (endTag k) b) (h : a ++ endTag k ++ b = p ++ endTag k ++ q) : p = a :=
  Text.eq_of_append_once (not_mem_end k) ha hb h

/-! ## One edit -/

/-- The element between `a` and `b`, read as a regular expression, finds itself and nothing else. -/
def FindsElement (a : Text) (k : Key) (v b : Text) : Prop :=
  ∃ r, Regex.parse (element k v) = some r ∧ OnlyMatch r a (element k v) b

/-- An element whose value has no star, bracket or backslash is a pattern without stars. -/
theorem parse_element {k : Key} {v : Text} (hv : ∀ c ∈ v, c ∉ "*[\\".toList) :
    Regex.parse (element k v) = some (Regex.plain ((element k v).map Regex.atomOf)) := by
  have hname : ∀ c ∈ "project.svn.".toList ++ k.name, c ∉ "*[\\".toList := by
    cases k <;> decide
  have hshape : element k v = '<' :: ((tagName k ++ v ++ '<' :: '/' ::
      ("project.svn.".toList ++ k.name)) ++ ['>']) := by
    unfold element startTag endTag tagName
    simp only [List.append_assoc, List.cons_append]
  rw [hshape]
  refine Regex.parse_of_ordinary (by decide) (by decide) fun c hc => ?_
  rcases List.mem_append.mp hc with hc | hc
  · rcases List.mem_append.mp hc with hc | hc
    · exact forall_mem_tagName (p := (· ∉ "*[\\".toList)) k (by decide) c hc
    · exact hv c hc
  · rcases List.mem_cons.mp hc with rfl | hc
    · decide
    · rcases List.mem_cons.mp hc with rfl | hc
      · decide
      · exact hname c hc

theorem delimited_credential {k : Key} {v : Text} (hv : Verbatim v) (t : Text) :
    delimited (credential k.name v ++ '/' :: t) = some (element k v, t) := by
  have hv' : ∀ c ∈ v, c ∉ "/\\\n".toList := fun c hc h =>
    hv c hc ((by decide : "/\\\n".toList ⊆ "/&\\\n".toList) h)
  have hname : ∀ c ∈ tagName k, c ∉ "/\\\n".toList := forall_mem_tagName k (by decide)
  have hstart : ∀ c ∈ startTag k, c ∉ "/\\\n".toList := List.forall_mem_cons.mpr ⟨by decide, hname⟩
  have hsplit : credential k.name v ++ '/' :: t =
      startTag k ++ (v ++ (['<'] ++ '\\' :: '/' :: (tagName k ++ '/' :: t))) := by
    rw [credential_eq]
    simp only [List.append_assoc, List.cons_append, List.nil_append]
  rw [hsplit, delimited_append hstart, delimited_append hv', delimited_append (by decide),
    delimited_escaped_slash, delimited_append hname, delimited_slash]
  unfold element endTag
  simp only [Option.map_some, List.append_assoc, List.append_nil, List.cons_append, List.nil_append]

theorem verbatim_startTag (k : Key) : Verbatim (startTag k) :=
  List.forall_mem_cons.mpr ⟨by decide, forall_mem_tagName k (by decide)⟩

theorem verbatim_tagName (k : Key) : Verbatim (tagName k) :=
  forall_mem_tagName k (by decide)

/-- The rest of an edit after the value that it puts in. -/
def insertionEnd (k : Key) : Text := '<' :: '\\' :: '/' :: (tagName k ++ ['/', 'g'])

theorem replacement_insertionEnd (k : Key) :
    replacement (insertionEnd k) = some ((endTag k).map Part.lit, ['g']) := by
  have hslash : ∀ t, replacement ('\\' :: '/' :: t) =
      (replacement t).map fun x => (Part.lit '/' :: x.1, x.2) := by
    intro t
    rw [replacement]
    cases replacement t <;> rfl
  have hend : replacement (['/', 'g'] : Text) = some ([], ['g']) := rfl
  unfold insertionEnd endTag
  rw [replacement_cons (by decide), hslash, replacement_append (verbatim_tagName k), hend]
  simp

theorem insertion_eq (k : Key) (v : Text) :
    insertion k v = 's' :: '/' :: (credential k.name [] ++ '/' ::
      (startTag k ++ (v ++ insertionEnd k))) := by
  unfold insertion substituteAll insertionEnd
  rw [credential_eq k v]
  have hs : "s/".toList = ['s', '/'] := rfl
  have hslash : "/".toList = ['/'] := rfl
  have hg : "/g".toList = ['/', 'g'] := rfl
  simp only [hs, hslash, hg, List.append_assoc, List.cons_append, List.nil_append]

theorem removal_eq (k : Key) (v : Text) :
    removal k v = 's' :: '/' :: (credential k.name v ++ '/' :: (startTag k ++ insertionEnd k)) := by
  unfold removal substituteAll insertionEnd
  rw [credential_eq k []]
  have hs : "s/".toList = ['s', '/'] := rfl
  have hslash : "/".toList = ['/'] := rfl
  have hg : "/g".toList = ['/', 'g'] := rfl
  simp only [hs, hslash, hg, List.append_assoc, List.cons_append, List.nil_append]

/-- The pattern that finds an empty element. -/
def emptyPattern (k : Key) : Regex := Regex.plain ((element k []).map Regex.atomOf)

/-- A value that a replacement goes on after is put in as its parts say. -/
theorem parse_insertion {k : Key} {v : Text} {ps : List Part} (hv : inner v = some ps) :
    Substitution.parse (insertion k v) =
      some ⟨emptyPattern k, (startTag k).map .lit ++ ps ++ (endTag k).map .lit⟩ := by
  have hdelimited : delimited (credential k.name [] ++ '/' :: (startTag k ++ (v ++ insertionEnd k))) =
      some (element k [], startTag k ++ (v ++ insertionEnd k)) :=
    delimited_credential (by simp [Verbatim]) _
  have hreplacement : replacement (startTag k ++ (v ++ insertionEnd k)) =
      some ((startTag k).map Part.lit ++ ps ++ (endTag k).map Part.lit, ['g']) := by
    have hinner : replacement (v ++ insertionEnd k) =
        (replacement (insertionEnd k)).map fun x => (ps ++ x.1, x.2) :=
      replacement_inner_append hv (by decide) rfl _
    rw [replacement_append (verbatim_startTag k), hinner, replacement_insertionEnd]
    simp
  rw [insertion_eq, Substitution.parse_of_delimited hdelimited, parse_element (by simp),
    Option.bind_some, hreplacement]
  rfl

/-- A value that a replacement does not go on after is refused. -/
theorem parse_insertion_eq_none {k : Key} {v : Text} (hv : inner v = none) :
    Substitution.parse (insertion k v) = none := by
  have hdelimited : delimited (credential k.name [] ++ '/' :: (startTag k ++ (v ++ insertionEnd k))) =
      some (element k [], startTag k ++ (v ++ insertionEnd k)) :=
    delimited_credential (by simp [Verbatim]) _
  rw [insertion_eq, Substitution.parse_of_delimited hdelimited, parse_element (by simp),
    Option.bind_some, replacement_append (verbatim_startTag k)]
  rcases h : replacement (v ++ insertionEnd k) with _ | ⟨ps, flags⟩
  · rfl
  · -- the flags would go on with the end tag
    have hlength := (suffix_of_inner_eq_none hv h).length_le
    have hflags : flags ≠ ['g'] := by
      rintro rfl
      simp [insertionEnd] at hlength
    simp [hflags]

theorem parse_removal {k : Key} {v : Text} (hv : Verbatim v) :
    Substitution.parse (removal k v) =
      (Regex.parse (element k v)).map fun r => ⟨r, (element k []).map .lit⟩ := by
  have hreplacement : replacement (startTag k ++ insertionEnd k) =
      some ((element k []).map Part.lit, ['g']) := by
    rw [replacement_append (verbatim_startTag k), replacement_insertionEnd]
    simp [element]
  rw [removal_eq, Substitution.parse_of_delimited (delimited_credential hv _), hreplacement]
  cases Regex.parse (element k v) <;> rfl

/-- A script that is not read leaves the text, when what `sed` makes of the unknown ones does. -/
theorem edit_of_parse_eq_none {script : Text} (h : Substitution.parse script = none) (t : Text) :
    edit (fun _ t => t) script t = t := by
  rw [edit, h]
  exact ite_self t

/-- An empty element is found somewhere. -/
theorem not_kept_of_emptyPattern {k : Key} {a b : Text}
    (h : pieces (emptyPattern k) 0 (a ++ element k [] ++ b) =
      (a ++ element k [] ++ b).map Piece.kept) : False := by
  have hnl : '\n' ∉ element k [] := by cases k <;> decide
  have hlongest : (emptyPattern k).longest (element k [] ++ b) = some (element k []).length :=
    Regex.longest_plain_append (Regex.forall₂_atomOf hnl) b
  have hlength : (element k []).length = (tagName k).length + (tagName k).length + 2 + 1 := by
    simp [element, startTag, endTag]
    omega
  rw [hlength] at hlongest
  exact longest_of_pieces_kept h (List.append_assoc a _ b) _ hlongest

theorem expand_tags (k : Key) (ps : List Part) (m : Text) :
    expand ((startTag k).map .lit ++ ps ++ (endTag k).map .lit) m =
      startTag k ++ expand ps m ++ endTag k := by
  rw [expand_append, expand_append, expand_map_lit, expand_map_lit]

theorem append_element_inj {k : Key} {a b v w : Text}
    (h : a ++ element k v ++ b = a ++ element k w ++ b) : v = w := by
  have h := List.append_cancel_left (List.append_cancel_right h)
  exact List.append_cancel_left (List.append_cancel_right h)

/-- **A value is put in** exactly when it stands for itself and the pattern finds the empty element
and nothing else. -/
theorem edit_insertion_iff {k : Key} {a b v : Text} (ha : ¬ Text.Occurs (endTag k) a)
    (hb : ¬ Text.Occurs (endTag k) b) :
    (∀ other, edit other (insertion k v) (a ++ element k [] ++ b) = a ++ element k v ++ b) ↔
      Verbatim v ∧ FindsElement a k [] b := by
  have hempty := parse_element (k := k) (v := []) (by simp)
  constructor
  · intro h
    have h := h fun _ t => t
    rcases hv : inner v with _ | ps
    · rw [edit_of_parse_eq_none (parse_insertion_eq_none hv)] at h
      rw [← append_element_inj h] at hv
      cases hv
    · -- the end tag is in the new text only once, so there is one match at most
      rw [edit_of_parse (parse_insertion hv)] at h
      have hslash := not_occurs_slash_of_inner hv (d := '<') (by decide)
      have hA : ¬ Text.Occurs (endTag k) (a ++ startTag k ++ v) := by
        rw [occurs_endTag_append_startTag, not_or]
        refine ⟨ha, fun hocc => hslash.2 (List.IsInfix.trans ⟨[], tagName k, rfl⟩ hocc)⟩
      have h' : sub (emptyPattern k)
          (expand ((startTag k).map .lit ++ ps ++ (endTag k).map .lit)) (a ++ element k [] ++ b) =
            (a ++ startTag k ++ v) ++ endTag k ++ b := by
        rw [h, element]
        simp only [List.append_assoc]
      rcases pieces_of_sub_eq (expand_tags k ps) (by simp [endTag])
        (fun p q hpq => eq_of_append_endTag hA hb hpq) h' with hkept | ⟨p, m, hpieces, hp⟩
      · exact (not_kept_of_emptyPattern hkept).elim
      · -- the match is the empty element: it is as long, and ends where that ends
        have hsource := flatMap_source_pieces (emptyPattern k) 0 (a ++ element k [] ++ b)
        have hm : m.length = (element k []).length := by
          have hfound : Piece.found m ∈ pieces (emptyPattern k) 0 (a ++ element k [] ++ b) := by
            rw [hpieces]
            simp
          simpa using (forall₂_of_found hfound).length_eq.symm
        have hpm : p ++ m = a ++ element k [] := by
          rw [hpieces] at hsource
          simpa [Piece.source, ← List.append_assoc] using hsource
        obtain ⟨rfl, rfl⟩ := List.append_inj' hpm hm
        have hexpand : expand ps (element k []) = v := by
          rw [← List.append_assoc] at hp
          exact List.append_cancel_left hp
        have hocc : Text.Occurs ['<', '/'] (element k []) :=
          ⟨startTag k, tagName k, by simp [element, endTag]⟩
        exact ⟨verbatim_of_expand_eq (by decide) hocc hv hexpand, _, hempty, hpieces⟩
  · rintro ⟨hv, r, hr, honly⟩ other
    obtain rfl : emptyPattern k = r := Option.some.inj (hempty.symm.trans hr)
    rw [edit_of_parse (parse_insertion (inner_of_verbatim hv)), honly.sub_eq, expand_tags,
      expand_map_lit]
    rfl

/-- **A value is taken out** exactly when the element, as a pattern, finds itself and nothing
else. -/
theorem edit_removal_iff {k : Key} {a b v : Text} (ha : ¬ Text.Occurs (endTag k) a)
    (hb : ¬ Text.Occurs (endTag k) b) (hv : Verbatim v) :
    (∀ other, edit other (removal k v) (a ++ element k v ++ b) = a ++ element k [] ++ b) ↔
      FindsElement a k v b := by
  have hempty := parse_element (k := k) (v := []) (by simp)
  constructor
  · intro h
    have h := h fun _ t => t
    rcases hr : Regex.parse (element k v) with _ | r
    · rw [edit_of_parse_eq_none (by rw [parse_removal hv, hr]; rfl)] at h
      rw [append_element_inj h, hempty] at hr
      cases hr
    · rw [edit_of_parse (by rw [parse_removal hv, hr]; rfl)] at h
      have hA : ¬ Text.Occurs (endTag k) (a ++ startTag k) := by
        have hnil : ¬ Text.Occurs (endTag k) [] := not_occurs_endTag_of_not_mem (by simp)
        have := (occurs_endTag_append_startTag (k := k) (l := k) (a := a) (v := [])).not
        rw [List.append_nil, not_or] at this
        exact this.mpr ⟨ha, hnil⟩
      have h' : sub r (expand ((element k []).map .lit)) (a ++ element k v ++ b) =
          (a ++ startTag k) ++ endTag k ++ b := by
        rw [h, element]
        simp only [List.append_assoc, List.append_nil]
      have himage : ∀ m, expand ((element k []).map .lit) m = (fun _ => startTag k) m ++ endTag k := by
        simp [element]
      rcases pieces_of_sub_eq himage (by simp [endTag])
        (fun p q hpq => eq_of_append_endTag hA hb hpq) h' with hkept | ⟨p, m, hpieces, hp⟩
      · -- nothing is found, so that the value is empty, and the empty element is found
        have hnil : element k v = element k [] := by
          have hid : sub r (expand ((element k []).map .lit)) (a ++ element k v ++ b) =
              a ++ element k v ++ b := by
            rw [sub, hkept, flatMap_image_map_kept]
          rw [append_element_inj (hid.symm.trans h)]
        rw [hnil, hempty] at hr
        obtain rfl := Option.some.inj hr
        rw [hnil] at hkept
        exact (not_kept_of_emptyPattern hkept).elim
      · obtain rfl : p = a := List.append_cancel_right hp
        have hsource := flatMap_source_pieces r 0 (p ++ element k v ++ b)
        have hm : m = element k v := by
          rw [hpieces, List.append_assoc] at hsource
          simpa [Piece.source] using hsource
        exact ⟨r, hr, hm ▸ hpieces⟩
  · rintro ⟨r, hr, honly⟩ other
    rw [edit_of_parse (by rw [parse_removal hv, hr]; rfl), honly.sub_eq, expand_map_lit]

/-! ## The text of pom.xml -/

/-- The text of `pom.xml` around its two elements. Neither of them is found elsewhere. -/
structure Pom where
  before : Text
  first : Key
  between : Text
  after : Text
  not_before : ∀ k, ¬ Text.Occurs (endTag k) before
  not_between : ∀ k, ¬ Text.Occurs (endTag k) between
  not_after : ∀ k, ¬ Text.Occurs (endTag k) after

/-- The values of the two elements. -/
def credentials (user password : Text) : Key → Text
  | .username => user
  | .password => password

/-- The values of two elements that are empty. -/
abbrev noCredentials : Key → Text := credentials [] []

namespace Pom

variable (P : Pom)

/-- The text with the values of the elements. -/
def text (value : Key → Text) : Text :=
  P.before ++ element P.first (value P.first) ++ P.between ++
    element P.first.other (value P.first.other) ++ P.after

/-- The text before an element, with the value of the other one. -/
def left (k : Key) (value : Text) : Text :=
  if k = P.first then P.before else P.before ++ element k.other value ++ P.between

/-- The text after an element, with the value of the other one. -/
def right (k : Key) (value : Text) : Text :=
  if k = P.first then P.between ++ element k.other value ++ P.after else P.after

theorem text_eq (k : Key) (value : Key → Text) :
    P.text value = P.left k (value k.other) ++ element k (value k) ++ P.right k (value k.other) := by
  rcases Key.eq_or_eq_other P.first k with rfl | rfl
  · simp only [text, left, right, if_true, List.append_assoc]
  · have hne : P.first.other ≠ P.first := (Key.ne_other _).symm
    simp only [text, left, right, if_neg hne, Key.other_other, List.append_assoc]

theorem text_username (user password : Text) :
    P.text (credentials user password) =
      P.left .username password ++ element .username user ++ P.right .username password :=
  P.text_eq .username (credentials user password)

theorem text_password (user password : Text) :
    P.text (credentials user password) =
      P.left .password user ++ element .password password ++ P.right .password user :=
  P.text_eq .password (credentials user password)

theorem not_occurs_left {k : Key} {value : Text} (hvalue : '/' ∉ value) :
    ¬ Text.Occurs (endTag k) (P.left k value) := by
  unfold left
  split_ifs with h
  · exact P.not_before k
  · rw [occurs_endTag_append_element]
    rintro (hocc | hocc | hocc)
    · exact P.not_before k hocc
    · exact not_occurs_endTag_of_not_mem hvalue hocc
    · exact P.not_between k hocc

theorem not_occurs_right {k : Key} {value : Text} (hvalue : '/' ∉ value) :
    ¬ Text.Occurs (endTag k) (P.right k value) := by
  unfold right
  split_ifs with h
  · rw [occurs_endTag_append_element]
    rintro (hocc | hocc | hocc)
    · exact P.not_between k hocc
    · exact not_occurs_endTag_of_not_mem hvalue hocc
    · exact P.not_after k hocc
  · exact P.not_after k

/-- The element with the value `v`, read as a regular expression, finds itself in the text, where
the other element has the value `value`, and nothing else. -/
def Finds (k : Key) (v value : Text) : Prop := FindsElement (P.left k value) k v (P.right k value)

end Pom

/-- One value is put in, next to another one. -/
theorem Pom.edit_insertion_iff (P : Pom) {k : Key} {v value : Text} (hvalue : '/' ∉ value) :
    (∀ other, edit other (insertion k v) (P.left k value ++ element k [] ++ P.right k value) =
        P.left k value ++ element k v ++ P.right k value) ↔
      Verbatim v ∧ P.Finds k [] value :=
  Avetti.edit_insertion_iff (P.not_occurs_left hvalue) (P.not_occurs_right hvalue)

/-- One value is taken out, next to another one. -/
theorem Pom.edit_removal_iff (P : Pom) {k : Key} {v value : Text} (hvalue : '/' ∉ value)
    (hv : Verbatim v) :
    (∀ other, edit other (removal k v) (P.left k value ++ element k v ++ P.right k value) =
        P.left k value ++ element k [] ++ P.right k value) ↔ P.Finds k v value :=
  Avetti.edit_removal_iff (P.not_occurs_left hvalue) (P.not_occurs_right hvalue) hv

/-! ## The four edits -/

section Restores

variable (P : Pom) (user password : Text)

/-- Each of the four edits does its part: it puts in its value, or takes it out, and leaves the rest
of the text, whatever `sed` makes of scripts that are not read here. -/
structure Restores : Prop where
  insertUser : ∀ other, edit other (insertion .username user) (P.text noCredentials) =
    P.text (credentials user [])
  insertPassword : ∀ other, edit other (insertion .password password)
    (P.text (credentials user [])) = P.text (credentials user password)
  removeUser : ∀ other, edit other (removal .username user)
    (P.text (credentials user password)) = P.text (credentials [] password)
  removePassword : ∀ other, edit other (removal .password password)
    (P.text (credentials [] password)) = P.text noCredentials

/-- The credentials stand for themselves in a replacement, and each element, empty and with its
value, is a pattern that finds itself and nothing else. -/
structure Restorable : Prop where
  verbatimUser : Verbatim user
  verbatimPassword : Verbatim password
  findsEmptyUser : P.Finds .username [] []
  findsEmptyPassword : P.Finds .password [] user
  findsUser : P.Finds .username user password
  findsPassword : P.Finds .password password []

/-- The text after some edits. -/
def editAll (other : Text → Text → Text) (scripts : List Text) (t : Text) : Text :=
  scripts.foldl (fun t script => edit other script t) t

/-- The edits of the script are inverse to each other. -/
structure Inverse : Prop where
  inserted : ∀ other, editAll other (insertCredentials user password) (P.text noCredentials) =
    P.text (credentials user password)
  removed : ∀ other, editAll other (removeCredentials user password)
    (P.text (credentials user password)) = P.text noCredentials

variable {P user password}

theorem Restores.inverse (h : Restores P user password) : Inverse P user password where
  inserted other := by
    rw [insertCredentials_eq, editAll, List.foldl_cons, List.foldl_cons, h.insertUser,
      h.insertPassword, List.foldl_nil]
  removed other := by
    rw [removeCredentials_eq, editAll, List.foldl_cons, List.foldl_cons, h.removeUser,
      h.removePassword, List.foldl_nil]

theorem restores_iff_restorable : Restores P user password ↔ Restorable P user password := by
  have hnil : '/' ∉ ([] : Text) := List.not_mem_nil
  constructor
  · rintro ⟨hiu, hip, hru, hrp⟩
    rw [P.text_username, P.text_username, P.edit_insertion_iff hnil] at hiu
    have hu := hiu.1.slash_not_mem
    rw [P.text_password, P.text_password, P.edit_insertion_iff hu] at hip
    have hp := hip.1.slash_not_mem
    rw [P.text_username, P.text_username, P.edit_removal_iff hp hiu.1] at hru
    rw [P.text_password, P.text_password, P.edit_removal_iff hnil hip.1] at hrp
    exact ⟨hiu.1, hip.1, hiu.2, hip.2, hru, hrp⟩
  · rintro ⟨hu, hp, hiu, hip, hru, hrp⟩
    refine ⟨?_, ?_, ?_, ?_⟩
    · rw [P.text_username, P.text_username, P.edit_insertion_iff hnil]
      exact ⟨hu, hiu⟩
    · rw [P.text_password, P.text_password, P.edit_insertion_iff hu.slash_not_mem]
      exact ⟨hp, hip⟩
    · rw [P.text_username, P.text_username, P.edit_removal_iff hp.slash_not_mem hu]
      exact hru
    · rw [P.text_password, P.text_password, P.edit_removal_iff hnil hp]
      exact hrp

/-- **The credentials are restored**: each edit does its part exactly when the credentials stand for
themselves, and each element is a pattern that finds itself and nothing else; the edits that take
them out are then inverse to those that put them in. -/
theorem restores_iff (P : Pom) (user password : Text) :
    (Restores P user password ↔ Restorable P user password) ∧
      (Restorable P user password → Inverse P user password) :=
  ⟨restores_iff_restorable, fun h => (restores_iff_restorable.mpr h).inverse⟩

end Restores

/-- A text with the two elements and a line before them. -/
def samplePom : Pom where
  before := "<properties>\n"
  first := .username
  between := "\n"
  after := "\n</properties>\n"
  not_before := by intro k; cases k <;> decide
  not_between := by intro k; cases k <;> decide
  not_after := by intro k; cases k <;> decide

/-- A password with `&` is not put in as it is. -/
theorem not_inverse_ampersand : ¬ Inverse samplePom "anna" "a&b" := fun h =>
  absurd (h.inserted fun _ t => t) (by decide)

instance (a : Text) (k : Key) (v b : Text) : Decidable (FindsElement a k v b) :=
  match h : Regex.parse (element k v) with
  | some r => decidable_of_iff (OnlyMatch r a (element k v) b) (by simp [FindsElement, h])
  | none => isFalse (by simp [FindsElement, h])

/-- A password with a bracket expression is not taken out: the expression does not match itself. -/
example : ¬ Restorable samplePom "anna" "a[0]" := fun h =>
  absurd h.findsPassword (by unfold Pom.Finds; decide)

example : Restorable samplePom "anna" "s3cret.2" where
  verbatimUser := by decide
  verbatimPassword := by decide
  findsEmptyUser := by unfold Pom.Finds; decide
  findsEmptyPassword := by unfold Pom.Finds; decide
  findsUser := by unfold Pom.Finds; decide
  findsPassword := by unfold Pom.Finds; decide

end Avetti
