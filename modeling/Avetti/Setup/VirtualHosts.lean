import Avetti.Setup.Files
import Avetti.Setup.ServerDomain

/-!
# The virtual hosts

`configureHttpd` copies `httpd-vhosts.conf` from the files that come with the scripts, and replaces
the names in it. The lines of that file end with a carriage return, which the web server takes for a
blank.

## Main definitions

* `vhostsTemplate`: the file that is copied
* `vhostNames t`: the names of the virtual hosts in a configuration
* `vhostRules v`: the edits of the copy, as substitutions

## Main results

* `vhostNames_template`: the names of the virtual hosts after some substitutions
* `forall₂_vhostEdits`: the edits are these substitutions
* `mem_vhostNames_iff`: the virtual hosts of the edited copy
-/

open Sed

namespace Avetti

/-! ## The copied file -/

/-- The first part of the file, line by line without the carriage returns. -/
def templateHeader : List Text :=
  ["#",
    "# Virtual Hosts",
    "#",
    "# If you want to maintain multiple domains/hostnames on your",
    "# machine you can setup VirtualHost containers for them. Most configurations",
    "# use only name-based virtual hosts so the server doesn't need to worry about",
    "# IP addresses. This is indicated by the asterisks in the directives below.",
    "#",
    "# Please see the documentation at ",
    "# <URL:http://httpd.apache.org/docs/2.2/vhosts/>",
    "# for further details before you try to setup virtual hosts.",
    "#",
    "# You may use the command line option '-S' to verify your virtual host",
    "# configuration.",
    "",
    "#",
    "# Use name-based virtual hosting.",
    "#",
    "NameVirtualHost *:80",
    "",
    "#",
    "# VirtualHost example:",
    "# Almost any Apache directive may go into a VirtualHost container.",
    "# The first VirtualHost section is used for all requests that do not",
    "# match a ServerName or ServerAlias in any <VirtualHost> block.",
    "#",
    ""]

/-- The virtual hosts of the file, line by line without the carriage returns. -/
def templateHosts : List Text :=
  ["<VirtualHost *:80>",
    "    ServerAdmin webmaster@dummy-host.example.com",
    "    DocumentRoot \"/avetti/tomcat/webapps\"",
    "    ServerName www.yourdomain.com",
    "    ErrorLog \"| httpdpath/bin/rotatelogs.exe httpdpath/logs/www.yourdomain.com-error_log 100M\"",
    "    CustomLog \"| httpdpath/bin/rotatelogs.exe httpdpath/logs/www.yourdomain.com-access_log 100M\" common",
    "",
    "#    DirectorySlash Off",
    "    RewriteEngine on",
    "",
    "    RewriteCond %\x7bHTTP_HOST\x7d !=\"\"",
    "    RewriteCond %\x7bTHE_REQUEST\x7d ^[A-Z]+\\s//+(.*)\\sHTTP/[0-9.]+$ [OR]",
    "    RewriteCond %\x7bTHE_REQUEST\x7d ^[A-Z]+\\s(.*/)/+\\sHTTP/[0-9.]+$",
    "    RewriteRule .* http://%\x7bHTTP_HOST\x7d/%1 [R=301,L]",
    "</VirtualHost>",
    "",
    "<VirtualHost *:80>",
    "    ServerAdmin webmaster@dummy-host.example.com",
    "    DocumentRoot \"/avetti/tomcat/webapps\"",
    "    ServerName c8prod1.yourdomain.com",
    "    ErrorLog \"| httpdpath/bin/rotatelogs.exe httpdpath/logs/c8prod1.yourdomain.com-error_log 100M\"",
    "    CustomLog \"| httpdpath/bin/rotatelogs.exe httpdpath/logs/c8prod1.yourdomain.com-access_log 100M\" common",
    "</VirtualHost>",
    ""]

/-- The lines of the file. -/
def vhostsLines : List Text := (templateHeader ++ templateHosts).map (· ++ ['\r'])

/-- `httpd-vhosts.conf` as it comes with the scripts. -/
def vhostsTemplate : Text := Text.unlines vhostsLines

/-! ## Names in a configuration -/

/-- The blanks of a line. -/
def blanks : List Char := [' ', '\t', '\r', '\x0b', '\x0c']

/-- The directives that name virtual hosts. -/
inductive Directive where
  | opening
  | closing
  | serverName (n : Text)
  | other
  deriving DecidableEq

namespace Directive

/-- `ServerName` with these arguments. It takes one. -/
def ofName : List Text → Directive
  | [n] => serverName n
  | _ => other

/-- The directive with these words. -/
def ofWords : List Text → Directive
  | [] => other
  | w :: ws =>
    if w = "<VirtualHost".toList then opening
    else if w = "</VirtualHost>".toList then closing
    else if w = "ServerName".toList then ofName ws
    else other

/-- The directive on a line. -/
def read (l : Text) : Directive := ofWords (Shell.words blanks l)

end Directive

/-- The names of the virtual hosts, from outside or inside one on. -/
def serverNames : Bool → List Directive → List Text
  | _, [] => []
  | _, .opening :: ds => serverNames true ds
  | _, .closing :: ds => serverNames false ds
  | inside, .serverName n :: ds => if inside then n :: serverNames inside ds else serverNames inside ds
  | inside, .other :: ds => serverNames inside ds

/-- The names of the virtual hosts in a configuration. -/
def vhostNames (t : Text) : List Text :=
  serverNames false ((t.splitOn '\n').map Directive.read)

/-! ## The first word of a line -/

/-- The first word of a line. -/
def firstWord (l : Text) : Text := (l.dropWhile (· ∈ blanks)).takeWhile (· ∉ blanks)

/-- What follows the first word of a line. -/
def afterFirst (l : Text) : Text := (l.dropWhile (· ∈ blanks)).dropWhile (· ∉ blanks)

/-- A line up to its first word and the blank after it. -/
def headOf (l : Text) : Text :=
  l.takeWhile (· ∈ blanks) ++ (firstWord l ++ (afterFirst l).take 1)

theorem headOf_append (l : Text) : headOf l ++ (afterFirst l).drop 1 = l := by
  rw [headOf, List.append_assoc, List.append_assoc, List.take_append_drop, firstWord, afterFirst,
    List.takeWhile_append_dropWhile, List.takeWhile_append_dropWhile]

theorem words_append_of_blanks {b : Text} (hb : ∀ c ∈ b, c ∈ blanks) (t : Text) :
    Shell.words blanks (b ++ t) = Shell.words blanks t := by
  induction b with
  | nil => rfl
  | cons c b ih =>
    have hcons := Shell.words_append_separator (hb c List.mem_cons_self) [] (b ++ t)
    rw [List.nil_append] at hcons
    rw [List.cons_append, hcons, ih fun d hd => hb d (List.mem_cons_of_mem c hd)]
    rfl

theorem words_concat_blank {b : Char} (hb : b ∈ blanks) (t : Text) :
    Shell.words blanks (t ++ [b]) = Shell.words blanks t :=
  Shell.words_append_replicate hb t 1

theorem isWord_firstWord {l : Text} (hl : firstWord l ≠ []) : Shell.IsWord blanks (firstWord l) := by
  refine ⟨hl, fun c hc hmem => ?_⟩
  have hnot := List.mem_takeWhile_imp hmem
  exact absurd hc (of_decide_eq_true hnot)

/-- The first word of a line that goes on stays its first word. -/
theorem words_headOf_append {l : Text} (hword : firstWord l ≠ []) (hafter : afterFirst l ≠ [])
    (t : Text) : Shell.words blanks (headOf l ++ t) = firstWord l :: Shell.words blanks t := by
  have hblank : (afterFirst l).head hafter ∈ blanks := by
    have hnot : decide ((afterFirst l).head hafter ∉ blanks) = false :=
      List.head_dropWhile_not _ hafter
    exact not_not.mp (of_decide_eq_false hnot)
  have htake : (afterFirst l).take 1 = [(afterFirst l).head hafter] := by
    obtain ⟨b, rest, h⟩ := List.exists_cons_of_ne_nil hafter
    simp [h]
  have hlead : ∀ c ∈ l.takeWhile (· ∈ blanks), c ∈ blanks := by
    intro c hc
    have hblank := List.mem_takeWhile_imp hc
    simpa using hblank
  rw [headOf, htake, List.append_assoc, words_append_of_blanks hlead, List.append_assoc,
    List.singleton_append, Shell.words_append_cons (isWord_firstWord hword) hblank]

/-! ## Names after substitutions -/

/-- The words that make a line count. -/
def keywords : List Text := ["<VirtualHost", "</VirtualHost>", "ServerName"]

/-- The name in a line with the directive for it, which has exactly one argument. -/
def named : List Text → List Text
  | [n] => [n]
  | _ => []

theorem mem_named_iff {n : Text} {ws : List Text} : n ∈ named ws ↔ ws = [n] := by
  rcases ws with _ | ⟨w, _ | ⟨w', ws⟩⟩
  · simp [named]
  · simp [named, eq_comm]
  · simp [named]

theorem ofWords_of_not_mem {w : Text} (hw : w ∉ keywords) (ws : List Text) :
    Directive.ofWords (w :: ws) = .other := by
  simp only [keywords, List.mem_cons, List.not_mem_nil, or_false, not_or] at hw
  rw [Directive.ofWords, if_neg hw.1, if_neg hw.2.1, if_neg hw.2.2]

/-- A directive for the name, inside a virtual host. -/
theorem serverNames_serverName (ws : List Text) (ds : List Directive) :
    serverNames true (Directive.ofWords ("ServerName".toList :: ws) :: ds) =
      named ws ++ serverNames true ds := by
  have hopening : "ServerName".toList ≠ "<VirtualHost".toList := by decide
  have hclosing : "ServerName".toList ≠ "</VirtualHost>".toList := by decide
  rw [Directive.ofWords, if_neg hopening, if_neg hclosing, if_pos rfl]
  rcases ws with _ | ⟨n, _ | ⟨w, ws⟩⟩ <;> rfl

theorem serverNames_filter {p : Text → Bool} {f : Text → Directive} {ls : List Text}
    (h : ∀ l ∈ ls, p l = false → f l = .other) (inside : Bool) :
    serverNames inside (ls.map f) = serverNames inside ((ls.filter p).map f) := by
  induction ls generalizing inside with
  | nil => rfl
  | cons l ls ih =>
    have ih := ih fun l' hl' => h l' (List.mem_cons_of_mem l hl')
    cases hp : p l with
    | false =>
      rw [List.filter_cons_of_neg (by simp [hp]), List.map_cons, h l List.mem_cons_self hp]
      exact ih inside
    | true =>
      rw [List.filter_cons_of_pos hp, List.map_cons, List.map_cons]
      cases f l with
      | serverName n =>
        rw [serverNames, serverNames, ih]
      | _ => exact ih _

/-! ## The lines of the file -/

/-- The patterns that are replaced in the file. -/
def vhostPatterns : List Text :=
  ["c8prod1.yourdomain.com", "yourdomain.com", "rotatelogs.exe", "httpdpath"]

/-- A line is blank, or none of the patterns starts in its first word. -/
structure Regular (l : Text) : Prop where
  newline_not_mem : '\n' ∉ l
  blank : firstWord l = [] → l = [] ++ ['\r']
  goes_on : firstWord l ≠ [] → afterFirst l ≠ []
  steady : ∀ p ∈ vhostPatterns, Regex.steady (p.map Regex.atomOf) (headOf l) = true

instance (l : Text) : Decidable (Regular l) :=
  decidable_of_iff ('\n' ∉ l ∧ (firstWord l = [] → l = [] ++ ['\r']) ∧
    (firstWord l ≠ [] → afterFirst l ≠ []) ∧
      ∀ p ∈ vhostPatterns, Regex.steady (p.map Regex.atomOf) (headOf l) = true)
    ⟨fun h => ⟨h.1, h.2.1, h.2.2.1, h.2.2.2⟩, fun h => ⟨h.1, h.2, h.3, h.4⟩⟩

/-- The lines of the file are regular, and six of them count. -/
def RegularLines (ls : List Text) : Prop :=
  (∀ l ∈ ls, Regular (l ++ ['\r'])) ∧ (ls.map (· ++ ['\r'])).filter (fun l => firstWord l ∈ keywords) =
    (["<VirtualHost *:80>\r", "    ServerName www.yourdomain.com\r", "</VirtualHost>\r",
      "<VirtualHost *:80>\r", "    ServerName c8prod1.yourdomain.com\r",
      "</VirtualHost>\r"] : List Text)

instance (ls : List Text) : Decidable (RegularLines ls) := inferInstanceAs (Decidable (_ ∧ _))

theorem regularLines_template : RegularLines (templateHeader ++ templateHosts) := by
  -- the characters of the literals come first, so that they are computed only once
  apply Eq.substr (p := RegularLines)
  · apply congrArg₂ List.append
    · unfold templateHeader
      iterate 27 apply congrArg₂ List.cons String.toList_ofList
      rfl
    · unfold templateHosts
      iterate 24 apply congrArg₂ List.cons String.toList_ofList
      rfl
  · decide

theorem regular_of_mem {l : Text} (hl : l ∈ vhostsLines) : Regular l := by
  obtain ⟨l', hl', rfl⟩ := List.mem_map.mp hl
  exact regularLines_template.1 l' hl'

/-! ## Names after substitutions -/

/-- A substitution of one of the patterns by texts without newlines. -/
structure Suits (r : Rule) : Prop where
  pattern : ∃ p ∈ vhostPatterns, r.atoms = p.map Regex.atomOf
  line : ∀ m, '\n' ∉ m → '\n' ∉ r.image m

section Template

variable {rs : List Rule}

theorem subAll_nil (rs : List Rule) : subAll rs [] = [] := by
  induction rs with
  | nil => rfl
  | cons r rs ih => exact ih

/-- No match ends in a carriage return. -/
theorem subAll_concat_return (hrs : ∀ r ∈ rs, Suits r) (t : Text) :
    subAll rs (t ++ ['\r']) = subAll rs t ++ ['\r'] := by
  have hends : ∀ p ∈ vhostPatterns, p ≠ [] ∧ (p.getLast?.map Regex.atomOf).all
      fun a => a.accepts '\r' = false := by decide
  refine subAll_concat (fun r hr => ?_) t
  obtain ⟨p, hp, hatoms⟩ := (hrs r hr).pattern
  obtain ⟨hne, hlast⟩ := hends p hp
  obtain ⟨w, c, rfl⟩ := List.eq_nil_or_concat p |>.resolve_left hne
  refine ⟨w.map Regex.atomOf, Regex.atomOf c, by simp [hatoms], ?_⟩
  simpa using hlast

theorem read_subAll (hrs : ∀ r ∈ rs, Suits r) {l : Text} (hl : Regular l)
    (hword : firstWord l ≠ []) : Directive.read (subAll rs l) =
      .ofWords (firstWord l :: Shell.words blanks (subAll rs ((afterFirst l).drop 1))) := by
  have hsteady : ∀ r ∈ rs, Regex.steady r.atoms (headOf l) = true := by
    intro r hr
    obtain ⟨p, hp, hatoms⟩ := (hrs r hr).pattern
    rw [hatoms]
    exact hl.steady p hp
  have hsub := subAll_append hsteady ((afterFirst l).drop 1)
  rw [headOf_append] at hsub
  rw [Directive.read, hsub, words_headOf_append hword (hl.goes_on hword)]

theorem read_subAll_of_not_mem (hrs : ∀ r ∈ rs, Suits r) {l : Text} (hl : Regular l)
    (hkey : firstWord l ∉ keywords) : Directive.read (subAll rs l) = .other := by
  by_cases hword : firstWord l = []
  · rw [hl.blank hword, subAll_concat_return hrs, subAll_nil]
    rfl
  · rw [read_subAll hrs hl hword, ofWords_of_not_mem hkey]

/-- **The names of the virtual hosts**: those that the two names in the file become. -/
theorem vhostNames_template (hrs : ∀ r ∈ rs, Suits r) : vhostNames (subAll rs vhostsTemplate) =
    named (Shell.words blanks (subAll rs "www.yourdomain.com")) ++
      named (Shell.words blanks (subAll rs "c8prod1.yourdomain.com")) := by
  have hlines : vhostsTemplate.splitOn '\n' = vhostsLines ++ [[]] :=
    Text.splitOn_unlines fun l hl => (regular_of_mem hl).newline_not_mem
  -- a line with another first word is no directive after the edits either
  have hother : ∀ l ∈ vhostsLines ++ [[]], decide (firstWord l ∈ keywords) = false →
      (Directive.read ∘ subAll rs) l = .other := by
    intro l hl hkey
    rw [Function.comp_apply]
    rcases List.mem_append.mp hl with hl | hl
    · exact read_subAll_of_not_mem hrs (regular_of_mem hl) (of_decide_eq_false hkey)
    · rw [List.mem_singleton.mp hl, subAll_nil]
      rfl
  have hfilter : (vhostsLines ++ [[]]).filter (fun l => firstWord l ∈ keywords) =
      (["<VirtualHost *:80>\r", "    ServerName www.yourdomain.com\r", "</VirtualHost>\r",
        "<VirtualHost *:80>\r", "    ServerName c8prod1.yourdomain.com\r",
        "</VirtualHost>\r"] : List Text) := by
    rw [List.filter_append, vhostsLines, regularLines_template.2]
    rfl
  have hopening : Directive.read (subAll rs "<VirtualHost *:80>\r") = .opening := by
    have hword : firstWord "<VirtualHost *:80>\r" = "<VirtualHost".toList := by decide
    rw [read_subAll hrs (by decide) (by decide), hword]
    rfl
  have hclosing : Directive.read (subAll rs "</VirtualHost>\r") = .closing := by
    have hword : firstWord "</VirtualHost>\r" = "</VirtualHost>".toList := by decide
    rw [read_subAll hrs (by decide) (by decide), hword]
    rfl
  have hname : ∀ {l t : Text}, Regular l → firstWord l = "ServerName".toList →
      (afterFirst l).drop 1 = t ++ ['\r'] → Directive.read (subAll rs l) =
        .ofWords ("ServerName".toList :: Shell.words blanks (subAll rs t)) := by
    intro l t hl hword ht
    rw [read_subAll hrs hl (by rw [hword]; decide), hword, ht, subAll_concat_return hrs,
      words_concat_blank (by decide)]
  rw [vhostNames, splitOn_subAll fun r hr => (hrs r hr).line, hlines, List.map_map,
    serverNames_filter hother, hfilter]
  simp only [List.map_cons, List.map_nil, Function.comp_apply, hopening, hclosing]
  rw [serverNames, hname (t := "www.yourdomain.com") (by decide) (by decide) (by decide),
    serverNames_serverName, serverNames, serverNames,
    hname (t := "c8prod1.yourdomain.com") (by decide) (by decide) (by decide),
    serverNames_serverName, serverNames, serverNames, List.append_nil]

end Template

/-! ## The edits of the copy -/

/-- What the path of the web server stands for in a replacement. -/
def pathParts (path : Text) : List Part := path.map fun c => if c = '&' then .matched else .lit c

/-- The edits of the copy, as substitutions. -/
def vhostRules (v : Vars) : List Rule :=
  [⟨"c8prod1.yourdomain.com".toList.map Regex.atomOf, expand (v.appHostName.map .lit)⟩,
    ⟨"yourdomain.com".toList.map Regex.atomOf, expand ((serverdomain v.appHostName).map .lit)⟩,
    ⟨"rotatelogs.exe".toList.map Regex.atomOf, expand ("rotatelogs".toList.map .lit)⟩,
    ⟨"httpdpath".toList.map Regex.atomOf, expand (pathParts v.httpdPath)⟩]

section Edits

variable {other : Text → Text → Text} {v : Vars}

theorem replacement_escapeSlashes {path : Text} (hpath : ∀ c ∈ path, c ≠ '\\' ∧ c ≠ '\n')
    (t : Text) : replacement (escapeSlashes path ++ t) =
      (replacement t).map fun (ps, t) => (pathParts path ++ ps, t) := by
  induction path with
  | nil => simp [escapeSlashes, pathParts]
  | cons c path ih =>
    have ih := ih fun d hd => hpath d (List.mem_cons_of_mem c hd)
    obtain ⟨hback, hnl⟩ := hpath c List.mem_cons_self
    have hstep : replacement (escapeSlashes (c :: path) ++ t) =
        (replacement (escapeSlashes path ++ t)).map fun (ps, t) => (pathParts [c] ++ ps, t) := by
      by_cases hslash : c = '/'
      · subst hslash
        have hcons : escapeSlashes ('/' :: path) ++ t = '\\' :: '/' :: (escapeSlashes path ++ t) := rfl
        rw [hcons, replacement]
        cases replacement (escapeSlashes path ++ t) <;> rfl
      · have hcons : escapeSlashes (c :: path) ++ t = c :: (escapeSlashes path ++ t) := by
          simp [escapeSlashes, hslash]
        rw [hcons]
        by_cases hand : c = '&'
        · subst hand
          rw [replacement]
          rfl
        · rw [replacement_cons ⟨hslash, hand, hback, hnl⟩]
          simp [pathParts, hand]
    rw [hstep, ih, Option.map_map]
    simp [pathParts, Function.comp_def]

/-- The script makes these substitutions. -/
theorem forall₂_vhostEdits (hhost : Verbatim v.appHostName)
    (hdomain : Verbatim (serverdomain v.appHostName))
    (hpath : ∀ c ∈ v.httpdPath, c ≠ '\\' ∧ c ≠ '\n') :
    List.Forall₂ (fun script r => ∀ t, stream other script t = Rule.apply r t) (vhostEdits v)
      (vhostRules v) := by
  have hpattern : ∀ p ∈ vhostPatterns, p ≠ [] ∧ ∀ c ∈ p, c ∉ "*[\\^$/\n".toList := by decide
  have hrule : ∀ {p repl : Text} {parts : List Part}, p ∈ vhostPatterns →
      replacement (repl ++ ['/', 'g']) = some (parts, ['g']) → ∀ t,
        stream other (substituteAll p repl) t = Rule.apply ⟨p.map Regex.atomOf, expand parts⟩ t := by
    intro p repl parts hp hrepl t
    rw [substituteAll_eq_script, stream_script (hpattern p hp).1 (hpattern p hp).2 hrepl other]
  have hescaped : replacement (escapeSlashes v.httpdPath ++ ['/', 'g']) =
      some (pathParts v.httpdPath, ['g']) := by
    have hend : replacement (['/', 'g'] : Text) = some ([], ['g']) := rfl
    rw [replacement_escapeSlashes hpath, hend]
    simp
  refine .cons (hrule (by decide) (replacement_verbatim hhost)) ?_
  refine .cons (hrule (by decide) (replacement_verbatim hdomain)) ?_
  refine .cons (hrule (by decide) (replacement_verbatim (by decide))) ?_
  exact .cons (hrule (by decide) hescaped) .nil

theorem suits_vhostRules (hhost : Verbatim v.appHostName)
    (hdomain : Verbatim (serverdomain v.appHostName))
    (hpath : ∀ c ∈ v.httpdPath, c ≠ '\\' ∧ c ≠ '\n') : ∀ r ∈ vhostRules v, Suits r := by
  have hlit : ∀ {w : Text}, Verbatim w → ∀ m : Text, '\n' ∉ m → '\n' ∉ expand (w.map .lit) m := by
    intro w hw m _ hnl
    rw [expand_map_lit] at hnl
    exact hw '\n' hnl (by decide)
  have hpart : ∀ m : Text, '\n' ∉ m → '\n' ∉ expand (pathParts v.httpdPath) m := by
    intro m hm hnl
    obtain ⟨part, hpart, hnl⟩ := List.mem_flatMap.mp hnl
    obtain ⟨c, hc, rfl⟩ := List.mem_map.mp hpart
    split_ifs at hnl
    · exact hm hnl
    · exact (hpath c hc).2 (List.mem_singleton.mp hnl).symm
  intro r hr
  simp only [vhostRules, List.mem_cons, List.not_mem_nil, or_false] at hr
  rcases hr with rfl | rfl | rfl | rfl
  · exact ⟨⟨_, by decide, rfl⟩, hlit hhost⟩
  · exact ⟨⟨_, by decide, rfl⟩, hlit hdomain⟩
  · exact ⟨⟨_, by decide, rfl⟩, hlit (by decide)⟩
  · exact ⟨⟨_, by decide, rfl⟩, hpart⟩

/-- **The virtual hosts of the edited copy**: the name that the later edits make of the host, and the
name that they make of `www` and its domain. -/
theorem mem_vhostNames_iff (hhost : Verbatim v.appHostName)
    (hdomain : Verbatim (serverdomain v.appHostName))
    (hpath : ∀ c ∈ v.httpdPath, c ≠ '\\' ∧ c ≠ '\n') (n : Text) :
    n ∈ vhostNames (streams other (vhostEdits v) vhostsTemplate) ↔
      Shell.words blanks (subAll ((vhostRules v).drop 1) v.appHostName) = [n] ∨
        Shell.words blanks (subAll ((vhostRules v).drop 2)
          ("www.".toList ++ serverdomain v.appHostName)) = [n] := by
  have hwww : subAll (vhostRules v) "www.yourdomain.com" =
      subAll ((vhostRules v).drop 2) ("www.".toList ++ serverdomain v.appHostName) := by
    have hnone : (Regex.plain ("c8prod1.yourdomain.com".toList.map Regex.atomOf)).finds
        "www.yourdomain.com" = false := by decide
    have hpieces : pieces (Regex.plain ("yourdomain.com".toList.map Regex.atomOf)) 0
        "www.yourdomain.com" = "www.".toList.map .kept ++ [.found "yourdomain.com"] := by
      decide
    rw [vhostRules, subAll_cons, Rule.apply, sub_of_not_finds hnone, subAll_cons, Rule.apply, sub,
      hpieces, List.flatMap_append, flatMap_image_map_kept, List.flatMap_singleton]
    exact congrArg (fun w => subAll _ ("www.".toList ++ w)) (expand_map_lit (serverdomain _) _)
  have hc8 : subAll (vhostRules v) "c8prod1.yourdomain.com" =
      subAll ((vhostRules v).drop 1) v.appHostName := by
    have hpieces : pieces (Regex.plain ("c8prod1.yourdomain.com".toList.map Regex.atomOf)) 0
        "c8prod1.yourdomain.com" = [.found "c8prod1.yourdomain.com"] := by decide
    rw [vhostRules, subAll_cons, Rule.apply, sub, hpieces, List.flatMap_singleton]
    exact congrArg (subAll _) (expand_map_lit v.appHostName _)
  rw [streams_eq_subAll (forall₂_vhostEdits hhost hdomain hpath),
    vhostNames_template (suits_vhostRules hhost hdomain hpath), List.mem_append, mem_named_iff,
    mem_named_iff, hwww, hc8, or_comm]

end Edits

end Avetti
