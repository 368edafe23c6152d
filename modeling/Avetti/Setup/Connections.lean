import Avetti.Sed.Borders
import Avetti.Setup.Clients

/-!
# The database connections in the configuration files

`preview.xml` and `ROOT.xml` are one file of the repository, with the connections to three databases.
`settings.xml` is copied from a file that is not in the repository, where one element has the host.
The edits of these files put in the endpoint, next to values that were typed.

## Main definitions

* `contextText password endpoint`: the text of `preview.xml` and `ROOT.xml`
* `ConnectsTo host port t`: the text has the endpoint in its three connections
* `NamesHost value t`: the one element `db.host` of the text has the value
* `OriginalSettings t`: the text that `settings.xml` is copied from
* `Inert w`: a value that the edits put in as it is, and that makes no tag

## Main results

* `ConnectsTo.streams`: the edits of `preview.xml` and `ROOT.xml` put in the endpoint
* `OriginalSettings.namesHost`: those of `settings.xml` put in the host
-/

open Script Sed

namespace Avetti

/-! ## The texts of the files -/

/-- The start of a connection, before the password. -/
def sourceStart : Text := "\t<Resource auth=\"Container\" user=\"avetti\" password=\""

/-- What follows the password. -/
def sourceType : Text :=
  "\" type=\"com.mchange.v2.c3p0.ComboPooledDataSource\" driverClass=\"com.mysql.jdbc.Driver\""

/-- The parts of a connection between the password and the endpoint. -/
def sourceMiddle (pool : Text) : List Text :=
  [sourceType, " maxPoolSize=\"100\" minPoolSize=\"", pool,
    " factory=\"org.apache.naming.factory.BeanFactory\" acquireIncrement=\"1\"",
    " idleConnectionTestPeriod=\"7200\" maxConnectionAge=\"14400\" jdbcUrl=\"jdbc:mysql://"]

/-- The parts of a connection after the endpoint. -/
def sourceEnd (db : Text) : List Text :=
  ["/".toList ++ db, "?zeroDateTimeBehavior=convertToNull&amp;jdbcCompliantTruncation=false\"",
    " name=\"", db, "DS\"/>\r\n"]

/-- The pools of the connections to `preview` and `backup`. -/
def largePool : Text :=
  "10\" unreturnedConnectionTimeout =\"1800\" debugUnreturnedConnectionStackTraces = \"true\""

/-- The connections: the pool and the database of each. -/
def sources : List (Text × Text) :=
  [(largePool, "preview"), ("3\"", "shop"), (largePool, "backup")]

/-- A connection, with its pool and its database. -/
def connection (password endpoint : Text) (s : Text × Text) : Text :=
  sourceStart ++ (password ++ ((sourceMiddle s.1).flatten ++ (endpoint ++ (sourceEnd s.2).flatten)))

/-- The text of `preview.xml` and `ROOT.xml`. -/
def contextText (password endpoint : Text) : Text :=
  "<Context>\r\n".toList ++ (sources.flatMap (connection password endpoint) ++ "</Context>\r\n".toList)

/-- The text has the endpoint in its three connections. -/
def ConnectsTo (host port t : Text) : Prop :=
  ∃ password, '"' ∉ password ∧ t = contextText password (host ++ ":".toList ++ port)

/-- The element `db.host` with a value. -/
def dbHost (value : Text) : Text := "<db.host>".toList ++ value ++ "</db.host>".toList

/-- The one element `db.host` of the text has the value. -/
def NamesHost (value t : Text) : Prop :=
  ∃ a b, t = a ++ (dbHost value ++ b) ∧ ¬ Text.Occurs "<db.host>" a ∧ ¬ Text.Occurs "<db.host>" b

/-- The start tag of the element, where the dot stands for any character. -/
def dbHostTag : List Atom := "<db.host>".toList.map Regex.atomOf

/-- Nothing in the text is taken for the start tag, or would be without the drive. -/
structure LacksTag (t : Text) : Prop where
  tag : (Regex.plain dbHostTag).finds t = false
  drive : ¬ Text.Occurs "<dbC:/" t

/-- The text that `settings.xml` is copied from: its one element `db.host` has `localhost`. -/
def OriginalSettings (t : Text) : Prop :=
  ∃ a b, t = a ++ (dbHost "localhost" ++ b) ∧ LacksTag a ∧ LacksTag b

/-- The host, with the port unless it is the default one, as `settings.xml` has them. -/
def hostAndPort (host port : Text) : Text :=
  if port = "3306".toList then host else host ++ ":".toList ++ port

/-- A value that the edits put in as it is. It ends no attribute, and makes no tag. -/
structure Inert (w : Text) : Prop where
  verbatim : Verbatim w
  quote : '"' ∉ w
  tag : Regex.Shuns dbHostTag w

instance (w : Text) : Decidable (Inert w) :=
  decidable_of_iff (Verbatim w ∧ '"' ∉ w ∧ Regex.Shuns dbHostTag w)
    ⟨fun ⟨h₁, h₂, h₃⟩ => ⟨h₁, h₂, h₃⟩, fun ⟨h₁, h₂, h₃⟩ => ⟨h₁, h₂, h₃⟩⟩

theorem verbatim_append {u w : Text} (hu : Verbatim u) (hw : Verbatim w) : Verbatim (u ++ w) := by
  intro c hc
  rcases List.mem_append.mp hc with hc | hc
  · exact hu c hc
  · exact hw c hc

theorem verbatim_hostAndPort {port : Text} (hport : PortWord port) :
    Verbatim ("<db.host>".toList ++ hostAndPort "localhost" port) := by
  have htag : Verbatim "<db.host>".toList := by decide
  have hlocalhost : Verbatim "localhost".toList := by decide
  have hcolon : Verbatim ":".toList := by decide
  refine verbatim_append htag ?_
  rw [hostAndPort]
  split_ifs
  · exact hlocalhost
  · exact verbatim_append (verbatim_append hlocalhost hcolon) hport.verbatim

/-! ## The edits as substitutions -/

/-- All that matches the pattern is replaced by the value. -/
def ruleOf (pattern value : Text) : Rule := ⟨pattern.map Regex.atomOf, fun _ => value⟩

theorem stream_substituteAll {pattern value : Text} (hne : pattern ≠ [])
    (hpattern : ∀ c ∈ pattern, c ∉ "*[\\^$/\n".toList) (hvalue : Verbatim value)
    (other : Text → Text → Text) (t : Text) :
    stream other (substituteAll pattern value) t = (ruleOf pattern value).apply t := by
  have hconst : expand (value.map .lit) = fun _ => value := funext fun m => expand_map_lit value m
  rw [substituteAll_eq_script, stream_script hne hpattern (replacement_verbatim hvalue) other, hconst]
  rfl

section Contexts

variable {v : Vars} {other : Text → Text → Text}

/-- The patterns of the edits of `preview.xml` and `ROOT.xml`. -/
def contextPatterns : List Text := ["mysql.password", "localhost", "3306"]

/-- The edits of `preview.xml` and `ROOT.xml`, as substitutions. -/
def contextRules (v : Vars) : List Rule :=
  [ruleOf "mysql.password" v.mysqlAvettiPwd, ruleOf "localhost" "localhost"] ++
    if v.mysqlPort ≠ "3306".toList then [ruleOf "3306" v.mysqlPort] else []

theorem forall_mem_contextRules {P : Rule → Prop} (hpwd : P (ruleOf "mysql.password" v.mysqlAvettiPwd))
    (hhost : P (ruleOf "localhost" "localhost")) (hport : P (ruleOf "3306" v.mysqlPort)) :
    ∀ r ∈ contextRules v, P r := by
  intro r hr
  rw [contextRules, List.mem_append] at hr
  rcases hr with hr | hr
  · simp only [List.mem_cons, List.not_mem_nil, or_false] at hr
    rcases hr with rfl | rfl
    · exact hpwd
    · exact hhost
  · split_ifs at hr
    · rw [List.mem_singleton.mp hr]
      exact hport
    · cases hr

/-- No match starts in the parts of the file that stay. -/
theorem steady_parts : ∀ p ∈ contextPatterns, ∀ t ∈ ["<Context>\r\n".toList, "</Context>\r\n".toList,
    sourceStart] ++ sources.flatMap (fun (pool, db) => sourceMiddle pool ++ sourceEnd db),
      Regex.steady (p.map Regex.atomOf) t = true := by
  decide

/-- No match goes on into what follows a password or an endpoint. -/
theorem blocks_parts : ∀ p ∈ contextPatterns, ∀ s ∈ sources,
    Regex.blocks (p.map Regex.atomOf).tail sourceType = true ∧
      Regex.blocks (p.map Regex.atomOf).tail ("/".toList ++ s.2) = true := by
  decide

section Rules

variable {rs : List Rule} (hrs : ∀ r ∈ rs, ∃ p ∈ contextPatterns, r.atoms = p.map Regex.atomOf)
include hrs

theorem subAll_append_context {t : Text} (ht : t ∈ ["<Context>\r\n".toList, "</Context>\r\n".toList,
    sourceStart]) (u : Text) : subAll rs (t ++ u) = t ++ subAll rs u := by
  refine subAll_append (fun r hr => ?_) u
  obtain ⟨p, hp, hatoms⟩ := hrs r hr
  rw [hatoms]
  exact steady_parts p hp t (List.mem_append_left _ ht)

theorem borders_connection {s : Text × Text} (hs : s ∈ sources) : ∀ r ∈ rs,
    (Regex.blocks r.atoms.tail (sourceMiddle s.1).flatten = true ∧
        Regex.steady r.atoms (sourceMiddle s.1).flatten = true) ∧
      Regex.blocks r.atoms.tail (sourceEnd s.2).flatten = true ∧
        Regex.steady r.atoms (sourceEnd s.2).flatten = true := by
  intro r hr
  obtain ⟨p, hp, hatoms⟩ := hrs r hr
  rw [hatoms]
  obtain ⟨hmiddle, hend⟩ := blocks_parts p hp s hs
  have hsteady : ∀ t ∈ sourceMiddle s.1 ++ sourceEnd s.2, Regex.steady (p.map Regex.atomOf) t = true :=
    fun t ht => steady_parts p hp t (List.mem_append_right _ (List.mem_flatMap.mpr ⟨s, hs, ht⟩))
  refine ⟨⟨?_, Regex.steady_flatten fun t ht => ?_⟩, ?_, Regex.steady_flatten fun t ht => ?_⟩
  · rw [sourceMiddle, List.flatten_cons]
    exact Regex.blocks_append hmiddle _
  · exact hsteady t (List.mem_append_left _ ht)
  · rw [sourceEnd, List.flatten_cons]
    exact Regex.blocks_append hend _
  · exact hsteady t (List.mem_append_right _ ht)

/-- The edits of a connection are those of its password and its endpoint. -/
theorem subAll_connection {s : Text × Text} (hs : s ∈ sources) (password endpoint t : Text) :
    subAll rs (connection password endpoint s ++ t) =
      connection (subAll rs password) (subAll rs endpoint) s ++ subAll rs t := by
  have hborders := borders_connection hrs hs
  unfold connection
  simp only [List.append_assoc]
  rw [subAll_append_context hrs (.tail _ (.tail _ (.head _))),
    subAll_append_of_blocks (fun r hr => (hborders r hr).1),
    subAll_append_of_blocks (fun r hr => (hborders r hr).2)]

theorem subAll_contextText (password endpoint : Text) : subAll rs (contextText password endpoint) =
    contextText (subAll rs password) (subAll rs endpoint) := by
  have hend : subAll rs "</Context>\r\n".toList = "</Context>\r\n".toList := by
    have hnil : ∀ rs : List Rule, subAll rs [] = [] := by
      intro rs
      induction rs with
      | nil => rfl
      | cons r rs ih => exact ih
    have happend := subAll_append_context hrs (.tail _ (.head _)) []
    rwa [List.append_nil, hnil, List.append_nil] at happend
  -- the connections keep their borders one after the other
  have hconnections : ∀ ss ⊆ sources, ∀ t, subAll rs (ss.flatMap (connection password endpoint) ++ t) =
      ss.flatMap (connection (subAll rs password) (subAll rs endpoint)) ++ subAll rs t := by
    intro ss hss t
    induction ss with
    | nil => rfl
    | cons s ss ih =>
      rw [List.flatMap_cons, List.flatMap_cons, List.append_assoc, List.append_assoc,
        subAll_connection hrs (hss List.mem_cons_self),
        ih fun s' hs' => hss (List.mem_cons_of_mem s hs')]
  unfold contextText
  rw [subAll_append_context hrs (.head _), hconnections _ (List.Subset.refl _), hend]

end Rules

theorem atoms_contextRules (v : Vars) :
    ∀ r ∈ contextRules v, ∃ p ∈ contextPatterns, r.atoms = p.map Regex.atomOf :=
  forall_mem_contextRules ⟨_, by simp [contextPatterns], rfl⟩ ⟨_, by simp [contextPatterns], rfl⟩
    ⟨_, by simp [contextPatterns], rfl⟩

/-- The edits of the default endpoint put in the port. -/
theorem subAll_endpoint (v : Vars) : subAll (contextRules v) "localhost:3306" =
    "localhost".toList ++ ":".toList ++ v.mysqlPort := by
  have hpwd : (ruleOf "mysql.password" v.mysqlAvettiPwd).apply "localhost:3306" =
      "localhost:3306".toList := by
    have hnone : (Regex.plain ("mysql.password".toList.map Regex.atomOf)).finds "localhost:3306" =
        false := by decide
    exact sub_of_not_finds hnone _
  have hhost : (ruleOf "localhost" "localhost").apply "localhost:3306" = "localhost:3306".toList := by
    decide
  have hport : (ruleOf "3306" v.mysqlPort).apply "localhost:3306" =
      "localhost:".toList ++ v.mysqlPort := by
    have hsteady : Regex.steady ("3306".toList.map Regex.atomOf) "localhost:" = true := by decide
    have hmatch := sub_append_of_match (m := "3306".toList) (by simp)
      (Regex.forall₂_atomOf (by decide)) (fun _ => v.mysqlPort) []
    have hsub := sub_append_of_steady hsteady (fun _ => v.mysqlPort) "3306"
    rw [List.append_nil] at hmatch
    rw [hmatch] at hsub
    have hnil : sub (Regex.plain ("3306".toList.map Regex.atomOf)) (fun _ => v.mysqlPort) [] = [] := rfl
    rw [hnil, List.append_nil] at hsub
    exact hsub
  have hjoin : "localhost".toList ++ ":".toList = "localhost:".toList := rfl
  rw [contextRules, List.cons_append, List.singleton_append, subAll_cons, hpwd, subAll_cons, hhost,
    hjoin]
  -- the default port is not edited, and is the one that is wanted
  split_ifs with hdefault
  · exact hport
  · rw [not_not.mp hdefault]
    rfl

/-- **The edits of `preview.xml` and `ROOT.xml` put in the endpoint.** -/
theorem ConnectsTo.streams {t : Text} (h : ConnectsTo "localhost" "3306" t)
    (hmysql : v.nomysql = true) (hhost : v.mysqlHost = "localhost".toList) (hport : PortWord v.mysqlPort)
    (hpwd : Inert v.mysqlAvettiPwd) :
    ConnectsTo "localhost" v.mysqlPort (Sed.streams other (contextEdits v) t) := by
  obtain ⟨password, hquote, rfl⟩ := h
  have hedits : List.Forall₂ (fun script r => ∀ t, stream other script t = Rule.apply r t)
      (contextEdits v) (contextRules v) := by
    have hpattern : ∀ p ∈ contextPatterns, p ≠ [] ∧ ∀ c ∈ p, c ∉ "*[\\^$/\n".toList := by decide
    have hrule : ∀ {p value : Text}, p ∈ contextPatterns → Verbatim value → ∀ t,
        stream other (substituteAll p value) t = (ruleOf p value).apply t := fun hp hvalue =>
      stream_substituteAll (hpattern _ hp).1 (hpattern _ hp).2 hvalue other
    rw [contextEdits, if_pos hmysql, hhost]
    refine .cons (hrule (by decide) hpwd.verbatim) (.cons (hrule (by decide) (by decide)) ?_)
    split_ifs
    · exact .cons (hrule (by decide) hport.verbatim) .nil
    · exact .nil
  have hdefault : "localhost".toList ++ ":".toList ++ "3306".toList = "localhost:3306".toList := rfl
  rw [streams_eq_subAll hedits, hdefault, subAll_contextText (atoms_contextRules v), subAll_endpoint]
  have hlocalhost : ∀ m, '"' ∉ (ruleOf "localhost" "localhost").image m := by
    intro m
    show '"' ∉ "localhost".toList
    decide
  refine ⟨_, not_mem_subAll ?_ hquote, rfl⟩
  exact forall_mem_contextRules (fun _ => hpwd.quote) hlocalhost fun _ => hport.quote_not_mem

end Contexts

/-! ## settings.xml -/

section Settings

variable {v : Vars} {other : Text → Text → Text} {t : Text}

theorem dbHostTag_eq : dbHostTag = [.char '<', .char 'd', .char 'b', .any, .char 'h', .char 'o',
    .char 's', .char 't', .char '>'] := by decide

theorem exists_of_dbHostTag {m : Text}
    (h : List.Forall₂ (fun a c => a.accepts c = true) dbHostTag m) :
    ∃ x, m = ['<', 'd', 'b', x, 'h', 'o', 's', 't', '>'] := by
  rw [dbHostTag_eq] at h
  simp only [List.forall₂_cons_left_iff, List.forall₂_nil_left_iff, Atom.accepts_char] at h
  obtain ⟨_, _, ⟨-, rfl⟩, ⟨_, _, ⟨-, rfl⟩, ⟨_, _, ⟨-, rfl⟩, ⟨x, _, -, h, rfl⟩, rfl⟩, rfl⟩, rfl⟩ := h
  obtain ⟨_, _, ⟨-, rfl⟩, ⟨_, _, ⟨-, rfl⟩, ⟨_, _, ⟨-, rfl⟩, ⟨_, _, ⟨-, rfl⟩, ⟨_, _, ⟨-, rfl⟩, rfl, rfl⟩,
    rfl⟩, rfl⟩, rfl⟩, rfl⟩ := h
  exact ⟨x, rfl⟩

/-- The start tag has a slash in the place of the dot only. -/
theorem eq_of_slash_in_tag {m₁ : Text} {x : Char}
    (h : m₁ ++ ['/'] <+: ['<', 'd', 'b', x, 'h', 'o', 's', 't', '>']) : m₁ = ['<', 'd', 'b'] := by
  rcases m₁ with _ | ⟨c₁, _ | ⟨c₂, _ | ⟨c₃, _ | ⟨c₄, m₁⟩⟩⟩⟩
  · simp at h
  · simp at h
  · simp at h
  · simp only [List.cons_append, List.nil_append, List.cons_prefix_cons] at h
    obtain ⟨rfl, rfl, rfl, -⟩ := h
    rfl
  · simp only [List.cons_append, List.cons_prefix_cons] at h
    obtain ⟨-, -, -, -, hrest⟩ := h
    have hmem : '/' ∈ ['h', 'o', 's', 't', '>'] := hrest.subset (by simp)
    exact absurd hmem (by decide)

/-- No start tag arises when the drive is taken out. -/
theorem LacksTag.withoutDrive (h : LacksTag t) :
    (Regex.plain dbHostTag).finds ((ruleOf "C:/" "/").apply t) = false := by
  rw [Bool.eq_false_iff]
  intro hfinds
  obtain ⟨m, hin, hm⟩ := Regex.finds_plain_iff.mp hfinds
  have hsource : (pieces (Regex.plain (ruleOf "C:/" "/").atoms) 0 t).flatMap Piece.source = t :=
    flatMap_source_pieces _ 0 t
  obtain ⟨x, hx⟩ := exists_of_dbHostTag hm
  have hstart : ∀ c ∈ m.head?, c ∉ "/".toList := by
    rw [hx]
    rintro c ⟨⟩
    decide
  rcases infix_source_or hstart (by simp [hx]) hin with hold | ⟨m₁, y, hy, hfound, hprefix, hne, hw⟩
  · rw [hsource] at hold
    have hthere : (Regex.plain dbHostTag).finds t = true := Regex.finds_plain_iff.mpr ⟨m, hold, hm⟩
    rw [h.tag] at hthere
    cases hthere
  · have hover : m₁ ++ ['/'] <+: m := by
      rcases hw with hends | hover
      · obtain ⟨z, rfl⟩ := hprefix
        have hz : z <+: ['/'] := (List.prefix_append_right_inj m₁).mp hends
        rcases List.prefix_cons_iff.mp hz with rfl | ⟨z, rfl, hnil⟩
        · exact absurd (List.append_nil m₁).symm hne
        · rw [List.prefix_nil.mp hnil]
      · exact hover
    rw [hx] at hover
    obtain rfl := eq_of_slash_in_tag hover
    -- what was replaced is the drive
    have hdrive : y = "C:/".toList := by
      have hatoms : (ruleOf "C:/" "/").atoms = [.char 'C', .char ':', .char '/'] := by decide
      have hmatch := forall₂_of_found hfound
      rw [hatoms] at hmatch
      simp only [List.forall₂_cons_left_iff, List.forall₂_nil_left_iff, Atom.accepts_char] at hmatch
      obtain ⟨_, _, ⟨-, rfl⟩, ⟨_, _, ⟨-, rfl⟩, ⟨_, _, ⟨-, rfl⟩, rfl, rfl⟩, rfl⟩, rfl⟩ := hmatch
      rfl
    rw [hsource, hdrive] at hy
    exact h.drive hy

/-- The edits of `settings.xml` before its line ends are converted, as substitutions. -/
def settingsRules (v : Vars) : List Rule :=
  [ruleOf "C:/" "/", ruleOf "mysql.password" v.mysqlAvettiPwd,
    ruleOf "c8prod1.yourdomain.com" v.appHostName]

theorem LacksTag.finds_subAll (h : LacksTag t) (hpwd : Inert v.mysqlAvettiPwd)
    (hname : Inert v.appHostName) :
    (Regex.plain dbHostTag).finds (subAll (settingsRules v) t) = false := by
  have hrule : ∀ {pattern value t : Text}, Inert value → (Regex.plain dbHostTag).finds t = false →
      (Regex.plain dbHostTag).finds ((ruleOf pattern value).apply t) = false := by
    intro pattern value t hvalue ht
    rw [Bool.eq_false_iff] at ht ⊢
    exact fun hfinds => ht (finds_of_finds_sub (by simp [dbHostTag_eq]) hvalue.tag hfinds)
  exact hrule hname (hrule hpwd h.withoutDrive)

theorem streams_settingsEdits (hpwd : Inert v.mysqlAvettiPwd) (hname : Inert v.appHostName) (t : Text) :
    streams other (settingsEdits v) t = subAll (settingsRules v) t := by
  have hdrive : ∀ t, stream other (substituteAll "C:\\/" "\\/") t = (ruleOf "C:/" "/").apply t := by
    have hparse : Substitution.parse (substituteAll "C:\\/" "\\/") =
        some ⟨Regex.plain ("C:/".toList.map Regex.atomOf), "/".toList.map .lit⟩ := by decide
    have hconst : expand ("/".toList.map .lit) = fun _ => "/".toList :=
      funext fun m => expand_map_lit _ m
    intro t
    rw [stream, show Appending.parse (substituteAll "C:\\/" "\\/") = none from rfl]
    exact (edit_of_parse hparse t).trans (congrArg (fun f => sub _ f t) hconst)
  refine streams_eq_subAll (.cons hdrive (.cons ?_ (.cons ?_ .nil))) t
  · exact stream_substituteAll (by simp) (by decide) hpwd.verbatim other
  · exact stream_substituteAll (by simp) (by decide) hname.verbatim other

/-! ## Line ends -/

theorem dos2unix_append {c : Char} (hc : c ≠ '\n') (a t : Text) :
    dos2unix (a ++ c :: t) = dos2unix a ++ dos2unix (c :: t) := by
  fun_induction dos2unix a with
  | case1 a ih =>
    rw [List.cons_append, List.cons_append, dos2unix, ih]
    rfl
  | case2 d a hd ih =>
    rw [List.cons_append, dos2unix, ih]
    · rfl
    · rintro u rfl hu
      rcases a with _ | ⟨d', a⟩
      · exact hc (List.cons.inj hu).1
      · obtain ⟨rfl, -⟩ := List.cons.inj hu
        exact hd a rfl rfl
  | case3 => rfl

theorem dos2unix_append_of_not_mem {e : Text} (he : '\r' ∉ e) (t : Text) :
    dos2unix (e ++ t) = e ++ dos2unix t := by
  induction e with
  | nil => rfl
  | cons c e ih =>
    rw [List.mem_cons, not_or] at he
    rw [List.cons_append, List.cons_append, ← ih he.2, dos2unix]
    rintro u rfl
    exact absurd rfl he.1

theorem prefix_of_prefix_dos2unix {m : Text} (hm : '\n' ∉ m) (h : m <+: dos2unix t) : m <+: t := by
  rcases m with _ | ⟨d, m⟩
  · exact List.nil_prefix
  · fun_induction dos2unix t generalizing d m with
    | case1 t ih =>
      obtain ⟨rfl, -⟩ := List.cons_prefix_cons.mp h
      exact absurd List.mem_cons_self hm
    | case2 c t _ ih =>
      obtain ⟨rfl, hrest⟩ := List.cons_prefix_cons.mp h
      rcases m with _ | ⟨e, m⟩
      · exact List.cons_prefix_cons.mpr ⟨rfl, List.nil_prefix⟩
      · exact List.cons_prefix_cons.mpr ⟨rfl, ih e m (fun hmem => hm (List.mem_cons_of_mem d hmem)) hrest⟩
    | case3 => exact h

theorem infix_of_infix_dos2unix {m : Text} (hm : '\n' ∉ m) (h : m <:+: dos2unix t) : m <:+: t := by
  fun_induction dos2unix t with
  | case1 t ih =>
    have hlines : m <:+: '\r' :: '\n' :: t := by
      rcases List.infix_cons_iff.mp h with hprefix | hrest
      · rcases List.prefix_cons_iff.mp hprefix with rfl | ⟨m, rfl, -⟩
        · exact List.nil_infix
        · exact absurd List.mem_cons_self hm
      · exact (ih hrest).trans (List.suffix_append ['\r', '\n'] t).isInfix
    exact hlines
  | case2 c t hc ih =>
    rcases List.infix_cons_iff.mp h with hprefix | hrest
    · have hstart : m <+: dos2unix (c :: t) := by rwa [dos2unix.eq_2 c t hc]
      exact (prefix_of_prefix_dos2unix hm hstart).isInfix
    · exact (ih hrest).trans (List.suffix_cons c t).isInfix
  | case3 => exact h

/-- No start tag arises from the conversion of the line ends. -/
theorem finds_dos2unix (h : (Regex.plain dbHostTag).finds t = false) :
    (Regex.plain dbHostTag).finds (dos2unix t) = false := by
  rw [Bool.eq_false_iff] at h ⊢
  intro hfinds
  obtain ⟨m, hin, hm⟩ := Regex.finds_plain_iff.mp hfinds
  have hold := infix_of_infix_dos2unix (Regex.newline_not_mem_of_forall₂ hm) hin
  exact h (Regex.finds_plain_iff.mpr ⟨m, hold, hm⟩)

/-! ## The host -/

/-- What the edits and the conversion make of the original: the element stays, and no other tag
arises. -/
theorem OriginalSettings.converted (h : OriginalSettings t) (hpwd : Inert v.mysqlAvettiPwd)
    (hname : Inert v.appHostName) (other : Text → Text → Text) : ∃ a b,
    dos2unix (streams other (settingsEdits v) t) = a ++ (dbHost "localhost" ++ b) ∧
      (Regex.plain dbHostTag).finds a = false ∧ (Regex.plain dbHostTag).finds b = false := by
  obtain ⟨a, b, rfl, ha, hb⟩ := h
  have hborders : ∀ r ∈ settingsRules v, Regex.blocks r.atoms.tail (dbHost "localhost") = true ∧
      Regex.steady r.atoms (dbHost "localhost") = true := by
    have hpatterns : ∀ p ∈ (["C:/", "mysql.password", "c8prod1.yourdomain.com"] : List Text),
        Regex.blocks (p.map Regex.atomOf).tail (dbHost "localhost") = true ∧
          Regex.steady (p.map Regex.atomOf) (dbHost "localhost") = true := by decide
    intro r hr
    simp only [settingsRules, List.mem_cons, List.not_mem_nil, or_false] at hr
    rcases hr with rfl | rfl | rfl
    · exact hpatterns "C:/" (by simp)
    · exact hpatterns "mysql.password" (by simp)
    · exact hpatterns "c8prod1.yourdomain.com" (by simp)
  -- a conversion of line ends cuts the text before a tag
  have hstart : dbHost "localhost" = '<' :: (dbHost "localhost").tail := by decide
  refine ⟨_, _, ?_, finds_dos2unix (ha.finds_subAll hpwd hname), finds_dos2unix (hb.finds_subAll hpwd hname)⟩
  rw [streams_settingsEdits hpwd hname, subAll_append_of_blocks hborders, hstart, List.cons_append,
    dos2unix_append (by decide), ← List.cons_append, ← hstart, dos2unix_append_of_not_mem (by decide)]

/-- The pattern of the edit for the host. -/
def dbHostPattern : List Atom := "<db.host>localhost".toList.map Regex.atomOf

theorem sub_dbHostPattern (h : (Regex.plain dbHostTag).finds t = false) (value : Text) :
    sub (Regex.plain dbHostPattern) (fun _ => value) t = t := by
  have hatoms : dbHostPattern = dbHostTag ++ "localhost".toList.map Regex.atomOf := by decide
  refine sub_of_not_finds (Bool.eq_false_iff.mpr fun hfinds => ?_) _
  rw [hatoms] at hfinds
  rw [Regex.finds_of_finds_append hfinds] at h
  cases h

/-- What the edit for the host makes of the element. -/
theorem sub_dbHost {a b : Text} (ha : (Regex.plain dbHostTag).finds a = false)
    (hb : (Regex.plain dbHostTag).finds b = false) (value : Text) :
    sub (Regex.plain dbHostPattern) (fun _ => value) (a ++ (dbHost "localhost" ++ b)) =
      a ++ (value ++ ("</db.host>".toList ++ b)) := by
  have hblocks : Regex.blocks dbHostPattern.tail (dbHost "localhost") = true := by decide
  have hsteady : Regex.steady dbHostPattern "</db.host>" = true := by decide
  have hmatch : List.Forall₂ (fun a c => a.accepts c = true) dbHostPattern "<db.host>localhost".toList :=
    Regex.forall₂_atomOf (by decide)
  have hsplit : dbHost "localhost" = "<db.host>localhost".toList ++ "</db.host>".toList := by decide
  rw [sub_append_of_blocks hblocks, sub_dbHostPattern ha, hsplit, List.append_assoc,
    sub_append_of_match (by simp) hmatch, sub_append_of_steady hsteady, sub_dbHostPattern hb]

theorem append_endTag (value b : Text) :
    ("<db.host>".toList ++ value) ++ ("</db.host>".toList ++ b) = dbHost value ++ b := by
  unfold dbHost
  simp only [List.append_assoc]

/-- The edit for the host puts it into the element. -/
theorem streams_dbHostEdits {a b : Text} (ha : (Regex.plain dbHostTag).finds a = false)
    (hb : (Regex.plain dbHostTag).finds b = false) (hmysql : v.nomysql = true)
    (hhost : v.mysqlHost = "localhost".toList) (hport : PortWord v.mysqlPort) :
    streams other (dbHostEdits v) (a ++ (dbHost "localhost" ++ b)) =
      a ++ (dbHost (hostAndPort "localhost" v.mysqlPort) ++ b) := by
  have hedits : dbHostEdits v = [substituteAll "<db.host>localhost"
      ("<db.host>".toList ++ hostAndPort "localhost" v.mysqlPort)] := by
    rw [dbHostEdits, if_pos hmysql, hostAndPort, hhost]
    split_ifs
    · rfl
    · simp only [List.append_assoc]
  have hstream : ∀ t, streams other (dbHostEdits v) t = (ruleOf "<db.host>localhost"
      ("<db.host>".toList ++ hostAndPort "localhost" v.mysqlPort)).apply t := by
    intro t
    rw [hedits, streams, List.foldl_cons, List.foldl_nil]
    exact stream_substituteAll (by simp) (by decide) (verbatim_hostAndPort hport) other t
  have happly : ∀ value t, (ruleOf "<db.host>localhost" value).apply t =
      sub (Regex.plain dbHostPattern) (fun _ => value) t := fun _ _ => rfl
  calc streams other (dbHostEdits v) (a ++ (dbHost "localhost" ++ b))
      = sub (Regex.plain dbHostPattern)
          (fun _ => "<db.host>".toList ++ hostAndPort "localhost" v.mysqlPort)
          (a ++ (dbHost "localhost" ++ b)) := (hstream _).trans (happly _ _)
    _ = a ++ (("<db.host>".toList ++ hostAndPort "localhost" v.mysqlPort) ++
          ("</db.host>".toList ++ b)) := sub_dbHost ha hb _
    _ = a ++ (dbHost (hostAndPort "localhost" v.mysqlPort) ++ b) :=
      congrArg (a ++ ·) (append_endTag _ b)

/-- **The edits of `settings.xml` put the host into its element.** -/
theorem OriginalSettings.namesHost (h : OriginalSettings t) (hmysql : v.nomysql = true)
    (hhost : v.mysqlHost = "localhost".toList) (hport : PortWord v.mysqlPort)
    (hpwd : Inert v.mysqlAvettiPwd) (hname : Inert v.appHostName) (other : Text → Text → Text) :
    NamesHost (hostAndPort "localhost" v.mysqlPort)
      (streams other (dbHostEdits v) (dos2unix (streams other (settingsEdits v) t))) := by
  obtain ⟨a, b, hconverted, ha, hb⟩ := h.converted hpwd hname other
  have hlacks : ∀ {t}, (Regex.plain dbHostTag).finds t = false → ¬ Text.Occurs "<db.host>" t := by
    intro t ht hoccurs
    rw [Bool.eq_false_iff] at ht
    exact ht (Regex.finds_of_occurs (by decide) hoccurs)
  rw [hconverted, streams_dbHostEdits ha hb hmysql hhost hport]
  exact ⟨a, b, rfl, hlacks ha, hlacks hb⟩

end Settings

end Avetti
