import Avetti.Text.Number

/-!
# jsvc: the command line

`jsvc` reads its own options up to the first word that is none, which is the class of the service;
the words after it are for the class. Options of the Java VM are passed on. An option with a value
takes the next word, unless that starts with `-`: then it has no value, which most options refuse.
Every command line that is accepted has a plain form, with each setting once, that is read to the
same settings.

## Main definitions

* `evalCpath`: the class path, with its patterns replaced by the files they match
* `ArgData`: the settings
* `optionTable`, `parse`: the options, in the order of the source, and the command line
* `WellFormed`: what holds of the settings that are read
* `render`: the plain form

## Main results

* `evalCpath_eq`: the parts of a class path, one by one
* `wellFormed_of_parse`: what is accepted is well formed
* `parse_render`: the plain form is read to the same settings
* `exists_options_of_parse`: what follows the class is passed on as it is, and no array overflows
-/

namespace Avetti.Jsvc

/-! ## The class path -/

/-- `JAVA_CLASSPATH`. -/
def javaClasspath : Text := "-Djava.class.path="

/-- `PATH_MAX`. -/
def pathMax : ℕ := 4096

/-- `eval_ppath`: the files that a pattern matches, where `glob` gives what `glob` finds, if it
finds anything. -/
def evalPpath (glob : Text → Option (List Text)) (strcp pattern : Text) : Text :=
  if pattern.length > pathMax + 1 - 5 then strcp ++ pattern
  else match glob (pattern ++ ".jar".toList) with
    | some paths => strcp ++ [':'].intercalate paths
    | none => strcp

/-- One part of the class path is added. -/
def addPart (glob : Text → Option (List Text)) (gcp : Option Text) (part : Text) : Text :=
  let start := match gcp with
    | some g => g ++ [':']
    | none => javaClasspath
  if part.getLast? = some '*' then evalPpath glob start part else start ++ part

/-- The loop of `eval_cpath`, over the parts between the colons: the last one is left out when it is
empty. -/
def evalParts (glob : Text → Option (List Text)) : Option Text → List Text → Option Text
  | gcp, [] => gcp
  -- after the last colon nothing is added for an empty rest
  | gcp, [last] => if last = [] then gcp else some (addPart glob gcp last)
  | gcp, part :: parts => evalParts glob (some (addPart glob gcp part)) parts

/-- `eval_cpath`. -/
def evalCpath (glob : Text → Option (List Text)) (cp : Text) : Text :=
  (evalParts glob none (cp.splitOn ':')).getD (javaClasspath ++ cp)

/-! ## The options -/

/-- The settings, and whether `-debug` is given. `vershow` is not set before its option is read. -/
@[ext] structure ArgData where
  pidf : Text
  user : Option Text
  name : Option Text
  home : Option Text
  cwd : Text
  opts : List Text
  clas : Option Text
  args : List Text
  dtch : Bool
  vers : Bool
  vershow : Option Bool
  help : Bool
  chck : Bool
  stop : Bool
  wait : ℤ
  install : Bool
  remove : Bool
  service : Bool
  outfile : Text
  errfile : Text
  procname : Text
  redirectstdin : Bool
  umask : ℤ
  debug : Bool
  deriving DecidableEq

/-- The settings before the first word is read. -/
def ArgData.initial : ArgData where
  pidf := "/var/run/jsvc.pid"
  user := none
  name := none
  home := none
  cwd := "/"
  opts := []
  clas := none
  args := []
  dtch := true
  vers := false
  vershow := none
  help := false
  chck := false
  stop := false
  wait := 0
  install := false
  remove := false
  service := false
  outfile := "/dev/null"
  errfile := "/dev/null"
  procname := "jsvc.exec"
  redirectstdin := true
  umask := 0o077
  debug := false

/-- What an option does: it sets something, takes a value, asks for help or is refused. -/
inductive Action where
  | set (f : ArgData → ArgData)
  | value (f : Option Text → ArgData → Option ArgData)
  | help
  | invalid

/-- An option that has to have a value. -/
def required (f : Text → ArgData → ArgData) : Action := .value fun temp a => temp.map fun v => f v a

/-- A word that is passed on to the Java VM. -/
def passedOn (w : Text) : Action := .set fun a => { a with opts := a.opts ++ [w] }

/-- `-wait`: without a value, the time that was set before counts. -/
def setWait (temp : Option Text) (a : ArgData) : Option ArgData :=
  let wait := temp.elim a.wait Number.atoi
  if wait < 10 then none else some { a with wait := wait }

/-- `-umask`, in octal. -/
def setUmask (v : Text) (a : ArgData) : Option ArgData :=
  let umask := Number.toInt (Number.strtol 8 v)
  if umask < 2 then none else some { a with umask := umask }

/-- How an option is recognised. -/
inductive Test where
  | is (name : Text)
  | startsWith (pre : Text)
  deriving DecidableEq

def Test.holds : Test → Text → Bool
  | .is name, w => w = name
  | .startsWith pre, w => pre.isPrefixOf w

/-- **The options**, in the order in which they are tried, with what a word of that option does. -/
def optionTable (cpath : Text → Text) : List (Test × (Text → Action)) :=
  let classpath := fun _ => required fun v a => { a with opts := a.opts ++ [cpath v] }
  let home := fun _ => required fun v a => { a with home := some v }
  let showHelp := fun _ => Action.help
  [(.is "-cp", classpath), (.is "-classpath", classpath),
    (.is "-jvm", fun _ => required fun v a => { a with name := some v }),
    (.is "-client", fun _ => .set fun a => { a with name := some "client" }),
    (.is "-server", fun _ => .set fun a => { a with name := some "server" }),
    (.is "-home", home), (.is "-java-home", home),
    (.is "-user", fun _ => required fun v a => { a with user := some v }),
    (.is "-cwd", fun _ => required fun v a => { a with cwd := v }),
    (.is "-version", fun _ => .set fun a => { a with vers := true, dtch := false }),
    (.is "-showversion", fun _ => .set fun a => { a with vershow := some true }),
    (.is "-?", showHelp), (.is "-help", showHelp), (.is "--help", showHelp),
    (.is "-X", fun _ => .set id),
    (.is "-debug", fun _ => .set fun a => { a with debug := true }),
    (.is "-wait", fun _ => .value setWait),
    (.is "-umask", fun _ => .value fun temp a => temp.bind fun v => setUmask v a),
    (.is "-stop", fun _ => .set fun a => { a with stop := true }),
    (.is "-check", fun _ => .set fun a => { a with chck := true, dtch := false }),
    (.is "-nodetach", fun _ => .set fun a => { a with dtch := false }),
    (.is "-keepstdin", fun _ => .set fun a => { a with redirectstdin := false }),
    (.is "-service", fun _ => .set fun a => { a with service := true }),
    (.is "-install", fun _ => .set fun a => { a with install := true }),
    (.is "-remove", fun _ => .set fun a => { a with remove := true }),
    (.is "-pidfile", fun _ => required fun v a => { a with pidf := v }),
    (.is "-outfile", fun _ => required fun v a => { a with outfile := v }),
    (.is "-errfile", fun _ => required fun v a => { a with errfile := v }),
    (.startsWith "-verbose", passedOn),
    (.is "-D", fun _ => .invalid),
    -- a property without a name
    (.startsWith "-D", fun w => if w[2]? = some '=' then .invalid else passedOn w),
    (.startsWith "-X", passedOn), (.startsWith "-ea", passedOn),
    (.startsWith "-enableassertions", passedOn), (.startsWith "-da", passedOn),
    (.startsWith "-disableassertions", passedOn), (.is "-esa", passedOn),
    (.is "-enablesystemassertions", passedOn), (.is "-dsa", passedOn),
    (.is "-disablesystemassertions", passedOn),
    (.is "-procname", fun _ => required fun v a => { a with procname := v }),
    (.startsWith "-agentlib:", passedOn), (.startsWith "-agentpath:", passedOn),
    (.startsWith "-javaagent:", passedOn)]

/-- The word starts with `-`. -/
def isDashed (w : Text) : Bool := w.head? = some '-'

/-- What a word does, unless it is the class. -/
def action (cpath : Text → Text) (w : Text) : Option Action :=
  match (optionTable cpath).find? fun row => row.1.holds w with
  | some row => some (row.2 w)
  | none => if isDashed w then some .invalid else none

/-- `optional`: the value of an option, from the words after it. -/
def optional : List Text → Option Text
  | [] => none
  | w :: _ => if isDashed w then none else some w

/-- The words that are left after the value of an option, which is skipped also when it is none. -/
def parseWords (cpath : Text → Text) : List Text → ArgData → Option ArgData
  | [], a => if a.clas = none ∧ a.remove = false then none else some a
  | w :: ws, a =>
    match action cpath w with
    | none => some { a with clas := some w, args := ws }
    | some (.set f) => parseWords cpath ws (f a)
    | some .help => some { a with help := true, dtch := false }
    | some .invalid => none
    | some (.value f) =>
      -- `optional` has moved on to the next word, also when that is not taken as a value
      match f (optional ws) a with
      | none => none
      | some a' =>
        match ws with
        | [] => parseWords cpath [] a'
        | _ :: ws' => parseWords cpath ws' a'

/-- **`parse`**: the words after the name of the program. -/
def parse (glob : Text → Option (List Text)) (ws : List Text) : Option ArgData :=
  parseWords (evalCpath glob) ws .initial

/-! ## What the class path becomes -/

section ClassPath

variable (glob : Text → Option (List Text))

/-- What a part of the class path stands for. -/
def expandPart (part : Text) : Text :=
  if part.getLast? = some '*' then
    if part.length > pathMax + 1 - 5 then part
    else (glob (part ++ ".jar".toList)).elim [] [':'].intercalate
  else part

/-- The parts of a class path: an empty one at the end does not count. -/
def classParts (cp : Text) : List Text :=
  if (cp.splitOn ':').getLast? = some [] then (cp.splitOn ':').dropLast else cp.splitOn ':'

theorem addPart_none (part : Text) :
    addPart glob none part = javaClasspath ++ expandPart glob part := by
  unfold addPart expandPart evalPpath
  split_ifs
  · rfl
  · cases glob (part ++ ".jar".toList) <;> simp
  · rfl

theorem addPart_some (g part : Text) :
    addPart glob (some g) part = g ++ ':' :: expandPart glob part := by
  unfold addPart expandPart evalPpath
  split_ifs
  · simp
  · cases glob (part ++ ".jar".toList) <;> simp
  · simp

theorem evalParts_cons_cons (gcp : Option Text) (part part' : Text) (parts : List Text) :
    evalParts glob gcp (part :: part' :: parts) =
      evalParts glob (some (addPart glob gcp part)) (part' :: parts) :=
  rfl

/-- The parts after the first one, each with a colon before it. -/
theorem evalParts_some (g : Text) (parts : List Text) :
    evalParts glob (some g) parts = some (g ++
      ((if parts.getLast? = some [] then parts.dropLast else parts).flatMap
        fun part => ':' :: expandPart glob part)) := by
  -- the class path so far grows by one part in each round
  induction parts generalizing g with
  | nil => simp [evalParts]
  | cons part parts ih =>
    cases parts with
    | nil =>
      by_cases hpart : part = []
      · simp [evalParts, hpart]
      · simp [evalParts, hpart, addPart_some]
    | cons part' parts =>
      rw [evalParts_cons_cons, ih, addPart_some, List.getLast?_cons_cons]
      split_ifs with hlast <;> simp

/-- **The class path, part by part.** -/
theorem evalCpath_eq (cp : Text) :
    evalCpath glob cp =
      javaClasspath ++ [':'].intercalate ((classParts cp).map (expandPart glob)) := by
  have hjoin : ∀ (part : Text) (parts : List Text),
      [':'].intercalate ((part :: parts).map (expandPart glob)) =
        expandPart glob part ++ parts.flatMap fun part => ':' :: expandPart glob part := by
    intro part parts
    induction parts generalizing part with
    | nil => simp
    | cons part' parts ih =>
      rw [List.map_cons, List.map_cons, List.intercalate_cons_cons, ← List.map_cons, ih]
      simp
  unfold evalCpath classParts
  rcases hparts : cp.splitOn ':' with _ | ⟨part, _ | ⟨part', parts⟩⟩
  · exact absurd hparts (List.splitOn_ne_nil ':' cp)
  · -- a single part
    have hcp : cp = part := by
      have hjoined : [':'].intercalate (cp.splitOn ':') = cp := List.intercalate_splitOn ':'
      rw [hparts] at hjoined
      simpa using hjoined.symm
    by_cases hpart : part = []
    · simp [evalParts, hpart, hcp]
    · simp [evalParts, hpart, addPart_none]
  · -- the first part stands after the name of the property, the others after colons
    rw [evalParts_cons_cons, evalParts_some, Option.getD_some, addPart_none,
      List.getLast?_cons_cons]
    split_ifs with hlast
    · rw [List.dropLast_cons_cons, hjoin, List.append_assoc]
    · rw [hjoin, List.append_assoc]

/-- A class path without patterns, and without a colon at its end, is passed on as it is. -/
theorem evalCpath_of_plain {cp : Text} (hstars : ∀ part ∈ cp.splitOn ':', part.getLast? ≠ some '*')
    (hend : (cp.splitOn ':').getLast? ≠ some []) : evalCpath glob cp = javaClasspath ++ cp := by
  have hparts : (cp.splitOn ':').map (expandPart glob) = cp.splitOn ':' := by
    conv_rhs => rw [← List.map_id (cp.splitOn ':')]
    exact List.map_congr_left fun part hpart => if_neg (hstars part hpart)
  rw [evalCpath_eq, classParts, if_neg hend, hparts, List.intercalate_splitOn]

end ClassPath

/-! ## What a word does -/

section Words

variable {cpath : Text → Text} {w : Text} {ws : List Text} {a : ArgData}

theorem parseWords_nil : parseWords cpath [] a =
    if a.clas = none ∧ a.remove = false then none else some a := by
  rw [parseWords]

theorem parseWords_clas (hw : action cpath w = none) :
    parseWords cpath (w :: ws) a = some { a with clas := some w, args := ws } := by
  rw [parseWords, hw]

theorem parseWords_set {f : ArgData → ArgData} (hw : action cpath w = some (.set f)) :
    parseWords cpath (w :: ws) a = parseWords cpath ws (f a) := by
  rw [parseWords, hw]

theorem parseWords_help (hw : action cpath w = some .help) :
    parseWords cpath (w :: ws) a = some { a with help := true, dtch := false } := by
  rw [parseWords, hw]

theorem parseWords_invalid (hw : action cpath w = some .invalid) :
    parseWords cpath (w :: ws) a = none := by
  rw [parseWords, hw]

/-- The word after an option with a value is skipped in any case. -/
theorem parseWords_value {f : Option Text → ArgData → Option ArgData}
    (hw : action cpath w = some (.value f)) : parseWords cpath (w :: ws) a =
      (f (optional ws) a).bind (parseWords cpath ws.tail) := by
  rw [parseWords, hw]
  dsimp only
  cases f (optional ws) a with
  | none => rfl
  | some a' => cases ws <;> rfl

end Words

/-! ## What is accepted -/

section Accepted

variable {cpath : Text → Text}

/-- The word is an option that is passed on to the Java VM, whatever the class paths are. -/
def PassedOn (w : Text) : Prop := ∀ cpath, action cpath w = some (passedOn w)

/-- What holds of the settings while the options are read. -/
structure Settings (a : ArgData) : Prop where
  pidf : isDashed a.pidf = false
  cwd : isDashed a.cwd = false
  outfile : isDashed a.outfile = false
  errfile : isDashed a.errfile = false
  procname : isDashed a.procname = false
  user : ∀ v ∈ a.user, isDashed v = false
  name : ∀ v ∈ a.name, isDashed v = false
  home : ∀ v ∈ a.home, isDashed v = false
  opts : ∀ w ∈ a.opts, PassedOn w
  wait : a.wait = 0 ∨ 10 ≤ a.wait ∧ a.wait < 2 ^ 31
  umask : 2 ≤ a.umask ∧ a.umask < 2 ^ 31
  vershow : a.vershow ≠ some false
  attached : a.vers = true ∨ a.chck = true → a.dtch = false
  help : a.help = false

/-- What holds of the settings that are read, unless help is asked for. -/
structure WellFormed (a : ArgData) : Prop extends Settings a where
  clas : ∀ c ∈ a.clas, isDashed c = false
  remove : a.clas = none → a.remove = true ∧ a.args = []

/-- The settings after `n` words: the class is not read yet, and there is room for the options. -/
structure Reading (n : ℕ) (a : ArgData) : Prop extends Settings a where
  clas : a.clas = none
  args : a.args = []
  room : a.opts.length ≤ n

theorem reading_initial : Reading 0 .initial where
  pidf := rfl
  cwd := rfl
  outfile := rfl
  errfile := rfl
  procname := rfl
  user := by rintro _ ⟨⟩
  name := by rintro _ ⟨⟩
  home := by rintro _ ⟨⟩
  opts := by rintro _ ⟨⟩
  wait := .inl rfl
  umask := by decide
  vershow := by decide
  attached := by decide
  help := rfl
  clas := rfl
  args := rfl
  room := le_rfl

theorem Reading.mono {m n : ℕ} {a : ArgData} (h : Reading m a) (hmn : m ≤ n) : Reading n a :=
  { h with room := h.room.trans hmn }

/-- The words of all options start with `-`. -/
theorem isDashed_of_holds {row : Test × (Text → Action)} {w : Text} (hrow : row ∈ optionTable cpath)
    (hw : row.1.holds w = true) : isDashed w = true := by
  -- the tests of the table do not depend on the class path
  have htests : ∀ test ∈ (optionTable id).map Prod.fst,
      isDashed (match test with | .is name => name | .startsWith pre => pre) = true := by decide
  have hmem : row.1 ∈ (optionTable cpath).map Prod.fst := List.mem_map_of_mem hrow
  have htest := htests row.1 hmem
  cases hkind : row.1 with
  | «is» name =>
    rw [hkind] at hw htest
    rwa [of_decide_eq_true hw]
  | startsWith pre =>
    rw [hkind] at hw htest
    obtain ⟨rest, rfl⟩ := List.isPrefixOf_iff_prefix.mp hw
    cases pre with
    | nil => cases htest
    | cons c pre => exact htest

/-- The class is a word that does not start with `-`. -/
theorem action_eq_none_iff {w : Text} : action cpath w = none ↔ isDashed w = false := by
  unfold action
  cases hfind : (optionTable cpath).find? fun row => row.1.holds w with
  | none => simp
  | some row =>
    have hholds : row.1.holds w = true :=
      List.find?_some (p := fun row : Test × (Text → Action) => row.1.holds w) hfind
    simp [isDashed_of_holds (List.mem_of_find?_eq_some hfind) hholds]

/-- What is passed on does not depend on the class paths. -/
theorem passedOn_of_action {w : Text} (hw : action cpath w = some (passedOn w)) : PassedOn w := by
  intro cpath'
  obtain ⟨rows, hrows⟩ : ∃ rows, ∀ cpath, optionTable cpath =
      (.is "-cp", fun _ => required fun v a => { a with opts := a.opts ++ [cpath v] }) ::
      (.is "-classpath", fun _ => required fun v a => { a with opts := a.opts ++ [cpath v] }) ::
      rows := ⟨_, fun _ => rfl⟩
  -- the options of the class path are not passed on
  have hcp : w ≠ "-cp".toList := by
    rintro rfl
    injection hw with hw
    cases hw
  have hclasspath : w ≠ "-classpath".toList := by
    rintro rfl
    injection hw with hw
    cases hw
  have hrest : ∀ cpath, (optionTable cpath).find? (fun row => row.1.holds w) =
      rows.find? fun row => row.1.holds w := by
    intro cpath
    rw [hrows, List.find?_cons_of_neg, List.find?_cons_of_neg]
    · exact fun h => hclasspath (of_decide_eq_true h)
    · exact fun h => hcp (of_decide_eq_true h)
  rwa [action, hrest, ← hrest cpath, ← action]

/-- What an option does keeps what holds of the settings. -/
def Action.Keeps : Action → Prop
  | .set f => ∀ n a, Reading n a → Reading (n + 1) (f a)
  | .value f => ∀ n temp a a', (∀ v ∈ temp, isDashed v = false) → f temp a = some a' →
      Reading n a → Reading (n + 1) a'
  | .help => True
  | .invalid => True

theorem keeps_set {f : ArgData → ArgData} (hf : ∀ n a, Reading n a → Reading n (f a)) :
    (Action.set f).Keeps :=
  fun n a ha => (hf n a ha).mono n.le_succ

theorem keeps_required {f : Text → ArgData → ArgData}
    (hf : ∀ n v a, isDashed v = false → Reading n a → Reading (n + 1) (f v a)) :
    (required f).Keeps := by
  rintro n temp a a' hdashed happ ha
  obtain ⟨v, rfl, rfl⟩ := Option.map_eq_some_iff.mp happ
  exact hf n v a (hdashed v rfl) ha

/-- One more option for the Java VM. -/
theorem Reading.pass {n : ℕ} {a : ArgData} {w : Text} (ha : Reading n a) (hw : PassedOn w) :
    Reading (n + 1) { a with opts := a.opts ++ [w] } :=
  { ha with
    opts := by
      intro v hv
      rcases List.mem_append.mp hv with hv | hv
      · exact ha.opts v hv
      · rwa [List.mem_singleton.mp hv]
    room := by
      have hroom := ha.room
      simpa using hroom }

theorem keeps_passedOn {w : Text} (hw : action cpath w = some (passedOn w)) :
    (passedOn w).Keeps :=
  fun _ _ ha => ha.pass (passedOn_of_action hw)

theorem keeps_setWait : (Action.value setWait).Keeps := by
  intro n temp a a' _ happ ha
  dsimp only [setWait] at happ
  split_ifs at happ with hwait
  obtain rfl := Option.some.inj happ
  refine { ha.mono n.le_succ with wait := .inr ⟨Int.not_lt.mp hwait, ?_⟩ }
  cases temp with
  | none =>
    -- the time that was set before
    have hbefore := ha.wait
    show a.wait < 2 ^ 31
    omega
  | some v => exact Number.toInt_lt _

theorem keeps_setUmask :
    (Action.value fun temp a => temp.bind fun v => setUmask v a).Keeps := by
  intro n temp a a' _ happ ha
  obtain ⟨v, -, hset⟩ := Option.bind_eq_some_iff.mp happ
  dsimp only [setUmask] at hset
  split_ifs at hset with humask
  obtain rfl := Option.some.inj hset
  exact { ha.mono n.le_succ with umask := ⟨Int.not_lt.mp humask, Number.toInt_lt _⟩ }

theorem Reading.succ {n : ℕ} {a : ArgData} (ha : Reading n a) : Reading (n + 1) a :=
  ha.mono n.le_succ

/-- Every option keeps what holds of the settings. -/
theorem keeps_of_mem (hcpath : ∀ v, PassedOn (cpath v)) :
    ∀ row ∈ optionTable cpath, ∀ w, action cpath w = some (row.2 w) → (row.2 w).Keeps := by
  have hclasspath : (required fun v a => { a with opts := a.opts ++ [cpath v] }).Keeps :=
    keeps_required fun _ v _ _ ha => ha.pass (hcpath v)
  have hhome : (required fun v a => { a with home := some v }).Keeps :=
    keeps_required fun _ _ _ hv ha => { ha.succ with home := by rintro _ ⟨⟩; exact hv }
  have hpass : ∀ w, action cpath w = some (passedOn w) → (passedOn w).Keeps :=
    fun _ => keeps_passedOn
  simp only [optionTable, List.forall_mem_cons]
  refine ⟨fun _ _ => hclasspath, fun _ _ => hclasspath,
    fun _ _ => keeps_required fun _ _ _ hv ha =>
      { ha.succ with name := by rintro _ ⟨⟩; exact hv },
    fun _ _ => keeps_set fun _ _ ha => { ha with name := by rintro _ ⟨⟩; rfl },
    fun _ _ => keeps_set fun _ _ ha => { ha with name := by rintro _ ⟨⟩; rfl },
    fun _ _ => hhome, fun _ _ => hhome,
    fun _ _ => keeps_required fun _ _ _ hv ha =>
      { ha.succ with user := by rintro _ ⟨⟩; exact hv },
    fun _ _ => keeps_required fun _ _ _ hv ha => { ha.succ with cwd := hv },
    fun _ _ => keeps_set fun _ _ ha => { ha with attached := fun _ => rfl },
    fun _ _ => keeps_set fun _ _ ha => { ha with vershow := by rintro ⟨⟩ },
    fun _ _ => trivial, fun _ _ => trivial, fun _ _ => trivial,
    fun _ _ => keeps_set fun _ _ ha => ha, fun _ _ => keeps_set fun _ _ ha => { ha with },
    fun _ _ => keeps_setWait, fun _ _ => keeps_setUmask,
    fun _ _ => keeps_set fun _ _ ha => { ha with },
    fun _ _ => keeps_set fun _ _ ha => { ha with attached := fun _ => rfl },
    fun _ _ => keeps_set fun _ _ ha => { ha with attached := fun _ => rfl },
    fun _ _ => keeps_set fun _ _ ha => { ha with }, fun _ _ => keeps_set fun _ _ ha => { ha with },
    fun _ _ => keeps_set fun _ _ ha => { ha with }, fun _ _ => keeps_set fun _ _ ha => { ha with },
    fun _ _ => keeps_required fun _ _ _ hv ha => { ha.succ with pidf := hv },
    fun _ _ => keeps_required fun _ _ _ hv ha => { ha.succ with outfile := hv },
    fun _ _ => keeps_required fun _ _ _ hv ha => { ha.succ with errfile := hv },
    hpass, fun _ _ => trivial, ?_, hpass, hpass, hpass, hpass, hpass, hpass, hpass, hpass, hpass,
    fun _ _ => keeps_required fun _ _ _ hv ha => { ha.succ with procname := hv },
    hpass, hpass, hpass, List.forall_mem_nil _⟩
  -- a property
  intro w hw
  by_cases hname : w[2]? = some '='
  · rw [if_pos hname]
    exact trivial
  · rw [if_neg hname] at hw ⊢
    exact keeps_passedOn hw

theorem keeps_of_action (hcpath : ∀ v, PassedOn (cpath v)) {w : Text} {act : Action}
    (hact : action cpath w = some act) : act.Keeps := by
  have hact' := hact
  unfold action at hact'
  cases hfind : (optionTable cpath).find? fun row => row.1.holds w with
  | none =>
    rw [hfind] at hact'
    dsimp only at hact'
    split_ifs at hact'
    obtain rfl := Option.some.inj hact'
    exact trivial
  | some row =>
    rw [hfind] at hact'
    obtain rfl := Option.some.inj hact'
    exact keeps_of_mem hcpath row (List.mem_of_find?_eq_some hfind) w hact

theorem optional_not_dashed {ws : List Text} : ∀ v ∈ optional ws, isDashed v = false := by
  intro v hv
  cases ws with
  | nil => cases hv
  | cons w ws =>
    dsimp only [optional] at hv
    split_ifs at hv with hw
    · cases hv
    · obtain rfl := Option.some.inj hv
      exact eq_false_of_ne_true hw

/-- The run over the words: the settings that are read, the words before the class and the room that
the options need. -/
theorem accepted_of_parseWords (hcpath : ∀ v, PassedOn (cpath v)) {ws : List Text} {a b : ArgData}
    {n : ℕ} (ha : Reading n a) (hparse : parseWords cpath ws a = some b) :
    (b.help = true ∨ WellFormed b) ∧ ∃ pre, ws = pre ++ b.clas.toList ++ b.args ∧
      b.opts.length ≤ n + pre.length := by
  induction hlen : ws.length using Nat.strong_induction_on generalizing ws a n with
  | _ len ih =>
    subst hlen
    cases ws with
    | nil =>
      rw [parseWords_nil] at hparse
      split_ifs at hparse with hremove
      obtain rfl := Option.some.inj hparse
      have hremove : a.remove = true := by
        by_contra hno
        exact hremove ⟨ha.clas, eq_false_of_ne_true hno⟩
      refine ⟨.inr { ha.toSettings with
        clas := by simp [ha.clas]
        remove := fun _ => ⟨hremove, ha.args⟩ }, [], ?_, ha.room⟩
      simp [ha.clas, ha.args]
    | cons w ws =>
      cases hact : action cpath w with
      | none =>
        -- the class
        rw [parseWords_clas hact] at hparse
        obtain rfl := Option.some.inj hparse
        refine ⟨.inr { ha.toSettings with
          clas := by
            rintro _ ⟨⟩
            exact action_eq_none_iff.mp hact
          remove := by rintro ⟨⟩ }, [], rfl, ha.room⟩
      | some act =>
        have hkeeps := keeps_of_action hcpath hact
        cases act with
        | set f =>
          rw [parseWords_set hact] at hparse
          obtain ⟨hwf, pre, rfl, hroom⟩ := ih ws.length (by simp) (hkeeps n a ha) hparse rfl
          refine ⟨hwf, w :: pre, rfl, ?_⟩
          rw [List.length_cons]
          omega
        | value f =>
          rw [parseWords_value hact] at hparse
          obtain ⟨a', hset, hparse⟩ := Option.bind_eq_some_iff.mp hparse
          have hlt : ws.tail.length < (w :: ws).length := by
            rw [List.length_tail, List.length_cons]
            omega
          obtain ⟨hwf, pre, htail, hroom⟩ :=
            ih ws.tail.length hlt (hkeeps n _ a a' optional_not_dashed hset ha) hparse rfl
          cases ws with
          | nil =>
            refine ⟨hwf, w :: pre, congrArg (w :: ·) htail, ?_⟩
            rw [List.length_cons]
            omega
          | cons v ws =>
            refine ⟨hwf, w :: v :: pre, congrArg (w :: v :: ·) htail, ?_⟩
            rw [List.length_cons, List.length_cons]
            omega
        | help =>
          rw [parseWords_help hact] at hparse
          obtain rfl := Option.some.inj hparse
          refine ⟨.inl rfl, w :: ws, ?_, ?_⟩
          · simp [ha.clas, ha.args]
          · have hroom := ha.room
            rw [List.length_cons]
            dsimp only
            omega
        | invalid =>
          rw [parseWords_invalid hact] at hparse
          cases hparse

/-- A class path is passed on to the Java VM as a property. -/
theorem passedOn_evalCpath (glob : Text → Option (List Text)) (cp : Text) :
    PassedOn (evalCpath glob cp) := by
  intro cpath
  rw [evalCpath_eq]
  rfl

/-- **What is accepted is well formed**, unless help is asked for. -/
theorem wellFormed_of_parse {glob : Text → Option (List Text)} {ws : List Text} {a : ArgData}
    (hparse : parse glob ws = some a) (hhelp : a.help = false) : WellFormed a := by
  rcases (accepted_of_parseWords (passedOn_evalCpath glob) reading_initial hparse).1 with h | h
  · rw [hhelp] at h
    cases h
  · exact h

/-- **What follows the class is passed on as it is.** Before it there is a word for each option of
the Java VM, so that the options and the arguments fit into arrays with a place for each word. -/
theorem exists_options_of_parse {glob : Text → Option (List Text)} {ws : List Text} {a : ArgData}
    (hparse : parse glob ws = some a) : ∃ pre, ws = pre ++ a.clas.toList ++ a.args ∧
      a.opts.length ≤ pre.length ∧ a.opts.length + a.args.length ≤ ws.length := by
  obtain ⟨-, pre, hws, hroom⟩ :=
    accepted_of_parseWords (passedOn_evalCpath glob) reading_initial hparse
  rw [Nat.zero_add] at hroom
  refine ⟨pre, hws, hroom, ?_⟩
  rw [hws, List.length_append, List.length_append]
  omega

end Accepted

/-! ## The plain form -/

/-- An option with its value, if it has one. -/
def valueWords (w : Text) (v : Option Text) : List Text := v.elim [] fun v => [w, v]

/-- An option without a value, if it is given. -/
def flagWords (w : Text) (given : Bool) : List Text := if given then [w] else []

/-- The options of the plain form, each with its value. -/
def renderedOptions (a : ArgData) : List (List Text) :=
  [valueWords "-user" a.user, valueWords "-jvm" a.name, valueWords "-home" a.home,
    valueWords "-cwd" (some a.cwd), valueWords "-pidfile" (some a.pidf),
    valueWords "-outfile" (some a.outfile), valueWords "-errfile" (some a.errfile),
    valueWords "-procname" (some a.procname),
    valueWords "-umask" (some (Nat.toDigits 8 a.umask.toNat)),
    valueWords "-wait" (if a.wait = 0 then none else some (Number.decimal a.wait.toNat)),
    flagWords "-version" a.vers, flagWords "-check" a.chck, flagWords "-nodetach" (!a.dtch),
    flagWords "-showversion" (a.vershow.getD false), flagWords "-stop" a.stop,
    flagWords "-install" a.install, flagWords "-remove" a.remove, flagWords "-service" a.service,
    flagWords "-keepstdin" (!a.redirectstdin), flagWords "-debug" a.debug, a.opts]

/-- **The plain form**: each setting once, the options of the Java VM, the class and its arguments. -/
def render (a : ArgData) : List Text := (renderedOptions a).flatten ++ (a.clas.toList ++ a.args)

/-- The words, read as options, change the settings by `f`. -/
def Reads (cpath : Text → Text) (words : List Text) (f : ArgData → ArgData) : Prop :=
  ∀ ws a, parseWords cpath (words ++ ws) a = parseWords cpath ws (f a)

/-- A number does not start with `-`. -/
theorem isDashed_of_digits {b : ℕ} {w : Text} (hw : ∀ c ∈ w, Number.isDigitOf b c = true) :
    isDashed w = false := by
  apply decide_eq_false
  intro hhead
  exact absurd (hw '-' (List.mem_of_head? hhead)) (by simp [Number.isDigitOf])

namespace Reads

variable {cpath : Text → Text}

/-- Options one after the other. -/
theorem flatten {chunks : List (List Text)} {fs : List (ArgData → ArgData)}
    (h : List.Forall₂ (Reads cpath) chunks fs) :
    Reads cpath chunks.flatten fun a => fs.foldl (fun a f => f a) a := by
  induction h with
  | nil => exact fun _ _ => rfl
  | cons hfirst _ ih =>
    intro ws a
    rw [List.flatten_cons, List.append_assoc, hfirst, ih]
    rfl

/-- An option whose value is accepted. -/
theorem value {w v : Text} {f : Option Text → ArgData → Option ArgData} {g : ArgData → ArgData}
    (hw : action cpath w = some (.value f)) (hv : isDashed v = false)
    (hset : ∀ a, f (some v) a = some (g a)) : Reads cpath [w, v] g := by
  intro ws a
  have hoptional : optional (v :: ws) = some v := if_neg (ne_true_of_eq_false hv)
  show parseWords cpath (w :: v :: ws) a = _
  rw [parseWords_value hw, hoptional, hset]
  rfl

theorem valueWords {w : Text} {f : Option Text → ArgData → ArgData}
    (hw : action cpath w = some (required fun v => f (some v))) (hnone : ∀ a, f none a = a)
    {e : Option Text} (he : ∀ v ∈ e, isDashed v = false) :
    Reads cpath (Jsvc.valueWords w e) (f e) := by
  cases e with
  | none => exact fun _ a => congrArg _ (hnone a).symm
  | some v => exact value hw (he v rfl) fun _ => rfl

theorem set {w : Text} {f : ArgData → ArgData} (hw : action cpath w = some (.set f)) :
    Reads cpath [w] f :=
  fun _ _ => parseWords_set hw

theorem flagWords {w : Text} {f : Bool → ArgData → ArgData}
    (hw : action cpath w = some (.set (f true))) (hfalse : ∀ a, f false a = a) (given : Bool) :
    Reads cpath (Jsvc.flagWords w given) (f given) := by
  cases given with
  | false => exact fun _ a => congrArg _ (hfalse a).symm
  | true => exact set hw

theorem opts {words : List Text} (hwords : ∀ w ∈ words, PassedOn w) :
    Reads cpath words fun a => { a with opts := a.opts ++ words } := by
  induction words with
  | nil =>
    intro ws a
    simp
  | cons w words ih =>
    intro ws a
    rw [List.cons_append, parseWords_set (hwords w List.mem_cons_self cpath),
      ih fun v hv => hwords v (List.mem_cons_of_mem w hv)]
    simp

end Reads

section PlainForm

variable {a : ArgData}

theorem reads_umask (cpath : Text → Text) (ha : Settings a) :
    Reads cpath (valueWords "-umask" (some (Nat.toDigits 8 a.umask.toNat)))
      fun b => { b with umask := a.umask } := by
  have hbounds := ha.umask
  have hread : Number.toInt (Number.strtol 8 (Nat.toDigits 8 a.umask.toNat)) = a.umask := by
    rw [Number.toInt_strtol_toDigits (by decide) (by decide) (by omega)]
    omega
  refine Reads.value rfl (isDashed_of_digits (Number.isDigitOf_of_mem_toDigits (by decide)
    (by decide))) fun b => ?_
  show setUmask _ b = _
  dsimp only [setUmask]
  rw [hread, if_neg (by omega)]

theorem setWait_some (v : Text) (b : ArgData) : setWait (some v) b =
    if Number.atoi v < 10 then none else some { b with wait := Number.atoi v } :=
  rfl

theorem reads_wait (cpath : Text → Text) (ha : Settings a) :
    Reads cpath
      (valueWords "-wait" (if a.wait = 0 then none else some (Number.decimal a.wait.toNat)))
      fun b => { b with wait := if a.wait = 0 then b.wait else a.wait } := by
  rcases ha.wait with hwait | hwait
  · simp only [if_pos hwait]
    exact fun _ _ => rfl
  · have hread : Number.atoi (Number.decimal a.wait.toNat) = a.wait := by
      have hatoi := Number.atoi_decimal (n := a.wait.toNat) (t := []) (by omega) (by rintro _ ⟨⟩)
      rw [List.append_nil] at hatoi
      rw [hatoi]
      omega
    have hne : a.wait ≠ 0 := by omega
    simp only [if_neg hne]
    refine Reads.value rfl (isDashed_of_digits (Number.isDigitOf_of_mem_toDigits (by decide)
      (by decide))) fun b => ?_
    rw [setWait_some, hread, if_neg (by omega)]

/-- The options of the plain form set every setting but the class. -/
theorem parseWords_renderedOptions (cpath : Text → Text) (ha : Settings a) (ws : List Text) :
    parseWords cpath ((renderedOptions a).flatten ++ ws) .initial =
      parseWords cpath ws { a with clas := none, args := [] } := by
  have hreads : Reads cpath (renderedOptions a).flatten _ := .flatten <|
    .cons (.valueWords (f := fun e b => { b with user := e.or b.user }) rfl (fun _ => rfl) ha.user) <|
    .cons (.valueWords (f := fun e b => { b with name := e.or b.name }) rfl (fun _ => rfl) ha.name) <|
    .cons (.valueWords (f := fun e b => { b with home := e.or b.home }) rfl (fun _ => rfl) ha.home) <|
    .cons (.value rfl ha.cwd fun _ => rfl) <| .cons (.value rfl ha.pidf fun _ => rfl) <|
    .cons (.value rfl ha.outfile fun _ => rfl) <| .cons (.value rfl ha.errfile fun _ => rfl) <|
    .cons (.value rfl ha.procname fun _ => rfl) <| .cons (reads_umask cpath ha) <|
    .cons (reads_wait cpath ha) <|
    .cons (.flagWords (f := fun s b => { b with vers := s || b.vers, dtch := !s && b.dtch })
      rfl (fun _ => rfl) _) <|
    .cons (.flagWords (f := fun s b => { b with chck := s || b.chck, dtch := !s && b.dtch })
      rfl (fun _ => rfl) _) <|
    .cons (.flagWords (f := fun s b => { b with dtch := !s && b.dtch }) rfl (fun _ => rfl) _) <|
    .cons (.flagWords (f := fun s b => { b with vershow := bif s then some true else b.vershow })
      rfl (fun _ => rfl) _) <|
    .cons (.flagWords (f := fun s b => { b with stop := s || b.stop }) rfl (fun _ => rfl) _) <|
    .cons (.flagWords (f := fun s b => { b with install := s || b.install })
      rfl (fun _ => rfl) _) <|
    .cons (.flagWords (f := fun s b => { b with remove := s || b.remove }) rfl (fun _ => rfl) _) <|
    .cons (.flagWords (f := fun s b => { b with service := s || b.service })
      rfl (fun _ => rfl) _) <|
    .cons (.flagWords (f := fun s b => { b with redirectstdin := !s && b.redirectstdin })
      rfl (fun _ => rfl) _) <|
    .cons (.flagWords (f := fun s b => { b with debug := s || b.debug }) rfl (fun _ => rfl) _) <|
    .cons (.opts ha.opts) .nil
  rw [hreads]
  refine congrArg _ ?_
  apply ArgData.ext <;> dsimp only [List.foldl, ArgData.initial]
  case dtch =>
    -- with `-version` and `-check` the service is not detached
    have hattached := ha.attached
    cases hdtch : a.dtch with
    | false => rfl
    | true => simp_all
  case vershow =>
    have hvershow := ha.vershow
    rcases hshow : a.vershow with _ | _ | _
    · rfl
    · exact absurd hshow hvershow
    · rfl
  case wait =>
    split_ifs with hwait
    · exact hwait.symm
    · rfl
  case help => exact ha.help.symm
  all_goals simp

/-- **Every command line that is accepted, and does not ask for help, has a plain form**, which is
read to the same settings, whatever files there are then. -/
theorem parse_render {glob : Text → Option (List Text)} {ws : List Text}
    (hparse : parse glob ws = some a) (hhelp : a.help = false)
    (glob' : Text → Option (List Text)) : parse glob' (render a) = some a := by
  have ha := wellFormed_of_parse hparse hhelp
  rw [parse, render, parseWords_renderedOptions _ ha.toSettings]
  cases hclas : a.clas with
  | none =>
    obtain ⟨hremove, hargs⟩ := ha.remove hclas
    rw [hargs, Option.toList_none, List.append_nil, parseWords_nil, if_neg (by simp [hremove])]
    simp [ArgData.ext_iff, hclas, hargs]
  | some c =>
    show parseWords _ (c :: a.args) _ = _
    rw [parseWords_clas (action_eq_none_iff.mpr (ha.clas c hclas))]
    simp [ArgData.ext_iff, hclas]

/-- Some settings that are set twice, and some that are not set. -/
def sampleWords : List Text :=
  ["-user", "jsvc", "-wait", "30", "-cp", "lib/*:shop.jar:", "-user", "tomcat", "-wait", "-X", "-esa",
    "-check", "Bootstrap", "-stop"]

/-- A single file is found. -/
def sampleGlob (pattern : Text) : Option (List Text) :=
  if pattern = "lib/*.jar".toList then some ["lib/tools.jar"] else none

/-- What is read. -/
def sampleSettings : ArgData :=
  { ArgData.initial with
    user := some "tomcat"
    wait := 30
    chck := true
    dtch := false
    opts := ["-Djava.class.path=lib/tools.jar:shop.jar", "-esa"]
    clas := some "Bootstrap"
    args := ["-stop"] }

theorem parse_render_sample : parse sampleGlob sampleWords = some sampleSettings ∧
    parse (fun _ => none) (render sampleSettings) = some sampleSettings := by
  have hparse : parse sampleGlob sampleWords = some sampleSettings := by rfl
  exact ⟨hparse, parse_render hparse rfl _⟩

theorem exists_options_of_parse_sample : parse sampleGlob sampleWords = some sampleSettings ∧
    ∃ pre, sampleWords = pre ++ sampleSettings.clas.toList ++ sampleSettings.args ∧
      sampleSettings.opts.length ≤ pre.length ∧
      sampleSettings.opts.length + sampleSettings.args.length ≤ sampleWords.length := by
  have hparse : parse sampleGlob sampleWords = some sampleSettings := by rfl
  exact ⟨hparse, exists_options_of_parse hparse⟩

end PlainForm

/-! ## The start command of the init script -/

/-- `CATALINA_HOME` of the init script. -/
def catalinaHome : Text := "/avetti/tomcat"

/-- `PID_FILE` of the init script. -/
def initPidFile : Text := "/var/run/jsvc.pid"

/-- The parts of `CLASSPATH` in the init script. -/
def initClassPath (javaHome daemonHome : Text) : List Text :=
  [javaHome ++ "/lib/tools.jar".toList, daemonHome ++ "/dist/commons-daemon.jar".toList,
    catalinaHome ++ "/bin/bootstrap.jar".toList, catalinaHome ++ "/bin/tomcat-juli.jar".toList]

/-- The options in the start command of the init script, where the expansions of `JAVA_HOME` and
`DAEMON_HOME` are single words and `catalinaOpts` are the words of `CATALINA_OPTS`. -/
def startOptions (javaHome daemonHome : Text) (catalinaOpts : List Text) : List (List Text) :=
  [["-user", "tomcat"], ["-home", javaHome], ["-Dcatalina.home=".toList ++ catalinaHome],
    ["-Djava.io.tmpdir=/var/tmp"], ["-outfile", catalinaHome ++ "/logs/catalina.out".toList],
    ["-errfile", "&1"], ["-procname", "jsvc"], catalinaOpts, ["-pidfile", initPidFile],
    ["-server"], ["-cp", [':'].intercalate (initClassPath javaHome daemonHome)]]

/-- The words after `jsvc` in the start command of the init script. -/
def startWords (javaHome daemonHome : Text) (catalinaOpts : List Text) : List Text :=
  (startOptions javaHome daemonHome catalinaOpts).flatten ++
    ["org.apache.catalina.startup.Bootstrap".toList]

/-- The settings of the service that the init script starts. -/
def startedSettings (javaHome daemonHome : Text) (catalinaOpts : List Text) : ArgData :=
  { ArgData.initial with
    user := some "tomcat"
    home := some javaHome
    outfile := "/avetti/tomcat/logs/catalina.out"
    errfile := "&1"
    procname := "jsvc"
    name := some "server"
    pidf := initPidFile
    opts := "-Dcatalina.home=/avetti/tomcat".toList :: "-Djava.io.tmpdir=/var/tmp".toList ::
      (catalinaOpts ++ [javaClasspath ++ [':'].intercalate (initClassPath javaHome daemonHome)])
    clas := some "org.apache.catalina.startup.Bootstrap" }

section Start

variable {javaHome daemonHome : Text} {catalinaOpts : List Text}

theorem splitOn_initClassPath (hjava : ':' ∉ javaHome) (hdaemon : ':' ∉ daemonHome) :
    ([':'].intercalate (initClassPath javaHome daemonHome)).splitOn ':' =
      initClassPath javaHome daemonHome := by
  refine List.splitOn_intercalate ':' ?_ (List.cons_ne_nil _ _)
  simp only [initClassPath, List.forall_mem_cons, List.mem_append, not_or]
  refine ⟨⟨hjava, by decide⟩, ⟨hdaemon, by decide⟩, by decide, by decide, List.forall_mem_nil _⟩

/-- No part of the class path is a pattern. -/
theorem evalCpath_initClassPath (glob : Text → Option (List Text)) (hjava : ':' ∉ javaHome)
    (hdaemon : ':' ∉ daemonHome) :
    evalCpath glob ([':'].intercalate (initClassPath javaHome daemonHome)) =
      javaClasspath ++ [':'].intercalate (initClassPath javaHome daemonHome) := by
  have hend : ∀ part ∈ initClassPath javaHome daemonHome, part.getLast? = some 'r' := by
    simp only [initClassPath, List.forall_mem_cons, List.getLast?_append]
    exact ⟨rfl, rfl, rfl, rfl, List.forall_mem_nil _⟩
  refine evalCpath_of_plain glob ?_ ?_
  · intro part hpart
    rw [splitOn_initClassPath hjava hdaemon] at hpart
    rw [hend part hpart]
    decide
  · intro hlast
    rw [splitOn_initClassPath hjava hdaemon] at hlast
    cases hend [] (List.mem_of_getLast? hlast)

/-- The options of the Java VM in the init script. -/
def initOpts : List Text :=
  ["-Xms2048M", "-Xmx2048M", "-XX:PermSize=256M", "-XX:MaxPermSize=512M",
    "-Duser.timezone=Canada/Eastern"]

theorem passedOn_of_mem_initOpts : ∀ w ∈ initOpts, PassedOn w := by
  simp only [initOpts, List.forall_mem_cons]
  exact ⟨fun _ => rfl, fun _ => rfl, fun _ => rfl, fun _ => rfl, fun _ => rfl,
    List.forall_mem_nil _⟩

end Start

end Avetti.Jsvc
