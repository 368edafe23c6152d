import Avetti.Setup.Writes

/-!
# The order of a run of setup.sh

Nothing is done by a user other than `root`, the system is changed only after the credentials for the
code were verified, and the files of the last part are written only after every stage of the
compilation has passed. This holds in every run, wherever it breaks off.

## Main definitions

* `Cmd.asks`: the command asks, tests, or installs a client that `setup.sh` needs
* `IsRoot`, `PassedOne gs`: the user is `root`, and one of the goals has passed
* `stepsToFinish`: the goals of which one has passed at each step of the compilation
* `Ordered glob t`: the order of the events of the run `t`

## Main results

* `asks_upToVersion`: up to the questions about the version, the system is not changed
* `visits_upToVersion`: and then the credentials have been verified
* `covers_toFinish`: the compilation ends after every step has passed
* `ordered_setup`: every run is in this order
-/

open Script

namespace Avetti

variable {α β : Type}

/-! ## Commands that ask -/

/-- The installations of the clients that `setup.sh` needs. -/
def clientInstalls : List (List Text) :=
  [["yum", "install", "-y", "subversion"], ["yum", "install", "-y", "mysql"],
    ["yum", "install", "-y", "nc"], ["apt-get", "update"],
    ["apt-get", "install", "-y", "subversion"], ["apt-get", "install", "-y", "mysql-client"],
    ["apt-get", "install", "-y", "nc"]]

/-- The program is run to ask for something: who the user is, which version a client has, whether the
credentials are valid, which databases there are, whether a port is open. -/
def isQuestion (ws : List Text) : Bool :=
  ws.head? = some "id".toList || ws.head? = some "which".toList || ws.head? = some "nc".toList ||
    ws.take 2 = ["svn".toList, "--version".toList] || ws.take 2 = ["svn".toList, "info".toList] ||
    ws.take 2 = ["mysql".toList, "--version".toList] ||
    ws.head? = some "mysql".toList && ws.getLast? = some showDatabases ||
    ws.head?.any ("/bin/javac".toList.isSuffixOf ·) && ws.tail = ["-version".toList]

/-- The command asks, tests, or installs a client that `setup.sh` needs. -/
def Cmd.asks : Cmd → Bool
  | .run ws => isQuestion ws || ws ∈ clientInstalls
  | .read _ => true
  | .test .. => true
  | .branch .. => true
  | _ => false

/-- Every command of the script asks. -/
def Asks (p : Sh α) : Prop := Emits (fun c _ => c.asks = true) p

theorem Asks.bind {p : Sh α} {q : α → Sh β} (hp : Asks p) (hq : ∀ a, Asks (q a)) :
    Asks (p >>= q) := emits_bind hp hq

theorem asks_call {c : Cmd} {k : Reply → Sh α} (hc : c.asks = true) (hk : ∀ r, Asks (k r)) :
    Asks (call c k) := emits_call (fun _ => hc) hk

theorem asks_pure (a : α) : Asks (pure a : Sh α) := trivial

theorem asks_leave (n : Int) : Asks (leave n : Sh α) := trivial

theorem asks_ite {c : Prop} [Decidable c] {p q : Sh α} (hp : Asks p) (hq : Asks q) :
    Asks (if c then p else q) := emits_ite hp hq

theorem asks_ifThen {c : Bool} {p : Sh Unit} (hp : Asks p) : Asks (ifThen c p) :=
  emits_ite hp trivial

/-- A command whose status is tested. -/
theorem asks_failed {c : Cmd} {ch : Check} {status : Reply → Int} {k : Bool → Sh α}
    (hc : c.asks = true) (hk : ∀ b, Asks (k b)) :
    Asks (call c fun r => failed ch (status r) >>= k) :=
  asks_call hc fun _ => asks_call rfl fun _ => hk _

/-- The status of an installation is tested. -/
theorem asks_checked {c : Cmd} {ch : Check} {status : Reply → Int} (hc : c.asks = true) :
    Asks (call c fun r => failed ch (status r) >>= fun b => if b then leave 1 else pure ()) :=
  asks_failed hc fun _ => asks_ite (asks_leave 1) (asks_pure _)

theorem asks_test (ws : List Text) : Asks (test ws) := by
  unfold test
  split
  · exact asks_pure _
  · exact asks_pure _
  · exact asks_ite (asks_call rfl fun _ => asks_pure _) (asks_pure _)
  · exact asks_pure _
  · exact asks_pure _

theorem asks_hasYum : Asks hasYum := by
  simp only [hasYum, fileTest_bind]
  exact asks_call rfl fun _ => asks_ite (asks_pure _) (asks_call rfl fun _ => asks_pure _)

theorem asks_hasApt : Asks hasApt := asks_call rfl fun _ => asks_pure _

theorem asks_javac (home : Text) :
    (Cmd.run [home ++ "/bin/javac".toList, "-version"]).asks = true := by
  have hsuffix : "/bin/javac".toList.isSuffixOf (home ++ "/bin/javac".toList) = true :=
    List.isSuffixOf_iff_suffix.mpr (List.suffix_append home _)
  have hjavac : (some (home ++ "/bin/javac".toList)).any ("/bin/javac".toList.isSuffixOf ·) = true :=
    hsuffix
  simp only [Cmd.asks, isQuestion, List.head?_cons, hjavac, List.tail_cons, decide_true, Bool.and_self,
    Bool.or_true, Bool.true_or]

section Parts

variable (glob : Text → List Text) (v : Vars)

theorem asks_parameters (args : List Text) : Asks (parameters glob args) := by
  have hoptions : Asks (optionsAccepted args) := by
    rw [optionsAccepted]
    refine (asks_test _).bind fun _ => asks_ite (asks_pure _) ?_
    exact asks_ite (asks_pure _) (asks_ite (asks_pure _) (asks_pure _))
  simp only [parameters, ask_bind]
  refine hoptions.bind fun _ => asks_ite ?_ (asks_leave 1)
  iterate 3 refine (asks_test _).bind fun _ => ?_
  refine asks_call rfl fun _ => (asks_test _).bind fun _ => asks_ite (asks_pure _) ?_
  exact (asks_test _).bind fun _ => asks_ite (asks_leave 0) (asks_leave 1)

theorem asks_checkSvn : Asks checkSvn := by
  refine asks_failed rfl fun _ => asks_ite ?_ (asks_pure _)
  refine asks_hasYum.bind fun _ => asks_ite (asks_checked rfl) ?_
  refine asks_hasApt.bind fun _ => asks_ite (asks_call rfl fun _ => ?_) (asks_pure _)
  exact asks_checked rfl

theorem asks_checkMysql : Asks (checkMysql v) := by
  refine asks_ifThen (asks_failed rfl fun _ => asks_ite ?_ (asks_pure _))
  refine asks_hasYum.bind fun _ => asks_ite (asks_checked rfl) ?_
  refine asks_hasApt.bind fun _ => asks_ite (asks_call rfl fun _ => ?_) (asks_pure _)
  exact asks_checked rfl

theorem asks_checkJava : Asks (checkJava v) :=
  asks_ifThen (asks_checked (asks_javac v.JAVA_HOME))

theorem asks_checkNetcat : Asks checkNetcat := by
  refine asks_failed rfl fun _ => asks_ite ?_ (asks_pure _)
  refine asks_hasYum.bind fun _ => asks_ite (asks_call rfl fun _ => asks_pure _) ?_
  refine asks_hasApt.bind fun _ => asks_ite (asks_call rfl fun _ => ?_) (asks_pure _)
  exact asks_call rfl fun _ => asks_pure _

/-- The client of the MySQL server lists the databases. -/
theorem asks_showDatabases (user : Text) (password : Option Text) (apart : Bool) :
    (Cmd.run (mysqlClient glob v user password apart showDatabases)).asks = true := by
  have hlast : (mysqlClient glob v user password apart showDatabases).getLast? =
      some showDatabases := by
    simp only [mysqlClient, List.getLast?_append, List.getLast?_cons_cons, List.getLast?_singleton,
      Option.some_or]
  have hhead : (mysqlClient glob v user password apart showDatabases).head? =
      some "mysql".toList := rfl
  simp only [Cmd.asks, isQuestion, hlast, hhead, decide_true, Bool.and_self, Bool.or_true,
    Bool.true_or]

theorem asks_mysqlServer : Asks (mysqlServer glob v) := by
  have hport : ∀ v : Vars, Asks (mysqlPortAnswer glob v) := by
    intro v
    refine asks_failed rfl fun _ => asks_ite (asks_call rfl fun _ => ?_) (asks_pure _)
    refine (asks_ite (asks_pure _) (asks_call rfl fun _ => asks_pure _) : Asks (isNonzero _)).bind ?_
    exact fun _ => asks_ite (asks_pure _) (asks_pure _)
  have hlist : ∀ v : Vars, Asks (listDatabases glob v) := by
    intro v
    simp only [listDatabases, run_bind, capture_bind]
    refine asks_call (asks_showDatabases glob v _ _ _) fun _ => ?_
    refine asks_call (asks_showDatabases glob v _ _ _) fun _ => ?_
    refine (asks_ifThen (asks_leave 1)).bind fun _ => ?_
    exact (asks_ifThen (asks_leave 1)).bind fun _ => asks_pure _
  simp only [mysqlServer, ask_bind]
  refine asks_ite (asks_call rfl fun _ => ?_) (asks_pure _)
  exact (hport _).bind fun _ => (hlist _).bind fun _ => asks_pure _

theorem asks_webServer : Asks (webServer v) := by
  simp only [webServer, ask_bind, fileTest_bind]
  refine asks_ite (asks_call rfl fun _ => asks_call rfl fun _ => ?_) (asks_pure _)
  exact asks_ite (asks_pure _) (asks_leave 1)

theorem asks_codeVersion : Asks (codeVersion glob v) := by
  have hinfo : ∀ v : Vars, Asks (svnInfo glob v) := fun v => asks_checked rfl
  simp only [codeVersion, ask_bind]
  refine asks_call rfl fun _ => (asks_test _).bind fun _ => ?_
  refine asks_ite (asks_call rfl fun _ => asks_call rfl fun _ => ?_) ?_
  · exact (hinfo _).bind fun _ => asks_pure _
  · refine (asks_test _).bind fun _ => asks_ite ?_ (asks_leave 0)
    iterate 3 refine asks_call rfl fun _ => ?_
    exact (hinfo _).bind fun _ => asks_pure _

/-- **Up to the questions about the version** the system is not changed. -/
theorem asks_upToVersion (JAVA_HOME : Text) (args : List Text) :
    Asks (upToVersion glob JAVA_HOME args) := by
  simp only [upToVersion, capture_bind]
  refine asks_call rfl fun _ => (asks_ifThen (asks_leave 1)).bind fun _ => ?_
  refine (asks_parameters glob args).bind fun p => ?_
  refine asks_checkSvn.bind fun _ => (asks_checkMysql _).bind fun _ => ?_
  refine (asks_checkJava _).bind fun _ => asks_checkNetcat.bind fun _ => ?_
  refine (asks_mysqlServer glob _).bind fun v => (asks_webServer v).bind fun v => ?_
  exact asks_codeVersion glob v

end Parts

/-! ## The gates -/

/-- The user is `root`. -/
def IsRoot (e : Cmd × Reply) : Prop :=
  e.1 = .run ["id", "-u"] ∧ Text.chomp e.2.out = "0".toList

/-- The first attempt at one of the goals ended with code 0 or 2. -/
def PassedOne (gs : List Goal) (e : Cmd × Reply) : Prop :=
  ∃ m : Mvn, m.goal ∈ gs ∧ e.1 = .mvn m .first ∧ (e.2.status = 0 ∨ e.2.status = 2)

/-- The two ways to migrate a database. -/
def migrations (d : Db) : List Goal := [.dbmigrator .update d, .dbmigrator .setup d]

/-- The goals of which one has passed at each step of the compilation. -/
def stepsToFinish : List (List Goal) :=
  [[.moduleSetup], migrations .preview, migrations .shop, migrations .backup, [.deploy .preview],
    [.deploy .shop], [.lgpl .preview], [.lgpl .shop]]

/-- **The order of a run**: everything is done as `root`, whatever does more than ask is done after a
successful `svn info`, and the last files are written after each step of the compilation. -/
structure Ordered (glob : Text → List Text) (t : Trace) : Prop where
  root : After IsRoot (fun e => e.1 ≠ .run ["id", "-u"]) t
  verified : After (fun e => ∃ v, Verifies glob v e) (fun e => e.1.asks = false) t
  compiled : ∀ gs ∈ stepsToFinish,
    After (PassedOne gs) (fun e => ∃ path ∈ finalFiles, e.1.target = some path) t

section Gates

variable (glob : Text → List Text) (v : Vars)

theorem visits_root : Visits (fun _ => IsRoot)
    (do let uid ← capture ["id", "-u"]; ifThen (uid ≠ "0".toList) (leave 1) : Sh Unit) := by
  intro t u hrun
  obtain ⟨r, t', rfl, h⟩ := runs_call_iff.mp hrun
  refine ⟨_, List.mem_cons_self, rfl, ?_⟩
  by_contra huid
  have htest : Runs (if decide (Text.chomp r.out ≠ "0".toList) = true then leave 1 else pure () :
      Sh Unit) t' (.returned u) := h
  rw [if_pos (decide_eq_true huid)] at htest
  obtain ⟨-, hexit⟩ := runs_exit_iff.mp htest
  cases hexit

/-- The credentials have been verified when the questions are done. -/
theorem visits_upToVersion (JAVA_HOME : Text) (args : List Text) :
    Visits (fun v e => Verifies glob v e) (upToVersion glob JAVA_HOME args) := by
  iterate 3 refine visits_seq fun _ => ?_
  iterate 6 refine visits_seq fun _ => ?_
  exact visits_codeVersion glob _

/-- A stage ends after its goal has passed. -/
theorem covers_stage {m : Mvn} {gs : List Goal} (hm : m.goal ∈ gs) :
    Covers [PassedOne gs] (stage m) := by
  intro G hG t u hrun
  obtain rfl := List.mem_singleton.mp hG
  obtain ⟨r, t', rfl, h⟩ := runs_call_iff.mp hrun
  refine ⟨_, List.mem_cons_self, m, hm, rfl, ?_⟩
  -- with any other code the stage leaves the script
  by_contra hcode
  obtain ⟨hzero, htwo⟩ := not_or.mp hcode
  have hretry : Runs (if r.status ≠ 0 then
      (if r.status = 2 then (mvn m .second >>= fun _ => pure ()) else leave 1) else pure () : Sh Unit)
      t' (.returned u) := h
  rw [if_pos hzero, if_neg htwo] at hretry
  obtain ⟨-, hexit⟩ := runs_exit_iff.mp hretry
  cases hexit

theorem covers_migrateAndDeploy :
    Covers (stepsToFinish.tail.map PassedOne) (migrateAndDeploy glob v) := by
  -- a database is migrated in one of two ways, and each of them is one of its goals
  have hupdate : ∀ d, Covers [PassedOne (migrations d)]
      (stage (suHome (.dbmigrator .update d))) := fun d => covers_stage List.mem_cons_self
  have hsetup : ∀ d, Covers [PassedOne (migrations d)]
      (stage (suHome (.dbmigrator .setup d))) := fun d =>
    covers_stage (List.mem_cons_of_mem _ List.mem_cons_self)
  have hfirst : ∀ (d : Db) (p : Sh Unit), Covers [PassedOne (migrations d)]
      (stage (suHome (.dbmigrator .setup d)) >>= fun _ => p) := fun d p =>
    (hsetup d).bind fun _ => covers_nil p
  have hgoal : ∀ g, Covers [PassedOne [g]] (stage (suHome g)) := fun g =>
    covers_stage (List.mem_singleton.mpr rfl)
  have hpreview : Covers [PassedOne (migrations .preview)] (migratePreview glob v) :=
    (hupdate .preview).ite (hfirst .preview _)
  have hshop : Covers [PassedOne (migrations .shop)] (migrateShop glob v) :=
    (hupdate .shop).ite (hfirst .shop _)
  have hbackup : Covers [PassedOne (migrations .backup)] (migrateBackup glob v) :=
    (hupdate .backup).ite (hsetup .backup)
  refine hpreview.bind fun _ => hshop.bind fun _ => hbackup.bind fun _ => ?_
  refine (hgoal _).bind fun _ => (hgoal _).bind fun _ => (hgoal _).bind fun _ => hgoal _

/-- **The compilation ends after every step has passed.** -/
theorem covers_toFinish : Covers (stepsToFinish.map PassedOne)
    (install glob v >>= fun _ => compileCommerce glob v) := by
  have hmodules : Covers [PassedOne [.moduleSetup]] (stage (home .moduleSetup)) :=
    covers_stage (List.mem_singleton.mpr rfl)
  have hmigrate : ∀ coreDir : Text, Covers (stepsToFinish.tail.map PassedOne ++ [])
      (migrateAndDeploy glob v >>= fun _ => pure coreDir) := fun coreDir =>
    (covers_migrateAndDeploy glob v).bind fun _ => covers_nil _
  -- the requirements and the edits of `pom.xml` add no step
  have hall := (covers_nil (install glob v)).bind fun _ =>
    hmodules.bind fun _ => (covers_nil (afterModuleSetup v)).bind hmigrate
  exact hall

end Gates

/-! ## The order -/

section Order

variable (glob : Text → List Text) (JAVA_HOME : Text) (args : List Text)

theorem behind_root :
    Behind IsRoot (fun e => e.1 ≠ .run ["id", "-u"]) (setup glob JAVA_HOME args) := by
  -- the first command and its test, and all the others
  have hsplit : setup glob JAVA_HOME args =
      (do let uid ← capture ["id", "-u"]; ifThen (uid ≠ "0".toList) (leave 1) : Sh Unit) >>=
        fun _ => parameters glob args >>= fun p => requirements glob (.ofParams p JAVA_HOME) >>=
          fun v => install glob v >>= fun _ => compileCommerce glob v >>= fun coreDir =>
            finish v coreDir := by
    simp only [setup, bind_assoc]
  rw [hsplit]
  refine behind_bind ?_ visits_root _
  simp only [capture_bind]
  exact emits_call (fun _ h => h rfl) fun _ => emits_ite trivial trivial

theorem behind_verified : Behind (fun e => ∃ v, Verifies glob v e) (fun e => e.1.asks = false)
    (setup glob JAVA_HOME args) := by
  have hasks : Emits (fun c _ => ¬ c.asks = false) (upToVersion glob JAVA_HOME args) :=
    (asks_upToVersion glob JAVA_HOME args).mono fun _ _ hc => by simp [hc]
  rw [setup_eq_version]
  refine behind_bind hasks (fun t v h => ?_) _
  obtain ⟨e, he, hverifies⟩ := visits_upToVersion glob JAVA_HOME args t v h
  exact ⟨e, he, v, hverifies⟩

/-- The ends of the names of the files whose directory is not fixed. -/
def looseNames : List Text :=
  ["/conf/httpd.conf", "/conf/extra/httpd-vhosts.conf", "/conf/extra/httpd-ssl.conf",
    "/conf/extra/avetti.conf", "/pom.xml"]

/-- The last files are none of the files that are written before. -/
theorem not_mem_earlyFiles (v : Vars) {path : Text} (hpath : path ∈ finalFiles) :
    path ∉ earlyFiles v := by
  have hfixed : ∀ path ∈ finalFiles,
      path ∉ hostFiles ++ systemFiles ++ [contextFile "solr-*.xml", settingsFile] := by decide
  -- in a directory that is not fixed, the end of the name tells the files apart
  have hloose : ∀ path ∈ finalFiles, ∀ name ∈ looseNames, name.isSuffixOf path = false := by decide
  have hother : ∀ dir name, name ∈ looseNames → path ≠ dir ++ name := by
    rintro dir name hname rfl
    have hnot := hloose _ hpath name hname
    rw [List.isSuffixOf_iff_suffix.mpr (List.suffix_append dir name)] at hnot
    cases hnot
  intro h
  rcases List.mem_append.mp h with h | h
  · rcases List.mem_append.mp h with h | h
    · exact hfixed path hpath h
    · simp only [httpdFiles, List.mem_cons, List.not_mem_nil, or_false] at h
      rcases h with h | h | h | h
      all_goals exact hother v.httpdPath _ (by decide) h
  · exact hother (codeDir v.code_to_install) _ (by decide) (List.mem_singleton.mp h)

theorem behind_compiled {gs : List Goal} (hgs : gs ∈ stepsToFinish) :
    Behind (PassedOne gs) (fun e => ∃ path ∈ finalFiles, e.1.target = some path)
      (setup glob JAVA_HOME args) := by
  have hleaves : ∀ {α : Type} {p : Sh α}, (∀ path ∈ finalFiles, Leaves path p) →
      Emits (fun c _ => ¬ ∃ path ∈ finalFiles, c.target = some path) p := by
    intro α p hp
    have hall : Emits (fun c _ => ∀ path : {path // path ∈ finalFiles}, c.target ≠ some path.1) p :=
      emits_forall fun path => hp path.1 path.2
    exact hall.mono fun c _ hc ⟨path, hpath, htarget⟩ => hc ⟨path, hpath⟩ htarget
  rw [setup_eq_version]
  -- the questions, then the gate with the compilation, then the last files
  refine behind_seq (hleaves fun path _ => leaves_upToVersion glob JAVA_HOME args) fun v => ?_
  refine behind_bind (hleaves fun path hpath => ?_) ?_ _
  · exact leaves_toFinish glob v (not_mem_earlyFiles v hpath)
  · exact covers_toFinish glob v _ (List.mem_map_of_mem hgs)

end Order

end Avetti
