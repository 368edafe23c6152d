import Avetti.Script.Effect
import Avetti.Setup.Connections

/-!
# The endpoint of the database

Without the installation of the MySQL server, `setup.sh` asks for the host of the server and, when
the probe of the default port fails, for the port. The pair is meant for the clients, for the grants
and for the configuration files.

## Main definitions

* `Answers`: the answers, and whether the probe reaches the server
* `FilesEffect other original`: what an event does to the files of the database connections
* `WritesEndpoint`: what a run leaves in these files is for an endpoint
* `UsesAnswers`: all runs use the endpoint that was typed
* `Fresh`: the files, and the values that are put into them, are such that the endpoint can be put in

## Main results

* `callsAt_run`: the endpoint that the clients of a run use
* `writesEndpoint_run`: the endpoint that a run writes
* `usesAnswers_iff`: the endpoint that was typed is used exactly when the host is `localhost`, and
  the shell reads a port that is asked for as a number other than zero
-/

open Script Sed

namespace Avetti

variable {α β : Type}

/-! ## The answers -/

/-- The answers to the questions about the MySQL server, and whether the probe reaches it. -/
structure Answers where
  host : Text
  port : Text
  reachable : Bool
  deriving DecidableEq

/-- The questions are answered in this way, and the probe ends as it says. -/
def Answered (a : Answers) : Cmd → Reply → Prop
  | .read var, r => (var = "mysqlHost2".toList → r.out = a.host) ∧
      (var = "mysqlPort2".toList → r.out = a.port)
  | .run ws, r => ws.head? = some "nc".toList → (r.status = 0 ↔ a.reachable = true)
  | _, _ => True

/-- The host that was typed; an empty answer stands for `localhost`. -/
def Answers.endpointHost (a : Answers) : Text := if a.host = [] then "localhost" else a.host

/-- The port that was typed, when it was asked for; an empty answer stands for `3306`. -/
def Answers.endpointPort (a : Answers) : Text :=
  if a.reachable = true ∨ a.port = [] then "3306" else a.port

/-- The port that the script uses. -/
def Answers.portUsed (a : Answers) : Text :=
  if a.reachable = false ∧ (shellNumber a.port).any (· ≠ 0) then a.port else "3306"

/-- The answer is a number greater than zero, or empty. -/
def IsPort (n : Text) : Prop := n = [] ∨ n.all Char.isDigit = true ∧ ∃ c ∈ n, c ≠ '0'

instance (n : Text) : Decidable (IsPort n) := inferInstanceAs (Decidable (_ ∨ _))

/-- The pathnames that match a pattern are lines. -/
def PathnameLines (glob : Text → List Text) : Prop := ∀ w, ∀ path ∈ glob w, '\n' ∉ path

/-- The variables about the MySQL server: the parameters, this host and the port. -/
structure AtEndpoint (p : Params) (port : Text) (m : Params × Text × Text × Text) : Prop where
  params : m.1 = p
  host : m.2.1 = "localhost".toList
  port : m.2.2.1 = port

theorem IsPort.digits {n : Text} (h : IsPort n) : n.all Char.isDigit = true := by
  rcases h with rfl | ⟨h, -⟩
  · rfl
  · exact h

theorem portWord_default : PortWord "3306".toList := ⟨by simp, by decide⟩

theorem portWord_portUsed {a : Answers} (ha : IsPort a.port) : PortWord a.portUsed := by
  unfold Answers.portUsed
  split_ifs with h
  · refine ⟨fun hnil => ?_, List.all_eq_true.mp ha.digits⟩
    rw [hnil] at h
    exact absurd h.2 (by decide)
  · exact portWord_default

theorem newline_not_mem_values {glob : Text → List Text} (hglob : PathnameLines glob)
    (args : List Text) : ∀ w ∈ values glob args, '\n' ∉ w := by
  intro w hw
  obtain ⟨u, hu, hw⟩ := List.mem_flatMap.mp hw
  rw [Shell.expand] at hw
  split_ifs at hw
  · exact hglob u w hw
  · rw [List.mem_singleton.mp hw]
    exact Shell.not_mem_of_mem_words List.mem_cons_self hu

/-- The values of the parameters are the given ones, or defaults. -/
theorem newline_not_mem_bindValues {param : List Text} (h : ∀ w ∈ param, '\n' ∉ w) :
    '\n' ∉ (bindValues param).1 ∧ '\n' ∉ (bindValues param).2.1 := by
  have hvalue : ∀ i : ℕ, '\n' ∉ (param[i]?).getD [] := by
    intro i
    rcases hi : param[i]? with _ | w
    · simp
    · exact h w (List.mem_of_getElem? hi)
  have havetti : '\n' ∉ "avetti".toList := by decide
  simp only [bindValues]
  split_ifs
  all_goals first
    | exact ⟨hvalue _, hvalue _⟩
    | exact ⟨List.not_mem_nil, havetti⟩
    | exact ⟨List.not_mem_nil, List.not_mem_nil⟩

/-! ## Parts with clients -/

section Clients

variable {glob : Text → List Text} {v : Vars} {path : Text}

theorem isSteady_mysqlClient (hglob : Pathnames glob) (hhost : v.mysqlHost = "localhost".toList)
    (hport : PortWord v.mysqlPort) {user : Text} (huser : user ≠ []) {pwd : Option Text}
    (hpwd : ∀ p ∈ pwd, '\n' ∉ p) {apart : Bool} {statement : Text}
    (hgrant : "GRANT ".toList.isPrefixOf statement = true → ∃ (d : Db) (pwd : Text),
      statement = grantStatement d.name "localhost" pwd) :
    (Cmd.run (mysqlClient glob v user pwd apart statement)).IsSteady "localhost" v.mysqlPort
      path := by
  have hlast := getLast?_mysqlClient glob v user pwd apart statement
  obtain ⟨hh, hP⟩ := clientOption_mysqlClient hglob hhost hport huser hpwd apart statement
  refine ⟨⟨fun _ h hsome => ?_, fun h => ?_⟩, ?_⟩
  · rw [hh] at hsome
    exact ⟨(Option.some.inj hsome).symm, hP⟩
  · have hstatement := (Bool.and_eq_true_iff.mp h).2
    rw [hlast, Option.any_some] at hstatement
    obtain ⟨d, p, rfl⟩ := hgrant hstatement
    exact ⟨d, p, hlast⟩
  · have htarget : (Cmd.run (mysqlClient glob v user pwd apart statement)).target = none := by
      rw [Cmd.target, head?_mysqlClient, if_neg (by decide)]
    have hmoved : (Cmd.run (mysqlClient glob v user pwd apart statement)).moved = none := by
      obtain ⟨ws, hws⟩ := List.head?_eq_some_iff.mp (head?_mysqlClient glob v user pwd apart statement)
      rw [hws]
      exact moved_of_ne (by decide) ws
    rw [Cmd.passes, htarget, hmoved]
    rfl

/-- What the results about the clients assume: the host, the port, and passwords that are lines. -/
structure Endpoint (v : Vars) : Prop where
  host : v.mysqlHost = "localhost".toList
  port : PortWord v.mysqlPort
  root : '\n' ∉ v.mysqlRootPwd
  avetti : '\n' ∉ v.mysqlAvettiPwd

theorem Endpoint.passwordOf {v : Vars} (hv : Endpoint v) :
    ∀ p ∈ passwordOf v.mysqlRootPwd, '\n' ∉ p := by
  intro p hp
  rw [Avetti.passwordOf] at hp
  split_ifs at hp
  · cases hp
  · cases hp
    exact hv.root

theorem steady_listDatabases (hglob : Pathnames glob) (hv : Endpoint v) :
    Steady "localhost" v.mysqlPort path (listDatabases glob v) := by
  have hclient : (Cmd.run (mysqlClient glob v "root" (passwordOf v.mysqlRootPwd) true
      showDatabases)).IsSteady "localhost" v.mysqlPort path :=
    isSteady_mysqlClient hglob hv.host hv.port (by simp) hv.passwordOf fun h =>
      absurd h (by decide)
  have herror : ∀ c, Steady "localhost" v.mysqlPort path (ifThen c errorFound) := fun _ =>
    (spares_ifThen (spares_leave 1)).steady
  simp only [listDatabases, run_bind, capture_bind]
  refine steady_call hclient fun _ => steady_call hclient fun _ => ?_
  exact (herror _).bind fun _ => (herror _).bind fun _ => steady_pure _

theorem steady_configureMysql (hglob : Pathnames glob) (hv : Endpoint v) (hmysql : v.nomysql = true) :
    Steady "localhost" v.mysqlPort path (configureMysql glob v) := by
  have hgrant : ∀ d : Db, Steady "localhost" v.mysqlPort path (run (mysqlClient glob v "root"
      (passwordOf v.mysqlRootPwd) true (grantStatement d.name "localhost" v.mysqlAvettiPwd))) :=
    fun d => steady_run (isSteady_mysqlClient hglob hv.host hv.port (by simp) hv.passwordOf
      fun _ => ⟨d, _, rfl⟩)
  have hgrants : Steady "localhost" v.mysqlPort path (grants glob v true "localhost") :=
    (hgrant .preview).bind fun _ => (hgrant .shop).bind fun _ => (hgrant .backup).bind fun _ =>
      steady_pure _
  rw [configureMysql, hmysql, if_pos hv.host]
  exact hgrants

theorem steady_domainAliases (hglob : Pathnames glob) (hv : Endpoint v) (db : Text) :
    Steady "localhost" v.mysqlPort path (domainAliases glob v db) := by
  have hpwd : ∀ p ∈ (if v.mysqlRootPwd ≠ [] then some v.mysqlAvettiPwd else none), '\n' ∉ p := by
    intro p hp
    split_ifs at hp
    · cases hp
      exact hv.avetti
    · cases hp
  have hstatement : ∀ statement : Text, "GRANT ".toList.isPrefixOf statement = false →
      Steady "localhost" v.mysqlPort path (run (mysqlClient glob v "avetti"
        (if v.mysqlRootPwd ≠ [] then some v.mysqlAvettiPwd else none) false statement)) :=
    fun statement h => steady_run (isSteady_mysqlClient hglob hv.host hv.port (by simp) hpwd
      fun hgrant => absurd (hgrant.symm.trans h) (by decide))
  exact (hstatement _ rfl).bind fun _ => (hstatement _ rfl).bind fun _ =>
    (hstatement _ rfl).bind fun _ => (hstatement _ rfl).bind fun _ => steady_pure _

/-! ## The script before and after the grants -/

theorem spares_installBefore (h : Elsewhere path) (v : Vars) : Spares path (installBefore v) := by
  simp only [installBefore, run_bind]
  refine spares_installRequirements.bind fun _ => spares_createUsers.bind fun _ => ?_
  refine (spares_setHostname v h.host).bind fun _ => (spares_setHosts v h.host).bind fun _ => ?_
  refine spares_call (spares_sed _ h.patterns) fun _ => (spares_setSudoers h.system).bind fun _ => ?_
  refine spares_hasApt.bind fun _ => (spares_ifThen spares_linkInsserv).bind fun _ => ?_
  exact (spares_installPackages v h.system).bind fun _ => spares_pure _

theorem ensures_mysqlPortAnswer {a : Answers} (ha : IsPort a.port)
    (hport : v.mysqlPort = "3306".toList) :
    Ensures (Answered a) (· = a.portUsed) (mysqlPortAnswer glob v) := by
  simp only [mysqlPortAnswer, run_bind, ask_bind, failed_bind]
  refine ensures_call fun r hr => ensures_call fun _ _ => ensures_ite (fun hfail => ?_) fun hok => ?_
  · have hunreachable : a.reachable = false :=
      Bool.eq_false_iff.mpr fun h => of_decide_eq_true hfail ((hr rfl).mpr h)
    refine ensures_call fun answer hanswer => ?_
    rw [hanswer.2 rfl, isNonzero, if_pos ha.digits, pure_bind']
    refine ensures_ite (fun h => ensures_pure ?_) fun h => ensures_pure ?_
    · rw [Answers.portUsed, if_pos ⟨hunreachable, h⟩]
    · rw [Answers.portUsed, if_neg fun hand => h hand.2]
  · have hreachable : a.reachable = true := (hr rfl).mp (by simpa using hok)
    refine ensures_pure ?_
    rw [Answers.portUsed, if_neg fun hand => absurd (hreachable.symm.trans hand.1) (by decide), hport]

/-- What the parameters are taken to be: without the MySQL server, and with passwords that are
lines. -/
structure WithoutServer (p : Params) : Prop where
  nomysql : p.nomysql = true
  root : '\n' ∉ p.mysqlRootPwd
  avetti : '\n' ∉ p.mysqlAvettiPwd

theorem endpoint_of {p : Params} {a : Answers} (hp : WithoutServer p) (ha : IsPort a.port)
    {v : Vars} (hv : AtEndpoint p a.portUsed v.mysql) : Endpoint v := by
  obtain ⟨hparams, hhost, hport⟩ := hv
  have hparams : v.toParams = p := hparams
  have hport : v.mysqlPort = a.portUsed := hport
  exact ⟨hhost, hport ▸ portWord_portUsed ha, hparams ▸ hp.root, hparams ▸ hp.avetti⟩

/-- The commands of the script, and what it sets, up to the grants. -/
theorem triple_beforeGrants (hglob : Pathnames glob) (JAVA_HOME : Text) (args : List Text)
    (hp : WithoutServer (paramsOf glob args)) {a : Answers} (ha : IsPort a.port)
    (h : Elsewhere path) :
    Triple (Answered a) (Cmd.IsSteady "localhost" a.portUsed path)
      (fun vs => AtEndpoint (paramsOf glob args) a.portUsed vs.1.mysql ∧
        AtEndpoint (paramsOf glob args) a.portUsed vs.2.mysql) (beforeGrants glob JAVA_HOME args) := by
  have hask : Steady "localhost" a.portUsed path (ask "mysqlHost2") :=
    Spares.steady (spares_call rfl fun _ => spares_pure _)
  have hserver : Triple (Answered a) (Cmd.IsSteady "localhost" a.portUsed path)
      (fun v => AtEndpoint (paramsOf glob args) a.portUsed v.mysql)
      (mysqlServer glob (.ofParams (paramsOf glob args) JAVA_HOME)) := by
    have hmysql : (Vars.ofParams (paramsOf glob args) JAVA_HOME).nomysql = true := hp.nomysql
    unfold mysqlServer
    rw [if_pos hmysql]
    -- the answer for the host is read, and not used
    refine triple_seq hask.emits fun _ => ?_
    refine triple_bind (triple_of_emits (spares_mysqlPortAnswer glob _).steady.emits
      (ensures_mysqlPortAnswer ha rfl)) fun port hport => ?_
    obtain rfl := hport
    have hv : AtEndpoint (paramsOf glob args) a.portUsed (Vars.mysql
        { Vars.ofParams (paramsOf glob args) JAVA_HOME with
          mysqlHost := "localhost".toList, mysqlPort := a.portUsed }) := ⟨rfl, rfl, rfl⟩
    refine triple_seq (steady_listDatabases hglob (endpoint_of hp ha hv)).emits fun allDb => ?_
    exact triple_pure ⟨rfl, rfl, rfl⟩
  have hrequirements : Triple (Answered a) (Cmd.IsSteady "localhost" a.portUsed path)
      (fun v => AtEndpoint (paramsOf glob args) a.portUsed v.mysql)
      (requirements glob (.ofParams (paramsOf glob args) JAVA_HOME)) := by
    refine triple_seq spares_checkSvn.steady.emits fun _ =>
      triple_seq (spares_checkMysql _).steady.emits fun _ => ?_
    refine triple_seq (spares_checkJava _).steady.emits fun _ =>
      triple_seq spares_checkNetcat.steady.emits fun _ => ?_
    refine triple_bind hserver fun v₁ hv₁ => ?_
    refine triple_bind (triple_of_emits (spares_webServer v₁).steady.emits (ensures_webServer v₁))
      fun v₂ hv₂ => ?_
    refine triple_of_emits (spares_codeVersion glob v₂).steady.emits ?_
    exact (ensures_codeVersion glob v₂).mono fun v₃ hv₃ => by rwa [hv₃, hv₂]
  have hparameters : Triple (Answered a) (Cmd.IsSteady "localhost" a.portUsed path)
      (· = paramsOf glob args) (parameters glob args) :=
    triple_of_emits (spares_parameters glob args).steady.emits (ensures_parameters _ glob args)
  have huid : Steady "localhost" a.portUsed path (capture ["id", "-u"]) :=
    Spares.steady (spares_call rfl fun _ => spares_pure _)
  refine triple_seq huid.emits fun uid => ?_
  refine triple_seq (spares_ifThen (spares_leave 1)).steady.emits fun _ => ?_
  refine triple_bind hparameters fun p' hp' => ?_
  rw [hp']
  refine triple_bind hrequirements fun v hv => ?_
  have hinstall : Triple (Answered a) (Cmd.IsSteady "localhost" a.portUsed path)
      (fun v' => AtEndpoint (paramsOf glob args) a.portUsed v'.mysql) (installBefore v) := by
    refine triple_of_emits (spares_installBefore h v).steady.emits ?_
    iterate 8 refine ensures_seq fun _ => ?_
    exact ensures_seq fun _ => ensures_pure hv
  exact triple_bind hinstall fun v' hv' => triple_pure ⟨hv, hv'⟩

/-! ## The script after the grants -/

theorem spares_installAfter (h : Elsewhere path) (hsettings : path ≠ settingsFile) (v : Vars) :
    Spares path (installAfter v) := by
  refine (spares_configureHttpd v (h.httpd v)).bind fun _ => ?_
  refine (spares_configureTomcat v h.system).bind fun _ => spares_updateChkconfig.bind fun _ => ?_
  refine (spares_extendProfile h.system _ _).bind fun _ => ?_
  refine (spares_checkout v (h.pom _)).bind fun _ => ?_
  refine (spares_configureSettings v hsettings).bind fun _ => spares_extendProfile h.system _ _

theorem steady_compileCommerce (hglob : Pathnames glob) (hv : Endpoint v) (h : Elsewhere path) :
    Steady "localhost" v.mysqlPort path (compileCommerce glob v) := by
  have hstage : ∀ m, Steady "localhost" v.mysqlPort path (stage m) := fun m =>
    (spares_stage m).steady
  have hset : ∀ m db, Steady "localhost" v.mysqlPort path
      (stage m >>= fun _ => domainAliases glob v db) := fun m db =>
    (hstage m).bind fun _ => steady_domainAliases hglob hv db
  have hpreview : Steady "localhost" v.mysqlPort path (migratePreview glob v) := by
    rw [migratePreview]
    exact steady_ite (hstage _) (hset _ _)
  have hshop : Steady "localhost" v.mysqlPort path (migrateShop glob v) := by
    rw [migrateShop]
    exact steady_ite (hstage _) (hset _ _)
  have hbackup : Steady "localhost" v.mysqlPort path (migrateBackup glob v) := by
    rw [migrateBackup]
    exact steady_ite (hstage _) (hstage _)
  have hdeploy : Steady "localhost" v.mysqlPort path (migrateAndDeploy glob v) := by
    refine hpreview.bind fun _ => hshop.bind fun _ => hbackup.bind fun _ => ?_
    refine (hstage _).bind fun _ => (hstage _).bind fun _ => ?_
    exact (hstage _).bind fun _ => hstage _
  refine (hstage _).bind fun _ => ?_
  refine (spares_afterModuleSetup v (h.pom _)).steady.bind fun _ => ?_
  exact hdeploy.bind fun _ => steady_pure _

/-- The copies of `preview.xml` and `ROOT.xml`. -/
def contextCopies : List Text :=
  ["/avetti/tomcat/webapps/preview/META-INF/context.xml",
    "/avetti/tomcat/webapps/ROOT/META-INF/context.xml"]

theorem steady_configureContexts {host port : Text}
    (hpath : ∀ name ∈ contextNames, path ≠ contextFile name) (hcopies : path ∉ contextCopies) :
    Steady host port path (configureContexts v) := by
  have hedits : ∀ scripts, Steady host port path (editContexts scripts) := by
    intro scripts
    induction scripts with
    | nil => exact steady_pure _
    | cons script scripts ih =>
      have hsed : ∀ name ∈ contextNames,
          (Cmd.run (sed script (contextFile name))).IsSteady host port path := fun name hname =>
        isSteady_of_spares (spares_sed script (hpath name hname))
      exact steady_call (hsed _ (by simp [contextNames])) fun _ =>
        steady_call (hsed _ (by simp [contextNames])) fun _ => ih
  have hcp : ∀ src, ∀ dst ∈ contextCopies, Steady host port path (run ["cp", src, dst]) := by
    intro src dst hdst
    refine steady_run (isSteady_of_spares (spares_cp src ?_))
    rintro rfl
    exact hcopies hdst
  exact (hedits _).bind fun _ => (hcp _ _ (by simp [contextCopies])).bind fun _ =>
    (hcp _ _ (by simp [contextCopies])).bind fun _ => steady_pure _

/-- The rest of the script, but for the database connections. -/
theorem steady_finish {host port : Text} (h : Elsewhere path)
    (hpath : ∀ name ∈ contextNames, path ≠ contextFile name) (hcopies : path ∉ contextCopies)
    (coreDir : Text) : Steady host port path (finish v coreDir) := by
  refine (spares_configureSolr46 h.solr coreDir).steady.bind fun _ => ?_
  refine (spares_configureCrontab h.cron).steady.bind fun _ => ?_
  refine (steady_configureContexts hpath hcopies).bind fun _ => ?_
  exact Spares.steady (spares_call rfl fun _ => spares_ite (spares_leave 1) (spares_pure _))

end Clients

/-! ## The files of a run -/

/-- The file that `settings.xml` is copied from. -/
def settingsOriginal : Text := "/avetti/svn/settings-original.xml"

/-- The files of the database connections. -/
def connectionFiles : List Text := settingsFile :: contextNames.map contextFile

/-- What an event does to the files: those of the database connections become what its command makes
of them, and all others anything. A test for a file sees it, and `settings.xml` is copied from the
original. -/
structure FilesEffect (other : Outside) (original : Text) (e : Cmd × Reply) (s s' : Files) : Prop where
  writes : ∀ path ∈ connectionFiles, s' path = (fileSystem other s e.1).2 path
  copies : e.1 = .run ["cp", settingsOriginal, settingsFile] → s settingsOriginal = some original
  sees : ∀ path, e.1 = .test "-e" path → (e.2.status = 0 ↔ (s path).isSome = true)

/-- **What a run leaves is for the endpoint**: `settings.xml` has the host, when it is there, and
`preview.xml` and `ROOT.xml` have it unless they are left as they were. When the run returns, all
three have it. -/
structure WritesEndpoint (host port : Text) (o : Outcome Unit) (s s' : Files) : Prop where
  settings : ∀ text, s' settingsFile = some text → NamesHost (hostAndPort host port) text
  contexts : ∀ name ∈ contextNames, s' (contextFile name) = s (contextFile name) ∨
    ∃ text, s' (contextFile name) = some text ∧ ConnectsTo host port text
  returned : o = .returned () → s' settingsFile ≠ none ∧
    ∀ name ∈ contextNames, ∃ text, s' (contextFile name) = some text ∧ ConnectsTo host port text

/-- **The endpoint that was typed is used** in every run with these answers: by the clients that name
a host, by the grants, and in the files that the run leaves. -/
structure UsesAnswers (glob : Text → List Text) (JAVA_HOME : Text) (args : List Text) (a : Answers)
    (original : Text) (s : Files) : Prop where
  calls : ∀ t o, Runs (setup glob JAVA_HOME args) t o → (∀ e ∈ t, Answered a e.1 e.2) →
    ∀ e ∈ t, e.1.CallsAt a.endpointHost a.endpointPort
  files : ∀ other t o s', Runs (setup glob JAVA_HOME args) t o → (∀ e ∈ t, Answered a e.1 e.2) →
    Follows (FilesEffect other original) t s s' → WritesEndpoint a.endpointHost a.endpointPort o s s'

/-- The files before the run, and the values that are put into them, are such that the endpoint can
be put in: `preview.xml` and `ROOT.xml` have the default endpoint, and so has the original of
`settings.xml`, which is not there or has the host that was typed. -/
structure Fresh (p : Params) (a : Answers) (original : Text) (s : Files) : Prop where
  password : Inert p.mysqlAvettiPwd
  hostname : Inert p.appHostName
  original : OriginalSettings original
  settings : ∀ text, s settingsFile = some text →
    NamesHost (hostAndPort a.endpointHost a.endpointPort) text
  contexts : ∀ name ∈ contextNames,
    ∃ text, s (contextFile name) = some text ∧ ConnectsTo "localhost" "3306" text

/-! ## One file in a run -/

/-- What an event does to one file, whatever the others are. -/
structure FileEffect (other : Outside) (original path : Text) (e : Cmd × Reply)
    (x x' : Option Text) : Prop where
  writes : ∃ s : Files, s path = x ∧
    (e.1 = .run ["cp", settingsOriginal, settingsFile] → s settingsOriginal = some original) ∧
    x' = (fileSystem other s e.1).2 path
  sees : e.1 = .test "-e" path → (e.2.status = 0 ↔ x.isSome = true)

section OneFile

variable {other : Outside} {original path : Text} {S : Cmd → Reply → Prop} {P X : Option Text → Prop}
  {v : Vars}

theorem FilesEffect.one {e : Cmd × Reply} {s s' : Files} (h : FilesEffect other original e s s')
    (hpath : path ∈ connectionFiles) : FileEffect other original path e (s path) (s' path) :=
  ⟨⟨s, rfl, h.copies, h.writes path hpath⟩, h.sees path⟩

theorem FileEffect.eq_of_passes {c : Cmd} {r : Reply} {x x' : Option Text}
    (h : FileEffect other original path (c, r) x x') (hc : c.passes path = true) : x' = x := by
  obtain ⟨s, rfl, -, rfl⟩ := h.writes
  exact fileSystem_of_passes hc other s

theorem FileEffect.eq_of_sed {script : Text} {r : Reply} {x x' : Option Text}
    (h : FileEffect other original path (.run (sed script path), r) x x') :
    x' = x.map (stream other.sed script) := by
  obtain ⟨s, rfl, -, rfl⟩ := h.writes
  rw [fileSystem_sed, Files.modify, Function.update_self]

/-- A part that passes the file. -/
theorem Steady.leads {p : Sh α} {host port : Text} (hp : Steady host port path p)
    (hX : ∀ x, P x → X x) : Leads (FileEffect other original path) S P p (fun _ => P) X := by
  have htriple : Triple S (Cmd.IsSteady host port path) (fun _ => True) p :=
    triple_of_emits hp.emits fun _ _ _ _ => trivial
  exact (leads_of_triple htriple (fun _ _ _ _ hc he => he.eq_of_passes hc.2) hX).mono
    (fun _ hx => hx) (fun _ _ hx => hx.2) fun _ hx => hx

theorem Spares.leads {p : Sh α} (hp : Spares path p) (hX : ∀ x, P x → X x) :
    Leads (FileEffect other original path) S P p (fun _ => P) X :=
  Steady.leads (show Steady [] [] path p from hp.steady) hX

theorem leads_editFile (scripts : List Text) : Leads (FileEffect other original path) S
    (fun x => P (x.map (streams other.sed scripts))) (edits scripts path) (fun _ => P) X := by
  induction scripts with
  | nil =>
    refine leads_pure fun x hx => ?_
    have hid : streams other.sed [] = id := rfl
    rwa [hid, Option.map_id] at hx
  | cons script scripts ih =>
    refine leads_call (fun r x x' _ hx he => ?_) fun _ _ => ih
    rw [he.eq_of_sed, Option.map_map]
    exact hx

/-! ## settings.xml -/

/-- The file is there, and names the host. -/
def Named (host : Text) (x : Option Text) : Prop := ∃ text, x = some text ∧ NamesHost host text

/-- The file names the host, when it is there. -/
def NamedIfThere (host : Text) (x : Option Text) : Prop :=
  ∀ text, x = some text → NamesHost host text

theorem Named.ifThere {host : Text} {x : Option Text} (h : Named host x) : NamedIfThere host x := by
  rintro text rfl
  obtain ⟨text', ht, hnames⟩ := h
  obtain rfl := Option.some.inj ht
  exact hnames

/-- `settings.xml` is there, or is made from the original. -/
theorem leads_configureSettings (horiginal : OriginalSettings original) (hmysql : v.nomysql = true)
    (hhost : v.mysqlHost = "localhost".toList) (hport : PortWord v.mysqlPort)
    (hpwd : Inert v.mysqlAvettiPwd) (hname : Inert v.appHostName) :
    Leads (FileEffect other original settingsFile) S
      (NamedIfThere (hostAndPort "localhost" v.mysqlPort)) (configureSettings v)
      (fun _ => Named (hostAndPort "localhost" v.mysqlPort)) X := by
  simp only [configureSettings, fileTest_bind, run_bind]
  refine leads_call (M := fun r x => NamedIfThere (hostAndPort "localhost" v.mysqlPort) x ∧
    (r.status = 0 ↔ x.isSome = true)) (fun r x x' _ hx he => ?_) fun r _ => ?_
  · obtain rfl := he.eq_of_passes rfl
    exact ⟨hx, he.sees rfl⟩
  · refine leads_ite (fun habsent => ?_) fun hthere => leads_pure fun x hx => ?_
    · refine leads_call (M := fun _ x => x = some original) (fun _ x x' _ _ he => ?_) fun _ _ => ?_
      · obtain ⟨s, -, hcopies, rfl⟩ := he.writes
        have horiginal : s "/avetti/svn/settings-original.xml".toList = some original := hcopies rfl
        rw [fileSystem_cp, Files.copy, if_pos (by rw [horiginal]; rfl), Function.update_self]
        exact horiginal
      · -- the edits before and after the conversion of the line ends
        have hnames := horiginal.namesHost hmysql hhost hport hpwd hname other.sed
        refine leads_bind ((leads_editFile (P := fun x => Named (hostAndPort "localhost" v.mysqlPort)
          ((x.map dos2unix).map (streams other.sed (dbHostEdits v)))) _).mono (fun x hx => ?_)
          (fun _ _ hx => hx) fun _ hx => hx) fun _ => ?_
        · rw [hx]
          exact ⟨_, rfl, hnames⟩
        · refine leads_call (fun _ x x' _ hx he => ?_) fun _ _ => leads_editFile _
          obtain ⟨s, rfl, -, rfl⟩ := he.writes
          rw [fileSystem_dos2unix, Files.modify, Function.update_self]
          exact hx
    · have hstatus : r.status = 0 := by simpa using hthere
      obtain ⟨text, rfl⟩ := Option.isSome_iff_exists.mp (hx.2.mp hstatus)
      exact ⟨text, rfl, hx.1 text rfl⟩

theorem leads_installAfter (other : Outside) (S : Cmd → Reply → Prop)
    (horiginal : OriginalSettings original) (hmysql : v.nomysql = true)
    (hhost : v.mysqlHost = "localhost".toList) (hport : PortWord v.mysqlPort)
    (hpwd : Inert v.mysqlAvettiPwd) (hname : Inert v.appHostName) :
    Leads (FileEffect other original settingsFile) S
      (NamedIfThere (hostAndPort "localhost" v.mysqlPort)) (installAfter v)
      (fun _ => Named (hostAndPort "localhost" v.mysqlPort))
      (NamedIfThere (hostAndPort "localhost" v.mysqlPort)) := by
  have helse : Elsewhere settingsFile := elsewhere_settingsFile
  have hspares : ∀ {p : Sh Unit}, Spares settingsFile p →
      Leads (FileEffect other original settingsFile) S
        (NamedIfThere (hostAndPort "localhost" v.mysqlPort)) p
        (fun _ => NamedIfThere (hostAndPort "localhost" v.mysqlPort))
        (NamedIfThere (hostAndPort "localhost" v.mysqlPort)) := fun hp => hp.leads fun _ hx => hx
  refine leads_bind (hspares (spares_configureHttpd v (helse.httpd v))) fun _ => ?_
  refine leads_bind (hspares (spares_configureTomcat v helse.system)) fun _ => ?_
  refine leads_bind (hspares spares_updateChkconfig) fun _ => ?_
  refine leads_bind (hspares (spares_extendProfile helse.system _ _)) fun _ => ?_
  refine leads_bind (hspares (spares_checkout v (helse.pom _))) fun _ => ?_
  -- the one step that writes `settings.xml`
  refine leads_bind (leads_configureSettings horiginal hmysql hhost hport hpwd hname) fun _ => ?_
  exact (spares_extendProfile helse.system _ _).leads fun _ hx => hx.ifThere

/-! ## preview.xml and ROOT.xml -/

/-- The file is there, and has the endpoint in its connections. -/
def Connected (host port : Text) (x : Option Text) : Prop :=
  ∃ text, x = some text ∧ ConnectsTo host port text

theorem contextFile_inj : contextFile "preview.xml" ≠ contextFile "ROOT.xml" := by decide

theorem leads_editContexts {name : Text} (hname : name ∈ contextNames) (scripts : List Text) :
    Leads (FileEffect other original (contextFile name)) S
      (fun x => P (x.map (streams other.sed scripts))) (editContexts scripts) (fun _ => P) X := by
  induction scripts with
  | nil =>
    refine leads_pure fun x hx => ?_
    have hid : streams other.sed [] = id := rfl
    rwa [hid, Option.map_id] at hx
  | cons script scripts ih =>
    have hpasses : ∀ {file : Text} {r : Reply} {x x' : Option Text}, contextFile name ≠ file →
        FileEffect other original (contextFile name) (.run (sed script file), r) x x' → x' = x :=
      fun hne he => he.eq_of_passes (Bool.and_eq_true_iff.mp (spares_sed script hne)).2
    simp only [editContexts, run_bind]
    simp only [contextNames, List.mem_cons, List.not_mem_nil, or_false] at hname
    -- the script is run on the two files, and one of the two calls passes the file
    rcases hname with rfl | rfl
    · refine leads_call (M := fun _ x => P (x.map (streams other.sed scripts)))
        (fun r x x' _ hx he => ?_) fun _ _ => leads_call (fun r x x' _ hx he => ?_) fun _ _ => ih
      · rw [he.eq_of_sed, Option.map_map]
        exact hx
      · rwa [hpasses contextFile_inj he]
    · refine leads_call (M := fun _ x => P (x.map (streams other.sed (script :: scripts))))
        (fun r x x' _ hx he => ?_) fun _ _ => leads_call (fun r x x' _ hx he => ?_) fun _ _ => ih
      · rwa [hpasses contextFile_inj.symm he]
      · rw [he.eq_of_sed, Option.map_map]
        exact hx

/-- The file that had the default endpoint gets the one of the run. -/
theorem leads_configureContexts (other : Outside) (original : Text) (S : Cmd → Reply → Prop)
    (X : Option Text → Prop) {name : Text} (hname : name ∈ contextNames) (hmysql : v.nomysql = true)
    (hhost : v.mysqlHost = "localhost".toList) (hport : PortWord v.mysqlPort)
    (hpwd : Inert v.mysqlAvettiPwd) :
    Leads (FileEffect other original (contextFile name)) S (Connected "localhost" "3306")
      (configureContexts v) (fun _ => Connected "localhost" v.mysqlPort) X := by
  have hcp : ∀ src dst : Text, contextFile name ≠ dst → ∀ {r : Reply} {x x' : Option Text},
      FileEffect other original (contextFile name) (.run ["cp", src, dst], r) x x' → x' = x :=
    fun src dst hne _ _ _ he => he.eq_of_passes (Bool.and_eq_true_iff.mp (spares_cp src hne)).2
  have hcopies : ∀ name ∈ contextNames, ∀ dst ∈ contextCopies, contextFile name ≠ dst := by decide
  have hedits : Leads (FileEffect other original (contextFile name)) S (Connected "localhost" "3306")
      (editContexts (contextEdits v)) (fun _ => Connected "localhost" v.mysqlPort) X := by
    refine (leads_editContexts hname _).mono (fun x hx => ?_) (fun _ _ hx => hx) fun _ hx => hx
    obtain ⟨text, rfl, hconnects⟩ := hx
    exact ⟨_, rfl, hconnects.streams hmysql hhost hport hpwd⟩
  simp only [configureContexts, run_bind]
  -- after the edits the two files are copied, to other places
  refine leads_bind hedits fun _ => leads_call (M := fun _ => Connected "localhost" v.mysqlPort)
    (fun r x x' _ hx he => ?_) fun _ _ => leads_call (M := fun _ => Connected "localhost" v.mysqlPort)
    (fun r x x' _ hx he => ?_) fun _ _ => leads_pure fun _ hx => hx
  · rwa [hcp _ _ (hcopies name hname _ (by simp [contextCopies])) he]
  · rwa [hcp _ _ (hcopies name hname _ (by simp [contextCopies])) he]

end OneFile

/-! ## Runs of the script -/

section Runs

variable {glob : Text → List Text} {JAVA_HOME : Text} {args : List Text} {a : Answers}

/-- The clients of a run use this host, and the port that the script reads from the answers. -/
theorem callsAt_run (hglob : Pathnames glob) (hp : WithoutServer (paramsOf glob args))
    (ha : IsPort a.port) {t : Trace} {o : Outcome Unit}
    (h : Runs (setup glob JAVA_HOME args) t o) (ht : ∀ e ∈ t, Answered a e.1 e.2) :
    ∀ e ∈ t, e.1.CallsAt "localhost" a.portUsed := by
  have hcontexts : ∀ name ∈ contextNames, ([] : Text) ≠ contextFile name := by decide
  have htriple : Triple (Answered a) (Cmd.IsSteady "localhost" a.portUsed []) (fun _ => True)
      (setup glob JAVA_HOME args) := by
    rw [setup_eq_grants]
    refine triple_bind (triple_beforeGrants hglob JAVA_HOME args hp ha elsewhere_nil) fun vs hvs => ?_
    -- `installBefore` changes variables, but none of the endpoint
    have hend₁ : Endpoint vs.1 := endpoint_of hp ha hvs.1
    have hend₂ : Endpoint vs.2 := endpoint_of hp ha hvs.2
    have hmysql : vs.2.nomysql = true := (congrArg Params.nomysql hvs.2.params).trans hp.nomysql
    have hport₁ : vs.1.mysqlPort = a.portUsed := hvs.1.port
    have hport₂ : vs.2.mysqlPort = a.portUsed := hvs.2.port
    have hgrants : Steady "localhost" a.portUsed [] (configureMysql glob vs.2) :=
      hport₂ ▸ steady_configureMysql hglob hend₂ hmysql
    have hinstall : Steady "localhost" a.portUsed [] (installAfter vs.2) :=
      (spares_installAfter elsewhere_nil (by decide) vs.2).steady
    have hcompile : Steady "localhost" a.portUsed [] (compileCommerce glob vs.1) :=
      hport₁ ▸ steady_compileCommerce hglob hend₁ elsewhere_nil
    have hafter : Steady "localhost" a.portUsed [] (afterGrants glob vs) :=
      hinstall.bind fun _ => hcompile.bind fun coreDir =>
        steady_finish elsewhere_nil hcontexts (by decide) coreDir
    exact triple_of_emits (hgrants.bind fun _ => hafter).emits fun _ _ _ _ => trivial
  exact fun e he => ((htriple t o h ht).1 e he).1

/-- What the variables are at the grants, for a file that the parts before them pass. -/
theorem leads_beforeGrants {other : Outside} {original path : Text} {P X : Option Text → Prop}
    (hglob : Pathnames glob) (hp : WithoutServer (paramsOf glob args)) (ha : IsPort a.port)
    (hpath : Elsewhere path) (hX : ∀ x, P x → X x) :
    Leads (FileEffect other original path) (Answered a) P (beforeGrants glob JAVA_HOME args)
      (fun vs x => (AtEndpoint (paramsOf glob args) a.portUsed vs.1.mysql ∧
        AtEndpoint (paramsOf glob args) a.portUsed vs.2.mysql) ∧ P x) X :=
  leads_of_triple (triple_beforeGrants hglob JAVA_HOME args hp ha hpath)
    (fun _ _ _ _ hc he => he.eq_of_passes hc.2) hX

/-- What a run makes of `settings.xml`. -/
theorem leads_setup_settings {other : Outside} {original : Text} (hglob : Pathnames glob)
    (hp : WithoutServer (paramsOf glob args)) (ha : IsPort a.port)
    (horiginal : OriginalSettings original) (hpwd : Inert (paramsOf glob args).mysqlAvettiPwd)
    (hname : Inert (paramsOf glob args).appHostName) :
    Leads (FileEffect other original settingsFile) (Answered a)
      (NamedIfThere (hostAndPort "localhost" a.portUsed)) (setup glob JAVA_HOME args)
      (fun _ => Named (hostAndPort "localhost" a.portUsed))
      (NamedIfThere (hostAndPort "localhost" a.portUsed)) := by
  have hcontext : ∀ name ∈ contextNames, settingsFile ≠ contextFile name := by decide
  rw [setup_eq_grants]
  refine leads_bind (leads_beforeGrants hglob hp ha elsewhere_settingsFile fun _ hx => hx) fun vs =>
    leads_of_imp (fun _ hx => hx.1) fun hvs => ?_
  have hend₁ : Endpoint vs.1 := endpoint_of hp ha hvs.1
  have hend₂ : Endpoint vs.2 := endpoint_of hp ha hvs.2
  have hparams : vs.2.toParams = paramsOf glob args := hvs.2.params
  have hport : vs.2.mysqlPort = a.portUsed := hvs.2.port
  have hmysql : vs.2.nomysql = true := (congrArg Params.nomysql hparams).trans hp.nomysql
  have hinstall := leads_installAfter other (Answered a) horiginal hmysql hend₂.host hend₂.port
    (hparams ▸ hpwd) (hparams ▸ hname)
  rw [hport] at hinstall
  -- only `installAfter` writes the file
  refine leads_bind (((steady_configureMysql hglob hend₂ hmysql).leads fun _ hx => hx).mono
    (fun _ hx => hx.2) (fun _ _ hx => hx) fun _ hx => hx) fun _ => leads_bind hinstall fun _ => ?_
  refine leads_bind ((steady_compileCommerce hglob hend₁ elsewhere_settingsFile).leads
    fun _ hx => hx.ifThere) fun coreDir => ?_
  have hfinish : Steady [] [] settingsFile (finish vs.1 coreDir) :=
    steady_finish elsewhere_settingsFile hcontext (by decide) coreDir
  exact hfinish.leads fun _ hx => hx.ifThere

/-- What a run makes of `preview.xml` and `ROOT.xml`. -/
theorem leads_setup_context {other : Outside} {original : Text} {x₀ : Option Text}
    (hglob : Pathnames glob) (hp : WithoutServer (paramsOf glob args)) (ha : IsPort a.port)
    (hpwd : Inert (paramsOf glob args).mysqlAvettiPwd) {name : Text} (hname : name ∈ contextNames)
    (hx₀ : Connected "localhost" "3306" x₀) :
    Leads (FileEffect other original (contextFile name)) (Answered a) (· = x₀)
      (setup glob JAVA_HOME args) (fun _ => Connected "localhost" a.portUsed)
      (fun x => x = x₀ ∨ Connected "localhost" a.portUsed x) := by
  have helse : Elsewhere (contextFile name) := elsewhere_contextFile hname
  have hsettings : ∀ name ∈ contextNames, contextFile name ≠ settingsFile := by decide
  rw [setup_eq_grants]
  refine leads_bind (leads_beforeGrants hglob hp ha helse fun _ => Or.inl) fun vs =>
    leads_of_imp (fun _ hx => hx.1) fun hvs => ?_
  have hend₁ : Endpoint vs.1 := endpoint_of hp ha hvs.1
  have hend₂ : Endpoint vs.2 := endpoint_of hp ha hvs.2
  have hparams : vs.1.toParams = paramsOf glob args := hvs.1.params
  have hport : vs.1.mysqlPort = a.portUsed := hvs.1.port
  have hmysql₁ : vs.1.nomysql = true := (congrArg Params.nomysql hparams).trans hp.nomysql
  have hmysql₂ : vs.2.nomysql = true := (congrArg Params.nomysql hvs.2.params).trans hp.nomysql
  -- nothing before the contexts are configured writes the file
  refine leads_bind (((steady_configureMysql hglob hend₂ hmysql₂).leads fun _ => Or.inl).mono
    (fun _ hx => hx.2) (fun _ _ hx => hx) fun _ hx => hx) fun _ => ?_
  refine leads_bind ((spares_installAfter helse (hsettings name hname) vs.2).leads fun _ => Or.inl)
    fun _ => ?_
  refine leads_bind ((steady_compileCommerce hglob hend₁ helse).leads fun _ => Or.inl)
    fun coreDir => ?_
  refine leads_bind ((spares_configureSolr46 helse.solr coreDir).leads fun _ => Or.inl) fun _ => ?_
  refine leads_bind ((spares_configureCrontab helse.cron).leads fun _ => Or.inl) fun _ => ?_
  have hcontexts := leads_configureContexts other original (Answered a)
    (fun x => x = x₀ ∨ Connected "localhost" a.portUsed x) hname hmysql₁ hend₁.host hend₁.port
    (hparams ▸ hpwd)
  rw [hport] at hcontexts
  refine leads_bind (hcontexts.mono (fun x hx => hx ▸ hx₀) (fun _ _ hx => hx) fun _ hx => hx)
    fun _ => ?_
  have hend : Spares (contextFile name) (do
      if ¬ (← fileTest "-e" "/avetti/tomcat/webapps/preview/WEB-INF/classes") then leave 1) :=
    spares_call rfl fun _ => spares_ite (spares_leave 1) (spares_pure _)
  exact hend.leads fun _ => Or.inr

/-- **The endpoint that a run writes**, from fresh files. -/
theorem writesEndpoint_run (hglob : Pathnames glob) (hp : WithoutServer (paramsOf glob args))
    (ha : IsPort a.port) {other : Outside} {original : Text} {s s' : Files}
    (hpwd : Inert (paramsOf glob args).mysqlAvettiPwd) (hname : Inert (paramsOf glob args).appHostName)
    (horiginal : OriginalSettings original)
    (hsettings : NamedIfThere (hostAndPort "localhost" a.portUsed) (s settingsFile))
    (hcontexts : ∀ name ∈ contextNames, Connected "localhost" "3306" (s (contextFile name)))
    {t : Trace} {o : Outcome Unit} (h : Runs (setup glob JAVA_HOME args) t o)
    (ht : ∀ e ∈ t, Answered a e.1 e.2) (hfollows : Follows (FilesEffect other original) t s s') :
    WritesEndpoint "localhost" a.portUsed o s s' := by
  have hone : ∀ path ∈ connectionFiles,
      Follows (FileEffect other original path) t (s path) (s' path) := fun path hpath =>
    hfollows.map (g := fun s => s path) fun _ _ _ he => he.one hpath
  have hrun := leads_setup_settings hglob hp ha horiginal hpwd hname t o _ _ hsettings h ht
    (hone settingsFile List.mem_cons_self)
  have hruns := fun name (hname : name ∈ contextNames) =>
    leads_setup_context hglob hp ha hpwd hname (hcontexts name hname) t o _ _ rfl h ht
      (hone _ (List.mem_cons_of_mem _ (List.mem_map_of_mem hname)))
  cases o with
  | returned u =>
    refine ⟨hrun.ifThere, fun name hname => Or.inr (hruns name hname), fun _ => ⟨?_, hruns⟩⟩
    obtain ⟨text, htext, -⟩ := hrun
    simp [htext]
  | exited n => exact ⟨hrun, hruns, nofun⟩

/-- The replies of a run with these answers in which everything else succeeds. -/
def answeringReplies (a : Answers) : Cmd → Reply
  | .read var => ⟨0, if var = "mysqlHost2".toList then a.host
      else if var = "mysqlPort2".toList then a.port else "y"⟩
  | .run ws => if ws.head? = some "nc".toList then ⟨if a.reachable then 0 else 1, []⟩
      else succeeding [] (.run ws)
  | _ => ⟨0, []⟩

theorem answered_replies (a : Answers) (c : Cmd) : Answered a c (answeringReplies a c) := by
  have hport : "mysqlPort2".toList ≠ "mysqlHost2".toList := by decide
  cases c with
  | read var =>
    refine ⟨?_, ?_⟩
    · rintro rfl
      rw [answeringReplies, if_pos rfl]
    · rintro rfl
      rw [answeringReplies, if_neg hport, if_pos rfl]
  | run ws =>
    intro hnc
    rw [answeringReplies, if_pos hnc]
    cases a.reachable <;> simp
  | _ => trivial

/-- The parameters ask nothing about the MySQL server. -/
theorem answered_parameters (glob : Text → List Text) (args : List Text) :
    Emits (Answered a) (parameters glob args) := by
  have htest : ∀ ws, Emits (Answered a) (test ws) := by
    intro ws
    unfold test
    split
    · trivial
    · trivial
    · exact emits_ite (emits_call (fun _ => trivial) fun _ => trivial) trivial
    · trivial
    · trivial
  have hread : ∀ r, Answered a (.read "answer2") r := fun r =>
    ⟨fun h => absurd h (by decide), fun h => absurd h (by decide)⟩
  have hoptions : Emits (Answered a) (optionsAccepted args) :=
    emits_bind (htest _) fun _ => emits_ite trivial (emits_ite trivial (emits_ite trivial trivial))
  simp only [parameters, ask_bind]
  refine emits_bind hoptions fun _ => emits_ite ?_ trivial
  iterate 3 refine emits_bind (htest _) fun _ => ?_
  refine emits_call hread fun _ => emits_bind (htest _) fun _ => emits_ite trivial ?_
  exact emits_bind (htest _) fun _ => emits_ite trivial trivial

/-- The client that lists the databases. -/
def listingClient (glob : Text → List Text) (p : Params) (JAVA_HOME port : Text) : List Text :=
  mysqlClient glob { Vars.ofParams p JAVA_HOME with
    mysqlHost := "localhost".toList, mysqlPort := port } "root" (passwordOf p.mysqlRootPwd) true
    showDatabases

/-- The run comes to the client that lists the databases. -/
theorem meets_requirements (glob : Text → List Text) (JAVA_HOME : Text) {p : Params}
    (hmysql : p.nomysql = true) (ha : IsPort a.port) :
    Meets (answeringReplies a) (· = .run (listingClient glob p JAVA_HOME a.portUsed))
      (requirements glob (.ofParams p JAVA_HOME)) := by
  -- a check whose command succeeds goes on
  have hcheck : ∀ (ws : List Text) (ch : Check) (k : Bool → Sh Unit),
      (answeringReplies a (.run ws)).status = 0 →
        Returns (answeringReplies a) (fun _ => True) (k false) →
          Returns (answeringReplies a) (fun _ => True) (run ws >>= fun status =>
            failed ch status >>= k) := by
    intro ws ch k hstatus hk
    refine returns_call (returns_call ?_)
    rw [hstatus]
    exact hk
  have hnot : ∀ {c : Bool} {q : Sh Unit}, Returns (answeringReplies a) (fun _ => True) q →
      Returns (answeringReplies a) (fun _ => True) (ifThen c q) := by
    intro c q hq
    cases c
    · exact returns_pure trivial
    · exact hq
  have hjavac : (answeringReplies a (.run [JAVA_HOME ++ "/bin/javac".toList, "-version"])).status
      = 0 := by
    have hhead : some (JAVA_HOME ++ "/bin/javac".toList) ≠ some "nc".toList := fun h =>
      javac_ne JAVA_HOME (by decide) (Option.some.inj h)
    rw [answeringReplies, List.head?_cons, if_neg hhead]
    rfl
  have hsvn : Returns (answeringReplies a) (fun _ => True) checkSvn :=
    hcheck _ _ _ rfl (returns_pure trivial)
  have hclient : Returns (answeringReplies a) (fun _ => True) (checkMysql (.ofParams p JAVA_HOME)) :=
    hnot (hcheck _ _ _ rfl (returns_pure trivial))
  have hjava : Returns (answeringReplies a) (fun _ => True) (checkJava (.ofParams p JAVA_HOME)) :=
    hnot (hcheck _ _ _ hjavac (returns_pure trivial))
  have hnetcat : Returns (answeringReplies a) (fun _ => True) checkNetcat :=
    hcheck _ _ _ rfl (returns_pure trivial)
  have hport : ∀ v : Vars, v.mysqlPort = "3306".toList →
      Returns (answeringReplies a) (· = a.portUsed) (mysqlPortAnswer glob v) := by
    intro v hv
    have hreturns : Returns (answeringReplies a) (fun _ => True) (mysqlPortAnswer glob v) := by
      simp only [mysqlPortAnswer, run_bind, ask_bind, failed_bind]
      refine returns_call (returns_call ?_)
      split_ifs
      · refine returns_call ?_
        rw [((answered_replies a (.read "mysqlPort2")).2 rfl), isNonzero, if_pos ha.digits,
          pure_bind']
        split_ifs
        · exact returns_pure trivial
        · exact returns_pure trivial
      · exact returns_pure trivial
    exact hreturns.ensures (ensures_mysqlPortAnswer ha hv) (answered_replies a)
  have hlist : ∀ v : Vars, Meets (answeringReplies a)
      (· = .run (mysqlClient glob v "root" (passwordOf v.mysqlRootPwd) true showDatabases))
      (listDatabases glob v) := fun v => meets_call_here (F := (· = _)) rfl _
  refine meets_bind hsvn fun _ _ => meets_bind hclient fun _ _ => ?_
  refine meets_bind hjava fun _ _ => meets_bind hnetcat fun _ _ => ?_
  refine Meets.bind ?_ _
  unfold mysqlServer
  rw [if_pos (show (Vars.ofParams p JAVA_HOME).nomysql = true from hmysql), ask_bind]
  refine meets_call (meets_bind (hport _ rfl) fun port hp => ?_)
  rw [hp]
  exact (hlist _).bind _

/-- For accepted arguments there is a run with these answers that lists the databases. -/
theorem exists_run_listing (JAVA_HOME : Text) (hp : WithoutServer (paramsOf glob args)) (ha : IsPort a.port)
    (hargs : ∃ p, Reaches (parameters glob args) p) :
    ∃ t o, Runs (setup glob JAVA_HOME args) t o ∧ (∀ e ∈ t, Answered a e.1 e.2) ∧
      ∃ r, (.run (listingClient glob (paramsOf glob args) JAVA_HOME a.portUsed), r) ∈ t := by
  obtain ⟨p, t, ht⟩ := hargs
  obtain rfl : p = paramsOf glob args :=
    ensures_parameters (fun _ _ => True) glob args t p ht fun _ _ => trivial
  obtain ⟨u, o, hu, hreplies, ⟨c, r⟩, hmem, rfl⟩ :=
    (meets_requirements glob JAVA_HOME hp.nomysql ha).bind fun v =>
      install glob v >>= fun _ => compileCommerce glob v >>= fun coreDir => finish v coreDir
  have hrun : Runs (setup glob JAVA_HOME args) ((.run ["id", "-u"], ⟨0, "0"⟩) :: (t ++ u)) o := by
    rw [setup, capture_bind]
    refine .call _ ?_
    exact ht.bind hu
  refine ⟨_, o, hrun, fun e he => ?_, r, ?_⟩
  · rcases List.mem_cons.mp he with rfl | he
    · exact fun h => absurd h (by decide)
    · rcases List.mem_append.mp he with he | he
      · exact ht.emits (answered_parameters glob args) e he
      · rw [hreplies e he]
        exact answered_replies a e.1
  · exact List.mem_cons_of_mem _ (List.mem_append_right _ hmem)

/-- The endpoint that a run uses, when it lists the databases, is the only one. -/
theorem endpoint_of_calls (hglob : Pathnames glob) (hp : WithoutServer (paramsOf glob args))
    (ha : IsPort a.port) {host port : Text}
    (h : (Cmd.run (listingClient glob (paramsOf glob args) JAVA_HOME a.portUsed)).CallsAt host port) :
    host = "localhost".toList ∧ port = a.portUsed := by
  have hv : Endpoint { Vars.ofParams (paramsOf glob args) JAVA_HOME with
      mysqlHost := "localhost".toList, mysqlPort := a.portUsed } :=
    endpoint_of hp ha ⟨rfl, rfl, rfl⟩
  obtain ⟨hhost, hport⟩ := clientOption_mysqlClient hglob hv.host hv.port
    (show "root".toList ≠ [] by simp) hv.passwordOf true showDatabases
  obtain ⟨h₁, h₂⟩ := h.1 rfl _ hhost
  rw [listingClient] at h₂
  exact ⟨h₁.symm, Option.some.inj (h₂.symm.trans hport)⟩

end Runs

/-! ## When the endpoint that was typed is used -/

/-- The answers that the script follows: the host is this one, and the shell reads the port, when it
is asked for, as a number other than zero. -/
def Followed (a : Answers) : Prop :=
  (a.host = [] ∨ a.host = "localhost".toList) ∧
    (a.reachable = true ∨ a.port = [] ∨ (shellNumber a.port).any (· ≠ 0) = true)

instance (a : Answers) : Decidable (Followed a) := inferInstanceAs (Decidable (_ ∧ _))

theorem endpointHost_eq_iff (a : Answers) :
    a.endpointHost = "localhost".toList ↔ a.host = [] ∨ a.host = "localhost".toList := by
  rw [Answers.endpointHost]
  split_ifs with h
  · simp [h]
  · simp [h]

theorem endpointPort_eq_iff (a : Answers) : a.endpointPort = a.portUsed ↔
    a.reachable = true ∨ a.port = [] ∨ (shellNumber a.port).any (· ≠ 0) = true := by
  have hempty : (shellNumber []).any (· ≠ 0) = false := by decide
  have hdefault : (shellNumber "3306").any (· ≠ 0) = true := by decide
  rw [Answers.endpointPort, Answers.portUsed]
  cases hreachable : a.reachable with
  | true => simp
  | false =>
    by_cases hport : a.port = []
    · rw [hport, hempty]
      simp
    · rw [if_neg (by simp [hport])]
      cases hnumber : (shellNumber a.port).any (· ≠ 0) with
      | true => simp
      | false =>
        -- the default port is a number other than zero
        have hne : a.port ≠ "3306".toList := by
          intro h
          rw [h, hdefault] at hnumber
          cases hnumber
        simpa [hport] using hne

theorem withoutServer_paramsOf {glob : Text → List Text} {args : List Text}
    (hlines : PathnameLines glob) (hmysql : (paramsOf glob args).nomysql = true) :
    WithoutServer (paramsOf glob args) := by
  obtain ⟨hroot, havetti⟩ := newline_not_mem_bindValues (newline_not_mem_values hlines args)
  exact ⟨hmysql, hroot, havetti⟩

/-- **The endpoint of the database**: for accepted arguments without the MySQL server, and fresh
files, the endpoint that was typed is used in every run exactly when the script follows the answers. -/
theorem usesAnswers_iff (glob : Text → List Text) (hglob : Pathnames glob)
    (hlines : PathnameLines glob) (JAVA_HOME : Text) (args : List Text)
    (hargs : ∃ p, Reaches (parameters glob args) p) (hmysql : (paramsOf glob args).nomysql = true)
    (a : Answers) (ha : IsPort a.port) (original : Text) (s : Files)
    (hfresh : Fresh (paramsOf glob args) a original s) :
    UsesAnswers glob JAVA_HOME args a original s ↔ Followed a := by
  have hp := withoutServer_paramsOf hlines hmysql
  rw [Followed, ← endpointHost_eq_iff, ← endpointPort_eq_iff]
  constructor
  · -- one run that lists the databases shows the endpoint
    intro h
    obtain ⟨t, o, hrun, ht, r, hmem⟩ := exists_run_listing JAVA_HOME hp ha hargs
    exact endpoint_of_calls hglob hp ha (h.calls t o hrun ht _ hmem)
  · rintro ⟨hhost, hport⟩
    have hsettings : NamedIfThere (hostAndPort "localhost" a.portUsed) (s settingsFile) := by
      rw [← hhost, ← hport]
      exact hfresh.settings
    refine ⟨fun t o hrun ht => ?_, fun other t o s' hrun ht hfollows => ?_⟩
    · rw [hhost, hport]
      exact callsAt_run hglob hp ha hrun ht
    · rw [hhost, hport]
      exact writesEndpoint_run hglob hp ha hfresh.password hfresh.hostname hfresh.original hsettings
        hfresh.contexts hrun ht hfollows

theorem pathnameLines_empty : PathnameLines fun _ => [] := by
  intro w path hpath
  cases hpath

/-- A text for `settings.xml`. -/
def sampleSettings : Text := "<settings>".toList ++ (dbHost "localhost" ++ "</settings>".toList)

/-- The files of the repository, before the first run. -/
def repositoryFiles : Files := fun path =>
  if path ∈ contextNames.map contextFile then some (contextText "mysql.password" "localhost:3306")
  else none

theorem fresh_repositoryFiles (a : Answers) :
    Fresh (paramsOf (fun _ => []) ["--nomysql"]) a sampleSettings repositoryFiles := by
  have hlacks : ∀ t ∈ ["<settings>".toList, "</settings>".toList],
      (Regex.plain dbHostTag).finds t = false ∧ ¬ Text.Occurs "<dbC:/" t := by decide
  obtain ⟨htag₁, hdrive₁⟩ := hlacks "<settings>" (by simp)
  obtain ⟨htag₂, hdrive₂⟩ := hlacks "</settings>" (by simp)
  refine ⟨by decide, by decide, ⟨_, _, rfl, ⟨htag₁, hdrive₁⟩, ⟨htag₂, hdrive₂⟩⟩, fun text h => ?_,
    fun name hname => ?_⟩
  · have hnone : repositoryFiles settingsFile = none := if_neg (by decide)
    rw [hnone] at h
    cases h
  · have hendpoint : "localhost:3306".toList = "localhost".toList ++ ":".toList ++ "3306".toList := by
      decide
    exact ⟨_, if_pos (List.mem_map_of_mem hname), "mysql.password", by decide,
      congrArg (contextText "mysql.password") hendpoint⟩

theorem usesAnswers_iff_nomysql :
    UsesAnswers (fun _ => []) [] ["--nomysql"] ⟨"localhost", "3307", false⟩ sampleSettings
        repositoryFiles ↔
      Followed ⟨"localhost", "3307", false⟩ :=
  usesAnswers_iff _ pathnames_empty pathnameLines_empty _ _ reaches_parameters_nomysql
    (by decide) _ (by decide) _ _ (fresh_repositoryFiles _)

/-- The host that was typed is not used. -/
theorem not_usesAnswers_host :
    ¬ UsesAnswers (fun _ => []) [] ["--nomysql"] ⟨"db.example.com", [], true⟩ sampleSettings
      repositoryFiles := by
  intro h
  have hp : WithoutServer (paramsOf (fun _ => []) ["--nomysql"]) :=
    withoutServer_paramsOf pathnameLines_empty (by decide)
  obtain ⟨t, o, hrun, ht, r, hmem⟩ :=
    exists_run_listing [] (a := ⟨"db.example.com", [], true⟩) hp (by decide)
      reaches_parameters_nomysql
  have hhost := (endpoint_of_calls pathnames_empty hp (by decide) (h.calls t o hrun ht _ hmem)).1
  exact absurd hhost (by decide)

end Avetti
