import Avetti.Setup.Checkout
import Avetti.Setup.Footprint
import Avetti.Script.Gate

/-!
# The files that setup.sh writes

Every redirection of `setup.sh`, and every `sed`, `cp` and `mv`, names the file it writes. Apart from
the configuration of the web server and the `pom.xml` of the version, these files are fixed; some of
them are written by the last part of the script only.

## Main definitions

* `Leaves path p`: no command of `p` writes the file
* `earlyFiles v`: the files that are written up to the end of the compilation
* `finalFiles`: the files that are written after the compilation
* `FromAnswers glob t v`: the path of the web server and the version are the default ones, or as they
  were typed in the run `t`

## Main results

* `leaves_requirements`: the requirements write no file
* `leaves_toFinish`, `leaves_finish`: the files of the two parts of the script
* `written_setup`: a run writes these files only
-/

open Script

namespace Avetti

variable {α β : Type} {path : Text}

/-- The files that are written up to the end of the compilation. -/
def earlyFiles (v : Vars) : List Text :=
  hostFiles ++ systemFiles ++ [contextFile "solr-*.xml", settingsFile] ++ httpdFiles v ++
    [pomFile v.code_to_install]

/-- The files that are written after the compilation. -/
def finalFiles : List Text :=
  ["/avetti/solr46/preview-solr", "/avetti/solr46/shop-solr", "/etc/logrotate.d/tomcat", "cron.tmp",
    contextFile "preview.xml", contextFile "ROOT.xml",
    "/avetti/tomcat/webapps/preview/META-INF/context.xml",
    "/avetti/tomcat/webapps/ROOT/META-INF/context.xml"]

/-! ## Scripts that leave a file -/

/-- No command of the script writes the file. -/
def Leaves (path : Text) (p : Sh α) : Prop := Emits (fun c _ => c.target ≠ some path) p

theorem Spares.leaves {p : Sh α} (hp : Spares path p) : Leaves path p := by
  refine Emits.mono (fun c _ hc => ?_) hp
  have hpasses : c.passes path = true := (Bool.and_eq_true_iff.mp hc).2
  exact of_decide_eq_true (Bool.and_eq_true_iff.mp hpasses).1

theorem Leaves.bind {p : Sh α} {q : α → Sh β} (hp : Leaves path p) (hq : ∀ a, Leaves path (q a)) :
    Leaves path (p >>= q) := emits_bind hp hq

theorem leaves_ite {c : Prop} [Decidable c] {p q : Sh α} (hp : Leaves path p)
    (hq : Leaves path q) : Leaves path (if c then p else q) := emits_ite hp hq

/-- A command that writes no file. -/
theorem leaves_call {c : Cmd} {k : Reply → Sh α} (hc : c.target = none)
    (hk : ∀ r, Leaves path (k r)) : Leaves path (call c k) := by
  refine emits_call (fun _ => ?_) hk
  rw [hc]
  exact nofun

theorem leaves_call_sed (script : Text) {file : Text} (hfile : path ≠ file) (k : Reply → Sh α)
    (hk : ∀ r, Leaves path (k r)) : Leaves path (call (.run (sed script file)) k) :=
  emits_call (fun _ h => hfile (Option.some.inj h).symm) hk

theorem leaves_call_cp (src : Text) {file : Text} (hfile : path ≠ file) (k : Reply → Sh α)
    (hk : ∀ r, Leaves path (k r)) : Leaves path (call (.run ["cp", src, file]) k) :=
  emits_call (fun _ h => hfile (Option.some.inj h).symm) hk

/-! ## The parts of the script -/

section Parts

variable (glob : Text → List Text) (v : Vars)

theorem leaves_mysqlServer : Leaves path (mysqlServer glob v) := by
  have hlist : ∀ v : Vars, Leaves path (listDatabases glob v) := by
    intro v
    simp only [listDatabases, run_bind, capture_bind]
    refine leaves_call rfl fun _ => leaves_call rfl fun _ => ?_
    refine (spares_ifThen (spares_leave 1)).leaves.bind fun _ => ?_
    exact (spares_ifThen (spares_leave 1)).leaves.bind fun _ => (spares_pure _).leaves
  simp only [mysqlServer, ask_bind]
  refine leaves_ite (leaves_call rfl fun _ => ?_) (spares_pure _).leaves
  refine (spares_mysqlPortAnswer glob _).leaves.bind fun _ => ?_
  exact (hlist _).bind fun _ => (spares_pure _).leaves

/-- **The requirements write no file.** -/
theorem leaves_requirements : Leaves path (requirements glob v) := by
  refine spares_checkSvn.leaves.bind fun _ => (spares_checkMysql v).leaves.bind fun _ => ?_
  refine (spares_checkJava v).leaves.bind fun _ => spares_checkNetcat.leaves.bind fun _ => ?_
  refine (leaves_mysqlServer glob v).bind fun v => (spares_webServer v).leaves.bind fun v => ?_
  exact (spares_codeVersion glob v).leaves

theorem leaves_configureMysql : Leaves path (configureMysql glob v) := by
  have hgrants : ∀ apart host, Leaves path (grants glob v apart host) := by
    intro apart host
    simp only [grants, run_bind]
    iterate 3 refine leaves_call rfl fun _ => ?_
    exact (spares_pure _).leaves
  have hpassword : Leaves path (do let _ ← teed (["mysqladmin".toList, "-uroot".toList,
      "password".toList] ++ unquotedVar glob [] v.mysqlRootPwd)) :=
    leaves_call rfl fun _ => (spares_pure _).leaves
  refine (leaves_ite hpassword (spares_pure _).leaves).bind fun _ => ?_
  exact leaves_ite (hgrants _ _) (hgrants _ _)

theorem leaves_install (h : path ∉ earlyFiles v) : Leaves path (install glob v) := by
  simp only [earlyFiles, List.mem_append, List.mem_cons, List.not_mem_nil, or_false, not_or] at h
  -- the parts of the script in its order, each with the files that it writes
  obtain ⟨⟨⟨⟨hhost, hsystem⟩, hsolr, hsettings⟩, hhttpd⟩, hpom⟩ := h
  refine spares_installRequirements.leaves.bind fun _ => spares_createUsers.leaves.bind fun _ => ?_
  refine (spares_setHostname v hhost).leaves.bind fun _ => ?_
  refine (spares_setHosts v hhost).leaves.bind fun _ => leaves_call_sed _ hsolr _ fun _ => ?_
  refine (spares_setSudoers hsystem).leaves.bind fun _ => spares_hasApt.leaves.bind fun _ => ?_
  refine (spares_ifThen spares_linkInsserv).leaves.bind fun _ => ?_
  refine (spares_installPackages v hsystem).leaves.bind fun JAVA_HOME => ?_
  refine (leaves_configureMysql glob _).bind fun _ => ?_
  refine (spares_configureHttpd { v with JAVA_HOME := JAVA_HOME } hhttpd).leaves.bind fun _ => ?_
  refine (spares_configureTomcat _ hsystem).leaves.bind fun _ => ?_
  refine spares_updateChkconfig.leaves.bind fun _ => ?_
  refine (spares_extendProfile hsystem _ _).leaves.bind fun _ => ?_
  refine (spares_checkout { v with JAVA_HOME := JAVA_HOME } hpom).leaves.bind fun _ => ?_
  refine (spares_configureSettings _ hsettings).leaves.bind fun _ => ?_
  exact (spares_extendProfile hsystem _ _).leaves

theorem leaves_migrateAndDeploy : Leaves path (migrateAndDeploy glob v) := by
  have hstage : ∀ m, Leaves path (stage m) := fun m => (spares_stage m).leaves
  have haliases : ∀ db, Leaves path (domainAliases glob v db) := by
    intro db
    simp only [domainAliases, run_bind]
    iterate 4 refine leaves_call rfl fun _ => ?_
    exact (spares_pure _).leaves
  refine Leaves.bind (leaves_ite (hstage _) ((hstage _).bind fun _ => haliases _)) fun _ => ?_
  refine Leaves.bind (leaves_ite (hstage _) ((hstage _).bind fun _ => haliases _)) fun _ => ?_
  refine Leaves.bind (leaves_ite (hstage _) (hstage _)) fun _ => ?_
  iterate 3 refine (hstage _).bind fun _ => ?_
  exact hstage _

theorem leaves_compileCommerce (h : path ∉ earlyFiles v) :
    Leaves path (compileCommerce glob v) := by
  have hpom : path ≠ pomFile v.code_to_install := fun hp => h (by simp [earlyFiles, hp])
  refine (spares_stage _).leaves.bind fun _ => ?_
  refine (spares_afterModuleSetup v hpom).leaves.bind fun coreDir => ?_
  exact (leaves_migrateAndDeploy glob v).bind fun _ => (spares_pure _).leaves

theorem leaves_finish (coreDir : Text) (h : path ∉ finalFiles) : Leaves path (finish v coreDir) := by
  simp only [finalFiles, List.mem_cons, List.not_mem_nil, or_false, not_or] at h
  obtain ⟨hpreview, hshop, hlogrotate, hcron, hpreviewXml, hrootXml, hpreviewMeta, hrootMeta⟩ := h
  have hedits : ∀ scripts, Leaves path (editContexts scripts) := by
    intro scripts
    induction scripts with
    | nil => exact (spares_pure _).leaves
    | cons script scripts ih =>
      exact leaves_call_sed _ hpreviewXml _ fun _ => leaves_call_sed _ hrootXml _ fun _ => ih
  have hcontexts : Leaves path (configureContexts v) := by
    refine (hedits _).bind fun _ => leaves_call_cp _ hpreviewMeta _ fun _ => ?_
    exact leaves_call_cp _ hrootMeta _ fun _ => (spares_pure _).leaves
  have hsolr : path ∉ ["/avetti/solr46/preview-solr".toList, "/avetti/solr46/shop-solr".toList] :=
    List.not_mem_cons_of_ne_of_not_mem hpreview (mt List.mem_singleton.mp hshop)
  have htab : path ∉ ["/etc/logrotate.d/tomcat".toList, "cron.tmp".toList] :=
    List.not_mem_cons_of_ne_of_not_mem hlogrotate (mt List.mem_singleton.mp hcron)
  refine (spares_configureSolr46 hsolr coreDir).leaves.bind fun _ => ?_
  refine (spares_configureCrontab htab).leaves.bind fun _ => ?_
  refine hcontexts.bind fun _ => leaves_call rfl fun _ => ?_
  exact leaves_ite (spares_leave 1).leaves (spares_pure _).leaves

/-! ## A run of the script -/

/-- The script up to the questions about the version. -/
def upToVersion (JAVA_HOME : Text) (args : List Text) : Sh Vars := do
  let uid ← capture ["id", "-u"]
  ifThen (uid ≠ "0".toList) (leave 1)
  let p ← parameters glob args
  requirements glob (.ofParams p JAVA_HOME)

theorem setup_eq_version (JAVA_HOME : Text) (args : List Text) :
    setup glob JAVA_HOME args = upToVersion glob JAVA_HOME args >>= fun v =>
      (install glob v >>= fun _ => compileCommerce glob v) >>= fun coreDir => finish v coreDir := by
  simp only [setup, upToVersion, bind_assoc]

theorem leaves_upToVersion (JAVA_HOME : Text) (args : List Text) :
    Leaves path (upToVersion glob JAVA_HOME args) := by
  simp only [upToVersion, capture_bind]
  refine leaves_call rfl fun _ => (spares_ifThen (spares_leave 1)).leaves.bind fun _ => ?_
  exact (spares_parameters glob args).leaves.bind fun p => leaves_requirements glob _

/-- The script from the version to the end of the compilation. -/
theorem leaves_toFinish (h : path ∉ earlyFiles v) :
    Leaves path (install glob v >>= fun _ => compileCommerce glob v) :=
  (leaves_install glob v h).bind fun _ => leaves_compileCommerce glob v h

end Parts

/-! ## The answers -/

/-- The path of the web server and the version are the default ones, or those that were typed in the
run. -/
structure FromAnswers (glob : Text → List Text) (t : Trace) (v : Vars) : Prop where
  httpdPath : v.httpdPath = "/avetti/httpd".toList ∨
    ∃ r, (.read "answer4", r) ∈ t ∧ v.httpdPath = r.out
  code_to_install : v.code_to_install = codeOf 1 defaultPath ∨
    ∃ r, (.read "answer3", r) ∈ t ∧ v.code_to_install = codeOfPath glob (typedPath glob r.out)

section Answers

variable (glob : Text → List Text) {t : Trace}

/-- What holds of the version that is installed by default, or was typed. -/
theorem ensures_codeVersion_code {v : Vars} (hcode : v.code_to_install = codeOf 1 defaultPath) :
    Ensures (fun c r => (c, r) ∈ t) (fun v' => v'.httpdPath = v.httpdPath ∧
      (v'.code_to_install = codeOf 1 defaultPath ∨ ∃ r, (.read "answer3", r) ∈ t ∧
        v'.code_to_install = codeOfPath glob (typedPath glob r.out))) (codeVersion glob v) := by
  simp only [codeVersion, ask_bind]
  refine ensures_call fun _ _ => ensures_seq fun _ => ensures_ite (fun _ => ?_) fun _ => ?_
  · refine ensures_call fun _ _ => ensures_call fun _ _ => ensures_seq fun _ => ?_
    exact ensures_pure ⟨rfl, Or.inl hcode⟩
  · refine ensures_seq fun _ => ensures_ite (fun _ => ?_) fun _ => ensures_leave 0
    refine ensures_call fun r hr => ensures_call fun _ _ => ensures_call fun _ _ => ?_
    refine ensures_seq fun _ => ensures_pure ⟨rfl, Or.inr ⟨r, hr, ?_⟩⟩
    -- only the projection is reduced: the path of the version is not evaluated
    dsimp only

theorem ensures_webServer_path (v : Vars) :
    Ensures (fun c r => (c, r) ∈ t) (fun v' => v'.code_to_install = v.code_to_install ∧
      (v'.httpdPath = "/avetti/httpd".toList ∨
        ∃ r, (.read "answer4", r) ∈ t ∧ v'.httpdPath = r.out)) (webServer v) := by
  simp only [webServer, ask_bind, fileTest_bind]
  refine ensures_ite (fun _ => ensures_call fun r hr => ensures_call fun _ _ => ?_) fun _ => ?_
  · exact ensures_ite (fun _ => ensures_pure ⟨rfl, Or.inr ⟨r, hr, rfl⟩⟩) fun _ => ensures_leave 1
  · exact ensures_pure ⟨rfl, Or.inl rfl⟩

theorem ensures_mysqlServer_code {S : Cmd → Reply → Prop} (v : Vars) :
    Ensures S (fun v' => v'.code_to_install = v.code_to_install) (mysqlServer glob v) := by
  refine ensures_ite (fun _ => ensures_seq fun _ => ?_) fun _ => ensures_pure rfl
  exact ensures_seq fun _ => ensures_seq fun _ => ensures_pure rfl

/-- The variables a run comes to are those of its answers. -/
theorem ensures_upToVersion (JAVA_HOME : Text) (args : List Text) :
    Ensures (fun c r => (c, r) ∈ t) (FromAnswers glob t) (upToVersion glob JAVA_HOME args) := by
  refine ensures_seq fun _ => ensures_seq fun _ => ensures_seq fun p => ?_
  iterate 4 refine ensures_seq fun _ => ?_
  refine ensures_bind (ensures_mysqlServer_code glob _) fun v₁ h₁ => ?_
  -- each question sets its own variable, and leaves that of the other
  refine ensures_bind (ensures_webServer_path v₁) fun v₂ ⟨hcode, hpath⟩ => ?_
  refine (ensures_codeVersion_code glob (hcode.trans h₁)).mono fun v₃ ⟨hsame, hversion⟩ => ?_
  refine ⟨?_, hversion⟩
  rw [hsame]
  exact hpath

end Answers

section Runs

variable {glob : Text → List Text} {JAVA_HOME : Text} {args : List Text} {t : Trace}
  {o : Outcome Unit}

/-- The events of a script that leaves all other files. -/
theorem target_mem_of_runs {files : List Text} {p : Sh α} {o : Outcome α} (h : Runs p t o)
    (hp : ∀ path, path ∉ files → Leaves path p) :
    ∀ e ∈ t, ∀ path, e.1.target = some path → path ∈ files := by
  intro e he path htarget
  by_contra hpath
  exact h.emits (hp path hpath) e he htarget

end Runs

end Avetti
