import Avetti.Setup.StatusChecks

/-!
# The files that the parts of setup.sh write

A part of `setup.sh` writes a few files, and only some parts run a client of the MySQL server. What
is said about one file, or about the connections, concerns the parts that do so; all others spare
it.

## Main definitions

* `Cmd.isClient`: the command is a client of the MySQL server
* `Cmd.passes path`: the command neither writes nor moves the file
* `Cmd.spares path`: the command is no such client, and passes the file
* `Spares path p`: every command of `p` spares the file
* `hostFiles`, `systemFiles`, `httpdFiles`: the files that the edits of the host, of the system and
  of the web server write

## Main results

* `spares_requirements` and the others: the files that a part spares
-/

open Script

namespace Avetti

variable {α β : Type}

/-- The command is a client of the MySQL server. -/
def Cmd.isClient : Cmd → Bool
  | .run ws => ws.head? ∈ [some "mysql".toList, some "mysqladmin".toList] &&
      ws[1]? ≠ some "--version".toList
  | _ => false

/-- The file that a command moves to another name. -/
def Cmd.moved : Cmd → Option Text
  | .run [cmd, src, _] => if cmd = "mv".toList then some src else none
  | _ => none

/-- The command neither writes nor moves the file. -/
def Cmd.passes (path : Text) (c : Cmd) : Bool := c.target ≠ some path && c.moved ≠ some path

/-- The command is no client of the MySQL server, and neither writes nor moves the file. -/
def Cmd.spares (path : Text) (c : Cmd) : Bool := !c.isClient && c.passes path

/-- Every command of the script spares the file. -/
def Spares (path : Text) (p : Sh α) : Prop := Emits (fun c _ => c.spares path = true) p

/-- The files that the edits of the host write, or move. -/
def hostFiles : List Text :=
  ["/etc/sysconfig/network", "/etc/sysconfig/old-network", "/etc/hostname", "/etc/old-hostname",
    "/etc/hosts"]

/-- The other files of the system that are written. -/
def systemFiles : List Text :=
  ["/etc/sudoers", "/etc/profile", "/etc/init.d/httpd", "/etc/init.d/tomcat", "/avetti/tomcat/bin"]

/-- The files of the web server that are written. -/
def httpdFiles (v : Vars) : List Text :=
  [httpdConf v, vhostsConf v, v.httpdPath ++ "/conf/extra/httpd-ssl.conf".toList,
    v.httpdPath ++ "/conf/extra/avetti.conf".toList]

variable {path : Text}

/-! ## Commands -/

/-- The programs that are a client, or write a file. -/
def writers : List Text := ["mysql", "mysqladmin", "sed", "cp", "mv", "dos2unix"]

theorem moved_of_ne {w : Text} (hw : w ≠ "mv".toList) (ws : List Text) :
    (Cmd.run (w :: ws)).moved = none := by
  rcases ws with _ | ⟨a, _ | ⟨b, _ | ⟨c, ws⟩⟩⟩
  · rfl
  · rfl
  · exact if_neg hw
  · rfl

theorem spares_run {ws : List Text} {w : Text} (hw : w ∉ writers) :
    (Cmd.run (w :: ws)).spares path = true := by
  have hnot : ∀ vs : List Text, vs ⊆ writers → some w ∉ vs.map some := by
    intro vs hvs h
    obtain ⟨v, hv, heq⟩ := List.mem_map.mp h
    obtain rfl := Option.some.inj heq
    exact hw (hvs hv)
  have hclient : (Cmd.run (w :: ws)).isClient = false :=
    Bool.and_eq_false_iff.mpr (Or.inl (decide_eq_false (hnot ["mysql", "mysqladmin"] (by decide))))
  have htarget : (Cmd.run (w :: ws)).target = none :=
    if_neg (hnot ["sed", "cp", "mv", "dos2unix"] (by decide))
  have hmoved : (Cmd.run (w :: ws)).moved = none := by
    refine moved_of_ne ?_ ws
    rintro rfl
    exact hw (by decide)
  rw [Cmd.spares, Cmd.passes, hclient, htarget, hmoved]
  rfl

theorem spares_of_target {c : Cmd} {p : Text} (hclient : c.isClient = false)
    (htarget : c.target = some p) (hp : path ≠ p) (hmoved : c.moved ≠ some path) :
    c.spares path = true := by
  have hne : some p ≠ some path := fun h => hp (Option.some.inj h).symm
  rw [Cmd.spares, Cmd.passes, hclient, htarget, decide_eq_true hne, decide_eq_true hmoved]
  rfl

theorem spares_of_stays {c : Cmd} {p : Text} (hclient : c.isClient = false)
    (htarget : c.target = some p) (hmoved : c.moved = none) (hp : path ≠ p) :
    c.spares path = true :=
  spares_of_target hclient htarget hp (hmoved ▸ (Option.some_ne_none path).symm)

theorem spares_sed (script : Text) {p : Text} (hp : path ≠ p) :
    (Cmd.run (sed script p)).spares path = true := spares_of_stays rfl rfl rfl hp

theorem spares_cp (src : Text) {p : Text} (hp : path ≠ p) :
    (Cmd.run ["cp", src, p]).spares path = true := spares_of_stays rfl rfl rfl hp

theorem spares_mv {src p : Text} (hsrc : path ≠ src) (hp : path ≠ p) :
    (Cmd.run ["mv", src, p]).spares path = true :=
  spares_of_target rfl rfl hp fun h => hsrc (Option.some.inj h).symm

/-! ## Sequences -/

theorem Spares.bind {p : Sh α} {q : α → Sh β} (hp : Spares path p) (hq : ∀ a, Spares path (q a)) :
    Spares path (p >>= q) := emits_bind hp hq

theorem spares_call {c : Cmd} {k : Reply → Sh α} (hc : c.spares path = true)
    (hk : ∀ r, Spares path (k r)) : Spares path (call c k) := emits_call (fun _ => hc) hk

theorem spares_pure (a : α) : Spares path (pure a : Sh α) := trivial

theorem spares_leave (n : Int) : Spares path (leave n : Sh α) := trivial

theorem spares_ite {c : Prop} [Decidable c] {p q : Sh α} (hp : Spares path p)
    (hq : Spares path q) : Spares path (if c then p else q) := emits_ite hp hq

theorem spares_ifThen {c : Bool} {p : Sh Unit} (hp : Spares path p) : Spares path (ifThen c p) :=
  emits_ite hp trivial

/-- A command whose status is tested. -/
theorem spares_failed {c : Cmd} {ch : Check} {status : Reply → Int} {k : Bool → Sh α}
    (hc : c.spares path = true) (hk : ∀ b, Spares path (k b)) :
    Spares path (call c fun r => failed ch (status r) >>= k) :=
  spares_call hc fun _ => spares_call rfl fun _ => hk _

theorem spares_checkedStep {c : Cmd} {ch : Check} {status : Reply → Int}
    (hc : c.spares path = true) :
    Spares path (checkedStep ch (call c fun r => pure (status r))) :=
  spares_failed hc fun _ => spares_ite (spares_leave 1) (spares_pure _)

theorem spares_service (name action : Text) : Spares path (service name action) :=
  spares_call rfl fun _ => spares_pure _

theorem spares_appendTo (text : Text) {p : Text} (hp : path ≠ p) : Spares path (appendTo text p) :=
  spares_call (spares_of_stays rfl rfl rfl hp) fun _ => spares_pure _

theorem spares_writeTo (text : Text) {p : Text} (hp : path ≠ p) : Spares path (writeTo text p) :=
  spares_call (spares_of_stays rfl rfl rfl hp) fun _ => spares_pure _

theorem spares_edits (scripts : List Text) {p : Text} (hp : path ≠ p) :
    Spares path (edits scripts p) := by
  induction scripts with
  | nil => exact spares_pure _
  | cons script scripts ih => exact spares_call (spares_sed script hp) fun _ => ih

theorem spares_test (ws : List Text) : Spares path (test ws) := by
  unfold test
  split
  · exact spares_pure _
  · exact spares_pure _
  · exact spares_ite (spares_call rfl fun _ => spares_pure _) (spares_pure _)
  · exact spares_pure _
  · exact spares_pure _

theorem spares_hasYum : Spares path hasYum := by
  simp only [hasYum, fileTest_bind]
  exact spares_call rfl fun _ => spares_ite (spares_pure _) (spares_call rfl fun _ => spares_pure _)

theorem spares_hasApt : Spares path hasApt := spares_call rfl fun _ => spares_pure _

/-! ## The requirements -/

section Parts

variable (glob : Text → List Text) (v : Vars)

theorem spares_optionsAccepted (args : List Text) : Spares path (optionsAccepted args) := by
  rw [optionsAccepted]
  refine (spares_test _).bind fun _ => spares_ite (spares_pure _) ?_
  exact spares_ite (spares_pure _) (spares_ite (spares_pure _) (spares_pure _))

theorem spares_parameters (args : List Text) : Spares path (parameters glob args) := by
  simp only [parameters, ask_bind]
  refine (spares_optionsAccepted args).bind fun _ => spares_ite ?_ (spares_leave 1)
  iterate 3 refine (spares_test _).bind fun _ => ?_
  refine spares_call rfl fun _ => (spares_test _).bind fun _ => spares_ite (spares_pure _) ?_
  exact (spares_test _).bind fun _ => spares_ite (spares_leave 0) (spares_leave 1)

theorem spares_checkSvn : Spares path checkSvn := by
  refine spares_failed rfl fun _ => spares_ite ?_ (spares_pure _)
  refine spares_hasYum.bind fun _ => spares_ite ?_ ?_
  · exact spares_failed rfl fun _ => spares_ite (spares_leave 1) (spares_pure _)
  · refine spares_hasApt.bind fun _ => spares_ite (spares_call rfl fun _ => ?_) (spares_pure _)
    exact spares_failed rfl fun _ => spares_ite (spares_leave 1) (spares_pure _)

theorem spares_checkMysql : Spares path (checkMysql v) := by
  refine spares_ifThen (spares_failed rfl fun _ => spares_ite ?_ (spares_pure _))
  refine spares_hasYum.bind fun _ => spares_ite ?_ ?_
  · exact spares_failed rfl fun _ => spares_ite (spares_leave 1) (spares_pure _)
  · refine spares_hasApt.bind fun _ => spares_ite (spares_call rfl fun _ => ?_) (spares_pure _)
    exact spares_failed rfl fun _ => spares_ite (spares_leave 1) (spares_pure _)

theorem spares_checkJava : Spares path (checkJava v) := by
  have hjavac : v.JAVA_HOME ++ "/bin/javac".toList ∉ writers := by
    have hslash : ∀ w ∈ writers, '/' ∉ w := by decide
    exact fun h => javac_ne v.JAVA_HOME (hslash _ h) rfl
  refine spares_ifThen (spares_failed (spares_run hjavac) fun _ => ?_)
  exact spares_ite (spares_leave 1) (spares_pure _)

theorem spares_checkNetcat : Spares path checkNetcat := by
  refine spares_failed rfl fun _ => spares_ite ?_ (spares_pure _)
  refine spares_hasYum.bind fun _ => spares_ite (spares_call rfl fun _ => spares_pure _) ?_
  refine spares_hasApt.bind fun _ => spares_ite (spares_call rfl fun _ => ?_) (spares_pure _)
  exact spares_call rfl fun _ => spares_pure _

theorem spares_mysqlPortAnswer : Spares path (mysqlPortAnswer glob v) := by
  have hnonzero : ∀ answer, Spares path (isNonzero answer) := fun answer =>
    spares_ite (spares_pure _) (spares_call rfl fun _ => spares_pure _)
  refine spares_failed (spares_run (by decide)) fun _ => spares_ite ?_ (spares_pure _)
  refine spares_call rfl fun _ => (hnonzero _).bind fun _ => ?_
  exact spares_ite (spares_pure _) (spares_pure _)

theorem spares_webServer : Spares path (webServer v) := by
  simp only [webServer, ask_bind, fileTest_bind]
  refine spares_ite (spares_call rfl fun _ => spares_call rfl fun _ => ?_) (spares_pure _)
  exact spares_ite (spares_pure _) (spares_leave 1)

theorem spares_codeVersion : Spares path (codeVersion glob v) := by
  have hinfo : ∀ v : Vars, Spares path (svnInfo glob v) := fun v =>
    spares_failed (spares_run (by decide)) fun _ => spares_ite (spares_leave 1) (spares_pure _)
  simp only [codeVersion, ask_bind]
  refine spares_call rfl fun _ => (spares_test _).bind fun _ => ?_
  refine spares_ite (spares_call rfl fun _ => spares_call rfl fun _ => ?_) ?_
  · exact (hinfo _).bind fun _ => spares_pure _
  · refine (spares_test _).bind fun _ => spares_ite ?_ (spares_leave 0)
    iterate 3 refine spares_call rfl fun _ => ?_
    exact (hinfo _).bind fun _ => spares_pure _

/-! ## The installation -/

theorem spares_installRequirements : Spares path installRequirements := by
  simp only [installRequirements, run_bind, teed_bind]
  refine spares_hasYum.bind fun _ => spares_ite (spares_call rfl fun _ => spares_pure _) ?_
  refine spares_hasApt.bind fun _ => spares_ite (spares_call rfl fun _ => ?_) (spares_pure _)
  exact spares_call rfl fun _ => spares_pure _

theorem spares_createUsers : Spares path createUsers := by
  have hgroup : Spares path createGroup := by
    simp only [createGroup, capture_bind]
    refine spares_call rfl fun _ => spares_ite ?_ (spares_pure _)
    exact spares_failed rfl fun _ => spares_ite (spares_leave 1) (spares_pure _)
  have huser : ∀ name options, Spares path (createUser name options) := by
    intro name options
    simp only [createUser, capture_bind]
    refine spares_call rfl fun _ => spares_ite (spares_call rfl fun _ => spares_pure _) ?_
    exact spares_failed (spares_run (by decide)) fun _ =>
      spares_ite (spares_leave 1) (spares_pure _)
  exact hgroup.bind fun _ => (huser _ _).bind fun _ => (huser _ _).bind fun _ => huser _ _

theorem spares_setHostname (h : path ∉ hostFiles) : Spares path (setHostname v) := by
  simp only [hostFiles, List.mem_cons, List.not_mem_nil, or_false, not_or] at h
  obtain ⟨hnetwork, hold, hhostname, holdname, -⟩ := h
  have hwrite : Spares path (writeHostname v) := by
    simp only [writeHostname, fileTest_bind, capture_bind, run_bind]
    refine spares_call rfl fun _ => spares_ite (spares_call rfl fun _ => ?_) ?_
    · refine spares_ite (spares_call (spares_mv hnetwork hold) fun _ => ?_) (spares_pure _)
      exact (spares_writeTo _ hnetwork).bind fun _ => spares_appendTo _ hnetwork
    · refine spares_call rfl fun _ => spares_ite (spares_call rfl fun _ => ?_) (spares_pure _)
      refine spares_ite (spares_call (spares_mv hhostname holdname) fun _ => ?_) (spares_pure _)
      exact spares_writeTo _ hhostname
  exact hwrite.bind fun _ => spares_call rfl fun _ => spares_pure _

theorem spares_setHosts (h : path ∉ hostFiles) : Spares path (setHosts v) := by
  have hhosts : path ≠ "/etc/hosts".toList := fun hp => h (hp ▸ by decide)
  simp only [setHosts, capture_bind, run_bind]
  refine spares_call rfl fun _ => spares_ite (spares_call rfl fun _ => ?_) (spares_pure _)
  exact spares_ite (spares_call (spares_sed _ hhosts) fun _ => spares_pure _) (spares_pure _)

theorem spares_setSudoers (h : path ∉ systemFiles) : Spares path setSudoers := by
  have hsudoers : path ≠ "/etc/sudoers".toList := fun hp => h (hp ▸ by decide)
  simp only [setSudoers, command_bind, fileTest_bind]
  refine spares_call rfl fun _ => spares_ite (spares_call rfl fun _ => ?_) (spares_pure _)
  refine spares_ite (spares_appendTo _ hsudoers) (spares_call rfl fun _ => ?_)
  exact spares_ite (spares_appendTo _ hsudoers) (spares_pure _)

theorem spares_linkInsserv : Spares path linkInsserv := by
  simp only [linkInsserv, fileTest_bind, run_bind]
  exact spares_call rfl fun _ => spares_ite (spares_call rfl fun _ => spares_pure _) (spares_pure _)

theorem spares_installMysql : Spares path installMysql := by
  simp only [installMysql, run_bind, teed_bind, command_bind]
  refine spares_hasYum.bind fun _ => spares_ite (spares_call rfl fun _ => ?_) ?_
  · exact (spares_service _ _).bind fun _ => spares_call rfl fun _ => spares_pure _
  · refine spares_hasApt.bind fun _ => spares_ite ?_ (spares_pure _)
    iterate 3 refine spares_call rfl fun _ => ?_
    exact spares_ite (spares_linkInsserv.bind fun _ => spares_service _ _) (spares_pure _)

theorem spares_installJava (h : path ∉ systemFiles) : Spares path (installJava v) := by
  have hprofile : path ≠ "/etc/profile".toList := fun hp => h (hp ▸ by decide)
  have hexport : ∀ home, Spares path (exportJavaHome home) := fun home =>
    (spares_appendTo _ hprofile).bind fun _ => spares_pure _
  simp only [installJava, run_bind, teed_bind, fileTest_bind]
  refine spares_hasYum.bind fun _ => spares_ite (spares_call rfl fun _ => ?_) ?_
  · exact (spares_test _).bind fun _ => spares_ite (hexport _) (spares_pure _)
  · refine spares_hasApt.bind fun _ => spares_ite ?_ (spares_pure _)
    refine spares_call rfl fun _ => spares_call rfl fun _ => (spares_test _).bind fun _ => ?_
    refine spares_ite (spares_call rfl fun _ => spares_ite (hexport _) ?_) (spares_pure _)
    exact spares_call rfl fun _ => spares_ite (hexport _) (hexport _)

theorem spares_installHttpd (h : path ∉ systemFiles) : Spares path installHttpd := by
  have hhttpd : path ≠ "/etc/init.d/httpd".toList := fun hp => h (hp ▸ by decide)
  simp only [installHttpd, run_bind, command_bind]
  refine spares_call rfl fun _ => (spares_checkedStep rfl).bind fun _ => ?_
  refine (spares_checkedStep rfl).bind fun _ => (spares_checkedStep rfl).bind fun _ => ?_
  refine (spares_writeTo _ hhttpd).bind fun _ => spares_call rfl fun _ => ?_
  exact (spares_appendTo _ hhttpd).bind fun _ => spares_checkedStep rfl

theorem spares_installPackages (h : path ∉ systemFiles) : Spares path (installPackages v) := by
  refine (spares_ifThen spares_installMysql).bind fun _ => ?_
  refine (spares_ite (spares_installJava v h) (spares_pure _)).bind fun _ => ?_
  exact (spares_ifThen (spares_installHttpd h)).bind fun _ => spares_pure _

/-! ## The configurations -/

theorem spares_configureHttpd (h : path ∉ httpdFiles v) : Spares path (configureHttpd v) := by
  simp only [httpdFiles, List.mem_cons, List.not_mem_nil, or_false, not_or] at h
  obtain ⟨hconf, hvhosts, hssl, havetti⟩ := h
  have hidentity : Spares path (configureIdentity v) := by
    simp only [configureIdentity, command_bind, run_bind]
    refine spares_call rfl fun _ => spares_call rfl fun _ => ?_
    refine (spares_ifThen (spares_call (spares_sed _ hconf) fun _ => spares_pure _)).bind fun _ => ?_
    exact spares_ifThen (spares_call (spares_sed _ hconf) fun _ => spares_pure _)
  have hsecure : Spares path (configureSsl v) :=
    spares_call rfl fun _ => spares_ifThen (spares_call (spares_sed _ hconf) fun _ =>
      spares_edits _ hssl)
  have hinclude : Spares path (configureInclude v) :=
    spares_call rfl fun _ => spares_ifThen ((spares_appendTo _ hconf).bind fun _ =>
      spares_call (spares_cp _ havetti) fun _ => spares_pure _)
  have hhosts : Spares path (configureVhosts v) := by
    simp only [configureVhosts, capture_bind, run_bind]
    exact spares_call rfl fun _ => spares_ite (spares_call (spares_cp _ hvhosts) fun _ =>
      spares_edits _ hvhosts) (spares_pure _)
  refine hidentity.bind fun _ => hsecure.bind fun _ => hinclude.bind fun _ => ?_
  exact spares_call (spares_sed _ hconf) fun _ => hhosts

theorem spares_configureTomcat (h : path ∉ systemFiles) : Spares path (configureTomcat v) := by
  have htomcat : path ≠ "/etc/init.d/tomcat".toList := fun hp => h (hp ▸ by decide)
  have hbin : path ≠ "/avetti/tomcat/bin".toList := fun hp => h (hp ▸ by decide)
  simp only [configureTomcat, fileTest_bind, run_bind, capture_bind]
  refine spares_call rfl fun _ => spares_ite ?_ (spares_pure _)
  refine spares_call (spares_cp _ htomcat) fun _ => spares_call (spares_sed _ htomcat) fun _ => ?_
  refine spares_call rfl fun _ => spares_call rfl fun _ => ?_
  refine spares_call (spares_sed _ htomcat) fun _ => ?_
  iterate 3 refine spares_call rfl fun _ => ?_
  refine spares_call (spares_cp _ hbin) fun _ => spares_call rfl fun _ => spares_pure _

theorem spares_updateChkconfig : Spares path updateChkconfig := by
  simp only [updateChkconfig, teed_bind]
  iterate 3 refine spares_call rfl fun _ => ?_
  exact spares_checkedStep rfl

theorem spares_extendProfile (h : path ∉ systemFiles) (word lines : Text) :
    Spares path (extendProfile word lines) := by
  have hprofile : path ≠ "/etc/profile".toList := fun hp => h (hp ▸ by decide)
  simp only [extendProfile, capture_bind]
  exact spares_call rfl fun _ => spares_ite (spares_appendTo _ hprofile) (spares_pure _)

theorem spares_checkout (h : path ≠ pomFile v.code_to_install) : Spares path (checkout v) := by
  simp only [checkout, fileTest_bind, teed_bind]
  refine spares_call rfl fun _ => spares_ite (spares_call rfl fun _ => ?_) (spares_pure _)
  exact spares_failed rfl fun _ => spares_ite (spares_edits _ h) (spares_pure _)

theorem spares_configureSettings (h : path ≠ settingsFile) :
    Spares path (configureSettings v) := by
  simp only [configureSettings, fileTest_bind, run_bind]
  refine spares_call rfl fun _ => spares_ite (spares_call (spares_cp _ h) fun _ => ?_)
    (spares_pure _)
  refine (spares_edits _ h).bind fun _ => ?_
  exact spares_call (spares_of_stays rfl rfl rfl h) fun _ => spares_edits _ h

/-! ## The compilation and the rest -/

theorem spares_stage (m : Mvn) : Spares path (stage m) :=
  spares_call rfl fun _ => spares_ite (spares_ite (spares_call rfl fun _ => spares_pure _)
    (spares_leave 1)) (spares_pure _)

theorem spares_afterModuleSetup (h : path ≠ pomFile v.code_to_install) :
    Spares path (afterModuleSetup v) := by
  simp only [afterModuleSetup, run_bind, command_bind]
  refine (spares_edits _ h).bind fun _ => ?_
  iterate 5 refine spares_call rfl fun _ => ?_
  exact spares_pure _

theorem spares_configureSolr46 (h : path ∉ ["/avetti/solr46/preview-solr".toList,
    "/avetti/solr46/shop-solr".toList]) (coreDir : Text) :
    Spares path (configureSolr46 coreDir) := by
  simp only [List.mem_cons, List.not_mem_nil, or_false, not_or] at h
  exact spares_call (spares_cp _ h.1) fun _ => spares_call (spares_cp _ h.2) fun _ => spares_pure _

theorem spares_configureCrontab (h : path ∉ ["/etc/logrotate.d/tomcat".toList,
    "cron.tmp".toList]) : Spares path configureCrontab := by
  simp only [List.mem_cons, List.not_mem_nil, or_false, not_or] at h
  simp only [configureCrontab, command_bind, run_bind]
  refine spares_call rfl fun _ => spares_ite ((spares_writeTo _ h.1).bind fun _ => ?_)
    (spares_pure _)
  refine spares_call rfl fun _ => (spares_writeTo _ h.2).bind fun _ => ?_
  refine (spares_appendTo _ h.2).bind fun _ => spares_call rfl fun _ => spares_call rfl fun _ => ?_
  exact spares_pure _

end Parts

end Avetti
