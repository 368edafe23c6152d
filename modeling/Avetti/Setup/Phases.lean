import Avetti.Script.Hoare
import Avetti.Setup.Main

/-!
# What the parts of setup.sh run

Most parts of `setup.sh` run neither Maven nor a MySQL client, test no `$?` and write no `pom.xml`.
The results about the databases, the passwords and the checks look at the other parts only.

## Main definitions

* `Cmd.writesPom`: the command can change a `pom.xml`
* `Cmd.isPlain`: neither Maven, nor a MySQL client, nor a test of `$?`, nor a change of a `pom.xml`
* `Cmd.isApart`: neither Maven, nor a MySQL client with a user, nor a change of a `pom.xml`
* `Cmd.isMvn`: a call of Maven
* `Plain p`: every command of `p` is plain
* `setupBefore`: the part of `setup.sh` before the compilation
* `Vars.mysql`: the variables about the MySQL server

## Main results

* `plain_installRequirements` and the others: the plain parts
* `setup_eq`: the script as its part before the compilation, the compilation and the rest
* `ensures_requirements`: what the requirements set of the variables about the MySQL server
-/

open Script

namespace Avetti

variable {α β : Type}

/-- The file that a command of the script writes. -/
def Cmd.target : Cmd → Option Text
  | .run ws =>
    if ws.head? ∈ [some "sed".toList, some "cp".toList, some "mv".toList, some "dos2unix".toList] then
      ws.getLast?
    else none
  | .write _ path => some path
  | .append _ path => some path
  | _ => none

/-- The name of the file ends as that of a `pom.xml`. -/
def isPom (path : Text) : Bool := "pom.xml".toList.isSuffixOf path

/-- The command writes a `pom.xml`, or it is run as the user who checks one out. -/
def Cmd.writesPom : Cmd → Bool
  | .run ws => ws.head? = some "su".toList || (Cmd.run ws).target.any isPom
  | c => c.target.any isPom

/-- Neither Maven, nor a MySQL client, nor a test of `$?`, nor a change of a `pom.xml`. -/
def Cmd.isPlain : Cmd → Bool
  | .mvn .. => false
  | .branch .. => false
  | .run ws => ws.head? ≠ some "mysql".toList && !(Cmd.run ws).writesPom
  | c => !c.writesPom

/-- Neither Maven, nor a MySQL client with a user, nor a change of a `pom.xml`. -/
def Cmd.isApart : Cmd → Bool
  | .mvn .. => false
  | .run ws => (ws.head? ≠ some "mysql".toList || ws[1]? = some "--version".toList) &&
      !(Cmd.run ws).writesPom
  | c => !c.writesPom

/-- The command is a call of Maven. -/
def Cmd.isMvn : Cmd → Bool
  | .mvn .. => true
  | _ => false

/-- Every command of the script is plain. -/
def Plain (p : Sh α) : Prop := Emits (fun c _ => c.isPlain = true) p

theorem isApart_of_isPlain {c : Cmd} (hc : c.isPlain = true) : c.isApart = true := by
  cases c with
  | run ws =>
    obtain ⟨hws, hpom⟩ := Bool.and_eq_true_iff.mp hc
    exact Bool.and_eq_true_iff.mpr ⟨Bool.or_eq_true_iff.mpr (Or.inl hws), hpom⟩
  | mvn m a => cases hc
  | branch ch b => rfl
  | _ => exact hc

theorem isMvn_of_isApart {c : Cmd} (hc : c.isApart = true) : c.isMvn = false := by
  cases c with
  | mvn m a => cases hc
  | _ => rfl

theorem Plain.bind {p : Sh α} {q : α → Sh β} (hp : Plain p) (hq : ∀ a, Plain (q a)) :
    Plain (p >>= q) := emits_bind hp hq

theorem isPom_append (x : Text) {y : Text} (hy : 7 ≤ y.length) : isPom (x ++ y) = isPom y := by
  have hlength : "pom.xml".toList.length = 7 := rfl
  rw [isPom, isPom, Bool.eq_iff_iff, List.isSuffixOf_iff_suffix, List.isSuffixOf_iff_suffix]
  constructor
  · exact fun h => List.suffix_of_suffix_length_le h (List.suffix_append x y) (hlength ▸ hy)
  · exact fun h => h.trans (List.suffix_append x y)

theorem plain_call {c : Cmd} {k : Reply → Sh α} (hc : c.isPlain = true)
    (hk : ∀ r, Plain (k r)) : Plain (call c k) := emits_call (fun _ => hc) hk

theorem plain_ite {c : Prop} [Decidable c] {p q : Sh α} (hp : Plain p) (hq : Plain q) :
    Plain (if c then p else q) := emits_ite hp hq

theorem plain_ifThen {c : Bool} {p : Sh Unit} (hp : Plain p) : Plain (ifThen c p) :=
  emits_ite hp trivial

theorem plain_pure (a : α) : Plain (pure a : Sh α) := trivial

theorem plain_leave (n : Int) : Plain (leave n : Sh α) := trivial

/-! ## Plain parts -/

section Plain

variable (glob : Text → List Text) (v : Vars)

theorem plain_test (ws : List Text) : Plain (test ws) := by
  unfold test
  split
  · exact plain_pure _
  · exact plain_pure _
  · exact plain_ite (plain_call rfl fun _ => plain_pure _) (plain_pure _)
  · exact plain_pure _
  · exact plain_pure _

theorem plain_hasYum : Plain hasYum := by
  simp only [hasYum, fileTest_bind]
  exact plain_call rfl fun _ => plain_ite (plain_pure _) (plain_call rfl fun _ => plain_pure _)

theorem plain_hasApt : Plain hasApt := plain_call rfl fun _ => plain_pure _

theorem plain_appendTo (text : Text) {path : Text} (hpath : isPom path = false) :
    Plain (appendTo text path) :=
  plain_call (by simp [Cmd.isPlain, Cmd.writesPom, Cmd.target, hpath]) fun _ => plain_pure _

theorem plain_writeTo (text : Text) {path : Text} (hpath : isPom path = false) :
    Plain (writeTo text path) :=
  plain_call (by simp [Cmd.isPlain, Cmd.writesPom, Cmd.target, hpath]) fun _ => plain_pure _

theorem plain_service (name action : Text) : Plain (service name action) :=
  plain_call rfl fun _ => plain_pure _

theorem isPlain_sed (script : Text) {path : Text} (hpath : isPom path = false) :
    (Cmd.run (sed script path)).isPlain = true := by
  have hpom : (Cmd.run (sed script path)).writesPom = isPom path := rfl
  rw [Cmd.isPlain, hpom, hpath]
  rfl

theorem plain_edits (scripts : List Text) {path : Text} (hpath : isPom path = false) :
    Plain (edits scripts path) := by
  induction scripts with
  | nil => exact plain_pure _
  | cons script scripts ih => exact plain_call (isPlain_sed script hpath) fun _ => ih

theorem plain_installRequirements : Plain installRequirements := by
  simp only [installRequirements, run_bind, teed_bind]
  refine plain_hasYum.bind fun _ => plain_ite (plain_call rfl fun _ => plain_pure _) ?_
  refine plain_hasApt.bind fun _ => plain_ite (plain_call rfl fun _ => ?_) (plain_pure _)
  exact plain_call rfl fun _ => plain_pure _

theorem plain_optionsAccepted (args : List Text) : Plain (optionsAccepted args) := by
  rw [optionsAccepted]
  refine (plain_test _).bind fun _ => plain_ite (plain_pure _) ?_
  exact plain_ite (plain_pure _) (plain_ite (plain_pure _) (plain_pure _))

theorem plain_parameters (args : List Text) : Plain (parameters glob args) := by
  simp only [parameters, ask_bind]
  refine (plain_optionsAccepted args).bind fun _ => plain_ite ?_ (plain_leave 1)
  iterate 3 refine (plain_test _).bind fun _ => ?_
  refine plain_call rfl fun _ => (plain_test _).bind fun _ => plain_ite (plain_pure _) ?_
  exact (plain_test _).bind fun _ => plain_ite (plain_leave 0) (plain_leave 1)

theorem plain_isNonzero (answer : Text) : Plain (isNonzero answer) :=
  plain_ite (plain_pure _) (plain_call rfl fun _ => plain_pure _)

theorem plain_webServer : Plain (webServer v) := by
  simp only [webServer, ask_bind, fileTest_bind]
  refine plain_ite (plain_call rfl fun _ => plain_call rfl fun _ => ?_) (plain_pure _)
  exact plain_ite (plain_pure _) (plain_leave 1)

theorem plain_setHostname : Plain (setHostname v) := by
  have hwrite : Plain (writeHostname v) := by
    simp only [writeHostname, fileTest_bind, capture_bind, run_bind]
    refine plain_call rfl fun _ => plain_ite (plain_call rfl fun _ => plain_ite ?_ (plain_pure _)) ?_
    · refine plain_call rfl fun _ => (plain_writeTo _ rfl).bind fun _ => plain_appendTo _ rfl
    · refine plain_call rfl fun _ => plain_ite (plain_call rfl fun _ => ?_) (plain_pure _)
      exact plain_ite (plain_call rfl fun _ => plain_writeTo _ rfl) (plain_pure _)
  exact hwrite.bind fun _ => plain_call rfl fun _ => plain_pure _

theorem plain_setHosts : Plain (setHosts v) := by
  simp only [setHosts, capture_bind, run_bind]
  refine plain_call rfl fun _ => plain_ite (plain_call rfl fun _ => ?_) (plain_pure _)
  exact plain_ite (plain_call rfl fun _ => plain_pure _) (plain_pure _)

theorem plain_setSudoers : Plain setSudoers := by
  simp only [setSudoers, command_bind, fileTest_bind]
  refine plain_call rfl fun _ => plain_ite (plain_call rfl fun _ => ?_) (plain_pure _)
  refine plain_ite (plain_appendTo _ rfl) (plain_call rfl fun _ => ?_)
  exact plain_ite (plain_appendTo _ rfl) (plain_pure _)

theorem plain_linkInsserv : Plain linkInsserv := by
  simp only [linkInsserv, fileTest_bind, run_bind]
  exact plain_call rfl fun _ => plain_ite (plain_call rfl fun _ => plain_pure _) (plain_pure _)

theorem plain_installMysql : Plain installMysql := by
  simp only [installMysql, run_bind, teed_bind, command_bind]
  refine plain_hasYum.bind fun _ => plain_ite (plain_call rfl fun _ => ?_) ?_
  · exact (plain_service _ _).bind fun _ => plain_call rfl fun _ => plain_pure _
  · refine plain_hasApt.bind fun _ => plain_ite ?_ (plain_pure _)
    iterate 3 refine plain_call rfl fun _ => ?_
    exact plain_ite (plain_linkInsserv.bind fun _ => plain_service _ _) (plain_pure _)

theorem plain_exportJavaHome (path : Text) : Plain (exportJavaHome path) :=
  (plain_appendTo _ rfl).bind fun _ => plain_pure _

theorem plain_installJava : Plain (installJava v) := by
  simp only [installJava, run_bind, teed_bind, fileTest_bind]
  refine plain_hasYum.bind fun _ => plain_ite (plain_call rfl fun _ => ?_) ?_
  · exact (plain_test _).bind fun _ => plain_ite (plain_exportJavaHome _) (plain_pure _)
  · refine plain_hasApt.bind fun _ => plain_ite ?_ (plain_pure _)
    refine plain_call rfl fun _ => plain_call rfl fun _ => (plain_test _).bind fun _ => ?_
    refine plain_ite (plain_call rfl fun _ => plain_ite (plain_exportJavaHome _) ?_) (plain_pure _)
    exact plain_call rfl fun _ => plain_ite (plain_exportJavaHome _) (plain_exportJavaHome _)

theorem isPom_httpdConf : isPom (httpdConf v) = false :=
  isPom_append v.httpdPath (y := "/conf/httpd.conf".toList) (by decide)

theorem isPom_vhostsConf : isPom (vhostsConf v) = false :=
  isPom_append v.httpdPath (y := "/conf/extra/httpd-vhosts.conf".toList) (by decide)

theorem isPlain_cp (src : Text) {path : Text} (hpath : isPom path = false) :
    (Cmd.run ["cp", src, path]).isPlain = true := by
  have hpom : (Cmd.run ["cp", src, path]).writesPom = isPom path := rfl
  rw [Cmd.isPlain, hpom, hpath]
  rfl

theorem plain_configureHttpd : Plain (configureHttpd v) := by
  have hsed : ∀ script, (Cmd.run (sed script (httpdConf v))).isPlain = true := fun script =>
    isPlain_sed script (isPom_httpdConf v)
  have hidentity : Plain (configureIdentity v) := by
    simp only [configureIdentity, command_bind, run_bind]
    refine plain_call rfl fun _ => plain_call rfl fun _ => ?_
    refine (plain_ifThen (plain_call (hsed _) fun _ => plain_pure _)).bind fun _ => ?_
    exact plain_ifThen (plain_call (hsed _) fun _ => plain_pure _)
  have hssl : Plain (configureSsl v) :=
    plain_call rfl fun _ => plain_ifThen (plain_call (hsed _) fun _ => plain_edits _
      (isPom_append v.httpdPath (y := "/conf/extra/httpd-ssl.conf".toList) (by decide)))
  have hinclude : Plain (configureInclude v) :=
    plain_call rfl fun _ => plain_ifThen ((plain_appendTo _ (isPom_httpdConf v)).bind fun _ =>
      plain_call (isPlain_cp _
        (isPom_append v.httpdPath (y := "/conf/extra/avetti.conf".toList) (by decide)))
        fun _ => plain_pure _)
  have hvhosts : Plain (configureVhosts v) := by
    simp only [configureVhosts, capture_bind, run_bind]
    exact plain_call rfl fun _ => plain_ite (plain_call (isPlain_cp _ (isPom_vhostsConf v)) fun _ =>
      plain_edits _ (isPom_vhostsConf v)) (plain_pure _)
  refine hidentity.bind fun _ => hssl.bind fun _ => hinclude.bind fun _ => ?_
  exact plain_call (hsed _) fun _ => hvhosts

theorem plain_configureTomcat : Plain (configureTomcat v) := by
  simp only [configureTomcat, fileTest_bind, run_bind, capture_bind]
  refine plain_call rfl fun _ => plain_ite ?_ (plain_pure _)
  iterate 10 refine plain_call rfl fun _ => ?_
  exact plain_pure _

theorem plain_extendProfile (word lines : Text) : Plain (extendProfile word lines) := by
  simp only [extendProfile, capture_bind]
  exact plain_call rfl fun _ => plain_ite (plain_appendTo _ rfl) (plain_pure _)

theorem plain_configureSettings : Plain (configureSettings v) := by
  simp only [configureSettings, fileTest_bind, run_bind]
  refine plain_call rfl fun _ => plain_ite (plain_call rfl fun _ => ?_) (plain_pure _)
  exact (plain_edits _ rfl).bind fun _ => plain_call rfl fun _ => plain_edits _ rfl

theorem plain_editContexts (scripts : List Text) : Plain (editContexts scripts) := by
  induction scripts with
  | nil => exact plain_pure _
  | cons script scripts ih => exact plain_call rfl fun _ => plain_call rfl fun _ => ih

theorem plain_finish (coreDir : Text) : Plain (finish v coreDir) := by
  have hsolr : Plain (configureSolr46 coreDir) :=
    plain_call rfl fun _ => plain_call rfl fun _ => plain_pure _
  have hcron : Plain configureCrontab := by
    simp only [configureCrontab, command_bind, run_bind]
    refine plain_call rfl fun _ => plain_ite ((plain_writeTo _ rfl).bind fun _ => ?_) (plain_pure _)
    refine plain_call rfl fun _ => (plain_writeTo _ rfl).bind fun _ => ?_
    refine (plain_appendTo _ rfl).bind fun _ => plain_call rfl fun _ => plain_call rfl fun _ => ?_
    exact plain_pure _
  have hcontexts : Plain (configureContexts v) :=
    (plain_editContexts _).bind fun _ => plain_call rfl fun _ => plain_call rfl fun _ => plain_pure _
  refine hsolr.bind fun _ => hcron.bind fun _ => hcontexts.bind fun _ => ?_
  exact plain_call rfl fun _ => plain_ite (plain_leave 1) (plain_pure _)

end Plain

/-! ## The script in parts -/

/-- The part of `setup.sh` before the compilation. -/
def setupBefore (glob : Text → List Text) (JAVA_HOME : Text) (args : List Text) : Sh Vars := do
  let uid ← capture ["id", "-u"]
  ifThen (uid ≠ "0".toList) (leave 1)
  let p ← parameters glob args
  let v ← requirements glob (.ofParams p JAVA_HOME)
  install glob v
  return v

theorem setup_eq (glob : Text → List Text) (JAVA_HOME : Text) (args : List Text) :
    setup glob JAVA_HOME args = setupBefore glob JAVA_HOME args >>= fun v =>
      compileCommerce glob v >>= fun coreDir => finish v coreDir := by
  simp only [setup, setupBefore, bind_assoc, pure_bind]

/-- The parameters a run comes to are those its arguments set. -/
theorem ensures_setupBefore {S : Cmd → Reply → Prop} {Q : Vars → Prop}
    (glob : Text → List Text) (JAVA_HOME : Text) (args : List Text)
    (hreq : Ensures S Q (requirements glob (.ofParams (paramsOf glob args) JAVA_HOME))) :
    Ensures S Q (setupBefore glob JAVA_HOME args) := by
  refine ensures_seq fun _ => ensures_seq fun _ => ?_
  refine ensures_bind (ensures_parameters S glob args) fun p hp => ?_
  rw [hp]
  exact ensures_bind hreq fun v hv => ensures_seq fun _ => ensures_pure hv

/-! ## The variables about the MySQL server -/

/-- The parameters, and the variables about the MySQL server. -/
def Vars.mysql (v : Vars) : Params × Text × Text × Text :=
  (v.toParams, v.mysqlHost, v.mysqlPort, v.allDb)

section Values

variable {S : Cmd → Reply → Prop} (glob : Text → List Text) (v : Vars)

theorem ensures_webServer : Ensures S (fun v' => v'.mysql = v.mysql) (webServer v) := by
  refine ensures_ite (fun _ => ensures_seq fun _ => ensures_seq fun _ => ?_) fun _ => ensures_pure rfl
  exact ensures_ite (fun _ => ensures_pure rfl) fun _ => ensures_leave 1

theorem ensures_codeVersion : Ensures S (fun v' => v'.mysql = v.mysql) (codeVersion glob v) := by
  refine ensures_seq fun _ => ensures_seq fun _ => ensures_ite (fun _ => ?_) fun _ => ?_
  · exact ensures_seq fun _ => ensures_seq fun _ => ensures_seq fun _ => ensures_pure rfl
  · refine ensures_seq fun _ => ensures_ite (fun _ => ?_) fun _ => ensures_leave 0
    refine ensures_seq fun _ => ensures_seq fun _ => ensures_seq fun _ => ?_
    exact ensures_seq fun _ => ensures_pure rfl

/-- **The requirements** keep the parameters, and what the questions about the MySQL server set is
what they leave. -/
theorem ensures_requirements {Q : Params × Text × Text × Text → Prop}
    (hserver : Ensures S (fun v' => Q v'.mysql) (mysqlServer glob v)) :
    Ensures S (fun v' => Q v'.mysql) (requirements glob v) := by
  refine ensures_seq fun _ => ensures_seq fun _ => ensures_seq fun _ => ensures_seq fun _ => ?_
  refine ensures_bind hserver fun v₁ h₁ => ensures_bind (ensures_webServer v₁) fun v₂ h₂ => ?_
  exact (ensures_codeVersion glob v₂).mono fun v₃ h₃ => by rwa [h₃, h₂]

end Values

end Avetti
