import Avetti.Setup.Passwords

/-!
# Up to the checkout of the code, and from there on

The questions about the version end with `svn info` for the credentials that were typed. The same
credentials are used at the checkout, and in the edits of `pom.xml` before and after the modules are
set up; no other part of `setup.sh` checks out code or changes a `pom.xml`.

## Main definitions

* `KeepsPom p`: no command of `p` checks out code or changes a `pom.xml`
* `toCheckout`, `fromCheckout`: the script before the checkout of the code, and after it
* `SvnAnswers`, `SvnAnswered`: the answers to the questions about the code
* `Vars.svn`: the variables about the code
* `Verifies glob v e`: the event is a successful `svn info` for the credentials of `v`

## Main results

* `setup_eq_checkout`: the script as its part before the checkout, the checkout and the rest
* `keepsPom_toCheckout`: nothing is checked out before the checkout
* `ensures_toCheckout`: the variables about the code are what was typed
* `visits_toCheckout`: the credentials have been verified before the checkout
-/

open Script

namespace Avetti

variable {α β : Type}

/-! ## Parts that keep the code as it is -/

/-- No command of the script checks out code or changes a `pom.xml`. -/
def KeepsPom (p : Sh α) : Prop := Emits (fun c _ => c.writesPom = false) p

theorem KeepsPom.bind {p : Sh α} {q : α → Sh β} (hp : KeepsPom p) (hq : ∀ a, KeepsPom (q a)) :
    KeepsPom (p >>= q) := emits_bind hp hq

theorem keepsPom_call {c : Cmd} {k : Reply → Sh α} (hc : c.writesPom = false)
    (hk : ∀ r, KeepsPom (k r)) : KeepsPom (call c k) := emits_call (fun _ => hc) hk

theorem keepsPom_ite {c : Prop} [Decidable c] {p q : Sh α} (hp : KeepsPom p) (hq : KeepsPom q) :
    KeepsPom (if c then p else q) := emits_ite hp hq

theorem keepsPom_pure (a : α) : KeepsPom (pure a : Sh α) := trivial

theorem writesPom_of_isApart {c : Cmd} (hc : c.isApart = true) : c.writesPom = false := by
  cases c with
  | run ws => exact (Bool.not_eq_true' _).mp (Bool.and_eq_true_iff.mp hc).2
  | mvn m a => rfl
  | _ => exact (Bool.not_eq_true' _).mp hc

theorem CheckedApart.keepsPom {p : Sh α} (hp : CheckedApart p) : KeepsPom p :=
  hp.emits.mono fun _ _ hc => writesPom_of_isApart hc

theorem Plain.keepsPom {p : Sh α} (hp : Plain p) : KeepsPom p := (checked_of_plain hp).keepsPom

section Parts

variable (glob : Text → List Text) (v : Vars)

theorem keepsPom_run_bind {ws : List Text} {k : Int → Sh α}
    (hws : (Cmd.run ws).writesPom = false) (hk : ∀ status, KeepsPom (k status)) :
    KeepsPom (run ws >>= k) := keepsPom_call hws fun _ => hk _

theorem keepsPom_mysqlServer : KeepsPom (mysqlServer glob v) := by
  have hlist : ∀ v : Vars, KeepsPom (listDatabases glob v) := by
    intro v
    simp only [listDatabases, run_bind, capture_bind]
    refine keepsPom_call rfl fun _ => keepsPom_call rfl fun _ => ?_
    exact (plain_ifThen (plain_leave 1)).keepsPom.bind fun _ =>
      (plain_ifThen (plain_leave 1)).keepsPom.bind fun _ => keepsPom_pure _
  simp only [mysqlServer, ask_bind]
  refine keepsPom_ite (keepsPom_call rfl fun _ => ?_) (keepsPom_pure _)
  exact (checked_mysqlPortAnswer glob _).keepsPom.bind fun _ => (hlist _).bind fun _ => keepsPom_pure _

theorem keepsPom_configureMysql : KeepsPom (configureMysql glob v) := by
  have hgrants : ∀ apart host, KeepsPom (grants glob v apart host) := fun _ _ =>
    keepsPom_run_bind rfl fun _ => keepsPom_run_bind rfl fun _ => keepsPom_run_bind rfl fun _ =>
      keepsPom_pure _
  have hpassword : KeepsPom (do let _ ← teed (["mysqladmin".toList, "-uroot".toList,
      "password".toList] ++ unquotedVar glob [] v.mysqlRootPwd)) :=
    keepsPom_call rfl fun _ => keepsPom_pure _
  exact KeepsPom.bind (keepsPom_ite hpassword (keepsPom_pure _)) fun _ =>
    keepsPom_ite (hgrants _ _) (hgrants _ _)

theorem keepsPom_stage (m : Mvn) : KeepsPom (stage m) := by
  have hmvn : ∀ a, KeepsPom (mvn m a) := fun a => keepsPom_call rfl fun _ => keepsPom_pure _
  exact (hmvn .first).bind fun _ => keepsPom_ite
    (keepsPom_ite ((hmvn .second).bind fun _ => keepsPom_pure _) trivial) (keepsPom_pure _)

theorem keepsPom_migrateAndDeploy : KeepsPom (migrateAndDeploy glob v) := by
  have haliases : ∀ db, KeepsPom (domainAliases glob v db) := fun _ =>
    keepsPom_run_bind rfl fun _ => keepsPom_run_bind rfl fun _ => keepsPom_run_bind rfl fun _ =>
      keepsPom_run_bind rfl fun _ => keepsPom_pure _
  have hset : ∀ m db, KeepsPom (stage m >>= fun _ => domainAliases glob v db) := fun m db =>
    (keepsPom_stage m).bind fun _ => haliases db
  refine KeepsPom.bind (keepsPom_ite (keepsPom_stage _) (hset _ _)) fun _ => ?_
  refine KeepsPom.bind (keepsPom_ite (keepsPom_stage _) (hset _ _)) fun _ => ?_
  refine KeepsPom.bind (keepsPom_ite (keepsPom_stage _) (keepsPom_stage _)) fun _ => ?_
  iterate 3 refine (keepsPom_stage _).bind fun _ => ?_
  exact keepsPom_stage _

/-! ## The script around the checkout -/

/-- The script before the checkout of the code: the variables before and after the
installations. -/
def toCheckout (JAVA_HOME : Text) (args : List Text) : Sh (Vars × Vars) := do
  let vs ← beforeGrants glob JAVA_HOME args
  configureMysql glob vs.2
  configureHttpd vs.2
  configureTomcat vs.2
  updateChkconfig
  extendProfile "apache" umaskLines
  return vs

/-- The configuration between the checkout and the compilation. -/
def afterCheckout (v : Vars) : Sh Unit := do
  configureSettings v
  extendProfile "MAVEN_OPTS" mavenLines

/-- The script after the modules are set up and the credentials taken out. -/
def afterRemoval (coreDir : Text) : Sh Unit := do
  migrateAndDeploy glob v
  finish v coreDir

theorem setup_eq_checkout (JAVA_HOME : Text) (args : List Text) :
    setup glob JAVA_HOME args = toCheckout glob JAVA_HOME args >>= fun vs =>
      checkout vs.2 >>= fun _ => afterCheckout vs.2 >>= fun _ =>
        stage (home .moduleSetup) >>= fun _ => afterModuleSetup vs.1 >>= fun coreDir =>
          afterRemoval glob vs.1 coreDir := by
  simp only [setup_eq_grants, toCheckout, afterCheckout, afterRemoval, afterGrants, installAfter,
    compileCommerce, bind_assoc, pure_bind]

theorem keepsPom_toCheckout (JAVA_HOME : Text) (args : List Text) :
    KeepsPom (toCheckout glob JAVA_HOME args) := by
  have hrequirements : ∀ v : Vars, KeepsPom (requirements glob v) := by
    intro v
    refine checked_checkSvn.keepsPom.bind fun _ => (checked_checkMysql v).keepsPom.bind fun _ => ?_
    refine (checked_checkJava v).keepsPom.bind fun _ => checked_checkNetcat.keepsPom.bind fun _ => ?_
    refine (keepsPom_mysqlServer glob v).bind fun v => ?_
    exact (plain_webServer v).keepsPom.bind fun v => (checked_codeVersion glob v).keepsPom
  have hinstall : ∀ v : Vars, KeepsPom (installBefore v) := by
    intro v
    refine plain_installRequirements.keepsPom.bind fun _ => ?_
    refine checked_createUsers.keepsPom.bind fun _ => (plain_setHostname v).keepsPom.bind fun _ => ?_
    refine (plain_setHosts v).keepsPom.bind fun _ => keepsPom_run_bind rfl fun _ => ?_
    refine plain_setSudoers.keepsPom.bind fun _ => plain_hasApt.keepsPom.bind fun _ => ?_
    refine (plain_ifThen plain_linkInsserv).keepsPom.bind fun _ => ?_
    exact (checked_installPackages v).keepsPom.bind fun _ => keepsPom_pure _
  have hgrants : KeepsPom (beforeGrants glob JAVA_HOME args) := by
    simp only [beforeGrants, capture_bind]
    refine keepsPom_call rfl fun _ => (plain_ifThen (plain_leave 1)).keepsPom.bind fun _ => ?_
    refine (plain_parameters glob args).keepsPom.bind fun p => (hrequirements _).bind fun v => ?_
    exact (hinstall v).bind fun _ => keepsPom_pure _
  refine hgrants.bind fun vs => (keepsPom_configureMysql glob vs.2).bind fun _ => ?_
  refine (plain_configureHttpd vs.2).keepsPom.bind fun _ => ?_
  refine (plain_configureTomcat vs.2).keepsPom.bind fun _ => checked_updateChkconfig.keepsPom.bind ?_
  exact fun _ => (plain_extendProfile _ _).keepsPom.bind fun _ => keepsPom_pure _

theorem keepsPom_afterCheckout : KeepsPom (afterCheckout v) :=
  (plain_configureSettings v).keepsPom.bind fun _ => (plain_extendProfile _ _).keepsPom

theorem keepsPom_afterRemoval (coreDir : Text) : KeepsPom (afterRemoval glob v coreDir) :=
  (keepsPom_migrateAndDeploy glob v).bind fun _ => (plain_finish v coreDir).keepsPom

end Parts

-- a statement about this part does not run the script
attribute [irreducible] afterRemoval

/-! ## The answers -/

/-- The answers to the questions about the code: the user, the password and the path. -/
structure SvnAnswers where
  user : Text
  password : Text
  path : Text
  deriving DecidableEq

/-- The questions about the code are answered in this way. -/
def SvnAnswered (a : SvnAnswers) : Cmd → Reply → Prop
  | .read var, r => (var = "avettisvnuser".toList → r.out = a.user) ∧
      (var = "avettisvnpassword".toList → r.out = a.password) ∧
      (var = "answer3".toList → r.out = a.path)
  | _, _ => True

/-- The variables about the code. -/
def Vars.svn (v : Vars) : Text × Text × Text × Text :=
  (v.avettisvnuser, v.avettisvnpassword, v.path_to_code, v.code_to_install)

/-- The variables about the code are those that were typed, for the version that is installed by
default or for the one that was typed. -/
def AsTyped (glob : Text → List Text) (a : SvnAnswers) (svn : Text × Text × Text × Text) : Prop :=
  svn = (a.user, a.password, defaultPath, codeOf 1 defaultPath) ∨
    svn = (a.user, a.password, typedPath glob a.path, codeOfPath glob (typedPath glob a.path))

section Values

variable (glob : Text → List Text) {a : SvnAnswers}

theorem ensures_codeVersion_svn {v : Vars} (hpath : v.path_to_code = defaultPath)
    (hcode : v.code_to_install = codeOf 1 defaultPath) :
    Ensures (SvnAnswered a) (fun v' => AsTyped glob a v'.svn) (codeVersion glob v) := by
  simp only [codeVersion, ask_bind]
  refine ensures_call fun _ _ => ensures_seq fun _ => ensures_ite (fun _ => ?_) fun _ => ?_
  · refine ensures_call fun r hr => ensures_call fun r' hr' => ensures_seq fun _ => ?_
    refine ensures_pure (Or.inl ?_)
    have huser : r.out = a.user := hr.1 rfl
    have hpassword : r'.out = a.password := hr'.2.1 rfl
    rw [Vars.svn, huser, hpassword, hpath, hcode]
  · refine ensures_seq fun _ => ensures_ite (fun _ => ?_) fun _ => ensures_leave 0
    refine ensures_call fun r hr => ensures_call fun r' hr' => ensures_call fun r'' hr'' => ?_
    refine ensures_seq fun _ => ensures_pure (Or.inr ?_)
    have htyped : r.out = a.path := hr.2.2 rfl
    have huser : r'.out = a.user := hr'.1 rfl
    have hpassword : r''.out = a.password := hr''.2.1 rfl
    rw [Vars.svn, htyped, huser, hpassword]

theorem ensures_requirements_svn (p : Params) (JAVA_HOME : Text) :
    Ensures (SvnAnswered a) (fun v => AsTyped glob a v.svn)
      (requirements glob (.ofParams p JAVA_HOME)) := by
  -- the questions before the version leave its variables
  have hkeeps : ∀ {v v' : Vars}, v'.path_to_code = v.path_to_code ∧
      v'.code_to_install = v.code_to_install → v.path_to_code = defaultPath ∧
        v.code_to_install = codeOf 1 defaultPath →
      v'.path_to_code = defaultPath ∧ v'.code_to_install = codeOf 1 defaultPath :=
    fun h h' => ⟨h.1.trans h'.1, h.2.trans h'.2⟩
  have hmysql : ∀ v : Vars, Ensures (SvnAnswered a) (fun v' => v'.path_to_code = v.path_to_code ∧
      v'.code_to_install = v.code_to_install) (mysqlServer glob v) := by
    intro v
    refine ensures_ite (fun _ => ensures_seq fun _ => ?_) fun _ => ensures_pure ⟨rfl, rfl⟩
    exact ensures_seq fun _ => ensures_seq fun _ => ensures_pure ⟨rfl, rfl⟩
  have hweb : ∀ v : Vars, Ensures (SvnAnswered a) (fun v' => v'.path_to_code = v.path_to_code ∧
      v'.code_to_install = v.code_to_install) (webServer v) := by
    intro v
    refine ensures_ite (fun _ => ensures_seq fun _ => ensures_seq fun _ => ?_) fun _ =>
      ensures_pure ⟨rfl, rfl⟩
    exact ensures_ite (fun _ => ensures_pure ⟨rfl, rfl⟩) fun _ => ensures_leave 1
  refine ensures_seq fun _ => ensures_seq fun _ => ensures_seq fun _ => ensures_seq fun _ => ?_
  refine ensures_bind (hmysql _) fun v₁ h₁ => ensures_bind (hweb v₁) fun v₂ h₂ => ?_
  have h := hkeeps h₂ (hkeeps h₁ ⟨rfl, rfl⟩)
  exact ensures_codeVersion_svn glob h.1 h.2

/-- The installations leave the variables about the code. -/
theorem ensures_installBefore_svn {S : Cmd → Reply → Prop} (v : Vars) :
    Ensures S (fun v' => v'.svn = v.svn) (installBefore v) := by
  iterate 8 refine ensures_seq fun _ => ?_
  exact ensures_seq fun _ => ensures_pure rfl

/-- **Up to the checkout**, the variables about the code are as they were typed. -/
theorem ensures_toCheckout (JAVA_HOME : Text) (args : List Text) :
    Ensures (SvnAnswered a) (fun vs => AsTyped glob a vs.1.svn ∧ vs.2.svn = vs.1.svn)
      (toCheckout glob JAVA_HOME args) := by
  have hgrants : Ensures (SvnAnswered a) (fun vs => AsTyped glob a vs.1.svn ∧ vs.2.svn = vs.1.svn)
      (beforeGrants glob JAVA_HOME args) := by
    refine ensures_seq fun _ => ensures_seq fun _ => ensures_seq fun p => ?_
    refine ensures_bind (ensures_requirements_svn glob p JAVA_HOME) fun v hv => ?_
    exact ensures_bind (ensures_installBefore_svn v) fun v' hv' => ensures_pure ⟨hv, hv'⟩
  refine ensures_bind hgrants fun vs hvs => ?_
  iterate 5 refine ensures_seq fun _ => ?_
  exact ensures_pure hvs

/-! ## The verification -/

/-- The words of `svn info` for the variables about the code. -/
def svnInfoWords (v : Vars) : List Text :=
  ["svn".toList, "info".toList, "--no-auth-cache".toList, "--trust-server-cert".toList,
    "--non-interactive".toList] ++ unquotedVar glob "--username=" v.avettisvnuser ++
    unquotedVar glob "--password=" v.avettisvnpassword ++
    unquotedVar glob (repository []) v.path_to_code

/-- The event is a successful `svn info` for the variables. -/
def Verifies (v : Vars) (e : Cmd × Reply) : Prop :=
  e.1 = .run (svnInfoWords glob v) ∧ e.2.status = 0

theorem svnInfoWords_congr {v v' : Vars} (h : v'.svn = v.svn) :
    svnInfoWords glob v' = svnInfoWords glob v := by
  simp only [Vars.svn, Prod.mk.injEq] at h
  obtain ⟨huser, hpassword, hpath, -⟩ := h
  rw [svnInfoWords, svnInfoWords, huser, hpassword, hpath]

theorem visits_svnInfo (v : Vars) : Visits (fun _ => Verifies glob v) (svnInfo glob v) := by
  intro t u hrun
  obtain ⟨r, t₁, rfl, h₁⟩ := runs_call_iff.mp hrun
  refine ⟨_, List.mem_cons_self, rfl, ?_⟩
  obtain ⟨r', t₂, rfl, h₂⟩ := runs_call_iff.mp h₁
  have htest : Runs (if decide (r.status ≠ 0) = true then leave 1 else pure () : Sh Unit) t₂
      (.returned u) := h₂
  by_contra hstatus
  rw [if_pos (decide_eq_true hstatus)] at htest
  obtain ⟨-, hexit⟩ := runs_exit_iff.mp htest
  cases hexit

theorem visits_codeVersion (v : Vars) : Visits (Verifies glob) (codeVersion glob v) := by
  have hcode : ∀ (v : Vars) code e, Verifies glob v e →
      Verifies glob { v with code_to_install := code } e := fun _ _ _ he => he
  refine visits_seq fun _ => visits_seq fun _ => visits_ite (fun _ => ?_) fun _ => ?_
  · refine visits_seq fun _ => visits_seq fun _ => visits_bind (visits_svnInfo glob _) fun _ => ?_
    exact ensures_pure fun _ he => he
  · refine visits_seq fun _ => visits_ite (fun _ => ?_) fun _ => visits_leave 0
    refine visits_seq fun _ => visits_seq fun _ => visits_seq fun _ => ?_
    exact visits_bind (visits_svnInfo glob _) fun _ => ensures_pure (hcode _ _)

/-- **Before the checkout** the credentials have been verified. -/
theorem visits_toCheckout (JAVA_HOME : Text) (args : List Text) :
    Visits (fun vs => Verifies glob vs.2) (toCheckout glob JAVA_HOME args) := by
  have hrequirements : ∀ v : Vars, Visits (Verifies glob) (requirements glob v) := by
    intro v
    iterate 6 refine visits_seq fun _ => ?_
    exact visits_codeVersion glob _
  have hgrants : Visits (fun vs => Verifies glob vs.2) (beforeGrants glob JAVA_HOME args) := by
    refine visits_seq fun _ => visits_seq fun _ => visits_seq fun _ => ?_
    refine visits_bind (hrequirements _) fun v => ?_
    refine ensures_bind (ensures_installBefore_svn v) fun v' hv' => ensures_pure fun e he => ?_
    rw [Verifies, svnInfoWords_congr glob hv']
    exact he
  refine visits_bind hgrants fun vs => ?_
  iterate 5 refine ensures_seq fun _ => ?_
  exact ensures_pure fun _ he => he

end Values

end Avetti
