import Avetti.Setup.Databases
import Avetti.Text.Sql

/-!
# The password of the database user

`configureMysql` grants the three databases to the user `avetti` with a password, as a string literal
of SQL. The changes of the domain aliases are made as that user: with the password on the command
line when `root` has a password, and without any password otherwise.

## Main definitions

* `isAvetti`, `clientPassword`: a call of the client as `avetti`, and the password it passes
* `grantOf`, `lastGranted`: the password a `GRANT` sets, and the one that is set last
* `UsesGranted t`: every call of the client as `avetti` passes the password that was granted last
* `grantedValue pwd`, `passedValue glob pwd`: the password as SQL reads it, and as the shell passes it

## Main results

* `grantedValue_eq_self_iff`: a password is granted as it is exactly when it stands for itself in SQL
* `granted_and_passed`: what has been granted, and what is passed, in every run
* `usesGranted_iff`: the granted password is used exactly when `root` has a password, and SQL and the
  shell read the password of `avetti` alike
-/

open Script

namespace Avetti

variable {α β : Type}

/-! ## The user and the grants -/

/-- The command is the MySQL client as the user `avetti`. -/
def isAvetti (ws : List Text) : Bool := ws.take 2 = ["mysql".toList, "-uavetti".toList]

/-- The password of the option `-p`. -/
def passwordOption (w : Text) : Option Text :=
  if "-p".toList.isPrefixOf w then some (w.drop 2) else none

/-- The password that a client passes: the last one of its options, which stand before the
statement. -/
def clientPassword (ws : List Text) : Option Text := (ws.dropLast.filterMap passwordOption).getLast?

/-- The command is the MySQL client as `root`, with a `GRANT`. -/
def isGrant (ws : List Text) : Bool :=
  decide (ws.take 2 = ["mysql".toList, "-uroot".toList]) &&
    ws.getLast?.any ("GRANT ".toList.isPrefixOf ·)

/-- The password that is read after the opening quote: the literal, when the statement ends after
it. -/
def grantedLiteral (t : Text) : Option Text :=
  (Sql.literal t).bind fun (v, r) => if r.head? = some ';' then some v else none

/-- The password after `identified by` in a statement. -/
def identifiedBy : Text → Option Text
  | [] => none
  | c :: t =>
    if " identified by '".toList.isPrefixOf (c :: t) then
      grantedLiteral ((c :: t).drop " identified by '".toList.length)
    else identifiedBy t

/-- The password that an event grants, when it is a `GRANT`. -/
def grantOf : Cmd × Reply → Option (Option Text)
  | (.run ws, _) => if isGrant ws then some (identifiedBy (ws.getLast?.getD [])) else none
  | _ => none

/-- The password of the last `GRANT` of a run. -/
def lastGranted (t : Trace) : Option (Option Text) := (t.filterMap grantOf).getLast?

/-- **The granted password is used**: every call of the client as `avetti` passes the password that
the last `GRANT` before it set. -/
def UsesGranted (t : Trace) : Prop :=
  ∀ pre ws r post, t = pre ++ (.run ws, r) :: post → isAvetti ws = true →
    ∃ pwd, lastGranted pre = some (some pwd) ∧ clientPassword ws = some pwd

/-! ## The password in SQL and in the shell -/

/-- The password as SQL reads it in the `GRANT`. -/
def grantedValue (pwd : Text) : Option Text := grantedLiteral (pwd ++ ['\'', ';'])

/-- The password as the shell passes it with `-p`. -/
def passedValue (glob : Text → List Text) (pwd : Text) : Option Text :=
  ((unquotedVar glob "-p" pwd).filterMap passwordOption).getLast?

theorem identifiedBy_grantStatement {db host : Text} (hdb : db ∈ [Db.preview, .shop, .backup].map Db.name)
    (hhost : host ∈ ["localhost".toList, "%".toList]) (pwd : Text) :
    identifiedBy (grantStatement db host pwd) = grantedValue pwd := by
  simp only [List.map_cons, List.map_nil, List.mem_cons, List.not_mem_nil, or_false] at hdb hhost
  rcases hdb with rfl | rfl | rfl <;> rcases hhost with rfl | rfl <;> rfl

/-- A password is granted as it is exactly when it stands for itself between quotes. -/
theorem grantedValue_eq_self_iff {pwd : Text} :
    grantedValue pwd = some pwd ↔ Sql.IsVerbatim pwd := by
  constructor
  · intro h
    obtain ⟨⟨v, r⟩, hliteral, hv⟩ := Option.bind_eq_some_iff.mp h
    dsimp only at hv
    split_ifs at hv
    obtain rfl := Option.some.inj hv
    exact Sql.literal_append_iff.mp ⟨r, hliteral⟩
  · intro h
    rw [grantedValue, grantedLiteral, Sql.literal_of_isVerbatim h (by simp)]
    rfl

/-- A password that the shell passes as one word is passed as it is. -/
theorem passedValue_of_unquotedVar {glob : Text → List Text} {pwd : Text}
    (h : unquotedVar glob "-p" pwd = ["-p".toList ++ pwd]) : passedValue glob pwd = some pwd := by
  rw [passedValue, h]
  rfl

/-! ## The words of the client -/

/-- What a pathname that matches a pattern begins with: the part of the pattern before its first
special character. -/
def Pathnames (glob : Text → List Text) : Prop :=
  ∀ w, ∀ path ∈ glob w, w.takeWhile (· ∉ ['*', '?', '[', '\\']) <+: path

/-- An answer that is typed is a line. -/
def TypedLine (c : Cmd) (r : Reply) : Prop := ∀ var, c = .read var → '\n' ∉ r.out

/-- The answers that are typed in a run are lines. -/
def Typed (t : Trace) : Prop := ∀ e ∈ t, TypedLine e.1 e.2

section Client

variable {glob : Text → List Text} {v : Vars}

/-- The words of an unquoted variable start with what is written before it. -/
theorem prefix_of_mem_unquotedVar (hglob : Pathnames glob) {pre x w : Text}
    (hne : pre ≠ []) (hpre : ∀ c ∈ pre, c ∉ ['*', '?', '[', '\\', '\n']) (hx : '\n' ∉ x)
    (hw : w ∈ unquotedVar glob pre x) : pre <+: w := by
  have hword : Shell.IsWord ['\n'] (pre ++ x) := by
    refine ⟨by simp [hne], fun c hc hmem => ?_⟩
    obtain rfl := List.mem_singleton.mp hc
    rcases List.mem_append.mp hmem with hmem | hmem
    · exact hpre _ hmem (by decide)
    · exact hx hmem
  have hlit : (pre ++ x).takeWhile (· ∉ ['*', '?', '[', '\\']) =
      pre ++ x.takeWhile (· ∉ ['*', '?', '[', '\\']) := by
    refine List.takeWhile_append_of_pos fun c hc => decide_eq_true fun h => hpre c hc ?_
    exact List.mem_append_left ['\n'] h
  rw [unquotedVar, Shell.unquoted, Shell.words_of_isWord hword, List.flatMap_singleton,
    Shell.expand] at hw
  split_ifs at hw
  · have hbegins := hglob _ w hw
    rw [hlit] at hbegins
    exact (List.prefix_append _ _).trans hbegins
  · rw [List.mem_singleton.mp hw]
    exact List.prefix_append _ _

theorem passwordOption_of_port (hglob : Pathnames glob) {port w : Text} (hport : '\n' ∉ port)
    (hw : w ∈ unquotedVar glob "-P" port) : passwordOption w = none := by
  obtain ⟨u, rfl⟩ := prefix_of_mem_unquotedVar hglob (by simp) (by decide) hport hw
  rfl

/-- The password that the client passes is the one it is given. -/
theorem clientPassword_mysqlClient (hglob : Pathnames glob) (hhost : v.mysqlHost = "localhost".toList)
    (hport : '\n' ∉ v.mysqlPort) (user statement : Text) (pwd : Option Text) :
    clientPassword (mysqlClient glob v user pwd false statement) = pwd.bind (passedValue glob) := by
  have hports : (unquotedVar glob "-P" v.mysqlPort).filterMap passwordOption = [] :=
    List.filterMap_eq_nil_iff.mpr fun w hw => passwordOption_of_port hglob hport hw
  have hhosts : (unquotedVar glob "-h" v.mysqlHost).filterMap passwordOption = [] := by
    rw [hhost]
    rfl
  have hsplit : (mysqlClient glob v user pwd false statement).dropLast =
      ["mysql".toList, "-u".toList ++ user] ++ pwd.elim [] (unquotedVar glob "-p") ++
        (unquotedVar glob "-h" v.mysqlHost ++ unquotedVar glob "-P" v.mysqlPort) ++
        ["-e".toList] := by
    rw [mysqlClient, List.dropLast_append_of_ne_nil (by simp)]
    rfl
  rw [clientPassword, hsplit]
  simp only [List.filterMap_append, hhosts, hports]
  cases pwd with
  | none => rfl
  | some pwd =>
    show (([] ++ (unquotedVar glob "-p" pwd).filterMap passwordOption ++ ([] ++ [])) ++ []).getLast? = _
    simp [passedValue]

/-- The value of the password on the command line of the client as `avetti`. -/
def avettiPassword (glob : Text → List Text) (p : Params) : Option Text :=
  if p.mysqlRootPwd ≠ [] then passedValue glob p.mysqlAvettiPwd else none

end Client

/-! ## What the parts of the script run -/

/-- The command is neither a `GRANT` nor the client as `avetti`. -/
def Cmd.isSilent : Cmd → Bool
  | .run ws => !isAvetti ws && !isGrant ws
  | _ => true

/-- The script neither grants anything nor runs the client as `avetti`. -/
structure Silent (p : Sh α) : Prop where
  emits : Emits (fun c _ => c.isSilent = true) p

theorem Silent.bind {p : Sh α} {q : α → Sh β} (hp : Silent p) (hq : ∀ a, Silent (q a)) :
    Silent (p >>= q) := ⟨emits_bind hp.emits fun a => (hq a).emits⟩

theorem silent_call {c : Cmd} {k : Reply → Sh α} (hc : c.isSilent = true)
    (hk : ∀ r, Silent (k r)) : Silent (call c k) := ⟨emits_call (fun _ => hc) fun r => (hk r).emits⟩

theorem silent_pure (a : α) : Silent (pure a : Sh α) := ⟨trivial⟩

theorem isSilent_of_isApart {c : Cmd} (hc : c.isApart = true) : c.isSilent = true := by
  cases c with
  | run ws =>
    have hws : ws.head? ≠ some "mysql".toList ∨ ws[1]? = some "--version".toList :=
      (Bool.or_eq_true_iff.mp (Bool.and_eq_true_iff.mp hc).1).imp of_decide_eq_true of_decide_eq_true
    have hother : ∀ user, "--version".toList ≠ user →
        ws.take 2 ≠ ["mysql".toList, user] := by
      rintro user huser htake
      rcases ws with _ | ⟨a, _ | ⟨b, ws⟩⟩
      · cases htake
      · cases htake
      · simp only [List.take_succ_cons, List.take_zero, List.cons.injEq, and_true] at htake
        obtain ⟨rfl, rfl⟩ := htake
        rcases hws with h | h
        · exact h rfl
        · exact huser (Option.some.inj h).symm
    have havetti : isAvetti ws = false :=
      decide_eq_false (hother "-uavetti".toList (by decide))
    have hgrant : isGrant ws = false := by
      rw [isGrant, decide_eq_false (hother "-uroot".toList (by decide)), Bool.false_and]
    rw [Cmd.isSilent, havetti, hgrant]
    rfl
  | mvn m a => rfl
  | _ => rfl

/-- The part of `install` before `configureMysql`. -/
def installBefore (v : Vars) : Sh Vars := do
  installRequirements
  createUsers
  setHostname v
  setHosts v
  let _ ← run (sed (substituteAll "C:\\/" "\\/") (contextFile "solr-*.xml"))
  setSudoers
  ifThen (← hasApt) linkInsserv
  let JAVA_HOME ← installPackages v
  return { v with JAVA_HOME := JAVA_HOME }

/-- The part of `install` after `configureMysql`. -/
def installAfter (v : Vars) : Sh Unit := do
  configureHttpd v
  configureTomcat v
  updateChkconfig
  extendProfile "apache" umaskLines
  checkout v
  configureSettings v
  extendProfile "MAVEN_OPTS" mavenLines

section Parts

variable (glob : Text → List Text)

theorem install_eq (v : Vars) : install glob v = installBefore v >>= fun v' =>
    configureMysql glob v' >>= fun _ => installAfter v' := by
  simp only [install, installBefore, installAfter, bind_assoc, pure_bind]

/-- The script before `configureMysql`: the variables before and after the installations. -/
def beforeGrants (JAVA_HOME : Text) (args : List Text) : Sh (Vars × Vars) := do
  let uid ← capture ["id", "-u"]
  ifThen (uid ≠ "0".toList) (leave 1)
  let p ← parameters glob args
  let v ← requirements glob (.ofParams p JAVA_HOME)
  let v' ← installBefore v
  return (v, v')

/-- The script after `configureMysql`. -/
def afterGrants (vs : Vars × Vars) : Sh Unit := do
  installAfter vs.2
  let coreDir ← compileCommerce glob vs.1
  finish vs.1 coreDir

theorem setup_eq_grants (JAVA_HOME : Text) (args : List Text) :
    setup glob JAVA_HOME args = beforeGrants glob JAVA_HOME args >>= fun vs =>
      configureMysql glob vs.2 >>= fun _ => afterGrants glob vs := by
  simp only [setup, beforeGrants, afterGrants, install_eq, bind_assoc, pure_bind]

/-! ## Before the grants -/

theorem CheckedApart.silent {p : Sh α} (hp : CheckedApart p) : Silent p :=
  ⟨hp.emits.mono fun _ _ hc => isSilent_of_isApart hc⟩

theorem silent_of_plain {p : Sh α} (hp : Plain p) : Silent p :=
  CheckedApart.silent (checked_of_plain hp)

theorem silent_edits (scripts : List Text) (path : Text) : Silent (edits scripts path) := by
  induction scripts with
  | nil => exact silent_pure _
  | cons script scripts ih => exact silent_call rfl fun _ => ih

theorem silent_checkout (v : Vars) : Silent (checkout v) := by
  simp only [checkout, fileTest_bind, teed_bind, failed_bind]
  refine silent_call rfl fun _ => ⟨emits_ite ?_ trivial⟩
  refine (silent_call rfl fun _ => silent_call rfl fun _ => silent_call rfl fun _ => ?_).emits
  exact ⟨emits_ite (silent_edits _ _).emits trivial⟩

theorem silent_afterModuleSetup (v : Vars) : Silent (afterModuleSetup v) := by
  simp only [afterModuleSetup, command_bind, run_bind]
  refine (silent_edits _ _).bind fun _ => ?_
  iterate 5 refine silent_call rfl fun _ => ?_
  exact silent_pure _

theorem silent_installBefore (v : Vars) : Silent (installBefore v) := by
  simp only [installBefore, run_bind]
  refine (silent_of_plain plain_installRequirements).bind fun _ => ?_
  refine checked_createUsers.silent.bind fun _ => ?_
  refine (silent_of_plain (plain_setHostname v)).bind fun _ => ?_
  refine (silent_of_plain (plain_setHosts v)).bind fun _ => silent_call rfl fun _ => ?_
  refine (silent_of_plain plain_setSudoers).bind fun _ => ?_
  refine (silent_of_plain plain_hasApt).bind fun _ => ?_
  refine (silent_of_plain (plain_ifThen plain_linkInsserv)).bind fun _ => ?_
  exact (checked_installPackages v).silent.bind fun _ => silent_pure _

theorem isAvetti_root (v : Vars) (pwd : Option Text) (apart : Bool) (statement : Text) :
    isAvetti (mysqlClient glob v "root" pwd apart statement) = false := by
  have h : (["mysql".toList, "-uroot".toList] : List Text) ≠ ["mysql".toList, "-uavetti".toList] := by
    decide
  exact decide_eq_false h

theorem isAvetti_avetti (v : Vars) (pwd : Option Text) (apart : Bool) (statement : Text) :
    isAvetti (mysqlClient glob v "avetti" pwd apart statement) = true := decide_eq_true rfl

theorem isGrant_root (v : Vars) (pwd : Option Text) (apart : Bool) (statement : Text) :
    isGrant (mysqlClient glob v "root" pwd apart statement) =
      "GRANT ".toList.isPrefixOf statement := by
  have htake : (mysqlClient glob v "root" pwd apart statement).take 2 =
      ["mysql".toList, "-uroot".toList] := rfl
  rw [isGrant, htake, getLast?_mysqlClient, decide_eq_true rfl, Bool.true_and, Option.any_some]

theorem silent_mysqlServer (v : Vars) : Silent (mysqlServer glob v) := by
  have hroot : ∀ v : Vars, (Cmd.run (mysqlClient glob v "root" (passwordOf v.mysqlRootPwd) true
      showDatabases)).isSilent = true := by
    intro v
    rw [Cmd.isSilent, isAvetti_root, isGrant_root]
    rfl
  have herror : ∀ c, Silent (ifThen c errorFound) := fun _ =>
    silent_of_plain (plain_ifThen (plain_leave 1))
  have hlist : ∀ v : Vars, Silent (listDatabases glob v) := by
    intro v
    simp only [listDatabases, run_bind, capture_bind]
    refine silent_call (hroot v) fun _ => silent_call (hroot v) fun _ => ?_
    exact (herror _).bind fun _ => (herror _).bind fun _ => silent_pure _
  have hserver : ∀ v : Vars, Silent (mysqlPortAnswer glob v >>= fun mysqlPort =>
      listDatabases glob { v with mysqlPort := mysqlPort } >>= fun allDb =>
        pure { v with mysqlPort := mysqlPort, allDb := allDb }) := fun v =>
    (checked_mysqlPortAnswer glob v).silent.bind fun _ => (hlist _).bind fun _ => silent_pure _
  simp only [mysqlServer, ask_bind]
  exact ⟨emits_ite (silent_call rfl fun _ => hserver _).emits trivial⟩

theorem silent_beforeGrants (JAVA_HOME : Text) (args : List Text) :
    Silent (beforeGrants glob JAVA_HOME args) := by
  have hrequirements : ∀ v : Vars, Silent (requirements glob v) := by
    intro v
    refine checked_checkSvn.silent.bind fun _ => (checked_checkMysql v).silent.bind fun _ => ?_
    refine (checked_checkJava v).silent.bind fun _ => checked_checkNetcat.silent.bind fun _ => ?_
    refine (silent_mysqlServer glob v).bind fun v => ?_
    exact (silent_of_plain (plain_webServer v)).bind fun v => (checked_codeVersion glob v).silent
  simp only [beforeGrants, capture_bind]
  refine silent_call rfl fun _ => ?_
  refine (silent_of_plain (plain_ifThen (plain_leave 1))).bind fun _ => ?_
  refine (silent_of_plain (plain_parameters glob args)).bind fun p => ?_
  exact (hrequirements _).bind fun v => (silent_installBefore v).bind fun _ => silent_pure _

/-- The variables at the grants: the parameters, with the MySQL server on this host. -/
def AtGrants (p : Params) (m : Params × Text × Text × Text) : Prop :=
  m.1 = p ∧ m.2.1 = "localhost".toList ∧ '\n' ∉ m.2.2.1

theorem ensures_beforeGrants (JAVA_HOME : Text) (args : List Text) :
    Ensures TypedLine (fun vs => AtGrants (paramsOf glob args) vs.1.mysql ∧
      AtGrants (paramsOf glob args) vs.2.mysql) (beforeGrants glob JAVA_HOME args) := by
  have hdefault : '\n' ∉ "3306".toList := by decide
  have hport : ∀ v : Vars, v.mysqlPort = "3306".toList →
      Ensures TypedLine (fun port => '\n' ∉ port) (mysqlPortAnswer glob v) := by
    intro v hv
    simp only [mysqlPortAnswer, run_bind, ask_bind]
    refine ensures_call fun _ _ => ensures_seq fun _ => ensures_ite (fun _ => ?_) fun _ => ?_
    · refine ensures_call fun r hr => ensures_seq fun _ => ensures_ite (fun _ => ?_) fun _ => ?_
      · exact ensures_pure (hr _ rfl)
      · exact ensures_pure hdefault
    · exact ensures_pure (hv ▸ hdefault)
  have hserver : Ensures TypedLine (fun v => AtGrants (paramsOf glob args) v.mysql)
      (mysqlServer glob (.ofParams (paramsOf glob args) JAVA_HOME)) := by
    refine ensures_ite (fun _ => ensures_seq fun _ => ?_) fun _ => ?_
    · refine ensures_bind (hport _ rfl) fun port hp => ensures_seq fun _ => ?_
      exact ensures_pure ⟨rfl, rfl, hp⟩
    · exact ensures_pure ⟨rfl, rfl, hdefault⟩
  refine ensures_seq fun _ => ensures_seq fun _ => ?_
  refine ensures_bind (ensures_parameters _ glob args) fun p hp => ?_
  rw [hp]
  refine ensures_bind (ensures_requirements glob _ hserver) fun v hv => ?_
  have hinstall : Ensures TypedLine (fun v' => AtGrants (paramsOf glob args) v'.mysql)
      (installBefore v) := by
    iterate 8 refine ensures_seq fun _ => ?_
    exact ensures_seq fun _ => ensures_pure hv
  exact ensures_bind hinstall fun v' hv' => ensures_pure ⟨hv, hv'⟩

/-! ## The grants -/

theorem runs_run_bind_iff {α : Type} {ws : List Text} {k : Int → Sh α} {t : Trace} {o : Outcome α} :
    Runs (run ws >>= k) t o ↔ ∃ r t', t = (.run ws, r) :: t' ∧ Runs (k r.status) t' o := by
  rw [run_bind, runs_call_iff]

/-- What `configureMysql` grants last. -/
theorem lastGranted_configureMysql {v : Vars} (hhost : v.mysqlHost = "localhost".toList) {t : Trace}
    {u : Unit} (h : Runs (configureMysql glob v) t (.returned u)) :
    (t.filterMap grantOf).getLast? = some (grantedValue v.mysqlAvettiPwd) := by
  have hgrant : ∀ db ∈ [Db.preview, .shop, .backup].map Db.name, ∀ r,
      grantOf (.run (mysqlClient glob v "root" (passwordOf v.mysqlRootPwd) true
        (grantStatement db "localhost" v.mysqlAvettiPwd)), r) =
          some (grantedValue v.mysqlAvettiPwd) := by
    intro db hdb r
    have hbegins : "GRANT ".toList.isPrefixOf
        (grantStatement db "localhost" v.mysqlAvettiPwd) = true := rfl
    rw [grantOf, isGrant_root, hbegins, if_pos rfl, getLast?_mysqlClient, Option.getD_some,
      identifiedBy_grantStatement hdb (by decide)]
  have hgrants : ∀ {t : Trace} {o : Outcome Unit}, Runs (grants glob v true "localhost") t o →
      (t.filterMap grantOf).getLast? = some (grantedValue v.mysqlAvettiPwd) := by
    intro t o h
    obtain ⟨r₁, t₁, rfl, h₁⟩ := runs_run_bind_iff.mp h
    obtain ⟨r₂, t₂, rfl, h₂⟩ := runs_run_bind_iff.mp h₁
    obtain ⟨r₃, t₃, rfl, h₃⟩ := runs_run_bind_iff.mp h₂
    obtain ⟨rfl, rfl⟩ := runs_ret_iff.mp h₃
    simp only [List.filterMap_cons]
    rw [hgrant _ (by decide), hgrant _ (by decide), hgrant _ (by decide)]
    rfl
  -- whatever comes before them, the three grants come last
  rw [configureMysql, if_pos hhost] at h
  obtain ⟨a, t₁, t₂, rfl, -, h₂⟩ := runs_bind_returned h
  rw [List.filterMap_append, List.getLast?_append, hgrants h₂]
  rfl

/-- The command is not the client as `avetti`. -/
def Cmd.isNoAvetti : Cmd → Bool
  | .run ws => !isAvetti ws
  | _ => true

theorem noAvetti_configureMysql (v : Vars) :
    Emits (fun c _ => c.isNoAvetti = true) (configureMysql glob v) := by
  have hroot : ∀ apart statement, (Cmd.run (mysqlClient glob v "root" (passwordOf v.mysqlRootPwd)
      apart statement)).isNoAvetti = true := by
    intro apart statement
    rw [Cmd.isNoAvetti, isAvetti_root]
    rfl
  have hgrants : ∀ apart host, Emits (fun c _ => c.isNoAvetti = true) (grants glob v apart host) := by
    intro apart host
    simp only [grants, run_bind]
    exact emits_call (fun _ => hroot _ _) fun _ => emits_call (fun _ => hroot _ _) fun _ =>
      emits_call (fun _ => hroot _ _) fun _ => trivial
  have hadmin : ∀ ws, (Cmd.run ("mysqladmin".toList :: ws)).isNoAvetti = true := by
    intro ws
    have htake : ("mysqladmin".toList :: ws).take 2 ≠ ["mysql".toList, "-uavetti".toList] := by
      intro h
      exact absurd (List.cons.inj h).1 (by decide)
    rw [Cmd.isNoAvetti, isAvetti, decide_eq_false htake]
    rfl
  have hpassword : Emits (fun c _ => c.isNoAvetti = true)
      (do let _ ← teed (["mysqladmin".toList, "-uroot".toList, "password".toList] ++
        unquotedVar glob [] v.mysqlRootPwd)) :=
    emits_call (fun _ => hadmin _) fun _ => trivial
  exact emits_bind (emits_ite hpassword trivial) fun _ => emits_ite (hgrants _ _) (hgrants _ _)

/-! ## After the grants -/

/-- After the grants, nothing is granted, and the client as `avetti` passes the password. -/
def Passes (p : Params) : Cmd → Prop
  | .run ws => isGrant ws = false ∧
      (isAvetti ws = true → clientPassword ws = avettiPassword glob p)
  | _ => True

/-- After the grants: every command of the script passes the password, if any. -/
structure PassesAll (p : Params) (s : Sh α) : Prop where
  emits : Emits (fun c _ => Passes glob p c) s

variable {glob}

theorem PassesAll.bind {p : Params} {s : Sh α} {k : α → Sh β} (hs : PassesAll glob p s)
    (hk : ∀ a, PassesAll glob p (k a)) : PassesAll glob p (s >>= k) :=
  ⟨emits_bind hs.emits fun a => (hk a).emits⟩

theorem passesAll_call {p : Params} {c : Cmd} {k : Reply → Sh α} (hc : Passes glob p c)
    (hk : ∀ r, PassesAll glob p (k r)) : PassesAll glob p (call c k) :=
  ⟨emits_call (fun _ => hc) fun r => (hk r).emits⟩

theorem passesAll_ite {p : Params} {c : Prop} [Decidable c] {s s' : Sh α}
    (hs : PassesAll glob p s) (hs' : PassesAll glob p s') :
    PassesAll glob p (if c then s else s') := ⟨emits_ite hs.emits hs'.emits⟩

theorem passesAll_pure {p : Params} (a : α) : PassesAll glob p (pure a : Sh α) := ⟨trivial⟩

theorem passesAll_leave {p : Params} (n : Int) : PassesAll glob p (leave n : Sh α) := ⟨trivial⟩

theorem Silent.passesAll {p : Params} {s : Sh α} (hs : Silent s) : PassesAll glob p s := by
  refine ⟨hs.emits.mono fun c _ hc => ?_⟩
  cases c with
  | run ws =>
    simp only [Cmd.isSilent, Bool.and_eq_true, Bool.not_eq_true'] at hc
    exact ⟨hc.2, fun h => absurd (h.symm.trans hc.1) (by decide)⟩
  | _ => trivial

theorem passes_avetti (hglob : Pathnames glob) {v : Vars} {p : Params} (hv : AtGrants p v.mysql)
    (statement : Text) : Passes glob p (.run (mysqlClient glob v "avetti"
      (if v.mysqlRootPwd ≠ [] then some v.mysqlAvettiPwd else none) false statement)) := by
  obtain ⟨rfl, hhost, hport⟩ := hv
  refine ⟨?_, fun _ => ?_⟩
  · have htake : (["mysql".toList, "-uavetti".toList] : List Text) ≠
        ["mysql".toList, "-uroot".toList] := by decide
    exact Bool.and_eq_false_iff.mpr (Or.inl (decide_eq_false htake))
  · rw [clientPassword_mysqlClient hglob hhost hport, avettiPassword]
    show _ = if v.mysqlRootPwd ≠ [] then passedValue glob v.mysqlAvettiPwd else none
    split_ifs <;> rfl

theorem passesAll_afterGrants (hglob : Pathnames glob) {p : Params} {vs : Vars × Vars}
    (hv : AtGrants p vs.1.mysql) : PassesAll glob p (afterGrants glob vs) := by
  have hplain : ∀ {α : Type} {s : Sh α}, Plain s → PassesAll glob p s := fun hs =>
    (silent_of_plain hs).passesAll
  have hinstall : PassesAll glob p (installAfter vs.2) := by
    refine (hplain (plain_configureHttpd _)).bind fun _ => ?_
    refine (hplain (plain_configureTomcat _)).bind fun _ => ?_
    refine checked_updateChkconfig.silent.passesAll.bind fun _ => ?_
    refine (hplain (plain_extendProfile _ _)).bind fun _ => ?_
    refine (silent_checkout _).passesAll.bind fun _ => ?_
    exact (hplain (plain_configureSettings _)).bind fun _ => hplain (plain_extendProfile _ _)
  have hmvn : ∀ m a, PassesAll glob p (mvn m a) := fun m a =>
    passesAll_call trivial fun _ => passesAll_pure _
  have hstage : ∀ m, PassesAll glob p (stage m) := fun m =>
    (hmvn m .first).bind fun _ => passesAll_ite (passesAll_ite
      ((hmvn m .second).bind fun _ => passesAll_pure _) (passesAll_leave 1)) (passesAll_pure _)
  have hrun : ∀ statement, PassesAll glob p (run (mysqlClient glob vs.1 "avetti"
      (if vs.1.mysqlRootPwd ≠ [] then some vs.1.mysqlAvettiPwd else none) false statement)) :=
    fun statement => passesAll_call (passes_avetti hglob hv statement) fun _ => passesAll_pure _
  have haliases : ∀ db, PassesAll glob p (domainAliases glob vs.1 db) := fun db =>
    (hrun _).bind fun _ => (hrun _).bind fun _ => (hrun _).bind fun _ => (hrun _).bind fun _ =>
      passesAll_pure _
  have hset : ∀ m db, PassesAll glob p (stage m >>= fun _ => domainAliases glob vs.1 db) :=
    fun m db => (hstage m).bind fun _ => haliases db
  have hdeploy : PassesAll glob p (migrateAndDeploy glob vs.1) := by
    refine PassesAll.bind (passesAll_ite (hstage _) (hset _ _)) fun _ => ?_
    refine PassesAll.bind (passesAll_ite (hstage _) (hset _ _)) fun _ => ?_
    refine PassesAll.bind (passesAll_ite (hstage _) (hstage _)) fun _ => ?_
    refine (hstage _).bind fun _ => (hstage _).bind fun _ => ?_
    exact (hstage _).bind fun _ => hstage _
  have hcompile : PassesAll glob p (compileCommerce glob vs.1) :=
    (hstage _).bind fun _ => (silent_afterModuleSetup _).passesAll.bind fun _ =>
      hdeploy.bind fun _ => passesAll_pure _
  exact hinstall.bind fun _ => hcompile.bind fun coreDir => hplain (plain_finish _ coreDir)

end Parts

/-! ## Runs of the script -/

section Runs

variable {glob : Text → List Text} {JAVA_HOME : Text} {args : List Text} {t : Trace}

theorem eq_append_of_notMem {t u pre post : Trace} {e : Cmd × Reply} (h : t ++ u = pre ++ e :: post)
    (he : e ∉ t) : ∃ q, pre = t ++ q ∧ u = q ++ e :: post := by
  rcases List.append_eq_append_iff.mp h with ⟨q, rfl, hq⟩ | ⟨q, rfl, hq⟩
  · exact ⟨q, rfl, hq⟩
  · rcases q with _ | ⟨e', q⟩
    · exact ⟨[], by simp, by simpa using hq.symm⟩
    · obtain ⟨rfl, -⟩ := List.cons.inj hq
      exact absurd (List.mem_append_right pre List.mem_cons_self) he

theorem filterMap_grantOf_eq_nil {t : Trace}
    (h : ∀ e ∈ t, ∀ ws, e.1 = .run ws → isGrant ws = false) : t.filterMap grantOf = [] := by
  refine List.filterMap_eq_nil_iff.mpr ?_
  rintro ⟨c, r⟩ he
  cases c with
  | run ws => rw [grantOf, h _ he ws rfl, if_neg (by decide)]
  | _ => rfl

/-- **What has been granted, and what is passed**, at every call of the client as `avetti`. -/
theorem granted_and_passed (hglob : Pathnames glob) {o : Outcome Unit}
    (h : Runs (setup glob JAVA_HOME args) t o) (htyped : Typed t) {pre post : Trace}
    {ws : List Text} {r : Reply} (ht : t = pre ++ (.run ws, r) :: post)
    (hws : isAvetti ws = true) :
    lastGranted pre = some (grantedValue (paramsOf glob args).mysqlAvettiPwd) ∧
      clientPassword ws = avettiPassword glob (paramsOf glob args) := by
  have hsilent : ∀ e : Cmd × Reply, e.1.isSilent = true →
      e ≠ (.run ws, r) ∧ ∀ ws', e.1 = .run ws' → isGrant ws' = false := by
    rintro ⟨c, r'⟩ hc
    refine ⟨?_, ?_⟩
    · rintro ⟨⟩
      simp [Cmd.isSilent, hws] at hc
    · rintro ws' rfl
      simp only [Cmd.isSilent, Bool.and_eq_true, Bool.not_eq_true'] at hc
      exact hc.2
  rw [setup_eq_grants] at h
  rcases runs_bind_iff.mp h with ⟨n, -, hn⟩ | ⟨vs, t₁, t₂, rfl, h₁, h₂⟩
  · -- nothing before the grants is the call
    have hmem : (Cmd.run ws, r) ∈ t := by simp [ht]
    exact absurd rfl (hsilent _ (hn.emits (silent_beforeGrants glob JAVA_HOME args).emits _ hmem)).1
  · have hbefore := h₁.emits (silent_beforeGrants glob JAVA_HOME args).emits
    have hvars := ensures_beforeGrants glob JAVA_HOME args t₁ vs h₁ fun e he =>
      htyped e (List.mem_append_left t₂ he)
    have hnot₁ : (Cmd.run ws, r) ∉ t₁ := fun hmem => (hsilent _ (hbefore _ hmem)).1 rfl
    obtain ⟨q, rfl, hq⟩ := eq_append_of_notMem ht hnot₁
    have hnoAvetti : ∀ {u : Trace} {o' : Outcome Unit}, Runs (configureMysql glob vs.2) u o' →
        (Cmd.run ws, r) ∉ u := by
      intro u o' hu hmem
      have hc := hu.emits (noAvetti_configureMysql glob vs.2) _ hmem
      simp [Cmd.isNoAvetti, hws] at hc
    rcases runs_bind_iff.mp h₂ with ⟨n, -, hn⟩ | ⟨u, u₁, u₂, rfl, hu₁, hu₂⟩
    · exact absurd (by simp [hq]) (hnoAvetti hn)
    · -- the call comes after the grants, and nothing between grants again
      obtain ⟨q', rfl, hq'⟩ := eq_append_of_notMem hq (hnoAvetti hu₁)
      have hafter := hu₂.emits (passesAll_afterGrants hglob hvars.1).emits
      obtain ⟨hparams, hhost, -⟩ := hvars.2
      have hpwd : vs.2.mysqlAvettiPwd = (paramsOf glob args).mysqlAvettiPwd :=
        congrArg Params.mysqlAvettiPwd hparams
      refine ⟨?_, (hafter (.run ws, r) (by simp [hq'])).2 hws⟩
      have hq₁ : t₁.filterMap grantOf = [] :=
        filterMap_grantOf_eq_nil fun e he => (hsilent e (hbefore e he)).2
      have hq₂ : q'.filterMap grantOf = [] := by
        refine filterMap_grantOf_eq_nil fun e he ws' hws' => ?_
        have hpasses := hafter e (by simp [hq', he])
        rw [hws'] at hpasses
        exact hpasses.1
      rw [lastGranted, List.filterMap_append, List.filterMap_append, hq₁, hq₂, List.nil_append,
        List.append_nil, lastGranted_configureMysql glob hhost hu₁, hpwd]

/-- The run calls the client as `avetti`. -/
def CallsAvetti (t : Trace) : Prop := ∃ ws r, (Cmd.run ws, r) ∈ t ∧ isAvetti ws = true

theorem CallsAvetti.mono {u : Trace} (ht : CallsAvetti t) (h : t ⊆ u) : CallsAvetti u := by
  obtain ⟨ws, r, hmem, hws⟩ := ht
  exact ⟨ws, r, h hmem, hws⟩

/-- A compilation that sets up `preview` changes its domain aliases as `avetti`. -/
theorem callsAvetti_compileCommerce {v : Vars} {coreDir : Text}
    (h : Runs (compileCommerce glob v) t (.returned coreDir))
    (hv : existing glob v.allDb .preview = false) : CallsAvetti t := by
  obtain ⟨_, t₁, t₂, rfl, -, h₂⟩ := runs_bind_returned h
  obtain ⟨_, t₃, t₄, rfl, -, h₄⟩ := runs_bind_returned h₂
  obtain ⟨_, t₅, t₆, rfl, h₅, -⟩ := runs_bind_returned h₄
  obtain ⟨_, t₇, t₈, rfl, h₇, -⟩ := runs_bind_returned h₅
  rw [migratePreview, hv, if_neg (by decide)] at h₇
  obtain ⟨_, t₉, t₁₀, rfl, -, h₁₀⟩ := runs_bind_returned h₇
  have hcalls : CallsAvetti t₁₀ := by
    obtain ⟨r, t₁₁, ht, -⟩ := runs_run_bind_iff.mp h₁₀
    rw [ht]
    exact ⟨_, r, List.mem_cons_self, isAvetti_avetti ..⟩
  refine hcalls.mono fun e he => ?_
  simp [he]

/-- A server without databases. -/
def noDatabases : Databases := ⟨[], by simp⟩

/-- For accepted arguments there is a run that calls the client as `avetti`. -/
theorem exists_run_callsAvetti (JAVA_HOME : Text) {p : Params} {t : Trace}
    (ht : Runs (parameters glob args) t (.returned p)) (htyped : Typed t) :
    ∃ t o, Runs (setup glob JAVA_HOME args) t o ∧ Typed t ∧ CallsAvetti t := by
  obtain ⟨u, hu, hrun⟩ := exists_successful_run glob noDatabases.listing JAVA_HOME ht
  have hserves := serves_successful_run ht hu
  refine ⟨_, _, hrun, ?_, ?_⟩
  · rintro ⟨c, r⟩ he var rfl
    rcases List.mem_cons.mp he with he | he
    · cases he
    · rcases List.mem_append.mp he with he | he
      · exact htyped _ he var rfl
      · have hyes : '\n' ∉ "y".toList := by decide
        rw [show r = succeeding noDatabases.listing (.read var) from hu _ he]
        exact hyes
  · rw [setup_eq] at hrun
    obtain ⟨v, t₁, t₂, heq, h₁, h₂⟩ := runs_bind_returned hrun
    obtain ⟨coreDir, t₃, t₄, rfl, h₃, -⟩ := runs_bind_returned h₂
    rw [heq] at hserves ⊢
    have hlists := ensures_setupBefore glob JAVA_HOME args
      (ensures_requirements_lists noDatabases glob _ JAVA_HOME) t₁ v h₁ fun e he =>
        hserves e (List.mem_append_left _ he)
    have hnot : existing glob v.allDb .preview = false := by
      rw [← Bool.not_eq_true, existing_iff hlists]
      rintro ⟨-, hmem⟩
      cases hmem
    refine (callsAvetti_compileCommerce h₃ hnot).mono fun e he => ?_
    simp [he]

end Runs

/-- The password is read alike by SQL and the shell. When the shell passes it as it is, it has to
stand for itself between quotes; when files match the word with the password, the value that SQL
reads has to be the one that is passed for them. -/
def ReadAlike (glob : Text → List Text) (pwd : Text) : Prop :=
  if unquotedVar glob "-p" pwd = ["-p".toList ++ pwd] then Sql.IsVerbatim pwd
  else ∃ w, grantedValue pwd = some w ∧ passedValue glob pwd = some w

theorem readAlike_iff {glob : Text → List Text} {pwd : Text} :
    ReadAlike glob pwd ↔ ∃ w, grantedValue pwd = some w ∧ passedValue glob pwd = some w := by
  rw [ReadAlike]
  split_ifs with h
  · rw [passedValue_of_unquotedVar h, ← grantedValue_eq_self_iff]
    constructor
    · exact fun hgranted => ⟨pwd, hgranted, rfl⟩
    · rintro ⟨w, hgranted, hw⟩
      obtain rfl := Option.some.inj hw
      exact hgranted
  · rfl

/-- **The password of avetti**: for accepted arguments, the granted password is used in every run
exactly when `root` has a password, and SQL and the shell read the password of `avetti` alike. -/
theorem usesGranted_iff (glob : Text → List Text) (hglob : Pathnames glob) (JAVA_HOME : Text)
    (args : List Text) (hargs : ∃ t p, Runs (parameters glob args) t (.returned p) ∧ Typed t) :
    (∀ t o, Runs (setup glob JAVA_HOME args) t o → Typed t → UsesGranted t) ↔
      (paramsOf glob args).mysqlRootPwd ≠ [] ∧
        ReadAlike glob (paramsOf glob args).mysqlAvettiPwd := by
  rw [readAlike_iff]
  constructor
  · -- one run that calls the client shows what is granted and what is passed
    intro h
    obtain ⟨t, p, ht, htyped⟩ := hargs
    obtain ⟨t, o, hrun, htyped, ws, r, hmem, hws⟩ := exists_run_callsAvetti JAVA_HOME ht htyped
    obtain ⟨pre, post, rfl⟩ := List.append_of_mem hmem
    obtain ⟨pwd, hgranted, hpassed⟩ := h _ o hrun htyped pre ws r post rfl hws
    obtain ⟨hlast, hclient⟩ := granted_and_passed hglob hrun htyped rfl hws
    rw [hgranted] at hlast
    rw [hpassed, avettiPassword] at hclient
    split_ifs at hclient with hroot
    exact ⟨hroot, pwd, (Option.some.inj hlast).symm, hclient.symm⟩
  · rintro ⟨hroot, pwd, hgranted, hpassed⟩ t o hrun htyped pre ws r post ht hws
    obtain ⟨hlast, hclient⟩ := granted_and_passed hglob hrun htyped ht hws
    refine ⟨pwd, by rw [hlast, hgranted], ?_⟩
    rw [hclient, avettiPassword, if_pos hroot, hpassed]

theorem pathnames_empty : Pathnames fun _ => [] := by
  intro w path hpath
  cases hpath

/-- The run of the parameter phase in which the answer is `y`. -/
theorem exists_typed_run {args : List Text} (p : Params)
    (h : (exec (answering (succeeding [])) (parameters (fun _ => []) args) ()).outcome =
      .returned p) :
    ∃ t p, Runs (parameters (fun _ => []) args) t (.returned p) ∧ Typed t := by
  refine ⟨_, p, h ▸ runs_exec _ _ (), ?_⟩
  rintro ⟨c, r⟩ he var rfl
  have hyes : '\n' ∉ "y".toList := by decide
  rw [show r = succeeding [] (.read var) from reply_of_mem_exec_answering he]
  exact hyes

theorem exists_typed_run_secret :
    ∃ t p, Runs (parameters (fun _ => []) ["secret"]) t (.returned p) ∧ Typed t :=
  exists_typed_run (paramsOf (fun _ => []) ["secret"]) (by decide)

theorem exists_typed_run_nil : ∃ t p, Runs (parameters (fun _ => []) []) t (.returned p) ∧ Typed t :=
  exists_typed_run (paramsOf (fun _ => []) []) (by decide)

theorem usesGranted_iff_secret :
    (∀ t o, Runs (setup (fun _ => []) [] ["secret"]) t o → Typed t → UsesGranted t) ↔
      (paramsOf (fun _ => []) ["secret"]).mysqlRootPwd ≠ [] ∧
        ReadAlike (fun _ => []) (paramsOf (fun _ => []) ["secret"]).mysqlAvettiPwd :=
  usesGranted_iff _ pathnames_empty _ _ exists_typed_run_secret

/-- Without values for the passwords, a password is granted and none is passed. -/
theorem not_usesGranted_nil :
    ¬ ∀ glob, Pathnames glob → ∀ JAVA_HOME args,
      (∃ t p, Runs (parameters glob args) t (.returned p) ∧ Typed t) →
        ∀ t o, Runs (setup glob JAVA_HOME args) t o → Typed t → UsesGranted t := by
  intro h
  obtain ⟨t, p, ht, htyped⟩ := exists_typed_run_nil
  obtain ⟨t', o, hrun, htyped', ws, r, hmem, hws⟩ := exists_run_callsAvetti [] ht htyped
  obtain ⟨pre, post, rfl⟩ := List.append_of_mem hmem
  obtain ⟨pwd, -, hpassed⟩ := h _ pathnames_empty [] [] exists_typed_run_nil _ o hrun htyped' pre ws r
    post rfl hws
  have hclient := (granted_and_passed pathnames_empty hrun htyped' rfl hws).2
  have hnone : avettiPassword (fun _ => []) (paramsOf (fun _ => []) []) = none := by decide
  rw [hpassed, hnone] at hclient
  cases hclient

end Avetti
