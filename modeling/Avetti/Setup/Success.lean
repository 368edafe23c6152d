import Avetti.Script.Hoare
import Avetti.Setup.Main

/-!
# A run of setup.sh in which everything succeeds

When every command succeeds, every question is answered with `y` and every file that is tested
exists, `setup.sh` comes to its end, whatever its parameters.

## Main definitions

* `succeeding listing`: the replies in such a run, for a MySQL server that lists `listing`
* `Succeeds listing p`: with these replies the script comes to its end

## Main results

* `succeeds_requirements`, `succeeds_install`, `succeeds_compileCommerce`, `succeeds_finish`: the
  parts of the script come to their end
* `exists_successful_run`: the run
-/

open Script

namespace Avetti

/-- Every command succeeds, the answer to every question is `y`, every file that is tested exists,
and the MySQL server lists `listing`. -/
def succeeding (listing : Text) : Cmd → Reply
  | .run ws => ⟨0, if ws = ["id".toList, "-u".toList] then "0"
      else if ws.getLast? = some showDatabases then listing else []⟩
  | .read _ => ⟨0, "y"⟩
  | _ => ⟨0, []⟩

section Success

variable {α : Type} (glob : Text → List Text) (v : Vars) (listing : Text)

/-- The script comes to its end when everything succeeds. -/
def Succeeds (p : Sh α) : Prop := Returns (succeeding listing) (fun _ => True) p

variable {listing}

theorem Succeeds.bind {β : Type} {p : Sh α} {q : α → Sh β} (hp : Succeeds listing p)
    (hq : ∀ a, Succeeds listing (q a)) : Succeeds listing (p >>= q) :=
  returns_bind hp fun a _ => hq a

theorem succeeds_pure (a : α) : Succeeds listing (pure a : Sh α) := returns_pure trivial

theorem succeeds_call {c : Cmd} {k : Reply → Sh α}
    (hk : Succeeds listing (k (succeeding listing c))) : Succeeds listing (call c k) :=
  returns_call hk

theorem succeeds_ite {c : Prop} [Decidable c] {p q : Sh α} (hp : Succeeds listing p)
    (hq : Succeeds listing q) : Succeeds listing (if c then p else q) := by
  split_ifs
  · exact hp
  · exact hq

theorem succeeds_ifThen {c : Bool} {p : Sh Unit} (hp : Succeeds listing p) :
    Succeeds listing (ifThen c p) := succeeds_ite hp (succeeds_pure ())

/-- A command whose status is tested: the failure branch is not taken. -/
theorem succeeds_run_failed {ws : List Text} {ch : Check} {k : Bool → Sh α}
    (hk : Succeeds listing (k false)) :
    Succeeds listing (run ws >>= fun status => failed ch status >>= k) :=
  succeeds_call (succeeds_call hk)

theorem succeeds_teed_failed {ws : List Text} {ch : Check} {k : Bool → Sh α}
    (hk : Succeeds listing (k false)) :
    Succeeds listing (teed ws >>= fun status => failed ch status >>= k) :=
  succeeds_call (succeeds_call hk)

theorem succeeds_fileTest {op w : Text} {k : Bool → Sh α} (hk : Succeeds listing (k true)) :
    Succeeds listing (fileTest op w >>= k) := succeeds_call hk

/-! ## The requirements -/

theorem succeeds_checkSvn : Succeeds listing checkSvn :=
  succeeds_run_failed (succeeds_pure ())

theorem succeeds_checkMysql : Succeeds listing (checkMysql v) :=
  succeeds_ifThen (succeeds_run_failed (succeeds_pure ()))

theorem succeeds_checkJava : Succeeds listing (checkJava v) :=
  succeeds_ifThen (succeeds_run_failed (succeeds_pure ()))

theorem succeeds_checkNetcat : Succeeds listing checkNetcat :=
  succeeds_run_failed (succeeds_pure ())

theorem unreachable_zero (allDb word : Text) : unreachable glob allDb word 0 = false := by
  simp [unreachable]

theorem succeeds_listDatabases : Succeeds listing (listDatabases glob v) := by
  simp only [listDatabases, run_bind, capture_bind]
  refine succeeds_call (succeeds_call ?_)
  have hstatus : ∀ c, (succeeding listing c).status = 0 := by
    intro c
    cases c <;> rfl
  rw [hstatus, unreachable_zero, unreachable_zero]
  exact succeeds_pure _

theorem succeeds_mysqlServer : Succeeds listing (mysqlServer glob v) := by
  have hport : ∀ v : Vars, Succeeds listing (mysqlPortAnswer glob v) := fun _ =>
    succeeds_run_failed (succeeds_pure _)
  refine succeeds_ite (succeeds_call ?_) (succeeds_pure v)
  exact (hport _).bind fun _ => (succeeds_listDatabases glob _).bind fun _ => succeeds_pure _

theorem succeeds_webServer : Succeeds listing (webServer v) :=
  succeeds_ite (succeeds_call (succeeds_fileTest (succeeds_pure _))) (succeeds_pure _)

theorem succeeds_codeVersion : Succeeds listing (codeVersion glob v) := by
  have hinfo : ∀ v : Vars, Succeeds listing (svnInfo glob v) := fun v =>
    succeeds_run_failed (succeeds_pure ())
  have hyes : Shell.words ['\n'] (Text.grep (isOneOf ["y"]) (Shell.echo ["-e", "y"])) =
      ["y".toList] := by decide
  simp only [codeVersion, ask_bind]
  refine succeeds_call ?_
  rw [show (succeeding listing (.read "answer2")).out = "y".toList from rfl, hyes]
  exact succeeds_call (succeeds_call ((hinfo _).bind fun _ => succeeds_pure _))

theorem succeeds_requirements : Succeeds listing (requirements glob v) := by
  refine succeeds_checkSvn.bind fun _ => (succeeds_checkMysql v).bind fun _ => ?_
  refine (succeeds_checkJava v).bind fun _ => succeeds_checkNetcat.bind fun _ => ?_
  refine (succeeds_mysqlServer glob v).bind fun v => (succeeds_webServer v).bind fun v => ?_
  exact succeeds_codeVersion glob v

/-! ## The installation -/

theorem succeeds_run (ws : List Text) : Succeeds listing (run ws) :=
  succeeds_call (succeeds_pure _)

theorem succeeds_appendTo (text path : Text) : Succeeds listing (appendTo text path) :=
  succeeds_call (succeeds_pure _)

theorem succeeds_writeTo (text path : Text) : Succeeds listing (writeTo text path) :=
  succeeds_call (succeeds_pure _)

theorem succeeds_service (name action : Text) : Succeeds listing (service name action) :=
  succeeds_call (succeeds_pure _)

theorem succeeds_edits (scripts : List Text) (path : Text) :
    Succeeds listing (edits scripts path) := by
  induction scripts with
  | nil => exact succeeds_pure _
  | cons script scripts ih => exact succeeds_call ih

theorem succeeds_hasYum : Succeeds listing hasYum := succeeds_fileTest (succeeds_pure _)

theorem succeeds_hasApt : Succeeds listing hasApt := succeeds_call (succeeds_pure _)

theorem succeeds_installRequirements : Succeeds listing installRequirements := by
  refine succeeds_hasYum.bind fun _ => succeeds_ite (succeeds_call (succeeds_pure _)) ?_
  refine succeeds_hasApt.bind fun _ => succeeds_ite ?_ (succeeds_pure _)
  exact succeeds_call (succeeds_call (succeeds_pure _))

theorem succeeds_createUsers : Succeeds listing createUsers := by
  have hgroup : Succeeds listing createGroup := by
    simp only [createGroup, capture_bind]
    exact succeeds_call (succeeds_ite (succeeds_teed_failed (succeeds_pure _)) (succeeds_pure _))
  have huser : ∀ name options, Succeeds listing (createUser name options) := by
    intro name options
    simp only [createUser, capture_bind]
    refine succeeds_call (succeeds_ite (succeeds_call (succeeds_pure _)) ?_)
    exact succeeds_run_failed (succeeds_pure _)
  exact hgroup.bind fun _ => (huser _ _).bind fun _ => (huser _ _).bind fun _ => huser _ _

theorem succeeds_setHostname : Succeeds listing (setHostname v) := by
  have hwrite : Succeeds listing (writeHostname v) := by
    simp only [writeHostname, capture_bind]
    refine succeeds_fileTest (succeeds_call (succeeds_ite (succeeds_call ?_) (succeeds_pure _)))
    exact (succeeds_writeTo _ _).bind fun _ => succeeds_appendTo _ _
  exact hwrite.bind fun _ => succeeds_call (succeeds_pure _)

theorem succeeds_setHosts : Succeeds listing (setHosts v) := by
  simp only [setHosts, capture_bind]
  refine succeeds_call (succeeds_ite (succeeds_call ?_) (succeeds_pure _))
  exact succeeds_ite (succeeds_call (succeeds_pure _)) (succeeds_pure _)

theorem succeeds_setSudoers : Succeeds listing setSudoers := by
  simp only [setSudoers, command_bind]
  exact succeeds_call (succeeds_ite (succeeds_fileTest (succeeds_appendTo _ _)) (succeeds_pure _))

theorem succeeds_linkInsserv : Succeeds listing linkInsserv :=
  succeeds_fileTest (succeeds_pure _)

theorem succeeds_installMysql : Succeeds listing installMysql := by
  simp only [installMysql, run_bind, teed_bind, command_bind]
  refine succeeds_hasYum.bind fun _ => succeeds_ite (succeeds_call ?_) ?_
  · exact (succeeds_service _ _).bind fun _ => succeeds_call (succeeds_pure _)
  · refine succeeds_hasApt.bind fun _ => succeeds_ite ?_ (succeeds_pure _)
    refine succeeds_call (succeeds_call (succeeds_call (succeeds_ite ?_ (succeeds_pure _))))
    exact succeeds_linkInsserv.bind fun _ => succeeds_service _ _

theorem succeeds_installJava : Succeeds listing (installJava v) := by
  have hexport : ∀ path, Succeeds listing (exportJavaHome path) := fun _ =>
    succeeds_call (succeeds_pure _)
  refine succeeds_hasYum.bind fun _ => succeeds_ite (succeeds_call ?_) ?_
  · exact succeeds_ite (hexport _) (succeeds_pure _)
  · refine succeeds_hasApt.bind fun _ => succeeds_ite ?_ (succeeds_pure _)
    refine succeeds_call (succeeds_call (succeeds_ite ?_ (succeeds_pure _)))
    exact succeeds_fileTest (hexport _)

theorem succeeds_installHttpd : Succeeds listing installHttpd := by
  have hteed : ∀ c ws, Succeeds listing (checkedStep c (teed ws)) := fun _ _ =>
    succeeds_teed_failed (succeeds_pure _)
  refine succeeds_call ((hteed _ _).bind fun _ => (hteed _ _).bind fun _ => ?_)
  refine (hteed _ _).bind fun _ => (succeeds_writeTo _ _).bind fun _ => succeeds_call ?_
  exact (succeeds_appendTo _ _).bind fun _ => succeeds_run_failed (succeeds_pure _)

theorem succeeds_configureMysql : Succeeds listing (configureMysql glob v) := by
  have hgrants : ∀ apart host, Succeeds listing (grants glob v apart host) := fun _ _ =>
    (succeeds_run _).bind fun _ => (succeeds_run _).bind fun _ => (succeeds_run _).bind fun _ =>
      succeeds_pure _
  refine (succeeds_ifThen (succeeds_call (succeeds_pure _))).bind fun _ => ?_
  exact succeeds_ite (hgrants _ _) (hgrants _ _)

theorem succeeds_configureHttpd : Succeeds listing (configureHttpd v) := by
  have hrun : ∀ ws, Succeeds listing (do let _ ← run ws) := fun _ =>
    succeeds_call (succeeds_pure _)
  have hidentity : Succeeds listing (configureIdentity v) := by
    simp only [configureIdentity, command_bind]
    refine succeeds_call (succeeds_call ((succeeds_ifThen (hrun _)).bind fun _ => ?_))
    exact succeeds_ifThen (hrun _)
  have hssl : Succeeds listing (configureSsl v) :=
    succeeds_call (succeeds_ifThen (succeeds_call (succeeds_edits _ _)))
  have hinclude : Succeeds listing (configureInclude v) :=
    succeeds_call (succeeds_ifThen ((succeeds_appendTo _ _).bind fun _ => hrun _))
  have hvhosts : Succeeds listing (configureVhosts v) := by
    simp only [configureVhosts, capture_bind]
    exact succeeds_call (succeeds_ite (succeeds_call (succeeds_edits _ _)) (succeeds_pure _))
  refine hidentity.bind fun _ => hssl.bind fun _ => hinclude.bind fun _ => ?_
  exact succeeds_call hvhosts

theorem succeeds_configureTomcat : Succeeds listing (configureTomcat v) :=
  succeeds_fileTest (succeeds_pure _)

theorem succeeds_updateChkconfig : Succeeds listing updateChkconfig :=
  succeeds_call (succeeds_call (succeeds_call (succeeds_teed_failed (succeeds_pure _))))

theorem succeeds_extendProfile (word lines : Text) :
    Succeeds listing (extendProfile word lines) := by
  simp only [extendProfile, capture_bind]
  exact succeeds_call (succeeds_ite (succeeds_appendTo _ _) (succeeds_pure _))

theorem succeeds_checkout : Succeeds listing (checkout v) := succeeds_fileTest (succeeds_pure _)

theorem succeeds_configureSettings : Succeeds listing (configureSettings v) :=
  succeeds_fileTest (succeeds_pure _)

theorem succeeds_install : Succeeds listing (install glob v) := by
  refine succeeds_installRequirements.bind fun _ => succeeds_createUsers.bind fun _ => ?_
  refine (succeeds_setHostname v).bind fun _ => (succeeds_setHosts v).bind fun _ => ?_
  refine succeeds_call (succeeds_setSudoers.bind fun _ => succeeds_hasApt.bind fun _ => ?_)
  refine (succeeds_ifThen succeeds_linkInsserv).bind fun _ => ?_
  have hpackages : Succeeds listing (installPackages v) := by
    refine (succeeds_ifThen succeeds_installMysql).bind fun _ => ?_
    refine (succeeds_ite (succeeds_installJava v) (succeeds_pure _)).bind fun _ => ?_
    exact (succeeds_ifThen succeeds_installHttpd).bind fun _ => succeeds_pure _
  refine hpackages.bind fun _ => (succeeds_configureMysql glob _).bind fun _ => ?_
  refine (succeeds_configureHttpd _).bind fun _ => (succeeds_configureTomcat _).bind fun _ => ?_
  refine succeeds_updateChkconfig.bind fun _ => (succeeds_extendProfile _ _).bind fun _ => ?_
  refine (succeeds_checkout _).bind fun _ => (succeeds_configureSettings _).bind fun _ => ?_
  exact succeeds_extendProfile _ _

/-! ## The compilation -/

theorem succeeds_stage (m : Mvn) : Succeeds listing (stage m) := succeeds_call (succeeds_pure _)

theorem succeeds_compileCommerce : Succeeds listing (compileCommerce glob v) := by
  have haliases : ∀ db, Succeeds listing (domainAliases glob v db) := fun _ =>
    (succeeds_run _).bind fun _ => (succeeds_run _).bind fun _ => (succeeds_run _).bind fun _ =>
      (succeeds_run _).bind fun _ => succeeds_pure _
  have hafter : Succeeds listing (afterModuleSetup v) := by
    simp only [afterModuleSetup, run_bind, command_bind]
    refine (succeeds_edits _ _).bind fun _ => succeeds_call ?_
    exact succeeds_call (succeeds_call (succeeds_call (succeeds_call (succeeds_pure _))))
  have hpreview : Succeeds listing (migratePreview glob v) :=
    succeeds_ite (succeeds_stage _) ((succeeds_stage _).bind fun _ => haliases _)
  have hshop : Succeeds listing (migrateShop glob v) :=
    succeeds_ite (succeeds_stage _) ((succeeds_stage _).bind fun _ => haliases _)
  have hbackup : Succeeds listing (migrateBackup glob v) :=
    succeeds_ite (succeeds_stage _) (succeeds_stage _)
  have hdeploy : Succeeds listing (migrateAndDeploy glob v) := by
    refine hpreview.bind fun _ => hshop.bind fun _ => hbackup.bind fun _ => ?_
    refine (succeeds_stage _).bind fun _ => (succeeds_stage _).bind fun _ => ?_
    exact (succeeds_stage _).bind fun _ => succeeds_stage _
  exact (succeeds_stage _).bind fun _ => hafter.bind fun coreDir => hdeploy.bind fun _ =>
    succeeds_pure coreDir

theorem succeeds_finish (coreDir : Text) : Succeeds listing (finish v coreDir) := by
  have hsolr : Succeeds listing (configureSolr46 coreDir) :=
    succeeds_call (succeeds_call (succeeds_pure _))
  have hcron : Succeeds listing configureCrontab := by
    simp only [configureCrontab, command_bind]
    refine succeeds_call (succeeds_ite ((succeeds_writeTo _ _).bind fun _ => succeeds_call ?_)
      (succeeds_pure _))
    refine (succeeds_writeTo _ _).bind fun _ => (succeeds_appendTo _ _).bind fun _ => ?_
    exact succeeds_call (succeeds_call (succeeds_pure _))
  have hedits : ∀ scripts, Succeeds listing (editContexts scripts) := by
    intro scripts
    induction scripts with
    | nil => exact succeeds_pure _
    | cons script scripts ih => exact succeeds_call (succeeds_call ih)
  have hcontexts : Succeeds listing (configureContexts v) :=
    (hedits _).bind fun _ => succeeds_call (succeeds_call (succeeds_pure _))
  refine hsolr.bind fun _ => hcron.bind fun _ => hcontexts.bind fun _ => ?_
  exact succeeds_fileTest (succeeds_pure _)

/-- **The successful run**: for accepted arguments there is a run of `setup.sh` in which, after the
parameters, everything succeeds. -/
theorem exists_successful_run (listing JAVA_HOME : Text) {args : List Text} {p : Params} {t : Trace}
    (ht : Runs (parameters glob args) t (.returned p)) :
    ∃ u, (∀ e ∈ u, e.2 = succeeding listing e.1) ∧
      Runs (setup glob JAVA_HOME args) ((.run ["id", "-u"], ⟨0, "0"⟩) :: (t ++ u))
        (.returned ()) := by
  have hrest : Succeeds listing (requirements glob (.ofParams p JAVA_HOME) >>= fun v =>
      install glob v >>= fun _ => compileCommerce glob v >>= fun coreDir => finish v coreDir) :=
    (succeeds_requirements glob _).bind fun v => (succeeds_install glob v).bind fun _ =>
      (succeeds_compileCommerce glob v).bind fun coreDir => succeeds_finish v coreDir
  obtain ⟨u, a, hu, hreply, -⟩ := hrest
  have hrun : Runs (setup glob JAVA_HOME args) ((.run ["id", "-u"], ⟨0, "0"⟩) :: (t ++ u))
      (.returned a) := by
    rw [setup, capture_bind]
    refine .call _ ?_
    exact ht.bind hu
  exact ⟨u, hreply, hrun⟩

end Success

end Avetti
