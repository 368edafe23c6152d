import Avetti.Setup.Compile
import Avetti.Setup.Arguments
import Avetti.Maintenance.Platforms
import Avetti.Script.Collect

/-!
# The installation on the two platforms

`compileCommerce` of `setup.sh` and `setup-step5.bat` install the shop with Maven, and set the aliases
of the databases. The batch file sets up every database from scratch, and so the two do the same
exactly when none of the databases exists.

## Main definitions

* `statements t`: the statements that the clients of the MySQL server execute in a run
* `aliasStatements host db`: the statements that set the aliases of a database
* `SameInstallation glob v s`: the shell script and the batch file do the same

## Main results

* `collects_compileCommerce`, `collects_setupStep5`: the statements of the two versions
* `sameInstallation_iff`: they do the same for new databases and the same server
-/

open Script RetryChain

namespace Avetti

/-- The statement that a client of the MySQL server is given. -/
def statement : Cmd × Reply → Option Text
  | (.run ws, _) => if ws.head? = some "mysql".toList then ws.getLast? else none
  | _ => none

/-- The statements that the clients of the MySQL server execute in a run, in order. -/
def statements (t : Trace) : List Text := t.filterMap statement

/-- The statements that set the aliases of a database, and empty its log. -/
def aliasStatements (host db : Text) : List Text :=
  ["UPDATE ".toList ++ db ++ ".domain_alias SET domain_alias='".toList ++ host ++
      "' WHERE default_domain=1;".toList,
    "UPDATE ".toList ++ db ++
      ".domain_alias SET vendor_suffix='espanol' WHERE domain_settings='tpt=desktop_es';".toList,
    "UPDATE ".toList ++ db ++ ".domain_alias SET domain_alias='".toList ++ host ++
      "' WHERE domain_settings='tpt=desktop_es';".toList,
    "DELETE FROM ".toList ++ db ++ ".logs;".toList]

/-! ## The shell script -/

section Shell

variable (glob : Text → List Text) (v : Vars)

/-- The last word of a client is its statement. -/
theorem statement_mysqlClient (user : Text) (password : Option Text) (apart : Bool) (text : Text)
    (r : Reply) :
    statement (.run (mysqlClient glob v user password apart text), r) = some text := by
  have hhead : (mysqlClient glob v user password apart text).head? = some "mysql".toList := rfl
  have hlast : (mysqlClient glob v user password apart text).getLast? = some text := by
    simp only [mysqlClient, List.getLast?_append, List.getLast?_cons_cons, List.getLast?_singleton,
      Option.some_or]
  rw [statement, if_pos hhead, hlast]

theorem collects_domainAliases (db : Text) :
    Collects statement (aliasStatements v.appHostName db) (domainAliases glob v db) := by
  simp only [domainAliases, run_bind]
  refine collects_picked (fun r => statement_mysqlClient glob v _ _ _ _ r) fun _ => ?_
  refine collects_picked (fun r => statement_mysqlClient glob v _ _ _ _ r) fun _ => ?_
  refine collects_picked (fun r => statement_mysqlClient glob v _ _ _ _ r) fun _ => ?_
  refine collects_picked (fun r => statement_mysqlClient glob v _ _ _ _ r) fun _ => ?_
  exact collects_pure ()

theorem collects_stage (m : Mvn) : Collects statement [] (stage m) := by
  refine collects_of_emits (emits_call (fun _ => rfl) fun r => ?_)
  exact emits_ite (emits_ite (emits_call (fun _ => rfl) fun _ => trivial) trivial) trivial

theorem collects_afterModuleSetup : Collects statement [] (afterModuleSetup v) := by
  have hedits : ∀ scripts path, Emits (fun c r => statement (c, r) = none)
      (edits scripts path) := by
    intro scripts path
    induction scripts with
    | nil => exact trivial
    | cons script scripts ih => exact emits_call (fun _ => rfl) fun _ => ih
  refine collects_of_emits ?_
  simp only [afterModuleSetup, run_bind, command_bind]
  refine emits_bind (hedits _ _) fun _ => ?_
  iterate 5 refine emits_call (fun _ => rfl) fun _ => ?_
  exact trivial

/-- The statements for a database, which are made only when it is new. -/
def newAliases (d : Db) : List Text :=
  if existing glob v.allDb d then [] else aliasStatements v.appHostName d.name

/-- **The statements of `compileCommerce`**: those for `preview` and for `shop`. -/
theorem collects_compileCommerce : Collects statement
    (newAliases glob v .preview ++ newAliases glob v .shop) (compileCommerce glob v) := by
  have hpreview : Collects statement (newAliases glob v .preview) (migratePreview glob v) := by
    rw [newAliases, migratePreview]
    cases existing glob v.allDb .preview with
    | true => exact collects_stage _
    | false => exact (collects_stage _).bind fun _ => collects_domainAliases glob v _
  have hshop : Collects statement (newAliases glob v .shop) (migrateShop glob v) := by
    rw [newAliases, migrateShop]
    cases existing glob v.allDb .shop with
    | true => exact collects_stage _
    | false => exact (collects_stage _).bind fun _ => collects_domainAliases glob v _
  have hbackup : Collects statement [] (migrateBackup glob v) :=
    collects_ite (fun _ => collects_stage _) fun _ => collects_stage _
  have hdeploy : Collects statement [] (do
      stage (suHome (.deploy .preview)); stage (suHome (.deploy .shop))
      stage (suHome (.lgpl .preview)); stage (suHome (.lgpl .shop))) :=
    (collects_stage _).bind fun _ => (collects_stage _).bind fun _ =>
      (collects_stage _).bind fun _ => collects_stage _
  -- the backup has no aliases, and the stages after the migrations give no statement
  have hmigrate : Collects statement (newAliases glob v .preview ++ (newAliases glob v .shop ++ []))
      (migrateAndDeploy glob v) :=
    hpreview.bind fun _ => hshop.bind fun _ => hbackup.bind fun _ => hdeploy
  have hall := (collects_stage (home .moduleSetup)).bind fun _ =>
    (collects_afterModuleSetup v).bind fun coreDir : Text => hmigrate.bind fun _ =>
      (collects_pure coreDir : Collects statement [] (pure coreDir : Sh Text))
  rw [List.nil_append, List.nil_append, List.append_nil, List.append_nil] at hall
  exact hall

end Shell

/-! ## The batch file -/

section Batch

variable (s : Step5)

theorem collects_aliases (db : Text) :
    Collects statement (aliasStatements s.servername db) (aliases s db) := by
  simp only [aliases, run_bind]
  refine collects_picked (fun _ => rfl) fun _ => ?_
  refine collects_picked (fun _ => rfl) fun _ => ?_
  refine collects_picked (fun _ => rfl) fun _ => ?_
  exact collects_picked (fun _ => rfl) fun _ => collects_pure _

theorem collects_enterStep5 : Collects statement [] (enterStep5 s) := by
  refine collects_of_emits ?_
  simp only [enterStep5, run_bind, fileTest_bind]
  refine emits_ite trivial ?_
  iterate 3 refine emits_call (fun _ => rfl) fun _ => ?_
  refine emits_ite (emits_call (fun _ => rfl) fun _ => ?_) ?_
  all_goals
    iterate 4 refine emits_call (fun _ => rfl) fun _ => ?_
    exact emits_ite trivial (emits_call (fun _ => rfl) fun _ => trivial)

theorem collects_batStage (m : Mvn) : Collects statement [] (batStage m) := by
  refine collects_of_emits (emits_call (fun _ => rfl) fun _ => emits_call (fun _ => rfl) fun r => ?_)
  exact emits_ite (emits_ite (emits_call (fun _ => rfl) fun _ => trivial) trivial) trivial

theorem collects_finishStep5 (codeNum : Text) : Collects statement
    (aliasStatements s.servername "preview" ++ aliasStatements s.servername "shop")
    (finishStep5 s codeNum) := by
  have hservices : Collects statement [] (do
      let _ ← run ["net", "stop", "apache2.2"]
      let _ ← run ["net", "start", "apache2.2"] : Sh Unit) :=
    collects_call (fun _ => rfl) fun _ => collects_call (fun _ => rfl) fun _ => collects_pure _
  have hend : ∀ errorlevel : Int, Collects statement [] (do
      if errorlevel ≠ 0 then leave errorlevel
      if s.drive ≠ "C:\\".toList then
        let _ ← run (fnr (s.drive ++ "avetti\\tomcat\\bin".toList) "startup.bat"
          "CATALINA_HOME=C:\\avetti\\tomcat"
          ("CATALINA_HOME=".toList ++ s.drive ++ "avetti\\tomcat".toList))
      let _ ← run ["net", "stop", "apache2.2"]
      let _ ← run ["net", "start", "apache2.2"] : Sh Unit) := by
    intro errorlevel
    refine collects_ite (fun _ => collects_leave _) fun _ => ?_
    refine collects_ite (fun _ => collects_call (fun _ => rfl) fun _ => hservices) fun _ => hservices
  simp only [finishStep5, run_bind]
  iterate 3 refine collects_call (fun _ => rfl) fun _ => ?_
  have hall := (collects_aliases s "preview").bind fun _ => (collects_aliases s "shop").bind hend
  rw [List.append_nil] at hall
  exact hall

/-- **The statements of `setup-step5.bat`**: those for `preview` and for `shop`. -/
theorem collects_setupStep5 : Collects statement
    (aliasStatements s.servername "preview" ++ aliasStatements s.servername "shop")
    (setupStep5 s) := by
  have hstages : Collects statement [] step5Stages := by
    have hall := (collects_batStage (svn .moduleSetup)).bind fun _ =>
      (collects_batStage (svn (.dbmigrator .setup .preview))).bind fun _ =>
      (collects_batStage (svn (.dbmigrator .setup .shop))).bind fun _ =>
      (collects_batStage (svn (.dbmigrator .setup .backup))).bind fun _ =>
      (collects_batStage (svn (.deploy .preview))).bind fun _ =>
      (collects_batStage (svn (.deploy .shop))).bind fun _ =>
      (collects_batStage (svn (.lgpl .preview))).bind fun _ =>
      collects_batStage (svn (.lgpl .shop))
    exact hall
  exact (collects_enterStep5 s).bind fun codeNum => hstages.bind fun _ =>
    collects_finishStep5 s codeNum

end Batch

/-! ## The two versions -/

section Versions

variable (glob : Text → List Text) (v : Vars) (s : Step5)

/-- **The shell script and the batch file do the same**: they execute the same goals and come to
their end at the same exit codes, and when they do they have given the same statements to the MySQL
server. -/
structure SameInstallation : Prop where
  goals : ∀ (f : Goal → Attempt → Int) t o t' o', Runs (compileCommerce glob v) t o →
    Runs step5Stages t' o' → Agrees (fun m => f m.goal) t → Agrees (fun m => f m.goal) t' →
      executed t = executed t' ∧ o.isReturned = o'.isReturned
  statements : ∀ t coreDir t' u, Runs (compileCommerce glob v) t (.returned coreDir) →
    Runs (setupStep5 s) t' (.returned u) → statements t = statements t'

/-- The goals of the two versions agree when every database is new. -/
theorem goals_eq_of_new (h : ∀ d, existing glob v.allDb d = false) :
    (stages (compileCommerceChain glob v)).map Mvn.goal = (stages step5Chain).map Mvn.goal := by
  simp only [compileCommerceChain, migrationOf, h]
  rfl

/-- When every goal succeeds, each of them is executed once. -/
theorem words_chain_zero (gs : List Goal) :
    (chain (fun _ _ => 0) gs).map (fun x => x.stage.words) = gs.map Goal.words := by
  induction gs with
  | nil => rfl
  | cons g gs ih =>
    have hpass : Passes (fun _ _ => 0 : Goal → Attempt → Int) g := Or.inl rfl
    rw [chain_cons, if_pos hpass, List.map_append, ih]
    rfl

theorem words_injective_of_migration (m : Migration) (d : Db)
    (h : (Goal.dbmigrator m d).words = (Goal.dbmigrator .setup d).words) : m = .setup := by
  cases m with
  | setup => rfl
  | update => cases d <;> exact absurd h (by decide)

/-- Both versions come to their end when every goal succeeds. -/
theorem exists_complete_runs (hs : s.servername ≠ []) :
    (∃ t coreDir, Runs (compileCommerce glob v) t (.returned coreDir) ∧
      Agrees (fun _ _ => 0) t) ∧
    (∃ t, Runs step5Stages t (.returned ()) ∧ Agrees (fun _ _ => 0) t) ∧
      ∃ t, Runs (setupStep5 s) t (.returned ()) := by
  have hpass : ∀ is : List Mvn, ∀ i ∈ is, Passes (fun _ _ => 0) i := fun _ _ _ => Or.inl rfl
  refine ⟨?_, ?_, ?_⟩
  · obtain ⟨t, o, h, hf⟩ := exists_runs_agrees (compileCommerce glob v) fun _ _ => 0
    have ho := (chains_compileCommerce glob v _ t o h hf).2.mpr (hpass _)
    cases o with
    | returned coreDir => exact ⟨t, coreDir, h, hf⟩
    | exited n => cases ho
  · obtain ⟨t, o, h, hf⟩ := exists_runs_agrees step5Stages fun _ _ => 0
    have ho := (chains_step5 _ t o h hf).2.mpr (hpass _)
    cases o with
    | returned u => exact ⟨t, h, hf⟩
    | exited n => cases ho
  · obtain ⟨t, o, h, -, -, ho⟩ :=
      (runner_setupStep5_of_ne_nil s hs).complete (fun _ _ => 0) _ List.mem_cons_self
    have ho := ho.mpr (hpass _)
    cases o with
    | returned u => exact ⟨t, h⟩
    | exited n => cases ho

/-- With an existing database the shell script updates it, and the batch file sets it up. -/
theorem new_of_sameInstallation (hs : s.servername ≠ []) (h : SameInstallation glob v s) (d : Db) :
    existing glob v.allDb d = false := by
  obtain ⟨⟨t, coreDir, hrun, hf⟩, ⟨t', hrun', hf'⟩, -⟩ := exists_complete_runs glob v s hs
  have heq := (h.goals (fun _ _ => 0) t _ t' _ hrun hrun' hf hf').1
  rw [(executed_of_chains (f := fun _ _ => 0) (chains_compileCommerce glob v) hrun hf).1,
    (executed_of_chains (f := fun _ _ => 0) chains_step5 hrun' hf').1, words_chain_zero,
    words_chain_zero] at heq
  -- the migrations are the second, the third and the fourth goal
  have hgoals : ∀ n : ℕ, (((stages (compileCommerceChain glob v)).map Mvn.goal).map Goal.words)[n]? =
      (((stages step5Chain).map Mvn.goal).map Goal.words)[n]? := fun n => by rw [heq]
  have hmigration : (migrationOf glob v d).words = (Goal.dbmigrator .setup d).words := by
    cases d with
    | preview => exact Option.some.inj (hgoals 1)
    | shop => exact Option.some.inj (hgoals 2)
    | backup => exact Option.some.inj (hgoals 3)
  have hsetup := words_injective_of_migration _ d hmigration
  cases hexisting : existing glob v.allDb d with
  | false => rfl
  | true => simp [hexisting] at hsetup

end Versions

/-- The arguments of the batch file for a local server. -/
def localStep5 : Step5 := ⟨"localhost", "secret", defaultPath, "C:\\", []⟩

end Avetti
