import Avetti.Setup.System
import Avetti.Maintenance.Shell

/-!
# compileCommerce

`compileCommerce` sets up the modules, takes the credentials out of `pom.xml`, migrates the three
databases and deploys the web applications. A database whose name `echo $allDb` shows between two
blanks is updated, any other one is set up.

## Main definitions

* `insertCredentials`, `removeCredentials`: the edits of `pom.xml` that put in the credentials, and
  take them out
* `existing glob allDb d`: the test for the database `d`
* `compileCommerce`: the function of `setup.sh`

## Main results

* `chains_compileCommerce`: `compileCommerce` is a chain of stages
-/

open Script RetryChain

namespace Avetti

/-! ## The credentials -/

/-- An element of `pom.xml` with its value, as the edits name it: the slash is escaped. -/
def credential (name value : Text) : Text :=
  "<project.svn.".toList ++ name ++ ">".toList ++ value ++ "<\\/project.svn.".toList ++ name ++
    ">".toList

/-- The edits that put the credentials into `pom.xml`. -/
def insertCredentials (user password : Text) : List Text :=
  [substituteAll (credential "username" []) (credential "username" user),
    substituteAll (credential "password" []) (credential "password" password)]

/-- The edits that take the credentials out of `pom.xml`. -/
def removeCredentials (user password : Text) : List Text :=
  [substituteAll (credential "username" user) (credential "username" []),
    substituteAll (credential "password" password) (credential "password" [])]

/-- `pom.xml` of a version. -/
def pomFile (code : Text) : Text := codeDir code ++ "/pom.xml".toList

/-! ## Databases -/

/-- `[[ echo $allDb | grep ' d ' ]]`, under `IFS=$'\n'`. -/
def existing (glob : Text → List Text) (allDb : Text) (d : Db) : Bool :=
  Text.chomp (Text.grep (Text.Occurs (' ' :: d.name ++ [' ']))
    (Shell.echo (Shell.unquoted glob ['\n'] allDb))) ≠ []

section Compile

variable (glob : Text → List Text) (v : Vars)

/-- The changes of the domain aliases of a database, made as the user `avetti`. -/
def domainAliases (db : Text) : Sh Unit := do
  let avetti := mysqlClient glob v "avetti"
    (if v.mysqlRootPwd ≠ [] then some v.mysqlAvettiPwd else none) false
  let _ ← run (avetti ("UPDATE ".toList ++ db ++ ".domain_alias SET domain_alias='".toList ++
    v.appHostName ++ "' WHERE default_domain=1;".toList))
  let _ ← run (avetti ("UPDATE ".toList ++ db ++
    ".domain_alias SET vendor_suffix='espanol' WHERE domain_settings='tpt=desktop_es';".toList))
  let _ ← run (avetti ("UPDATE ".toList ++ db ++ ".domain_alias SET domain_alias='".toList ++
    v.appHostName ++ "' WHERE domain_settings='tpt=desktop_es';".toList))
  let _ ← run (avetti ("DELETE FROM ".toList ++ db ++ ".logs;".toList))

/-- The database `preview`. -/
def migratePreview : Sh Unit := do
  if existing glob v.allDb .preview then
    stage (suHome (.dbmigrator .update .preview))
  else
    stage (suHome (.dbmigrator .setup .preview))
    domainAliases glob v "preview"

/-- The database `shop`. -/
def migrateShop : Sh Unit := do
  if existing glob v.allDb .shop then
    stage (suHome (.dbmigrator .update .shop))
  else
    stage (suHome (.dbmigrator .setup .shop))
    domainAliases glob v "shop"

/-- The database `backup`. -/
def migrateBackup : Sh Unit := do
  if existing glob v.allDb .backup then
    stage (suHome (.dbmigrator .update .backup))
  else
    stage (suHome (.dbmigrator .setup .backup))

/-- The directory of the core: `grep project.core | cut -d'>' -f2 | cut -d'<' -f1 | cut -d'/' -f1`
on `pom.xml`. -/
def coreOf (pom : Text) : Text :=
  Text.chomp (Text.cutLines '/' 1 (Text.cutLines '<' 1 (Text.cutLines '>' 2
    (Text.grep (Text.Occurs "project.core") pom))))

/-- The credentials are taken out of `pom.xml`, and the directory of the core is looked up; its
value is that directory. -/
def afterModuleSetup : Sh Text := do
  edits (removeCredentials v.avettisvnuser v.avettisvnpassword) (pomFile v.code_to_install)
  let pom ← command (.run ["cat", pomFile v.code_to_install])
  let coreDir := coreOf pom.out
  let util := codeDir coreDir ++ "/src/site/resources/database-changes/util/".toList
  let _ ← run ["chmod", "+x", util ++ "mysqlExport.sh".toList]
  let _ ← run ["chmod", "+x", util ++ "mysqlImport.sh".toList]
  let _ ← run ["chown", "-R", "avetti:apache", "/avetti/svn"]
  let _ ← run ["chmod", "-R", "g+w", "/avetti/svn"]
  return coreDir

/-- The databases are migrated and the web applications deployed. -/
def migrateAndDeploy : Sh Unit := do
  migratePreview glob v
  migrateShop glob v
  migrateBackup glob v
  stage (suHome (.deploy .preview))
  stage (suHome (.deploy .shop))
  stage (suHome (.lgpl .preview))
  stage (suHome (.lgpl .shop))

/-- `compileCommerce`; its value is the directory of the core. -/
def compileCommerce : Sh Text := do
  stage (home .moduleSetup)
  let coreDir ← afterModuleSetup v
  migrateAndDeploy glob v
  return coreDir

/-! ## The chain -/

/-- The migration that is run for a database. -/
def migrationOf (d : Db) : Goal :=
  .dbmigrator (if existing glob v.allDb d then .update else .setup) d

/-- The chain of `compileCommerce`. -/
def compileCommerceChain : List (Item Mvn Action) :=
  [.stage (home .moduleSetup), .stage (suHome (migrationOf glob v .preview)),
    .stage (suHome (migrationOf glob v .shop)), .stage (suHome (migrationOf glob v .backup)),
    .stage (suHome (.deploy .preview)), .stage (suHome (.deploy .shop)),
    .stage (suHome (.lgpl .preview)), .stage (suHome (.lgpl .shop))]

theorem chains_domainAliases (db : Text) : Chains (domainAliases glob v db) [] := by
  simp only [domainAliases, run_bind]
  iterate 4 refine chains_call rfl fun _ => ?_
  exact chains_ret ()

theorem chains_edits (scripts : List Text) (path : Text) : Chains (edits scripts path) [] := by
  induction scripts with
  | nil => exact chains_ret ()
  | cons script scripts ih => exact chains_call rfl fun _ => ih

theorem chains_afterModuleSetup : Chains (afterModuleSetup v) [] := by
  simp only [afterModuleSetup, run_bind, command_bind]
  refine (chains_edits _ _).bind fun _ => ?_
  iterate 5 refine chains_call rfl fun _ => ?_
  exact chains_ret _

theorem chains_migratePreview :
    Chains (migratePreview glob v) [.stage (suHome (migrationOf glob v .preview))] := by
  rw [migratePreview, migrationOf]
  cases existing glob v.allDb .preview with
  | true => exact chains_stage _
  | false => exact chains_stage_bind _ fun _ => chains_domainAliases glob v _

theorem chains_migrateShop :
    Chains (migrateShop glob v) [.stage (suHome (migrationOf glob v .shop))] := by
  rw [migrateShop, migrationOf]
  cases existing glob v.allDb .shop with
  | true => exact chains_stage _
  | false => exact chains_stage_bind _ fun _ => chains_domainAliases glob v _

theorem chains_migrateBackup :
    Chains (migrateBackup glob v) [.stage (suHome (migrationOf glob v .backup))] := by
  rw [migrateBackup, migrationOf]
  cases existing glob v.allDb .backup <;> exact chains_stage _

theorem chains_migrateAndDeploy :
    Chains (migrateAndDeploy glob v) (compileCommerceChain glob v).tail := by
  refine (chains_migratePreview glob v).bind fun _ => ?_
  refine (chains_migrateShop glob v).bind fun _ => (chains_migrateBackup glob v).bind fun _ => ?_
  iterate 3 refine chains_stage_bind _ fun _ => ?_
  exact chains_stage _

theorem chains_compileCommerce :
    Chains (compileCommerce glob v) (compileCommerceChain glob v) := by
  refine chains_stage_bind _ fun _ => (chains_afterModuleSetup v).bind fun coreDir => ?_
  exact (chains_migrateAndDeploy glob v).bind fun _ => chains_ret coreDir

end Compile

end Avetti
