import Avetti.Stages

/-!
# The maintenance scripts

The shell scripts that update, recompile or set up the code of a version: they ask for the version,
enter its directory and run the Maven goals.

## Main definitions

* `enterVersion`: the common beginning of the scripts of the user `avetti`
* `updatecodefromsvn`, `updatecodeandrestart`, `recompile`, `recompileshop`, `setupdatabases`: the
  scripts of the user `avetti`, each with its stages
* `updatetolatestcommunitytag`: the update to the latest tag, as `root` or as `avetti`

## Main results

* `quiet_enterVersion`, `quiet_enterTag`: the scripts run no goal before their stages
* `runner_updatecodefromsvn` and the others: every script is a stage runner, with its chain
-/

open Script RetryChain

namespace Avetti

/-- The goal with the settings of the user `avetti`. -/
def home (goal : Goal) : Mvn := ⟨false, .home, goal⟩

/-- The goal with the settings of the user `avetti`, through `su - avetti -c`. -/
def suHome (goal : Goal) : Mvn := ⟨true, .home, goal⟩

/-- The goal without a settings file. -/
def bare (goal : Goal) : Mvn := ⟨false, .none, goal⟩

/-- The directory of a checked out version. -/
def codeDir (code : Text) : Text := "/avetti/svn/".toList ++ code

/-! ## The version -/

/-- The version on a line of `deploy.log`: `awk '{print $2}' | cut -d',' -f1 | cut -d'/' -f4`. -/
def deployedVersion (line : Text) : Text :=
  let path := ((Shell.words Shell.defaultIFS line)[1]?).getD []
  Text.cut '/' 4 (Text.cut ',' 1 path)

/-- The version to go on with: the deployed one, or one that is typed. The status is that of `$?`
after the `if`: that of `read` when a version is typed, and 0 when no branch is taken. -/
def chooseVersion (deployed answer2 : Text) : Sh Reply :=
  if answer2 ≠ "Y".toList ∧ answer2 ≠ "y".toList then
    if answer2 ≠ "N".toList ∧ answer2 ≠ "n".toList then leave 1
    else command (.read "code_to_install")
  else pure ⟨0, deployed⟩

/-- The common beginning: only `avetti` may go on, the version is that of `deploy.log` or one that
was typed, and its directory must exist. -/
def enterVersion : Sh Text := do
  let user ← capture ["whoami"]
  if isOtherWord user "avetti" then
    leave 1
  let deployed := deployedVersion (← capture ["tail", "-n", "1", "/avetti/svn/deploy.log"])
  let answer2 ← ask "answer2"
  let typed ← chooseVersion deployed answer2
  if typed.status ≠ 0 then
    leave 1
  let errCode ← run ["cd", codeDir typed.out]
  if errCode ≠ 0 then
    leave 1
  return typed.out

theorem quiet_chooseVersion (deployed answer2 : Text) : Quiet (chooseVersion deployed answer2) := by
  refine emits_ite (emits_ite trivial ?_) trivial
  exact emits_call (fun _ => rfl) fun _ => trivial

theorem quiet_enterVersion : Quiet enterVersion := by
  simp only [enterVersion, run_bind, capture_bind, ask_bind]
  refine emits_call (fun _ => rfl) fun user => emits_ite trivial ?_
  refine emits_call (fun _ => rfl) fun log => emits_call (fun _ => rfl) fun answer2 => ?_
  refine emits_bind (quiet_chooseVersion _ _) fun typed => emits_ite trivial ?_
  exact emits_call (fun _ => rfl) fun errCode => emits_ite trivial trivial

theorem reaches_enterVersion : Reaches enterVersion [] :=
  reaches_of_exec (confirming "avetti" fun _ _ => 0) rfl

theorem runner_of_enterVersion {chain : Text → Sh Unit} {xs : List (Item Mvn Action)}
    (hchain : ∀ code, Chains (chain code) xs) : Runner (enterVersion >>= chain) [xs] := by
  refine runner_of_chains_last (fun _ => xs) quiet_enterVersion hchain ?_ ?_
  · exact fun _ _ => Or.inr (by simp)
  · exact fun ys hys => ⟨[], reaches_enterVersion, (List.mem_singleton.mp hys).symm⟩

/-- `service tomcat stop`. -/
def stopTomcat : Action := ("tomcat", "stop")

/-- `service tomcat start`. -/
def startTomcat : Action := ("tomcat", "start")

/-- A chain that stops Tomcat after its part `before`, and starts it at its end. -/
def betweenTomcat (before inside : List (Item Mvn Action)) : List (Item Mvn Action) :=
  before ++ .act stopTomcat :: (inside ++ [.act startTomcat])

/-! ## The scripts of the user avetti -/

/-- The stages of `updatecodefromsvn.sh`. -/
def updatecodefromsvnStages (code_to_install : Text) : Sh Unit := do
  stage (home .moduleSetup)
  stageIn (codeDir code_to_install) (home (.dbmigrator .update .preview))
  stageIn (codeDir code_to_install) (home (.dbmigrator .update .shop))
  stageIn (codeDir code_to_install) (home (.dbmigrator .update .backup))
  stageIn (codeDir code_to_install) (home (.deploy .preview))
  stageIn (codeDir code_to_install) (home (.deploy .shop))
  stageIn (codeDir code_to_install) (home (.lgpl .preview))
  stageIn (codeDir code_to_install) (home (.lgpl .shop))

/-- `updatecodefromsvn.sh`. -/
def updatecodefromsvn : Sh Unit := do
  let code_to_install ← enterVersion
  updatecodefromsvnStages code_to_install

/-- The chain of `updatecodefromsvn.sh`. -/
def updatecodefromsvnChain : List (Item Mvn Action) :=
  [.stage (home .moduleSetup), .stage (home (.dbmigrator .update .preview)),
    .stage (home (.dbmigrator .update .shop)), .stage (home (.dbmigrator .update .backup)),
    .stage (home (.deploy .preview)), .stage (home (.deploy .shop)),
    .stage (home (.lgpl .preview)), .stage (home (.lgpl .shop))]

theorem chains_updatecodefromsvn (code : Text) :
    Chains (updatecodefromsvnStages code) updatecodefromsvnChain := by
  refine chains_stage_bind _ fun _ => ?_
  iterate 6 refine chains_stageIn_bind _ _ fun _ => ?_
  exact chains_stageIn _ _

theorem runner_updatecodefromsvn : Runner updatecodefromsvn [updatecodefromsvnChain] :=
  runner_of_enterVersion chains_updatecodefromsvn

/-- The stages of `updatecodeandrestart.sh`, with the services it stops and starts. -/
def updatecodeandrestartStages (code_to_install : Text) : Sh Unit := do
  stage (home .moduleSetup)
  service "tomcat" "stop"
  stageIn (codeDir code_to_install) (home (.dbmigrator .update .preview))
  stageIn (codeDir code_to_install) (home (.dbmigrator .update .shop))
  stageIn (codeDir code_to_install) (home (.dbmigrator .update .backup))
  stageIn (codeDir code_to_install) (home (.deploy .preview))
  stageIn (codeDir code_to_install) (home (.deploy .shop))
  stageIn (codeDir code_to_install) (home (.lgpl .preview))
  stageIn (codeDir code_to_install) (home (.lgpl .shop))
  service "nginx" "stop"
  service "memcached" "stop"
  service "varnish" "stop"
  service "memcached" "start"
  service "varnish" "start"
  service "nginx" "start"
  service "tomcat" "start"

/-- `updatecodeandrestart.sh`. -/
def updatecodeandrestart : Sh Unit := do
  let code_to_install ← enterVersion
  updatecodeandrestartStages code_to_install

/-- The chain of `updatecodeandrestart.sh` before Tomcat is stopped. -/
def updatecodeandrestartBefore : List (Item Mvn Action) := [.stage (home .moduleSetup)]

/-- The chain of `updatecodeandrestart.sh` while Tomcat is stopped. -/
def updatecodeandrestartInside : List (Item Mvn Action) :=
  [.stage (home (.dbmigrator .update .preview)), .stage (home (.dbmigrator .update .shop)),
    .stage (home (.dbmigrator .update .backup)), .stage (home (.deploy .preview)),
    .stage (home (.deploy .shop)), .stage (home (.lgpl .preview)), .stage (home (.lgpl .shop)),
    .act ("nginx", "stop"), .act ("memcached", "stop"), .act ("varnish", "stop"),
    .act ("memcached", "start"), .act ("varnish", "start"), .act ("nginx", "start")]

theorem chains_updatecodeandrestart (code : Text) :
    Chains (updatecodeandrestartStages code)
      (betweenTomcat updatecodeandrestartBefore updatecodeandrestartInside) := by
  refine chains_stage_bind _ fun _ => chains_service_bind _ _ fun _ => ?_
  iterate 7 refine chains_stageIn_bind _ _ fun _ => ?_
  iterate 6 refine chains_service_bind _ _ fun _ => ?_
  exact chains_service _ _

theorem runner_updatecodeandrestart : Runner updatecodeandrestart
    [betweenTomcat updatecodeandrestartBefore updatecodeandrestartInside] :=
  runner_of_enterVersion chains_updatecodeandrestart

/-- The stages of `recompile.sh`. -/
def recompileStages (code_to_install : Text) : Sh Unit := do
  stageIn (codeDir code_to_install) (home (.dbmigrator .update .preview))
  stageIn (codeDir code_to_install) (home (.dbmigrator .update .shop))
  stageIn (codeDir code_to_install) (home (.dbmigrator .update .backup))
  stageIn (codeDir code_to_install) (home (.deploy .preview))
  stageIn (codeDir code_to_install) (home (.deploy .shop))
  stageIn (codeDir code_to_install) (home (.lgpl .preview))
  stageIn (codeDir code_to_install) (home (.lgpl .shop))

/-- `recompile.sh`. -/
def recompile : Sh Unit := do
  let code_to_install ← enterVersion
  recompileStages code_to_install

/-- The chain of `recompile.sh`. -/
def recompileChain : List (Item Mvn Action) :=
  [.stage (home (.dbmigrator .update .preview)), .stage (home (.dbmigrator .update .shop)),
    .stage (home (.dbmigrator .update .backup)), .stage (home (.deploy .preview)),
    .stage (home (.deploy .shop)), .stage (home (.lgpl .preview)), .stage (home (.lgpl .shop))]

theorem chains_recompile (code : Text) : Chains (recompileStages code) recompileChain := by
  iterate 6 refine chains_stageIn_bind _ _ fun _ => ?_
  exact chains_stageIn _ _

theorem runner_recompile : Runner recompile [recompileChain] :=
  runner_of_enterVersion chains_recompile

/-- The stages of `recompileshop.sh`. The first attempt to update the database `shop` is missing:
`errCode` is the status of the `if` that checked `cd`, which is 0 when the script gets there. -/
def recompileshopStages (code_to_install : Text) : Sh Unit := do
  retry (do
    let _ ← run ["cd", codeDir code_to_install]
    mvn (home (.dbmigrator .update .shop)) .second) 0
  stageIn (codeDir code_to_install) (home (.dbmigrator .update .backup))
  stageIn (codeDir code_to_install) (home (.deploy .shop))
  stageIn (codeDir code_to_install) (home (.lgpl .shop))

/-- `recompileshop.sh`. -/
def recompileshop : Sh Unit := do
  let code_to_install ← enterVersion
  recompileshopStages code_to_install

/-- The chain of `recompileshop.sh`. -/
def recompileshopChain : List (Item Mvn Action) :=
  [.stage (home (.dbmigrator .update .backup)), .stage (home (.deploy .shop)),
    .stage (home (.lgpl .shop))]

theorem chains_recompileshop (code : Text) :
    Chains (recompileshopStages code) recompileshopChain := by
  refine (chains_ret ()).bind fun _ => ?_
  iterate 2 refine chains_stageIn_bind _ _ fun _ => ?_
  exact chains_stageIn _ _

theorem runner_recompileshop : Runner recompileshop [recompileshopChain] :=
  runner_of_enterVersion chains_recompileshop

/-- The stages of `setupdatabases.sh`. -/
def setupdatabasesStages (code_to_install : Text) : Sh Unit := do
  stageIn (codeDir code_to_install) (home (.dbmigrator .setup .preview))
  stageIn (codeDir code_to_install) (home (.dbmigrator .setup .shop))
  stageIn (codeDir code_to_install) (home (.dbmigrator .setup .backup))

/-- `setupdatabases.sh`. -/
def setupdatabases : Sh Unit := do
  let code_to_install ← enterVersion
  setupdatabasesStages code_to_install

/-- The chain of `setupdatabases.sh`. -/
def setupdatabasesChain : List (Item Mvn Action) :=
  [.stage (home (.dbmigrator .setup .preview)), .stage (home (.dbmigrator .setup .shop)),
    .stage (home (.dbmigrator .setup .backup))]

theorem chains_setupdatabases (code : Text) :
    Chains (setupdatabasesStages code) setupdatabasesChain := by
  iterate 2 refine chains_stageIn_bind _ _ fun _ => ?_
  exact chains_stageIn _ _

theorem runner_setupdatabases : Runner setupdatabases [setupdatabasesChain] :=
  runner_of_enterVersion chains_setupdatabases

/-! ## The update to the latest tag -/

/-- The latest tag: `grep -v core | tail -n 1 | sed 's/\///'` on the listing of the tags. -/
def latestTag (listing : Text) : Text :=
  let l : Text := Text.lastLine (Text.grep (fun l => ¬ Text.Occurs "core" l) listing)
  l.takeWhile (· ≠ '/') ++ (l.dropWhile (· ≠ '/')).drop 1

/-- The address of the tags. -/
def tagsUrl : Text := "https://svn.avetticommerce.com/software/avetticommerce/commerce8/tags/community"

/-- `svn ls` for the tags. -/
def svnLs : List Text :=
  ["svn", "ls", "--trust-server-cert", "--non-interactive", "--config-dir",
    "/home/avetti/.subversion", "--no-auth-cache", "--username=avetti-lgpl-access",
    "--password=avetti-lgpl-access", tagsUrl]

/-- `svn co` for a tag. -/
def svnCo (tag : Text) : List Text :=
  ["svn", "co", "--trust-server-cert", "--non-interactive", "--no-auth-cache",
    "--username=avetti-lgpl-access", "--password=avetti-lgpl-access", tagsUrl ++ "/".toList ++ tag]

/-- The beginning of `updatetolatestcommunitytag.sh`: the user and the latest tag, checked out. -/
def enterTag : Sh (Text × Text) := do
  let currentUser ← capture ["whoami"]
  if isOtherWord currentUser "avetti" ∧ isOtherWord currentUser "root" then
    leave 1
  let _ ← capture ["ls", "/avetti/svn"]
  let listing ← command (.run svnLs)
  let lastTag := latestTag listing.out
  -- `$?` is the status of `sed`, the last command of the pipeline
  if ← fileTest "-d" (codeDir lastTag) then
    leave 1
  let _ ← run ["cd", "/avetti/svn"]
  let _ ← run (svnCo lastTag)
  let _ ← run ["cd", codeDir lastTag]
  return (currentUser, lastTag)

theorem quiet_enterTag : Quiet enterTag := by
  simp only [enterTag, run_bind, capture_bind, command_bind, fileTest_bind]
  refine emits_call (fun _ => rfl) fun user => emits_ite trivial ?_
  refine emits_call (fun _ => rfl) fun current => emits_call (fun _ => rfl) fun listing => ?_
  refine emits_call (fun _ => rfl) fun found => emits_ite trivial ?_
  iterate 3 refine emits_call (fun _ => rfl) fun _ => ?_
  trivial

/-- The stages of the branch of `root`. -/
def rootStages : Sh Unit := do
  stage (suHome (.dbmigrator .update .preview))
  stage (suHome (.dbmigrator .update .shop))
  stage (suHome (.dbmigrator .update .backup))
  service "tomcat" "stop"
  stage (suHome (.deploy .preview))
  stage (suHome (.deploy .shop))
  stage (suHome (.lgpl .preview))
  stage (suHome (.lgpl .shop))
  service "tomcat" "start"

/-- The stages of the branch of `avetti`, which names no settings file. -/
def avettiStages : Sh Unit := do
  stage (bare .moduleSetup)
  stage (bare (.dbmigrator .update .preview))
  stage (bare (.dbmigrator .update .shop))
  stage (bare (.dbmigrator .update .backup))
  service "tomcat" "stop"
  stage (bare (.deploy .preview))
  stage (bare (.deploy .shop))
  stage (bare (.lgpl .preview))
  stage (bare (.lgpl .shop))
  service "tomcat" "start"

/-- The stages of `updatetolatestcommunitytag.sh`. -/
def updatetolatestStages (currentUser lastTag : Text) : Sh Unit := do
  stage (home .moduleSetup)
  let _ ← run ["chmod", "-R", "g+w", codeDir lastTag]
  let _ ← run ["chown", "-R", "avetti:apache", "/avetti/svn/"]
  let _ ← run ["cd", "$OLDPWD"]
  if isWord currentUser "root" then
    rootStages
  else
    let _ ← run ["cd", codeDir lastTag]
    avettiStages

/-- `updatetolatestcommunitytag.sh`. -/
def updatetolatestcommunitytag : Sh Unit := do
  let (currentUser, lastTag) ← enterTag
  updatetolatestStages currentUser lastTag

/-- The chain of `updatetolatestcommunitytag.sh` before Tomcat is stopped. -/
def updatetolatestBefore (asRoot : Bool) : List (Item Mvn Action) :=
  match asRoot with
  | true =>
    [.stage (home .moduleSetup), .stage (suHome (.dbmigrator .update .preview)),
      .stage (suHome (.dbmigrator .update .shop)), .stage (suHome (.dbmigrator .update .backup))]
  | false =>
    [.stage (home .moduleSetup), .stage (bare .moduleSetup),
      .stage (bare (.dbmigrator .update .preview)), .stage (bare (.dbmigrator .update .shop)),
      .stage (bare (.dbmigrator .update .backup))]

/-- The chain of `updatetolatestcommunitytag.sh` while Tomcat is stopped. -/
def updatetolatestInside (asRoot : Bool) : List (Item Mvn Action) :=
  match asRoot with
  | true =>
    [.stage (suHome (.deploy .preview)), .stage (suHome (.deploy .shop)),
      .stage (suHome (.lgpl .preview)), .stage (suHome (.lgpl .shop))]
  | false =>
    [.stage (bare (.deploy .preview)), .stage (bare (.deploy .shop)),
      .stage (bare (.lgpl .preview)), .stage (bare (.lgpl .shop))]

/-- The chain of `updatetolatestcommunitytag.sh`. -/
def updatetolatestChain (asRoot : Bool) : List (Item Mvn Action) :=
  betweenTomcat (updatetolatestBefore asRoot) (updatetolatestInside asRoot)

theorem chains_rootStages : Chains rootStages
    (.stage (suHome (.dbmigrator .update .preview)) ::
      .stage (suHome (.dbmigrator .update .shop)) ::
      .stage (suHome (.dbmigrator .update .backup)) ::
      .act ("tomcat", "stop") :: .stage (suHome (.deploy .preview)) ::
      .stage (suHome (.deploy .shop)) :: .stage (suHome (.lgpl .preview)) ::
      .stage (suHome (.lgpl .shop)) :: [.act ("tomcat", "start")]) := by
  iterate 3 refine chains_stage_bind _ fun _ => ?_
  refine chains_service_bind _ _ fun _ => ?_
  iterate 4 refine chains_stage_bind _ fun _ => ?_
  exact chains_service _ _

theorem chains_avettiStages : Chains avettiStages
    (.stage (bare .moduleSetup) :: .stage (bare (.dbmigrator .update .preview)) ::
      .stage (bare (.dbmigrator .update .shop)) ::
      .stage (bare (.dbmigrator .update .backup)) ::
      .act ("tomcat", "stop") :: .stage (bare (.deploy .preview)) ::
      .stage (bare (.deploy .shop)) :: .stage (bare (.lgpl .preview)) ::
      .stage (bare (.lgpl .shop)) :: [.act ("tomcat", "start")]) := by
  iterate 4 refine chains_stage_bind _ fun _ => ?_
  refine chains_service_bind _ _ fun _ => ?_
  iterate 4 refine chains_stage_bind _ fun _ => ?_
  exact chains_service _ _

theorem chains_updatetolatest (currentUser lastTag : Text) :
    Chains (updatetolatestStages currentUser lastTag)
      (updatetolatestChain (isWord currentUser "root")) := by
  rw [updatetolatestStages]
  cases isWord currentUser "root" with
  | true =>
    refine chains_stage_bind _ fun _ => ?_
    iterate 3 refine chains_call rfl fun _ => ?_
    exact chains_rootStages
  | false =>
    refine chains_stage_bind _ fun _ => ?_
    iterate 4 refine chains_call rfl fun _ => ?_
    exact chains_avettiStages

theorem reaches_enterTag (u : Text) (hu : u = "root".toList ∨ u = "avetti".toList) :
    Reaches enterTag (u, []) := by
  rcases hu with rfl | rfl
  · exact reaches_of_exec (confirming "root" fun _ _ => 0) rfl
  · exact reaches_of_exec (confirming "avetti" fun _ _ => 0) rfl

/-- **The update to the latest tag** runs the chain of `root` or the chain of `avetti`. -/
theorem runner_updatetolatestcommunitytag : Runner updatetolatestcommunitytag
    [updatetolatestChain true, updatetolatestChain false] := by
  refine runner_of_chains_last (fun a => updatetolatestChain (isWord a.1 "root"))
    quiet_enterTag (fun a => chains_updatetolatest a.1 a.2) ?_ ?_
  · rintro ⟨currentUser, lastTag⟩ -
    dsimp only
    cases isWord currentUser "root" with
    | true => exact Or.inr List.mem_cons_self
    | false => exact Or.inr (List.mem_cons_of_mem _ List.mem_cons_self)
  · intro xs hxs
    rcases List.mem_cons.mp hxs with rfl | hxs
    · exact ⟨_, reaches_enterTag _ (Or.inl rfl), rfl⟩
    · exact ⟨_, reaches_enterTag _ (Or.inr rfl), (List.mem_singleton.mp hxs).symm⟩

end Avetti
