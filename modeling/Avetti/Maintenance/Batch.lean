import Avetti.Stages

/-!
# The batch files

The batch files that update, recompile or set up the code of a version on Windows, and the fifth
step of the installation there.

## Main definitions

* `Console`: the variables of the console that the batch files leave behind and find again
* `lastComponent`: the `:LOOP` over the components of a path
* `enterVersionBat`: the common beginning of the batch files
* `updatecodefromsvnBat`, `recompileBat`, `recompileshopBat`, `setupdatabasesBat`: the batch files,
  each with its stages
* `setupStep5`: the fifth step of the installation

## Main results

* `quiet_enterVersionBat`, `quiet_enterStep5`: the batch files run no goal before their stages
* `runner_updatecodefromsvnBat` and the others: every batch file is a stage runner, with its chain
-/

open Script RetryChain

namespace Avetti

/-- The goal with the settings of the batch files. -/
def svn (goal : Goal) : Mvn := ⟨false, .svn, goal⟩

/-! ## The version -/

/-- The variables of the console, which keep their values from one batch file to the next. -/
structure Console where
  ANSWER : Text
  ANSWERcode : Text
  version_to_install : Text
  codeNum : Text
  comp : Text

/-- `SET /P var`: an empty entry leaves the variable as it was. -/
def prompt (var old : Text) : Sh Text := do
  let entry ← ask var
  return if entry = [] then old else entry

/-- `for /f "tokens=1* delims=/"` on one string: the first token and what follows it. A string
without a token, or one that starts with the comment character, runs the body not at all. -/
def firstToken (t : Text) : Option (Text × Text) :=
  let u := t.dropWhile (· = '/')
  if u = [] ∨ t.head? = some ';' then none
  else some (u.takeWhile (· ≠ '/'), (u.dropWhile (· ≠ '/')).dropWhile (· = '/'))

/-- The `:LOOP` over the components of a path, at most `n` times round: `codeNum` and `comp` when it
ends. -/
def loop : ℕ → Text → Text → Text × Text
  | 0, codeNum, comp => (codeNum, comp)
  | n + 1, codeNum, comp =>
    let (codeNum, comp) := (firstToken codeNum).getD (codeNum, comp)
    if comp ≠ [] then loop n comp comp else (codeNum, comp)

/-- The `:LOOP` over the components of a path. -/
def lastComponent (codeNum comp : Text) : Text := (loop (codeNum.length + 1) codeNum comp).1

/-- `for /f "tokens=2 delims= "` on the lines of `deploy.log`: the second token of the last line
that has one. -/
def secondToken (log old : Text) : Text :=
  let tokens := (Text.lines log).filterMap fun l =>
    if l.head? = some ';' then none else (Shell.words [' '] l)[1]?
  tokens.getLast?.getD old

/-- `%var:~0,-1%`: the value without its last character. The substring of an undefined variable is
the text of the substring operation. -/
def withoutLast (t : Text) : Text := if t = [] then "~0,-1" else t.dropLast

/-- The version of `deploy.log` as the batch files read it. -/
def deployedVersionBat (c : Console) (log : Text) : Text :=
  withoutLast (lastComponent (secondToken log c.version_to_install) c.comp)

/-- `:COMPILING`: enter the directory of the version. -/
def compiling (codeNum : Text) : Sh Bool := do
  let _ ← run ["cd", "\\avetti\\svn"]
  let _ ← run ["cd", codeNum]
  return true

/-- The common beginning: two questions and the version. The value tells whether the batch file
goes on to its stages, or to `:END`. -/
def enterVersionBat (c : Console) : Sh Bool := do
  let ANSWER ← prompt "ANSWER" c.ANSWER
  if Text.lower ANSWER = "y".toList then
    let log ← command (.run ["type", "\\avetti\\svn\\deploy.log"])
    let codeNum := deployedVersionBat c log.out
    let _ ← prompt "ANSWERcode" c.ANSWERcode
    -- the tests after the second question are on the answer to the first one
    if Text.lower ANSWER = "y".toList then compiling codeNum
    else if Text.lower ANSWER = "n".toList then
      let typed ← prompt "codeNum" codeNum
      compiling typed
    else leave 1
  else if Text.lower ANSWER = "n".toList then return false
  else leave 1

/-- The stages are run when the beginning goes on to them. -/
def whenEntered (stages : Sh Unit) (entered : Bool) : Sh Unit :=
  if entered then stages else pure ()

theorem quiet_compiling (codeNum : Text) : Quiet (compiling codeNum) :=
  emits_call (fun _ => rfl) fun _ => emits_call (fun _ => rfl) fun _ => trivial

theorem quiet_enterVersionBat (c : Console) : Quiet (enterVersionBat c) := by
  simp only [enterVersionBat, prompt, ask_bind, command_bind]
  refine emits_call (fun _ => rfl) fun entry => emits_ite ?_ (emits_ite trivial trivial)
  iterate 2 refine emits_call (fun _ => rfl) fun _ => ?_
  refine emits_ite (quiet_compiling _) (emits_ite ?_ trivial)
  exact emits_call (fun _ => rfl) fun _ => quiet_compiling _

theorem reaches_enterVersionBat (c : Console) : Reaches (enterVersionBat c) true :=
  reaches_of_exec (confirming [] fun _ _ => 0) rfl

theorem runner_of_enterVersionBat (c : Console) {chain : Sh Unit} {xs : List (Item Mvn Action)}
    (hchain : Chains chain xs) : Runner (enterVersionBat c >>= whenEntered chain) [xs] := by
  refine runner_of_chains_last (fun b => if b then xs else [])
    (quiet_enterVersionBat c) ?_ ?_ ?_
  · intro b
    cases b with
    | false => exact chains_ret ()
    | true => exact hchain
  · intro b _
    cases b with
    | false => exact Or.inl rfl
    | true => exact Or.inr List.mem_cons_self
  · exact fun ys hys => ⟨true, reaches_enterVersionBat c, (List.mem_singleton.mp hys).symm⟩

/-! ## The batch files -/

/-- The stages of `updatecodefromsvn.bat`. -/
def updatecodefromsvnBatStages : Sh Unit := do
  batStage (svn .moduleSetup)
  batStage (svn (.dbmigrator .update .preview))
  batStage (svn (.dbmigrator .update .shop))
  batStage (svn (.dbmigrator .update .backup))
  batStage (svn (.deploy .preview))
  batStage (svn (.deploy .shop))
  batStage (svn (.lgpl .preview))
  batStage (svn (.lgpl .shop))

/-- `updatecodefromsvn.bat`. -/
def updatecodefromsvnBat (c : Console) : Sh Unit := do
  let entered ← enterVersionBat c
  whenEntered updatecodefromsvnBatStages entered

/-- The chain of `updatecodefromsvn.bat`. -/
def updatecodefromsvnBatChain : List (Item Mvn Action) :=
  [.stage (svn .moduleSetup), .stage (svn (.dbmigrator .update .preview)),
    .stage (svn (.dbmigrator .update .shop)), .stage (svn (.dbmigrator .update .backup)),
    .stage (svn (.deploy .preview)), .stage (svn (.deploy .shop)),
    .stage (svn (.lgpl .preview)), .stage (svn (.lgpl .shop))]

theorem chains_updatecodefromsvnBat :
    Chains updatecodefromsvnBatStages updatecodefromsvnBatChain := by
  iterate 7 refine chains_batStage_bind _ fun _ => ?_
  exact chains_batStage _

theorem runner_updatecodefromsvnBat (c : Console) :
    Runner (updatecodefromsvnBat c) [updatecodefromsvnBatChain] :=
  runner_of_enterVersionBat c chains_updatecodefromsvnBat

/-- The stages of `recompile.bat`. -/
def recompileBatStages : Sh Unit := do
  batStage (svn (.dbmigrator .update .preview))
  batStage (svn (.dbmigrator .update .shop))
  batStage (svn (.dbmigrator .update .backup))
  batStage (svn (.deploy .preview))
  batStage (svn (.deploy .shop))
  batStage (svn (.lgpl .preview))
  batStage (svn (.lgpl .shop))

/-- `recompile.bat`. -/
def recompileBat (c : Console) : Sh Unit := do
  let entered ← enterVersionBat c
  whenEntered recompileBatStages entered

/-- The chain of `recompile.bat`. -/
def recompileBatChain : List (Item Mvn Action) :=
  [.stage (svn (.dbmigrator .update .preview)), .stage (svn (.dbmigrator .update .shop)),
    .stage (svn (.dbmigrator .update .backup)), .stage (svn (.deploy .preview)),
    .stage (svn (.deploy .shop)), .stage (svn (.lgpl .preview)), .stage (svn (.lgpl .shop))]

theorem chains_recompileBat : Chains recompileBatStages recompileBatChain := by
  iterate 6 refine chains_batStage_bind _ fun _ => ?_
  exact chains_batStage _

theorem runner_recompileBat (c : Console) : Runner (recompileBat c) [recompileBatChain] :=
  runner_of_enterVersionBat c chains_recompileBat

/-- The stages of `recompileshop.bat`. -/
def recompileshopBatStages : Sh Unit := do
  batStage (svn (.dbmigrator .update .shop))
  batStage (svn (.dbmigrator .update .backup))
  batStage (svn (.deploy .shop))
  batStage (svn (.lgpl .shop))

/-- `recompileshop.bat`. -/
def recompileshopBat (c : Console) : Sh Unit := do
  let entered ← enterVersionBat c
  whenEntered recompileshopBatStages entered

/-- The chain of `recompileshop.bat`. -/
def recompileshopBatChain : List (Item Mvn Action) :=
  [.stage (svn (.dbmigrator .update .shop)), .stage (svn (.dbmigrator .update .backup)),
    .stage (svn (.deploy .shop)), .stage (svn (.lgpl .shop))]

theorem chains_recompileshopBat : Chains recompileshopBatStages recompileshopBatChain := by
  iterate 3 refine chains_batStage_bind _ fun _ => ?_
  exact chains_batStage _

theorem runner_recompileshopBat (c : Console) :
    Runner (recompileshopBat c) [recompileshopBatChain] :=
  runner_of_enterVersionBat c chains_recompileshopBat

/-- The stages of `setupdatabases.bat`. -/
def setupdatabasesBatStages : Sh Unit := do
  batStage (svn (.dbmigrator .setup .preview))
  batStage (svn (.dbmigrator .setup .shop))
  batStage (svn (.dbmigrator .setup .backup))

/-- `setupdatabases.bat`. -/
def setupdatabasesBat (c : Console) : Sh Unit := do
  let entered ← enterVersionBat c
  whenEntered setupdatabasesBatStages entered

/-- The chain of `setupdatabases.bat`. -/
def setupdatabasesBatChain : List (Item Mvn Action) :=
  [.stage (svn (.dbmigrator .setup .preview)), .stage (svn (.dbmigrator .setup .shop)),
    .stage (svn (.dbmigrator .setup .backup))]

theorem chains_setupdatabasesBat : Chains setupdatabasesBatStages setupdatabasesBatChain := by
  iterate 2 refine chains_batStage_bind _ fun _ => ?_
  exact chains_batStage _

theorem runner_setupdatabasesBat (c : Console) :
    Runner (setupdatabasesBat c) [setupdatabasesBatChain] :=
  runner_of_enterVersionBat c chains_setupdatabasesBat

/-! ## The fifth step of the installation -/

/-- The arguments of `setup-step5.bat`, with the drive it runs on. -/
structure Step5 where
  servername : Text
  your_mysql_user_password : Text
  version_to_install : Text
  drive : Text
  comp : Text

/-- `fnr.exe`: every occurrence of `find` in the files of a directory is replaced. -/
def fnr (dir fileMask find replace : Text) : List Text :=
  ["\\avetti\\scripts\\fnr.exe", "--cl", "--dir", dir, "--fileMask", fileMask, "--caseSensitive",
    "--find", find, "--replace", replace]

/-- The beginning of `setup-step5.bat`: the settings and the directory of the version. -/
def enterStep5 (s : Step5) : Sh Text := do
  if s.servername = [] then leave 1
  let _ ← run ["verify"]
  let codeNum := lastComponent s.version_to_install s.comp
  let _ ← run ["cd", "\\avetti\\svn"]
  if ← fileTest "exist" "settings.xml" then
    let _ ← run ["del", "settings.xml"]
  let _ ← run ["copy", "settings-original.xml", "settings.xml"]
  let _ ← run (fnr (s.drive ++ "avetti\\svn".toList) "settings.xml" "mysql.password"
    s.your_mysql_user_password)
  let _ ← run (fnr (s.drive ++ "avetti\\svn".toList) "settings.xml" "c8prod1.yourdomain.com"
    s.servername)
  let errorlevel ← run ["cd", codeNum]
  if errorlevel ≠ 0 then leave errorlevel
  let _ ← run ["xcopy", "\\avetti\\svn\\repository", "%homepath%\\.m2\\repository"]
  return codeNum

/-- The stages of `setup-step5.bat`. -/
def step5Stages : Sh Unit := do
  batStage (svn .moduleSetup)
  batStage (svn (.dbmigrator .setup .preview))
  batStage (svn (.dbmigrator .setup .shop))
  batStage (svn (.dbmigrator .setup .backup))
  batStage (svn (.deploy .preview))
  batStage (svn (.deploy .shop))
  batStage (svn (.lgpl .preview))
  batStage (svn (.lgpl .shop))

/-- `mysql -uavetti -p… -e statement`, as the batch file calls it. -/
def mysqlBat (s : Step5) (statement : Text) : List Text :=
  ["mysql", "-uavetti", "-p".toList ++ s.your_mysql_user_password, "-e", statement]

/-- The aliases of a database are set to the server name. -/
def aliases (s : Step5) (db : Text) : Sh Int := do
  let _ ← run (mysqlBat s ("UPDATE ".toList ++ db ++ ".domain_alias SET domain_alias='".toList ++
    s.servername ++ "' WHERE default_domain=1;".toList))
  let _ ← run (mysqlBat s ("UPDATE ".toList ++ db ++
    ".domain_alias SET vendor_suffix='espanol' WHERE domain_settings='tpt=desktop_es';".toList))
  let _ ← run (mysqlBat s ("UPDATE ".toList ++ db ++ ".domain_alias SET domain_alias='".toList ++
    s.servername ++ "' WHERE domain_settings='tpt=desktop_es';".toList))
  run (mysqlBat s ("DELETE FROM ".toList ++ db ++ ".logs;".toList))

/-- The end of `setup-step5.bat`: of its commands only the last call of `mysql` is checked. -/
def finishStep5 (s : Step5) (codeNum : Text) : Sh Unit := do
  let _ ← run ["findstr", "project.core", "\\avetti\\svn\\".toList ++ codeNum ++ "\\pom.xml".toList]
  let _ ← run ["verify"]
  let _ ← run (fnr (s.drive ++ "avetti\\tomcat\\conf\\Catalina\\localhost".toList) "*.xml"
    "mysql.password" s.your_mysql_user_password)
  let _ ← aliases s "preview"
  let errorlevel ← aliases s "shop"
  if errorlevel ≠ 0 then leave errorlevel
  if s.drive ≠ "C:\\".toList then
    let _ ← run (fnr (s.drive ++ "avetti\\tomcat\\bin".toList) "startup.bat"
      "CATALINA_HOME=C:\\avetti\\tomcat"
      ("CATALINA_HOME=".toList ++ s.drive ++ "avetti\\tomcat".toList))
  let _ ← run ["net", "stop", "apache2.2"]
  let _ ← run ["net", "start", "apache2.2"]

/-- `setup-step5.bat`. -/
def setupStep5 (s : Step5) : Sh Unit := do
  let codeNum ← enterStep5 s
  step5Stages
  finishStep5 s codeNum

/-- The chain of `setup-step5.bat`. -/
def step5Chain : List (Item Mvn Action) :=
  [.stage (svn .moduleSetup), .stage (svn (.dbmigrator .setup .preview)),
    .stage (svn (.dbmigrator .setup .shop)), .stage (svn (.dbmigrator .setup .backup)),
    .stage (svn (.deploy .preview)), .stage (svn (.deploy .shop)),
    .stage (svn (.lgpl .preview)), .stage (svn (.lgpl .shop))]

theorem chains_step5 : Chains step5Stages step5Chain := by
  iterate 7 refine chains_batStage_bind _ fun _ => ?_
  exact chains_batStage _

theorem quiet_enterStep5 (s : Step5) : Quiet (enterStep5 s) := by
  simp only [enterStep5, run_bind, fileTest_bind]
  refine emits_ite trivial ?_
  iterate 3 refine emits_call (fun _ => rfl) fun _ => ?_
  refine emits_ite (emits_call (fun _ => rfl) fun _ => ?_) ?_
  all_goals
    iterate 4 refine emits_call (fun _ => rfl) fun _ => ?_
    exact emits_ite trivial (emits_call (fun _ => rfl) fun _ => trivial)

theorem quiet_aliases (s : Step5) (db : Text) : Quiet (aliases s db) := by
  simp only [aliases, run_bind]
  iterate 4 refine emits_call (fun _ => rfl) fun _ => ?_
  trivial

theorem quiet_finishStep5 (s : Step5) (codeNum : Text) : Quiet (finishStep5 s codeNum) := by
  simp only [finishStep5, run_bind]
  iterate 3 refine emits_call (fun _ => rfl) fun _ => ?_
  refine emits_bind (quiet_aliases s _) fun _ => emits_bind (quiet_aliases s _) fun _ => ?_
  refine emits_ite trivial (emits_ite (emits_call (fun _ => rfl) fun _ => ?_) ?_)
  all_goals exact emits_call (fun _ => rfl) fun _ => emits_call (fun _ => rfl) fun _ => trivial

/-- The chains of `setup-step5.bat`: without a server name it prints how to use it. -/
def step5Chains (s : Step5) : List (List (Item Mvn Action)) :=
  if s.servername = [] then [] else [step5Chain]

theorem runner_setupStep5_of_nil (s : Step5) (hs : s.servername = []) :
    Runner (setupStep5 s) [] := by
  refine ⟨fun f t o h _ => Or.inl ?_, by simp⟩
  rw [setupStep5, enterStep5, if_pos hs] at h
  obtain ⟨rfl, -⟩ := runs_exit_iff.mp h
  rfl

theorem runner_setupStep5_of_ne_nil (s : Step5) (hs : s.servername ≠ []) :
    Runner (setupStep5 s) [step5Chain] := by
  have hassoc : setupStep5 s = enterStep5 s >>= fun codeNum =>
      (step5Stages >>= fun _ => pure codeNum) >>= finishStep5 s := by
    simp only [setupStep5, bind_assoc, pure_bind]
  rw [hassoc]
  have hchain : ∀ codeNum : Text, Chains (step5Stages >>= fun _ => pure codeNum) step5Chain :=
    fun codeNum => chains_step5.bind fun _ => chains_ret codeNum
  refine runner_of_chains (fun _ => step5Chain) (quiet_enterStep5 s) hchain
    (quiet_finishStep5 s) ?_ ?_ ?_
  · intro codeNum
    refine ⟨(), reaches_of_exec (confirming [] fun _ _ => 0) ?_⟩
    by_cases hd : s.drive = "C:\\".toList
    · simp only [finishStep5, hd, ne_eq, not_true_eq_false, if_false]
      rfl
    · simp only [finishStep5, hd, ne_eq, not_false_eq_true, if_true]
      rfl
  · exact fun _ _ => Or.inr List.mem_cons_self
  · refine fun xs hxs => ⟨lastComponent s.version_to_install s.comp, ?_,
      (List.mem_singleton.mp hxs).symm⟩
    refine reaches_of_exec (confirming [] fun _ _ => 0) ?_
    rw [enterStep5, if_neg hs]
    rfl

theorem runner_setupStep5 (s : Step5) : Runner (setupStep5 s) (step5Chains s) := by
  by_cases hs : s.servername = []
  · rw [step5Chains, if_pos hs]
    exact runner_setupStep5_of_nil s hs
  · rw [step5Chains, if_neg hs]
    exact runner_setupStep5_of_ne_nil s hs

end Avetti
