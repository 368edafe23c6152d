import Avetti.Script.RetryChain
import Avetti.Script.Basic
import Avetti.Text.Shell

/-!
# The commands of the scripts

The shell scripts and the batch files run Maven goals, services and other programs, read answers
and test files. A command replies with its exit status and its output. What only prints to the
terminal or to the log file is left out, except where its status is tested.

## Main definitions

* `Goal`, `Mvn`: the Maven goals with their profiles, and the calls of Maven
* `Cmd`, `Reply`: the commands, and their replies
* `Sh`: the scripts over these commands
* `run`, `teed`, `capture`, `ask`, `test`: the forms in which a script uses a command
* `Check`, `failed`: the tests of `$?`, and the branch that is taken
* `stage`, `batStage`: a Maven goal with its second attempt, in the shell and in a batch file
-/

open Script

namespace Avetti

/-! ## Maven -/

/-- The databases of the shop. -/
inductive Db where
  | preview
  | shop
  | backup
  deriving DecidableEq, Repr

/-- The name of a database. -/
def Db.name : Db → Text
  | preview => "preview"
  | shop => "shop"
  | backup => "backup"

/-- The web applications. -/
inductive Site where
  | preview
  | shop
  deriving DecidableEq, Repr

/-- The name of a web application. -/
def Site.name : Site → Text
  | preview => "preview"
  | shop => "shop"

/-- The two ways to migrate a database: in place, or from scratch. -/
inductive Migration where
  | update
  | setup
  deriving DecidableEq, Repr

/-- The prefix of the profile of a migration. -/
def Migration.name : Migration → Text
  | update => "update-db-"
  | setup => "setup-db-"

/-- The Maven goals, each with its profile. -/
inductive Goal where
  | moduleSetup
  | dbmigrator (m : Migration) (d : Db)
  | deploy (s : Site)
  | lgpl (s : Site)
  deriving DecidableEq, Repr

/-- The goals and profiles on the command line. -/
def Goal.words : Goal → List Text
  | moduleSetup => ["avetti:module:setup"]
  | dbmigrator m d => ["avetti:util:dbmigrator", "-P".toList ++ m.name ++ d.name]
  | deploy s => ["avetti:module:deploy", "-P".toList ++ s.name, "clean", "compile", "war:exploded"]
  | lgpl s => ["avetti:util:lgpl", "-Pinstall-lgpl-on-".toList ++ s.name]

/-- The settings file a call of Maven names: that of the user `avetti`, that of the batch files, or
none. -/
inductive Settings where
  | home
  | svn
  | none
  deriving DecidableEq, Repr

/-- A call of Maven: whether it goes through `su - avetti -c`, its settings file and its goal. -/
structure Mvn where
  su : Bool
  settings : Settings
  goal : Goal
  deriving DecidableEq, Repr

/-! ## Commands -/

/-- The tests of `$?` in `setup.sh`, under the command that is checked. -/
inductive Check where
  | svnVersion
  | yumSubversion
  | aptSubversion
  | mysqlVersion
  | yumMysql
  | aptMysqlClient
  | javacVersion
  | whichNc
  | ncPort
  | svnInfo
  | groupadd
  | useradd
  | configure
  | make
  | makeInstall
  | chmodHttpd
  | chkconfigTomcat
  | svnCheckout
  deriving DecidableEq, Repr

/-- The commands of the scripts. A call of Maven carries which of the two attempts of its stage it
is, and a redirection of an `echo` into a file is a command of its own. `branch` is no command: it
records which branch of a test of `$?` is taken. -/
inductive Cmd where
  | run (words : List Text)
  | mvn (m : Mvn) (attempt : Attempt)
  | service (name action : Text)
  | read (var : Text)
  | test (op word : Text)
  | write (text path : Text)
  | append (text path : Text)
  | branch (c : Check) (failed : Bool)
  deriving DecidableEq

/-- The reply to a command: its exit status and its output. -/
structure Reply where
  status : Int
  out : Text
  deriving DecidableEq

/-- The scripts over these commands. -/
abbrev Sh := Script Cmd Reply

/-- A command; its exit status. -/
def run (words : List Text) : Sh Int := do
  return (← command (.run words)).status

/-- A command piped into `tee`: the status is that of `tee`. -/
def teed (words : List Text) : Sh Int := do
  let _ ← command (.run words)
  return 0

/-- A command substitution: the output without its last newlines. -/
def capture (words : List Text) : Sh Text := do
  return Text.chomp (← command (.run words)).out

/-- A call of Maven; its exit status. -/
def mvn (m : Mvn) (attempt : Attempt) : Sh Int := do
  return (← command (.mvn m attempt)).status

/-- `service name action`; its status is not looked at. -/
def service (name action : Text) : Sh Unit := do
  let _ ← command (.service name action)

/-- `read var`: the line that was typed. -/
def ask (var : Text) : Sh Text := do
  return (← command (.read var)).out

/-- The tests of `[` that ask the file system. -/
def fileOperators : List Text :=
  ["-a", "-b", "-c", "-d", "-e", "-f", "-g", "-h", "-k", "-p", "-r", "-s", "-t", "-u", "-w", "-x",
    "-G", "-L", "-N", "-O", "-S"]

/-- `[ op word ]` for a test of the file system. -/
def fileTest (op word : Text) : Sh Bool := do
  return (← command (.test op word)).status = 0

/-- `[ words ]`. Where `[` reports an error its status is not 0, as for a test that is false. -/
def test : List Text → Sh Bool
  | [] => pure false
  | [w] => pure (w ≠ [])
  | [op, w] =>
    if op ∈ fileOperators then fileTest op w
    else pure (op = "!".toList ∧ w = [] ∨ op = "-n".toList ∧ w ≠ [] ∨ op = "-z".toList ∧ w = [])
  | [a, op, b] =>
    pure (op = "!=".toList ∧ a ≠ b ∨ op = "=".toList ∧ a = b ∨ op = "==".toList ∧ a = b)
  | _ => pure false

/-- `[ ${x} = s ]` with `x` unquoted: with any other number of words than one, `[` reports an
error. -/
def isWord (x s : Text) : Bool :=
  match Shell.words Shell.defaultIFS x with
  | [w] => w = s
  | _ => false

/-- `[ ${x} != s ]` with `x` unquoted. -/
def isOtherWord (x s : Text) : Bool :=
  match Shell.words Shell.defaultIFS x with
  | [w] => w ≠ s
  | _ => false

/-- `if c; then p; fi`. -/
def ifThen (c : Bool) (p : Sh Unit) : Sh Unit := if c then p else pure ()

/-- The test `[ $? != 0 ]`: whether its failure branch is taken. -/
def failed (c : Check) (status : Int) : Sh Bool := do
  let _ ← command (.branch c (status ≠ 0))
  return status ≠ 0

section Sequences

variable {α : Type}

@[simp] theorem run_bind (ws : List Text) (k : Int → Sh α) :
    (run ws >>= k) = call (.run ws) fun r => k r.status := rfl

@[simp] theorem teed_bind (ws : List Text) (k : Int → Sh α) :
    (teed ws >>= k) = call (.run ws) fun _ => k 0 := rfl

@[simp] theorem capture_bind (ws : List Text) (k : Text → Sh α) :
    (capture ws >>= k) = call (.run ws) fun r => k (Text.chomp r.out) := rfl

@[simp] theorem mvn_bind (m : Mvn) (a : Attempt) (k : Int → Sh α) :
    (mvn m a >>= k) = call (.mvn m a) fun r => k r.status := rfl

@[simp] theorem service_bind (name action : Text) (k : Unit → Sh α) :
    (service name action >>= k) = call (.service name action) fun _ => k () := rfl

@[simp] theorem ask_bind (var : Text) (k : Text → Sh α) :
    (ask var >>= k) = call (.read var) fun r => k r.out := rfl

@[simp] theorem fileTest_bind (op w : Text) (k : Bool → Sh α) :
    (fileTest op w >>= k) = call (.test op w) fun r => k (decide (r.status = 0)) := rfl

@[simp] theorem failed_bind (c : Check) (status : Int) (k : Bool → Sh α) :
    (failed c status >>= k) = call (.branch c (status ≠ 0)) fun _ => k (status ≠ 0) := rfl

end Sequences

/-! ## Stages -/

/-- The rest of a stage, from `errCode` on: a second attempt after the code 2, an exit after any
other failure. The code of the second attempt is not looked at. -/
def retry (again : Sh Int) (errCode : Int) : Sh Unit := do
  if errCode ≠ 0 then
    if errCode = 2 then
      let _ ← again
    else leave 1

/-- A stage of a shell script. -/
def stage (m : Mvn) : Sh Unit := do
  let errCode ← mvn m .first
  retry (mvn m .second) errCode

/-- A stage of a shell script whose attempts both start with `cd`. -/
def stageIn (dir : Text) (m : Mvn) : Sh Unit := do
  let _ ← run ["cd", dir]
  let errCode ← mvn m .first
  retry (do
    let _ ← run ["cd", dir]
    mvn m .second) errCode

/-- A stage of a batch file: `%errorlevel%` in the block after the first attempt was expanded
before the block started. -/
def batStage (m : Mvn) : Sh Unit := do
  let _ ← run ["verify"]
  let errorlevel ← mvn m .first
  if errorlevel ≠ 0 then
    if errorlevel = 2 then
      let _ ← mvn m .second
    else leave errorlevel

end Avetti
