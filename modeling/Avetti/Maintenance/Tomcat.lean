import Avetti.Maintenance.Shell

/-!
# Tomcat around a deployment

`updatecodeandrestart.sh` and `updatetolatestcommunitytag.sh` stop Tomcat, deploy the web
applications and start Tomcat again. A stage that fails in between leaves the script, and Tomcat
stays down.

## Main definitions

* `Mvn.deploys`: the stages that change the deployed web applications
* `TomcatBracketed t`: these stages run while Tomcat is stopped, and it is started again
* `RestartScript`: the two scripts

## Main results

* `tomcatBracketed_iff`: a script brackets its deployment exactly when no stage fails while Tomcat
  is stopped
* `updatecodeandrestart_leaves_tomcat_stopped`: a failing migration leaves Tomcat stopped
-/

open Script RetryChain

namespace Avetti

/-- The stage changes the deployed web applications: `deploy` and `lgpl`. -/
def Mvn.deploys (m : Mvn) : Bool :=
  match m.goal with
  | .deploy _ => true
  | .lgpl _ => true
  | _ => false

/-- Every `deploy` and `lgpl` stage is attempted only after `service tomcat stop`, with no
`service tomcat start` in between, and every `service tomcat stop` is followed by
`service tomcat start`. -/
def TomcatBracketed (t : Trace) : Prop :=
  Bracketed (fun m : Mvn => m.deploys = true) stopTomcat startTomcat (events t)

/-- The scripts that restart Tomcat. -/
inductive RestartScript where
  | updatecodeandrestart
  | updatetolatestcommunitytag
  deriving DecidableEq, Repr

/-- The script itself. -/
def RestartScript.script : RestartScript → Sh Unit
  | updatecodeandrestart => Avetti.updatecodeandrestart
  | updatetolatestcommunitytag => Avetti.updatetolatestcommunitytag

/-- The chains of a script before Tomcat is stopped and while it is stopped, one pair for each
branch. -/
def RestartScript.parts :
    RestartScript → List (List (Item Mvn Action) × List (Item Mvn Action))
  | updatecodeandrestart => [(updatecodeandrestartBefore, updatecodeandrestartInside)]
  | updatetolatestcommunitytag =>
    [(updatetolatestBefore true, updatetolatestInside true),
      (updatetolatestBefore false, updatetolatestInside false)]

theorem runner_restartScript (s : RestartScript) :
    Runner s.script (s.parts.map fun xs => betweenTomcat xs.1 xs.2) := by
  cases s with
  | updatecodeandrestart => exact runner_updatecodeandrestart
  | updatetolatestcommunitytag => exact runner_updatetolatestcommunitytag

/-- **Tomcat is bracketed** in every run of a script exactly when, once Tomcat has been stopped, no
stage up to its start breaks off. -/
theorem tomcatBracketed_iff (s : RestartScript) (f : Mvn → Attempt → Int) :
    (∀ t o, Runs s.script t o → Agrees f t → TomcatBracketed t) ↔
      ∀ xs ∈ s.parts, (∀ i ∈ stages xs.1, Passes f i) → ∀ i ∈ stages xs.2, Passes f i := by
  refine (runner_restartScript s).bracketed_iff (by decide) ?_ ?_ ?_ f
  · cases s <;> decide
  · cases s <;> decide
  · cases s <;> decide

/-- Every goal succeeds but the migration of the database `preview`. -/
def failingMigration (m : Mvn) (_ : Attempt) : Int :=
  if m.goal = .dbmigrator .update .preview then 1 else 0

/-- A failing migration leaves Tomcat stopped. -/
theorem updatecodeandrestart_leaves_tomcat_stopped :
    ¬ ∀ t o, Runs RestartScript.updatecodeandrestart.script t o → Agrees failingMigration t →
      TomcatBracketed t := by
  intro h
  have hrun := runs_exec (answering (confirming "avetti" failingMigration)) updatecodeandrestart ()
  have hb := h _ _ hrun (agrees_exec_confirming _ _ _)
  have he : events (exec (answering (confirming "avetti" failingMigration))
      updatecodeandrestart ()).trace =
      [.tried ⟨home .moduleSetup, .first, 0⟩, .did stopTomcat,
        .tried ⟨home (.dbmigrator .update .preview), .first, 1⟩] := rfl
  rw [TomcatBracketed, he] at hb
  have hstart := hb.closed [_] [_] rfl
  simp at hstart

end Avetti
