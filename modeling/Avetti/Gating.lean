import Avetti.Setup.Compile
import Avetti.Maintenance.Batch

/-!
# Gating of the stage runners

In every stage runner a stage is to be started only when every stage before it ended well, at its
second attempt if need be. The second attempt is made exactly after the code 2, but its own exit
code is never looked at.

## Main definitions

* `StageRunner`: the stage runners of the repository
* `StageRunner.script`, `StageRunner.chains`: their scripts and their chains

## Main results

* `gates_iff_recovers`: a runner is gated exactly when no stage it comes to fails its second attempt
* `not_gates_failingTwice`: a migration that fails twice is followed by the next one
-/

open Script RetryChain

namespace Avetti

/-- The stage runners of the repository, with what their runs depend on. -/
inductive StageRunner where
  | compileCommerce (glob : Text → List Text) (v : Vars)
  | updatecodefromsvn
  | updatecodeandrestart
  | updatetolatestcommunitytag
  | recompile
  | setupdatabases
  | setupStep5 (s : Step5)
  | updatecodefromsvnBat (c : Console)
  | recompileBat (c : Console)
  | setupdatabasesBat (c : Console)

/-- The script of a stage runner. -/
def StageRunner.script : StageRunner → Sh Unit
  | compileCommerce glob v => do
    let _ ← Avetti.compileCommerce glob v
  | updatecodefromsvn => Avetti.updatecodefromsvn
  | updatecodeandrestart => Avetti.updatecodeandrestart
  | updatetolatestcommunitytag => Avetti.updatetolatestcommunitytag
  | recompile => Avetti.recompile
  | setupdatabases => Avetti.setupdatabases
  | setupStep5 s => Avetti.setupStep5 s
  | updatecodefromsvnBat c => Avetti.updatecodefromsvnBat c
  | recompileBat c => Avetti.recompileBat c
  | setupdatabasesBat c => Avetti.setupdatabasesBat c

/-- The chains of a stage runner, one for each of its branches. -/
def StageRunner.chains : StageRunner → List (List (Item Mvn Action))
  | compileCommerce glob v => [compileCommerceChain glob v]
  | updatecodefromsvn => [updatecodefromsvnChain]
  | updatecodeandrestart => [betweenTomcat updatecodeandrestartBefore updatecodeandrestartInside]
  | updatetolatestcommunitytag => [updatetolatestChain true, updatetolatestChain false]
  | recompile => [recompileChain]
  | setupdatabases => [setupdatabasesChain]
  | setupStep5 s => step5Chains s
  | updatecodefromsvnBat _ => [updatecodefromsvnBatChain]
  | recompileBat _ => [recompileBatChain]
  | setupdatabasesBat _ => [setupdatabasesBatChain]

theorem runner_stageRunner (r : StageRunner) : Runner r.script r.chains := by
  cases r with
  | compileCommerce glob v =>
    have h : Runner (pure () >>= fun _ => Avetti.compileCommerce glob v >>= fun _ => pure ())
        [compileCommerceChain glob v] :=
      runner_of_chains (fun _ => compileCommerceChain glob v) trivial
        (fun _ => chains_compileCommerce glob v) (fun _ => trivial)
        (fun _ => ⟨(), reaches_pure ()⟩) (fun _ _ => Or.inr List.mem_cons_self)
        fun _ hxs => ⟨(), reaches_pure (), (List.mem_singleton.mp hxs).symm⟩
    exact h
  | updatecodefromsvn => exact runner_updatecodefromsvn
  | updatecodeandrestart => exact runner_updatecodeandrestart
  | updatetolatestcommunitytag => exact runner_updatetolatestcommunitytag
  | recompile => exact runner_recompile
  | setupdatabases => exact runner_setupdatabases
  | setupStep5 s => exact runner_setupStep5 s
  | updatecodefromsvnBat c => exact runner_updatecodefromsvnBat c
  | recompileBat c => exact runner_recompileBat c
  | setupdatabasesBat c => exact runner_setupdatabasesBat c

/-- **Gating of the stage runners**: the runs of a runner are gated exactly when, in none of its
branches, a stage it comes to fails its second attempt. -/
theorem gates_iff_recovers (r : StageRunner) (f : Mvn → Attempt → Int) :
    Gates r.script f ↔ ∀ xs ∈ r.chains, Recovers f (stages xs) :=
  (runner_stageRunner r).gates_iff f

/-- Every goal succeeds, but the migration of the database `preview` ends with 2 and then with
1. -/
def failingTwice (m : Mvn) (a : Attempt) : Int :=
  if m.goal = .dbmigrator .update .preview then
    match a with
    | .first => 2
    | .second => 1
  else 0

/-- A migration that fails twice is followed by the next one. -/
theorem not_gates_failingTwice : ¬ Gates StageRunner.updatecodefromsvn.script failingTwice := by
  intro h
  have hrun := runs_exec (answering (confirming "avetti" failingTwice)) updatecodefromsvn ()
  have hg := (h _ _ hrun (agrees_exec_confirming _ _ _)).started
  have hlast := hg
    [⟨home .moduleSetup, .first, 0⟩, ⟨home (.dbmigrator .update .preview), .first, 2⟩,
      ⟨home (.dbmigrator .update .preview), .second, 1⟩]
    (home (.dbmigrator .update .shop)) 0 _ rfl ⟨home (.dbmigrator .update .preview), .second, 1⟩
    (by decide)
  exact absurd hlast (by decide)

end Avetti
