import Avetti.Maintenance.Shell
import Avetti.Maintenance.Batch

/-!
# The two platforms

Four maintenance jobs exist as a shell script and as a batch file. Given the same exit codes, the
two versions of a job are to run the same goals and to stop at the same point.

## Main definitions

* `Job`: the four jobs, with `Job.shell` and `Job.batch`, their two versions
* `executed t`: the goals and profiles of a run
* `SameWork j f`: at the exit codes `f` the two versions of `j` do the same work

## Main results

* `executed_of_chains`: the goals of a run are those of its chain
* `sameWork_iff`: the two versions of a job do the same work, except for `recompileshop`
-/

open Script RetryChain

namespace Avetti

/-- The jobs that exist on both platforms. -/
inductive Job where
  | updatecodefromsvn
  | recompile
  | recompileshop
  | setupdatabases
  deriving DecidableEq, Repr

/-- The shell script of a job, once the directory of the version has been entered. -/
def Job.shell (code_to_install : Text) : Job → Sh Unit
  | updatecodefromsvn => updatecodefromsvnStages code_to_install
  | recompile => recompileStages code_to_install
  | recompileshop => recompileshopStages code_to_install
  | setupdatabases => setupdatabasesStages code_to_install

/-- The batch file of a job, once the directory of the version has been entered. -/
def Job.batch : Job → Sh Unit
  | updatecodefromsvn => updatecodefromsvnBatStages
  | recompile => recompileBatStages
  | recompileshop => recompileshopBatStages
  | setupdatabases => setupdatabasesBatStages

/-- The chain of the shell script of a job. -/
def Job.shellChain : Job → List (Item Mvn Action)
  | updatecodefromsvn => updatecodefromsvnChain
  | recompile => recompileChain
  | recompileshop => recompileshopChain
  | setupdatabases => setupdatabasesChain

/-- The chain of the batch file of a job. -/
def Job.batchChain : Job → List (Item Mvn Action)
  | updatecodefromsvn => updatecodefromsvnBatChain
  | recompile => recompileBatChain
  | recompileshop => recompileshopBatChain
  | setupdatabases => setupdatabasesBatChain

theorem chains_shell (code : Text) (j : Job) : Chains (j.shell code) j.shellChain := by
  cases j with
  | updatecodefromsvn => exact chains_updatecodefromsvn code
  | recompile => exact chains_recompile code
  | recompileshop => exact chains_recompileshop code
  | setupdatabases => exact chains_setupdatabases code

theorem chains_batch (j : Job) : Chains j.batch j.batchChain := by
  cases j with
  | updatecodefromsvn => exact chains_updatecodefromsvnBat
  | recompile => exact chains_recompileBat
  | recompileshop => exact chains_recompileshopBat
  | setupdatabases => exact chains_setupdatabasesBat

/-- The goals and profiles Maven executes in a run, in order. -/
def executed : Trace → List (List Text) :=
  List.filterMap fun
    | (.mvn m _, _) => some m.goal.words
    | _ => none

theorem executed_eq (t : Trace) : executed t = (attempts t).map fun x => x.stage.goal.words := by
  induction t with
  | nil => rfl
  | cons e t ih =>
    obtain ⟨c, r⟩ := e
    cases c with
    | mvn m a => exact congrArg (m.goal.words :: ·) ih
    | _ => exact ih

/-- At the exit codes `f` of the goals, the shell script and the batch file of a job execute the
same goals, and both come to their end or neither does. -/
def SameWork (j : Job) (f : Goal → Attempt → Int) : Prop :=
  ∀ code t o t' o', Runs (j.shell code) t o → Runs j.batch t' o' →
    Agrees (fun m => f m.goal) t → Agrees (fun m => f m.goal) t' →
      executed t = executed t' ∧ o.isReturned = o'.isReturned

/-- The goals of a run are those of its chain. -/
theorem executed_of_chains {α : Type} {p : Sh α} {xs : List (Item Mvn Action)} (hp : Chains p xs)
    {f : Goal → Attempt → Int} {t : Trace} {o : Outcome α} (h : Runs p t o)
    (hf : Agrees (fun m => f m.goal) t) :
    executed t = (chain f ((stages xs).map Mvn.goal)).map (fun x => x.stage.words) ∧
      (o.isReturned = true ↔ ∀ g ∈ (stages xs).map Mvn.goal, Passes f g) := by
  obtain ⟨he, ho⟩ := hp _ t o h hf
  constructor
  · rw [executed_eq, attempts, he, attempted_trace, ← chain_map, List.map_map]
    rfl
  · rw [ho]
    simp [Passes]

theorem goals_eq {j : Job} (hj : j ≠ .recompileshop) :
    (stages j.shellChain).map Mvn.goal = (stages j.batchChain).map Mvn.goal := by
  cases j with
  | recompileshop => exact absurd rfl hj
  | _ => rfl

/-- The shell script `recompileshop.sh` starts with the database `backup`, the batch file with
`shop`. -/
theorem not_sameWork_recompileshop (f : Goal → Attempt → Int) : ¬ SameWork .recompileshop f := by
  intro h
  obtain ⟨t, o, hrun, hf⟩ := exists_runs_agrees (Job.recompileshop.shell []) fun m => f m.goal
  obtain ⟨t', o', hrun', hf'⟩ := exists_runs_agrees Job.recompileshop.batch fun m => f m.goal
  have heq := (h [] t o t' o' hrun hrun' hf hf').1
  rw [(executed_of_chains (chains_shell [] _) hrun hf).1,
    (executed_of_chains (chains_batch _) hrun' hf').1] at heq
  have hhead : (Goal.dbmigrator .update .backup).words = (Goal.dbmigrator .update .shop).words :=
    Option.some.inj (congrArg List.head? heq)
  exact absurd hhead (by decide)

/-- **The two versions of a job do the same work** at all exit codes, except for `recompileshop`. -/
theorem sameWork_iff (j : Job) (f : Goal → Attempt → Int) :
    SameWork j f ↔ j ≠ .recompileshop := by
  constructor
  · rintro h rfl
    exact not_sameWork_recompileshop f h
  · intro hj code t o t' o' hrun hrun' hf hf'
    obtain ⟨he, ho⟩ := executed_of_chains (chains_shell code j) hrun hf
    obtain ⟨he', ho'⟩ := executed_of_chains (chains_batch j) hrun' hf'
    rw [goals_eq hj] at he ho
    exact ⟨he.trans he'.symm, Bool.eq_iff_iff.mpr (ho.trans ho'.symm)⟩

/-- With every goal succeeding, `recompileshop.sh` leaves the database `shop` as it is. -/
theorem recompileshop_skips_shop : ¬ SameWork .recompileshop fun _ _ => 0 :=
  not_sameWork_recompileshop _

end Avetti
