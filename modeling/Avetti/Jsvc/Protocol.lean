import Avetti.Maintenance.StopTomcat
import Avetti.Script.Machine
import Avetti.Text.Number
import Mathlib.Logic.Function.Basic

/-!
# jsvc: its processes and the PID file

An instance of `jsvc` has two processes: the controller forks, waits for its child, deletes the PID
file when the child has exited, and forks again or returns; the child takes the PID file with
`check_pid`, and is the service from then on. Any number of instances share one PID file, and their
processes run in any order: an event is one system call of one process, or an answer of the system.

`check_pid` holds the lock of the file it has opened, but a controller deletes the PID file without
the lock, so the file that is locked need not be the one that the path names any more.

## Main definitions

* `handler`: what the service makes of a signal
* `recordedPid`, `pidLine`, `overwrite`: the content of the PID file
* `Phase`, `Ctrl`, `State`: where a child and a controller are, and the system
* `step`: what an event makes of the system

## Main results

* `step_cases`: what an event can do, one case for each way through the code
-/

namespace Avetti.Jsvc

/-! ## Signals -/

/-- The signals of `handler`. -/
inductive Signal where
  | SIGTERM
  | SIGINT
  | SIGHUP
  | SIGUSR1
  | SIGUSR2
  deriving DecidableEq, Repr

/-- The variables that `handler` sets. -/
structure Flags where
  stopping : Bool
  doreload : Bool
  doreopen : Bool
  dosignal : Bool
  deriving DecidableEq, Repr

/-- The variables at the start. -/
def Flags.initial : Flags := ⟨false, false, false, false⟩

/-- `handler`. -/
def handler (f : Flags) : Signal → Flags
  | .SIGTERM | .SIGINT => if f.stopping then f else { f with stopping := true }
  | .SIGHUP => if f.stopping then f else { f with stopping := true, doreload := true }
  | .SIGUSR1 => { f with doreopen := true }
  | .SIGUSR2 => { f with dosignal := true }

/-! ## The content of the PID file -/

/-- The process that `check_pid` and `get_pidf` read from the PID file. -/
def recordedPid (content : Text) : Option ℤ :=
  if content = [] then none else some (Number.atoi (content.take 80))

/-- What `check_pid` writes. -/
def pidLine (p : Pid) : Text := Number.decimal p ++ ['\n']

/-- A file after a write at its start: it is not cut. -/
def overwrite (new old : Text) : Text := new ++ old.drop new.length

/-! ## The system -/

/-- A file, as the system knows it behind its path. -/
abbrev Inode := ℕ

/-- How a process has ended. -/
inductive Wait where
  | exited (status : ℕ)
  | signaled
  deriving DecidableEq, Repr

/-- Where a child is. -/
inductive Phase where
  /-- Before the `open` of `check_pid`. -/
  | forked
  /-- Before its `lockf(fd, F_LOCK, 0)`. -/
  | opened (file : Inode)
  /-- Before its `read` and `kill(pid, 0)`. -/
  | locked (file : Inode)
  /-- Before its `fprintf`. -/
  | vacant (file : Inode)
  /-- After `check_pid`: `java_init`, `java_load` and `java_start`. -/
  | starting
  /-- In the loop, with the handlers installed. -/
  | ready (f : Flags)
  /-- After the loop: `java_stop` and `java_destroy`. -/
  | leaving (f : Flags)
  /-- Dead, and not yet waited for. -/
  | zombie (w : Wait)
  deriving DecidableEq, Repr

/-- Where `run_controller` is. -/
inductive Ctrl where
  /-- Before `fork()`. -/
  | forking
  /-- In `waitpid`. -/
  | waiting (pid : Pid)
  /-- After `waitpid`, before what follows from the status. -/
  | reaped (w : Wait)
  /-- In `sleep(60)`. -/
  | pausing
  | returned (status : ℕ)
  /-- The controller was killed. -/
  | killed
  deriving DecidableEq, Repr

/-- An entry of the process table: a child of an instance, or another process. -/
inductive Proc (ι : Type) where
  | other
  | child (i : ι) (phase : Phase)
  deriving DecidableEq

/-- The system: the file that the path of the PID file names, the contents and the locks of the
files, the next new file, the process table, and the controllers of the instances. -/
structure State (ι : Type) where
  path : Option Inode
  content : Inode → Text
  lock : Inode → Option Pid
  next : Inode
  table : Pid → Option (Proc ι)
  ctrl : ι → Ctrl

/-- What can happen: a system call, or an answer of the system to one. -/
inductive Event (ι : Type) where
  /-- Another process starts. -/
  | spawn (p : Pid)
  /-- Another process ends. -/
  | finish (p : Pid)
  /-- The controller forks. -/
  | fork (i : ι) (p : Pid)
  | forkFails (i : ι)
  /-- The child opens the PID file, and makes it if it is not there. -/
  | openPid (p : Pid)
  | openFails (p : Pid)
  | lock (p : Pid)
  /-- The child reads the file and asks for the process in it; `group` is the answer for the
  process group of a negative number. -/
  | check (p : Pid) (group : Bool)
  /-- The child writes its number, and unlocks the file. -/
  | record (p : Pid)
  /-- The service has started, and the handlers are installed. -/
  | ready (p : Pid)
  /-- A signal that the child gets, from its controller or from another process. -/
  | signal (p : Pid) (sig : Signal)
  /-- The end of `sleep(60)` in the loop of the child. -/
  | loop (p : Pid)
  /-- The child ends after its loop, with the answers of `java_stop` and `JVM_destroy`. -/
  | leave (p : Pid) (stopped destroyed : Bool)
  /-- The child exits: an error of a step, or an exit of the Java code. -/
  | exits (p : Pid) (code : ℤ)
  /-- A signal kills the child. -/
  | killed (p : Pid)
  /-- `waitpid` returns. -/
  | reap (i : ι)
  /-- What the controller makes of the status. -/
  | conclude (i : ι)
  | wake (i : ι)
  /-- A signal kills the controller. -/
  | crash (i : ι)
  /-- A dead child without a controller is waited for by the system. -/
  | adopt (p : Pid)
  deriving DecidableEq

namespace State

variable {ι : Type} (s : State ι)

/-- The entry of a process is replaced. -/
def setProc (p : Pid) (q : Option (Proc ι)) : State ι :=
  { s with table := Function.update s.table p q }

/-- The locks of a process are released. -/
def unlock (p : Pid) : State ι :=
  { s with lock := fun file => if s.lock file = some p then none else s.lock file }

/-- `open(args->pidf, O_RDWR | O_CREAT)`: the file, and the system after it. -/
def openPath : Inode × State ι :=
  match s.path with
  | some file => (file, s)
  | none => (s.next, { s with
      path := some s.next, next := s.next + 1, content := Function.update s.content s.next [] })

@[simp] theorem setProc_table (p r : Pid) (q : Option (Proc ι)) :
    (s.setProc p q).table r = if r = p then q else s.table r := Function.update_apply ..

@[simp] theorem setProc_path (p : Pid) (q : Option (Proc ι)) : (s.setProc p q).path = s.path := rfl

@[simp] theorem setProc_content (p : Pid) (q : Option (Proc ι)) :
    (s.setProc p q).content = s.content := rfl

@[simp] theorem setProc_lock (p : Pid) (q : Option (Proc ι)) : (s.setProc p q).lock = s.lock := rfl

@[simp] theorem setProc_ctrl (p : Pid) (q : Option (Proc ι)) : (s.setProc p q).ctrl = s.ctrl := rfl

@[simp] theorem unlock_table (p : Pid) : (s.unlock p).table = s.table := rfl

@[simp] theorem unlock_path (p : Pid) : (s.unlock p).path = s.path := rfl

@[simp] theorem unlock_content (p : Pid) : (s.unlock p).content = s.content := rfl

@[simp] theorem unlock_ctrl (p : Pid) : (s.unlock p).ctrl = s.ctrl := rfl

@[simp] theorem openPath_table : s.openPath.2.table = s.table := by
  unfold openPath
  split <;> rfl

@[simp] theorem openPath_lock : s.openPath.2.lock = s.lock := by
  unfold openPath
  split <;> rfl

@[simp] theorem openPath_ctrl : s.openPath.2.ctrl = s.ctrl := by
  unfold openPath
  split <;> rfl

/-- After the `open` the path names the file that was opened. -/
@[simp] theorem openPath_path : s.openPath.2.path = some s.openPath.1 := by
  unfold openPath
  split
  · assumption
  · rfl

/-- A file that is there is opened, and nothing changes. -/
theorem openPath_of_some {file : Inode} (h : s.path = some file) : s.openPath = (file, s) := by
  unfold openPath
  split
  · rename_i file' hpath
    obtain rfl := Option.some.inj (hpath.symm.trans h)
    rfl
  · rename_i hpath
    rw [hpath] at h
    cases h

section Ctrl

variable [DecidableEq ι]

/-- The controller of an instance goes on. -/
def setCtrl (i : ι) (c : Ctrl) : State ι := { s with ctrl := Function.update s.ctrl i c }

@[simp] theorem setCtrl_ctrl (i j : ι) (c : Ctrl) :
    (s.setCtrl i c).ctrl j = if j = i then c else s.ctrl j := Function.update_apply ..

@[simp] theorem setCtrl_path (i : ι) (c : Ctrl) : (s.setCtrl i c).path = s.path := rfl

@[simp] theorem setCtrl_content (i : ι) (c : Ctrl) : (s.setCtrl i c).content = s.content := rfl

@[simp] theorem setCtrl_lock (i : ι) (c : Ctrl) : (s.setCtrl i c).lock = s.lock := rfl

@[simp] theorem setCtrl_table (i : ι) (c : Ctrl) : (s.setCtrl i c).table = s.table := rfl

end Ctrl

/-- `kill(n, 0) == 0`. -/
def answers (group : Bool) (n : ℤ) : Bool :=
  if n = 0 then true else if n < 0 then group else (s.table n.toNat).isSome

/-- A live process is recorded in the content of the file. -/
def busy (group : Bool) (file : Inode) : Bool :=
  (recordedPid (s.content file)).any (s.answers group)

end State

/-! ## The steps -/

/-- The status of `exit(code)`. -/
def exitStatus (code : ℤ) : ℕ := (code % 256).toNat

/-- What `child` returns after its loop. -/
def leaveCode (f : Flags) (stopped destroyed : Bool) : ℤ :=
  if !stopped then 6 else if !destroyed then 7 else if f.doreload then 123 else 0

/-- The controller deletes the PID file. -/
def Deletes (probe : Bool) (w : Wait) : Bool :=
  match w with
  | .exited status => !probe && status != 122
  | .signaled => false

/-- What the controller does next. -/
def nextCtrl : Wait → Ctrl
  | .exited status =>
    if status = 123 then .pausing else if status = 0 then .returned 0 else .returned 1
  | .signaled => .pausing

section Step

variable {ι : Type}

/-- The phase of a child after an event that concerns only the child itself. -/
def Phase.next : Phase → Event ι → Option Phase
  | .starting, .ready _ => some (.ready Flags.initial)
  | .ready f, .signal _ sig => some (.ready (handler f sig))
  -- `java_stop` and `java_destroy` run with the handlers installed
  | .leaving f, .signal _ sig => some (.leaving (handler f sig))
  | .ready f, .loop _ =>
    -- the test of `while (!stopping)`, after the two flags of a round
    some (if f.stopping then .leaving f else .ready { f with doreopen := false, dosignal := false })
  | .leaving f, .leave _ stopped destroyed =>
    some (.zombie (.exited (exitStatus (leaveCode f stopped destroyed))))
  | .starting, .exits _ code => some (.zombie (.exited (exitStatus code)))
  | .ready _, .exits _ code => some (.zombie (.exited (exitStatus code)))
  | .leaving _, .exits _ code => some (.zombie (.exited (exitStatus code)))
  | _, _ => none

/-- The child that an event of the service itself concerns. -/
def Event.inner : Event ι → Option Pid
  | .ready p | .signal p _ | .loop p | .leave p _ _ | .exits p _ => some p
  | _ => none

variable [DecidableEq ι] (probe : ι → Bool)

/-- **One event**, where `probe i` is `args->vers == true || args->chck == true` in the instance. -/
def step (s : State ι) (e : Event ι) : Option (State ι) :=
  match e with
  | .spawn p => if 0 < p ∧ s.table p = none then some (s.setProc p (some .other)) else none
  | .finish p => if s.table p = some .other then some (s.setProc p none) else none
  | .fork i p =>
    if s.ctrl i = .forking ∧ 0 < p ∧ p < 2 ^ 31 ∧ s.table p = none then
      some ((s.setProc p (some (.child i .forked))).setCtrl i (.waiting p))
    else none
  | .forkFails i => if s.ctrl i = .forking then some (s.setCtrl i (.returned 1)) else none
  | .openPid p =>
    match s.table p with
    | some (.child i .forked) =>
      some (s.openPath.2.setProc p (some (.child i (.opened s.openPath.1))))
    | _ => none
  | .openFails p =>
    match s.table p with
    | some (.child i .forked) =>
      -- `check_pid` returns -1, which `-version` and `-check` do not look at
      if probe i then some (s.setProc p (some (.child i .starting)))
      else some (s.setProc p (some (.child i (.zombie (.exited (exitStatus (-1)))))))
    | _ => none
  | .lock p =>
    match s.table p with
    | some (.child i (.opened file)) =>
      -- `F_LOCK` waits, so that this happens when the file is free
      if s.lock file = none then
        some { s.setProc p (some (.child i (.locked file))) with
          lock := Function.update s.lock file (some p) }
      else none
    | _ => none
  | .check p group =>
    match s.table p with
    | some (.child i (.locked file)) =>
      -- `-version` and `-check` write nothing, and `child` does not look at the result
      if probe i then some ((s.setProc p (some (.child i .starting))).unlock p)
      -- a live process is recorded: `child` returns 122
      else if s.busy group file then
        some ((s.setProc p (some (.child i (.zombie (.exited 122))))).unlock p)
      -- the lock is kept until the number is written
      else some (s.setProc p (some (.child i (.vacant file))))
    | _ => none
  | .record p =>
    match s.table p with
    | some (.child i (.vacant file)) =>
      -- `fprintf` at the start of the file, and then `F_ULOCK`
      some ({ s.setProc p (some (.child i .starting)) with
        content := Function.update s.content file
          (overwrite (pidLine p) (s.content file)) }.unlock p)
    | _ => none
  | .ready p =>
    match s.table p with
    | some (.child i phase) =>
      -- with `-version` and `-check` the child returns before `java_start`
      if probe i then none
      else (phase.next e).map fun next => s.setProc p (some (.child i next))
    | _ => none
  | .signal p _ | .loop p | .leave p _ _ | .exits p _ =>
    match s.table p with
    | some (.child i phase) => (phase.next e).map fun next => s.setProc p (some (.child i next))
    | _ => none
  | .killed p =>
    match s.table p with
    | some (.child _ (.zombie _)) => none
    -- the locks of a process are released when it ends
    | some (.child i _) => some ((s.setProc p (some (.child i (.zombie .signaled)))).unlock p)
    | _ => none
  | .reap i =>
    match s.ctrl i with
    | .waiting p =>
      match s.table p with
      -- `waitpid` goes on waiting as long as the child lives
      | some (.child _ (.zombie w)) => some ((s.setProc p none).setCtrl i (.reaped w))
      | _ => none
    | _ => none
  | .conclude i =>
    match s.ctrl i with
    | .reaped w =>
      -- `unlink`, by the path and without the lock
      some { s.setCtrl i (nextCtrl w) with
        path := if Deletes (probe i) w then none else s.path }
    | _ => none
  | .wake i => if s.ctrl i = .pausing then some (s.setCtrl i .forking) else none
  | .crash i =>
    match s.ctrl i with
    -- a controller that has returned is no process any more
    | .returned _ => none
    | _ => some (s.setCtrl i .killed)
  | .adopt p =>
    match s.table p with
    | some (.child i (.zombie _)) =>
      if s.ctrl i = .killed then some (s.setProc p none) else none
    | _ => none

/-- What an event does, one case for each way through the code. -/
inductive Steps (s : State ι) : Event ι → State ι → Prop where
  | spawn {p : Pid} (hpos : 0 < p) (hfree : s.table p = none) :
    Steps s (.spawn p) (s.setProc p (some .other))
  | finish {p : Pid} (hother : s.table p = some .other) : Steps s (.finish p) (s.setProc p none)
  | fork {i : ι} {p : Pid} (hctrl : s.ctrl i = .forking) (hpos : 0 < p) (hlt : p < 2 ^ 31)
    (hfree : s.table p = none) :
    Steps s (.fork i p) ((s.setProc p (some (.child i .forked))).setCtrl i (.waiting p))
  | forkFails {i : ι} (hctrl : s.ctrl i = .forking) :
    Steps s (.forkFails i) (s.setCtrl i (.returned 1))
  | openPid {p : Pid} {i : ι} (hchild : s.table p = some (.child i .forked)) :
    Steps s (.openPid p) (s.openPath.2.setProc p (some (.child i (.opened s.openPath.1))))
  | ignored {p : Pid} {i : ι} (hchild : s.table p = some (.child i .forked))
    (hprobe : probe i = true) :
    Steps s (.openFails p) (s.setProc p (some (.child i .starting)))
  | failed {p : Pid} {i : ι} (hchild : s.table p = some (.child i .forked))
    (hprobe : probe i = false) : Steps s (.openFails p)
      (s.setProc p (some (.child i (.zombie (.exited (exitStatus (-1)))))))
  | lock {p : Pid} {i : ι} {file : Inode} (hchild : s.table p = some (.child i (.opened file)))
    (hfree : s.lock file = none) :
    Steps s (.lock p) { s.setProc p (some (.child i (.locked file))) with
      lock := Function.update s.lock file (some p) }
  | probed {p : Pid} {group : Bool} {i : ι} {file : Inode}
    (hchild : s.table p = some (.child i (.locked file))) (hprobe : probe i = true) :
    Steps s (.check p group) ((s.setProc p (some (.child i .starting))).unlock p)
  | refused {p : Pid} {group : Bool} {i : ι} {file : Inode}
    (hchild : s.table p = some (.child i (.locked file))) (hprobe : probe i = false)
    (hbusy : s.busy group file = true) :
    Steps s (.check p group) ((s.setProc p (some (.child i (.zombie (.exited 122))))).unlock p)
  | passed {p : Pid} {group : Bool} {i : ι} {file : Inode}
    (hchild : s.table p = some (.child i (.locked file))) (hprobe : probe i = false)
    (hbusy : s.busy group file = false) :
    Steps s (.check p group) (s.setProc p (some (.child i (.vacant file))))
  | record {p : Pid} {i : ι} {file : Inode}
    (hchild : s.table p = some (.child i (.vacant file))) :
    Steps s (.record p) ({ s.setProc p (some (.child i .starting)) with
      content := Function.update s.content file
        (overwrite (pidLine p) (s.content file)) }.unlock p)
  | inner {e : Event ι} {p : Pid} {i : ι} {phase phase' : Phase}
    (hchild : s.table p = some (.child i phase)) (he : e.inner = some p)
    (hnext : phase.next e = some phase') : Steps s e (s.setProc p (some (.child i phase')))
  | killed {p : Pid} {i : ι} {phase : Phase} (hchild : s.table p = some (.child i phase))
    (hlive : ∀ w, phase ≠ .zombie w) :
    Steps s (.killed p) ((s.setProc p (some (.child i (.zombie .signaled)))).unlock p)
  | reap {i j : ι} {p : Pid} {w : Wait} (hctrl : s.ctrl i = .waiting p)
    (hchild : s.table p = some (.child j (.zombie w))) :
    Steps s (.reap i) ((s.setProc p none).setCtrl i (.reaped w))
  | conclude {i : ι} {w : Wait} (hctrl : s.ctrl i = .reaped w) :
    Steps s (.conclude i) { s.setCtrl i (nextCtrl w) with
      path := if Deletes (probe i) w then none else s.path }
  | wake {i : ι} (hctrl : s.ctrl i = .pausing) : Steps s (.wake i) (s.setCtrl i .forking)
  | crash {i : ι} (hctrl : ∀ status, s.ctrl i ≠ .returned status) :
    Steps s (.crash i) (s.setCtrl i .killed)
  | adopt {p : Pid} {i : ι} {w : Wait} (hctrl : s.ctrl i = .killed)
    (hchild : s.table p = some (.child i (.zombie w))) : Steps s (.adopt p) (s.setProc p none)

/-- **Everything an event can do**. -/
theorem step_cases {s s' : State ι} {e : Event ι} (h : step probe s e = some s') :
    Steps probe s e s' := by
  -- for each event, the tests on its way through `step`
  cases e with
  | spawn p =>
    simp only [step, Option.ite_none_right_eq_some, Option.some.injEq] at h
    obtain ⟨⟨hpos, hfree⟩, rfl⟩ := h
    exact .spawn hpos hfree
  | finish p =>
    simp only [step, Option.ite_none_right_eq_some, Option.some.injEq] at h
    obtain ⟨hother, rfl⟩ := h
    exact .finish hother
  | fork i p =>
    simp only [step, Option.ite_none_right_eq_some, Option.some.injEq] at h
    obtain ⟨⟨hctrl, hpos, hlt, hfree⟩, rfl⟩ := h
    exact .fork hctrl hpos hlt hfree
  | forkFails i =>
    simp only [step, Option.ite_none_right_eq_some, Option.some.injEq] at h
    obtain ⟨hctrl, rfl⟩ := h
    exact .forkFails hctrl
  | openPid p =>
    simp only [step] at h
    split at h
    · rename_i i hchild
      obtain rfl := Option.some.inj h
      exact .openPid hchild
    · cases h
  | openFails p =>
    simp only [step] at h
    split at h
    · rename_i i hchild
      split_ifs at h with hprobe
      · obtain rfl := Option.some.inj h
        exact .ignored hchild hprobe
      · obtain rfl := Option.some.inj h
        exact .failed hchild (Bool.eq_false_iff.mpr hprobe)
    · cases h
  | lock p =>
    simp only [step] at h
    split at h
    · rename_i i file hchild
      simp only [Option.ite_none_right_eq_some, Option.some.injEq] at h
      obtain ⟨hfree, rfl⟩ := h
      exact .lock hchild hfree
    · cases h
  | check p group =>
    simp only [step] at h
    split at h
    · rename_i i file hchild
      split_ifs at h with hprobe hbusy
      · obtain rfl := Option.some.inj h
        exact .probed hchild hprobe
      · obtain rfl := Option.some.inj h
        exact .refused hchild (Bool.eq_false_iff.mpr hprobe) hbusy
      · obtain rfl := Option.some.inj h
        exact .passed hchild (Bool.eq_false_iff.mpr hprobe) (Bool.eq_false_iff.mpr hbusy)
    · cases h
  | record p =>
    simp only [step] at h
    split at h
    · rename_i i file hchild
      obtain rfl := Option.some.inj h
      exact .record hchild
    · cases h
  | ready p =>
    simp only [step] at h
    split at h
    · rename_i i phase hchild
      split_ifs at h
      obtain ⟨phase', hnext, rfl⟩ := Option.map_eq_some_iff.mp h
      exact .inner hchild rfl hnext
    · cases h
  | signal p sig | loop p | leave p stopped destroyed | exits p code =>
    simp only [step] at h
    split at h
    · rename_i i phase hchild
      obtain ⟨phase', hnext, rfl⟩ := Option.map_eq_some_iff.mp h
      exact .inner hchild rfl hnext
    · cases h
  | killed p =>
    simp only [step] at h
    split at h
    · cases h
    · rename_i i phase hnot hchild
      obtain rfl := Option.some.inj h
      exact .killed hchild hnot
    · cases h
  | reap i =>
    simp only [step] at h
    split at h
    · rename_i p hctrl
      split at h
      · rename_i j w hchild
        obtain rfl := Option.some.inj h
        exact .reap hctrl hchild
      · cases h
    · cases h
  | conclude i =>
    simp only [step] at h
    split at h
    · rename_i w hctrl
      obtain rfl := Option.some.inj h
      exact .conclude hctrl
    · cases h
  | wake i =>
    simp only [step, Option.ite_none_right_eq_some, Option.some.injEq] at h
    obtain ⟨hctrl, rfl⟩ := h
    exact .wake hctrl
  | crash i =>
    simp only [step] at h
    split at h
    · cases h
    · rename_i hctrl
      obtain rfl := Option.some.inj h
      exact .crash hctrl
  | adopt p =>
    simp only [step] at h
    split at h
    · rename_i i w hchild
      simp only [Option.ite_none_right_eq_some, Option.some.injEq] at h
      obtain ⟨hctrl, rfl⟩ := h
      exact .adopt hctrl hchild
    · cases h

end Step

end Avetti.Jsvc
