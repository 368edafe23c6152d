import Avetti.Jsvc.Lifecycle

/-!
# jsvc: the stop of the init script

The init script sends `SIGTERM` to the process in the PID file and waits until the file is gone.
A service that has installed its handlers leaves its loop, stops, and exits; its controller deletes
the file and returns. So the wait ends, as long as the processes of the instance go on and nothing
else touches them or the file. This gives the system on which `stop` and `restarttomcat` were
examined, where the deletion of the file is an assumption, from the code of `jsvc`.

## Main definitions

* `AtStage`: how far the shutdown of a service has got
* `Undisturbed x i p`: an execution in which only this instance goes on, and does go on
* `JsvcHost`: a system with a service, at the moment of the stop
* `JsvcHost.host`: the system for the init script

## Main results

* `atStage_of_step`: one event of the shutdown
* `eventually_deleted`: the PID file is deleted, and the controller returns
* `JsvcHost.restarts`: Tomcat is restarted
-/

open Machine

namespace Avetti.Jsvc

variable {ι : Type} [DecidableEq ι] {probe : ι → Bool}

/-! ## The stages of a shutdown -/

/-- The PID file has its content. -/
def HasFile (s : State ι) (text : Text) : Prop := ∃ file, s.path = some file ∧ s.content file = text

/-- The status of a service that was stopped. -/
def StopStatus (status : ℕ) : Prop := status = 0 ∨ status = 6 ∨ status = 7

/-- The phase of the service, so many stages before its controller is done with `waitpid`. -/
def StagePhase : ℕ → Phase → Prop
  | 0, .zombie (.exited status) => StopStatus status
  | 1, .leaving f => f.doreload = false
  | 2, .ready f => f.stopping = true ∧ f.doreload = false
  | 3, .ready f => f.stopping = false ∧ f.doreload = false
  | _, _ => False

/-- **How far the shutdown has got**: how many events are left until the PID file is deleted. A
service that has not got a signal is at the stage 5, and stays there. -/
def AtStage (i : ι) (p : Pid) (text : Text) (s : State ι) : ℕ → Prop
  | 0 => s.path = none ∧ ∃ status, s.ctrl i = .returned status
  | 1 => HasFile s text ∧ ∃ status, StopStatus status ∧ s.ctrl i = .reaped (.exited status)
  | k + 2 => HasFile s text ∧ s.ctrl i = .waiting p ∧
    ∃ phase, StagePhase k phase ∧ s.table p = some (.child i phase)

/-- The events of the instance, from its loop on, and those of processes that are not of `jsvc`. -/
def Event.Concerns (i : ι) (p : Pid) : Event ι → Prop
  | .loop q | .leave q _ _ => q = p
  | .reap j | .conclude j => j = i
  | .spawn _ | .finish _ => True
  | _ => False

/-- The event that takes the shutdown to its next stage. -/
def Event.Advances (i : ι) (p : Pid) : ℕ → Event ι → Prop
  | 1, e => e = .conclude i
  | 2, e => e = .reap i
  | 3, e => ∃ stopped destroyed, e = .leave p stopped destroyed
  | 4, e => e = .loop p
  | _, _ => False

section Stage

variable {i : ι} {p : Pid} {text : Text} {s s' : State ι} {e : Event ι} {k : ℕ}

/-- A service that has been asked to stop ends with one of three statuses. -/
theorem stopStatus_leave {f : Flags} (hf : f.doreload = false) (stopped destroyed : Bool) :
    StopStatus (exitStatus (leaveCode f stopped destroyed)) := by
  cases stopped <;> cases destroyed <;> simp [StopStatus, exitStatus, leaveCode, hf]

/-- A controller that has got one of these statuses returns. -/
theorem nextCtrl_of_stopStatus {status : ℕ} (h : StopStatus status) :
    ∃ r, nextCtrl (.exited status) = .returned r := by
  rcases h with rfl | rfl | rfl
  · exact ⟨0, rfl⟩
  · exact ⟨1, rfl⟩
  · exact ⟨1, rfl⟩

omit [DecidableEq ι] in
/-- **One event of the service** takes it to the next stage, or leaves it where it is. -/
theorem stagePhase_next {phase phase' : Phase} (hs : StagePhase k phase)
    (hnext : phase.next e = some phase') (he : e.Concerns i p) (hinner : e.inner = some p) :
    StagePhase k phase' ∧ ¬ e.Advances i p (k + 2) ∨
      e.Advances i p (k + 2) ∧ 0 < k ∧ StagePhase (k - 1) phase' := by
  -- the loop tests `stopping`, and only the stage after the signal has it set
  cases e with
  | loop q =>
    obtain rfl : q = p := he
    cases phase <;> cases hnext
    rename_i f
    rcases k with _ | _ | _ | _ | k
    · cases hs
    · cases hs
    · rw [if_pos hs.1]
      exact Or.inr ⟨rfl, by decide, hs.2⟩
    · rw [if_neg (by simp [hs.1])]
      exact Or.inl ⟨hs, id⟩
    · cases hs
  | leave q stopped destroyed =>
    obtain rfl : q = p := he
    cases phase <;> cases hnext
    rename_i f
    rcases k with _ | _ | _ | _ | k
    · cases hs
    · exact Or.inr ⟨⟨stopped, destroyed, rfl⟩, by decide, stopStatus_leave hs stopped destroyed⟩
    · cases hs
    · cases hs
    · cases hs
  | spawn | finish | reap | conclude => cases hinner
  | _ => cases he

omit [DecidableEq ι] in
/-- A stage does not depend on the processes that are not of the instance. -/
theorem AtStage.congr (hs : AtStage i p text s k) (hpath : s'.path = s.path)
    (hcontent : s'.content = s.content) (hctrl : s'.ctrl i = s.ctrl i)
    (htable : ∀ phase, s.table p = some (.child i phase) → s'.table p = some (.child i phase)) :
    AtStage i p text s' k := by
  have hfile : HasFile s text → HasFile s' text := by
    rintro ⟨file, hfile, htext⟩
    exact ⟨file, hpath.trans hfile, (congrFun hcontent file).trans htext⟩
  rcases k with _ | _ | k
  · obtain ⟨hnone, status, hreturned⟩ := hs
    exact ⟨hpath.trans hnone, status, hctrl.trans hreturned⟩
  · obtain ⟨hf, status, hstatus, hreaped⟩ := hs
    exact ⟨hfile hf, status, hstatus, hctrl.trans hreaped⟩
  · obtain ⟨hf, hwait, phase, hphase, hp⟩ := hs
    exact ⟨hfile hf, hctrl.trans hwait, phase, hphase, htable _ hp⟩

/-- **One event of a shutdown** takes it to the next stage, or leaves it where it is. -/
theorem atStage_of_step (hprobe : probe i = false) (hs : AtStage i p text s k)
    (he : e.Concerns i p) (hstep : step probe s e = some s') :
    AtStage i p text s' k ∧ ¬ e.Advances i p k ∨
      e.Advances i p k ∧ 0 < k ∧ AtStage i p text s' (k - 1) := by
  have h := step_cases probe hstep
  cases h with
  | @spawn q _ hfree =>
    refine Or.inl ⟨hs.congr rfl rfl rfl fun phase hp => ?_, ?_⟩
    · have hne : p ≠ q := by
        rintro rfl
        rw [hfree] at hp
        cases hp
      rw [State.setProc_table, if_neg hne, hp]
    · rcases k with _ | _ | _ | _ | _ | k <;> simp [Event.Advances]
  | @finish q hother =>
    refine Or.inl ⟨hs.congr rfl rfl rfl fun phase hp => ?_, ?_⟩
    · have hne : p ≠ q := by
        rintro rfl
        rw [hother] at hp
        cases hp
      rw [State.setProc_table, if_neg hne, hp]
    · rcases k with _ | _ | _ | _ | _ | k <;> simp [Event.Advances]
  | @inner _ q j phase phase' hchild hinner hnext =>
    have hq : q = p := by
      cases e with
      | loop | leave =>
        obtain rfl := Option.some.inj hinner
        exact he
      | spawn | finish | reap | conclude => cases hinner
      | _ => cases he
    subst hq
    -- the stages after `waitpid` do not depend on the child any more
    rcases k with _ | _ | k
    · refine Or.inl ⟨hs, ?_⟩
      exact id
    · refine Or.inl ⟨hs, ?_⟩
      rintro rfl
      cases hinner
    · obtain ⟨hf, hwait, phase₁, hphase, hp⟩ := hs
      obtain ⟨rfl, rfl⟩ := Proc.child.inj (Option.some.inj (hp.symm.trans hchild))
      have htable : (s.setProc q (some (.child i phase'))).table q = some (.child i phase') := by
        rw [State.setProc_table, if_pos rfl]
      rcases stagePhase_next hphase hnext he hinner with ⟨hsame, hnot⟩ | ⟨hadvances, hpos, hless⟩
      · exact Or.inl ⟨⟨hf, hwait, phase', hsame, htable⟩, hnot⟩
      · obtain ⟨k, rfl⟩ := Nat.exists_eq_add_of_lt hpos
        rw [Nat.zero_add] at hless hadvances ⊢
        exact Or.inr ⟨hadvances, Nat.succ_pos _, hf, hwait, phase', hless, htable⟩
  | @reap j m q w hctrl hchild =>
    obtain rfl : j = i := he
    rcases k with _ | _ | k
    · obtain ⟨-, status, hreturned⟩ := hs
      cases hreturned.symm.trans hctrl
    · obtain ⟨-, status, -, hreaped⟩ := hs
      cases hreaped.symm.trans hctrl
    · obtain ⟨hf, hwait, phase, hphase, hp⟩ := hs
      obtain rfl := Ctrl.waiting.inj (hwait.symm.trans hctrl)
      obtain ⟨rfl, rfl⟩ := Proc.child.inj (Option.some.inj (hp.symm.trans hchild))
      -- of the stages, only the last one before `waitpid` has a dead child
      rcases k with _ | _ | _ | _ | k
      · cases w with
        | signaled => cases hphase
        | exited status =>
          refine Or.inr ⟨rfl, by decide, hf, status, hphase, ?_⟩
          rw [State.setCtrl_ctrl, if_pos rfl]
      all_goals cases hphase
  | @conclude j w hctrl =>
    obtain rfl : j = i := he
    rcases k with _ | _ | k
    · obtain ⟨-, status, hreturned⟩ := hs
      cases hreturned.symm.trans hctrl
    · obtain ⟨hf, status, hstatus, hreaped⟩ := hs
      obtain rfl := Ctrl.reaped.inj (hreaped.symm.trans hctrl)
      obtain ⟨r, hr⟩ := nextCtrl_of_stopStatus hstatus
      -- none of the three statuses is 122, so the file is deleted
      have hdeletes : Deletes (probe j) (.exited status) = true := by
        rcases hstatus with rfl | rfl | rfl <;> simp [Deletes, hprobe]
      refine Or.inr ⟨rfl, by decide, if_pos hdeletes, r, ?_⟩
      simp only [State.setCtrl_ctrl, if_true]
      exact hr
    · obtain ⟨-, hwait, -⟩ := hs
      cases hwait.symm.trans hctrl
  | _ => cases he

end Stage

/-! ## The shutdown -/

/-- **Only the instance goes on**, and it does: a `sleep(60)` of the loop ends, the Java code stops,
and the controller goes on when its child has ended. -/
structure Undisturbed (x : Execution (step probe)) (i : ι) (p : Pid) : Prop where
  concerns : ∀ n e, x.event n = some e → e.Concerns i p
  loops : ∀ n f, (x.state n).table p = some (.child i (.ready f)) →
    ∃ m, n ≤ m ∧ x.event m = some (.loop p)
  leaves : ∀ n f, (x.state n).table p = some (.child i (.leaving f)) →
    ∃ m, n ≤ m ∧ ∃ stopped destroyed, x.event m = some (.leave p stopped destroyed)
  reaps : ∀ n w, (x.state n).table p = some (.child i (.zombie w)) →
    (x.state n).ctrl i = .waiting p → ∃ m, n ≤ m ∧ x.event m = some (.reap i)
  concludes : ∀ n w, (x.state n).ctrl i = .reaped w → ∃ m, n ≤ m ∧ x.event m = some (.conclude i)

section Undisturbed

variable {x : Execution (step probe)} {i : ι} {p : Pid} {text : Text}

/-- Nothing but a later stage follows on a stage. -/
theorem Undisturbed.atStage_succ (hx : Undisturbed x i p) (hprobe : probe i = false) {n k : ℕ}
    (h : AtStage i p text (x.state n) k) :
    AtStage i p text (x.state (n + 1)) k ∧ (∀ e, x.event n = some e → ¬ e.Advances i p k) ∨
      0 < k ∧ AtStage i p text (x.state (n + 1)) (k - 1) ∧
        ∃ e, x.event n = some e ∧ e.Advances i p k := by
  cases he : x.event n with
  | none =>
    rw [x.state_succ_of_none he]
    exact Or.inl ⟨h, by rintro _ ⟨⟩⟩
  | some e =>
    rcases atStage_of_step hprobe h (hx.concerns n e he) (x.step_of_some he) with
      ⟨hsame, hnot⟩ | ⟨hadvances, hpos, hnext⟩
    · refine Or.inl ⟨hsame, ?_⟩
      rintro _ ⟨⟩
      exact hnot
    · exact Or.inr ⟨hpos, hnext, e, rfl, hadvances⟩

/-- A shutdown comes to the event that takes it to its next stage. -/
theorem Undisturbed.exists_advance (hx : Undisturbed x i p) {n k : ℕ} (hpos : 0 < k) (hk : k ≤ 4)
    (h : AtStage i p text (x.state n) k) :
    ∃ m, n ≤ m ∧ ∃ e, x.event m = some e ∧ e.Advances i p k := by
  rcases k with _ | _ | k
  · exact absurd hpos (lt_irrefl 0)
  · obtain ⟨-, status, -, hreaped⟩ := h
    obtain ⟨m, hnm, hm⟩ := hx.concludes n _ hreaped
    exact ⟨m, hnm, _, hm, rfl⟩
  · obtain ⟨-, hwait, phase, hphase, hp⟩ := h
    rcases k with _ | _ | _ | k
    · obtain ⟨w, rfl⟩ : ∃ w, phase = .zombie w := by
        cases phase <;> first | exact ⟨_, rfl⟩ | cases hphase
      obtain ⟨m, hnm, hm⟩ := hx.reaps n w hp hwait
      exact ⟨m, hnm, _, hm, rfl⟩
    · obtain ⟨f, rfl⟩ : ∃ f, phase = .leaving f := by
        cases phase <;> first | exact ⟨_, rfl⟩ | cases hphase
      obtain ⟨m, hnm, stopped, destroyed, hm⟩ := hx.leaves n f hp
      exact ⟨m, hnm, _, hm, stopped, destroyed, rfl⟩
    · obtain ⟨f, rfl⟩ : ∃ f, phase = .ready f := by
        cases phase <;> first | exact ⟨_, rfl⟩ | cases hphase
      obtain ⟨m, hnm, hm⟩ := hx.loops n f hp
      exact ⟨m, hnm, _, hm, rfl⟩
    · omega

/-- **The PID file is deleted**, and the controller returns, once the service has got the signal. -/
theorem eventually_deleted (hx : Undisturbed x i p) (hprobe : probe i = false) {n k : ℕ}
    (hk : k ≤ 4) (h : AtStage i p text (x.state n) k) :
    ∃ m, n ≤ m ∧ (x.state m).path = none ∧ ∃ status, (x.state m).ctrl i = .returned status := by
  -- the stages are those of the rule for liveness
  refine x.eventually (S := fun k s => AtStage i p text s k) (b := 4) ?_ ?_ hk h
  · intro n k _ hstage
    rcases hx.atStage_succ hprobe hstage with ⟨hsame, -⟩ | ⟨-, hnext, -⟩
    · exact ⟨k, le_rfl, hsame⟩
    · exact ⟨k - 1, Nat.sub_le k 1, hnext⟩
  · intro n k hpos hk hstage
    obtain ⟨m, hnm, e, he, hadvances⟩ := hx.exists_advance hpos hk hstage
    refine ⟨m, hnm, fun hstill => ?_⟩
    rcases hx.atStage_succ hprobe hstill with ⟨-, hnot⟩ | ⟨-, hnext, -⟩
    · exact absurd hadvances (hnot e he)
    · exact ⟨k - 1, Nat.sub_lt hpos Nat.one_pos, hnext⟩

/-- The PID file stays as it is or goes, and does not come back. -/
theorem Undisturbed.file_succ (hx : Undisturbed x i p) (hprobe : probe i = false) {n k : ℕ}
    (h : AtStage i p text (x.state n) k) :
    (x.state (n + 1)).path.map (x.state (n + 1)).content =
        (x.state n).path.map (x.state n).content ∨
      k ≤ 4 ∧ (x.state (n + 1)).path = none := by
  have hfile : ∀ {s : State ι}, HasFile s text → s.path.map s.content = some text := by
    rintro s ⟨file, hpath, htext⟩
    rw [hpath, Option.map_some, htext]
  have hof : ∀ {s : State ι} {k : ℕ}, 0 < k → AtStage i p text s k → HasFile s text := by
    rintro s (_ | _ | k) hpos h
    · exact absurd hpos (lt_irrefl 0)
    · exact h.1
    · exact h.1
  -- the content can be lost only at the end of the last stage
  rcases hx.atStage_succ hprobe h with ⟨hsame, hnot⟩ | ⟨hpos, hnext, -⟩
  · rcases Nat.eq_zero_or_pos k with rfl | hpos
    · rw [h.1, hsame.1]
      exact Or.inl rfl
    · rw [hfile (hof hpos h), hfile (hof hpos hsame)]
      exact Or.inl rfl
  · rcases Nat.eq_zero_or_pos (k - 1) with hzero | hpos'
    · rw [hzero] at hnext
      exact Or.inr ⟨by omega, hnext.1⟩
    · rw [hfile (hof hpos h), hfile (hof hpos' hnext)]
      exact Or.inl rfl

end Undisturbed

/-! ## The stop of the init script -/

/-- A system with a service that has installed its handlers, when the init script stops it: its
number is alone in the PID file, and after a `kill` only its instance goes on. -/
structure JsvcHost (ι : Type) [DecidableEq ι] where
  probe : ι → Bool
  before : State ι
  i : ι
  p : Pid
  f : Flags
  file : Inode
  service : before.table p = some (.child i (.ready f))
  running : f.stopping = false ∧ f.doreload = false
  args : probe i = false
  waiting : before.ctrl i = .waiting p
  pos : 0 < p
  path : before.path = some file
  content : before.content file = pidLine p
  glob : Text → List Text
  signalled : List Text → Pid → Prop
  numbers : ∀ ws, (∀ w ∈ ws, Decimal.IsDigits w ∧ 0 < Decimal.value w) →
    ∀ q, signalled ws q ↔ ∃ w ∈ ws, Decimal.value w = q
  run : List Text → Execution (step probe)
  missed : ∀ ws, ¬ signalled ws p → (run ws).state 0 = before
  hit : ∀ ws, signalled ws p →
    step probe before (.signal p .SIGTERM) = some ((run ws).state 0)
  undisturbed : ∀ ws, Undisturbed (run ws) i p

namespace JsvcHost

variable (h : JsvcHost ι)

theorem hasFile_before : HasFile h.before (pidLine h.p) := ⟨h.file, h.path, h.content⟩

/-- Without the signal the service goes on. -/
theorem atStage_missed {ws : List Text} (hws : ¬ h.signalled ws h.p) (n : ℕ) :
    AtStage h.i h.p (pidLine h.p) ((h.run ws).state n) 5 := by
  induction n with
  | zero =>
    rw [h.missed ws hws]
    exact ⟨h.hasFile_before, h.waiting, .ready h.f, h.running, h.service⟩
  | succ n ih =>
    rcases (h.undisturbed ws).atStage_succ h.args ih with ⟨hsame, -⟩ | ⟨-, -, e, -, hadvances⟩
    · exact hsame
    · cases hadvances

/-- With the signal the shutdown begins. -/
theorem atStage_hit {ws : List Text} (hws : h.signalled ws h.p) :
    AtStage h.i h.p (pidLine h.p) ((h.run ws).state 0) 4 := by
  have hstep := h.hit ws hws
  simp only [step, h.service, Phase.next, Option.map_some, Option.some.injEq] at hstep
  have hflags : (handler h.f .SIGTERM).stopping = true ∧
      (handler h.f .SIGTERM).doreload = false := by
    simp [handler, h.running]
  rw [← hstep]
  refine ⟨h.hasFile_before, h.waiting, .ready (handler h.f .SIGTERM), hflags, ?_⟩
  rw [State.setProc_table, if_pos rfl]

/-- The PID file so many events after a `kill`. -/
def fileAt (ws : List Text) (n : ℕ) : Option Text :=
  ((h.run ws).state n).path.map ((h.run ws).state n).content

theorem fileAt_zero (ws : List Text) : h.fileAt ws 0 = some (pidLine h.p) := by
  have hfile : HasFile ((h.run ws).state 0) (pidLine h.p) := by
    by_cases hws : h.signalled ws h.p
    · exact (h.atStage_hit hws).1
    · exact (h.atStage_missed hws 0).1
  obtain ⟨file, hpath, htext⟩ := hfile
  rw [fileAt, hpath, Option.map_some, htext]

/-- The process that a number stands for. -/
def processAt (q : Pid) : Option Process :=
  if q = h.p then some .jsvc else (h.before.table q).map fun _ => .other

theorem processAt_eq_jsvc_iff (q : Pid) : h.processAt q = some .jsvc ↔ q = h.p := by
  unfold processAt
  split_ifs with hq
  · exact iff_of_true rfl hq
  · refine iff_of_false ?_ hq
    cases h.before.table q <;> rintro ⟨⟩

theorem hits_iff (ws : List Text) :
    (∃ q, h.signalled ws q ∧ h.processAt q = some .jsvc) ↔ h.signalled ws h.p := by
  constructor
  · rintro ⟨q, hq, hjsvc⟩
    rwa [(h.processAt_eq_jsvc_iff q).mp hjsvc] at hq
  · exact fun hp => ⟨h.p, hp, (h.processAt_eq_jsvc_iff h.p).mpr rfl⟩

/-- **The system for the init script**: the service deletes the PID file after a `kill`. -/
def host : TomcatHost where
  pidFile := some (pidLine h.p)
  process := h.processAt
  glob := h.glob
  signalled := h.signalled
  numbers := h.numbers
  file := h.fileAt
  start := h.fileAt_zero
  untouched ws n := by
    rw [h.hits_iff]
    -- the stage after `n` events, with the signal and without it
    by_cases hws : h.signalled ws h.p
    · obtain ⟨k, -, hk⟩ := (h.run ws).stage_le (S := fun k s => AtStage h.i h.p (pidLine h.p) s k)
        (b := 4) (fun n k _ hstage => by
          rcases (h.undisturbed ws).atStage_succ h.args hstage with ⟨hsame, -⟩ | ⟨-, hnext, -⟩
          · exact ⟨k, le_rfl, hsame⟩
          · exact ⟨k - 1, Nat.sub_le k 1, hnext⟩) (Nat.zero_le n) le_rfl (h.atStage_hit hws)
      rcases (h.undisturbed ws).file_succ h.args hk with hsame | ⟨-, hgone⟩
      · exact Or.inl hsame
      · exact Or.inr ⟨hws, by rw [fileAt, hgone]; rfl⟩
    · rcases (h.undisturbed ws).file_succ h.args (h.atStage_missed hws n) with hsame | ⟨hlt, -⟩
      · exact Or.inl hsame
      · omega
  removes ws hws := by
    rw [h.hits_iff] at hws
    obtain ⟨n, -, hgone, -⟩ :=
      eventually_deleted (h.undisturbed ws) h.args le_rfl (h.atStage_hit hws)
    exact ⟨n, by rw [fileAt, hgone]; rfl⟩

end JsvcHost

/-! ## A system with a service -/

/-- The service 7 of a single instance. -/
def servingState : State Unit where
  path := some 0
  content := fun _ => pidLine 7
  lock := fun _ => none
  next := 1
  table := fun q => if q = 7 then some (.child () (.ready Flags.initial)) else none
  ctrl := fun _ => .waiting 7

/-- The service goes on with its loop. -/
def goesOn : Execution (step fun _ : Unit => false) where
  state _ := servingState
  event _ := some (.loop 7)
  next _ := by
    -- a round of the loop without a signal changes nothing
    have htable : Function.update servingState.table 7
        (some (.child () (.ready Flags.initial))) = servingState.table :=
      Function.update_eq_self 7 servingState.table
    show some (servingState.setProc 7 (some (.child () (.ready Flags.initial)))) = _
    rw [State.setProc, htable]

/-- The service after the signal. -/
def signalledState : State Unit :=
  servingState.setProc 7 (some (.child () (.ready (handler Flags.initial .SIGTERM))))

/-- The shutdown of the service. -/
def shutdownEvents : List (Event Unit) := [.loop 7, .leave 7 true true, .reap (), .conclude ()]

theorem undisturbed_goesOn : Undisturbed goesOn () 7 where
  concerns := by
    rintro n e ⟨⟩
    rfl
  loops n _ _ := ⟨n, le_rfl, rfl⟩
  leaves := by rintro n f ⟨⟩
  reaps := by rintro n w ⟨⟩
  concludes := by rintro n w ⟨⟩

/-- The state in which the shutdown ends. -/
def stoppedState : State Unit :=
  (shutdownEvents.foldlM (step fun _ : Unit => false) signalledState).getD signalledState

theorem foldlM_shutdownEvents :
    shutdownEvents.foldlM (step fun _ : Unit => false) signalledState = some stoppedState := rfl

def shutdown : Execution (step fun _ : Unit => false) := .ofEvents foldlM_shutdownEvents

theorem shutdown_state (n : ℕ) : shutdown.state (n + 4) = stoppedState := by
  have htake : shutdownEvents.take (n + 4) = shutdownEvents :=
    List.take_of_length_le (Nat.le_add_left 4 n)
  show ((shutdownEvents.take (n + 4)).foldlM (step fun _ : Unit => false) signalledState).getD
    signalledState = stoppedState
  rw [htake]
  rfl

theorem undisturbed_shutdown : Undisturbed shutdown () 7 where
  concerns := by
    rintro (_ | _ | _ | _ | n) e ⟨⟩
    all_goals rfl
  loops := by
    rintro (_ | _ | _ | _ | n) f hp
    · exact ⟨0, le_rfl, rfl⟩
    · cases hp
    · cases hp
    · cases hp
    · rw [shutdown_state] at hp
      cases hp
  leaves := by
    rintro (_ | _ | _ | _ | n) f hp
    · cases hp
    · exact ⟨1, le_rfl, true, true, rfl⟩
    · cases hp
    · cases hp
    · rw [shutdown_state] at hp
      cases hp
  reaps := by
    rintro (_ | _ | _ | _ | n) w hp _
    · cases hp
    · cases hp
    · exact ⟨2, le_rfl, rfl⟩
    · cases hp
    · rw [shutdown_state] at hp
      cases hp
  concludes := by
    rintro (_ | _ | _ | _ | n) w hctrl
    · cases hctrl
    · cases hctrl
    · cases hctrl
    · exact ⟨3, le_rfl, rfl⟩
    · rw [shutdown_state] at hctrl
      cases hctrl

/-- Such a system. -/
def servingHost : JsvcHost Unit where
  probe _ := false
  before := servingState
  i := ()
  p := 7
  f := Flags.initial
  file := 0
  service := rfl
  running := ⟨rfl, rfl⟩
  args := rfl
  waiting := rfl
  pos := by decide
  path := rfl
  content := rfl
  glob _ := []
  signalled ws q := q ∈ ws.map Decimal.value
  numbers _ _ _ := List.mem_map
  run ws := if 7 ∈ ws.map Decimal.value then shutdown else goesOn
  missed ws hws := by rw [if_neg hws]; rfl
  hit ws hws := by rw [if_pos hws]; rfl
  undisturbed ws := by
    split_ifs
    · exact undisturbed_shutdown
    · exact undisturbed_goesOn

end Avetti.Jsvc
