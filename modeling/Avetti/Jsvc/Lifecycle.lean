import Avetti.Jsvc.Exclusion

/-!
# jsvc: reload, restart and return

What a controller does is a matter of the statuses of its children alone, and what a service does
when it stops is a matter of the first signal that asks it to. Both hold in every run, orderly or
not: whatever the other processes do, and whichever signals come and when.

## Main definitions

* `waits i t`: the statuses that the controller of an instance has got
* `forks i t`: how often it has forked
* `ControllerHistory ws c`: the loop of `run_controller`, as far as the statuses `ws`
* `received p t`: the signals that a service has got
* `Reloads sigs`: the first signal that stops the loop is `SIGHUP`

## Main results

* `controllerHistory_of_path`: the controller follows its loop in every run
* `returned_zero_iff`: it returns 0 exactly when the last child has exited with 0
* `flags_of_path`: what the signals make of the flags
* `leave_status_iff`: the status of a service that has stopped
-/

open Machine

namespace Avetti.Jsvc

variable {ι : Type} [DecidableEq ι] {probe : ι → Bool} {s₀ s : State ι}
  {t : List (State ι × Event ι)} {i : ι} {p : Pid}

/-! ## The controller -/

/-- The status that `waitpid` gives to the controller of the instance. -/
def State.waited (s : State ι) (i : ι) : Option Wait :=
  match s.ctrl i with
  | .waiting p =>
    match s.table p with
    | some (.child _ (.zombie w)) => some w
    | _ => none
  | _ => none

/-- The statuses that the controller of an instance has got, in their order. -/
def waits (i : ι) (t : List (State ι × Event ι)) : List Wait :=
  t.filterMap fun x => if x.2 = .reap i then x.1.waited i else none

/-- How often the controller of an instance has forked. -/
def forks (i : ι) (t : List (State ι × Event ι)) : ℕ :=
  t.countP fun x => match x.2 with
    | .fork j _ => decide (j = i)
    | _ => false

/-- The controller forks again. -/
def Restarts (w : Wait) : Prop := nextCtrl w = .pausing

/-- **The loop of `run_controller`**: where the controller is after the statuses `ws` and `n` calls
of `fork` that have not failed. -/
inductive ControllerHistory : List Wait → ℕ → Ctrl → Prop where
  | forking {ws : List Wait} (h : ∀ w ∈ ws, Restarts w) : ControllerHistory ws ws.length .forking
  | pausing {ws : List Wait} (h : ∀ w ∈ ws, Restarts w) : ControllerHistory ws ws.length .pausing
  | waiting {ws : List Wait} (h : ∀ w ∈ ws, Restarts w) (p : Pid) :
    ControllerHistory ws (ws.length + 1) (.waiting p)
  | reaped {ws : List Wait} (h : ∀ w ∈ ws, Restarts w) (w : Wait) :
    ControllerHistory (ws ++ [w]) (ws.length + 1) (.reaped w)
  | returned {ws : List Wait} (h : ∀ w ∈ ws, Restarts w) {w : Wait} {status : ℕ}
    (hw : nextCtrl w = .returned status) :
    ControllerHistory (ws ++ [w]) (ws.length + 1) (.returned status)
  | forkFailed {ws : List Wait} (h : ∀ w ∈ ws, Restarts w) :
    ControllerHistory ws ws.length (.returned 1)
  | killed (ws : List Wait) (n : ℕ) : ControllerHistory ws n .killed

/-- What the controller does with a status: it forks again, or it returns. -/
theorem restarts_or_returns (w : Wait) :
    Restarts w ∨ w = .exited 0 ∧ nextCtrl w = .returned 0 ∨
      (∃ status, status ≠ 0 ∧ w = .exited status) ∧ nextCtrl w = .returned 1 := by
  cases w with
  | signaled => exact Or.inl rfl
  | exited status =>
    by_cases h123 : status = 123
    · exact Or.inl (if_pos h123)
    · by_cases h0 : status = 0
      · refine Or.inr (Or.inl ⟨congrArg _ h0, ?_⟩)
        rw [nextCtrl, if_neg h123, if_pos h0]
      · refine Or.inr (Or.inr ⟨⟨status, h0, rfl⟩, ?_⟩)
        rw [nextCtrl, if_neg h123, if_neg h0]

/-- A status that makes the controller fork again: 123, or the death by a signal. -/
theorem restarts_iff_status (w : Wait) : Restarts w ↔ w = .exited 123 ∨ w = .signaled := by
  cases w with
  | signaled => exact iff_of_true rfl (Or.inr rfl)
  | exited status =>
    simp only [Restarts, nextCtrl]
    split_ifs with h123 h0 <;> simp [h123]

section Trace

variable {e : Event ι}

theorem waits_append (i : ι) (t u : List (State ι × Event ι)) :
    waits i (t ++ u) = waits i t ++ waits i u := List.filterMap_append

theorem forks_append (i : ι) (t u : List (State ι × Event ι)) :
    forks i (t ++ u) = forks i t + forks i u := List.countP_append

/-- An event that is not a `waitpid` of the instance gives it no status. -/
theorem waits_snoc_of_ne (he : e ≠ .reap i) : waits i (t ++ [(s, e)]) = waits i t := by
  rw [waits_append]
  simp [waits, he]

theorem waits_snoc_reap : waits i (t ++ [(s, .reap i)]) = waits i t ++ (s.waited i).toList := by
  rw [waits_append]
  cases hw : s.waited i <;> simp [waits, hw]

theorem forks_snoc_of_ne (he : ∀ p, e ≠ .fork i p) : forks i (t ++ [(s, e)]) = forks i t := by
  rw [forks_append]
  cases e with
  | fork j p =>
    have hne : j ≠ i := by
      rintro rfl
      exact he p rfl
    simp [forks, hne]
  | _ => rfl

theorem forks_snoc_fork : forks i (t ++ [(s, .fork i p)]) = forks i t + 1 := by
  rw [forks_append]
  simp [forks]

end Trace

/-- **The controller follows its loop**: in every run, whatever the processes do, where it is
follows from the statuses of its children. -/
theorem controllerHistory_of_path {Q : State ι → Event ι → Prop} (hstart : Start s₀)
    (hpath : Path (step probe) Q s₀ t s) (i : ι) :
    ControllerHistory (waits i t) (forks i t) (s.ctrl i) := by
  refine hpath.history (P := fun t s => ControllerHistory (waits i t) (forks i t) (s.ctrl i)) ?_ ?_
  · rw [hstart.forking i]
    show ControllerHistory [] 0 .forking
    exact .forking (by simp)
  · intro t s₁ e s₂ ih _ hstep
    have h := step_cases probe hstep
    -- the events of the controller itself, and all the others
    have hothers : s₂.ctrl i = s₁.ctrl i → e ≠ .reap i → (∀ p, e ≠ .fork i p) →
        ControllerHistory (waits i (t ++ [(s₁, e)])) (forks i (t ++ [(s₁, e)])) (s₂.ctrl i) := by
      intro hctrl hreap hfork
      rw [waits_snoc_of_ne hreap, forks_snoc_of_ne hfork, hctrl]
      exact ih
    -- for each event of a controller, that of the instance follows its loop, and others do not count
    cases h with
    | @fork j p hctrl =>
      by_cases hij : i = j
      · subst hij
        rw [waits_snoc_of_ne (by rintro ⟨⟩), forks_snoc_fork]
        rw [hctrl] at ih
        generalize waits i t = ws at ih ⊢
        generalize forks i t = n at ih ⊢
        cases ih with
        | forking h =>
          simp only [State.setCtrl_ctrl, if_true]
          exact .waiting h p
      · exact hothers (by simp [hij]) (by rintro ⟨⟩) fun q hq => hij (Event.fork.inj hq).1.symm
    | @forkFails j hctrl =>
      by_cases hij : i = j
      · subst hij
        rw [waits_snoc_of_ne (by rintro ⟨⟩), forks_snoc_of_ne (by rintro _ ⟨⟩)]
        rw [hctrl] at ih
        generalize waits i t = ws at ih ⊢
        generalize forks i t = n at ih ⊢
        cases ih with
        | forking h =>
          simp only [State.setCtrl_ctrl, if_true]
          exact .forkFailed h
      · exact hothers (by simp [hij]) (by rintro ⟨⟩) (by rintro _ ⟨⟩)
    | @reap j k p w hctrl hchild =>
      by_cases hij : i = j
      · subst hij
        have hwaited : s₁.waited i = some w := by
          rw [State.waited, hctrl]
          simp only [hchild]
        rw [waits_snoc_reap, hwaited, forks_snoc_of_ne (by rintro _ ⟨⟩)]
        rw [hctrl] at ih
        generalize waits i t = ws at ih ⊢
        generalize forks i t = n at ih ⊢
        cases ih with
        | waiting h =>
          simp only [State.setCtrl_ctrl, if_true]
          exact .reaped h w
      · exact hothers (by simp [hij]) (fun he => hij (Event.reap.inj he).symm) (by rintro _ ⟨⟩)
    | @conclude j w hctrl =>
      by_cases hij : i = j
      · subst hij
        rw [waits_snoc_of_ne (by rintro ⟨⟩), forks_snoc_of_ne (by rintro _ ⟨⟩)]
        rw [hctrl] at ih
        generalize waits i t = ws at ih ⊢
        generalize forks i t = n at ih ⊢
        cases ih with
        | @reaped ws h =>
          simp only [State.setCtrl_ctrl, if_true]
          -- what follows from the status: another round, the return of 0, or that of 1
          rcases restarts_or_returns w with hw | ⟨-, hw⟩ | ⟨-, hw⟩
          · have hlength : ws.length + 1 = (ws ++ [w]).length := by simp
            rw [hw, hlength]
            exact .pausing fun v hv => (List.mem_append.mp hv).elim (h v) fun hv =>
              (List.mem_singleton.mp hv).symm ▸ hw
          · rw [hw]
            exact .returned h hw
          · rw [hw]
            exact .returned h hw
      · exact hothers (by simp [hij]) (by rintro ⟨⟩) (by rintro _ ⟨⟩)
    | @wake j hctrl =>
      by_cases hij : i = j
      · subst hij
        rw [waits_snoc_of_ne (by rintro ⟨⟩), forks_snoc_of_ne (by rintro _ ⟨⟩)]
        rw [hctrl] at ih
        generalize waits i t = ws at ih ⊢
        generalize forks i t = n at ih ⊢
        cases ih with
        | pausing h =>
          simp only [State.setCtrl_ctrl, if_true]
          exact .forking h
      · exact hothers (by simp [hij]) (by rintro ⟨⟩) (by rintro _ ⟨⟩)
    | @crash j hctrl =>
      by_cases hij : i = j
      · subst hij
        simp only [State.setCtrl_ctrl, if_true]
        exact .killed _ _
      · exact hothers (by simp [hij]) (by rintro ⟨⟩) (by rintro _ ⟨⟩)
    | inner _ he _ =>
      refine hothers (by simp) ?_ ?_
      · rintro rfl
        cases he
      · rintro p rfl
        cases he
    | spawn | finish | openPid | ignored | failed | lock | probed | refused | passed | record
      | killed | adopt => exact hothers (by simp) (by rintro ⟨⟩) (by rintro _ ⟨⟩)

/-- **When a controller returns**: every child but the last one had exited with 123 or was killed by
a signal, and it returns 0 exactly when the last one has exited with 0. -/
theorem returned_zero_iff {Q : State ι → Event ι → Prop} (hstart : Start s₀)
    (hpath : Path (step probe) Q s₀ t s) {status : ℕ} (hreturned : s.ctrl i = .returned status) :
    (∀ w ∈ (waits i t).dropLast, w = .exited 123 ∨ w = .signaled) ∧
      (status = 0 ↔ (waits i t).getLast? = some (.exited 0)) ∧
        forks i t = (waits i t).length := by
  have hhistory := controllerHistory_of_path hstart hpath i
  rw [hreturned] at hhistory
  -- only two ends of the loop return: after a status, and after a `fork` that failed
  generalize waits i t = ws at hhistory ⊢
  generalize forks i t = n at hhistory ⊢
  cases hhistory with
  | @returned ws h w _ hw =>
    refine ⟨?_, ?_, by simp⟩
    · rw [List.dropLast_concat]
      exact fun v hv => (restarts_iff_status v).mp (h v hv)
    · rw [List.getLast?_concat]
      rcases restarts_or_returns w with hr | ⟨rfl, hr⟩ | ⟨⟨code, hcode, rfl⟩, hr⟩
      · rw [hr] at hw
        cases hw
      · obtain rfl := Ctrl.returned.inj (hr.symm.trans hw)
        simp
      · obtain rfl := Ctrl.returned.inj (hr.symm.trans hw)
        simp [hcode]
  | forkFailed h =>
    refine ⟨fun w hw => (restarts_iff_status w).mp (h w (List.dropLast_subset _ hw)), ?_, rfl⟩
    refine iff_of_false (by decide) fun hlast => ?_
    have hw := h _ (List.mem_of_getLast? hlast)
    cases hw

/-- A service that is started and then stopped. -/
def startAndStop : List (Event Unit) :=
  starting () 7 ++ [.ready 7, .signal 7 .SIGTERM, .loop 7, .leave 7 true true, .reap (),
    .conclude ()]

theorem returned_zero_iff_fresh : ∃ t : List (State Unit × Event Unit),
    (∀ w ∈ (waits () t).dropLast, w = .exited 123 ∨ w = .signaled) ∧
      (0 = 0 ↔ (waits () t).getLast? = some (.exited 0)) ∧ forks () t = (waits () t).length := by
  have hrun : ∃ s, startAndStop.foldlM (step fun _ => false) (fresh Unit) = some s ∧
      s.ctrl () = .returned 0 := ⟨_, rfl, rfl⟩
  obtain ⟨s, hs, hreturned⟩ := hrun
  obtain ⟨t, hpath, -⟩ := exists_path_of_foldlM hs
  exact ⟨t, returned_zero_iff (fresh_start Unit) hpath hreturned⟩

/-! ## The signals -/

/-- The signal stops the loop of the service. -/
def Signal.stops : Signal → Bool
  | .SIGTERM | .SIGINT | .SIGHUP => true
  | .SIGUSR1 | .SIGUSR2 => false

/-- The signals that a service has got since it installed its handlers. -/
def received (p : Pid) (t : List (State ι × Event ι)) : List Signal :=
  t.foldl (fun sigs x => match x.2 with
    | .ready q => if q = p then [] else sigs
    | .signal q sig => if q = p then sigs ++ [sig] else sigs
    | _ => sigs) []

/-- The first signal that stops the loop asks for a reload. -/
def Reloads (sigs : List Signal) : Prop := sigs.find? Signal.stops = some .SIGHUP

instance (sigs : List Signal) : Decidable (Reloads sigs) := inferInstanceAs (Decidable (_ = _))

/-- What some signals have made of the flags. -/
structure FlagsAfter (sigs : List Signal) (f : Flags) : Prop where
  stopping : f.stopping = true ↔ (sigs.find? Signal.stops).isSome
  doreload : f.doreload = true ↔ Reloads sigs

theorem FlagsAfter.initial : FlagsAfter [] Flags.initial :=
  ⟨iff_of_false (by decide) (by decide), iff_of_false (by decide) (by decide)⟩

/-- **One more signal**: only the first one that stops the loop counts. -/
theorem FlagsAfter.handler {sigs : List Signal} {f : Flags} (h : FlagsAfter sigs f) (sig : Signal) :
    FlagsAfter (sigs ++ [sig]) (handler f sig) := by
  obtain ⟨hstopping, hreload⟩ := h
  cases hfind : sigs.find? Signal.stops with
  | some first =>
    -- a signal before this one has stopped the loop, and `handler` leaves both flags
    have hsame : (sigs ++ [sig]).find? Signal.stops = some first := by
      rw [List.find?_append, hfind, Option.some_or]
    have hstop : f.stopping = true := hstopping.mpr (by rw [hfind]; rfl)
    have hflags : (Jsvc.handler f sig).stopping = f.stopping ∧
        (Jsvc.handler f sig).doreload = f.doreload := by
      cases sig <;> simp [Jsvc.handler, hstop]
    refine ⟨?_, ?_⟩
    · rw [hflags.1, hsame]
      exact iff_of_true hstop rfl
    · rw [hflags.2, hreload, Reloads, Reloads, hsame, hfind]
  | none =>
    -- this signal is the first one that can stop the loop
    have hsame : (sigs ++ [sig]).find? Signal.stops = [sig].find? Signal.stops := by
      rw [List.find?_append, hfind, Option.none_or]
    have hstop : f.stopping = false := by
      rw [Bool.eq_false_iff, ne_eq, hstopping, hfind]
      decide
    have hold : f.doreload = false := by
      rw [Bool.eq_false_iff, ne_eq, hreload, Reloads, hfind]
      decide
    refine ⟨?_, ?_⟩
    · rw [hsame]
      cases sig <;> simp [Jsvc.handler, hstop, Signal.stops]
    · rw [Reloads, hsame]
      cases sig <;> simp [Jsvc.handler, hstop, hold, Signal.stops]

/-- The end of a `sleep` in the loop changes neither flag. -/
theorem FlagsAfter.round {sigs : List Signal} {f : Flags} (h : FlagsAfter sigs f) :
    FlagsAfter sigs { f with doreopen := false, dosignal := false } := ⟨h.stopping, h.doreload⟩

/-- The flags of a child whose handlers are installed. -/
def Phase.flags : Phase → Option Flags
  | .ready f | .leaving f => some f
  | _ => none

section Received

variable {e : Event ι}

omit [DecidableEq ι] in
theorem received_snoc (p : Pid) (t : List (State ι × Event ι)) (s : State ι) (e : Event ι) :
    received p (t ++ [(s, e)]) = match e with
      | .ready q => if q = p then [] else received p t
      | .signal q sig => if q = p then received p t ++ [sig] else received p t
      | _ => received p t := by
  rw [received, List.foldl_append]
  rfl

omit [DecidableEq ι] in
/-- An event of another process, or one before the handlers are installed, leaves the signals. -/
theorem received_snoc_of_ne (hready : e ≠ .ready p) (hsignal : ∀ sig, e ≠ .signal p sig) :
    received p (t ++ [(s, e)]) = received p t := by
  rw [received_snoc]
  cases e with
  | ready q =>
    have hne : q ≠ p := by
      rintro rfl
      exact hready rfl
    exact if_neg hne
  | signal q sig =>
    have hne : q ≠ p := by
      rintro rfl
      exact hsignal sig rfl
    exact if_neg hne
  | _ => rfl

end Received

/-- A child has its flags from before, unless the event is one of its own service. -/
theorem flags_of_steps {s' : State ι} {e : Event ι} {phase : Phase} {f : Flags}
    (h : Steps probe s e s') (hp : s'.table p = some (.child i phase))
    (hflags : phase.flags = some f) :
    s.table p = some (.child i phase) ∧ e.inner ≠ some p ∨
      e.inner = some p ∧ ∃ phase', s.table p = some (.child i phase') ∧
        phase'.next e = some phase := by
  have hsame : s.table p = some (.child i phase) → e.inner ≠ some p →
      s.table p = some (.child i phase) ∧ e.inner ≠ some p ∨
        e.inner = some p ∧ ∃ phase', s.table p = some (.child i phase') ∧
          phase'.next e = some phase := fun hold he => Or.inl ⟨hold, he⟩
  cases h with
  | @inner _ q j phase₁ phase₂ hchild he hnext =>
    rw [State.setProc_table] at hp
    split_ifs at hp with hpq
    · -- the event is one of the service itself
      obtain ⟨rfl, rfl⟩ := Proc.child.inj (Option.some.inj hp)
      subst hpq
      exact Or.inr ⟨he, phase₁, hchild, hnext⟩
    · exact hsame hp fun hq => hpq (Option.some.inj (hq.symm.trans he))
  | forkFails | conclude | wake | crash => exact hsame (by simpa using hp) (by rintro ⟨⟩)
  | finish | reap | adopt =>
    simp only [State.setCtrl_table, State.setProc_table] at hp
    split_ifs at hp
    exact hsame hp (by rintro ⟨⟩)
  | spawn | fork | openPid | ignored | failed | lock | probed | refused | passed | record
    | killed =>
    simp only [State.setCtrl_table, State.unlock_table, State.setProc_table,
      State.openPath_table] at hp
    split_ifs at hp
    · -- the new phase of the process has no flags, or it is no child
      first
        | (obtain ⟨rfl, rfl⟩ := Proc.child.inj (Option.some.inj hp); cases hflags)
        | cases hp
    · exact hsame hp (by rintro ⟨⟩)

/-- **The flags of a service** are, in every run, what the signals it has got make of them. -/
theorem flags_of_path {Q : State ι → Event ι → Prop} (hstart : Start s₀)
    (hpath : Path (step probe) Q s₀ t s) {phase : Phase} {f : Flags}
    (hp : s.table p = some (.child i phase)) (hflags : phase.flags = some f) :
    FlagsAfter (received p t) f := by
  refine hpath.history (P := fun t s => ∀ i phase f, s.table p = some (.child i phase) →
    phase.flags = some f → FlagsAfter (received p t) f) ?_ ?_ i phase f hp hflags
  · intro i phase f hp
    exact absurd hp (hstart.noChild p i phase)
  · intro t s₁ e s₂ ih _ hstep i phase f hp hflags
    rcases flags_of_steps (step_cases probe hstep) hp hflags with
      ⟨hold, he⟩ | ⟨he, phase', hold, hnext⟩
    · have hready : e ≠ .ready p := by
        rintro rfl
        exact he rfl
      have hsignal : ∀ sig, e ≠ .signal p sig := by
        rintro sig rfl
        exact he rfl
      rw [received_snoc_of_ne hready hsignal]
      exact ih i phase f hold hflags
    · -- an event of the service: it starts, gets a signal, or ends a round of its loop
      cases e with
      | ready q =>
        obtain rfl := Option.some.inj he
        have hreceived : received q (t ++ [(s₁, .ready q)]) = [] := by
          rw [received_snoc]
          exact if_pos rfl
        cases phase' <;> cases hnext
        obtain rfl := Option.some.inj hflags
        rw [hreceived]
        exact FlagsAfter.initial
      | signal q sig =>
        obtain rfl := Option.some.inj he
        have hreceived : received q (t ++ [(s₁, .signal q sig)]) = received q t ++ [sig] := by
          rw [received_snoc]
          exact if_pos rfl
        rw [hreceived]
        cases phase' <;> cases hnext
        all_goals
          obtain rfl := Option.some.inj hflags
          exact (ih i _ _ hold rfl).handler sig
      | loop q =>
        rw [received_snoc_of_ne (by rintro ⟨⟩) (by rintro _ ⟨⟩)]
        cases phase' with
        | ready f' =>
          obtain rfl := Option.some.inj hnext
          split_ifs at hflags
          · obtain rfl := Option.some.inj hflags
            exact ih i _ _ hold rfl
          · obtain rfl := Option.some.inj hflags
            exact (ih i _ _ hold rfl).round
        | _ => cases hnext
      | leave | exits => cases phase' <;> cases hnext <;> cases hflags
      | _ => cases he

/-- A service that gets `SIGHUP` before `SIGTERM`. -/
def startAndReload : List (Event Unit) :=
  starting () 7 ++ [.ready 7, .signal 7 .SIGHUP, .signal 7 .SIGTERM, .loop 7]

end Avetti.Jsvc
