import Avetti.Maintenance.Tomcat
import Avetti.Text.Decimal

/-!
# Stopping Tomcat

The init script stops Tomcat with a `kill` of the process in the PID file, and then waits until the
file is gone. Only the `jsvc` that gets the signal removes the file; the script itself does not,
and waits without a limit. `restarttomcat.sh` starts Tomcat after that.

## Main definitions

* `stop`: the action of the init script, with a bound on the rounds of its loop
* `restarttomcat`: the script up to its start of the services
* `TomcatHost`: a system on which Tomcat is stopped, and what it does with the PID file
* `Restarts h`: the loop ends, and the start is reached

## Main results

* `restarts_iff`: Tomcat is restarted exactly when there is no PID file or a live `jsvc` gets the
  signal
* `received_iff_of_number`: the signal that a process number in the PID file leads to
-/

open Script

namespace Avetti

/-! ## The scripts -/

/-- The file with the process number of Tomcat. -/
def PID_FILE : Text := "/var/run/jsvc.pid"

/-- `while [ -e "$PID_FILE" ]` with `sleep 1`, at most `n` times round; whether it has ended. -/
def waitLoop : ℕ → Sh Bool
  | 0 => do
    if ← fileTest "-e" PID_FILE then return false else return true
  | n + 1 => do
    if ← fileTest "-e" PID_FILE then
      let _ ← run ["sleep", "1"]
      waitLoop n
    else return true

/-- The action `stop` of the init script, with at most `n` rounds of its loop. -/
def stop (glob : Text → List Text) (n : ℕ) : Sh Bool := do
  let PID ← capture ["cat", PID_FILE]
  let _ ← run ("kill".toList :: Shell.unquoted glob Shell.defaultIFS PID)
  waitLoop n

/-- `restarttomcat.sh`, when the stop has at most `n` rounds. -/
def restarttomcat (glob : Text → List Text) (n : ℕ) : Sh Unit := do
  if ← stop glob n then
    let _ ← run ["find", "/avetti/solr46", "-name", "*.lock", "-exec", "rm", "\x7b\x7d", ";"]
    service "tomcat" "start"
    service "nginx" "stop"
    service "memcached" "stop"
    service "varnish" "stop"
    service "memcached" "start"
    service "varnish" "start"
    service "nginx" "start"
    let _ ← run ["tail", "-f", "/avetti/tomcat/logs/catalina.out"]

/-! ## The system -/

/-- The number of a process. -/
abbrev Pid := ℕ

/-- A live process: a `jsvc` whose PID file this is, or another one. -/
inductive Process where
  | jsvc
  | other
  deriving DecidableEq, Repr

/-- A system on which Tomcat is stopped: the PID file before, the live processes, which of them get
the signal of `kill`, and the PID file so many ticks after a `kill` with given operands. A `jsvc`
that gets the signal removes the file after finitely many ticks, and nothing else changes it. -/
structure TomcatHost where
  pidFile : Option Text
  process : Pid → Option Process
  glob : Text → List Text
  signalled : List Text → Pid → Prop
  numbers : ∀ ws, (∀ w ∈ ws, Decimal.IsDigits w ∧ 0 < Decimal.value w) →
    ∀ p, signalled ws p ↔ ∃ w ∈ ws, Decimal.value w = p
  file : List Text → ℕ → Option Text
  start : ∀ ws, file ws 0 = pidFile
  untouched : ∀ ws n, file ws (n + 1) = file ws n ∨
    (∃ p, signalled ws p ∧ process p = some .jsvc) ∧ file ws (n + 1) = none
  removes : ∀ ws, (∃ p, signalled ws p ∧ process p = some .jsvc) → ∃ n, file ws n = none

namespace TomcatHost

variable (h : TomcatHost)

/-- The commands of the scripts on the system: the state has the operands of the last `kill`, and
the ticks since then. -/
def handler : Handler (List Text × ℕ) Cmd Reply := fun s c =>
  match c with
  | .test _ path =>
    if path = PID_FILE then (⟨if (h.file s.1 s.2).isSome then 0 else 1, []⟩, s) else (⟨1, []⟩, s)
  | .run (cmd :: ws) =>
    if cmd = "cat".toList then (⟨0, (h.file s.1 s.2).getD []⟩, s)
    else if cmd = "kill".toList then (⟨0, []⟩, (ws, 0))
    else if cmd = "sleep".toList then (⟨0, []⟩, (s.1, s.2 + 1))
    else (⟨0, []⟩, s)
  | _ => (⟨0, []⟩, s)

/-- The operands of the `kill`: the words of the PID file. -/
def operands : List Text :=
  Shell.unquoted h.glob Shell.defaultIFS (Text.chomp (h.pidFile.getD []))

/-- A live `jsvc` gets the signal. -/
def Received : Prop := ∃ p, h.signalled h.operands p ∧ h.process p = some .jsvc

/-- **Tomcat is restarted**: the loop of the stop ends after finitely many rounds, and the script
comes to the start. -/
structure Restarts : Prop where
  ends : ∃ n, (exec h.handler (stop h.glob n) ([], 0)).outcome = .returned true
  starts : ∃ n, .did startTomcat ∈ events (exec h.handler (restarttomcat h.glob n) ([], 0)).trace

/-! ## The loop -/

/-- The test of the loop at the tick `k`. -/
theorem exec_pidFile_test {α : Type} (ws : List Text) (k : ℕ) (p q : Sh α) :
    (exec h.handler (fileTest "-e" PID_FILE >>= fun there => if there then p else q)
      (ws, k)).outcome =
        if h.file ws k = none then (exec h.handler q (ws, k)).outcome
        else (exec h.handler p (ws, k)).outcome := by
  have hreply : h.handler (ws, k) (.test "-e".toList PID_FILE) =
      (⟨if (h.file ws k).isSome then 0 else 1, []⟩, (ws, k)) := by
    unfold handler
    exact if_pos rfl
  rw [fileTest_bind, exec_call, hreply]
  cases hfile : h.file ws k with
  | none => rfl
  | some t => rfl

/-- The loop ends within `n` rounds exactly when the file is gone at one of the next `n` ticks. -/
theorem exec_waitLoop (ws : List Text) (n k : ℕ) : ∃ b,
    (exec h.handler (waitLoop n) (ws, k)).outcome = .returned b ∧
      (b = true ↔ ∃ i ≤ n, h.file ws (k + i) = none) := by
  induction n generalizing k with
  | zero =>
    refine ⟨decide (h.file ws k = none), ?_, ?_⟩
    · rw [waitLoop, exec_pidFile_test]
      split_ifs with hnone
      · rw [hnone]
        rfl
      · rw [decide_eq_false hnone]
        rfl
    · simp
  | succ n ih =>
    by_cases hnone : h.file ws k = none
    · refine ⟨true, ?_, iff_of_true rfl ⟨0, Nat.zero_le _, hnone⟩⟩
      rw [waitLoop, exec_pidFile_test, if_pos hnone]
      rfl
    · obtain ⟨b, hreturned, hb⟩ := ih (k + 1)
      refine ⟨b, ?_, hb.trans ?_⟩
      · rw [waitLoop, exec_pidFile_test, if_neg hnone]
        exact hreturned
      · constructor
        -- the ticks of the other rounds are one further on
        · rintro ⟨i, hi, hgone⟩
          exact ⟨i + 1, by omega, by rw [← hgone]; congr 1; omega⟩
        · rintro ⟨i, hi, hgone⟩
          rcases i with _ | i
          · exact absurd hgone hnone
          · exact ⟨i, by omega, by rw [← hgone]; congr 1; omega⟩

/-- The file is gone at some time exactly when it was not there or a `jsvc` got the signal. -/
theorem exists_file_eq_none_iff (ws : List Text) : (∃ n, h.file ws n = none) ↔
    h.pidFile = none ∨ ∃ p, h.signalled ws p ∧ h.process p = some .jsvc := by
  constructor
  · rintro ⟨n, hn⟩
    induction n with
    | zero => exact Or.inl ((h.start ws).symm.trans hn)
    | succ n ih =>
      rcases h.untouched ws n with hsame | ⟨hit, -⟩
      · exact ih (hsame ▸ hn)
      · exact Or.inr hit
  · rintro (hnone | hit)
    · exact ⟨0, (h.start ws).trans hnone⟩
    · exact h.removes ws hit

/-! ## The scripts on the system -/

/-- The stop ends within `n` rounds exactly when the file is gone `n` ticks after the `kill`. -/
theorem exec_stop (n : ℕ) : ∃ b,
    (exec h.handler (stop h.glob n) ([], 0)).outcome = .returned b ∧
      (b = true ↔ ∃ i ≤ n, h.file h.operands i = none) := by
  have hcat : h.handler ([], 0) (.run ["cat".toList, PID_FILE]) =
      (⟨0, h.pidFile.getD []⟩, ([], 0)) := by
    rw [← h.start []]
    rfl
  have hexec : (exec h.handler (stop h.glob n) ([], 0)).outcome =
      (exec h.handler (waitLoop n) (h.operands, 0)).outcome := by
    rw [stop, capture_bind, exec_call, hcat]
    rfl
  obtain ⟨b, hreturned, hb⟩ := h.exec_waitLoop h.operands n 0
  simp only [Nat.zero_add] at hb
  exact ⟨b, hexec.trans hreturned, hb⟩

theorem quiet_waitLoop (n : ℕ) : Quiet (waitLoop n) := by
  induction n with
  | zero =>
    rw [waitLoop, fileTest_bind]
    exact emits_call (fun _ => rfl) fun _ => emits_ite trivial trivial
  | succ n ih =>
    rw [waitLoop, fileTest_bind]
    refine emits_call (fun _ => rfl) fun _ => emits_ite ?_ trivial
    exact emits_call (fun _ => rfl) fun _ => ih

theorem quiet_stop (glob : Text → List Text) (n : ℕ) : Quiet (stop glob n) := by
  rw [stop, capture_bind]
  exact emits_call (fun _ => rfl) fun _ => emits_call (fun _ => rfl) fun _ => quiet_waitLoop n

/-- The start is reached exactly when the stop ends. -/
theorem startTomcat_mem_iff (n : ℕ) :
    .did startTomcat ∈ events (exec h.handler (restarttomcat h.glob n) ([], 0)).trace ↔
      (exec h.handler (stop h.glob n) ([], 0)).outcome = .returned true := by
  obtain ⟨b, hreturned, -⟩ := h.exec_stop n
  have hquiet : events (exec h.handler (stop h.glob n) ([], 0)).trace = [] :=
    (quiet_stop h.glob n).events_eq_nil (runs_exec h.handler _ _)
  have hrun : exec h.handler (stop h.glob n) ([], 0) = ⟨.returned b,
      (exec h.handler (stop h.glob n) ([], 0)).trace,
      (exec h.handler (stop h.glob n) ([], 0)).state⟩ := by rw [← hreturned]
  rw [restarttomcat, exec_bind_of_returned hrun, events_append, hquiet, hreturned]
  cases b with
  | false => exact iff_of_false (by rintro ⟨⟩) (by rintro ⟨⟩)
  | true => exact iff_of_true (List.mem_cons_self) rfl

/-- The stop ends exactly when there is no PID file or a live `jsvc` gets the signal. -/
theorem stop_ends_iff :
    (∃ n, (exec h.handler (stop h.glob n) ([], 0)).outcome = .returned true) ↔
      h.pidFile = none ∨ h.Received := by
  have hgone : (∃ n, (exec h.handler (stop h.glob n) ([], 0)).outcome = .returned true) ↔
      ∃ n, h.file h.operands n = none := by
    constructor
    · rintro ⟨n, hn⟩
      obtain ⟨b, hreturned, hb⟩ := h.exec_stop n
      rw [hreturned, Outcome.returned.injEq] at hn
      obtain ⟨i, -, hi⟩ := hb.mp hn
      exact ⟨i, hi⟩
    · rintro ⟨n, hn⟩
      obtain ⟨b, hreturned, hb⟩ := h.exec_stop n
      exact ⟨n, by rw [hreturned, hb.mpr ⟨n, le_rfl, hn⟩]⟩
  rw [hgone, exists_file_eq_none_iff]
  rfl

/-- With process numbers in the PID file, a `jsvc` gets the signal when one of them is its number. -/
theorem received_iff_of_numbers
    (hnumbers : ∀ w ∈ h.operands, Decimal.IsDigits w ∧ 0 < Decimal.value w) :
    h.Received ↔ ∃ w ∈ h.operands, h.process (Decimal.value w) = some .jsvc := by
  have hsignalled := h.numbers h.operands hnumbers
  constructor
  · rintro ⟨p, hp, hjsvc⟩
    obtain ⟨w, hw, rfl⟩ := (hsignalled p).mp hp
    exact ⟨w, hw, hjsvc⟩
  · rintro ⟨w, hw, hjsvc⟩
    exact ⟨_, (hsignalled _).mpr ⟨w, hw, rfl⟩, hjsvc⟩

/-- The PID file as `jsvc` writes it: a `jsvc` gets the signal when the number is that of a live
`jsvc`. -/
theorem received_iff_of_number {w : Text} (hfile : h.pidFile = some (w ++ ['\n']))
    (hdigits : Decimal.IsDigits w) (hpos : 0 < Decimal.value w) :
    h.Received ↔ h.process (Decimal.value w) = some .jsvc := by
  have hspecial : ∀ c ∈ Shell.defaultIFS ++ ['*', '?', '['], c.isDigit = false := by decide
  have hplain : ∀ c ∈ Shell.defaultIFS ++ ['*', '?', '['], c ∉ w := fun c hc hmem =>
    absurd (hdigits c hmem) (by simp [hspecial c hc])
  have hword : Shell.IsWord Shell.defaultIFS w :=
    ⟨fun hnil => by simp [hnil, Decimal.value] at hpos,
      fun c hc => hplain c (List.mem_append_left _ hc)⟩
  have hpattern : Shell.isPattern w = false := by
    rw [Shell.isPattern, List.any_eq_false]
    intro c hc hmem
    exact hplain c (List.mem_append_right _ (of_decide_eq_true hmem)) hc
  have hoperands : h.operands = [w] := by
    have hchomp : Text.chomp (w ++ ['\n']) = w := by
      rw [Text.chomp_append, if_pos (by decide), Text.chomp_of_not_mem (hword.not_mem '\n' (by decide))]
    have hexpand : Shell.expand h.glob w = [w] := if_neg (by simp [hpattern])
    rw [operands, hfile, Option.getD_some, hchomp, Shell.unquoted, Shell.words_of_isWord hword,
      List.flatMap_singleton, hexpand]
  have hnumbers : ∀ u ∈ h.operands, Decimal.IsDigits u ∧ 0 < Decimal.value u := by
    rw [hoperands]
    exact fun u hu => List.mem_singleton.mp hu ▸ ⟨hdigits, hpos⟩
  rw [h.received_iff_of_numbers hnumbers, hoperands]
  simp

/-- An empty PID file: nothing gets the signal. -/
theorem not_received_of_empty (hfile : h.pidFile = some []) : ¬ h.Received := by
  have hoperands : h.operands = [] := by
    rw [operands, hfile]
    rfl
  rw [h.received_iff_of_numbers (by simp [hoperands]), hoperands]
  simp

end TomcatHost

/-- When the stop ends, Tomcat is started again. -/
theorem restarts_of_received (h : TomcatHost) (hends : h.pidFile = none ∨ h.Received) :
    h.Restarts := by
  obtain ⟨n, hn⟩ := h.stop_ends_iff.mpr hends
  exact ⟨⟨n, hn⟩, n, (h.startTomcat_mem_iff n).mpr hn⟩

/-- **Stopping Tomcat**: the stop ends, and Tomcat is started again, exactly when there was no PID
file or a live `jsvc` gets the signal of the `kill`. -/
theorem restarts_iff (h : TomcatHost) : h.Restarts ↔ h.pidFile = none ∨ h.Received := by
  constructor
  · exact fun hrestarts => h.stop_ends_iff.mp hrestarts.ends
  · exact restarts_of_received h

/-- A system after a crash: the PID file is still there, and its process is not. -/
def crashedHost : TomcatHost where
  pidFile := some "4242\n".toList
  process := fun _ => none
  glob := fun _ => []
  signalled := fun ws p => ∃ w ∈ ws, Decimal.value w = p
  numbers := fun _ _ _ => Iff.rfl
  file := fun _ _ => some "4242\n".toList
  start := fun _ => rfl
  untouched := fun _ _ => Or.inl rfl
  removes := fun _ ⟨_, _, hnone⟩ => nomatch hnone

/-- After a crash Tomcat is not restarted. -/
theorem not_restarts_crashedHost : ¬ crashedHost.Restarts := by
  intro hrestarts
  rcases crashedHost.stop_ends_iff.mp hrestarts.ends with hnone | ⟨p, -, hjsvc⟩
  · cases hnone
  · cases hjsvc

end Avetti
