import Avetti.Setup.Phases

/-!
# The tests of `$?` in setup.sh

After many of its commands `setup.sh` tests `$?`. Where the command is piped into `tee`, the test is
on the status of `tee`, and its failure branch is never taken. The other tests work: they take the
failure branch exactly after a failure, and where that branch leaves the script nothing follows.

## Main definitions

* `Check.piped`, `Check.exits`: the checked command is piped; the failure branch leaves the script
* `EffectiveChecks t o`: the tests of a run tell the failures, and checked failures end the run
* `Tested t`: how the tests of a run come out
* `Checked S p`: the tests of `p` come out like this, and its commands are in `S`

## Main results

* `Checked.bind`, `checked_run_failed`, `checked_teed_failed`: the forms of a test in a script
* `checked_setup`: the tests of `setup.sh`
* `effectiveChecks_iff`: the checks of a run are effective exactly when every checked command that is
  piped has succeeded
-/

open Script

namespace Avetti

variable {α β : Type}

/-- The checked command is piped into `tee`. -/
def Check.piped : Check → Bool
  | yumSubversion | aptSubversion | yumMysql | aptMysqlClient | groupadd | configure | make
  | makeInstall | chkconfigTomcat | svnCheckout => true
  | _ => false

/-- The failure branch leaves the script. The other failure branches install what is missing, ask
for the port, or skip the credentials. -/
def Check.exits : Check → Bool
  | svnVersion | mysqlVersion | whichNc | ncPort | svnCheckout => false
  | _ => true

/-- **The checks of a run are effective**: the failure branch of a test is taken exactly when the
command before it has failed, and a checked failure is the end of the run, except where the failure
branch goes on by design. -/
structure EffectiveChecks (t : Trace) (o : Outcome Unit) : Prop where
  branches : ∀ pre c r ch b r' post, t = pre ++ (c, r) :: (.branch ch b, r') :: post →
    (b = true ↔ r.status ≠ 0)
  stops : ∀ pre c r ch b r' post, t = pre ++ (c, r) :: (.branch ch b, r') :: post →
    ch.exits = true → r.status ≠ 0 → post = [] ∧ o.isReturned = false

/-- The command is the record of a test of `$?`. -/
def Cmd.isBranch : Cmd → Bool
  | .branch .. => true
  | _ => false

/-- Every test of a run directly follows the command it checks. Its failure branch is taken after a
failure, unless the command is piped. -/
inductive Tested : Trace → Prop where
  | nil : Tested []
  | command {c : Cmd} {r : Reply} {t : Trace} (hc : c.isBranch = false) (ht : Tested t) :
      Tested ((c, r) :: t)
  | check {c : Cmd} {r r' : Reply} {ch : Check} {t : Trace} (hc : c.isBranch = false)
      (ht : Tested t) : Tested ((c, r) :: (.branch ch (!ch.piped && r.status ≠ 0), r') :: t)

theorem Tested.append {t u : Trace} (ht : Tested t) (hu : Tested u) : Tested (t ++ u) := by
  induction ht with
  | nil => exact hu
  | command hc _ ih => exact .command hc ih
  | check hc _ ih => exact .check hc ih

/-- What a test of a run comes out as. -/
theorem Tested.branch_eq {t : Trace} (ht : Tested t) {pre post : Trace} {c : Cmd} {r r' : Reply}
    {ch : Check} {b : Bool} (h : t = pre ++ (c, r) :: (.branch ch b, r') :: post) :
    b = (!ch.piped && r.status ≠ 0) := by
  induction ht generalizing pre with
  | nil => simp at h
  | command hc ht ih =>
    cases pre with
    | nil =>
      -- the test would directly follow, but the rest of the trace starts with no test
      obtain ⟨-, rfl⟩ := List.cons.inj h
      cases ht with
      | command hc' _ => cases hc'
      | check hc' _ => cases hc'
    | cons e pre => exact ih (List.cons.inj h).2
  | check hc ht ih =>
    rcases pre with _ | ⟨e, pre⟩
    · simp only [List.nil_append, List.cons.injEq, Prod.mk.injEq, Cmd.branch.injEq] at h
      obtain ⟨⟨-, rfl⟩, ⟨⟨rfl, rfl⟩, -⟩, -⟩ := h
      rfl
    · rcases pre with _ | ⟨e', pre⟩
      · -- the checked command would itself be a test
        simp only [List.cons_append, List.nil_append, List.cons.injEq, Prod.mk.injEq] at h
        obtain ⟨-, -, h⟩ := h
        subst h
        cases ht with
        | command hc' _ => cases hc'
        | check hc' _ => cases hc'
      · exact ih (List.cons.inj (List.cons.inj h).2).2

/-- The failure branch of a test that leaves the script is taken. -/
def FailedCheck (c : Cmd) (_ : Reply) : Prop := ∃ ch : Check, c = .branch ch true ∧ ch.exits = true

/-- The commands of the script are in `S`, its tests come out as they should, and it ends at a
failed check. -/
structure Checked (S : Cmd → Prop) (p : Sh α) : Prop where
  emits : Emits (fun c _ => S c) p
  tests : ∀ t o, Runs p t o → Tested t
  stops : Stops FailedCheck p

section Checked

variable {S : Cmd → Prop}

theorem Checked.mono {S' : Cmd → Prop} {p : Sh α} (hp : Checked S p) (h : ∀ c, S c → S' c) :
    Checked S' p := ⟨Emits.mono (fun c _ => h c) hp.emits, hp.tests, hp.stops⟩

theorem Checked.bind {p : Sh α} {q : α → Sh β} (hp : Checked S p) (hq : ∀ a, Checked S (q a)) :
    Checked S (p >>= q) := by
  refine ⟨emits_bind hp.emits fun a => (hq a).emits, fun t o h => ?_,
    stops_bind hp.stops fun a => (hq a).stops⟩
  rcases runs_bind_iff.mp h with ⟨n, rfl, hn⟩ | ⟨a, t₁, t₂, rfl, h₁, h₂⟩
  · exact hp.tests _ _ hn
  · exact (hp.tests _ _ h₁).append ((hq a).tests _ _ h₂)

/-- A script without tests. -/
theorem checked_of_emits {p : Sh α} (hp : Emits (fun c _ => S c ∧ c.isBranch = false) p) :
    Checked S p := by
  refine ⟨Emits.mono (fun _ _ h => h.1) hp, fun t o h => ?_, stops_of_emits ?_⟩
  · induction h with
    | ret a => exact .nil
    | exit n => exact .nil
    | call r _ ih => exact .command (hp r).1.2 (ih (hp r).2)
  · refine Emits.mono ?_ hp
    rintro c r ⟨-, hc⟩ ⟨ch, rfl, -⟩
    cases hc

theorem checked_ite {c : Prop} [Decidable c] {p q : Sh α} (hp : Checked S p)
    (hq : Checked S q) : Checked S (if c then p else q) := by
  split_ifs
  · exact hp
  · exact hq

theorem checked_pure (a : α) : Checked S (pure a : Sh α) := checked_of_emits trivial

theorem checked_leave (n : Int) : Checked S (leave n : Sh α) := checked_of_emits trivial

theorem checked_ifThen {c : Bool} {p : Sh Unit} (hp : Checked S p) : Checked S (ifThen c p) :=
  checked_ite hp (checked_pure ())

theorem checked_call {c : Cmd} {k : Reply → Sh α} (hc : S c) (hb : c.isBranch = false)
    (hk : ∀ r, Checked S (k r)) : Checked S (call c k) := by
  have hp : Checked S (command c : Sh Reply) :=
    checked_of_emits (emits_command c |>.mpr fun _ => ⟨hc, hb⟩)
  exact hp.bind hk

/-- A command that is tested, in either form: the status that is tested is `status r`. -/
theorem checked_failed {c : Cmd} {ch : Check} {status : Reply → Int} {k : Bool → Sh α} (hc : S c)
    (hb : c.isBranch = false) (hS : ∀ b, S (.branch ch b))
    (hstatus : ∀ r, decide (status r ≠ 0) = (!ch.piped && r.status ≠ 0))
    (hk : ∀ b, Checked S (k b))
    (hexit : ch.piped = false → ch.exits = true → ∃ n, k true = leave n) :
    Checked S (call c fun r => failed ch (status r) >>= k) := by
  simp only [failed_bind]
  refine ⟨fun r => ⟨hc, fun _ => ⟨hS _, (hk _).emits⟩⟩, fun t o hrun => ?_, ?_⟩
  · obtain ⟨r, t', rfl, hrest⟩ := runs_call_iff.mp hrun
    obtain ⟨r', t'', rfl, h⟩ := runs_call_iff.mp hrest
    rw [hstatus]
    exact .check hb ((hk _).tests _ _ h)
  · intro t o hrun pre e re post ht hF
    obtain ⟨r, t', rfl, hrest⟩ := runs_call_iff.mp hrun
    obtain ⟨r', t'', rfl, h⟩ := runs_call_iff.mp hrest
    rcases pre with _ | ⟨x, pre⟩
    · -- the checked command itself is no test
      obtain ⟨he, -⟩ := List.cons.inj ht
      obtain ⟨ch', hch, -⟩ := hF
      rw [(Prod.mk.inj he).1, hch] at hb
      cases hb
    · obtain ⟨-, ht⟩ := List.cons.inj ht
      rcases pre with _ | ⟨y, pre⟩
      · obtain ⟨he, rfl⟩ := List.cons.inj ht
        obtain ⟨ch', hch, hexits⟩ := hF
        rw [← (Prod.mk.inj he).1, Cmd.branch.injEq] at hch
        obtain ⟨rfl, hfail⟩ := hch
        have hpiped : ch.piped = false := by
          rw [hstatus, Bool.and_eq_true, Bool.not_eq_true'] at hfail
          exact hfail.1
        obtain ⟨n, hn⟩ := hexit hpiped hexits
        have hkn : Runs (leave n : Sh α) t'' o := by
          rw [← hn, ← hfail]
          exact h
        obtain ⟨rfl, rfl⟩ := runs_exit_iff.mp hkn
        exact ⟨rfl, rfl⟩
      · exact (hk _).stops _ _ h pre e re post (List.cons.inj ht).2 hF

/-- A command whose own status is tested. -/
theorem checked_run_failed {ws : List Text} {ch : Check} {k : Bool → Sh α} (hc : S (.run ws))
    (hS : ∀ b, S (.branch ch b)) (hpiped : ch.piped = false) (hk : ∀ b, Checked S (k b))
    (hexit : ch.exits = true → ∃ n, k true = leave n) :
    Checked S (run ws >>= fun status => failed ch status >>= k) :=
  checked_failed hc rfl hS (fun r => by simp [hpiped]) hk fun _ => hexit

/-- A command that is piped into `tee` before the test. -/
theorem checked_teed_failed {ws : List Text} {ch : Check} {k : Bool → Sh α} (hc : S (.run ws))
    (hS : ∀ b, S (.branch ch b)) (hpiped : ch.piped = true) (hk : ∀ b, Checked S (k b)) :
    Checked S (teed ws >>= fun status => failed ch status >>= k) :=
  checked_failed hc rfl hS (fun r => by simp [hpiped]) hk
    fun h => absurd (hpiped.symm.trans h) (by decide)

end Checked

/-! ## The parts of the script -/

/-- The tests of the script come out as they should, and it runs neither Maven nor a MySQL client
with a user, and changes no `pom.xml`. -/
def CheckedApart (p : Sh α) : Prop := Checked (fun c => c.isApart = true) p

theorem CheckedApart.bind {p : Sh α} {q : α → Sh β} (hp : CheckedApart p)
    (hq : ∀ a, CheckedApart (q a)) : CheckedApart (p >>= q) := Checked.bind hp hq

theorem checked_of_plain {p : Sh α} (hp : Plain p) : CheckedApart p := by
  refine checked_of_emits (Emits.mono (fun c _ hc => ⟨isApart_of_isPlain hc, ?_⟩) hp)
  cases c <;> first | rfl | cases hc

section Parts

variable (glob : Text → List Text) (v : Vars)

theorem checked_checkSvn : CheckedApart checkSvn := by
  refine checked_run_failed rfl (fun _ => rfl) rfl (fun _ => checked_ite ?_ (checked_pure _)) nofun
  refine (checked_of_plain plain_hasYum).bind fun _ => checked_ite ?_ ?_
  · exact checked_teed_failed rfl (fun _ => rfl) rfl fun _ =>
      checked_ite (checked_leave 1) (checked_pure _)
  · refine (checked_of_plain plain_hasApt).bind fun _ => checked_ite ?_ (checked_pure _)
    refine checked_call rfl rfl fun _ => checked_teed_failed rfl (fun _ => rfl) rfl fun _ => ?_
    exact checked_ite (checked_leave 1) (checked_pure _)

theorem checked_checkMysql : CheckedApart (checkMysql v) := by
  refine checked_ifThen (checked_run_failed rfl (fun _ => rfl) rfl (fun _ => ?_) nofun)
  refine checked_ite ((checked_of_plain plain_hasYum).bind fun _ => checked_ite ?_ ?_)
    (checked_pure _)
  · exact checked_teed_failed rfl (fun _ => rfl) rfl fun _ =>
      checked_ite (checked_leave 1) (checked_pure _)
  · refine (checked_of_plain plain_hasApt).bind fun _ => checked_ite ?_ (checked_pure _)
    refine checked_call rfl rfl fun _ => checked_teed_failed rfl (fun _ => rfl) rfl fun _ => ?_
    exact checked_ite (checked_leave 1) (checked_pure _)

theorem javac_ne (path : Text) {w : Text} (hw : '/' ∉ w) : path ++ "/bin/javac".toList ≠ w := by
  rintro rfl
  exact hw (List.mem_append_right path (by decide))

theorem checked_checkJava : CheckedApart (checkJava v) := by
  have hne : ∀ {w : Text}, '/' ∉ w → some (v.JAVA_HOME ++ "/bin/javac".toList) ≠ some w := fun hw h =>
    javac_ne _ hw (Option.some.inj h)
  have hapart : (Cmd.run [v.JAVA_HOME ++ "/bin/javac".toList, "-version"]).isApart = true := by
    have hwords : some (v.JAVA_HOME ++ "/bin/javac".toList) ∉
        [some "sed".toList, some "cp".toList, some "mv".toList, some "dos2unix".toList] := by
      simp only [List.mem_cons, List.not_mem_nil, or_false, not_or]
      exact ⟨hne (by decide), hne (by decide), hne (by decide), hne (by decide)⟩
    have hpom : (Cmd.run [v.JAVA_HOME ++ "/bin/javac".toList, "-version"]).writesPom = false := by
      rw [Cmd.writesPom, Cmd.target, List.head?_cons, if_neg hwords,
        decide_eq_false (hne (by decide))]
      rfl
    rw [Cmd.isApart, hpom, List.head?_cons, decide_eq_true (hne (by decide))]
    rfl
  exact checked_ifThen (checked_run_failed hapart (fun _ => rfl) rfl
    (fun _ => checked_ite (checked_leave 1) (checked_pure _)) fun _ => ⟨1, rfl⟩)

theorem checked_checkNetcat : CheckedApart checkNetcat := by
  refine checked_run_failed rfl (fun _ => rfl) rfl (fun _ => checked_ite ?_ (checked_pure _)) nofun
  refine (checked_of_plain plain_hasYum).bind fun _ => checked_ite ?_ ?_
  · exact checked_call rfl rfl fun _ => checked_pure _
  · refine (checked_of_plain plain_hasApt).bind fun _ => checked_ite ?_ (checked_pure _)
    exact checked_call rfl rfl fun _ => checked_call rfl rfl fun _ => checked_pure _

theorem checked_mysqlPortAnswer : CheckedApart (mysqlPortAnswer glob v) := by
  refine checked_run_failed rfl (fun _ => rfl) rfl (fun _ => checked_ite ?_ (checked_pure _)) nofun
  refine checked_call rfl rfl fun _ => (checked_of_plain (plain_isNonzero _)).bind fun _ => ?_
  exact checked_ite (checked_pure _) (checked_pure _)

theorem checked_codeVersion : CheckedApart (codeVersion glob v) := by
  have hinfo : ∀ v : Vars, CheckedApart (svnInfo glob v) := fun v =>
    checked_run_failed rfl (fun _ => rfl) rfl
      (fun _ => checked_ite (checked_leave 1) (checked_pure _)) fun _ => ⟨1, rfl⟩
  simp only [codeVersion, ask_bind]
  refine checked_call rfl rfl fun _ => (checked_of_plain (plain_test _)).bind fun _ => ?_
  refine checked_ite (checked_call rfl rfl fun _ => checked_call rfl rfl fun _ => ?_) ?_
  · exact (hinfo _).bind fun _ => checked_pure _
  · refine (checked_of_plain (plain_test _)).bind fun _ => checked_ite ?_ (checked_leave 0)
    refine checked_call rfl rfl fun _ => checked_call rfl rfl fun _ => checked_call rfl rfl fun _ => ?_
    exact (hinfo _).bind fun _ => checked_pure _

theorem checked_createUsers : CheckedApart createUsers := by
  have hgroup : CheckedApart createGroup := by
    simp only [createGroup, capture_bind]
    refine checked_call rfl rfl fun _ => checked_ite ?_ (checked_pure _)
    exact checked_teed_failed rfl (fun _ => rfl) rfl fun _ =>
      checked_ite (checked_leave 1) (checked_pure _)
  have huser : ∀ name options, CheckedApart (createUser name options) := by
    intro name options
    simp only [createUser, capture_bind]
    refine checked_call rfl rfl fun _ => checked_ite (checked_call rfl rfl fun _ => ?_) ?_
    · exact checked_pure _
    · exact checked_run_failed rfl (fun _ => rfl) rfl
        (fun _ => checked_ite (checked_leave 1) (checked_pure _)) fun _ => ⟨1, rfl⟩
  exact hgroup.bind fun _ => (huser _ _).bind fun _ => (huser _ _).bind fun _ => huser _ _

theorem checked_checkedStep_teed {ws : List Text} {ch : Check}
    (hc : (Cmd.run ws).isApart = true) (hpiped : ch.piped = true) :
    CheckedApart (checkedStep ch (teed ws)) :=
  checked_teed_failed hc (fun _ => rfl) hpiped fun _ =>
    checked_ite (checked_leave 1) (checked_pure _)

theorem checked_installHttpd : CheckedApart installHttpd := by
  simp only [installHttpd, run_bind, command_bind]
  refine checked_call rfl rfl fun _ => (checked_checkedStep_teed rfl rfl).bind fun _ => ?_
  refine (checked_checkedStep_teed rfl rfl).bind fun _ => ?_
  refine (checked_checkedStep_teed rfl rfl).bind fun _ => ?_
  refine (checked_of_plain (plain_writeTo _ rfl)).bind fun _ => checked_call rfl rfl fun _ => ?_
  refine (checked_of_plain (plain_appendTo _ rfl)).bind fun _ => ?_
  exact checked_run_failed rfl (fun _ => rfl) rfl
    (fun _ => checked_ite (checked_leave 1) (checked_pure _)) fun _ => ⟨1, rfl⟩

theorem checked_updateChkconfig : CheckedApart updateChkconfig := by
  simp only [updateChkconfig, teed_bind]
  iterate 3 refine checked_call rfl rfl fun _ => ?_
  exact checked_checkedStep_teed rfl rfl

theorem checked_installPackages : CheckedApart (installPackages v) := by
  refine (checked_ifThen (checked_of_plain plain_installMysql)).bind fun _ => ?_
  refine (checked_ite (checked_of_plain (plain_installJava v)) (checked_pure _)).bind fun _ => ?_
  exact (checked_ifThen checked_installHttpd).bind fun _ => checked_pure _

/-! ## The whole script -/

/-- The tests of the script come out as they should, and it does not call Maven. -/
abbrev CheckedBefore (p : Sh α) : Prop := Checked (fun c => c.isMvn = false) p

theorem CheckedApart.before {p : Sh α} (hp : CheckedApart p) : CheckedBefore p :=
  hp.mono fun _ => isMvn_of_isApart

theorem checked_run (ws : List Text) : CheckedBefore (run ws) :=
  checked_call rfl rfl fun _ => checked_pure _

theorem checked_edits (scripts : List Text) (path : Text) : CheckedBefore (edits scripts path) := by
  induction scripts with
  | nil => exact checked_pure _
  | cons script scripts ih => exact checked_call rfl rfl fun _ => ih

theorem checked_checkout : CheckedBefore (checkout v) := by
  simp only [checkout, fileTest_bind]
  refine checked_call rfl rfl fun _ => checked_ite (checked_call rfl rfl fun _ => ?_)
    (checked_pure _)
  exact checked_teed_failed rfl (fun _ => rfl) rfl fun _ =>
    checked_ite (checked_edits _ _) (checked_pure _)

theorem checked_afterModuleSetup : CheckedBefore (afterModuleSetup v) := by
  simp only [afterModuleSetup, command_bind, run_bind]
  refine (checked_edits _ _).bind fun _ => ?_
  iterate 5 refine checked_call rfl rfl fun _ => ?_
  exact checked_pure _

theorem checked_mysqlServer : CheckedBefore (mysqlServer glob v) := by
  have hlist : ∀ v : Vars, CheckedBefore (listDatabases glob v) := by
    intro v
    simp only [listDatabases, run_bind, capture_bind]
    refine checked_call rfl rfl fun _ => checked_call rfl rfl fun _ => ?_
    refine (checked_ifThen (checked_leave 1)).bind fun _ => ?_
    exact (checked_ifThen (checked_leave 1)).bind fun _ => checked_pure _
  simp only [mysqlServer, ask_bind]
  refine checked_ite (checked_call rfl rfl fun _ => ?_) (checked_pure _)
  exact (checked_mysqlPortAnswer glob _).before.bind fun _ => (hlist _).bind fun _ => checked_pure _

theorem checked_requirements : CheckedBefore (requirements glob v) := by
  refine checked_checkSvn.before.bind fun _ => (checked_checkMysql v).before.bind fun _ => ?_
  refine (checked_checkJava v).before.bind fun _ => checked_checkNetcat.before.bind fun _ => ?_
  refine (checked_mysqlServer glob v).bind fun v => ?_
  refine (checked_of_plain (plain_webServer v)).before.bind fun v => ?_
  exact (checked_codeVersion glob v).before

theorem checked_configureMysql : CheckedBefore (configureMysql glob v) := by
  have hgrants : ∀ apart host, CheckedBefore (grants glob v apart host) := fun _ _ =>
    (checked_run _).bind fun _ => (checked_run _).bind fun _ => (checked_run _).bind fun _ =>
      checked_pure _
  have hteed : ∀ ws, CheckedBefore (do let _ ← teed ws) := fun _ =>
    checked_call rfl rfl fun _ => checked_pure _
  refine (checked_ifThen (hteed _)).bind fun _ => ?_
  exact checked_ite (hgrants _ _) (hgrants _ _)

theorem checked_install : CheckedBefore (install glob v) := by
  have hplain : ∀ {α : Type} {p : Sh α}, Plain p → CheckedBefore p := fun hp =>
    (checked_of_plain hp).before
  refine (hplain plain_installRequirements).bind fun _ => checked_createUsers.before.bind fun _ => ?_
  refine (hplain (plain_setHostname v)).bind fun _ => (hplain (plain_setHosts v)).bind fun _ => ?_
  refine (checked_run _).bind fun _ => (hplain plain_setSudoers).bind fun _ => ?_
  refine (hplain plain_hasApt).bind fun _ => ?_
  refine (checked_ifThen (hplain plain_linkInsserv)).bind fun _ => ?_
  refine (checked_installPackages v).before.bind fun _ => ?_
  refine (checked_configureMysql glob _).bind fun _ => ?_
  refine (hplain (plain_configureHttpd _)).bind fun _ => ?_
  refine (hplain (plain_configureTomcat _)).bind fun _ => ?_
  refine checked_updateChkconfig.before.bind fun _ => ?_
  refine (hplain (plain_extendProfile _ _)).bind fun _ => (checked_checkout _).bind fun _ => ?_
  exact (hplain (plain_configureSettings _)).bind fun _ => hplain (plain_extendProfile _ _)

theorem checked_setupBefore (JAVA_HOME : Text) (args : List Text) :
    CheckedBefore (setupBefore glob JAVA_HOME args) := by
  simp only [setupBefore, capture_bind]
  refine checked_call rfl rfl fun _ => (checked_ifThen (checked_leave 1)).bind fun _ => ?_
  refine (checked_of_plain (plain_parameters glob args)).before.bind fun p => ?_
  exact (checked_requirements glob _).bind fun v => (checked_install glob v).bind fun _ =>
    checked_pure v

/-- The tests of the script come out as they should. -/
abbrev CheckedAny (p : Sh α) : Prop := Checked (fun _ => True) p

theorem Checked.any {S : Cmd → Prop} {p : Sh α} (hp : Checked S p) : CheckedAny p :=
  hp.mono fun _ _ => trivial

theorem checked_stage (m : Mvn) : CheckedAny (stage m) := by
  have hmvn : ∀ a, CheckedAny (mvn m a) := fun _ =>
    checked_call trivial rfl fun _ => checked_pure _
  refine (hmvn .first).bind fun _ => checked_ite (checked_ite ?_ (checked_leave 1)) (checked_pure _)
  exact (hmvn .second).bind fun _ => checked_pure _

theorem checked_compileCommerce : CheckedAny (compileCommerce glob v) := by
  have haliases : ∀ db, CheckedAny (domainAliases glob v db) := fun _ =>
    Checked.any ((checked_run _).bind fun _ => (checked_run _).bind fun _ =>
      (checked_run _).bind fun _ => (checked_run _).bind fun _ => checked_pure _)
  have hpreview : CheckedAny (migratePreview glob v) :=
    checked_ite (checked_stage _) ((checked_stage _).bind fun _ => haliases _)
  have hshop : CheckedAny (migrateShop glob v) :=
    checked_ite (checked_stage _) ((checked_stage _).bind fun _ => haliases _)
  have hbackup : CheckedAny (migrateBackup glob v) :=
    checked_ite (checked_stage _) (checked_stage _)
  have hdeploy : CheckedAny (migrateAndDeploy glob v) :=
    hpreview.bind fun _ => hshop.bind fun _ => hbackup.bind fun _ => (checked_stage _).bind fun _ =>
      (checked_stage _).bind fun _ => (checked_stage _).bind fun _ => checked_stage _
  refine (checked_stage _).bind fun _ => (checked_afterModuleSetup v).any.bind
    fun _ => hdeploy.bind fun _ => checked_pure _

/-- **The tests of setup.sh** come out as the status they look at. -/
theorem checked_setup (JAVA_HOME : Text) (args : List Text) :
    CheckedAny (setup glob JAVA_HOME args) := by
  rw [setup_eq]
  refine (checked_setupBefore glob JAVA_HOME args).any.bind fun v => ?_
  refine (checked_compileCommerce glob v).bind fun coreDir => ?_
  exact (checked_of_plain (plain_finish v coreDir)).any

end Parts

/-- The checks of a run are effective exactly when every checked command that is piped has
succeeded. -/
theorem Checked.effective_iff {S : Cmd → Prop} {p : Sh Unit} (hp : Checked S p) {t : Trace}
    {o : Outcome Unit} (h : Runs p t o) :
    EffectiveChecks t o ↔ ∀ pre c r ch b r' post,
      t = pre ++ (c, r) :: (.branch ch b, r') :: post → ch.piped = true → r.status = 0 := by
  have hbranch : ∀ {pre c r ch b r' post}, t = pre ++ (c, r) :: (.branch ch b, r') :: post →
      b = (!ch.piped && r.status ≠ 0) := fun ht => (hp.tests t o h).branch_eq ht
  constructor
  · intro he pre c r ch b r' post ht hpiped
    by_contra hne
    have htrue := (he.branches pre c r ch b r' post ht).mpr hne
    rw [hbranch ht, hpiped] at htrue
    cases htrue
  · intro hzero
    have hiff : ∀ pre c r ch b r' post, t = pre ++ (c, r) :: (.branch ch b, r') :: post →
        (b = true ↔ r.status ≠ 0) := by
      intro pre c r ch b r' post ht
      rw [hbranch ht]
      cases hpiped : ch.piped with
      | false => simp
      | true => simp [hzero pre c r ch b r' post ht hpiped]
    refine ⟨hiff, fun pre c r ch b r' post ht hexits hne => ?_⟩
    have hb : b = true := (hiff pre c r ch b r' post ht).mpr hne
    exact hp.stops t o h (pre ++ [(c, r)]) (.branch ch b) r' post (by simp [ht])
      ⟨ch, by rw [hb], hexits⟩

/-- **Status checks of setup.sh**: the checks of a run are effective exactly when every checked
command that is piped into `tee` has succeeded. -/
theorem effectiveChecks_iff (glob : Text → List Text) (JAVA_HOME : Text) (args : List Text)
    (t : Trace) (o : Outcome Unit) (h : Runs (setup glob JAVA_HOME args) t o) :
    EffectiveChecks t o ↔ ∀ pre c r ch b r' post,
      t = pre ++ (c, r) :: (.branch ch b, r') :: post → ch.piped = true → r.status = 0 :=
  (checked_setup glob JAVA_HOME args).effective_iff h

/-- The replies to `root`, who answers `y`: one command fails, every other one succeeds, and no tested
file exists. -/
def failingCommand (ws : List Text) (c : Cmd) : Reply :=
  match c with
  | .run ws' => if ws' = ws then ⟨1, []⟩ else ⟨0, if ws' = ["id", "-u"] then "0" else []⟩
  | .read _ => ⟨0, "y"⟩
  | .test .. => ⟨1, []⟩
  | _ => ⟨0, []⟩

/-- The run of `setup.sh` without arguments in which one command fails. -/
def failingRun (ws : List Text) : Run Unit Cmd Reply Unit :=
  exec (answering (failingCommand ws)) (setup (fun _ => []) [] []) ()

theorem effectiveChecks_iff_groupadd :
    EffectiveChecks (failingRun ["groupadd", "apache"]).trace
        (failingRun ["groupadd", "apache"]).outcome ↔
      ∀ pre c r ch b r' post, (failingRun ["groupadd", "apache"]).trace =
        pre ++ (c, r) :: (.branch ch b, r') :: post → ch.piped = true → r.status = 0 :=
  effectiveChecks_iff _ _ _ _ _ (runs_exec _ _ _)

/-- A failing `make` is taken for a success. -/
theorem not_effectiveChecks_make :
    ¬ ∀ t o, Runs (setup (fun _ => []) [] []) t o → EffectiveChecks t o := by
  intro h
  have he : EffectiveChecks (failingRun ["make"]).trace (failingRun ["make"]).outcome :=
    h _ _ (runs_exec _ _ _)
  have hinfix : [(Cmd.run ["make"], ⟨1, []⟩), (Cmd.branch .make false, ⟨0, []⟩)] <:+:
      (failingRun ["make"]).trace := by decide
  obtain ⟨pre, post, ht⟩ := hinfix
  rw [List.append_assoc] at ht
  have hiff := he.branches pre (.run ["make"]) ⟨1, []⟩ .make false ⟨0, []⟩ post ht.symm
  exact absurd (hiff.mpr (by decide)) (by decide)

end Avetti
