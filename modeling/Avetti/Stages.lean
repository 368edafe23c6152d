import Avetti.Command

/-!
# Stage runners

A stage runner starts one Maven goal after the other, each with its second attempt, and starts and
stops services in between. The runs of a runner are those of a chain of stages: which attempts and
services are run, and whether the runner comes to its end, is decided by the exit codes of Maven.

## Main definitions

* `Agrees f t`: the exit codes of Maven in the run `t` are `f`
* `events t`: the attempts and the services of a run
* `Chains p xs`: the runs of `p` are those of the chain `xs`
* `Runner p lists`: after its other commands, `p` runs one of the chains in `lists`
* `Gates p f`: the runs of `p` with the exit codes `f` are gated

## Main results

* `Chains.bind`: a sequence of runners is a runner
* `chains_stage`, `chains_stageIn`, `chains_batStage`: a stage of either kind is a stage of a chain
* `Runner.gates_iff`: a runner is gated exactly when no stage it comes to fails both attempts
-/

open Script RetryChain

namespace Avetti

variable {α β : Type}

/-- The commands run, each with its reply. -/
abbrev Trace := List (Cmd × Reply)

/-- A service with what is done to it. -/
abbrev Action := Text × Text

/-- The exit codes of Maven in the run are `f`. -/
def Agrees (f : Mvn → Attempt → Int) (t : Trace) : Prop :=
  ∀ m a r, (Cmd.mvn m a, r) ∈ t → r.status = f m a

theorem agrees_append {f : Mvn → Attempt → Int} {t u : Trace} :
    Agrees f (t ++ u) ↔ Agrees f t ∧ Agrees f u := by
  simp only [Agrees, List.mem_append, or_imp, forall_and]

/-- The attempts and the services of a run. -/
def events : Trace → List (Event Mvn Action) :=
  List.filterMap fun
    | (.mvn m a, r) => some (.tried ⟨m, a, r.status⟩)
    | (.service name action, _) => some (.did (name, action))
    | _ => none

@[simp] theorem events_nil : events [] = [] := rfl

@[simp] theorem events_append (t u : Trace) : events (t ++ u) = events t ++ events u :=
  List.filterMap_append

@[simp] theorem events_mvn (m : Mvn) (a : Attempt) (r : Reply) (t : Trace) :
    events ((.mvn m a, r) :: t) = .tried ⟨m, a, r.status⟩ :: events t := rfl

@[simp] theorem events_service (name action : Text) (r : Reply) (t : Trace) :
    events ((.service name action, r) :: t) = .did (name, action) :: events t := rfl

/-- The attempts of a run. -/
def attempts (t : Trace) : List (Try Mvn) := attempted (events t)

/-- The command is neither an attempt nor a service. -/
def Cmd.isQuiet : Cmd → Bool
  | .mvn .. => false
  | .service .. => false
  | _ => true

theorem events_of_quiet {c : Cmd} (hc : c.isQuiet = true) (r : Reply) (t : Trace) :
    events ((c, r) :: t) = events t := by
  cases c <;> first | rfl | simp [Cmd.isQuiet] at hc

/-- The script runs no attempt and no service. -/
def Quiet (p : Sh α) : Prop := Emits (fun c _ => c.isQuiet = true) p

theorem Quiet.events_eq_nil {p : Sh α} (hp : Quiet p) {t : Trace} {o : Outcome α}
    (h : Runs p t o) : events t = [] := by
  induction h with
  | ret a => rfl
  | exit n => rfl
  | call r _ ih =>
    rw [events_of_quiet (hp r).1]
    exact ih (hp r).2

/-! ## Chains -/

/-- **The runs of `p` are those of the chain `xs`**: the same events, and the script comes to its
end exactly when every stage passes. -/
def Chains (p : Sh α) (xs : List (Item Mvn Action)) : Prop :=
  ∀ f t o, Runs p t o → Agrees f t →
    events t = trace f xs ∧ (o.isReturned = true ↔ ∀ i ∈ stages xs, Passes f i)

theorem chains_ret (a : α) : Chains (ret a : Sh α) [] := by
  intro f t o h _
  obtain ⟨rfl, rfl⟩ := runs_ret_iff.mp h
  simp [trace]

theorem stages_append (xs ys : List (Item Mvn Action)) :
    stages (xs ++ ys) = stages xs ++ stages ys := List.filterMap_append

/-- A sequence of runners is a runner. -/
theorem Chains.bind {p : Sh α} {q : α → Sh β} {xs ys : List (Item Mvn Action)}
    (hp : Chains p xs) (hq : ∀ a, Chains (q a) ys) : Chains (p >>= q) (xs ++ ys) := by
  intro f t o h hf
  rcases runs_bind_iff.mp h with ⟨n, rfl, hn⟩ | ⟨a, t₁, t₂, rfl, h₁, h₂⟩
  · obtain ⟨he, ho⟩ := hp f t _ hn hf
    have hfail : ¬ ∀ i ∈ stages xs, Passes f i := by simpa using ho
    refine ⟨by rw [he, trace_append, if_neg hfail, List.append_nil], ?_⟩
    refine iff_of_false (by simp) fun hall => hfail fun i hi => hall i ?_
    rw [stages_append]
    exact List.mem_append_left _ hi
  · obtain ⟨hf₁, hf₂⟩ := agrees_append.mp hf
    obtain ⟨he₁, ho₁⟩ := hp f t₁ _ h₁ hf₁
    obtain ⟨he₂, ho₂⟩ := hq a f t₂ o h₂ hf₂
    have hpass : ∀ i ∈ stages xs, Passes f i := ho₁.mp rfl
    refine ⟨by rw [events_append, he₁, he₂, trace_append, if_pos hpass], ho₂.trans ?_⟩
    simp only [stages_append, List.mem_append, or_imp, forall_and]
    exact ⟨fun h => ⟨hpass, h⟩, And.right⟩

/-- A quiet command before a runner. -/
theorem chains_call {c : Cmd} {k : Reply → Sh α} {xs : List (Item Mvn Action)}
    (hc : c.isQuiet = true) (hk : ∀ r, Chains (k r) xs) : Chains (call c k) xs := by
  intro f t o h hf
  obtain ⟨r, t', rfl, h'⟩ := runs_call_iff.mp h
  rw [events_of_quiet hc]
  exact hk r f t' o h' fun m a r hm => hf m a r (List.mem_cons_of_mem _ hm)

theorem chains_service (name action : Text) :
    Chains (service name action) [.act (name, action)] := by
  intro f t o h _
  obtain ⟨r, t', rfl, h'⟩ := runs_call_iff.mp h
  obtain ⟨rfl, rfl⟩ := runs_ret_iff.mp h'
  simp [trace]

/-! ## Stages -/

/-- The attempt is run after quiet commands only, and its exit code is the value. -/
def IsAttempt (p : Sh Int) (m : Mvn) (a : Attempt) : Prop :=
  ∀ f t o, Runs p t o → Agrees f t →
    events t = [.tried ⟨m, a, f m a⟩] ∧ o = .returned (f m a)

theorem isAttempt_mvn (m : Mvn) (a : Attempt) : IsAttempt (mvn m a) m a := by
  intro f t o h hf
  obtain ⟨r, t', rfl, h'⟩ := runs_call_iff.mp h
  obtain ⟨rfl, rfl⟩ := runs_ret_iff.mp h'
  have hr : r.status = f m a := hf m a r List.mem_cons_self
  rw [events_mvn, hr]
  exact ⟨rfl, rfl⟩

theorem isAttempt_call {c : Cmd} {k : Reply → Sh Int} {m : Mvn} {a : Attempt}
    (hc : c.isQuiet = true) (hk : ∀ r, IsAttempt (k r) m a) : IsAttempt (call c k) m a := by
  intro f t o h hf
  obtain ⟨r, t', rfl, h'⟩ := runs_call_iff.mp h
  rw [events_of_quiet hc]
  exact hk r f t' o h' fun m a r hm => hf m a r (List.mem_cons_of_mem _ hm)

/-- An attempt, and then a second one after the code 2 and an exit after any other failure, is a
stage, whatever the status it exits with. -/
theorem chains_attempts {first : Sh Int} {second : Int → Sh Unit} {m : Mvn}
    (hfirst : IsAttempt first m .first) (hzero : ∀ f t o, Runs (second 0) t o → Agrees f t →
      events t = [] ∧ o = .returned ())
    (htwo : ∀ f t o, Runs (second 2) t o → Agrees f t →
      events t = [.tried ⟨m, .second, f m .second⟩] ∧ o = .returned ())
    (hother : ∀ n, n ≠ 0 → n ≠ 2 → ∃ k, second n = leave k) :
    Chains (first >>= second) [.stage m] := by
  intro f t o h hf
  rcases runs_bind_iff.mp h with ⟨n, rfl, hn⟩ | ⟨c, t₁, t₂, rfl, h₁, h₂⟩
  · cases (hfirst f t _ hn hf).2
  · obtain ⟨hf₁, hf₂⟩ := agrees_append.mp hf
    obtain ⟨he₁, hc⟩ := hfirst f t₁ _ h₁ hf₁
    obtain rfl : c = f m .first := by simpa using hc
    rw [events_append, he₁]
    -- the status 0, the status 2, and any other
    by_cases h0 : f m .first = 0
    · rw [h0] at h₂
      obtain ⟨he₂, rfl⟩ := hzero f t₂ o h₂ hf₂
      simp [he₂, trace, tries, Passes, h0]
    · by_cases h2 : f m .first = 2
      · rw [h2] at h₂
        obtain ⟨he₂, rfl⟩ := htwo f t₂ o h₂ hf₂
        simp [he₂, trace, tries, Passes, h2]
      · obtain ⟨k, hk⟩ := hother _ h0 h2
        rw [hk] at h₂
        obtain ⟨rfl, rfl⟩ := runs_exit_iff.mp h₂
        simp [trace, tries, Passes, h0, h2]

theorem runs_retry_two {again : Sh Int} {m : Mvn} (hagain : IsAttempt again m .second)
    (f : Mvn → Attempt → Int) (t : Trace) (o : Outcome Unit)
    (h : Runs (again >>= fun _ => ret ()) t o) (hf : Agrees f t) :
    events t = [.tried ⟨m, .second, f m .second⟩] ∧ o = .returned () := by
  rcases runs_bind_iff.mp h with ⟨n, rfl, hn⟩ | ⟨c, t₁, t₂, rfl, h₁, h₂⟩
  · cases (hagain f t _ hn hf).2
  · obtain ⟨rfl, rfl⟩ := runs_ret_iff.mp h₂
    rw [List.append_nil] at hf ⊢
    exact ⟨(hagain f t₁ _ h₁ hf).1, rfl⟩

/-- A stage of a shell script is a stage. -/
theorem chains_retry {first again : Sh Int} {m : Mvn} (hfirst : IsAttempt first m .first)
    (hagain : IsAttempt again m .second) : Chains (first >>= retry again) [.stage m] := by
  refine chains_attempts hfirst ?_ (runs_retry_two hagain) ?_
  · intro f t o h _
    obtain ⟨rfl, rfl⟩ := runs_ret_iff.mp h
    exact ⟨rfl, rfl⟩
  · intro n h0 h2
    exact ⟨1, by simp [retry, h0, h2]⟩

theorem chains_stage (m : Mvn) : Chains (stage m) [.stage m] :=
  chains_retry (isAttempt_mvn m .first) (isAttempt_mvn m .second)

theorem chains_stageIn (dir : Text) (m : Mvn) : Chains (stageIn dir m) [.stage m] := by
  have hfirst : IsAttempt (run ["cd", dir] >>= fun _ => mvn m .first) m .first :=
    isAttempt_call rfl fun _ => isAttempt_mvn m .first
  exact chains_retry hfirst (isAttempt_call rfl fun _ => isAttempt_mvn m .second)

/-- A stage of a batch file is a stage. -/
theorem chains_batStage (m : Mvn) : Chains (batStage m) [.stage m] := by
  have hrest : Chains (do
      let errorlevel ← mvn m .first
      if errorlevel ≠ 0 then
        if errorlevel = 2 then
          let _ ← mvn m .second
        else leave errorlevel) [.stage m] := by
    refine chains_attempts (isAttempt_mvn m .first) ?_
      (runs_retry_two (isAttempt_mvn m .second)) ?_
    · intro f t o h _
      obtain ⟨rfl, rfl⟩ := runs_ret_iff.mp h
      exact ⟨rfl, rfl⟩
    · intro n h0 h2
      exact ⟨n, by simp [h0, h2]⟩
  exact chains_call rfl fun _ => hrest

section Sequences

variable {k : Unit → Sh α} {xs : List (Item Mvn Action)}

theorem chains_stage_bind (m : Mvn) (hk : ∀ u, Chains (k u) xs) :
    Chains (stage m >>= k) (.stage m :: xs) := (chains_stage m).bind hk

theorem chains_stageIn_bind (dir : Text) (m : Mvn) (hk : ∀ u, Chains (k u) xs) :
    Chains (stageIn dir m >>= k) (.stage m :: xs) := (chains_stageIn dir m).bind hk

theorem chains_batStage_bind (m : Mvn) (hk : ∀ u, Chains (k u) xs) :
    Chains (batStage m >>= k) (.stage m :: xs) := (chains_batStage m).bind hk

theorem chains_service_bind (name action : Text) (hk : ∀ u, Chains (k u) xs) :
    Chains (service name action >>= k) (.act (name, action) :: xs) :=
  (chains_service name action).bind hk

end Sequences

/-! ## Runners -/

/-- Some run of the script returns `a`. -/
def Reaches (p : Sh α) (a : α) : Prop := ∃ t, Runs p t (.returned a)

/-- The replies to the user `u` who answers `y`, with the exit codes `f` of Maven: every other
command succeeds, and no tested file exists. -/
def confirming (u : Text) (f : Mvn → Attempt → Int) (c : Cmd) : Reply :=
  match c with
  | .mvn m a => ⟨f m a, []⟩
  | .read _ => ⟨0, "y"⟩
  | .test .. => ⟨1, []⟩
  | _ => ⟨0, if c = .run ["whoami"] then u else []⟩

theorem agrees_exec_confirming (u : Text) (f : Mvn → Attempt → Int) (p : Sh α) :
    Agrees f (exec (answering (confirming u f)) p ()).trace := by
  intro m a r hm
  rw [show r = confirming u f (.mvn m a) from reply_of_mem_exec_answering hm]
  rfl

/-- Every script has a run with the exit codes `f`. -/
theorem exists_runs_agrees (p : Sh α) (f : Mvn → Attempt → Int) :
    ∃ t o, Runs p t o ∧ Agrees f t :=
  ⟨_, _, runs_exec _ p (), agrees_exec_confirming [] f p⟩

/-- **A stage runner**: after quiet commands, which may leave the script, it runs one of the chains
in `lists`, and each of them is run for every exit codes of Maven. -/
structure Runner (p : Sh α) (lists : List (List (Item Mvn Action))) : Prop where
  sound : ∀ f t o, Runs p t o → Agrees f t → events t = [] ∨
    ∃ xs ∈ lists, events t = trace f xs ∧
      (o.isReturned = true → ∀ i ∈ stages xs, Passes f i)
  complete : ∀ f, ∀ xs ∈ lists, ∃ t o, Runs p t o ∧ Agrees f t ∧ events t = trace f xs ∧
    (o.isReturned = true ↔ ∀ i ∈ stages xs, Passes f i)

theorem Quiet.agrees {p : Sh α} (hp : Quiet p) {t : Trace} {o : Outcome α} (h : Runs p t o)
    (f : Mvn → Attempt → Int) : Agrees f t := by
  intro m a r hm
  have := h.emits hp _ hm
  simp [Cmd.isQuiet] at this

/-- A chain between quiet commands is a stage runner. -/
theorem runner_of_chains {γ : Type} {before : Sh α} {chain : α → Sh β} {after : β → Sh γ}
    {lists : List (List (Item Mvn Action))} (items : α → List (Item Mvn Action))
    (hbefore : Quiet before) (hchain : ∀ a, Chains (chain a) (items a))
    (hafter : ∀ b, Quiet (after b)) (hreach : ∀ b, ∃ c, Reaches (after b) c)
    (hitems : ∀ a, Reaches before a → items a = [] ∨ items a ∈ lists)
    (hlists : ∀ xs ∈ lists, ∃ a, Reaches before a ∧ items a = xs) :
    Runner (before >>= fun a => chain a >>= after) lists where
  sound := by
    intro f t o h hf
    -- the run leaves before the chain, in the chain, or after it
    rcases runs_bind_iff.mp h with ⟨n, rfl, hn⟩ | ⟨a, t₁, t₂, rfl, h₁, h₂⟩
    · exact Or.inl (hbefore.events_eq_nil hn)
    · rw [events_append, hbefore.events_eq_nil h₁, List.nil_append]
      obtain ⟨hf₁, hf₂⟩ := agrees_append.mp hf
      rcases runs_bind_iff.mp h₂ with ⟨n, rfl, hn⟩ | ⟨b, u₁, u₂, rfl, g₁, g₂⟩
      · obtain ⟨he, ho⟩ := hchain a f t₂ _ hn hf₂
        rcases hitems a ⟨t₁, h₁⟩ with hnil | hmem
        · exact Or.inl (by rw [he, hnil, trace])
        · exact Or.inr ⟨_, hmem, he, by simp⟩
      · obtain ⟨he, ho⟩ := hchain a f u₁ _ g₁ (agrees_append.mp hf₂).1
        rw [events_append, (hafter b).events_eq_nil g₂, List.append_nil]
        rcases hitems a ⟨t₁, h₁⟩ with hnil | hmem
        · exact Or.inl (by rw [he, hnil, trace])
        · exact Or.inr ⟨_, hmem, he, fun _ => ho.mp rfl⟩
  complete := by
    rintro f xs hxs
    obtain ⟨a, ⟨t₁, h₁⟩, rfl⟩ := hlists xs hxs
    obtain ⟨t₂, o, h₂, hf₂⟩ := exists_runs_agrees (chain a) f
    obtain ⟨he, ho⟩ := hchain a f t₂ o h₂ hf₂
    have hf₁ := hbefore.agrees h₁ f
    have he₁ := hbefore.events_eq_nil h₁
    cases o with
    | returned b =>
      obtain ⟨c, t₃, h₃⟩ := hreach b
      refine ⟨t₁ ++ (t₂ ++ t₃), .returned c, h₁.bind (h₂.bind h₃), ?_, ?_, ho⟩
      · exact agrees_append.mpr ⟨hf₁, agrees_append.mpr ⟨hf₂, (hafter b).agrees h₃ f⟩⟩
      · simp [he₁, he, (hafter b).events_eq_nil h₃]
    | exited n =>
      refine ⟨t₁ ++ t₂, .exited n, h₁.bind (h₂.bind_exited after), ?_, ?_, by simpa using ho⟩
      · exact agrees_append.mpr ⟨hf₁, hf₂⟩
      · simp [he₁, he]

theorem reaches_pure (a : α) : Reaches (pure a : Sh α) a := ⟨[], .ret a⟩

/-- A script that ends with its chain is a stage runner. -/
theorem runner_of_chains_last {before : Sh α} {chain : α → Sh β}
    {lists : List (List (Item Mvn Action))} (items : α → List (Item Mvn Action))
    (hbefore : Quiet before) (hchain : ∀ a, Chains (chain a) (items a))
    (hitems : ∀ a, Reaches before a → items a = [] ∨ items a ∈ lists)
    (hlists : ∀ xs ∈ lists, ∃ a, Reaches before a ∧ items a = xs) :
    Runner (before >>= chain) lists := by
  have h : Runner (before >>= fun a => chain a >>= pure) lists :=
    runner_of_chains items hbefore hchain (fun _ => trivial) (fun b => ⟨b, reaches_pure b⟩) hitems
      hlists
  simpa only [bind_pure] using h

/-- The run of a script against fixed replies reaches the value it returns. -/
theorem reaches_of_exec {p : Sh α} {a : α} (reply : Cmd → Reply)
    (h : (exec (answering reply) p ()).outcome = .returned a) : Reaches p a :=
  ⟨_, h ▸ runs_exec (answering reply) p ()⟩

/-- No stage the runner comes to fails its second attempt. -/
def Recovers (f : Mvn → Attempt → Int) (is : List Mvn) : Prop :=
  ∀ xs i ys, is = xs ++ i :: ys → (∀ j ∈ xs, Passes f j) → f i .first = 2 → f i .second = 0

/-- The runs of the script with the exit codes `f` are gated. -/
def Gates (p : Sh α) (f : Mvn → Attempt → Int) : Prop :=
  ∀ t o, Runs p t o → Agrees f t → Gated (attempts t) (o.isReturned = true)

theorem gated_chain_iff_recovers (f : Mvn → Attempt → Int) (is : List Mvn) :
    Gated (chain f is) (∀ i ∈ is, Passes f i) ↔ Recovers f is := by
  have h := gated_chain_iff f is True
  simp only [and_true, not_true_eq_false, and_false] at h
  rw [h]
  exact forall₃_congr fun xs i ys =>
    forall₃_congr fun _ _ _ => by simp

/-- **Gating of a stage runner**: its runs are gated exactly when no stage they come to fails its
second attempt. -/
theorem Runner.gates_iff {p : Sh α} {lists : List (List (Item Mvn Action))}
    (hp : Runner p lists) (f : Mvn → Attempt → Int) :
    Gates p f ↔ ∀ xs ∈ lists, Recovers f (stages xs) := by
  constructor
  · intro h xs hxs
    obtain ⟨t, o, hrun, hf, he, ho⟩ := hp.complete f xs hxs
    have hg := h t o hrun hf
    rw [attempts, he, attempted_trace, ho] at hg
    exact (gated_chain_iff_recovers f _).mp hg
  · intro h t o hrun hf
    rcases hp.sound f t o hrun hf with he | ⟨xs, hxs, he, ho⟩
    · rw [attempts, he]
      exact gated_nil _
    · rw [attempts, he, attempted_trace]
      exact Gated.mono ((gated_chain_iff_recovers f _).mpr (h xs hxs)) ho

/-- **Bracketing of a stage runner**: `stop` and `start` bracket the stages in `p` in all its runs
exactly when, once it comes to `stop`, it comes to `start`. -/
theorem Runner.bracketed_iff {s : Sh α}
    {parts : List (List (Item Mvn Action) × List (Item Mvn Action))} {p : Mvn → Prop} {stop start : Action}
    (hs : Runner s (parts.map fun xs => xs.1 ++ .act stop :: (xs.2 ++ [.act start])))
    (hne : stop ≠ start) (hbefore : ∀ xs ∈ parts, ∀ i ∈ stages xs.1, ¬ p i)
    (hstop : ∀ xs ∈ parts, .act stop ∉ xs.1 ∧ .act stop ∉ xs.2)
    (hstart : ∀ xs ∈ parts, .act start ∉ xs.2) (f : Mvn → Attempt → Int) :
    (∀ t o, Runs s t o → Agrees f t → Bracketed p stop start (events t)) ↔
      ∀ xs ∈ parts, (∀ i ∈ stages xs.1, Passes f i) → ∀ i ∈ stages xs.2, Passes f i := by
  have hiff : ∀ xs ∈ parts,
      Bracketed p stop start (trace f (xs.1 ++ .act stop :: (xs.2 ++ [.act start]))) ↔
        ((∀ i ∈ stages xs.1, Passes f i) → ∀ i ∈ stages xs.2, Passes f i) := fun xs hxs =>
    bracketed_trace_iff f hne (fun i hi => hbefore xs hxs i (mem_stages hi)) (hstop xs hxs).1
      (hstop xs hxs).2 (hstart xs hxs)
  constructor
  · intro h xs hxs
    obtain ⟨t, o, hrun, hf, he, -⟩ := hs.complete f _ (List.mem_map_of_mem hxs)
    have hb := h t o hrun hf
    rw [he] at hb
    exact (hiff xs hxs).mp hb
  · intro h t o hrun hf
    rcases hs.sound f t o hrun hf with he | ⟨_, hmem, he, -⟩
    · rw [he]
      exact bracketed_nil p stop start
    · obtain ⟨xs, hxs, rfl⟩ := List.mem_map.mp hmem
      rw [he]
      exact (hiff xs hxs).mpr (h xs hxs)

end Avetti
