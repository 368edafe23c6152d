import Avetti.Maintenance.Confirmations
import Avetti.Setup.Subversion

/-!
# The credentials of the repository in setup.bat

`setup.bat` asks for the credentials in one of two branches, which keep them in variables of
different names, and calls the steps of the installation. `setup-step4.bat` checks out the code with
the variables of one of the branches, which it finds in the environment of the console.

## Main definitions

* `Env`: the environment of a console
* `setupBat`, `setupStep4`: the batch files, as far as the credentials and their steps go
* `batchCommands`: how `cmd` reads a command line whose words stand for themselves
* `PlainConsole x`: the condition on the environment after the questions

## Main results

* `ensures_askVersion`: the environment after the questions
-/

open Script

namespace Avetti

/-! ## The batch files -/

/-- The environment of a console: the value of each variable, which is empty when the variable is
not defined. -/
abbrev Env := Text → Text

/-- `SET /P var`. -/
def setP (var : Text) (env : Env) : Sh Env := do
  let value ← prompt var (env var)
  return Function.update env var value

/-- A command line of a batch file, after the expansion of its variables; the `errorlevel` it
leaves. -/
def commandLine (line : Text) : Sh Int := run [line]

/-- A command line whose failure ends the batch file with its `errorlevel`. -/
def callStep (line : Text) : Sh Unit := do
  let errorlevel ← commandLine line
  ifThen (errorlevel ≠ 0) (leave errorlevel)

/-- `svn info` for a user, a password and a path. -/
def svnInfoLine (user password path : Text) : Text :=
  "svn info --no-auth-cache --trust-server-cert --non-interactive --username=".toList ++ user ++
    " --password=".toList ++ password ++ " ".toList ++ repository path

/-- `svn checkout` for a user, a password and an address. -/
def svnCheckoutLine (user password url : Text) : Text :=
  "svn checkout --trust-server-cert --non-interactive --no-auth-cache --username=".toList ++ user ++
    " --password=".toList ++ password ++ " ".toList ++ url

/-- The client is there, and the credentials are verified. -/
def verifySvn (user password path : Text) : Sh Unit := do
  let errorlevel ← commandLine "svn --version"
  ifThen (errorlevel ≠ 0) (leave 1)
  let errorlevel ← commandLine (svnInfoLine user password path)
  ifThen (errorlevel ≠ 0) (leave 1)

/-- `:YES`: the default version. -/
def answeredYes (env : Env) : Sh (Env × Text) := do
  let env ← setP "svnuser" env
  let env ← setP "svnpassword" env
  verifySvn (env "svnuser") (env "svnpassword") defaultPath
  return (env, defaultPath)

/-- `:NO`: the version that is typed. -/
def answeredNo (env : Env) : Sh (Env × Text) := do
  let env ← setP "diffcode" env
  let env ← setP "avettisvnuser" env
  let env ← setP "avettisvnpassword" env
  verifySvn (env "avettisvnuser") (env "avettisvnpassword") (env "diffcode")
  return (env, env "diffcode")

/-- The questions: the environment after them, and `version_to_install`. -/
def askVersion (env : Env) : Sh (Env × Text) := do
  let env ← setP "useParam" env
  if env "useParam" ≠ "y".toList ∧ env "useParam" ≠ "Y".toList then leave 0
  else
    let env ← setP "ANSWER" env
    if Text.lower (env "ANSWER") = "y".toList then answeredYes env
    else if Text.lower (env "ANSWER") = "n".toList then answeredNo env
    else leave 1

/-- The password of `avetti` and the host name, from the arguments. -/
def batParameters (args : List Text) : Text × Text :=
  let arg n := (args[n]?).getD []
  if arg 2 ≠ [] then (arg 1, arg 2)
  else if arg 1 ≠ [] then (arg 0, arg 1)
  else (arg 0, "localhost".toList)

/-- The call of the fourth step. -/
def step4Line (env : Env) (version : Text) : Text :=
  "CALL setup-step4.bat ".toList ++ version ++ " ".toList ++ env "avettisvnuser" ++ " ".toList ++
    env "avettisvnpassword"

/-- The characters between the arguments of a batch file. -/
def argumentSeparators : List Char := [' ', '\t', ',', ';', '=']

/-- `setup-step4.bat` with its first argument; the `errorlevel` it leaves. The credentials are those
of the environment. -/
def setupStep4 (env : Env) (arg : Option Text) : Sh Int :=
  arg.elim (pure 1) fun version => do
    let codeNum := lastComponent version (env "comp")
    let errorlevel ← commandLine "cd \\avetti\\svn"
    if errorlevel ≠ 0 then return errorlevel
    else
      let _ ← commandLine (svnCheckoutLine (env "avettisvnuser") (env "avettisvnpassword")
        (repository version))
      let _ ← commandLine (svnCheckoutLine "avetti-lgpl-access" "avetti-lgpl-access" lgplRepository)
      if ← fileTest "-e" codeNum then commandLine ("cd ".toList ++ env "CD")
      else
        let _ ← commandLine ("cd ".toList ++ env "CD")
        return 1

/-- `:CONTINUE`: the steps. -/
def installBat (args : List Text) (env : Env) (version : Text) : Sh Unit := do
  let rootPassword := (args[0]?).getD []
  let (avettiPassword, apphostname) := batParameters args
  let _ ← commandLine "verify"
  callStep ("CALL setup-step1.bat ".toList ++ rootPassword ++ " ".toList ++ avettiPassword)
  callStep "CALL setup-step2.bat"
  callStep ("CALL setup-step3.bat ".toList ++ apphostname ++ " ".toList ++ version)
  let line := step4Line env version
  let _ ← commandLine line
  let errorlevel ← setupStep4 env
    (Shell.words argumentSeparators (line.drop "CALL setup-step4.bat".length)).head?
  ifThen (errorlevel ≠ 0) (leave errorlevel)
  callStep ("CALL setup-step5.bat ".toList ++ apphostname ++ " ".toList ++ avettiPassword ++
    " ".toList ++ version)

/-- `setup.bat`. -/
def setupBat (env : Env) (args : List Text) : Sh Unit := do
  ifThen ((args[0]?).getD [] = []) (leave 0)
  let errorlevel ← commandLine "net session"
  ifThen (errorlevel ≠ 0) (leave 1)
  let x ← askVersion env
  installBat args x.1 x.2

/-! ## Command lines -/

/-- The characters that quote, escape, expand, redirect, group or separate on a command line. -/
def batchOperators : Text := "\"&|<>()^%!\n"

/-- The words of a command line. -/
def batchWords (line : Text) : List Text := Shell.words [' ', '\t'] line

/-- The commands of a command line, where `other` gives those of a line with another meaning. -/
def batchCommands (other : Text → List (List Text)) (line : Text) : List (List Text) :=
  if ∀ c ∈ line, c ∉ batchOperators then [batchWords line] else other line

/-- `svn info` with a user and a password. -/
def batInfoCommand (user password : Text) (rest : List Text) : List Text :=
  ["svn".toList, "info".toList, "--no-auth-cache".toList, "--trust-server-cert".toList,
    "--non-interactive".toList, "--username=".toList ++ user, "--password=".toList ++ password] ++
    rest

/-- `svn checkout` with a user and a password. -/
def batCheckoutCommand (user password : Text) (rest : List Text) : List Text :=
  ["svn".toList, "checkout".toList, "--trust-server-cert".toList, "--non-interactive".toList,
    "--no-auth-cache".toList, "--username=".toList ++ user, "--password=".toList ++ password] ++ rest

/-- The line of the checkout of the LGPL software. -/
def lgplLine : Text := svnCheckoutLine "avetti-lgpl-access" "avetti-lgpl-access" lgplRepository

/-- The line is a checkout. -/
def isCheckout (line : Text) : Bool := "svn checkout ".toList.isPrefixOf line

/-- The line is the call of the fourth step. -/
def isStep4 (line : Text) : Bool := "CALL setup-step4.bat ".toList.isPrefixOf line

/-! ## After the questions -/

/-- The entries after the questions. -/
def Entered (entries : Env) : Cmd → Reply → Prop
  | .read var, r => r.out = entries var
  | _, _ => True

/-- The environment after a question. -/
def Env.enter (env entries : Env) (var : Text) : Env :=
  Function.update env var (entered (env var) (entries var))

/-- The environment after the first two questions. -/
def Env.answers (env entries : Env) : Env := (env.enter entries "useParam").enter entries "ANSWER"

/-- The environment after all questions, and `version_to_install`. -/
def afterQuestions (entries env : Env) : Env × Text :=
  let env := env.answers entries
  if Text.lower (env "ANSWER") = "y".toList then
    ((env.enter entries "svnuser").enter entries "svnpassword", defaultPath)
  else
    let env := ((env.enter entries "diffcode").enter entries "avettisvnuser").enter entries
      "avettisvnpassword"
    (env, env "diffcode")

/-- The user and the password that are verified. -/
def verified (env : Env) : Text × Text :=
  if Text.lower (env "ANSWER") = "y".toList then (env "svnuser", env "svnpassword")
  else (env "avettisvnuser", env "avettisvnpassword")

@[simp] theorem commandLine_bind {α : Type} (line : Text) (k : Int → Sh α) :
    (commandLine line >>= k) = call (.run [line]) fun r => k r.status := rfl

section Questions

variable {entries : Env} (env : Env)

theorem setP_bind {α : Type} (var : Text) (k : Env → Sh α) : (setP var env >>= k) =
    call (.read var) fun r => k (Function.update env var (entered (env var) r.out)) := rfl

theorem ensures_setP (var : Text) : Ensures (Entered entries) (· = env.enter entries var)
    (setP var env) := by
  refine ensures_call fun r hr => ensures_pure ?_
  have hentry : r.out = entries var := hr
  rw [hentry]
  rfl

/-- **The environment after the questions** is what the entries make of the one before them. -/
theorem ensures_askVersion :
    Ensures (Entered entries) (· = afterQuestions entries env) (askVersion env) := by
  have hyes : ∀ env : Env, Ensures (Entered entries)
      (· = ((env.enter entries "svnuser").enter entries "svnpassword", defaultPath))
      (answeredYes env) := by
    intro env
    refine ensures_bind (ensures_setP env _) fun env₁ h₁ => ?_
    refine ensures_bind (ensures_setP env₁ _) fun env₂ h₂ => ensures_seq fun _ => ensures_pure ?_
    rw [h₂, h₁]
  have hno : ∀ env : Env, Ensures (Entered entries)
      (· = (((env.enter entries "diffcode").enter entries "avettisvnuser").enter entries
        "avettisvnpassword", ((env.enter entries "diffcode").enter entries "avettisvnuser").enter
          entries "avettisvnpassword" "diffcode")) (answeredNo env) := by
    intro env
    refine ensures_bind (ensures_setP env _) fun env₁ h₁ => ?_
    refine ensures_bind (ensures_setP env₁ _) fun env₂ h₂ => ?_
    refine ensures_bind (ensures_setP env₂ _) fun env₃ h₃ => ensures_seq fun _ => ensures_pure ?_
    rw [h₃, h₂, h₁]
  refine ensures_bind (ensures_setP env _) fun env₁ h₁ => ensures_ite (fun _ => ensures_leave 0) ?_
  refine fun _ => ensures_bind (ensures_setP env₁ _) fun env₂ h₂ => ?_
  -- the environment with the answers to both questions
  have hanswers : env₂ = env.answers entries := by rw [h₂, h₁, Env.answers]
  refine ensures_ite (fun hy => ?_) fun hy => ensures_ite (fun _ => ?_) fun _ => ensures_leave 1
  · refine (hyes env₂).mono fun x hx => ?_
    rw [hanswers] at hx hy
    rw [hx, afterQuestions, if_pos hy]
  · refine (hno env₂).mono fun x hx => ?_
    rw [hanswers] at hx hy
    rw [hx, afterQuestions, if_neg hy]

/-- The event is a successful `svn info` for the credentials that are verified. -/
def VerifiesBat (x : Env × Text) (e : Cmd × Reply) : Prop :=
  e.1 = .run [svnInfoLine (verified x.1).1 (verified x.1).2 x.2] ∧ e.2.status = 0

theorem visits_verifySvn (user password path : Text) :
    Visits (fun _ e => e.1 = .run [svnInfoLine user password path] ∧ e.2.status = 0)
      (verifySvn user password path) := by
  refine visits_seq fun _ => visits_seq fun _ => ?_
  intro t u hrun
  obtain ⟨r, t', rfl, h⟩ := runs_call_iff.mp hrun
  refine ⟨_, List.mem_cons_self, rfl, ?_⟩
  have htest : Runs (ifThen (decide (r.status ≠ 0)) (leave 1)) t' (.returned u) := h
  by_contra hstatus
  rw [decide_eq_true hstatus] at htest
  obtain ⟨-, hexit⟩ := runs_exit_iff.mp htest
  cases hexit

/-- **Before the steps** the credentials have been verified. -/
theorem visits_askVersion : Visits VerifiesBat (askVersion env) := by
  have hyes : ∀ env : Env, Text.lower (env "ANSWER") = "y".toList →
      Visits VerifiesBat (answeredYes env) := by
    intro env hy
    simp only [answeredYes, setP_bind]
    refine visits_call fun r => visits_call fun r' => ?_
    generalize hfinal : Function.update (Function.update env _ _) _ _ = final
    -- the entries do not change the answer
    have hverified : verified final = (final "svnuser", final "svnpassword") := by
      refine if_pos ?_
      rw [← hfinal, Function.update_of_ne (by decide), Function.update_of_ne (by decide), hy]
    refine visits_bind (visits_verifySvn _ _ _) fun _ => ensures_pure fun e he => ?_
    rw [VerifiesBat, hverified]
    exact he
  have hno : ∀ env : Env, Text.lower (env "ANSWER") ≠ "y".toList →
      Visits VerifiesBat (answeredNo env) := by
    intro env hy
    simp only [answeredNo, setP_bind]
    refine visits_call fun r => visits_call fun r' => visits_call fun r'' => ?_
    generalize hfinal : Function.update (Function.update (Function.update env _ _) _ _) _ _ = final
    have hverified : verified final = (final "avettisvnuser", final "avettisvnpassword") := by
      refine if_neg ?_
      rw [← hfinal, Function.update_of_ne (by decide), Function.update_of_ne (by decide),
        Function.update_of_ne (by decide)]
      exact hy
    refine visits_bind (visits_verifySvn _ _ _) fun _ => ensures_pure fun e he => ?_
    rw [VerifiesBat, hverified]
    exact he
  refine visits_seq fun env₁ => visits_ite (fun _ => visits_leave 0) fun _ => ?_
  refine visits_seq fun env₂ => visits_ite (hyes env₂) fun hy => ?_
  exact visits_ite (fun _ => hno env₂ hy) fun _ => visits_leave 1

end Questions

/-! ## Plain lines -/

/-- Nothing in the credentials that are verified, in those of the environment, or in the path has a
meaning of its own on a command line. -/
structure PlainConsole (x : Env × Text) : Prop where
  verifiedUser : ∀ c ∈ (verified x.1).1, c ∉ batchOperators ++ [' ', '\t']
  verifiedPassword : ∀ c ∈ (verified x.1).2, c ∉ batchOperators ++ [' ', '\t']
  user : ∀ c ∈ x.1 "avettisvnuser", c ∉ batchOperators ++ [' ', '\t']
  password : ∀ c ∈ x.1 "avettisvnpassword", c ∉ batchOperators ++ [' ', '\t']
  path : ∀ c ∈ x.2, c ∉ batchOperators
  address : NoOption (batchWords (repository x.2))

/-- A line with a user, a password and an address. -/
def credentialLine (base user password url : Text) : Text :=
  base ++ ' ' :: ("--username=".toList ++ user) ++ ' ' :: ("--password=".toList ++ password) ++
    ' ' :: url

/-- The line of `svn info` before the credentials. -/
def infoBase : Text := "svn info --no-auth-cache --trust-server-cert --non-interactive"

/-- The line of the checkout before the credentials. -/
def batCheckoutBase : Text := "svn checkout --trust-server-cert --non-interactive --no-auth-cache"

theorem svnInfoLine_eq (user password path : Text) : svnInfoLine user password path =
    credentialLine infoBase user password (repository path) := by
  unfold svnInfoLine credentialLine infoBase
  generalize repository path = url
  simp

theorem svnCheckoutLine_eq (user password url : Text) : svnCheckoutLine user password url =
    credentialLine batCheckoutBase user password url := by
  unfold svnCheckoutLine credentialLine batCheckoutBase
  simp

section Lines

variable {other : Text → List (List Text)} {base user password url : Text}

theorem batchCommands_of_plain {line : Text} (h : ∀ c ∈ line, c ∉ batchOperators) :
    batchCommands other line = [batchWords line] := if_pos h

theorem isWord_option {name value : Text} (hname : name ≠ [])
    (hplain : ∀ c ∈ name, c ∉ batchOperators ++ [' ', '\t'])
    (hvalue : ∀ c ∈ value, c ∉ batchOperators ++ [' ', '\t']) :
    Shell.IsWord [' ', '\t'] (name ++ value) := by
  refine ⟨List.append_ne_nil_of_left_ne_nil hname value, fun c hc hmem => ?_⟩
  rcases List.mem_append.mp hmem with hmem | hmem
  · exact hplain c hmem (List.mem_append_right _ hc)
  · exact hvalue c hmem (List.mem_append_right _ hc)

/-- A line with a plain user and a plain password passes each of them as one argument. -/
theorem batchCommands_credentialLine (hbase : ∀ c ∈ base, c ∉ batchOperators)
    (huser : ∀ c ∈ user, c ∉ batchOperators ++ [' ', '\t'])
    (hpassword : ∀ c ∈ password, c ∉ batchOperators ++ [' ', '\t'])
    (hurl : ∀ c ∈ url, c ∉ batchOperators) :
    batchCommands other (credentialLine base user password url) =
      [batchWords base ++ [("--username=".toList ++ user), ("--password=".toList ++ password)] ++
        batchWords url] := by
  have hoption : ∀ {name value : Text}, (∀ c ∈ name, c ∉ batchOperators ++ [' ', '\t']) →
      (∀ c ∈ value, c ∉ batchOperators ++ [' ', '\t']) →
      ∀ c ∈ ' ' :: (name ++ value), c ∉ batchOperators := by
    intro name value hname hvalue
    refine List.forall_mem_cons.mpr ⟨by decide, List.forall_mem_append.mpr ⟨?_, ?_⟩⟩
    · exact fun c hc h => hname c hc (List.mem_append_left _ h)
    · exact fun c hc h => hvalue c hc (List.mem_append_left _ h)
  have hu : ∀ c ∈ "--username=".toList, c ∉ batchOperators ++ [' ', '\t'] := by decide
  have hp : ∀ c ∈ "--password=".toList, c ∉ batchOperators ++ [' ', '\t'] := by decide
  have hplain : ∀ c ∈ credentialLine base user password url, c ∉ batchOperators := by
    refine List.forall_mem_append.mpr ⟨?_, List.forall_mem_cons.mpr ⟨by decide, hurl⟩⟩
    refine List.forall_mem_append.mpr ⟨?_, hoption hp hpassword⟩
    exact List.forall_mem_append.mpr ⟨hbase, hoption hu huser⟩
  have hblank : ' ' ∈ [' ', '\t'] := by decide
  rw [batchCommands_of_plain hplain, credentialLine, batchWords,
    Shell.words_append_separator hblank, Shell.words_append_separator hblank,
    Shell.words_append_separator hblank, Shell.words_of_isWord (isWord_option (by decide) hu huser),
    Shell.words_of_isWord (isWord_option (by decide) hp hpassword)]
  simp only [batchWords, List.append_assoc, List.cons_append, List.nil_append]

end Lines

/-! ## Runs of the batch file -/

section Runs

variable {x : Env × Text}

/-- The command is no checkout, and does not call the fourth step. -/
def Cmd.IsAside (c : Cmd) : Prop :=
  ∀ line, c = .run [line] → isCheckout line = false ∧ isStep4 line = false

/-- A checkout is one of the LGPL software, or one of the code with the credentials of the
environment; the fourth step is called with the version. -/
def Cmd.IsStep (x : Env × Text) (c : Cmd) : Prop :=
  ∀ line, c = .run [line] →
    (isCheckout line = true → line = lgplLine ∨
      ∃ version, (∀ c ∈ version, c ∉ batchOperators ++ [' ', '\t']) ∧
        line = svnCheckoutLine (x.1 "avettisvnuser") (x.1 "avettisvnpassword") (repository version)) ∧
    (isStep4 line = true → line = step4Line x.1 x.2)

theorem Cmd.IsAside.isStep {c : Cmd} (hc : c.IsAside) : c.IsStep x := by
  intro line h
  obtain ⟨hcheckout, hstep⟩ := hc line h
  rw [hcheckout, hstep]
  exact ⟨nofun, nofun⟩

theorem isAside_line {line : Text} (hcheckout : isCheckout line = false)
    (hstep : isStep4 line = false) : (Cmd.run [line]).IsAside := by
  rintro _ ⟨⟩
  exact ⟨hcheckout, hstep⟩

/-- The part of the batch file before its steps. -/
def beforeSteps (env : Env) (args : List Text) : Sh (Env × Text) := do
  ifThen ((args[0]?).getD [] = []) (leave 0)
  let errorlevel ← commandLine "net session"
  ifThen (errorlevel ≠ 0) (leave 1)
  askVersion env

theorem setupBat_eq (env : Env) (args : List Text) :
    setupBat env args = beforeSteps env args >>= fun x => installBat args x.1 x.2 := by
  simp only [setupBat, beforeSteps, bind_assoc]

theorem isAside_beforeSteps (env : Env) (args : List Text) :
    Emits (fun c _ => c.IsAside) (beforeSteps env args) := by
  have hsetP : ∀ var (env : Env), Emits (fun c _ => c.IsAside) (setP var env) := fun var env =>
    emits_call (fun _ _ h => by cases h) fun _ => trivial
  have hexit : ∀ (b : Bool) n, Emits (fun c _ => c.IsAside) (ifThen b (leave n)) := fun _ _ =>
    emits_ite trivial trivial
  have hverify : ∀ user password path,
      Emits (fun c _ => c.IsAside) (verifySvn user password path) := by
    intro user password path
    simp only [verifySvn, commandLine_bind]
    refine emits_call (fun _ => isAside_line rfl rfl) fun _ => emits_bind (hexit _ _) fun _ => ?_
    exact emits_call (fun _ => isAside_line rfl rfl) fun _ => hexit _ _
  have hyes : ∀ env : Env, Emits (fun c _ => c.IsAside) (answeredYes env) := fun env =>
    emits_bind (hsetP _ _) fun _ => emits_bind (hsetP _ _) fun _ =>
      emits_bind (hverify _ _ _) fun _ => trivial
  have hno : ∀ env : Env, Emits (fun c _ => c.IsAside) (answeredNo env) := fun env =>
    emits_bind (hsetP _ _) fun _ => emits_bind (hsetP _ _) fun _ => emits_bind (hsetP _ _) fun _ =>
      emits_bind (hverify _ _ _) fun _ => trivial
  simp only [beforeSteps, commandLine_bind]
  refine emits_bind (hexit _ _) fun _ => emits_call (fun _ => isAside_line rfl rfl) fun _ => ?_
  refine emits_bind (hexit _ _) fun _ => emits_bind (hsetP _ _) fun _ => emits_ite trivial ?_
  exact emits_bind (hsetP _ _) fun _ => emits_ite (hyes _) (emits_ite (hno _) trivial)

theorem plain_step4Line (hx : PlainConsole x) :
    ∀ c ∈ step4Line x.1 x.2, c ∉ batchOperators := by
  have hblank : ∀ c ∈ " ".toList, c ∉ batchOperators := by decide
  refine List.forall_mem_append.mpr ⟨?_, fun c hc h => hx.password c hc (List.mem_append_left _ h)⟩
  refine List.forall_mem_append.mpr ⟨?_, hblank⟩
  refine List.forall_mem_append.mpr ⟨?_, fun c hc h => hx.user c hc (List.mem_append_left _ h)⟩
  refine List.forall_mem_append.mpr ⟨List.forall_mem_append.mpr ⟨?_, hx.path⟩, hblank⟩
  decide

/-- The first argument of the fourth step is a plain word. -/
theorem plain_of_head?_step4Line (hx : PlainConsole x) {version : Text}
    (h : (Shell.words argumentSeparators
      ((step4Line x.1 x.2).drop "CALL setup-step4.bat".length)).head? = some version) :
    ∀ c ∈ version, c ∉ batchOperators ++ [' ', '\t'] := by
  have hmem := List.mem_of_mem_head? h
  intro c hc hbad
  rcases List.mem_append.mp hbad with hoperator | hblank
  · have hline := List.mem_of_mem_drop ((Shell.occurs_of_mem_words hmem).subset hc)
    exact plain_step4Line hx c hline hoperator
  · have hseparators : [' ', '\t'] ⊆ argumentSeparators := by decide
    exact (Shell.isWord_of_mem_words hmem).not_mem c (hseparators hblank) hc

theorem isStep_installBat (hx : PlainConsole x) (args : List Text) :
    Emits (fun c _ => c.IsStep x) (installBat args x.1 x.2) := by
  have hexit : ∀ (b : Bool) n, Emits (fun c _ => c.IsStep x) (ifThen b (leave n)) := fun _ _ =>
    emits_ite trivial trivial
  have haside : ∀ {line}, isCheckout line = false → isStep4 line = false →
      (Cmd.run [line]).IsStep x := fun h h' => (isAside_line h h').isStep
  have hcall : ∀ {line}, isCheckout line = false → isStep4 line = false →
      Emits (fun c _ => c.IsStep x) (callStep line) := fun h h' =>
    emits_call (fun _ => haside h h') fun _ => hexit _ _
  have hlgpl : (Cmd.run [lgplLine]).IsStep x := by
    rintro _ ⟨⟩
    exact ⟨fun _ => Or.inl rfl, nofun⟩
  have hstep4 : ∀ arg : Option Text,
      (∀ version, arg = some version → ∀ c ∈ version, c ∉ batchOperators ++ [' ', '\t']) →
      Emits (fun c _ => c.IsStep x) (setupStep4 x.1 arg) := by
    intro arg harg
    cases arg with
    | none => exact trivial
    | some version =>
      have hcode : (Cmd.run [svnCheckoutLine (x.1 "avettisvnuser") (x.1 "avettisvnpassword")
          (repository version)]).IsStep x := by
        rintro _ ⟨⟩
        exact ⟨fun _ => Or.inr ⟨version, harg version rfl, rfl⟩, nofun⟩
      simp only [setupStep4, Option.elim_some, commandLine_bind, fileTest_bind]
      refine emits_call (fun _ => haside rfl rfl) fun _ => emits_ite trivial ?_
      refine emits_call (fun _ => hcode) fun _ => emits_call (fun _ => hlgpl) fun _ => ?_
      refine emits_call (fun _ _ h => by cases h) fun _ => emits_ite ?_ ?_
      · exact emits_call (fun _ => haside rfl rfl) fun _ => trivial
      · exact emits_call (fun _ => haside rfl rfl) fun _ => trivial
  have hline : (Cmd.run [step4Line x.1 x.2]).IsStep x := by
    rintro _ ⟨⟩
    exact ⟨nofun, fun _ => rfl⟩
  simp only [installBat, commandLine_bind]
  refine emits_call (fun _ => haside rfl rfl) fun _ => emits_bind (hcall rfl rfl) fun _ => ?_
  refine emits_bind (hcall rfl rfl) fun _ => emits_bind (hcall rfl rfl) fun _ => ?_
  refine emits_call (fun _ => hline) fun _ => emits_bind (hstep4 _ fun version hversion => ?_) ?_
  · exact plain_of_head?_step4Line hx hversion
  · exact fun _ => emits_bind (hexit _ _) fun _ => hcall rfl rfl

theorem plain_repository {path : Text} (h : ∀ c ∈ path, c ∉ batchOperators) :
    ∀ c ∈ repository path, c ∉ batchOperators :=
  List.forall_mem_append.mpr ⟨by decide, h⟩

theorem commands_infoLine (hx : PlainConsole x) {other : Text → List (List Text)} :
    batchCommands other (svnInfoLine (verified x.1).1 (verified x.1).2 x.2) =
      [batInfoCommand (verified x.1).1 (verified x.1).2 (batchWords (repository x.2))] := by
  have hbase : batchWords infoBase = ["svn".toList, "info".toList, "--no-auth-cache".toList,
      "--trust-server-cert".toList, "--non-interactive".toList] := by decide
  rw [svnInfoLine_eq, batchCommands_credentialLine (by decide) hx.verifiedUser
    hx.verifiedPassword (plain_repository hx.path), hbase]
  rfl

section Version

variable {version : Text}

theorem batchWords_repository (hversion : ∀ c ∈ version, c ∉ batchOperators ++ [' ', '\t']) :
    batchWords (repository version) = [repository version] :=
  Shell.words_of_isWord (isWord_option (by decide) (by decide) hversion)

theorem noOption_repository (hversion : ∀ c ∈ version, c ∉ batchOperators ++ [' ', '\t']) :
    NoOption (batchWords (repository version)) := by
  rw [batchWords_repository hversion]
  exact List.forall_mem_singleton.mpr fun hhead => by cases hhead

theorem commands_codeLine (hx : PlainConsole x)
    (hversion : ∀ c ∈ version, c ∉ batchOperators ++ [' ', '\t'])
    {other : Text → List (List Text)} :
    batchCommands other (svnCheckoutLine (x.1 "avettisvnuser") (x.1 "avettisvnpassword")
        (repository version)) =
      [batCheckoutCommand (x.1 "avettisvnuser") (x.1 "avettisvnpassword")
        (batchWords (repository version))] := by
  have hbase : batchWords batCheckoutBase = ["svn".toList, "checkout".toList,
      "--trust-server-cert".toList, "--non-interactive".toList, "--no-auth-cache".toList] := by
    decide
  have hplain : ∀ c ∈ version, c ∉ batchOperators :=
    fun c hc h => hversion c hc (List.mem_append_left _ h)
  rw [svnCheckoutLine_eq, batchCommands_credentialLine (by decide) hx.user
    hx.password (plain_repository hplain), hbase]
  rfl

end Version

end Runs

end Avetti
