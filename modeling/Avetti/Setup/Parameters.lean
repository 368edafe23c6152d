import Avetti.Command
import Avetti.Script.Hoare

/-!
# The parameters of setup.sh

`setup.sh` reads at most six arguments: flags, and up to three values for the root password, the
password of the user `avetti` and the host name. It looks at them through
`echo -e "$1\n$2\n$3\n$4\n$5\n$6"`.

## Main definitions

* `Params`: what the parameter phase sets
* `parameters glob args`: the parameter phase, from the option checks to the confirmation
* `paramsOf glob args`: what an accepted argument list sets

## Main results

* `ensures_parameters`: the parameter phase sets what `paramsOf` says
-/

open Script

namespace Avetti

/-- What the parameter phase of `setup.sh` sets: the flags, and the values of the arguments. -/
structure Params where
  nojava : Bool
  nomysql : Bool
  nohttpd : Bool
  mysqlRootPwd : Text
  mysqlAvettiPwd : Text
  appHostName : Text
  deriving DecidableEq

/-- `echo -e "$1\n$2\n$3\n$4\n$5\n$6"`. -/
def argumentLines (args : List Text) : Text :=
  let arg := fun i => (args[i]?).getD []
  Shell.echo ["-e", ("\\n".toList).intercalate [arg 0, arg 1, arg 2, arg 3, arg 4, arg 5]]

/-- The line is one of the words, in any case: `grep -i '^word$\|^word$'`. -/
def isOneOf (ws : List Text) (l : Text) : Bool := Text.lower l ∈ ws

/-- The flags of `setup.sh`. -/
def flags : List Text := ["--nomysql", "--nojava", "--nohttpd"]

/-- `[ ... | grep -i ^flag$ ]`: a flag that is given twice is not found, since `[` then has two
operands. -/
def hasFlag (args : List Text) (flag : Text) : Sh Bool :=
  test (Shell.words Shell.defaultIFS (Text.grep (isOneOf [flag]) (argumentLines args)))

/-- The check of the options: whether the script goes on. -/
def optionsAccepted (args : List Text) : Sh Bool := do
  if ← test (Shell.words Shell.defaultIFS
      (Text.grep (isOneOf ["--help", "-h"]) (argumentLines args))) then
    return false
  let known := Text.grep (isOneOf flags) (argumentLines args) ≠ []
  if Text.grep ("--".toList.isPrefixOf ·) (argumentLines args) ≠ [] ∧ ¬ known then
    return false
  else if Text.grep ("-".toList.isPrefixOf ·) (argumentLines args) ≠ [] ∧ ¬ known then
    return false
  return true

/-- The values among the arguments: the lines that are no flag, as words under `IFS=$'\n'`. -/
def values (glob : Text → List Text) (args : List Text) : List Text :=
  Shell.unquoted glob ['\n'] (Text.grep (fun l => ¬ isOneOf flags l) (argumentLines args))

/-- The passwords and the host name from the values: root password, password of `avetti`, host
name. The four tests are made in turn, and the last one that holds decides. -/
def bindValues (param : List Text) : Text × Text × Text :=
  let p := fun i => (param[i - 1]?).getD []
  let vars := ([], [], [])
  let vars := if p 1 = [] then ([], "avetti".toList, "localhost".toList) else vars
  let vars := if p 1 ≠ [] ∧ p 2 = [] then (p 1, p 1, "localhost".toList) else vars
  let vars := if p 2 ≠ [] ∧ p 3 = [] then (p 1, p 1, p 2) else vars
  if p 3 ≠ [] then (p 1, p 2, p 3) else vars

/-- `[ echo $answer | grep -i '^y$' ]` under `IFS=$'\n'`. -/
def confirmed (glob : Text → List Text) (answer : Text) : Sh Bool :=
  test (Shell.words ['\n'] (Text.grep (isOneOf ["y"])
    (Shell.echo (Shell.unquoted glob ['\n'] answer))))

/-- The parameter phase: option checks, flags, values, and their confirmation. -/
def parameters (glob : Text → List Text) (args : List Text) : Sh Params := do
  if ← optionsAccepted args then
    let nojava ← hasFlag args "--nojava"
    let nomysql ← hasFlag args "--nomysql"
    let nohttpd ← hasFlag args "--nohttpd"
    let (mysqlRootPwd, mysqlAvettiPwd, appHostName) := bindValues (values glob args)
    let answer2 ← ask "answer2"
    if ← confirmed glob answer2 then
      return ⟨nojava, nomysql, nohttpd, mysqlRootPwd, mysqlAvettiPwd, appHostName⟩
    else if ← test (Shell.words ['\n'] (Text.grep (isOneOf ["n"])
        (Shell.echo ("-e".toList :: Shell.unquoted glob ['\n'] answer2)))) then
      leave 0
    else leave 1
  else leave 1

/-! ## The values of the parameters -/

/-- The flag is among the arguments, once. -/
def flagGiven (args : List Text) (flag : Text) : Bool :=
  (Shell.words Shell.defaultIFS (Text.grep (isOneOf [flag]) (argumentLines args))).length = 1

/-- What an accepted argument list sets. -/
def paramsOf (glob : Text → List Text) (args : List Text) : Params where
  nojava := flagGiven args "--nojava"
  nomysql := flagGiven args "--nomysql"
  nohttpd := flagGiven args "--nohttpd"
  mysqlRootPwd := (bindValues (values glob args)).1
  mysqlAvettiPwd := (bindValues (values glob args)).2.1
  appHostName := (bindValues (values glob args)).2.2

/-- The operators of `[`. -/
def testOperators : List Text := fileOperators ++ (["!", "-n", "-z", "!=", "=", "=="] : List Text)

theorem test_of_no_operator {ws : List Text} (hne : ∀ w ∈ ws, w ≠ [])
    (hop : ∀ w ∈ ws, w ∉ testOperators) : test ws = pure (decide (ws.length = 1)) := by
  simp only [testOperators, List.mem_append, List.mem_cons, not_or] at hop
  rcases ws with _ | ⟨a, _ | ⟨b, _ | ⟨c, _ | ⟨d, ws⟩⟩⟩⟩
  · rfl
  · simp [test, hne a]
  · obtain ⟨ha, hnot, hn, hz, -⟩ := hop a List.mem_cons_self
    rw [test, if_neg ha, decide_eq_false (by tauto)]
    rfl
  · obtain ⟨-, -, -, -, hneq, heq, heq', -⟩ := hop b (List.mem_cons_of_mem a List.mem_cons_self)
    rw [test, decide_eq_false (by tauto)]
    rfl
  · rfl

theorem lower_of_mem_words_grep {ifs : List Char} {flag t w : Text} (hnl : '\n' ∈ ifs)
    (hflag : Shell.IsWord ifs flag) (hifs : ∀ c ∈ ifs, c.toLower = c)
    (hw : w ∈ Shell.words ifs (Text.grep (isOneOf [flag]) t)) : Text.lower w = flag := by
  have hlower : ∀ l ∈ (Text.lines t).filter (isOneOf [flag]), Text.lower l = flag := fun l hl => by
    simpa [isOneOf] using (List.mem_filter.mp hl).2
  rw [Text.grep, Shell.words_unlines hnl] at hw
  · exact hlower w hw
  · intro l hl
    refine ⟨?_, fun c hc hcl => hflag.not_mem c hc ?_⟩
    · rintro rfl
      exact hflag.ne_nil (hlower [] hl).symm
    · rw [← hlower l hl, ← hifs c hc]
      exact List.mem_map_of_mem hcl

theorem hasFlag_eq {args : List Text} {flag : Text} (hflag : flag ∈ flags) :
    hasFlag args flag = pure (flagGiven args flag) := by
  have hword : ∀ f ∈ flags, Shell.IsWord Shell.defaultIFS f := by
    have h : ∀ f ∈ flags, f ≠ [] ∧ ∀ c ∈ Shell.defaultIFS, c ∉ f := by decide
    exact fun f hf => ⟨(h f hf).1, (h f hf).2⟩
  have hop : ∀ o ∈ testOperators, Text.lower o ∉ flags := by decide
  refine test_of_no_operator (fun w hw => (Shell.isWord_of_mem_words hw).ne_nil) ?_
  intro w hw hwop
  refine hop w hwop ?_
  rw [lower_of_mem_words_grep (by decide) (hword flag hflag) (by decide) hw]
  exact hflag

/-- The parameter phase sets what `paramsOf` says, whatever is answered. -/
theorem ensures_parameters (S : Cmd → Reply → Prop) (glob : Text → List Text) (args : List Text) :
    Ensures S (· = paramsOf glob args) (parameters glob args) := by
  rw [parameters, hasFlag_eq (by decide), hasFlag_eq (by decide), hasFlag_eq (by decide)]
  simp only [pure_bind']
  refine ensures_seq fun _ => ensures_ite (fun _ => ?_) fun _ => ensures_leave 1
  refine ensures_seq fun _ => ensures_seq fun _ => ensures_ite (fun _ => ?_) fun _ => ?_
  · exact ensures_pure rfl
  · exact ensures_seq fun _ => ensures_ite (fun _ => ensures_leave 0) fun _ => ensures_leave 1

end Avetti
