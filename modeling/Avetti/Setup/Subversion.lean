import Avetti.Setup.Checkout
import Avetti.Text.CommandLine

/-!
# The credentials of the repository in setup.sh

`svn info` gets the user and the password as words of the script, and the checkout gets them in a
text that the shell of the user `avetti` reads once more.

## Main definitions

* `svnInfoCommand`, `svnCheckoutCommand`: the commands with a user and a password
* `UsesVerified sh t`: in the run `t` the checkout of the code uses the credentials of a successful
  `svn info`, where `sh` says how the second shell reads its command line
* `PlainOption`, `PlainAddress`: the words that both shells leave as they are

## Main results

* `commands_checkoutLine`: how the second shell reads the line with plain words
* `usesVerified_setup`: with plain credentials the verified ones are used
-/

open Script

namespace Avetti

/-! ## The commands -/

/-- `svn info` with a user and a password. -/
def svnInfoCommand (user password : Text) (rest : List Text) : List Text :=
  ["svn".toList, "info".toList, "--no-auth-cache".toList, "--trust-server-cert".toList,
    "--non-interactive".toList, "--username=".toList ++ user, "--password=".toList ++ password] ++
    rest

/-- `svn checkout` with a user and a password. -/
def svnCheckoutCommand (user password : Text) (rest : List Text) : List Text :=
  ["svn".toList, "checkout".toList, "--config-dir".toList, "/home/avetti/.subversion".toList,
    "--no-auth-cache".toList, "--non-interactive".toList, "--trust-server-cert".toList,
    "--username=".toList ++ user, "--password=".toList ++ password] ++ rest

/-- The command line of a checkout. -/
def checkoutLine (options url : Text) : Text :=
  "cd /avetti/svn; svn checkout --config-dir /home/avetti/.subversion --no-auth-cache ".toList ++
    "--non-interactive --trust-server-cert ".toList ++ options ++ " ".toList ++ url

/-- The words of a command whose command line is read by the shell of the user `avetti`. -/
def suWords (line : Text) : List Text := ["su".toList, "-".toList, "avetti".toList, "-c".toList, line]

/-- The words are an address, not another option. -/
def NoOption (ws : List Text) : Prop := ∀ w ∈ ws, w.head? ≠ some '-'

/-- **The verified credentials are used**: before a checkout of the code, an `svn info` succeeded
with the user and the password that the checkout gets as single arguments, and no other command is
run with it. -/
def UsesVerified (sh : Text → List (List Text)) (t : Trace) : Prop :=
  ∀ pre line r post, t = pre ++ (.run (suWords line), r) :: post →
    line ≠ checkoutLine lgplOptions lgplRepository →
    ∃ user password rest rest' r', (.run (svnInfoCommand user password rest), r') ∈ pre ∧
      r'.status = 0 ∧ NoOption rest ∧ NoOption rest' ∧
      sh line = [["cd".toList, "/avetti/svn".toList], svnCheckoutCommand user password rest']

/-! ## Plain words -/

/-- The option is one word for both shells, and stands for itself. -/
structure PlainOption (glob glob' : Text → List Text) (w : Text) : Prop where
  chars : ∀ c ∈ w, c ∉ Shell.operators ++ [';', ' ', '\t']
  inert : Shell.isInert w = true
  first : Shell.expand glob w = [w]
  second : Shell.expand glob' w = [w]

/-- The address of the path is one word for the first shell, and words that stand for themselves for
the second one. -/
structure PlainAddress (glob glob' : Text → List Text) (path : Text) : Prop where
  chars : ∀ c ∈ path, c ∉ Shell.operators ++ [';']
  inert : ∀ w ∈ Shell.words Shell.defaultIFS (repository path), Shell.isInert w = true
  first : Shell.expand glob (repository path) = [repository path]
  second : ∀ w ∈ Shell.words Shell.defaultIFS (repository path), Shell.expand glob' w = [w]
  noOption : NoOption (Shell.words Shell.defaultIFS (repository path))

section Words

variable {glob glob' : Text → List Text}

theorem PlainOption.isWord {w : Text} (h : PlainOption glob glob' w) (hne : w ≠ []) :
    Shell.IsWord Shell.defaultIFS w := by
  refine ⟨hne, fun c hc hmem => h.chars c hmem ?_⟩
  have hsubset : Shell.defaultIFS ⊆ Shell.operators ++ [';', ' ', '\t'] := by decide
  exact hsubset hc

/-- A plain option is one word of the first shell. -/
theorem PlainOption.unquotedVar {pre x : Text} (h : PlainOption glob glob' (pre ++ x))
    (hne : pre ++ x ≠ []) : unquotedVar glob pre x = [pre ++ x] := by
  have hword : Shell.IsWord ['\n'] (pre ++ x) := by
    refine ⟨hne, fun c hc hmem => h.chars c hmem ?_⟩
    have hsubset : ['\n'] ⊆ Shell.operators ++ [';', ' ', '\t'] := by decide
    exact hsubset hc
  rw [Avetti.unquotedVar, Shell.unquoted, Shell.words_of_isWord hword, List.flatMap_singleton,
    h.first]

/-- A plain address is one word of the first shell. -/
theorem PlainAddress.unquotedVar {path : Text} (h : PlainAddress glob glob' path) :
    unquotedVar glob (repository []) path = [repository path] := by
  have hrepository : repository [] ++ path = repository path := by
    unfold repository
    rw [List.append_nil]
  have hbase : ∀ c ∈ repository [], c ∉ ['\n'] := by decide
  have hne : repository [] ≠ [] := by decide
  have hword : Shell.IsWord ['\n'] (repository path) := by
    rw [← hrepository]
    refine ⟨List.append_ne_nil_of_left_ne_nil hne path, fun c hc hmem => ?_⟩
    rcases List.mem_append.mp hmem with hmem | hmem
    · exact hbase c hmem hc
    · have hsubset : ['\n'] ⊆ Shell.operators ++ [';'] := by decide
      exact h.chars c hmem (hsubset hc)
  rw [Avetti.unquotedVar, hrepository, Shell.unquoted, Shell.words_of_isWord hword,
    List.flatMap_singleton, h.first]

/-- The part of the command line before the credentials. -/
def checkoutBase : Text :=
  " svn checkout --config-dir /home/avetti/.subversion --no-auth-cache ".toList ++
    "--non-interactive --trust-server-cert".toList

/-- The words of the command line before the credentials. -/
def checkoutWords : List Text :=
  ["svn".toList, "checkout".toList, "--config-dir".toList, "/home/avetti/.subversion".toList,
    "--no-auth-cache".toList, "--non-interactive".toList, "--trust-server-cert".toList]

/-- The part of the command line from `svn` on, with the words of the credentials. -/
def checkoutTail (user password url : Text) : Text :=
  checkoutBase ++ ' ' :: (user ++ ' ' :: (password ++ ' ' :: url))

theorem checkoutLine_eq (user password url : Text) :
    checkoutLine ("--username=".toList ++ user ++ " --password=".toList ++ password) url =
      "cd /avetti/svn".toList ++ ';' ::
        checkoutTail ("--username=".toList ++ user) ("--password=".toList ++ password) url := by
  unfold checkoutLine checkoutTail checkoutBase
  simp

theorem forall_mem_checkoutTail {p : Char → Prop} {user password url : Text}
    (hbase : ∀ c ∈ ' ' :: checkoutBase, p c) (huser : ∀ c ∈ user, p c)
    (hpassword : ∀ c ∈ password, p c) (hurl : ∀ c ∈ url, p c) :
    ∀ c ∈ checkoutTail user password url, p c := by
  obtain ⟨hblank, hbase⟩ := List.forall_mem_cons.mp hbase
  refine List.forall_mem_append.mpr ⟨hbase, List.forall_mem_cons.mpr ⟨hblank, ?_⟩⟩
  refine List.forall_mem_append.mpr ⟨huser, List.forall_mem_cons.mpr ⟨hblank, ?_⟩⟩
  exact List.forall_mem_append.mpr ⟨hpassword, List.forall_mem_cons.mpr ⟨hblank, hurl⟩⟩

section Plain

variable {user password path : Text}

theorem words_checkoutTail (huser : PlainOption glob glob' ("--username=".toList ++ user))
    (hpassword : PlainOption glob glob' ("--password=".toList ++ password)) (url : Text) :
    Shell.words Shell.defaultIFS
        (checkoutTail ("--username=".toList ++ user) ("--password=".toList ++ password) url) =
      svnCheckoutCommand user password (Shell.words Shell.defaultIFS url) := by
  have hblank : ' ' ∈ Shell.defaultIFS := by decide
  have huserWord := huser.isWord (List.append_ne_nil_of_left_ne_nil (by decide) _)
  have hpasswordWord := hpassword.isWord (List.append_ne_nil_of_left_ne_nil (by decide) _)
  have hbase : Shell.words Shell.defaultIFS checkoutBase = checkoutWords := by decide
  rw [checkoutTail, Shell.words_append_separator hblank, hbase,
    Shell.words_append_cons huserWord hblank, Shell.words_append_cons hpasswordWord hblank]
  rfl

theorem forall_mem_svnCheckoutCommand {p : Text → Prop} {rest : List Text}
    (hbase : ∀ w ∈ checkoutWords, p w) (huser : p ("--username=".toList ++ user))
    (hpassword : p ("--password=".toList ++ password)) (hrest : ∀ w ∈ rest, p w) :
    ∀ w ∈ svnCheckoutCommand user password rest, p w := by
  have hsplit : svnCheckoutCommand user password rest =
      checkoutWords ++ ("--username=".toList ++ user) :: ("--password=".toList ++ password) :: rest :=
    rfl
  rw [hsplit]
  refine List.forall_mem_append.mpr ⟨hbase, List.forall_mem_cons.mpr ⟨huser, ?_⟩⟩
  exact List.forall_mem_cons.mpr ⟨hpassword, hrest⟩

/-- The second shell takes a line with plain words apart into the two commands that were meant. -/
theorem commands_checkoutLine {other : Text → List (List Text)}
    (huser : PlainOption glob glob' ("--username=".toList ++ user))
    (hpassword : PlainOption glob glob' ("--password=".toList ++ password))
    (hpath : PlainAddress glob glob' path) :
    Shell.commands other glob' (checkoutLine ("--username=".toList ++ user ++
        " --password=".toList ++ password) (repository path)) =
      [["cd".toList, "/avetti/svn".toList], svnCheckoutCommand user password
        (Shell.words Shell.defaultIFS (repository path))] := by
  rw [checkoutLine_eq]
  generalize htail : checkoutTail ("--username=".toList ++ user) ("--password=".toList ++ password)
    (repository path) = tail
  have hchars : ∀ c ∈ tail, c ∉ Shell.operators ++ [';'] := by
    have hoption : Shell.operators ++ [';'] ⊆ Shell.operators ++ [';', ' ', '\t'] := by decide
    rw [← htail]
    refine forall_mem_checkoutTail (by decide) (fun c hc h => huser.chars c hc (hoption h))
      (fun c hc h => hpassword.chars c hc (hoption h)) (List.forall_mem_append.mpr ⟨?_, hpath.chars⟩)
    decide
  have hpieces : Shell.pieces ("cd /avetti/svn".toList ++ ';' :: tail) =
      [["cd".toList, "/avetti/svn".toList], svnCheckoutCommand user password
        (Shell.words Shell.defaultIFS (repository path))] := by
    have hsemicolon : ';' ∉ tail := fun h =>
      hchars ';' h (List.mem_append_right _ List.mem_cons_self)
    have hcd : Shell.words Shell.defaultIFS "cd /avetti/svn".toList =
        ["cd".toList, "/avetti/svn".toList] := by decide
    rw [Shell.pieces_cons (by decide), Shell.pieces_of_not_mem hsemicolon, hcd, ← htail,
      words_checkoutTail huser hpassword]
  -- the words of the two commands stand for themselves
  have hforall : ∀ {p : Text → Prop}, (∀ w ∈ ["cd".toList, "/avetti/svn".toList], p w) →
      (∀ w ∈ checkoutWords, p w) → p ("--username=".toList ++ user) →
      p ("--password=".toList ++ password) →
      (∀ w ∈ Shell.words Shell.defaultIFS (repository path), p w) →
      ∀ ws ∈ Shell.pieces ("cd /avetti/svn".toList ++ ';' :: tail), ∀ w ∈ ws, p w := by
    intro p hcd hbase hu hp hurl
    rw [hpieces]
    refine List.forall_mem_cons.mpr ⟨hcd, List.forall_mem_singleton.mpr ?_⟩
    exact forall_mem_svnCheckoutCommand hbase hu hp hurl
  have hsimple : Shell.IsSimple ("cd /avetti/svn".toList ++ ';' :: tail) := by
    refine ⟨?_, ?_, ?_⟩
    · refine List.forall_mem_append.mpr ⟨by decide, List.forall_mem_cons.mpr ⟨by decide, ?_⟩⟩
      exact fun c hc h => hchars c hc (List.mem_append_left _ h)
    · rw [hpieces]
      refine List.forall_mem_cons.mpr ⟨by decide, List.forall_mem_singleton.mpr ?_⟩
      rfl
    · exact hforall (by decide) (by decide) huser.inert hpassword.inert hpath.inert
  have hexpand : ∀ ws ∈ Shell.pieces ("cd /avetti/svn".toList ++ ';' :: tail),
      ∀ w ∈ ws, Shell.expand glob' w = [w] := by
    have hplain : ∀ w ∈ ["cd".toList, "/avetti/svn".toList] ++ checkoutWords,
        Shell.isPattern w = false := by decide
    refine hforall (fun w hw => ?_) (fun w hw => ?_) huser.second hpassword.second hpath.second
    · exact Shell.expand_of_not_isPattern (hplain w (List.mem_append_left _ hw))
    · exact Shell.expand_of_not_isPattern (hplain w (List.mem_append_right _ hw))
  rw [Shell.commands_of_simple hsimple]
  calc (Shell.pieces ("cd /avetti/svn".toList ++ ';' :: tail)).map (·.flatMap (Shell.expand glob'))
      = (Shell.pieces ("cd /avetti/svn".toList ++ ';' :: tail)).map id :=
        List.map_congr_left fun ws hws => Shell.flatMap_expand_eq_self (hexpand ws hws)
    _ = _ := by rw [List.map_id, hpieces]

end Plain

/-- The address of the default path is plain. -/
theorem plainAddress_default : PlainAddress glob glob' defaultPath := by
  have hwords : Shell.words Shell.defaultIFS (repository defaultPath) = [repository defaultPath] := by
    decide
  have hpattern : Shell.isPattern (repository defaultPath) = false := by decide
  refine ⟨by decide, ?_, Shell.expand_of_not_isPattern hpattern, ?_, ?_⟩
  · rw [hwords]
    decide
  · rw [hwords]
    exact List.forall_mem_singleton.mpr (Shell.expand_of_not_isPattern hpattern)
  · rw [hwords]
    exact List.forall_mem_singleton.mpr (by decide)

end Words

/-! ## Runs of the script -/

section Runs

variable {glob glob' : Text → List Text} {JAVA_HOME : Text} {args : List Text} {t : Trace}

/-- The line of the checkout of the code. -/
def codeLine (v : Vars) : Text := checkoutLine (svnOptions v) (repository v.path_to_code)

/-- A checkout is one of the code or of the LGPL software. -/
def ChecksOut (v : Vars) (c : Cmd) : Prop :=
  ∀ line, c = .run (suWords line) → line = codeLine v ∨ line = checkoutLine lgplOptions lgplRepository

theorem not_suWords_of_writesPom {c : Cmd} (hc : c.writesPom = false) (line : Text) :
    c ≠ .run (suWords line) := by
  rintro rfl
  cases hc

theorem KeepsPom.checksOut {α : Type} {p : Sh α} (hp : KeepsPom p) (v : Vars) :
    Emits (fun c _ => ChecksOut v c) p :=
  Emits.mono (fun _ _ hc line h => absurd h (not_suWords_of_writesPom hc line)) hp

theorem checksOut_edits (v : Vars) (scripts : List Text) (path : Text) :
    Emits (fun c _ => ChecksOut v c) (edits scripts path) := by
  induction scripts with
  | nil => exact trivial
  | cons script scripts ih =>
    refine emits_call (fun _ line h => ?_) fun _ => ih
    cases h

theorem checksOut_checkout (v : Vars) : Emits (fun c _ => ChecksOut v c) (checkout v) := by
  have hline : ∀ options url, codeLine v = checkoutLine options url ∨
      checkoutLine lgplOptions lgplRepository = checkoutLine options url →
      ChecksOut v (.run (svnCheckout options url)) := by
    rintro options url hurl line ⟨⟩
    exact hurl.imp Eq.symm Eq.symm
  simp only [checkout, fileTest_bind, teed_bind, failed_bind]
  refine emits_call (fun _ _ h => by cases h) fun _ => emits_ite ?_ trivial
  refine emits_call (fun _ => hline _ _ (Or.inl rfl)) fun _ => ?_
  refine emits_call (fun _ => hline _ _ (Or.inr rfl)) fun _ => ?_
  refine emits_call (fun _ _ h => by cases h) fun _ => ?_
  exact emits_ite (checksOut_edits v _ _) trivial

/-- From the checkout on, only the code and the LGPL software are checked out. -/
theorem checksOut_fromCheckout (glob : Text → List Text) (vs : Vars × Vars) :
    Emits (fun c _ => ChecksOut vs.2 c) (checkout vs.2 >>= fun _ => afterCheckout vs.2 >>= fun _ =>
      stage (home .moduleSetup) >>= fun _ => afterModuleSetup vs.1 >>= fun coreDir =>
        afterRemoval glob vs.1 coreDir) := by
  have hremoval : Emits (fun c _ => ChecksOut vs.2 c) (afterModuleSetup vs.1) := by
    simp only [afterModuleSetup, command_bind, run_bind]
    refine emits_bind (checksOut_edits _ _ _) fun _ => ?_
    iterate 5 refine emits_call (fun _ _ h => by cases h) fun _ => ?_
    exact trivial
  refine emits_bind (checksOut_checkout vs.2) fun _ => ?_
  refine emits_bind ((keepsPom_afterCheckout vs.2).checksOut _) fun _ => ?_
  refine emits_bind ((keepsPom_stage _).checksOut _) fun _ => emits_bind hremoval fun coreDir => ?_
  exact (keepsPom_afterRemoval glob vs.1 coreDir).checksOut _

/-- The words of `svn info` with plain credentials. -/
theorem svnInfoWords_of_plain {v : Vars}
    (huser : PlainOption glob glob' ("--username=".toList ++ v.avettisvnuser))
    (hpassword : PlainOption glob glob' ("--password=".toList ++ v.avettisvnpassword))
    (hpath : PlainAddress glob glob' v.path_to_code) :
    svnInfoWords glob v =
      svnInfoCommand v.avettisvnuser v.avettisvnpassword [repository v.path_to_code] := by
  rw [svnInfoWords, huser.unquotedVar (List.append_ne_nil_of_left_ne_nil (by decide) _),
    hpassword.unquotedVar (List.append_ne_nil_of_left_ne_nil (by decide) _), hpath.unquotedVar]
  rfl

/-- The path and the credentials of a version that was typed are plain. -/
structure PlainAnswers (glob glob' : Text → List Text) (a : SvnAnswers) : Prop where
  user : PlainOption glob glob' ("--username=".toList ++ a.user)
  password : PlainOption glob glob' ("--password=".toList ++ a.password)
  path : PlainAddress glob glob' (typedPath glob a.path)

/-- **Plain credentials** that were verified are used, whatever the replies of the commands are. -/
theorem usesVerified_setup {a : SvnAnswers} (ha : PlainAnswers glob glob' a)
    (other : Text → List (List Text)) {o : Outcome Unit}
    (h : Runs (setup glob JAVA_HOME args) t o) (ht : ∀ e ∈ t, SvnAnswered a e.1 e.2) :
    UsesVerified (Shell.commands other glob') t := by
  intro pre line r post heq hline
  have hsu : ∀ {u : Trace}, (∀ e ∈ u, e.1.writesPom = false) → (Cmd.run (suWords line), r) ∉ u :=
    fun hu hmem => not_suWords_of_writesPom (hu _ hmem) line rfl
  rw [setup_eq_checkout] at h
  rcases runs_bind_iff.mp h with ⟨n, -, hn⟩ | ⟨vs, t₁, t₂, rfl, h₁, h₂⟩
  · exact absurd (by simp [heq]) (hsu (hn.emits (keepsPom_toCheckout glob JAVA_HOME args)))
  · obtain ⟨q, rfl, hq⟩ := eq_append_of_notMem heq
      (hsu (h₁.emits (keepsPom_toCheckout glob JAVA_HOME args)))
    obtain ⟨htyped, hsvn⟩ := ensures_toCheckout glob JAVA_HOME args t₁ vs h₁ fun e he =>
      ht e (List.mem_append_left t₂ he)
    obtain ⟨⟨c, r'⟩, he, rfl, hstatus⟩ := visits_toCheckout glob JAVA_HOME args t₁ vs h₁
    have hcode : line = codeLine vs.2 := by
      have hmem : (Cmd.run (suWords line), r) ∈ t₂ := by simp [hq]
      exact (h₂.emits (checksOut_fromCheckout glob vs) _ hmem line rfl).resolve_right hline
    -- the variables are those that were typed, with the default path or with the typed one
    have hplain : PlainOption glob glob' ("--username=".toList ++ vs.2.avettisvnuser) ∧
        PlainOption glob glob' ("--password=".toList ++ vs.2.avettisvnpassword) ∧
        PlainAddress glob glob' vs.2.path_to_code := by
      rw [← hsvn] at htyped
      rcases htyped with hvars | hvars <;> simp only [Vars.svn, Prod.mk.injEq] at hvars <;>
        obtain ⟨huser, hpassword, hpath, -⟩ := hvars <;> rw [huser, hpassword, hpath]
      · exact ⟨ha.user, ha.password, plainAddress_default⟩
      · exact ⟨ha.user, ha.password, ha.path⟩
    obtain ⟨huser, hpassword, hpath⟩ := hplain
    rw [svnInfoWords_of_plain huser hpassword hpath] at he
    refine ⟨_, _, _, _, r', List.mem_append_left q he, hstatus, ?_, hpath.noOption, ?_⟩
    · exact List.forall_mem_singleton.mpr fun hhead => by
        cases hhead
    · rw [hcode]
      exact commands_checkoutLine huser hpassword hpath

end Runs

end Avetti
