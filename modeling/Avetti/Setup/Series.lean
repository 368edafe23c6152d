import Avetti.Script.Effect
import Avetti.Setup.Checkout
import Avetti.Setup.Elements
import Avetti.Setup.Success

/-!
# The password in pom.xml over several runs

A run of `setup.sh` that finds no directory of the version checks it out and puts the credentials
into `pom.xml`. It takes them out once the first Maven goal has passed, by the credentials of that
same run. A later run finds the directory, and does not put anything in.

## Main definitions

* `CodeDir`: what there is of a version
* `CodeEffect other code got`: what the commands do to it, when its checkout leaves `got`
* `Series code pristine C d`: a sequence of runs that meet the condition `C` leaves `d`
* `Forgets d`: every element of `pom.xml` for the password is empty
* `CleansUp`: the condition under which a run takes out what it has put in

## Main results

* `leads_setup`: what one run leaves
* `forgets_of_series`: what a sequence of runs leaves
-/

open Script Sed

namespace Avetti

/-! ## The directory of a version -/

/-- What there is of a version: nothing, its directory without a `pom.xml`, or with one. -/
inductive CodeDir where
  | absent
  | bare
  | pom (text : Text)
  deriving DecidableEq

namespace CodeDir

/-- The directory after an edit of `pom.xml`, when `other` is what `sed` makes of the scripts that
are not read here. -/
def edit (other : Text → Text → Text) (script : Text) : CodeDir → CodeDir
  | pom text => pom (Sed.edit other script text)
  | d => d

/-- The directory after some edits of `pom.xml`. -/
def edits (other : Text → Text → Text) (scripts : List Text) (d : CodeDir) : CodeDir :=
  scripts.foldl (fun d script => d.edit other script) d

@[simp] theorem edit_pom (other : Text → Text → Text) (script text : Text) :
    (pom text).edit other script = pom (Sed.edit other script text) := rfl

end CodeDir

/-- What a command leaves of the version, when the checkout of its code leaves `got`. The checkout
of the LGPL software, and one into a directory that exists, leave it as it is. -/
def Cmd.leaves (other : Text → Text → Text) (code : Text) (got : CodeDir) :
    Cmd → CodeDir → CodeDir
  | .run ws, d =>
    if ws.head? = some "su".toList then
      if ws = svnCheckout lgplOptions lgplRepository ∨ d ≠ .absent then d else got
    else if ws.head? = some "sed".toList ∧ ws.getLast? = some (pomFile code) then
      d.edit other ((ws[2]?).getD [])
    else d
  | _, d => d

/-- What an event does to the directory of the version. The test for the directory sees it. -/
structure CodeEffect (other : Text → Text → Text) (code : Text) (got : CodeDir) (e : Cmd × Reply)
    (d d' : CodeDir) : Prop where
  leaves : d' = e.1.leaves other code got d
  sees : e.1 = .test "-d" (codeDir code) → (e.2.status = 0 ↔ d ≠ .absent)

/-- The command looks for the directory of no other version. -/
def Cmd.IsFor (code : Text) : Cmd → Prop
  | .test op path => op = "-d".toList → "/avetti/svn/".toList <+: path → path = codeDir code
  | _ => True

instance (code : Text) : DecidablePred (Cmd.IsFor code)
  | .test op path => inferInstanceAs
      (Decidable (op = "-d".toList → "/avetti/svn/".toList <+: path → path = codeDir code))
  | .run _ | .read _ | .mvn .. | .service .. | .append .. | .write .. | .branch .. => isTrue trivial

/-- The condition on a run: on the answers, the events, what the checkout leaves when it is made,
and the directory before the run. -/
abbrev RunCondition := SvnAnswers → Trace → CodeDir → CodeDir → Prop

/-- A sequence of runs of `setup.sh` for the version, from no directory of it to `d`, with a
`pom.xml` in the repository that has the text `pristine`. Each run meets the condition `C`, and what
`sed` makes of the scripts that are not read here can be anything. -/
inductive Series (code pristine : Text) (C : RunCondition) : CodeDir → Prop where
  | start : Series code pristine C .absent
  | run {other : Text → Text → Text} {d d' got : CodeDir} {glob : Text → List Text}
      {JAVA_HOME : Text} {args : List Text} {t : Trace} {o : Outcome Unit} {a : SvnAnswers}
      (before : Series code pristine C d)
      (runs : Runs (setup glob JAVA_HOME args) t o) (answered : ∀ e ∈ t, SvnAnswered a e.1 e.2)
      (version : ∀ e ∈ t, e.1.IsFor code) (checkout : ∀ text, got = .pom text → text = pristine)
      (effect : Follows (CodeEffect other code got) t d d') (condition : C a t got d) :
      Series code pristine C d'

/-- **No password stands in `pom.xml`**: every element for it is empty. -/
def Forgets (d : CodeDir) : Prop := ∀ text, d = .pom text → HasValue .password [] text

/-! ## The condition -/

/-- The first attempt to set up the modules passes, or is followed by a second one. -/
def PassesSetup (c : Cmd) (r : Reply) : Prop :=
  c = .mvn (home .moduleSetup) .first → r.status = 0 ∨ r.status = 2

/-- **The run takes out what it has put in**, when it checks out `pom.xml`: `sed` refuses to put in
the password, or the modules are set up and the pattern that takes it out finds it. No value that
is put in has a `<`. What takes the values out is known in every run. -/
structure CleansUp (pristine : Text) (a : SvnAnswers) (t : Trace) (got d : CodeDir) : Prop where
  removesUser : Known (removal .username a.user)
  removesPassword : Known (removal .password a.password)
  user : d = .absent → got = .pom pristine →
    refuses (insertion .username a.user) = true ∨ ∃ v, PutInAs a.user v
  password : d = .absent → got = .pom pristine →
    refuses (insertion .password a.password) = true ∨
      (∀ e ∈ t, PassesSetup e.1 e.2) ∧ ∃ v, PutInAs a.password v ∧ Finds .password a.password v

/-! ## What the commands do -/

section Effect

variable {other : Text → Text → Text} {code : Text} {got : CodeDir}

theorem isPom_pomFile (code : Text) : isPom (pomFile code) = true := by
  rw [pomFile, isPom_append _ (by decide)]
  rfl

/-- Only what can change a `pom.xml` has an effect. -/
theorem leaves_of_writesPom {c : Cmd} (hc : c.writesPom = false) (d : CodeDir) :
    c.leaves other code got d = d := by
  cases c with
  | run ws =>
    obtain ⟨hsu, htarget⟩ := Bool.or_eq_false_iff.mp hc
    have hsed : ¬ (ws.head? = some "sed".toList ∧ ws.getLast? = some (pomFile code)) := by
      rintro ⟨hhead, hlast⟩
      rw [Cmd.target, if_pos (by simp [hhead]), hlast, Option.any_some, isPom_pomFile] at htarget
      cases htarget
    rw [Cmd.leaves, if_neg (of_decide_eq_false hsu), if_neg hsed]
  | _ => rfl

theorem leaves_sed (script : Text) (d : CodeDir) :
    (Cmd.run (sed script (pomFile code))).leaves other code got d = d.edit other script := by
  have hhead : (sed script (pomFile code)).head? ≠ some "su".toList := by
    rw [sed, List.head?_cons]
    decide
  rw [Cmd.leaves, if_neg hhead, if_pos ⟨rfl, rfl⟩]
  rfl

/-- A checkout leaves what there is, or what it gets when there is nothing. -/
theorem leaves_svnCheckout (options url : Text) (d : CodeDir) :
    (Cmd.run (svnCheckout options url)).leaves other code got d = d ∨
      d = .absent ∧ (Cmd.run (svnCheckout options url)).leaves other code got d = got := by
  have hhead : (svnCheckout options url).head? = some "su".toList := rfl
  rw [Cmd.leaves, if_pos hhead]
  split_ifs with h
  · exact Or.inl rfl
  · rw [not_or, not_not] at h
    exact Or.inr ⟨h.2, rfl⟩

variable {α : Type} {S : Cmd → Reply → Prop} {P X : CodeDir → Prop}

/-- A part that keeps the code as it is. -/
theorem KeepsPom.leads {p : Sh α} (hp : KeepsPom p) {V : α → Prop} (hV : Ensures S V p)
    (hX : Finishes p ∨ ∀ d, P d → X d) :
    Leads (CodeEffect other code got) S P p (fun a d => V a ∧ P d) X :=
  leads_frame (hp.mono fun _ _ hc _ _ h => h.leaves.trans (leaves_of_writesPom hc _)) hV hX

theorem leads_edits (scripts : List Text) :
    Leads (CodeEffect other code got) S (fun d => P (d.edits other scripts)) (edits scripts (pomFile code))
      (fun _ => P) X := by
  induction scripts with
  | nil => exact leads_pure fun _ h => h
  | cons script scripts ih =>
    refine leads_call (fun r d d' _ hd he => ?_) fun _ _ => ih
    rw [he.leaves, leaves_sed]
    exact hd

end Effect

/-! ## One run -/

section Run

variable {other : Text → Text → Text} {code pristine : Text} {a : SvnAnswers} {t₀ : Trace}
  {got d₀ : CodeDir}

/-- The password has been put in, so that the run takes it out. -/
def PutIn (a : SvnAnswers) (t₀ : Trace) (d : CodeDir) : Prop :=
  (∀ e ∈ t₀, PassesSetup e.1 e.2) ∧ ∃ v text, d = .pom text ∧ HasValue .password v text ∧
    PutInAs a.password v ∧ Finds .password a.password v

/-- Between the checkout and the removal. -/
def Between (a : SvnAnswers) (t₀ : Trace) (d : CodeDir) : Prop := Forgets d ∨ PutIn a t₀ d

/-- The replies of the run. -/
def RepliesOf (code : Text) (a : SvnAnswers) (t₀ : Trace) (c : Cmd) (r : Reply) : Prop :=
  SvnAnswered a c r ∧ c.IsFor code ∧ ((∀ e ∈ t₀, PassesSetup e.1 e.2) → PassesSetup c r)

theorem hasValue_insertion_user {v text : Text} (hv : '<' ∉ v)
    (huser : refuses (insertion .username a.user) = true ∨ ∃ x, PutInAs a.user x)
    (h : HasValue .password v text) :
    HasValue .password v (Sed.edit other (insertion .username a.user) text) := by
  rcases huser with hrefused | ⟨x, hx⟩
  · rwa [edit_of_refuses hrefused]
  · exact hasValue_insertion hx hv (fun h => by cases h) (Or.inl rfl) h other

/-- The credentials are put into a new `pom.xml`. -/
theorem between_inserted (h : CleansUp pristine a t₀ (.pom pristine) .absent)
    (hpristine : HasValue .password [] pristine) :
    Between a t₀ ((CodeDir.pom pristine).edits other (insertCredentials a.user a.password)) := by
  have huser : HasValue .password [] (Sed.edit other (insertion .username a.user) pristine) :=
    hasValue_insertion_user List.not_mem_nil (h.user rfl rfl) hpristine
  rw [insertCredentials_eq, CodeDir.edits, List.foldl_cons, List.foldl_cons, List.foldl_nil,
    CodeDir.edit_pom, CodeDir.edit_pom]
  rcases h.password rfl rfl with hrefused | ⟨hpasses, v, hv, hfinds⟩
  · left
    rintro text ⟨⟩
    rwa [edit_of_refuses hrefused]
  · right
    have hvalue := hasValue_insertion hv List.not_mem_nil (fun _ => rfl) (Or.inr ⟨rfl, rfl⟩) huser
      other
    exact ⟨hpasses, v, _, rfl, hvalue, hv, hfinds⟩

/-- The credentials are taken out. -/
theorem forgets_removed {got' d : CodeDir} (hclean : CleansUp pristine a t₀ got' d₀)
    (h : Between a t₀ d) : Forgets (d.edits other (removeCredentials a.user a.password)) := by
  have hedits : d.edits other (removeCredentials a.user a.password) =
      (d.edit other (removal .username a.user)).edit other (removal .password a.password) := rfl
  have huser : ∀ {v text}, '<' ∉ v → HasValue .password v text →
      HasValue .password v (Sed.edit other (removal .username a.user) text) := fun hv hvalue =>
    hasValue_removal hclean.removesUser hv (fun h => by cases h) (Or.inl rfl) hvalue other
  rw [hedits]
  rcases h with h | ⟨-, v, text, rfl, hvalue, hv, hfinds⟩
  · -- no password is there, and the removals put none in
    cases d with
    | pom text =>
      rintro text' ⟨⟩
      exact hasValue_removal hclean.removesPassword List.not_mem_nil (fun _ => rfl) (Or.inl rfl)
        (huser List.not_mem_nil (h text rfl)) other
    | absent =>
      intro text h
      cases h
    | bare =>
      intro text h
      cases h
  · -- the password that was put in is found by the second removal
    rintro text' ⟨⟩
    exact hasValue_removal hclean.removesPassword hv.noTag (fun _ => rfl) (Or.inr ⟨rfl, hfinds⟩)
      (huser hv.noTag hvalue) other

theorem forgets_of_not_pom {d : CodeDir} (h : ∀ text, d ≠ .pom text) : Forgets d :=
  fun text hd => absurd hd (h text)

theorem CodeDir.edits_of_not_pom {d : CodeDir} (h : ∀ text, d ≠ .pom text) (scripts : List Text) :
    d.edits other scripts = d := by
  have hedit : ∀ script, d.edit other script = d := by
    intro script
    cases d with
    | pom text => exact absurd rfl (h text)
    | absent => rfl
    | bare => rfl
  induction scripts with
  | nil => rfl
  | cons script scripts ih => rwa [CodeDir.edits, List.foldl_cons, hedit]

/-- The checkout, and the edits after it. -/
theorem leads_checkout {v : Vars} (hv : v.avettisvnuser = a.user ∧ v.avettisvnpassword = a.password)
    (hpristine : HasValue .password [] pristine) (hgot : ∀ text, got = .pom text → text = pristine)
    (hd₀ : Forgets d₀) (h : CleansUp pristine a t₀ got d₀) :
    Leads (CodeEffect other code got) (RepliesOf code a t₀) (· = d₀) (checkout v)
      (fun _ d => pomFile v.code_to_install = pomFile code ∧ Between a t₀ d) Forgets := by
  simp only [checkout, fileTest_bind, teed_bind, failed_bind]
  refine leads_call (M := fun r d => d = d₀ ∧ (r.status = 0 ↔ d₀ ≠ .absent))
    (fun r d d' hr hd he => ?_) fun r hr => ?_
  · have hdir : codeDir v.code_to_install = codeDir code := hr.2.1 rfl ⟨v.code_to_install, rfl⟩
    subst hd
    rw [hdir] at he
    exact ⟨he.leaves, he.sees rfl⟩
  · have hdir : codeDir v.code_to_install = codeDir code := hr.2.1 rfl ⟨v.code_to_install, rfl⟩
    have hpom : pomFile v.code_to_install = pomFile code := by rw [pomFile, hdir, ← pomFile]
    refine leads_ite (fun habsent => ?_) fun hthere => leads_pure fun d hd => ?_
    · -- nothing is there: the two checkouts, the test of their status, and the edits of `pom.xml`
      have hstatus : r.status ≠ 0 := by simpa using habsent
      refine leads_of_imp (q := d₀ = .absent) (fun d hd => ?_) fun habsent => ?_
      · exact not_not.mp fun hne => hstatus (hd.2.mpr hne)
      · subst habsent
        rw [hv.1, hv.2, hpom]
        refine leads_call (M := fun _ d => d = .absent ∨ d = got) (fun _ d d' _ hd he => ?_)
          fun _ _ => leads_call (M := fun _ d => d = .absent ∨ d = got) (fun _ d d' _ hd he => ?_)
          fun _ _ => leads_call (M := fun _ d => d = .absent ∨ d = got) (fun _ d d' _ hd he => ?_)
          fun _ _ => leads_ite (fun _ => ?_) fun hfailed => absurd hfailed (by simp)
        · rcases leaves_svnCheckout (svnOptions v) (repository v.path_to_code) d with hl | ⟨-, hl⟩
          · exact Or.inl (he.leaves.trans (hl.trans hd.1))
          · exact Or.inr (he.leaves.trans hl)
        · rcases leaves_svnCheckout lgplOptions lgplRepository d with hl | ⟨-, hl⟩
          · exact hd.imp (he.leaves.trans hl).trans (he.leaves.trans hl).trans
          · exact Or.inr (he.leaves.trans hl)
        · exact hd.imp he.leaves.trans he.leaves.trans
        · -- the edits change a `pom.xml` only, which is the pristine one
          refine (leads_edits (P := Between a t₀) _).mono (fun d hd => ?_)
            (fun _ _ hd => ⟨rfl, hd⟩) fun _ hd => hd
          rcases hd with rfl | rfl
          · rw [CodeDir.edits_of_not_pom (by simp)]
            exact Or.inl (forgets_of_not_pom (by simp))
          · cases d with
            | pom text =>
              obtain rfl := hgot text rfl
              exact between_inserted h hpristine
            | absent =>
              rw [CodeDir.edits_of_not_pom (by simp)]
              exact Or.inl (forgets_of_not_pom (by simp))
            | bare =>
              rw [CodeDir.edits_of_not_pom (by simp)]
              exact Or.inl (forgets_of_not_pom (by simp))
    · exact ⟨hpom, Or.inl (hd.1 ▸ hd₀)⟩

/-- The first goal, after which the credentials are taken out, or before which none was put in. -/
theorem leads_stage : Leads (CodeEffect other code got) (RepliesOf code a t₀) (Between a t₀)
    (stage (home .moduleSetup)) (fun _ => Between a t₀) Forgets := by
  have hmvn : ∀ attempt, (Cmd.mvn (home .moduleSetup) attempt).writesPom = false := fun _ => rfl
  refine leads_call (M := fun r d => Between a t₀ d ∧ (PutIn a t₀ d → r.status = 0 ∨ r.status = 2))
    (fun r d d' hr hd he => ?_) fun r hr => ?_
  · rw [he.leaves, leaves_of_writesPom (hmvn .first)]
    exact ⟨hd, fun h => hr.2.2 h.1 rfl⟩
  · refine leads_ite (fun hne => leads_ite (fun htwo => ?_) fun htwo => ?_) fun _ => ?_
    · -- the second attempt, whose status nothing reads
      refine leads_call (M := fun _ => Between a t₀) (fun _ d d' _ hd he => ?_) fun _ _ => ?_
      · rw [he.leaves, leaves_of_writesPom (hmvn .second)]
        exact hd.1
      · exact leads_pure fun _ hd => hd
    · -- the exit before the removals: the condition says that nothing was put in
      refine leads_leave 1 fun d hd => hd.1.resolve_right fun h => ?_
      exact (hd.2 h).elim hne htwo
    · exact leads_pure fun _ hd => hd.1

/-- The credentials are taken out, and the core is looked up. -/
theorem leads_afterModuleSetup {v : Vars} (hclean : CleansUp pristine a t₀ got d₀)
    (hv : v.avettisvnuser = a.user ∧ v.avettisvnpassword = a.password)
    (hcode : pomFile v.code_to_install = pomFile code) :
    Leads (CodeEffect other code got) (RepliesOf code a t₀) (Between a t₀) (afterModuleSetup v)
      (fun _ => Forgets) Forgets := by
  rw [afterModuleSetup, hv.1, hv.2, hcode]
  refine leads_bind ((leads_edits (P := Forgets) _).mono (fun d hd => forgets_removed hclean hd)
    (fun _ _ hd => hd) fun _ hd => hd) fun _ => ?_
  have hrest : KeepsPom (do
      let pom ← command (.run ["cat", pomFile code])
      let coreDir := coreOf pom.out
      let util := codeDir coreDir ++ "/src/site/resources/database-changes/util/".toList
      let _ ← run ["chmod", "+x", util ++ "mysqlExport.sh".toList]
      let _ ← run ["chmod", "+x", util ++ "mysqlImport.sh".toList]
      let _ ← run ["chown", "-R", "avetti:apache", "/avetti/svn"]
      let _ ← run ["chmod", "-R", "g+w", "/avetti/svn"]
      return coreDir) := by
    simp only [command_bind, run_bind]
    iterate 5 refine keepsPom_call rfl fun _ => ?_
    exact keepsPom_pure _
  exact (hrest.leads (V := fun _ => True) (fun _ _ _ _ => trivial) (Or.inr fun _ hd => hd)).mono
    (fun _ hd => hd) (fun _ _ hd => hd.2) fun _ hd => hd

theorem finishes_afterCheckout (v : Vars) : Finishes (afterCheckout v) := by
  have hedits : ∀ scripts path, Finishes (edits scripts path) := by
    intro scripts path
    induction scripts with
    | nil => exact trivial
    | cons script scripts ih => exact fun _ => ih
  have happend : ∀ text path, Finishes (appendTo text path) := fun _ _ _ => trivial
  have hsettings : Finishes (configureSettings v) := by
    simp only [configureSettings, fileTest_bind, run_bind]
    refine fun _ => finishes_ite (fun _ => ?_) trivial
    exact finishes_bind (hedits _ _) fun _ _ => hedits _ _
  exact finishes_bind hsettings fun _ _ => finishes_ite (happend _ _) trivial

/-- **One run** that meets the condition leaves no password. -/
theorem leads_setup (hpristine : HasValue .password [] pristine)
    (hgot : ∀ text, got = .pom text → text = pristine) (hd₀ : Forgets d₀)
    (h : CleansUp pristine a t₀ got d₀) (glob : Text → List Text) (JAVA_HOME : Text)
    (args : List Text) :
    Leads (CodeEffect other code got) (RepliesOf code a t₀) (· = d₀) (setup glob JAVA_HOME args)
      (fun _ => Forgets) Forgets := by
  rw [setup_eq_checkout]
  have htyped : Ensures (RepliesOf code a t₀)
      (fun vs => AsTyped glob a vs.1.svn ∧ vs.2.svn = vs.1.svn)
      (toCheckout glob JAVA_HOME args) := fun t vs hrun ht =>
    ensures_toCheckout glob JAVA_HOME args t vs hrun fun e he => (ht e he).1
  refine leads_bind ((keepsPom_toCheckout glob JAVA_HOME args).leads htyped
    (Or.inr fun d hd => hd ▸ hd₀)) fun vs => leads_of_imp (fun _ hd => hd.1) fun hvs => ?_
  obtain ⟨htyped, hsvn⟩ := hvs
  -- the variables of the checkout and those of the removal are the ones that were typed
  have hv₁ : vs.1.avettisvnuser = a.user ∧ vs.1.avettisvnpassword = a.password := by
    rcases htyped with heq | heq <;> simp only [Vars.svn, Prod.mk.injEq] at heq <;>
      exact ⟨heq.1, heq.2.1⟩
  simp only [Vars.svn, Prod.mk.injEq] at hsvn
  obtain ⟨huser, hpassword, -, hversion⟩ := hsvn
  have hv₂ : vs.2.avettisvnuser = a.user ∧ vs.2.avettisvnpassword = a.password :=
    ⟨huser.trans hv₁.1, hpassword.trans hv₁.2⟩
  refine leads_bind ((leads_checkout hv₂ hpristine hgot hd₀ h).mono (fun _ hd => hd.2)
    (fun _ _ hd => hd) fun _ hd => hd) fun _ => leads_of_imp (fun _ hd => hd.1) fun hpom => ?_
  refine leads_bind (((keepsPom_afterCheckout vs.2).leads (V := fun _ => True)
    (fun _ _ _ _ => trivial) (Or.inl (finishes_afterCheckout vs.2))).mono (fun _ hd => hd.2)
    (fun _ _ hd => hd.2) fun _ hd => hd) fun _ => leads_bind leads_stage fun _ => ?_
  refine leads_bind (leads_afterModuleSetup h hv₁ (hversion ▸ hpom)) fun coreDir => ?_
  exact ((keepsPom_afterRemoval glob vs.1 coreDir).leads (V := fun _ => True)
    (fun _ _ _ _ => trivial) (Or.inr fun _ hd => hd)).mono (fun _ hd => hd) (fun _ _ hd => hd.2)
    fun _ hd => hd

end Run

/-! ## Runs on a host -/

/-- A host where the first goal ends with `status` and everything else succeeds, for the version
that is installed by default. -/
def host (status : Int) (user password : Text) : Handler CodeDir Cmd Reply := fun d c =>
  (match c with
    | .test op path =>
      ⟨if op = "-d".toList ∧ path = codeDir (codeOf 1 defaultPath) ∧ d = .absent then 1 else 0, []⟩
    | .mvn m attempt => ⟨if m = home .moduleSetup ∧ attempt = .first then status else 0, []⟩
    | .read var => ⟨0, if var = "avettisvnuser".toList then user
        else if var = "avettisvnpassword".toList then password else "y"⟩
    | c => succeeding [] c,
    c.leaves (fun _ t => t) (codeOf 1 defaultPath) (.pom (samplePom.text noCredentials)) d)

/-- The run on this host. -/
def hostRun (status : Int) (user password : Text) (d : CodeDir) : Run CodeDir Cmd Reply Unit :=
  exec (host status user password) (setup (fun _ => []) [] ["secret"]) d

section Host

variable {C : RunCondition} {d : CodeDir}

/-- The run on the host continues a sequence of runs. -/
theorem Series.host_run (h : Series (codeOf 1 defaultPath) (samplePom.text noCredentials) C d)
    (status : Int) (user password : Text)
    (hversion : ∀ e ∈ (hostRun status user password d).trace, e.1.IsFor (codeOf 1 defaultPath))
    (hC : C ⟨user, password, "y"⟩ (hostRun status user password d).trace
      (.pom (samplePom.text noCredentials)) d) :
    Series (codeOf 1 defaultPath) (samplePom.text noCredentials) C
      (hostRun status user password d).state := by
  refine .run h (runs_exec _ _ _) (forall_mem_exec (fun d c => ?_) _ _) hversion
    (fun text h => by cases h; rfl) (follows_exec (fun d c => ⟨rfl, fun hc => ?_⟩) _ _) hC
  · cases c with
    | read var =>
      refine ⟨?_, ?_, ?_⟩ <;> rintro rfl <;> rfl
    | _ => trivial
  · obtain rfl : c = _ := hc
    have hstatus : (if "-d".toList = "-d".toList ∧ codeDir (codeOf 1 defaultPath) =
        codeDir (codeOf 1 defaultPath) ∧ d = .absent then 1 else 0 : Int) = 0 ↔ d ≠ .absent := by
      simp
    exact hstatus

end Host

/-! ## Several runs -/

/-- **The password does not outlive a run**, in any sequence of runs each of which takes out what it
has put in. -/
theorem forgets_of_series {code pristine : Text} (hpristine : HasValue .password [] pristine)
    {d : CodeDir} (h : Series code pristine (CleansUp pristine) d) : Forgets d := by
  induction h with
  | start => exact forgets_of_not_pom (by simp)
  | run before runs answered version checkout effect condition ih =>
    have hrun := leads_setup hpristine checkout ih condition _ _ _ _ _ _ _ rfl runs
      (fun e he => ⟨answered e he, version e he, fun hpasses => hpasses e he⟩) effect
    split at hrun
    · exact hrun
    · exact hrun

theorem forgets_of_series_host : Forgets (hostRun 0 "anna" "s3cret" .absent).state := by
  have huser : PutInAs "anna" "anna" := ⟨inner_of_verbatim (by decide), by decide⟩
  have hpassword : PutInAs "s3cret" "s3cret" :=
    ⟨inner_of_verbatim (by decide), by decide⟩
  have hclean : CleansUp (samplePom.text noCredentials) ⟨"anna", "s3cret", "y"⟩
      (hostRun 0 "anna" "s3cret" .absent).trace (.pom (samplePom.text noCredentials)) .absent := by
    refine ⟨by decide, by decide, fun _ _ => Or.inr ⟨_, huser⟩,
      fun _ _ => Or.inr ⟨?_, _, hpassword, by decide⟩⟩
    refine forall_mem_exec (fun d c => ?_) _ _
    rintro rfl
    exact Or.inl rfl
  exact forgets_of_series (by decide +kernel) (Series.start.host_run
    (C := CleansUp (samplePom.text noCredentials)) 0 "anna" "s3cret" (by decide +kernel) hclean)

/-- The password stays when the first goal fails in the run that has put it in. -/
theorem not_forgets_failingSetup :
    ¬ ∀ code pristine, HasValue .username [] pristine → HasValue .password [] pristine →
      ∀ d, Series code pristine (fun a _ _ _ => a.user ≠ [] ∧ a.password ≠ []) d → Forgets d := by
  intro h
  have hleft : (hostRun 1 "anna" "s3cret" .absent).state =
      .pom (samplePom.text (credentials "anna" "s3cret")) := by decide +kernel
  have hstays : ¬ HasValue .password [] (samplePom.text (credentials "anna" "s3cret")) := by
    decide
  have hseries := Series.start.host_run (C := fun a _ _ _ => a.user ≠ [] ∧ a.password ≠ []) 1
    "anna" "s3cret" (by decide +kernel) (by decide)
  exact hstays (h _ _ (by decide +kernel) (by decide +kernel) _ hseries _ hleft)

end Avetti
