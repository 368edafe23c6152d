import Avetti.Setup.StatusChecks
import Avetti.Setup.Success

/-!
# The existing databases

`compileCommerce` is to update a database that exists and to set up one that does not. It knows the
databases from the list that the MySQL server gave: `echo $allDb` shows the list in one line, with
the pathnames that match its patterns, and a database counts as existing when its name stands there
between two blanks. The last name of the line does not, and without `--nomysql` the list is empty.

## Main definitions

* `Databases`, `Serves dbs`: the databases of a server, and a server that lists them
* `shownWords glob dbs`: the words of the line after `Database`
* `MigratesExisting`: the databases that exist are updated, the other ones are set up

## Main results

* `existing_listing_iff`: a database counts as existing when its name is a word of the line, and not
  only its last one
* `migrates_iff`: which migration a run makes
* `migratesExisting_iff`: a database is migrated as it should be exactly when it counts as existing
  just in case it exists
-/

open Script RetryChain

namespace Avetti

variable {α : Type}

/-! ## The server -/

/-- The databases of a server, in the order in which it lists them. -/
structure Databases where
  names : List Text
  isWord : ∀ n ∈ names, Shell.IsWord ['\n'] n

/-- The list as the client prints it. -/
def Databases.listing (dbs : Databases) : Text := Text.unlines ("Database".toList :: dbs.names)

/-- The server lists its databases whenever it is asked for them. -/
def Serves (dbs : Databases) (c : Cmd) (r : Reply) : Prop :=
  ∀ ws, c = .run ws → ws.head? = some "mysql".toList → ws.getLast? = some showDatabases →
    r = ⟨0, dbs.listing⟩

/-- The words of `echo $allDb` after `Database`. -/
def shownWords (glob : Text → List Text) (dbs : Databases) : List Text :=
  (dbs.names.flatMap (Shell.expand glob)).flatMap (·.splitOn ' ')

theorem splitOn_name (d : Db) : ' ' ∉ d.name ∧ '\n' ∉ ' ' :: d.name ++ [' '] := by
  cases d <;> decide

/-- A database counts as existing when its name is one of the words that are shown, and not only the
last one. -/
theorem existing_listing_iff (glob : Text → List Text) (dbs : Databases) (d : Db) :
    existing glob (Text.chomp dbs.listing) d = true ↔
      d.name ∈ (shownWords glob dbs).dropLast := by
  have hwords : ∀ l ∈ "Database".toList :: dbs.names, Shell.IsWord ['\n'] l := by
    intro l hl
    rcases List.mem_cons.mp hl with rfl | hl
    · exact ⟨by decide, by decide⟩
    · exact dbs.isWord l hl
  have hunquoted : Shell.unquoted glob ['\n'] (Text.chomp dbs.listing) =
      "Database".toList :: dbs.names.flatMap (Shell.expand glob) := by
    rw [Shell.unquoted, Shell.words_chomp (by decide), Databases.listing,
      Shell.words_unlines (by decide) hwords]
    rfl
  have hsplit : (([' '] : Text).intercalate
      ("Database".toList :: dbs.names.flatMap (Shell.expand glob))).splitOn ' ' =
        "Database".toList :: shownWords glob dbs := by
    rw [Text.splitOn_intercalate_flatMap (by simp), List.flatMap_cons]
    rfl
  rw [existing, hunquoted, Shell.echo_of_head (by decide), decide_eq_true_eq,
    Text.chomp_grep_ne_nil_iff (by simp) (splitOn_name d).2,
    Text.occurs_append_cons (splitOn_name d).2, Text.infix_delimited_iff (splitOn_name d).1,
    Text.innerFields, hsplit]
  simp [Text.Occurs]

/-- Without a list no database counts as existing. -/
theorem existing_nil (glob : Text → List Text) (d : Db) : existing glob [] d = false := by
  cases d <;> rfl

/-! ## The list in the script -/

theorem head?_mysqlClient (glob : Text → List Text) (v : Vars) (user : Text)
    (password : Option Text) (apart : Bool) (statement : Text) :
    (mysqlClient glob v user password apart statement).head? = some "mysql".toList := rfl

theorem getLast?_mysqlClient (glob : Text → List Text) (v : Vars) (user : Text)
    (password : Option Text) (apart : Bool) (statement : Text) :
    (mysqlClient glob v user password apart statement).getLast? = some statement := by
  rw [mysqlClient, List.getLast?_append]
  rfl

/-- The list of the databases, as the requirements set it. -/
def Lists (dbs : Databases) (p : Params) (m : Params × Text × Text × Text) : Prop :=
  m.1 = p ∧ m.2.2.2 = if p.nomysql then Text.chomp dbs.listing else []

theorem ensures_listDatabases (dbs : Databases) (glob : Text → List Text) (v : Vars) :
    Ensures (Serves dbs) (· = Text.chomp dbs.listing) (listDatabases glob v) := by
  simp only [listDatabases, run_bind, capture_bind]
  refine ensures_call fun _ _ => ensures_call fun r hr => ?_
  have hlisting : r = ⟨0, dbs.listing⟩ :=
    hr _ rfl (head?_mysqlClient ..) (getLast?_mysqlClient ..)
  rw [hlisting]
  exact ensures_seq fun _ => ensures_seq fun _ => ensures_pure rfl

theorem ensures_requirements_lists (dbs : Databases) (glob : Text → List Text) (p : Params)
    (JAVA_HOME : Text) : Ensures (Serves dbs) (fun v => Lists dbs p v.mysql)
      (requirements glob (.ofParams p JAVA_HOME)) := by
  refine ensures_requirements glob _ (ensures_ite (fun hmysql => ?_) fun hmysql => ?_)
  · refine ensures_seq fun _ => ensures_seq fun _ => ?_
    refine ensures_bind (ensures_listDatabases dbs glob _) fun allDb hallDb => ensures_pure ?_
    exact ⟨rfl, hallDb.trans (if_pos hmysql).symm⟩
  · exact ensures_pure ⟨rfl, (if_neg hmysql).symm⟩

/-! ## The attempts of a run -/

/-- The script does not call Maven. -/
def NoMaven (p : Sh α) : Prop := Emits (fun c _ => c.isMvn = false) p

theorem attempts_append (t u : Trace) : attempts (t ++ u) = attempts t ++ attempts u := by
  simp [attempts]

theorem attempts_eq_nil {p : Sh α} (hp : NoMaven p) {t : Trace} {o : Outcome α}
    (h : Runs p t o) : attempts t = [] := by
  have hcons : ∀ (c : Cmd) r t, c.isMvn = false → attempts ((c, r) :: t) = attempts t := by
    intro c r t hc
    cases c with
    | mvn m a => cases hc
    | _ => rfl
  induction h with
  | ret a => rfl
  | exit n => rfl
  | call r _ ih =>
    rw [hcons _ _ _ (hp r).1]
    exact ih (hp r).2

/-! ## Migrations -/

/-- The compilation is started in the run. -/
def StartsCompilation (t : Trace) : Prop := ∃ x ∈ attempts t, x.stage = home .moduleSetup

/-- The run makes the migration of the database. -/
def Migrates (m : Migration) (d : Db) (t : Trace) : Prop :=
  ∃ x ∈ attempts t, x.stage.goal = .dbmigrator m d

/-- The databases that are migrated before a database. -/
def Db.earlier : Db → List Db
  | preview => []
  | shop => [preview]
  | backup => [preview, shop]

/-- The exit codes of Maven with which every stage before the migration of the database succeeds. -/
def SucceedsBefore (d : Db) (f : Mvn → Attempt → Int) : Prop :=
  finalCode f (home .moduleSetup) = 0 ∧
    ∀ d' ∈ d.earlier, ∀ m, finalCode f (suHome (.dbmigrator m d')) = 0

/-- **Existing databases are migrated in place**: in every run that comes to the migration of the
database, on a server that lists its databases when it is asked, the database is updated if and only
if it exists, and set up if and only if it does not. -/
def MigratesExisting (glob : Text → List Text) (JAVA_HOME : Text) (args : List Text)
    (dbs : Databases) (d : Db) : Prop :=
  ∀ f t o, Runs (setup glob JAVA_HOME args) t o → Agrees f t → (∀ e ∈ t, Serves dbs e.1 e.2) →
    StartsCompilation t → SucceedsBefore d f →
      (Migrates .update d t ↔ d.name ∈ dbs.names) ∧ (Migrates .setup d t ↔ d.name ∉ dbs.names)

/-- The database counts as existing: the list was asked for, and it shows the name before its last
word. -/
def CountsAsExisting (glob : Text → List Text) (p : Params) (dbs : Databases) (d : Db) : Prop :=
  p.nomysql = true ∧ d.name ∈ (shownWords glob dbs).dropLast

instance (glob : Text → List Text) (p : Params) (dbs : Databases) (d : Db) :
    Decidable (CountsAsExisting glob p dbs d) := inferInstanceAs (Decidable (_ ∧ _))

theorem existing_iff {glob : Text → List Text} {p : Params} {dbs : Databases} {v : Vars}
    (hv : Lists dbs p v.mysql) (d : Db) :
    existing glob v.allDb d = true ↔ CountsAsExisting glob p dbs d := by
  have hallDb : v.allDb = if p.nomysql then Text.chomp dbs.listing else [] := hv.2
  rw [hallDb, CountsAsExisting]
  cases p.nomysql with
  | true =>
    rw [if_pos rfl, existing_listing_iff]
    simp
  | false => simp [existing_nil]

section Chain

variable {glob : Text → List Text} {v : Vars} {f : Mvn → Attempt → Int}

theorem passes_of_finalCode {m : Mvn} (h : finalCode f m = 0) : Passes f m := by
  by_cases h2 : f m .first = 2
  · exact Or.inr h2
  · rw [finalCode, if_neg h2] at h
    exact Or.inl h

/-- The stages of the compilation, with the migration of the database among them. -/
theorem stages_compileCommerceChain (glob : Text → List Text) (v : Vars) (d : Db) : ∃ before after,
    stages (compileCommerceChain glob v) =
      before ++ suHome (migrationOf glob v d) :: after ∧
    ∀ i ∈ before, i = home .moduleSetup ∨ ∃ d' ∈ d.earlier, i = suHome (migrationOf glob v d') := by
  cases d with
  | preview => exact ⟨[_], _, rfl, by simp⟩
  | shop => exact ⟨[_, _], _, rfl, by simp [Db.earlier]⟩
  | backup => exact ⟨[_, _, _], _, rfl, by simp [Db.earlier]⟩

theorem migrationOf_of_mem_stages {m : Migration} {d : Db} {i : Mvn}
    (hi : i ∈ stages (compileCommerceChain glob v)) (hgoal : i.goal = .dbmigrator m d) :
    migrationOf glob v d = .dbmigrator m d := by
  simp only [compileCommerceChain, stages_stage, stages_nil, List.mem_cons, List.not_mem_nil,
    or_false] at hi
  rcases hi with rfl | rfl | rfl | rfl | rfl | rfl | rfl | rfl <;> cases hgoal <;> rfl

/-- In the chain of the compilation a database is migrated in one way. -/
theorem exists_mem_chain_iff (d : Db) (hf : SucceedsBefore d f) (m : Migration) :
    (∃ x ∈ chain f (stages (compileCommerceChain glob v)), x.stage.goal = .dbmigrator m d) ↔
      migrationOf glob v d = .dbmigrator m d := by
  constructor
  · rintro ⟨x, hx, hgoal⟩
    obtain ⟨i, hi, hxi⟩ := mem_chain f hx
    rw [stage_of_mem_tries f hxi] at hgoal
    exact migrationOf_of_mem_stages hi hgoal
  · intro hm
    obtain ⟨before, after, hstages, hbefore⟩ := stages_compileCommerceChain glob v d
    have hpass : ∀ i ∈ before, Passes f i := by
      intro i hi
      rcases hbefore i hi with rfl | ⟨d', hd', rfl⟩
      · exact passes_of_finalCode hf.1
      · exact passes_of_finalCode (hf.2 d' hd' _)
    rw [hstages, chain_append_of_passes f hpass, chain_cons]
    refine ⟨⟨suHome (migrationOf glob v d), .first, f (suHome (migrationOf glob v d)) .first⟩, ?_, hm⟩
    exact List.mem_append_right _ (List.mem_append_left _ ((mem_tries f).mpr (Or.inl rfl)))

end Chain

/-! ## Runs of the script -/

section Runs

variable {glob : Text → List Text} {JAVA_HOME : Text} {args : List Text} {dbs : Databases}
  {f : Mvn → Attempt → Int} {t : Trace} {o : Outcome Unit}

/-- The attempts of a run: it ends before the compilation, or they are those of the compilation, with
the list of the databases that the server gave. -/
theorem attempts_cases (h : Runs (setup glob JAVA_HOME args) t o) (hf : Agrees f t)
    (hserves : ∀ e ∈ t, Serves dbs e.1 e.2) :
    (attempts t = [] ∧ o.isReturned = false) ∨
      ∃ v : Vars, Lists dbs (paramsOf glob args) v.mysql ∧
        attempts t = chain f (stages (compileCommerceChain glob v)) := by
  rw [setup_eq] at h
  have hbefore : NoMaven (setupBefore glob JAVA_HOME args) :=
    (checked_setupBefore glob JAVA_HOME args).emits
  rcases runs_bind_iff.mp h with ⟨n, rfl, hn⟩ | ⟨v, t₁, t₂, rfl, h₁, h₂⟩
  · exact Or.inl ⟨attempts_eq_nil hbefore hn, rfl⟩
  · have hlists : Lists dbs (paramsOf glob args) v.mysql :=
      ensures_setupBefore glob JAVA_HOME args (ensures_requirements_lists dbs glob _ JAVA_HOME)
        t₁ v h₁ fun e he => hserves e (List.mem_append_left t₂ he)
    have hf₂ : Agrees f t₂ := (agrees_append.mp hf).2
    have hcompile : ∀ u (o' : Outcome Text), Runs (compileCommerce glob v) u o' → Agrees f u →
        attempts u = chain f (stages (compileCommerceChain glob v)) := by
      intro u o' hu hfu
      rw [attempts, (chains_compileCommerce glob v f u o' hu hfu).1, attempted_trace]
    refine Or.inr ⟨v, hlists, ?_⟩
    rw [attempts_append, attempts_eq_nil hbefore h₁, List.nil_append]
    rcases runs_bind_iff.mp h₂ with ⟨n, -, hn⟩ | ⟨coreDir, u₁, u₂, rfl, hu₁, hu₂⟩
    · exact hcompile _ _ hn hf₂
    · rw [attempts_append, hcompile _ _ hu₁ (agrees_append.mp hf₂).1,
        attempts_eq_nil (checked_of_plain (plain_finish v coreDir)).before.emits hu₂,
        List.append_nil]

/-- **The migration of a database** in a run that comes to it: the database is updated when it counts
as existing, and set up otherwise. -/
theorem migrates_iff {d : Db} (h : Runs (setup glob JAVA_HOME args) t o) (hf : Agrees f t)
    (hserves : ∀ e ∈ t, Serves dbs e.1 e.2) (hstarts : StartsCompilation t)
    (hsucceeds : SucceedsBefore d f) :
    (Migrates .update d t ↔ CountsAsExisting glob (paramsOf glob args) dbs d) ∧
      (Migrates .setup d t ↔ ¬ CountsAsExisting glob (paramsOf glob args) dbs d) := by
  rcases attempts_cases h hf hserves with ⟨hnil, -⟩ | ⟨v, hlists, hattempts⟩
  · obtain ⟨x, hx, -⟩ := hstarts
    rw [hnil] at hx
    cases hx
  simp only [Migrates, hattempts]
  rw [exists_mem_chain_iff d hsucceeds, exists_mem_chain_iff d hsucceeds,
    ← existing_iff hlists d, migrationOf]
  cases existing glob v.allDb d <;> simp

/-- The replies of a successful run are those of a server that lists its databases. -/
theorem serves_successful_run {p : Params} {t u : Trace}
    (ht : Runs (parameters glob args) t (.returned p))
    (hu : ∀ e ∈ u, e.2 = succeeding dbs.listing e.1) :
    ∀ e ∈ (.run ["id", "-u"], ⟨0, "0"⟩) :: (t ++ u), Serves dbs e.1 e.2 := by
  have hplain : ∀ e ∈ t, e.1.isPlain = true := ht.emits (plain_parameters glob args)
  rintro ⟨c, r⟩ he ws rfl hhead hlast
  rcases List.mem_cons.mp he with he | he
  · cases he
    exact absurd hhead (by decide)
  · rcases List.mem_append.mp he with he | he
    · exact absurd hhead (of_decide_eq_true (Bool.and_eq_true_iff.mp (hplain _ he)).1)
    · have hid : ws ≠ ["id".toList, "-u".toList] := by
        rintro rfl
        exact absurd hlast (by decide)
      rw [show r = succeeding dbs.listing (.run ws) from hu _ he, succeeding, if_neg hid,
        if_pos hlast]

/-- For accepted arguments there is a run that comes to the migrations. -/
theorem exists_run_migrating (dbs : Databases) (JAVA_HOME : Text)
    (hargs : ∃ p, Reaches (parameters glob args) p) :
    ∃ t o, Runs (setup glob JAVA_HOME args) t o ∧ Agrees (fun _ _ => 0) t ∧
      (∀ e ∈ t, Serves dbs e.1 e.2) ∧ StartsCompilation t := by
  obtain ⟨p, t, ht⟩ := hargs
  obtain ⟨u, hu, hrun⟩ := exists_successful_run glob dbs.listing JAVA_HOME ht
  have hplain : ∀ e ∈ t, e.1.isPlain = true := ht.emits (plain_parameters glob args)
  have hagrees : Agrees (fun _ _ => 0) ((.run ["id", "-u"], ⟨0, "0"⟩) :: (t ++ u)) := by
    intro m a r hm
    rcases List.mem_cons.mp hm with hm | hm
    · cases hm
    · rcases List.mem_append.mp hm with hm | hm
      · cases hplain _ hm
      · rw [show r = succeeding dbs.listing (.mvn m a) from hu _ hm]
        rfl
  have hserves := serves_successful_run ht hu
  refine ⟨_, _, hrun, hagrees, hserves, ?_⟩
  rcases attempts_cases hrun hagrees hserves with ⟨-, hreturned⟩ | ⟨v, -, hattempts⟩
  · cases hreturned
  · refine ⟨⟨home .moduleSetup, .first, 0⟩, ?_, rfl⟩
    rw [hattempts]
    exact List.mem_append_left _ ((mem_tries _).mpr (Or.inl rfl))

end Runs

/-- **Existing databases**: for accepted arguments, a database is migrated in place just in case it
exists exactly when it counts as existing just in case it exists. -/
theorem migratesExisting_iff (glob : Text → List Text) (JAVA_HOME : Text) (args : List Text)
    (hargs : ∃ p, Reaches (parameters glob args) p) (dbs : Databases) (d : Db) :
    MigratesExisting glob JAVA_HOME args dbs d ↔
      (CountsAsExisting glob (paramsOf glob args) dbs d ↔ d.name ∈ dbs.names) := by
  constructor
  · intro h
    obtain ⟨t, o, hrun, hf, hserves, hstarts⟩ := exists_run_migrating dbs JAVA_HOME hargs
    have hsucceeds : SucceedsBefore d fun _ _ => 0 := ⟨rfl, fun _ _ _ => rfl⟩
    obtain ⟨hupdate, -⟩ := h _ t o hrun hf hserves hstarts hsucceeds
    rw [← hupdate, (migrates_iff hrun hf hserves hstarts hsucceeds).1]
  · intro hcounts f t o hrun hf hserves hstarts hsucceeds
    obtain ⟨hupdate, hsetup⟩ := migrates_iff hrun hf hserves hstarts hsucceeds
    exact ⟨hupdate.trans hcounts, hsetup.trans (not_congr hcounts)⟩

/-- The arguments of an installation without the MySQL server are accepted. -/
theorem reaches_parameters_nomysql :
    ∃ p, Reaches (parameters (fun _ => []) ["--nomysql"]) p := by
  have h : (exec (answering (succeeding [])) (parameters (fun _ => []) ["--nomysql"]) ()).outcome =
      .returned (paramsOf (fun _ => []) ["--nomysql"]) := by decide
  exact ⟨_, reaches_of_exec _ h⟩

/-- The databases after a first installation without a database `backup`. -/
def databasesWithShop : Databases where
  names := ["information_schema", "mysql", "preview", "shop"]
  isWord := by
    have h : ∀ n ∈ (["information_schema", "mysql", "preview", "shop"] : List Text),
        n ≠ [] ∧ ∀ c ∈ ['\n'], c ∉ n := by decide
    exact fun n hn => ⟨(h n hn).1, (h n hn).2⟩

theorem migratesExisting_iff_preview :
    MigratesExisting (fun _ => []) [] ["--nomysql"] databasesWithShop .preview ↔
      (CountsAsExisting (fun _ => []) (paramsOf (fun _ => []) ["--nomysql"]) databasesWithShop
        .preview ↔ Db.preview.name ∈ databasesWithShop.names) :=
  migratesExisting_iff _ _ _ reaches_parameters_nomysql _ _

/-- The last database of the list is set up anew. -/
theorem not_migratesExisting_last :
    ¬ ∀ glob JAVA_HOME args, (∃ p, Reaches (parameters glob args) p) → ∀ dbs d,
      MigratesExisting glob JAVA_HOME args dbs d := by
  intro h
  obtain ⟨t, o, hrun, hf, hserves, hstarts⟩ :=
    exists_run_migrating databasesWithShop [] reaches_parameters_nomysql
  have hsucceeds : SucceedsBefore .shop fun _ _ => 0 := ⟨rfl, fun _ _ _ => rfl⟩
  obtain ⟨hupdate, -⟩ :=
    h _ _ _ reaches_parameters_nomysql databasesWithShop .shop _ t o hrun hf hserves hstarts hsucceeds
  have hexists : Migrates .update .shop t := hupdate.mpr (by decide)
  have hcounts := (migrates_iff hrun hf hserves hstarts hsucceeds).1.mp hexists
  exact absurd hcounts (by decide)

end Avetti
