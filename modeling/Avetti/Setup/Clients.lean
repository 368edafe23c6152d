import Avetti.Setup.Footprint
import Avetti.Setup.Passwords
import Avetti.Setup.Files

/-!
# The clients of the MySQL server

A client of the MySQL server takes the host and the port among its options. The parts of the script
that run one, and the parts that leave a file alone, are those that concern the connections to the
server.

## Main definitions

* `clientOption o ws`: the value of an option of a MySQL client
* `Cmd.CallsAt host port`: a client of the server that names a host uses the endpoint, and a `GRANT`
  is for it
* `PortWord port`: the port is a word of digits
* `Steady host port path p`: every command of `p` uses the endpoint, and none writes the file
* `Elsewhere path`: only the configuration of the database connections writes the file, if any part

## Main results

* `clientOption_mysqlClient`: the host and the port that the clients of the script name
* `isSteady_of_spares`: what spares a file does not write it, and calls no client
* `fileSystem_of_passes`: a command that passes a file leaves it
-/

open Script

namespace Avetti

variable {α β : Type}

/-! ## The options of a client -/

/-- The options on the command line of a MySQL client, with their values. A value follows its option
or is a part of its word; a password is always a part of the word. -/
def clientOptions : List Text → List (Char × Text)
  | ['-', 'p'] :: ws => clientOptions ws
  | ['-', o] :: w :: ws => (o, w) :: clientOptions ws
  | ('-' :: o :: value) :: ws => (o, value) :: clientOptions ws
  | _ :: ws => clientOptions ws
  | [] => []

/-- The value of an option: the last one that is given. -/
def clientOption (o : Char) (ws : List Text) : Option Text :=
  (((clientOptions ws).filter (·.1 = o)).getLast?).map (·.2)

/-- The hosts that are granted access, for a server on a host. -/
def grantee (host : Text) : Text := if host = "localhost".toList then "localhost" else "%"

/-- A client of the server that names a host uses the endpoint, and a `GRANT` is for it. -/
def Cmd.CallsAt (host port : Text) : Cmd → Prop
  | .run ws =>
    ((Cmd.run ws).isClient = true → ∀ h, clientOption 'h' ws = some h →
      h = host ∧ clientOption 'P' ws = some port) ∧
    (isGrant ws = true → ∃ (d : Db) (pwd : Text),
      ws.getLast? = some (grantStatement d.name (grantee host) pwd))
  | _ => True

theorem clientOptions_passwords {ps : List Text} (hps : ∀ w ∈ ps, "-p".toList <+: w)
    (ws : List Text) : ∃ qs, clientOptions (ps ++ ws) = qs ++ clientOptions ws ∧
      ∀ q ∈ qs, q.1 = 'p' := by
  induction ps with
  | nil => exact ⟨[], rfl, by simp⟩
  | cons w ps ih =>
    obtain ⟨qs, heq, hqs⟩ := ih fun w hw => hps w (List.mem_cons_of_mem _ hw)
    obtain ⟨value, rfl⟩ := hps w List.mem_cons_self
    rcases value with _ | ⟨c, value⟩
    · refine ⟨qs, ?_, hqs⟩
      rw [← heq]
      rfl
    · refine ⟨('p', c :: value) :: qs, ?_, ?_⟩
      · rw [List.cons_append, List.cons_append, ← heq]
        rfl
      · intro q hq
        rcases List.mem_cons.mp hq with rfl | hq
        · rfl
        · exact hqs q hq

/-- A variable without blanks in the sense of the script, and without a pattern, is one word. -/
theorem unquotedVar_eq {glob : Text → List Text} {pre x : Text} (hne : pre ++ x ≠ [])
    (h : ∀ c ∈ pre ++ x, c ∉ ['*', '?', '[', '\n']) : unquotedVar glob pre x = [pre ++ x] := by
  have hword : Shell.IsWord ['\n'] (pre ++ x) :=
    ⟨hne, fun c hc hmem => h c hmem (List.mem_append_right ['*', '?', '['] hc)⟩
  have hpattern : Shell.isPattern (pre ++ x) = false := by
    refine List.any_eq_false.mpr fun c hc hmem => h c hc ?_
    exact List.mem_append_left ['\n'] (of_decide_eq_true hmem)
  rw [unquotedVar, Shell.unquoted, Shell.words_of_isWord hword, List.flatMap_singleton,
    Shell.expand, hpattern, if_neg (by simp)]

/-! ## The clients of the script -/

/-- A port as the script passes it: a word of digits. -/
structure PortWord (port : Text) : Prop where
  ne_nil : port ≠ []
  digits : ∀ c ∈ port, c.isDigit = true

theorem PortWord.not_special {port : Text} (h : PortWord port) {c : Char} (hc : c ∈ port) :
    c ∉ ['*', '?', '[', '\n', '/', '&', '\\'] := by
  have hspecial : ∀ c ∈ ['*', '?', '[', '\n', '/', '&', '\\'], c.isDigit = false := by decide
  exact fun hmem => absurd ((h.digits c hc).symm.trans (hspecial c hmem)) (by decide)

theorem PortWord.verbatim {port : Text} (h : PortWord port) : Sed.Verbatim port := by
  intro c hc hmem
  refine h.not_special hc ?_
  have hsubset : "/&\\\n".toList ⊆ ['*', '?', '[', '\n', '/', '&', '\\'] := by decide
  exact hsubset hmem

theorem PortWord.quote_not_mem {port : Text} (h : PortWord port) : '"' ∉ port :=
  fun hc => absurd (h.digits '"' hc) (by decide)

section Clients

variable {glob : Text → List Text} {v : Vars} {port : Text}

/-- The options of the client: user, password, host, port and statement. -/
theorem clientOptions_mysqlClient (hglob : Pathnames glob) (hhost : v.mysqlHost = "localhost".toList)
    (hport : PortWord v.mysqlPort) {user : Text} (huser : user ≠ []) {pwd : Option Text}
    (hpwd : ∀ p ∈ pwd, '\n' ∉ p) (apart : Bool) (statement : Text) : ∃ qs,
      clientOptions (mysqlClient glob v user pwd apart statement) = ('u', user) :: (qs ++
        [('h', "localhost".toList), ('P', v.mysqlPort), ('e', statement)]) ∧
      ∀ q ∈ qs, q.1 = 'p' := by
  have hports : ∀ pre : Text, (∀ c ∈ pre, c ∉ ['*', '?', '[', '\n']) →
      unquotedVar glob pre v.mysqlPort = [pre ++ v.mysqlPort] := by
    intro pre hpre
    refine unquotedVar_eq (by simp [hport.ne_nil]) fun c hc => ?_
    rcases List.mem_append.mp hc with hc | hc
    · exact hpre c hc
    · exact fun h => hport.not_special hc (List.mem_append_left ['/', '&', '\\'] h)
  have hhosts : ∀ pre : Text, (∀ c ∈ pre, c ∉ ['*', '?', '[', '\n']) →
      unquotedVar glob pre v.mysqlHost = [pre ++ "localhost".toList] := by
    intro pre hpre
    rw [hhost]
    refine unquotedVar_eq (by simp) fun c hc => ?_
    rcases List.mem_append.mp hc with hc | hc
    · exact hpre c hc
    · exact (by decide : ∀ c ∈ "localhost".toList, c ∉ ['*', '?', '[', '\n']) c hc
  have hwords : ∀ w ∈ pwd.elim [] (unquotedVar glob "-p"), "-p".toList <+: w := by
    cases pwd with
    | none => simp
    | some p => exact fun w => prefix_of_mem_unquotedVar hglob (by simp) (by decide) (hpwd p rfl)
  obtain ⟨c, user, rfl⟩ := List.exists_cons_of_ne_nil huser
  obtain ⟨d, rest, hrest⟩ := List.exists_cons_of_ne_nil hport.ne_nil
  -- the port is not empty, so an option that stands apart takes it and nothing else
  have htail : clientOptions ((if apart then ["-h".toList] ++ unquotedVar glob [] v.mysqlHost ++
        ["-P".toList] ++ unquotedVar glob [] v.mysqlPort
      else unquotedVar glob "-h" v.mysqlHost ++ unquotedVar glob "-P" v.mysqlPort) ++
        ["-e".toList, statement]) =
      [('h', "localhost".toList), ('P', v.mysqlPort), ('e', statement)] := by
    rw [hports [] (by simp), hports "-P" (by decide), hhosts [] (by simp), hhosts "-h" (by decide),
      hrest]
    cases apart <;> rfl
  obtain ⟨qs, heq, hqs⟩ := clientOptions_passwords hwords ((if apart then
    ["-h".toList] ++ unquotedVar glob [] v.mysqlHost ++ ["-P".toList] ++
      unquotedVar glob [] v.mysqlPort
    else unquotedVar glob "-h" v.mysqlHost ++ unquotedVar glob "-P" v.mysqlPort) ++
      ["-e".toList, statement])
  refine ⟨qs, ?_, hqs⟩
  rw [← htail, ← heq, mysqlClient]
  simp only [List.append_assoc, List.cons_append, List.nil_append]
  rfl

theorem clientOption_mysqlClient (hglob : Pathnames glob) (hhost : v.mysqlHost = "localhost".toList)
    (hport : PortWord v.mysqlPort) {user : Text} (huser : user ≠ []) {pwd : Option Text}
    (hpwd : ∀ p ∈ pwd, '\n' ∉ p) (apart : Bool) (statement : Text) :
    clientOption 'h' (mysqlClient glob v user pwd apart statement) = some "localhost".toList ∧
      clientOption 'P' (mysqlClient glob v user pwd apart statement) = some v.mysqlPort := by
  obtain ⟨qs, heq, hqs⟩ :=
    clientOptions_mysqlClient hglob hhost hport huser hpwd apart statement
  have hnone : ∀ o, o ≠ 'p' → qs.filter (fun q => decide (q.1 = o)) = [] := by
    intro o ho
    refine List.filter_eq_nil_iff.mpr fun q hq h => ho ?_
    rw [← of_decide_eq_true h, hqs q hq]
  constructor
  · rw [clientOption, heq, List.filter_cons_of_neg (by simp), List.filter_append,
      hnone 'h' (by decide)]
    rfl
  · rw [clientOption, heq, List.filter_cons_of_neg (by simp), List.filter_append,
      hnone 'P' (by decide)]
    rfl

end Clients

/-! ## Parts without clients -/

/-- The command uses the endpoint, and neither writes nor moves the file. -/
def Cmd.IsSteady (host port path : Text) (c : Cmd) : Prop :=
  c.CallsAt host port ∧ c.passes path = true

/-- Every command of the script uses the endpoint, and none writes or moves the file. -/
structure Steady (host port path : Text) (p : Sh α) : Prop where
  emits : Emits (fun c _ => c.IsSteady host port path) p

section Steady

variable {host port path : Text}

/-- A command that is no client neither connects nor grants. -/
theorem callsAt_of_isClient {c : Cmd} (hclient : c.isClient = false) : c.CallsAt host port := by
  cases c with
  | run ws =>
    refine ⟨fun h => absurd (h.symm.trans hclient) (by decide), fun h => ?_⟩
    have htake : ws.take 2 = ["mysql".toList, "-uroot".toList] :=
      of_decide_eq_true (Bool.and_eq_true_iff.mp h).1
    rcases ws with _ | ⟨a, _ | ⟨b, ws⟩⟩
    · cases htake
    · cases htake
    · simp only [List.take_succ_cons, List.take_zero, List.cons.injEq, and_true] at htake
      obtain ⟨rfl, rfl⟩ := htake
      cases hclient
  | _ => trivial

theorem isSteady_of_spares {c : Cmd} (hc : c.spares path = true) : c.IsSteady host port path := by
  obtain ⟨hclient, hpasses⟩ := Bool.and_eq_true_iff.mp hc
  rw [Bool.not_eq_true'] at hclient
  exact ⟨callsAt_of_isClient hclient, hpasses⟩

theorem Spares.steady {p : Sh α} (hp : Spares path p) : Steady host port path p :=
  ⟨Emits.mono (fun _ _ hc => isSteady_of_spares hc) hp⟩

theorem Steady.bind {p : Sh α} {q : α → Sh β} (hp : Steady host port path p)
    (hq : ∀ a, Steady host port path (q a)) : Steady host port path (p >>= q) :=
  ⟨emits_bind hp.emits fun a => (hq a).emits⟩

theorem steady_call {c : Cmd} {k : Reply → Sh α} (hc : c.IsSteady host port path)
    (hk : ∀ r, Steady host port path (k r)) : Steady host port path (call c k) :=
  ⟨emits_call (fun _ => hc) fun r => (hk r).emits⟩

theorem steady_pure (a : α) : Steady host port path (pure a : Sh α) := ⟨trivial⟩

theorem steady_ite {c : Prop} [Decidable c] {p q : Sh α} (hp : Steady host port path p)
    (hq : Steady host port path q) : Steady host port path (if c then p else q) :=
  ⟨emits_ite hp.emits hq.emits⟩

theorem steady_run {ws : List Text} (h : (Cmd.run ws).IsSteady host port path) :
    Steady host port path (run ws) := steady_call h fun _ => steady_pure _

end Steady

/-- A command that neither writes nor moves a file leaves it. -/
theorem fileSystem_of_passes {path : Text} {c : Cmd} (h : c.passes path = true) (other : Outside)
    (s : Files) : (fileSystem other s c).2 path = s path := by
  obtain ⟨htarget, hmoved⟩ := Bool.and_eq_true_iff.mp h
  have htarget : c.target ≠ some path := of_decide_eq_true htarget
  have hmoved : c.moved ≠ some path := of_decide_eq_true hmoved
  cases c with
  | run ws =>
    have hne : ∀ {cmd file : Text} {ws : List Text}, cmd ∈ ["sed".toList, "cp".toList,
        "mv".toList, "dos2unix".toList] → (Cmd.run (cmd :: ws)).target ≠ some path →
        (cmd :: ws).getLast? = some file → path ≠ file := by
      rintro cmd file ws hcmd hne hlast rfl
      refine hne ?_
      rw [Cmd.target, if_pos ?_, hlast]
      simpa using hcmd
    rcases ws with _ | ⟨a, _ | ⟨b, _ | ⟨c, _ | ⟨d, _ | ⟨e, ws⟩⟩⟩⟩⟩
    · rfl
    · rfl
    · -- the line ends of a file are changed
      simp only [fileSystem]
      split_ifs with hcat hconvert
      · rfl
      · subst hconvert
        exact Function.update_of_ne (hne (by decide) htarget rfl) _ _
      · rfl
    · -- a file is copied or moved
      rw [fileSystem]
      by_cases hgrep : a = "grep".toList
      · rw [if_pos hgrep]
      · rw [if_neg hgrep]
        split_ifs with hcp hmv
        · subst hcp
          exact keeps_cp b (hne (by decide) htarget rfl) s
        · subst hmv
          have hsrc : path ≠ b := fun heq => hmoved (congrArg some heq.symm)
          exact keeps_mv hsrc (hne (by decide) htarget rfl) s
        · rfl
    · -- a file is edited
      simp only [fileSystem]
      split_ifs with hsed
      · obtain ⟨rfl, rfl⟩ := hsed
        exact Function.update_of_ne (hne (by decide) htarget rfl) _ _
      · rfl
    · rfl
  | write text file =>
    exact Function.update_of_ne (fun heq => htarget (congrArg some heq.symm)) _ _
  | append text file =>
    exact Function.update_of_ne (fun heq => htarget (congrArg some heq.symm)) _ _
  | test op file =>
    simp only [fileSystem]
    split_ifs <;> rfl
  | _ => rfl

/-- A file that only the configuration of the database connections writes, if any part. -/
structure Elsewhere (path : Text) : Prop where
  host : path ∉ hostFiles
  system : path ∉ systemFiles
  httpd : ∀ v, path ∉ httpdFiles v
  pom : ∀ code, path ≠ pomFile code
  solr : path ∉ ["/avetti/solr46/preview-solr".toList, "/avetti/solr46/shop-solr".toList]
  cron : path ∉ ["/etc/logrotate.d/tomcat".toList, "cron.tmp".toList]
  patterns : path ≠ contextFile "solr-*.xml"

theorem ne_append_of_not_suffix {p x y : Text} (h : y.isSuffixOf p = false) : p ≠ x ++ y := by
  rintro rfl
  have hsuffix : y.isSuffixOf (x ++ y) = true :=
    List.isSuffixOf_iff_suffix.mpr (List.suffix_append x y)
  exact absurd (hsuffix.symm.trans h) (by decide)

/-- A file with none of the names that the other parts write. -/
theorem elsewhere_of_names {path : Text} (h : path ∉ hostFiles ++ (systemFiles ++
      ["/avetti/solr46/preview-solr".toList, "/avetti/solr46/shop-solr".toList] ++
      ["/etc/logrotate.d/tomcat".toList, "cron.tmp".toList] ++ [contextFile "solr-*.xml"]))
    (hsuffix : ∀ y ∈ (["/conf/httpd.conf", "/conf/extra/httpd-vhosts.conf",
      "/conf/extra/httpd-ssl.conf", "/conf/extra/avetti.conf", "/pom.xml"] : List Text),
      y.isSuffixOf path = false) : Elsewhere path := by
  simp only [List.mem_append, not_or, List.mem_singleton] at h
  obtain ⟨hhost, ⟨⟨hsystem, hsolr⟩, hcron⟩, hpatterns⟩ := h
  have hne : ∀ y ∈ (["/conf/httpd.conf", "/conf/extra/httpd-vhosts.conf",
      "/conf/extra/httpd-ssl.conf", "/conf/extra/avetti.conf", "/pom.xml"] : List Text),
      ∀ x, path ≠ x ++ y := fun y hy x => ne_append_of_not_suffix (hsuffix y hy)
  refine ⟨hhost, hsystem, fun v hv => ?_, fun code => ?_, hsolr, hcron, hpatterns⟩
  · simp only [httpdFiles, List.mem_cons, List.not_mem_nil, or_false] at hv
    rcases hv with hv | hv | hv | hv
    · exact hne _ (by simp) _ hv
    · exact hne _ (by simp) _ hv
    · exact hne _ (by simp) _ hv
    · exact hne _ (by simp) _ hv
  · exact hne "/pom.xml".toList (by simp) (codeDir code)

theorem elsewhere_nil : Elsewhere [] := elsewhere_of_names (by decide) (by decide)

theorem elsewhere_settingsFile : Elsewhere settingsFile :=
  elsewhere_of_names (by decide) (by decide)

/-- The files of the database connections. -/
def contextNames : List Text := ["preview.xml", "ROOT.xml"]

theorem elsewhere_contextFile {name : Text} (hname : name ∈ contextNames) :
    Elsewhere (contextFile name) := by
  simp only [contextNames, List.mem_cons, List.not_mem_nil, or_false] at hname
  rcases hname with rfl | rfl
  · exact elsewhere_of_names (by decide) (by decide)
  · exact elsewhere_of_names (by decide) (by decide)

end Avetti
