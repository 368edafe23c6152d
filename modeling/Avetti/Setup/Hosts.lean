import Avetti.Setup.HostEntry

/-!
# The host in the files of the system

`setup.sh` enters the name of the host in `/etc/sysconfig/network`, in `/etc/hosts` and in the
virtual hosts of the web server. Each of the three edits is left out when `grep` finds the name in
the file. The name is then a regular expression, whose dots match any character, and it is found
anywhere in a line.

## Main definitions

* `HostSystem`: a system that the host is entered in
* `hostSteps`: the steps that enter it
* `TakesEffect r`: afterwards the host is in the three files, and nothing else has changed in
  `/etc/hosts`
* `Found host t`: `grep` finds the host in the text
* `GuardsHold r`: the condition on the files

## Main results

* `takesEffect_iff`: when the edits take effect
-/

open Script Sed

namespace Avetti

/-! ## The steps -/

/-- The steps that make the host known. -/
def hostSteps (v : Vars) : Sh Unit := do
  setHostname v
  setHosts v
  configureHttpd v

/-- The file that the virtual hosts are copied from. -/
def templatePath : Text := "/avetti/httpd-conf/conf/extra/httpd-vhosts.conf"

/-- A system with a host that the name server does not know. The file with the virtual hosts is the
one that comes with the scripts, and the path of the web server has nothing in it that an escape
could be read from. -/
structure HostSystem where
  name : HostName
  vars : Vars
  named : vars.appHostName = name.text
  path : ∀ c ∈ vars.httpdPath, c ≠ '\\' ∧ c ≠ '\n'
  other : Outside
  unknown : (other.reply (.run ["dig".toList, "+short".toList, name.text])).out = []
  files : Files
  template : files templatePath = some vhostsTemplate

namespace HostSystem

variable (r : HostSystem)

/-- The name of the host. -/
def host : Text := r.name.text

/-- There is a directory `/etc/sysconfig`. -/
def HasSysconfig : Prop := (r.other.reply (.test "-d".toList "/etc/sysconfig".toList)).status = 0

instance : Decidable r.HasSysconfig := inferInstanceAs (Decidable (_ = _))

/-- The files afterwards. -/
def after : Files := (exec (fileSystem r.other) (hostSteps r.vars) r.files).state

end HostSystem

/-! ## The effect -/

/-- The fields on a line of `/etc/hosts` before a comment: the address, and then the names. -/
def hostFields (l : Text) : List Text := Shell.words blanks (l.takeWhile (· ≠ '#'))

/-- A line of `/etc/hosts` for the local address. -/
def IsLoopback (l : Text) : Prop := (hostFields l).head? = some "127.0.0.1".toList

instance (l : Text) : Decidable (IsLoopback l) := inferInstanceAs (Decidable (_ = _))

/-- The names on a line of `/etc/hosts`. -/
def hostNames (l : Text) : List Text := (hostFields l).tail

/-- A line for the local address lists the host. -/
def ListsHost (host t : Text) : Prop := ∃ l ∈ t.splitOn '\n', IsLoopback l ∧ host ∈ hostNames l

instance (host t : Text) : Decidable (ListsHost host t) :=
  inferInstanceAs (Decidable (∃ l ∈ t.splitOn '\n', _))

/-- The line of `/etc/sysconfig/network` for the host. -/
def hostnameLine (host : Text) : Text := "HOSTNAME=".toList ++ host

/-- **The edits take effect**: the host is listed for the local address, named as the host of the
system and the name of a virtual host, and only lines for the local address have changed. -/
structure TakesEffect (r : HostSystem) : Prop where
  listed : ListsHost r.host (r.after.read "/etc/hosts")
  others : List.Forall₂ (fun l l' => IsLoopback l ∨ l' = l)
    ((r.files.read "/etc/hosts").splitOn '\n') ((r.after.read "/etc/hosts").splitOn '\n')
  network : r.HasSysconfig →
    hostnameLine r.host ∈ (r.after.read "/etc/sysconfig/network").splitOn '\n'
  vhost : r.host ∈ vhostNames (r.after.read (vhostsConf r.vars))

/-! ## The condition -/

/-- `grep` finds the host in the text: a line has a text in it that agrees with the host where the
host has no dot. -/
def Found (host t : Text) : Prop :=
  ∃ l ∈ t.splitOn '\n', (Regex.plain (host.map Regex.atomOf)).finds l = true

instance (host t : Text) : Decidable (Found host t) :=
  inferInstanceAs (Decidable (∃ l ∈ t.splitOn '\n', _))

/-- The line starts as one for the local address, with any characters for the dots. -/
def StartsAlike (l : Text) : Prop :=
  ((Regex.plain ("127.0.0.1".toList.map Regex.atomOf)).longest l).isSome = true

instance (l : Text) : Decidable (StartsAlike l) := inferInstanceAs (Decidable (_ = _))

/-- The condition on `/etc/hosts`: where the host is found it is listed; otherwise a line that starts
alike has no comment, and all of them are lines for the local address. -/
def HostsHold (host t : Text) : Prop :=
  if Found host t then ListsHost host t
  else (∃ l ∈ t.splitOn '\n', StartsAlike l ∧ '#' ∉ l) ∧
    ∀ l ∈ t.splitOn '\n', StartsAlike l → IsLoopback l

instance (host t : Text) : Decidable (HostsHold host t) := by
  unfold HostsHold
  infer_instance

/-- The condition on the virtual hosts: where the host is found it names one; otherwise the later
edits of the copy leave it. -/
def VhostsHold (host t : Text) : Prop :=
  if Found host t then host ∈ vhostNames t else Lasting host

/-- The condition on the three files. -/
structure GuardsHold (r : HostSystem) : Prop where
  hosts : HostsHold r.host (r.files.read "/etc/hosts")
  network : r.HasSysconfig → Found r.host (r.files.read "/etc/sysconfig/network") →
    hostnameLine r.host ∈ (r.files.read "/etc/sysconfig/network").splitOn '\n'
  vhosts : VhostsHold r.host (r.files.read (vhostsConf r.vars))

/-! ## The files after each step -/

theorem chomp_grep_host (n : HostName) (t : Text) :
    Text.chomp (Regex.grep n.text t) = [] ↔ ¬ Found n.text t := by
  have hparse : Regex.parse n.text = some (Regex.plain (n.text.map Regex.atomOf)) :=
    Regex.parse_of_forall n.text_ne_nil (not_mem_of_isHostChar _ (by decide) n.isHostChar)
  have hnil : (Regex.plain (n.text.map Regex.atomOf)).finds [] = false :=
    Regex.finds_plain_nil (by simpa using n.text_ne_nil)
  rw [Regex.grep, hparse, Option.elim_some, Text.chomp_grep_eq_nil_iff hnil, Found]
  simp

/-- An edit that is left out where the host is found. -/
theorem exec_unless_found (other : Outside) (n : HostName) (path : Text) (p q : Sh Unit)
    (s : Files) : (exec (fileSystem other) (capture ["grep".toList, n.text, path] >>= fun found =>
      if found = [] then p else q) s).state =
        if Found n.text (s.read path) then (exec (fileSystem other) q s).state
        else (exec (fileSystem other) p s).state := by
  have hcall : (exec (fileSystem other) (capture ["grep".toList, n.text, path] >>= fun found =>
      if found = [] then p else q) s).state =
        (exec (fileSystem other)
          (if Text.chomp (Regex.grep n.text (s.read path)) = [] then p else q) s).state := rfl
  have hgrep := chomp_grep_host n (s.read path)
  rw [hcall]
  by_cases hfound : Found n.text (s.read path)
  · rw [if_pos hfound, if_neg fun h => hgrep.mp h hfound]
  · rw [if_neg hfound, if_pos (hgrep.mpr hfound)]

/-- The edit of `/etc/hosts` adds the host to the lines that start alike. -/
theorem stream_hosts (n : HostName) (other : Text → Text → Text) :
    stream other ("/^127.0.0.1/ s/$/ ".toList ++ n.text ++ "/".toList) =
      Appending.apply ⟨Regex.plain ("127.0.0.1".toList.map Regex.atomOf),
        (' ' :: n.text).map .lit⟩ := by
  have hverbatim : Verbatim (' ' :: n.text) :=
    verbatim_cons.mpr ⟨by decide, verbatim_of_isHostChar n.isHostChar⟩
  have hshape : "/^127.0.0.1/ s/$/ ".toList ++ n.text ++ "/".toList =
      "/^".toList ++ "127.0.0.1".toList ++ "/ s/$/".toList ++ (' ' :: n.text) ++ "/".toList := by
    have hstart : "/^127.0.0.1/ s/$/ ".toList =
        "/^".toList ++ "127.0.0.1".toList ++ "/ s/$/".toList ++ [' '] := rfl
    rw [hstart]
    simp only [List.append_assoc, List.cons_append, List.nil_append]
  rw [hshape]
  exact stream_of_parse (Appending.parse_script "127.0.0.1" (by decide) (by decide) hverbatim)

section Steps

variable (r : HostSystem)

theorem finishes_writeHostname (v : Vars) : Finishes (writeHostname v) := by
  simp only [writeHostname, fileTest_bind, capture_bind, run_bind]
  refine fun _ => finishes_ite (fun _ => finishes_ite (fun _ => ?_) trivial) fun _ => ?_
  · exact fun _ _ => trivial
  · exact finishes_ite (fun _ => finishes_ite (fun _ _ => trivial) trivial) trivial

theorem finishes_setHostname (v : Vars) : Finishes (setHostname v) :=
  finishes_bind (finishes_writeHostname v) fun _ _ => trivial

theorem finishes_setHosts (v : Vars) : Finishes (setHosts v) := by
  simp only [setHosts, capture_bind, run_bind]
  exact fun _ => finishes_ite (fun _ => finishes_ite (fun _ => trivial) trivial) trivial

/-- `/etc/sysconfig/network` after its edit. -/
theorem setHostname_network (hdir : r.HasSysconfig) :
    ((exec (fileSystem r.other) (setHostname r.vars) r.files).state).read
        "/etc/sysconfig/network" =
      if Found r.host (r.files.read "/etc/sysconfig/network") then
        r.files.read "/etc/sysconfig/network"
      else "NETWORKING=yes\n".toList ++ (hostnameLine r.host ++ "\n".toList) := by
  have hstatus : decide ((r.other.reply (.test "-d".toList "/etc/sysconfig".toList)).status = 0) = true :=
    decide_eq_true hdir
  -- what `hostname` answers does not matter for the file
  have hwrite : (exec (fileSystem r.other) (setHostname r.vars) r.files).state =
      (exec (fileSystem r.other) (writeHostname r.vars) r.files).state := by
    rw [setHostname, (finishes_writeHostname r.vars).exec_bind_state]
    rfl
  have hnetwork : (exec (fileSystem r.other) (writeHostname r.vars) r.files).state =
      (exec (fileSystem r.other) (capture ["grep", r.host, "/etc/sysconfig/network"] >>= fun found =>
        if found = [] then do
          let _ ← run ["mv", "/etc/sysconfig/network", "/etc/sysconfig/old-network"]
          writeTo "NETWORKING=yes\n" "/etc/sysconfig/network"
          appendTo ("HOSTNAME=".toList ++ r.host ++ "\n".toList) "/etc/sysconfig/network"
        else pure ()) r.files).state := by
    rw [writeHostname, fileTest_bind, exec_call_state, r.named]
    exact congrArg (fun p => (exec (fileSystem r.other) p r.files).state) (if_pos hstatus)
  rw [hwrite, hnetwork, HostSystem.host, exec_unless_found]
  by_cases hfound : Found r.name.text (r.files.read "/etc/sysconfig/network")
  · rw [if_pos hfound, if_pos hfound]
    rfl
  · rw [if_neg hfound, if_neg hfound]
    rw [run_bind, exec_call_state, exec_write_append, Files.read_write_self]
    rfl

/-- `/etc/hosts` after its edit. -/
theorem setHosts_hosts (s : Files) :
    ((exec (fileSystem r.other) (setHosts r.vars) s).state).read "/etc/hosts" =
      if Found r.host (s.read "/etc/hosts") then s.read "/etc/hosts"
      else stream r.other.sed ("/^127.0.0.1/ s/$/ ".toList ++ r.host ++ "/".toList) (s.read "/etc/hosts") := by
  have hdig : (exec (fileSystem r.other) (setHosts r.vars) s).state =
      (exec (fileSystem r.other) (capture ["grep", r.host, "/etc/hosts"] >>= fun found =>
        if found = [] then do
          let _ ← run (sed ("/^127.0.0.1/ s/$/ ".toList ++ r.host ++ "/".toList) "/etc/hosts")
        else pure ()) s).state := by
    have hout : Text.chomp (r.other.reply (.run ["dig".toList, "+short".toList, r.name.text])).out = [] := by
      rw [r.unknown]
      rfl
    rw [setHosts, capture_bind, exec_call_state, r.named]
    exact congrArg (fun p => (exec (fileSystem r.other) p s).state) (if_pos hout)
  rw [hdig, HostSystem.host, exec_unless_found]
  by_cases hfound : Found r.name.text (s.read "/etc/hosts")
  · rw [if_pos hfound, if_pos hfound]
    rfl
  · rw [if_neg hfound, if_neg hfound]
    rw [run_bind, exec_call_state, fileSystem_sed]
    refine Files.read_modify_self s ?_ _
    rw [stream_hosts]
    rfl

end Steps

/-! ## The lines of the hosts -/

/-- A line of `/etc/hosts` after its edit. -/
def hostsLine (host l : Text) : Text := if StartsAlike l then l ++ ' ' :: host else l

theorem splitOn_hosts (n : HostName) (other : Text → Text → Text) (t : Text) :
    (stream other ("/^127.0.0.1/ s/$/ ".toList ++ n.text ++ "/".toList) t).splitOn '\n' =
      (t.splitOn '\n').map (hostsLine n.text) := by
  have hnl : '\n' ∉ expand ((' ' :: n.text).map .lit) [] := by
    have hverbatim : Verbatim (' ' :: n.text) :=
      verbatim_cons.mpr ⟨by decide, verbatim_of_isHostChar n.isHostChar⟩
    rw [expand_map_lit]
    exact fun h => hverbatim '\n' h (by decide)
  rw [stream_hosts, Appending.splitOn_apply rfl hnl]
  refine List.map_congr_left fun l _ => ?_
  rw [Appending.line, expand_map_lit]
  rfl

section Lines

variable {n : HostName} {l : Text}

/-- The name of the host is at least not overlooked: where it is a name it is found. -/
theorem not_mem_hostNames (hfound : ¬ (Regex.plain (n.text.map Regex.atomOf)).finds l = true) :
    n.text ∉ hostNames l := by
  intro hmem
  have hocc := Shell.occurs_of_mem_words (List.mem_of_mem_tail hmem)
  have hline : Text.Occurs n.text l := hocc.trans (List.takeWhile_prefix _).isInfix
  refine hfound (Regex.finds_of_occurs (fun h => ?_) hline)
  exact not_mem_of_isHostChar ['\n'] (by decide) n.isHostChar '\n' h (by decide)

/-- A line that starts alike has the first digit of the address. -/
theorem StartsAlike.one_mem (hl : StartsAlike l) : '1' ∈ l := by
  obtain ⟨m, hm, hmatch⟩ := Regex.isSome_longest_plain_iff.mp hl
  have hchars : "127.0.0.1".toList.map Regex.atomOf =
      .char '1' :: "27.0.0.1".toList.map Regex.atomOf := rfl
  rw [hchars] at hmatch
  obtain ⟨c, w, hc, -, rfl⟩ := List.forall₂_cons_left_iff.mp hmatch
  rw [Atom.accepts_char] at hc
  exact hm.subset (hc.2 ▸ List.mem_cons_self)

/-- The edit of a line with a comment ends up in the comment. -/
theorem hostFields_hostsLine_of_mem (hcomment : '#' ∈ l) :
    hostFields (hostsLine n.text l) = hostFields l := by
  rw [hostsLine]
  split_ifs
  · have hsame : (l ++ ' ' :: n.text).takeWhile (· ≠ '#') = l.takeWhile (· ≠ '#') := by
      rw [List.takeWhile_append, if_neg]
      intro hlength
      have hwhole := (List.takeWhile_prefix _).eq_of_length hlength
      have hnot := List.mem_takeWhile_imp (hwhole ▸ hcomment)
      simp at hnot
    rw [hostFields, hsame, hostFields]
  · rfl

/-- The edit of a line without a comment adds the host. -/
theorem hostFields_hostsLine (hl : StartsAlike l) (hcomment : '#' ∉ l) :
    hostFields l ≠ [] ∧ hostFields (hostsLine n.text l) = hostFields l ++ [n.text] := by
  have hall : ∀ t : Text, '#' ∉ t → t.takeWhile (· ≠ '#') = t := fun t ht =>
    List.takeWhile_eq_self_iff.mpr fun c hc => decide_eq_true fun h => ht (h ▸ hc)
  have hsharp : '#' ∉ l ++ ' ' :: n.text := by
    have hname : '#' ∉ n.text := fun h =>
      not_mem_of_isHostChar ['#'] (by decide) n.isHostChar '#' h List.mem_cons_self
    simp [hcomment, hname]
  refine ⟨?_, ?_⟩
  · have hone : '1' ∉ blanks := by decide
    obtain ⟨w, hw, -⟩ := (Shell.exists_mem_words_iff hone).mpr hl.one_mem
    rw [hostFields, hall l hcomment]
    exact List.ne_nil_of_mem hw
  · rw [hostsLine, if_pos hl, hostFields, hall _ hsharp, hostFields, hall l hcomment,
      Shell.words_append_separator (by decide),
      words_of_isHostChar n.text_ne_nil n.isHostChar]

theorem isLoopback_hostsLine (l : Text) : IsLoopback (hostsLine n.text l) ↔ IsLoopback l := by
  by_cases hcomment : '#' ∈ l
  · rw [IsLoopback, hostFields_hostsLine_of_mem hcomment, IsLoopback]
  · by_cases hl : StartsAlike l
    · obtain ⟨hne, hfields⟩ := hostFields_hostsLine (n := n) hl hcomment
      rw [IsLoopback, hfields, List.head?_append_of_ne_nil _ hne, IsLoopback]
    · rw [hostsLine, if_neg hl]

/-- The edit lists the host unless it ends up in a comment. -/
theorem mem_hostNames_hostsLine (hl : StartsAlike l)
    (hfound : ¬ (Regex.plain (n.text.map Regex.atomOf)).finds l = true) :
    n.text ∈ hostNames (hostsLine n.text l) ↔ '#' ∉ l := by
  by_cases hcomment : '#' ∈ l
  · refine iff_of_false ?_ (not_not.mpr hcomment)
    rw [hostNames, hostFields_hostsLine_of_mem hcomment]
    exact not_mem_hostNames hfound
  · obtain ⟨hne, hfields⟩ := hostFields_hostsLine (n := n) hl hcomment
    refine iff_of_true ?_ hcomment
    rw [hostNames, hfields, List.tail_append_of_ne_nil hne]
    exact List.mem_append_right _ (List.mem_singleton_self _)

end Lines

/-! ## The three files -/

section Parts

variable (n : HostName) (t : Text)

/-- `/etc/hosts`: the edit lists the host, and spares the other lines, exactly when the condition
holds. -/
theorem hostsHold_iff {other : Text → Text → Text} {t' : Text} (ht' : t' = if Found n.text t then t
    else stream other ("/^127.0.0.1/ s/$/ ".toList ++ n.text ++ "/".toList) t) :
    HostsHold n.text t ↔ ListsHost n.text t' ∧
      List.Forall₂ (fun l l' => IsLoopback l ∨ l' = l) (t.splitOn '\n') (t'.splitOn '\n') := by
  subst ht'
  rw [HostsHold]
  by_cases hfound : Found n.text t
  · -- the guard leaves the file as it is
    have hsame : List.Forall₂ (fun l l' => IsLoopback l ∨ l' = l) (t.splitOn '\n')
        (t.splitOn '\n') := by
      rw [List.forall₂_same]
      exact fun l _ => Or.inr rfl
    rw [if_pos hfound, if_pos hfound]
    exact (and_iff_left hsame).symm
  · -- no line has the name yet, so a line lists it only when the edit appends it
    have hline : ∀ l ∈ t.splitOn '\n',
        ¬ (Regex.plain (n.text.map Regex.atomOf)).finds l = true :=
      fun l hl h => hfound ⟨l, hl, h⟩
    rw [if_neg hfound, if_neg hfound, ListsHost, splitOn_hosts, List.forall₂_map_right_iff,
      List.forall₂_same]
    have hothers : (∀ l ∈ t.splitOn '\n', StartsAlike l → IsLoopback l) ↔
        ∀ l ∈ t.splitOn '\n', IsLoopback l ∨ hostsLine n.text l = l := by
      refine forall₂_congr fun l _ => ?_
      by_cases halike : StartsAlike l
      · have hne : hostsLine n.text l ≠ l := by
          rw [hostsLine, if_pos halike]
          simp
        simp [halike, hne]
      · have heq : hostsLine n.text l = l := if_neg halike
        simp [halike, heq]
    rw [← hothers]
    refine and_congr_left fun hlocal => ?_
    constructor
    · rintro ⟨l, hl, halike, hcomment⟩
      refine ⟨_, List.mem_map_of_mem hl, (isLoopback_hostsLine l).mpr (hlocal l hl halike), ?_⟩
      exact (mem_hostNames_hostsLine halike (hline l hl)).mpr hcomment
    · rintro ⟨l', hl', -, hname⟩
      obtain ⟨l, hl, rfl⟩ := List.mem_map.mp hl'
      by_cases halike : StartsAlike l
      · exact ⟨l, hl, halike, (mem_hostNames_hostsLine halike (hline l hl)).mp hname⟩
      · rw [hostsLine, if_neg halike] at hname
        exact absurd hname (not_mem_hostNames (hline l hl))

/-- `/etc/sysconfig/network` has the line exactly when it had it or the host was not found. -/
theorem hostnameLine_mem_iff {t' : Text} (ht' : t' = if Found n.text t then t
    else "NETWORKING=yes\n".toList ++ (hostnameLine n.text ++ "\n".toList)) :
    hostnameLine n.text ∈ t'.splitOn '\n' ↔
      (Found n.text t → hostnameLine n.text ∈ t.splitOn '\n') := by
  subst ht'
  by_cases hfound : Found n.text t
  · rw [if_pos hfound]
    simp [hfound]
  · -- the new file is two lines
    have hname : '\n' ∉ hostnameLine n.text := by
      intro h
      rcases List.mem_append.mp h with h | h
      · exact absurd h (by decide)
      · exact not_mem_of_isHostChar ['\n'] (by decide) n.isHostChar '\n' h List.mem_cons_self
    have hshape : "NETWORKING=yes\n".toList ++ (hostnameLine n.text ++ "\n".toList) =
        "NETWORKING=yes".toList ++ '\n' :: (hostnameLine n.text ++ '\n' :: []) := by
      have hfirst : "NETWORKING=yes\n".toList = "NETWORKING=yes".toList ++ ['\n'] := rfl
      have hlast : "\n".toList = ['\n'] := rfl
      rw [hfirst, hlast, List.append_assoc, List.singleton_append]
    have hnetworking : '\n' ∉ "NETWORKING=yes".toList := by decide
    rw [if_neg hfound, hshape, List.splitOn_append_cons_self_of_not_mem hnetworking,
      List.splitOn_append_cons_self_of_not_mem hname]
    simp [hfound]

end Parts

/-! ## What the other steps keep -/

section Others

variable {other : Outside} {v : Vars} {path : Text}

theorem ne_append_of_not_isSuffix {p w : Text} (h : ¬ w <:+ path) : path ≠ p ++ w :=
  fun heq => h (heq ▸ List.suffix_append p w)

/-- The files that `setHostname` writes or moves. -/
def hostnameFiles : List Text :=
  ["/etc/sysconfig/network", "/etc/sysconfig/old-network", "/etc/hostname", "/etc/old-hostname"]

theorem keeps_setHostname (h : path ∉ hostnameFiles) : Keeps other path (setHostname v) := by
  simp only [hostnameFiles, List.mem_cons, List.not_mem_nil, or_false, not_or] at h
  obtain ⟨hnetwork, hold, hhostname, holdname⟩ := h
  have hwrite : Keeps other path (writeHostname v) := by
    simp only [writeHostname, fileTest_bind, capture_bind, run_bind]
    refine keeps_call (fun _ => rfl) fun _ => keeps_ite (keeps_call (fun _ => rfl) fun _ => ?_) ?_
    · refine keeps_ite (keeps_call (keeps_mv hnetwork hold) fun _ => ?_) (keeps_pure _)
      exact (keeps_writeTo _ hnetwork).bind fun _ => keeps_appendTo _ hnetwork
    · refine keeps_call (fun _ => rfl) fun _ => keeps_ite ?_ (keeps_pure _)
      refine keeps_call (fun _ => rfl) fun _ => keeps_ite ?_ (keeps_pure _)
      refine keeps_call (keeps_mv hhostname holdname) fun _ => ?_
      exact keeps_writeTo _ hhostname
  exact hwrite.bind fun _ => keeps_call (fun _ => rfl) fun _ => keeps_pure _

theorem keeps_setHosts (h : path ≠ "/etc/hosts".toList) : Keeps other path (setHosts v) := by
  simp only [setHosts, capture_bind, run_bind]
  refine keeps_call (fun _ => rfl) fun _ => keeps_ite (keeps_call (fun _ => rfl) fun _ => ?_) ?_
  · exact keeps_ite (keeps_call (keeps_sed _ h) fun _ => keeps_pure _) (keeps_pure _)
  · exact keeps_pure _

/-- The steps of `configureHttpd` before the virtual hosts. -/
def configureConf (v : Vars) : Sh Unit := do
  configureIdentity v
  configureSsl v
  configureInclude v
  let _ ← run (sed (substituteAll "#ServerName www.example.com:80"
    ("ServerName ".toList ++ v.appHostName ++ ":80".toList)) (httpdConf v))

theorem configureHttpd_eq (v : Vars) :
    configureHttpd v = configureConf v >>= fun _ => configureVhosts v := by
  simp only [configureHttpd, configureConf, bind_assoc']
  rfl

theorem finishes_ifThen {c : Bool} {p : Sh Unit} (hp : Finishes p) : Finishes (ifThen c p) :=
  finishes_ite hp trivial

theorem finishes_edits (scripts : List Text) (path : Text) : Finishes (edits scripts path) := by
  induction scripts with
  | nil => trivial
  | cons script scripts ih => exact fun _ => ih

theorem finishes_configureConf (v : Vars) : Finishes (configureConf v) := by
  have hedit : ∀ ws, Finishes (do
      let _ ← run ws
      pure () : Sh Unit) := fun ws _ => trivial
  have hidentity : Finishes (configureIdentity v) := by
    simp only [configureIdentity, command_bind]
    exact fun _ _ => finishes_bind (finishes_ifThen (hedit _)) fun _ => finishes_ifThen (hedit _)
  have hssl : Finishes (configureSsl v) := fun _ =>
    finishes_ifThen fun _ => finishes_edits _ _
  have hinclude : Finishes (configureInclude v) := fun _ => finishes_ifThen fun _ _ => trivial
  exact finishes_bind hidentity fun _ => finishes_bind hssl fun _ =>
    finishes_bind hinclude fun _ => hedit _

theorem keeps_configureConf (hconf : path ≠ httpdConf v)
    (hsecure : path ≠ v.httpdPath ++ "/conf/extra/httpd-ssl.conf".toList)
    (havetti : path ≠ v.httpdPath ++ "/conf/extra/avetti.conf".toList) :
    Keeps other path (configureConf v) := by
  have hedit : ∀ script, Keeps other path (do
      let _ ← run (sed script (httpdConf v))
      pure () : Sh Unit) := fun script => keeps_call (keeps_sed script hconf) fun _ => keeps_pure _
  have hidentity : Keeps other path (configureIdentity v) := by
    simp only [configureIdentity, command_bind]
    refine keeps_call (fun _ => rfl) fun _ => keeps_call (fun _ => rfl) fun _ => ?_
    exact (keeps_ifThen (hedit _)).bind fun _ => keeps_ifThen (hedit _)
  have hssl : Keeps other path (configureSsl v) := keeps_call (fun _ => rfl) fun _ =>
    keeps_ifThen (keeps_call (keeps_sed _ hconf) fun _ => keeps_edits _ hsecure)
  have hinclude : Keeps other path (configureInclude v) := keeps_call (fun _ => rfl) fun _ =>
    keeps_ifThen ((keeps_appendTo _ hconf).bind fun _ =>
      keeps_call (keeps_cp _ havetti) fun _ => keeps_pure _)
  exact hidentity.bind fun _ => hssl.bind fun _ => hinclude.bind fun _ => hedit _

theorem keeps_configureVhosts (h : path ≠ vhostsConf v) :
    Keeps other path (configureVhosts v) := by
  simp only [configureVhosts, capture_bind, run_bind]
  refine keeps_call (fun _ => rfl) fun _ => keeps_ite ?_ (keeps_pure _)
  exact keeps_call (keeps_cp _ h) fun _ => keeps_edits _ h

end Others

/-! ## The files afterwards -/

section After

variable (r : HostSystem)

theorem after_eq : r.after = (exec (fileSystem r.other) (configureVhosts r.vars)
    (exec (fileSystem r.other) (configureConf r.vars)
      (exec (fileSystem r.other) (setHosts r.vars)
        (exec (fileSystem r.other) (setHostname r.vars) r.files).state).state).state).state := by
  rw [HostSystem.after, hostSteps, (finishes_setHostname r.vars).exec_bind_state,
    (finishes_setHosts r.vars).exec_bind_state, configureHttpd_eq,
    (finishes_configureConf r.vars).exec_bind_state]

theorem after_network (hdir : r.HasSysconfig) : r.after.read "/etc/sysconfig/network" =
    if Found r.host (r.files.read "/etc/sysconfig/network") then
      r.files.read "/etc/sysconfig/network"
    else "NETWORKING=yes\n".toList ++ (hostnameLine r.host ++ "\n".toList) := by
  rw [after_eq, (keeps_configureVhosts (ne_append_of_not_isSuffix (by decide))).read,
    (keeps_configureConf (ne_append_of_not_isSuffix (by decide))
      (ne_append_of_not_isSuffix (by decide)) (ne_append_of_not_isSuffix (by decide))).read,
    (keeps_setHosts (by decide)).read, setHostname_network r hdir]

theorem after_hosts : r.after.read "/etc/hosts" =
    if Found r.host (r.files.read "/etc/hosts") then r.files.read "/etc/hosts"
    else stream r.other.sed ("/^127.0.0.1/ s/$/ ".toList ++ r.host ++ "/".toList)
      (r.files.read "/etc/hosts") := by
  rw [after_eq, (keeps_configureVhosts (ne_append_of_not_isSuffix (by decide))).read,
    (keeps_configureConf (ne_append_of_not_isSuffix (by decide))
      (ne_append_of_not_isSuffix (by decide)) (ne_append_of_not_isSuffix (by decide))).read,
    setHosts_hosts, (keeps_setHostname (by decide)).read]

/-- The files before the virtual hosts are edited. -/
def HostSystem.configured : Files :=
  (exec (fileSystem r.other) (configureConf r.vars)
    (exec (fileSystem r.other) (setHosts r.vars)
      (exec (fileSystem r.other) (setHostname r.vars) r.files).state).state).state

theorem configured_vhosts :
    r.configured.read (vhostsConf r.vars) = r.files.read (vhostsConf r.vars) := by
  have hfiles : ∀ p ∈ "/etc/hosts".toList :: hostnameFiles,
      ¬ "/conf/extra/httpd-vhosts.conf".toList <:+ p := by decide
  have hnot : vhostsConf r.vars ∉ "/etc/hosts".toList :: hostnameFiles := fun h =>
    hfiles _ h (List.suffix_append _ _)
  have hne : ∀ {w : Text}, w ≠ "/conf/extra/httpd-vhosts.conf".toList →
      vhostsConf r.vars ≠ r.vars.httpdPath ++ w := fun hw h => hw (List.append_cancel_left h).symm
  rw [HostSystem.configured,
    (keeps_configureConf (hne (by decide)) (hne (by decide)) (hne (by decide))).read,
    (keeps_setHosts (List.ne_of_not_mem_cons hnot)).read,
    (keeps_setHostname (List.not_mem_of_not_mem_cons hnot)).read]

theorem configured_template : r.configured templatePath = some vhostsTemplate := by
  rw [← r.template, HostSystem.configured,
    (keeps_configureConf (ne_append_of_not_isSuffix (by decide))
      (ne_append_of_not_isSuffix (by decide)) (ne_append_of_not_isSuffix (by decide))).state,
    (keeps_setHosts (by decide)).state, (keeps_setHostname (by decide)).state]

theorem configureVhosts_eq (v : Vars) : configureVhosts v =
    capture ["grep".toList, v.appHostName, vhostsConf v] >>= fun found =>
      if found = [] then do
        let _ ← run ["cp".toList, templatePath, vhostsConf v]
        edits (vhostEdits v) (vhostsConf v)
      else pure () := rfl

/-- The virtual hosts afterwards: as they were, or an edited copy of the file. -/
theorem after_vhosts : r.after.read (vhostsConf r.vars) =
    if Found r.host (r.files.read (vhostsConf r.vars)) then r.files.read (vhostsConf r.vars)
    else streams r.other.sed (vhostEdits r.vars) vhostsTemplate := by
  have hafter : r.after =
      (exec (fileSystem r.other) (configureVhosts r.vars) r.configured).state := after_eq r
  rw [hafter, configureVhosts_eq, r.named, exec_unless_found, configured_vhosts]
  by_cases hfound : Found r.name.text (r.files.read (vhostsConf r.vars))
  · rw [if_pos hfound, HostSystem.host, if_pos hfound, exec_pure, configured_vhosts]
  · have hcopy : (r.configured.copy templatePath (vhostsConf r.vars)) (vhostsConf r.vars) =
        some vhostsTemplate := by
      rw [Files.copy, configured_template, if_pos (Option.isSome_some), Function.update_self]
    rw [if_neg hfound, HostSystem.host, if_neg hfound, run_bind, exec_call_state, fileSystem_cp,
      Files.read, exec_edits, hcopy, Option.map_some, Option.getD_some]

end After

/-- What the edits of the first two files come to. -/
theorem files_iff (r : HostSystem) :
    (HostsHold r.host (r.files.read "/etc/hosts") ↔ ListsHost r.host (r.after.read "/etc/hosts") ∧
      List.Forall₂ (fun l l' => IsLoopback l ∨ l' = l)
        ((r.files.read "/etc/hosts").splitOn '\n') ((r.after.read "/etc/hosts").splitOn '\n')) ∧
    (r.HasSysconfig → (hostnameLine r.host ∈
      (r.after.read "/etc/sysconfig/network").splitOn '\n' ↔
        (Found r.host (r.files.read "/etc/sysconfig/network") →
          hostnameLine r.host ∈ (r.files.read "/etc/sysconfig/network").splitOn '\n'))) :=
  ⟨hostsHold_iff r.name (r.files.read "/etc/hosts") (after_hosts r),
    fun hdir => hostnameLine_mem_iff r.name _ (after_network r hdir)⟩

/-- **The host edits take effect** when the condition on the files holds. -/
theorem GuardsHold.takesEffect {r : HostSystem} (h : GuardsHold r) : TakesEffect r := by
  obtain ⟨hhosts, hnetwork⟩ := files_iff r
  obtain ⟨hlisted, hothers⟩ := hhosts.mp h.hosts
  refine ⟨hlisted, hothers, fun hdir => (hnetwork hdir).mpr (h.network hdir), ?_⟩
  have hvhosts := h.vhosts
  rw [VhostsHold] at hvhosts
  rw [after_vhosts]
  split_ifs at hvhosts ⊢
  · exact hvhosts
  · exact hvhosts.mem_vhostNames r.named r.path r.other.sed

/-- The condition holds when the edits take effect and those of the virtual hosts cannot undo each
other. -/
theorem TakesEffect.guardsHold {r : HostSystem} (h : TakesEffect r)
    (hseparate : Separate r.vars.httpdPath r.host) : GuardsHold r := by
  obtain ⟨hhosts, hnetwork⟩ := files_iff r
  refine ⟨hhosts.mpr ⟨h.listed, h.others⟩, fun hdir => (hnetwork hdir).mp (h.network hdir), ?_⟩
  have hvhost := h.vhost
  rw [after_vhosts] at hvhost
  rw [VhostsHold]
  split_ifs at hvhost ⊢
  · exact hvhost
  · exact lasting_of_mem_vhostNames hseparate r.named r.path hvhost

/-- **The host edits**: they take effect when the condition on the files holds, and only then, unless
two edits of the virtual hosts can undo each other in the host. -/
theorem takesEffect_iff (r : HostSystem) :
    (GuardsHold r → TakesEffect r) ∧
      (Separate r.vars.httpdPath r.host → (TakesEffect r ↔ GuardsHold r)) :=
  ⟨GuardsHold.takesEffect, fun hseparate =>
    ⟨fun h => h.guardsHold hseparate, GuardsHold.takesEffect⟩⟩

/-- The host `shop.example.com`. -/
def shop : HostName where
  labels := ["shop", "example", "com"]
  ne_nil := by simp
  isLabel := by
    have h : ∀ l ∈ (["shop", "example", "com"] : List Text),
        l ≠ [] ∧ l.head? ≠ some '-' ∧ ∀ c ∈ l, c.isAlphanum ∨ c = '-' ∨ c = '_' := by
      decide
    exact fun l hl => ⟨(h l hl).1, (h l hl).2.1, (h l hl).2.2⟩

/-- A system whose `/etc/hosts` has `myshop.example.com`. -/
def shopSystem : HostSystem where
  name := shop
  vars := { Vars.ofParams ⟨false, false, false, "root", "avetti", "shop.example.com"⟩ [] with
    httpdPath := "/avetti/httpd" }
  named := by decide
  path := by
    show ∀ c ∈ "/avetti/httpd".toList, c ≠ '\\' ∧ c ≠ '\n'
    decide
  other := ⟨fun _ => ⟨0, []⟩, fun _ t => t⟩
  unknown := rfl
  files := fun path =>
    if path = templatePath then some vhostsTemplate
    else if path = "/etc/hosts".toList then
      some "127.0.0.1 localhost\n10.0.0.5 myshop.example.com\n".toList
    else none
  template := if_pos rfl

/-- `grep` finds `shop.example.com` in `myshop.example.com`, and the host is not listed. -/
theorem not_takesEffect_shop : ¬ TakesEffect shopSystem := by
  intro h
  have hfile : shopSystem.files "/etc/hosts".toList =
      some "127.0.0.1 localhost\n10.0.0.5 myshop.example.com\n".toList := by decide
  have hhosts : HostsHold shop.text (shopSystem.files.read "/etc/hosts") :=
    (hostsHold_iff shop _ (after_hosts shopSystem)).mpr ⟨h.listed, h.others⟩
  rw [Files.read, hfile, Option.getD_some] at hhosts
  revert hhosts
  decide

end Avetti
