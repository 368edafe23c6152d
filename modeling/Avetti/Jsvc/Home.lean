import Avetti.Jsvc.Arguments
import Avetti.Jsvc.Replace
import Mathlib.Data.List.DropRight

/-!
# jsvc: the Java home and the library of the Java VM

`jsvc` looks for `jvm.cfg` below the Java home, takes the names of Java VMs from its lines, and
looks for the library of each of them in the configured places, whose paths it makes with `replace`.
The library that is loaded is the one of the VM that is asked for on the command line. The VMs that
are found are kept in an array of 256 places, the last one for the end of the list, which is not
checked.

## Main definitions

* `FileSystem`: what `stat` and `fopen` see
* `expand`: a call of `replace`, with a buffer of 1024 characters
* `vmName`, `parseCfg`: the lines of `jvm.cfg`
* `build`, `find`, `javaLibrary`: the Java home, and the library
* `libraryPlaces`: where the library of a VM is

## Main results

* `expand_eq`: no buffer is overrun
* `build_eq`: the VMs of a Java home, unless there are more than 255
* `javaLibrary_build`: the library of a VM that is asked for
-/

namespace Avetti.Jsvc

open Buffer Literal

/-! ## The places -/

/-- What `stat` and `fopen` see, and the environment variable `JAVA_HOME`. -/
structure FileSystem where
  isDir : Text → Bool
  isFile : Text → Bool
  content : Text → Option Text
  javaHome : Option Text

/-- `location_home`, on Linux. -/
def locationHome (lp64 : Bool) : List Text :=
  let before : List Text := ["/usr/java/default", "/usr/java", "/usr/local/java",
    "/usr/lib/jvm/default-java", "/usr/lib/jvm/java", "/etc/alternatives/java_sdk",
    "/etc/alternatives/java_sdk_openjdk", "/etc/alternatives/jre"]
  let wide : List Text := ["/lib64/jvm/java", "/lib64/jvm/java-openjdk"]
  before ++ (if lp64 then wide else []) ++ ["/lib/jvm/java".toList, "/lib/jvm/java-openjdk".toList]

section Locations

variable (CPU : Text)

/-- `location_jvm_cfg`. -/
def locationJvmCfg : List Text :=
  ["$JAVA_HOME/jre/lib/jvm.cfg".toList, "$JAVA_HOME/lib/jvm.cfg".toList,
    "$JAVA_HOME/jre/lib/".toList ++ CPU ++ "/jvm.cfg".toList,
    "$JAVA_HOME/lib/".toList ++ CPU ++ "/jvm.cfg".toList]

/-- `location_jvm_default`, on Linux. -/
def locationJvmDefault : List Text :=
  let jreLib := fun file : String => "$JAVA_HOME/jre/lib/".toList ++ CPU ++ file.toList
  let lib := fun file : String => "$JAVA_HOME/lib/".toList ++ CPU ++ file.toList
  let jreBin := fun file : String => "$JAVA_HOME/jre/bin/".toList ++ CPU ++ file.toList
  let bin := fun file : String => "$JAVA_HOME/bin/".toList ++ CPU ++ file.toList
  [jreLib "/classic/libjvm.so", jreLib "/server/libjvm.so", jreLib "/client/libjvm.so",
    jreLib "/libjvm.so", lib "/classic/libjvm.so", lib "/server/libjvm.so",
    lib "/client/libjvm.so", lib "/libjvm.so", jreBin "/classic/libjvm.so", jreBin "/libjvm.so",
    bin "/classic/libjvm.so", bin "/libjvm.so", jreLib "/classic/green_threads/libjvm.so",
    "$JAVA_HOME/jre/lib/classic/libjvm.so", "$JAVA_HOME/jre/lib/client/libjvm.so",
    "$JAVA_HOME/jre/lib/libjvm.so", "$JAVA_HOME/lib/classic/libjvm.so",
    "$JAVA_HOME/lib/client/libjvm.so", "$JAVA_HOME/lib/libjvm.so",
    "$JAVA_HOME/jre/bin/classic/libjvm.so", "$JAVA_HOME/jre/bin/client/libjvm.so",
    "$JAVA_HOME/jre/bin/libjvm.so", "$JAVA_HOME/bin/classic/libjvm.so",
    "$JAVA_HOME/bin/client/libjvm.so", "$JAVA_HOME/bin/libjvm.so",
    jreLib "/fast64/libjvm.so", jreLib "/fast32/libjvm.so", lib "/fast64/libjvm.so",
    lib "/fast32/libjvm.so", "/usr/lib/libgcj.so.7", "/usr/lib/libgcj.so.6"]

/-- `location_jvm_configured`, on Linux. -/
def locationJvmConfigured : List Text :=
  ["$JAVA_HOME/jre/lib/".toList ++ CPU ++ "/$VM_NAME/libjvm.so".toList,
    "$JAVA_HOME/lib/".toList ++ CPU ++ "/$VM_NAME/libjvm.so".toList]

end Locations

/-! ## The search -/

/-- The size of the buffers. -/
def bufSize : ℕ := 1024

/-- A call of `replace` with a buffer of 1024 characters: without a value when it overruns the
buffer, and the inner value is missing when its return value is not zero. -/
def expand (buf : Text) (orig mch rpl : Text) : Option (Option Text) :=
  (replace (some buf) bufSize (some orig) (some mch) (some rpl)).bind fun (k, b) =>
    if k = 0 then (b.bind fun b => stringAt b 0).map some else some none

/-- `$JAVA_HOME` is replaced. -/
def expandHome (buf path orig : Text) : Option (Option Text) := expand buf orig "$JAVA_HOME" path

/-- `$JAVA_HOME` and then `$VM_NAME` are replaced. -/
def expandVm (buf path name orig : Text) : Option (Option Text) :=
  (expandHome buf path orig).bind fun
    | none => some none
    | some temp => expand buf temp "$VM_NAME" name

/-- The first place that is a file, if there is one; without an inner value when a place cannot be
expanded. -/
def locate (isFile : Text → Bool) (expand : Text → Option (Option Text)) :
    List Text → Option (Option (Option Text))
  | [] => some (some none)
  | orig :: places => (expand orig).bind fun
    | none => some none
    | some path => if isFile path then some (some (some path)) else locate isFile expand places

/-- `home_jvm`. -/
structure HomeJvm where
  name : Option Text
  libr : Text
  deriving DecidableEq

/-- `home_data`; `jnum` is the length of `jvms`. -/
structure HomeData where
  path : Text
  cfgf : Option Text
  jvms : List HomeJvm
  deriving DecidableEq

/-- What the calls of `fgets(buf, 1024, cfgf)` read, after the characters `acc` of a line. -/
def fgetsAll : Text → Text → List Text
  | acc, [] => if acc = [] then [] else [acc]
  | acc, c :: t =>
    if c = '\n' ∨ acc.length + 1 = bufSize - 1 then (acc ++ [c]) :: fgetsAll [] t
    else fgetsAll (acc ++ [c]) t

/-- What is left of a line: the name of a VM, or nothing. -/
def vmName (line : Text) : Text :=
  let ret := line.takeWhile (· ≠ '#')
  let ret := ret.dropWhile (· ∈ [' ', '\t', '-'])
  let ret := ret.rdropWhile (· ∈ ['\r', '\n', '\t', ' '])
  ret.takeWhile (· ≠ ' ')

section Search

variable (fs : FileSystem) (CPU buf : Text)

/-- The loop of `parse` over the lines, with the VMs found so far: the value that is returned, and
the VMs. A VM needs a place in the array, and one after it. -/
def parseCfg (path : Text) : List Text → List HomeJvm → Option (Bool × List HomeJvm)
  | [], jvms => some (true, jvms)
  | line :: lines, jvms =>
    if vmName line = [] then parseCfg path lines jvms
    else
      (locate fs.isFile (expandVm buf path (vmName line)) (locationJvmConfigured CPU)).bind fun
        | none => some (false, jvms)
        | some none => parseCfg path lines jvms
        | some (some libf) =>
          if jvms.length + 1 < 256 then
            parseCfg path lines (jvms ++ [⟨some (vmName line), libf⟩])
          else none

/-- `build`. -/
def build (path : Text) : Option (Option HomeData) :=
  if fs.isDir path = false then some none
  else
    (locate fs.isFile (expandHome buf path) (locationJvmCfg CPU)).bind fun
      | none => some none
      | some none =>
        (locate fs.isFile (expandHome buf path) (locationJvmDefault CPU)).map fun libr =>
          libr.map fun libr => ⟨path, none, libr.toList.map fun libr => ⟨none, libr⟩⟩
      | some (some cfgf) =>
        match fs.content cfgf with
        | none => some (some ⟨path, some cfgf, []⟩)
        | some text =>
          (parseCfg fs CPU buf path (fgetsAll [] text) []).map fun (_, jvms) =>
            some ⟨path, some cfgf, jvms⟩

/-- The Java home is not given. -/
def noHome (path : Option Text) : Bool :=
  path.all fun path => path ∈ [([] : Text), "/".toList]

/-- The search in the list of places. -/
def findFirst : List Text → Option (Option HomeData)
  | [] => some none
  | path :: paths => (build fs CPU buf path).bind fun
    | some data => some (some data)
    | none => findFirst paths

/-- `find`, and `home`. -/
def find (lp64 : Bool) (path : Option Text) : Option (Option HomeData) :=
  let path := if noHome path then (if noHome fs.javaHome then none else fs.javaHome) else path
  match path with
  | none => findFirst fs CPU buf (locationHome lp64)
  | some path => build fs CPU buf path

end Search

/-- `java_library`. -/
def javaLibrary (args : ArgData) (data : HomeData) : Option Text :=
  match args.name with
  | none => data.jvms.head?.map HomeJvm.libr
  | some name => (data.jvms.find? fun jvm => jvm.name = some name).map HomeJvm.libr

/-! ## Calls of `replace` -/

section Expand

variable {buf orig mch rpl path name : Text}

/-- The result of a replacement, if it fits into a buffer. -/
def fill (mch rpl orig : Text) : Option Text :=
  if (replaceAll mch rpl orig).length < bufSize then some (replaceAll mch rpl orig) else none

/-- A place with the Java home. -/
def homePlace (path orig : Text) : Option Text := fill "$JAVA_HOME" path orig

/-- A place with the Java home and the name of a VM. -/
def vmPlace (path name orig : Text) : Option Text :=
  (homePlace path orig).bind (fill "$VM_NAME" name)

/-- **No buffer is overrun** by a text that fits into it. -/
theorem expand_eq (hbuf : buf.length = bufSize) (horig : nul ∉ orig) (hlt : orig.length < bufSize)
    (hrpl : nul ∉ rpl) : expand buf orig mch rpl = some (fill mch rpl orig) := by
  unfold expand fill
  split_ifs with hfit
  · -- the buffer starts with the result, which is read up to its end
    obtain ⟨rest, hdone, -⟩ := replace_of_lt buf mch rpl horig (hbuf ▸ hfit) (hbuf ▸ hlt)
    rw [hbuf] at hdone
    have hnul : nul ∉ replaceAll mch rpl orig := fun h => (mem_replaceAll h).elim horig hrpl
    have hstring := stringAt_append (u := []) (v := rest) hnul
    rw [List.nil_append, List.length_nil] at hstring
    rw [hdone, Option.bind_some]
    dsimp only
    rw [if_pos rfl, Option.bind_some, hstring]
    rfl
  · have hneeded := replace_of_length_le buf mch rpl (hbuf ▸ not_lt.mp hfit)
    rw [hbuf] at hneeded
    rw [hneeded, Option.bind_some]
    exact if_neg (by omega)

theorem nul_not_mem_fill (horig : nul ∉ orig) (hrpl : nul ∉ rpl) :
    ∀ t ∈ fill mch rpl orig, nul ∉ t ∧ t.length < bufSize := by
  intro t ht
  unfold fill at ht
  split_ifs at ht with hfit
  · obtain rfl := Option.some.inj ht
    exact ⟨fun h => (mem_replaceAll h).elim horig hrpl, hfit⟩
  · cases ht

theorem expandHome_eq (hbuf : buf.length = bufSize) (horig : nul ∉ orig)
    (hlt : orig.length < bufSize) (hpath : nul ∉ path) :
    expandHome buf path orig = some (homePlace path orig) :=
  expand_eq hbuf horig hlt hpath

theorem expandVm_eq (hbuf : buf.length = bufSize) (horig : nul ∉ orig) (hlt : orig.length < bufSize)
    (hpath : nul ∉ path) (hname : nul ∉ name) :
    expandVm buf path name orig = some (vmPlace path name orig) := by
  rw [expandVm, expandHome_eq hbuf horig hlt hpath, Option.bind_some, vmPlace]
  cases htemp : homePlace path orig with
  | none => rfl
  | some temp =>
    obtain ⟨hnul, hfit⟩ := nul_not_mem_fill horig hpath temp htemp
    exact expand_eq hbuf hnul hfit hname

end Expand

/-! ## The search, without buffers -/

section Search

variable (isFile : Text → Bool) (place : Text → Option Text)

/-- The first place that is a file, if there is one, unless a place before it does not fit. -/
def firstPlace : List Text → Option (Option Text)
  | [] => some none
  | orig :: origs => (place orig).bind fun path =>
    if isFile path then some (some path) else firstPlace origs

variable {isFile place}

theorem locate_eq {expand : Text → Option (Option Text)} {origs : List Text}
    (h : ∀ orig ∈ origs, expand orig = some (place orig)) :
    locate isFile expand origs = some (firstPlace isFile place origs) := by
  induction origs with
  | nil => rfl
  | cons orig origs ih =>
    rw [List.forall_mem_cons] at h
    rw [locate, h.1, Option.bind_some, firstPlace]
    cases place orig with
    | none => rfl
    | some path =>
      dsimp only
      rw [ih h.2, Option.bind_some]
      split_ifs <;> rfl

/-- When all places fit, it is the first of them that is a file. -/
theorem firstPlace_eq_find? {origs paths : List Text}
    (h : List.Forall₂ (fun orig path => place orig = some path) origs paths) :
    firstPlace isFile place origs = some (paths.find? isFile) := by
  induction h with
  | nil => rfl
  | @cons orig path origs paths hplace _ ih =>
    rw [firstPlace, hplace, Option.bind_some, List.find?_cons, ih]
    cases isFile path <;> rfl

end Search

/-! ## The VMs of a Java home -/

section Vms

variable (fs : FileSystem) (CPU : Text)

/-- The VMs in the lines, as long as their places fit, and whether all of them do. -/
def vms (path : Text) : List Text → Bool × List HomeJvm
  | [] => (true, [])
  | line :: lines =>
    if vmName line = [] then vms path lines
    else
      match firstPlace fs.isFile (vmPlace path (vmName line)) (locationJvmConfigured CPU) with
      | none => (false, [])
      | some none => vms path lines
      | some (some libf) =>
        ((vms path lines).1, ⟨some (vmName line), libf⟩ :: (vms path lines).2)

variable {fs CPU} {buf path : Text}

/-- The name of a VM is a part of its line. -/
theorem vmName_subset (line : Text) : vmName line ⊆ line :=
  (((List.takeWhile_sublist _).trans (List.rdropWhile_prefix _ _).sublist).trans
    ((List.dropWhile_sublist _).trans (List.takeWhile_sublist _))).subset

theorem of_mem_locationJvmConfigured (hCPU : nul ∉ CPU) (hlength : CPU.length < 900) :
    ∀ orig ∈ locationJvmConfigured CPU, nul ∉ orig ∧ orig.length < bufSize := by
  have hbefore : nul ∉ "$JAVA_HOME/jre/lib/".toList ∧ nul ∉ "$JAVA_HOME/lib/".toList ∧
      nul ∉ "/$VM_NAME/libjvm.so".toList := by decide
  have hsize : "$JAVA_HOME/jre/lib/".toList.length = 19 ∧ "$JAVA_HOME/lib/".toList.length = 15 ∧
      "/$VM_NAME/libjvm.so".toList.length = 19 := by decide
  simp only [locationJvmConfigured, List.forall_mem_cons, List.mem_append, List.length_append,
    hbefore, hCPU, hsize, bufSize]
  refine ⟨⟨by simp, by omega⟩, ⟨by simp, by omega⟩, List.forall_mem_nil _⟩

theorem parseCfg_eq (hbuf : buf.length = bufSize) (hCPU : nul ∉ CPU) (hlength : CPU.length < 900)
    (hpath : nul ∉ path) {lines : List Text} (hlines : ∀ line ∈ lines, nul ∉ line)
    {jvms : List HomeJvm} (hjvms : jvms.length < 256) :
    parseCfg fs CPU buf path lines jvms =
      if jvms.length + (vms fs CPU path lines).2.length < 256 then
        some ((vms fs CPU path lines).1, jvms ++ (vms fs CPU path lines).2)
      else none := by
  -- the induction is on the lines, with the VMs of the lines before them
  induction lines generalizing jvms with
  | nil => simp [parseCfg, vms, hjvms]
  | cons line lines ih =>
    rw [List.forall_mem_cons] at hlines
    have hlocate : locate fs.isFile (expandVm buf path (vmName line)) (locationJvmConfigured CPU) =
        some (firstPlace fs.isFile (vmPlace path (vmName line)) (locationJvmConfigured CPU)) := by
      refine locate_eq fun orig h => ?_
      obtain ⟨hnul, hlt⟩ := of_mem_locationJvmConfigured hCPU hlength orig h
      exact expandVm_eq hbuf hnul hlt hpath fun hnul => hlines.1 (vmName_subset line hnul)
    rw [parseCfg, vms]
    by_cases hempty : vmName line = []
    · rw [if_pos hempty, if_pos hempty]
      exact ih hlines.2 hjvms
    rw [if_neg hempty, if_neg hempty, hlocate, Option.bind_some]
    cases firstPlace fs.isFile (vmPlace path (vmName line)) (locationJvmConfigured CPU) with
    | none => simp [hjvms]
    | some found =>
      cases found with
      | none => exact ih hlines.2 hjvms
      | some libf =>
        dsimp only
        have hlength : (jvms ++ [(⟨some (vmName line), libf⟩ : HomeJvm)]).length = jvms.length + 1 :=
          List.length_append
        -- the place after the last VM counts
        by_cases hroom : jvms.length + 1 < 256
        · rw [if_pos hroom, ih hlines.2 (hlength ▸ hroom), hlength, List.length_cons,
            List.append_assoc, List.singleton_append, Nat.add_right_comm, Nat.add_assoc]
        · rw [if_neg hroom, if_neg (by rw [List.length_cons]; omega)]

/-- The lines of a file without the character NUL do not have it either. -/
theorem nul_not_mem_fgetsAll {acc text : Text} (hacc : nul ∉ acc) (htext : nul ∉ text) :
    ∀ line ∈ fgetsAll acc text, nul ∉ line := by
  induction text generalizing acc with
  | nil =>
    rw [fgetsAll]
    split_ifs
    · exact List.forall_mem_nil _
    · exact List.forall_mem_singleton.mpr hacc
  | cons c text ih =>
    rw [List.mem_cons, not_or] at htext
    have hacc' : nul ∉ acc ++ [c] := by simp [hacc, htext.1]
    rw [fgetsAll]
    split_ifs
    · exact List.forall_mem_cons.mpr ⟨hacc', ih List.not_mem_nil htext.2⟩
    · exact ih hacc' htext.2

end Vms

/-! ## Plain Java homes -/

/-- A Java home and a CPU without the character `$`, and not too long. -/
structure PlainHome (CPU path : Text) : Prop where
  cpu : nul ∉ CPU ∧ '$' ∉ CPU
  home : nul ∉ path ∧ '$' ∉ path
  short : path.length + CPU.length < 900

/-- The places of `jvm.cfg` in a Java home. -/
def cfgPlaces (CPU path : Text) : List Text :=
  [path ++ "/jre/lib/jvm.cfg".toList, path ++ "/lib/jvm.cfg".toList,
    path ++ ("/jre/lib/".toList ++ CPU ++ "/jvm.cfg".toList),
    path ++ ("/lib/".toList ++ CPU ++ "/jvm.cfg".toList)]

/-- The places of the library of a VM in a Java home. -/
def libraryPlaces (CPU path name : Text) : List Text :=
  [path ++ ("/jre/lib/".toList ++ CPU ++ "/".toList) ++ (name ++ "/libjvm.so".toList),
    path ++ ("/lib/".toList ++ CPU ++ "/".toList) ++ (name ++ "/libjvm.so".toList)]

/-- The VM of a line, if its library is a file. -/
def foundVm (fs : FileSystem) (CPU path line : Text) : Option HomeJvm :=
  if vmName line = [] then none
  else ((libraryPlaces CPU path (vmName line)).find? fs.isFile).map fun libf =>
    ⟨some (vmName line), libf⟩

/-- The VMs of the lines. -/
def foundVms (fs : FileSystem) (CPU path : Text) (lines : List Text) : List HomeJvm :=
  lines.filterMap (foundVm fs CPU path)

namespace PlainHome

variable {fs : FileSystem} {CPU buf path : Text} (h : PlainHome CPU path)
include h

theorem homePlace_eq {rest : Text} (hrest : replaceAll "$JAVA_HOME" path rest = rest)
    (hlt : rest.length < 120 + CPU.length) :
    homePlace path ("$JAVA_HOME".toList ++ rest) = some (path ++ rest) := by
  have hshort := h.short
  have hplace : replaceAll "$JAVA_HOME" path ("$JAVA_HOME".toList ++ rest) = path ++ rest := by
    rw [replaceAll_append (by decide), hrest]
  rw [homePlace, fill, hplace, if_pos]
  rw [List.length_append, bufSize]
  omega

/-- The places of `jvm.cfg`. -/
theorem firstPlace_cfg : firstPlace fs.isFile (homePlace path) (locationJvmCfg CPU) =
    some ((cfgPlaces CPU path).find? fs.isFile) := by
  have hplace : ∀ rest : Text, '$' ∉ rest → rest.length < 120 + CPU.length →
      homePlace path ("$JAVA_HOME".toList ++ rest) = some (path ++ rest) := fun rest hrest hlt =>
    h.homePlace_eq (replaceAll_of_not_mem hrest _ _) hlt
  have hcpu : ∀ pre : Text, '$' ∉ pre → pre.length < 100 →
      homePlace path ("$JAVA_HOME".toList ++ (pre ++ CPU ++ "/jvm.cfg".toList)) =
        some (path ++ (pre ++ CPU ++ "/jvm.cfg".toList)) := fun pre hpre hlt => by
    refine hplace _ ?_ ?_
    · simp [hpre, h.cpu.2]
    · have hsize : "/jvm.cfg".toList.length = 8 := rfl
      rw [List.length_append, List.length_append, hsize]
      omega
  have hfixed : ∀ rest : Text, '$' ∉ rest → rest.length < 120 →
      homePlace path ("$JAVA_HOME".toList ++ rest) = some (path ++ rest) := fun rest hrest hlt =>
    hplace rest hrest (by omega)
  exact firstPlace_eq_find? <|
    .cons (hfixed "/jre/lib/jvm.cfg" (by decide) (by decide)) <|
    .cons (hfixed "/lib/jvm.cfg" (by decide) (by decide)) <|
    .cons (hcpu "/jre/lib/" (by decide) (by decide)) <|
    .cons (hcpu "/lib/" (by decide) (by decide)) .nil

/-- The places of the library of a VM whose name is not too long. -/
theorem firstPlace_library {name : Text} (hname : path.length + CPU.length + name.length < 960) :
    firstPlace fs.isFile (vmPlace path name) (locationJvmConfigured CPU) =
      some ((libraryPlaces CPU path name).find? fs.isFile) := by
  have hplace : ∀ pre : Text, '$' ∉ pre → pre.length < 20 →
      vmPlace path name ("$JAVA_HOME".toList ++ (pre ++ CPU ++ "/$VM_NAME/libjvm.so".toList)) =
        some (path ++ (pre ++ CPU ++ "/".toList) ++ (name ++ "/libjvm.so".toList)) := by
    intro pre hpre hlt
    -- the variable is replaced after the Java home, from its own place on
    have hsplit : pre ++ CPU ++ "/$VM_NAME/libjvm.so".toList =
        pre ++ CPU ++ "/".toList ++ "$VM_NAME/libjvm.so".toList := by
      rw [List.append_assoc (pre ++ CPU)]
      rfl
    have hsize : "/".toList.length = 1 ∧ "$VM_NAME/libjvm.so".toList.length = 18 ∧
      "/libjvm.so".toList.length = 10 := by decide
    have hbefore : '$' ∉ pre ++ CPU ++ "/".toList := by simp [hpre, h.cpu.2]
    have hhome : homePlace path
        ("$JAVA_HOME".toList ++ (pre ++ CPU ++ "/".toList ++ "$VM_NAME/libjvm.so".toList)) =
        some (path ++ (pre ++ CPU ++ "/".toList ++ "$VM_NAME/libjvm.so".toList)) := by
      refine h.homePlace_eq ?_ ?_
      · exact (replaceAll_append_of_not_mem hbefore _ _ _).trans rfl
      · simp only [List.length_append, hsize]
        omega
    -- the name of the variable does not occur before its place
    have hvm : replaceAll "$VM_NAME" name
        (path ++ (pre ++ CPU ++ "/".toList ++ "$VM_NAME/libjvm.so".toList)) =
        path ++ (pre ++ CPU ++ "/".toList) ++ (name ++ "/libjvm.so".toList) := by
      have hpath : '$' ∉ path ++ (pre ++ CPU ++ "/".toList) := by
        rw [List.mem_append, not_or]
        exact ⟨h.home.2, hbefore⟩
      rw [← List.append_assoc]
      refine (replaceAll_append_of_not_mem hpath _ _ _).trans (congrArg _ ?_)
      exact (replaceAll_append (by decide) name "/libjvm.so".toList).trans rfl
    rw [hsplit, vmPlace, hhome, Option.bind_some, fill, hvm, if_pos]
    simp only [List.length_append, hsize, bufSize]
    omega
  exact firstPlace_eq_find? <| .cons (hplace "/jre/lib/" (by decide) (by decide)) <|
    .cons (hplace "/lib/" (by decide) (by decide)) .nil

/-- **The VMs of a plain Java home** are the names in the lines whose library is a file. -/
theorem vms_eq {lines : List Text}
    (hlines : ∀ line ∈ lines, path.length + CPU.length + (vmName line).length < 960) :
    vms fs CPU path lines = (true, foundVms fs CPU path lines) := by
  induction lines with
  | nil => rfl
  | cons line lines ih =>
    rw [List.forall_mem_cons] at hlines
    rw [vms, h.firstPlace_library hlines.1, ih hlines.2]
    unfold foundVms
    -- a line without a name, a name without a library, and a VM
    by_cases hempty : vmName line = []
    · rw [if_pos hempty, List.filterMap_cons_none (by rw [foundVm, if_pos hempty])]
    · rw [if_neg hempty]
      cases hfind : (libraryPlaces CPU path (vmName line)).find? fs.isFile with
      | none =>
        rw [List.filterMap_cons_none (by rw [foundVm, if_neg hempty, hfind]; rfl)]
      | some libf =>
        rw [List.filterMap_cons_some (by rw [foundVm, if_neg hempty, hfind]; rfl)]

theorem of_mem_locationJvmCfg : ∀ orig ∈ locationJvmCfg CPU, nul ∉ orig ∧ orig.length < bufSize := by
  have hpart : ∀ pre : Text, nul ∉ pre → pre.length < 100 →
      nul ∉ pre ++ CPU ++ "/jvm.cfg".toList ∧
        (pre ++ CPU ++ "/jvm.cfg".toList).length < bufSize := by
    intro pre hpre hlt
    have hshort := h.short
    have hcfg : nul ∉ "/jvm.cfg".toList ∧ "/jvm.cfg".toList.length = 8 := by decide
    simp only [List.mem_append, hpre, h.cpu.1, hcfg, List.length_append, bufSize]
    exact ⟨by simp, by omega⟩
  simp only [locationJvmCfg, List.forall_mem_cons]
  exact ⟨by decide, by decide, hpart _ (by decide) (by decide), hpart _ (by decide) (by decide),
    List.forall_mem_nil _⟩

/-- **A plain Java home with a `jvm.cfg`**: when the names in its lines are not too long, no buffer is
overrun, and the array of the VMs is overrun exactly when there are more than 255. -/
theorem build_eq (hbuf : buf.length = bufSize) (hdir : fs.isDir path = true) {cfgf text : Text}
    (hcfg : (cfgPlaces CPU path).find? fs.isFile = some cfgf) (htext : fs.content cfgf = some text)
    (hnul : nul ∉ text)
    (hnames : ∀ line ∈ fgetsAll [] text, path.length + CPU.length + (vmName line).length < 960) :
    build fs CPU buf path =
      if (foundVms fs CPU path (fgetsAll [] text)).length < 256 then
        some (some ⟨path, some cfgf, foundVms fs CPU path (fgetsAll [] text)⟩)
      else none := by
  -- the first place of `jvm.cfg` that is a file
  have hlocate : locate fs.isFile (expandHome buf path) (locationJvmCfg CPU) =
      some (some (some cfgf)) := by
    have hexpand : ∀ orig ∈ locationJvmCfg CPU,
        expandHome buf path orig = some (homePlace path orig) := by
      intro orig horig
      obtain ⟨hnul, hlt⟩ := h.of_mem_locationJvmCfg orig horig
      exact expandHome_eq hbuf hnul hlt h.home.1
    rw [locate_eq hexpand, h.firstPlace_cfg, hcfg]
  have hCPU : CPU.length < 900 := by
    have hshort := h.short
    omega
  -- its lines, none of which overruns a buffer
  have hparse : parseCfg fs CPU buf path (fgetsAll [] text) [] = _ :=
    parseCfg_eq hbuf h.cpu.1 hCPU h.home.1 (nul_not_mem_fgetsAll List.not_mem_nil hnul) (by decide)
  rw [h.vms_eq hnames] at hparse
  rw [build, if_neg (by simp [hdir]), hlocate, Option.bind_some]
  dsimp only
  rw [htext]
  dsimp only
  rw [hparse]
  dsimp only
  rw [List.length_nil, Nat.zero_add, List.nil_append]
  split_ifs <;> rfl

omit h in
/-- The first VM with a name has the library of that name. -/
theorem find?_foundVms {name : Text} (lines : List Text) :
    ((foundVms fs CPU path lines).find? fun jvm => jvm.name = some name).map HomeJvm.libr =
      if name ≠ [] ∧ name ∈ lines.map vmName then (libraryPlaces CPU path name).find? fs.isFile
      else none := by
  unfold foundVms
  induction lines with
  | nil => simp
  | cons line lines ih =>
    by_cases hline : vmName line = name ∧ name ≠ []
    · -- a line with the name
      obtain ⟨rfl, hne⟩ := hline
      rw [if_pos ⟨hne, by simp⟩]
      cases hfind : (libraryPlaces CPU path (vmName line)).find? fs.isFile with
      | none =>
        rw [List.filterMap_cons_none (by rw [foundVm, if_neg hne, hfind]; rfl), ih, hfind, ite_self]
      | some libf =>
        rw [List.filterMap_cons_some (by rw [foundVm, if_neg hne, hfind]; rfl)]
        simp
    · -- another line
      have hmem : (name ≠ [] ∧ name ∈ (line :: lines).map vmName) ↔
          (name ≠ [] ∧ name ∈ lines.map vmName) := by
        rw [List.map_cons, List.mem_cons]
        constructor
        · rintro ⟨hne, rfl | h⟩
          · exact absurd ⟨rfl, hne⟩ hline
          · exact ⟨hne, h⟩
        · exact fun h => ⟨h.1, .inr h.2⟩
      rw [if_congr hmem rfl rfl, ← ih]
      cases hfound : foundVm fs CPU path line with
      | none => rw [List.filterMap_cons_none hfound]
      | some jvm =>
        have hne : jvm.name ≠ some name := by
          unfold foundVm at hfound
          split_ifs at hfound with hempty
          obtain ⟨libf, -, rfl⟩ := Option.map_eq_some_iff.mp hfound
          rintro ⟨⟩
          exact hline ⟨rfl, hempty⟩
        rw [List.filterMap_cons_some hfound, List.find?_cons_of_neg (by simpa using hne)]

/-- **The library of the VM that is asked for**: of the two places in the Java home the first one that
is a file, if a line of `jvm.cfg` has the name of the VM. -/
theorem javaLibrary_build (hbuf : buf.length = bufSize) (hdir : fs.isDir path = true)
    {cfgf text : Text} (hcfg : (cfgPlaces CPU path).find? fs.isFile = some cfgf)
    (htext : fs.content cfgf = some text) (hnul : nul ∉ text)
    (hnames : ∀ line ∈ fgetsAll [] text, path.length + CPU.length + (vmName line).length < 960)
    (hfew : (foundVms fs CPU path (fgetsAll [] text)).length < 256) {args : ArgData} {name : Text}
    (hname : args.name = some name) (hne : name ≠ []) :
    ∃ data, build fs CPU buf path = some (some data) ∧
      javaLibrary args data =
        if name ∈ (fgetsAll [] text).map vmName then (libraryPlaces CPU path name).find? fs.isFile
        else none := by
  refine ⟨_, (h.build_eq hbuf hdir hcfg htext hnul hnames).trans (if_pos hfew), ?_⟩
  unfold javaLibrary
  rw [hname]
  exact (find?_foundVms _).trans (by simp only [hne, ne_eq, not_false_eq_true, true_and])

end PlainHome

/-- A Java home with one VM. -/
def sampleHome : FileSystem where
  isDir := fun path => path = "/usr/java".toList
  isFile := fun path =>
    path ∈ ["/usr/java/jre/lib/jvm.cfg".toList, "/usr/java/jre/lib/amd64/server/libjvm.so".toList]
  content := fun path =>
    if path = "/usr/java/jre/lib/jvm.cfg".toList then
      some "# VMs\n-server KNOWN\n-client IGNORE\n".toList
    else none
  javaHome := none

theorem plainHome_sample : PlainHome "amd64" "/usr/java" := ⟨by decide, by decide, by decide⟩

theorem javaLibrary_build_sample :
    ∃ data, build sampleHome "amd64" (List.replicate bufSize ' ') "/usr/java" = some (some data) ∧
      javaLibrary (startedSettings "/usr/java" "/avetti/tomcat/bin" initOpts) data =
        some "/usr/java/jre/lib/amd64/server/libjvm.so".toList := by
  have hcfg : (cfgPlaces "amd64" "/usr/java").find? sampleHome.isFile =
      some "/usr/java/jre/lib/jvm.cfg".toList := rfl
  have htext : sampleHome.content "/usr/java/jre/lib/jvm.cfg" =
      some "# VMs\n-server KNOWN\n-client IGNORE\n".toList := rfl
  obtain ⟨data, hbuild, hlibrary⟩ := plainHome_sample.javaLibrary_build List.length_replicate rfl hcfg
    htext (by decide) (by decide) (by decide)
    (show (startedSettings "/usr/java" "/avetti/tomcat/bin" initOpts).name = some "server" from rfl)
    (by decide)
  exact ⟨data, hbuild, hlibrary.trans rfl⟩

end Avetti.Jsvc
