import Avetti.Sed.Lines
import Avetti.Setup.System

/-!
# The files of the system

The commands of `setup.sh` that read and write files, on the files of the system. All other
commands have given replies, and leave the files as they are. What `sed` makes of a file with a
script that is not read here is given, too.

## Main definitions

* `Files`: the content of every file
* `dos2unix`: a text with the line ends of Unix
* `Outside`: what is outside the model
* `fileSystem other`: the commands on the files
* `Keeps other path p`: no command of `p` changes the file

## Main results

* `Keeps.state`: a script that keeps a file leaves its content
* `exec_edits`: the edits of one file
-/

open Script

namespace Avetti

variable {α β : Type}

theorem substituteAll_eq_script (pattern repl : Text) :
    substituteAll pattern repl = Sed.script pattern repl := by
  have hs : "s/".toList = ['s', '/'] := rfl
  have hslash : "/".toList = ['/'] := rfl
  have hg : "/g".toList = ['/', 'g'] := rfl
  unfold substituteAll Sed.script
  simp only [hs, hslash, hg, List.append_assoc, List.cons_append, List.nil_append]

/-- The content of every file that exists. -/
abbrev Files := Text → Option Text

namespace Files

variable (s : Files)

/-- What is read from a file. -/
def read (path : Text) : Text := (s path).getD []

/-- The files with a new content of one of them. -/
def write (path text : Text) : Files := Function.update s path (some text)

/-- The files after an edit of one of them, if it exists. -/
def modify (path : Text) (f : Text → Text) : Files := Function.update s path ((s path).map f)

/-- The files after a copy, if there is something to copy. -/
def copy (src path : Text) : Files := if (s src).isSome then Function.update s path (s src) else s

/-- The files after one of them is moved, if it exists. -/
def move (src path : Text) : Files :=
  if (s src).isSome then Function.update (Function.update s path (s src)) src none else s

theorem read_write_self (path text : Text) : (s.write path text).read path = text := by
  rw [read, write, Function.update_self]
  rfl

theorem read_modify_self {f : Text → Text} (hf : f [] = []) (path : Text) :
    (s.modify path f).read path = f (s.read path) := by
  rw [read, modify, Function.update_self, read]
  cases s path with
  | none => exact hf.symm
  | some t => rfl

end Files

/-- A text with the line ends that `dos2unix` makes. -/
def dos2unix : Text → Text
  | '\r' :: '\n' :: t => '\n' :: dos2unix t
  | c :: t => c :: dos2unix t
  | [] => []

/-- What is outside the model: the replies of the other commands, and what `sed` makes of a text with
a script that is not read here. -/
structure Outside where
  reply : Cmd → Reply
  sed : Text → Text → Text

/-- The commands on the files. -/
def fileSystem (other : Outside) : Handler Files Cmd Reply := fun s c =>
  match c with
  | .test op path =>
    if op = "-e".toList then (⟨if (s path).isSome then 0 else 1, []⟩, s) else (other.reply c, s)
  | .write text path => (other.reply c, s.write path text)
  | .append text path => (other.reply c, s.write path (s.read path ++ text))
  | .run [cmd, path] =>
    if cmd = "cat".toList then (⟨0, s.read path⟩, s)
    else if cmd = "dos2unix".toList then (other.reply c, s.modify path dos2unix)
    else (other.reply c, s)
  | .run [cmd, word, path] =>
    if cmd = "grep".toList then
      let out := Regex.grep word (s.read path)
      (⟨if out = [] then 1 else 0, out⟩, s)
    else if cmd = "cp".toList then (other.reply c, s.copy word path)
    else if cmd = "mv".toList then (other.reply c, s.move word path)
    else (other.reply c, s)
  | .run [cmd, option, script, path] =>
    if cmd = "sed".toList ∧ option = "-i".toList then
      (other.reply c, s.modify path (Sed.stream other.sed script))
    else (other.reply c, s)
  | c => (other.reply c, s)

section FileSystem

variable {other : Outside} {s : Files}

theorem fileSystem_sed (script path : Text) :
    (fileSystem other s (.run (sed script path))).2 = s.modify path (Sed.stream other.sed script) := rfl

theorem fileSystem_dos2unix (path : Text) :
    (fileSystem other s (.run ["dos2unix".toList, path])).2 = s.modify path dos2unix := rfl

theorem fileSystem_cp (src path : Text) :
    (fileSystem other s (.run ["cp".toList, src, path])).2 = s.copy src path := rfl

theorem fileSystem_mv (src path : Text) :
    (fileSystem other s (.run ["mv".toList, src, path])).2 = s.move src path := rfl

end FileSystem

/-! ## Scripts that keep a file -/

/-- No command of the script changes the file. -/
def Keeps (other : Outside) (path : Text) (p : Sh α) : Prop :=
  Emits (fun c _ => ∀ s, (fileSystem other s c).2 path = s path) p

section Keeps

variable {other : Outside} {path : Text}

theorem Keeps.state {p : Sh α} (hp : Keeps other path p) (s : Files) :
    (exec (fileSystem other) p s).state path = s path :=
  exec_state_of_emits (fun s => s path) (fun s _ hc => hc s) hp s

theorem Keeps.read {p : Sh α} (hp : Keeps other path p) (s : Files) :
    ((exec (fileSystem other) p s).state).read path = s.read path :=
  congrArg (·.getD []) (hp.state s)

theorem Keeps.bind {p : Sh α} {q : α → Sh β} (hp : Keeps other path p)
    (hq : ∀ a, Keeps other path (q a)) : Keeps other path (p >>= q) := emits_bind hp hq

theorem keeps_pure (a : α) : Keeps other path (pure a : Sh α) := trivial

theorem keeps_call {c : Cmd} {k : Reply → Sh α} (hc : ∀ s, (fileSystem other s c).2 path = s path)
    (hk : ∀ r, Keeps other path (k r)) : Keeps other path (call c k) := emits_call (fun _ => hc) hk

theorem keeps_ite {c : Prop} [Decidable c] {p q : Sh α} (hp : Keeps other path p)
    (hq : Keeps other path q) : Keeps other path (if c then p else q) := emits_ite hp hq

theorem keeps_ifThen {c : Bool} {p : Sh Unit} (hp : Keeps other path p) :
    Keeps other path (ifThen c p) := emits_ite hp trivial

theorem keeps_sed (script : Text) {file : Text} (h : path ≠ file) (s : Files) :
    (fileSystem other s (.run (sed script file))).2 path = s path := by
  rw [fileSystem_sed, Files.modify, Function.update_of_ne h]

theorem keeps_cp (src : Text) {file : Text} (h : path ≠ file) (s : Files) :
    (fileSystem other s (.run ["cp".toList, src, file])).2 path = s path := by
  rw [fileSystem_cp, Files.copy]
  split_ifs
  · rw [Function.update_of_ne h]
  · rfl

theorem keeps_mv {src file : Text} (hsrc : path ≠ src) (h : path ≠ file) (s : Files) :
    (fileSystem other s (.run ["mv".toList, src, file])).2 path = s path := by
  rw [fileSystem_mv, Files.move]
  split_ifs
  · rw [Function.update_of_ne hsrc, Function.update_of_ne h]
  · rfl

theorem keeps_appendTo (text : Text) {file : Text} (h : path ≠ file) :
    Keeps other path (appendTo text file) :=
  keeps_call (fun _ => Function.update_of_ne h _ _) fun _ => keeps_pure _

theorem keeps_writeTo (text : Text) {file : Text} (h : path ≠ file) :
    Keeps other path (writeTo text file) :=
  keeps_call (fun _ => Function.update_of_ne h _ _) fun _ => keeps_pure _

theorem keeps_edits (scripts : List Text) {file : Text} (h : path ≠ file) :
    Keeps other path (edits scripts file) := by
  induction scripts with
  | nil => exact keeps_pure _
  | cons script scripts ih => exact keeps_call (keeps_sed script h) fun _ => ih

end Keeps

/-- A file that is written with one line, and then extended with another. -/
theorem exec_write_append (other : Outside) (first second path : Text) (s : Files) :
    (exec (fileSystem other) (do
      writeTo first path
      appendTo second path) s).state = s.write path (first ++ second) := by
  have hsteps : (exec (fileSystem other) (do
      writeTo first path
      appendTo second path) s).state =
      (s.write path first).write path ((s.write path first).read path ++ second) := rfl
  rw [hsteps, Files.read_write_self, Files.write, Files.write, Function.update_idem, ← Files.write]

/-- The edits of one file, one after the other. -/
theorem exec_edits (other : Outside) (scripts : List Text) (path : Text) (s : Files) :
    (exec (fileSystem other) (edits scripts path) s).state path =
      (s path).map (Sed.streams other.sed scripts) := by
  induction scripts generalizing s with
  | nil =>
    have hid : Sed.streams other.sed [] = id := rfl
    rw [hid, Option.map_id]
    rfl
  | cons script scripts ih =>
    have hstep : (exec (fileSystem other) (edits (script :: scripts) path) s).state =
        (exec (fileSystem other) (edits scripts path)
          (s.modify path (Sed.stream other.sed script))).state := rfl
    rw [hstep, ih, Files.modify, Function.update_self, Option.map_map]
    rfl

end Avetti
