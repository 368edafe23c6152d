import Avetti.Text.Shell

/-!
# Command lines

A shell that gets a command line as a text takes it apart into commands at `;`, and a command into
words at the blanks. This is how it reads a line whose words stand for themselves; what it makes of
any other line, with quotes, expansions, redirections or the words of its grammar, is left to the
environment.

## Main definitions

* `Shell.isInert w`: the word stands for itself, apart from the pathnames that match it
* `Shell.isCommand ws`: the words are a command, not a part of the grammar
* `Shell.commands other glob line`: the commands of a line, each with its words

## Main results

* `Shell.commands_of_simple`: the commands of a line whose words stand for themselves
* `Shell.pieces_cons`: the pieces of a line at its first `;`
-/

namespace Shell

/-- The characters that quote, expand, redirect, group, or end a command in another way than `;`. -/
def operators : Text := "'\"\\\x60()<>&|\n"

/-- The character after `$` begins an expansion. -/
def beginsExpansion (c : Char) : Bool := c.isAlphanum || c ∈ "_\x7b([*@#?-$!".toList

/-- A `$` of the word begins an expansion. -/
def hasExpansion : Text → Bool
  | [] => false
  | c :: t => (c = '$' && t.head?.any beginsExpansion) || hasExpansion t

/-- The word can be a brace expression: a list or a sequence between braces. -/
def hasBraces (w : Text) : Bool := '\x7b' ∈ w && (',' ∈ w || decide (Text.Occurs ".." w))

/-- The word stands for itself, apart from the pathnames that match it: it is no comment and no home
directory, and nothing in it is expanded. -/
def isInert (w : Text) : Bool := w.head? ∉ [some '#', some '~'] && !hasExpansion w && !hasBraces w

/-- The words that the grammar of the shell reserves at the beginning of a command. -/
def reserved : List Text :=
  ["!", "[[", "\x7b", "\x7d", "case", "coproc", "do", "done", "elif", "else", "esac", "fi", "for",
    "function", "if", "in", "select", "then", "time", "until", "while"]

/-- The words are a command: there is a first one, which is neither reserved nor an assignment. -/
def isCommand (ws : List Text) : Bool := ws.head?.any fun w => w ∉ reserved && '=' ∉ w

/-- The words of the pieces of a line between `;`. -/
def pieces (line : Text) : List (List Text) := (line.splitOn ';').map (words defaultIFS)

/-- The line consists of commands whose words stand for themselves. -/
structure IsSimple (line : Text) : Prop where
  chars : ∀ c ∈ line, c ∉ operators
  pieces : ∀ ws ∈ pieces line, isCommand ws = true
  inert : ∀ ws ∈ Shell.pieces line, ∀ w ∈ ws, isInert w = true

instance (line : Text) : Decidable (IsSimple line) :=
  decidable_of_iff ((∀ c ∈ line, c ∉ operators) ∧ (∀ ws ∈ pieces line, isCommand ws = true) ∧
      ∀ ws ∈ pieces line, ∀ w ∈ ws, isInert w = true)
    ⟨fun h => ⟨h.1, h.2.1, h.2.2⟩, fun h => ⟨h.chars, h.pieces, h.inert⟩⟩

/-- The commands of a line, where `other` gives those of a line that is not simple and `glob` the
pathnames that match a pattern. -/
def commands (other : Text → List (List Text)) (glob : Text → List Text) (line : Text) :
    List (List Text) :=
  if IsSimple line then (pieces line).map (·.flatMap (expand glob)) else other line

section Commands

variable {other : Text → List (List Text)} {glob : Text → List Text} {line : Text}

theorem commands_of_simple (h : IsSimple line) :
    commands other glob line = (pieces line).map (·.flatMap (expand glob)) := if_pos h

/-- The pieces of a line at its first `;`. -/
theorem pieces_cons {t : Text} (ht : ';' ∉ t) (line : Text) :
    pieces (t ++ ';' :: line) = words defaultIFS t :: pieces line := by
  rw [pieces, List.splitOn_append_cons_self_of_not_mem ht, List.map_cons]
  rfl

/-- A line without `;` is one piece. -/
theorem pieces_of_not_mem (h : ';' ∉ line) : pieces line = [words defaultIFS line] := by
  rw [pieces, List.splitOn_eq_singleton h]
  rfl

/-- A word that is no pattern stands for no pathnames. -/
theorem expand_of_not_isPattern {w : Text} (hw : isPattern w = false) : expand glob w = [w] := by
  rw [expand, hw]
  exact if_neg (by simp)

theorem flatMap_expand_eq_self {ws : List Text} (h : ∀ w ∈ ws, expand glob w = [w]) :
    ws.flatMap (expand glob) = ws := by
  induction ws with
  | nil => rfl
  | cons w ws ih =>
    rw [List.flatMap_cons, h w List.mem_cons_self, ih fun v hv => h v (List.mem_cons_of_mem w hv)]
    rfl

end Commands

end Shell
