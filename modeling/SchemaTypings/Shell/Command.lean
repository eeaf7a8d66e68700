import SchemaTypings.Text.Octets

/-!
# Commands of a script

What a script says once it is read: words made up of parts, redirections, and commands that are
built from simple ones.  The text of a document that is given in the script itself is known by its
number, because it stands after the line that asks for it.

The shell is part of the outer layer, which only runs programs: no result depends on it, because
results are about any `Run.Toolbox`.
-/

namespace SchemaTypings.Shell

open SchemaTypings.Text

/-- What decides whether the value of a parameter is replaced. -/
inductive Fallback where
  | use
  | assign
  | refuse
  | instead
  deriving DecidableEq, Repr

/-- How a redirection opens a file. -/
inductive Opening where
  | read
  | write
  | append
  | readWrite
  deriving DecidableEq, Repr

mutual

/-- A part of a word. -/
inductive Part where
  | char (c : Char)
  | quoted (parts : List Part)
  | parameter (name : Octets) (form : Form)
  | output (body : List Command)
  | arithmetic (expression : List Part)

/-- What is asked of a parameter. -/
inductive Form where
  | value
  | length
  | fallback (kind : Fallback) (nullToo : Bool) (word : List Part)
  | trim (atEnd longest : Bool) (pattern : List Part)
  /-- A form that no shell knows. -/
  | unknown

/-- Where a channel of a command leads. -/
inductive Redirection where
  | file (channel : Nat) (opening : Opening) (path : List Part)
  | duplicate (channel : Nat) (writing : Bool) (source : List Part)
  | document (channel : Nat) (number : Nat)

/-- A command; the number is that of its line. -/
inductive Command where
  | simple (line : Nat) (assignments : List (Octets × List Part)) (words : List (List Part))
      (redirections : List Redirection)
  | redirected (line : Nat) (body : Command) (redirections : List Redirection)
  | subshell (line : Nat) (body : Command) (redirections : List Redirection)
  | background (body : Command)
  | negated (body : Command)
  | pipeline (commands : List Command)
  /-- Commands after a first one, each with whether it waits for a success. -/
  | chain (first : Command) (rest : List (Bool × Command))
  | sequence (commands : List Command)
  | conditional (test body : Command) (otherwise : Option Command)
  | loop (untilTrue : Bool) (test body : Command)
  | forEach (line : Nat) (name : Octets) (words : List (List Part)) (body : Command)
  | select (line : Nat) (word : List Part) (branches : List (List (List Part) × Command))
  | function (line : Nat) (name : Octets) (body : Command)

end

/-- A word of a script. -/
abbrev Word := List Part

/-- The command that does nothing. -/
def Command.nothing : Command := .sequence []

instance : Inhabited Command := ⟨.nothing⟩

/-- The octets of a word without quotes and expansions. -/
def plainText? : Word → Option Octets
  | [] => some []
  | .char c :: rest => (plainText? rest).map (c :: ·)
  | _ :: _ => none

/-- Whether a character can start a name. -/
def startsName (c : Char) : Bool := c.isAlpha || c == '_'

/-- Whether a character can stand in a name. -/
def continuesName (c : Char) : Bool := c.isAlphanum || c == '_'

/-- Whether octets are a name. -/
def isName : Octets → Bool
  | [] => false
  | c :: rest => startsName c && rest.all continuesName

/-- The name and the value of a word that assigns. -/
def assignment? (word : Word) : Option (Octets × Word) :=
  go [] word
where
  /-- Looks for the equals sign after a name, whose octets so far come last first. -/
  go (name : Octets) : Word → Option (Octets × Word)
    | .char c :: rest =>
      if c = '=' then (if isName name.reverse then some (name.reverse, rest) else none)
      else if continuesName c then go (c :: name) rest
      else none
    | _ => none

end SchemaTypings.Shell
