import SchemaTypings.Tools.Session

/-!
# Flags of tools

The arguments of most tools are flags, written as letters after one hyphen or as words after two,
and operands.  Flags and operands may be mixed, two hyphens end the flags, letters may be joined,
and words may be shortened as long as they are clear.

This belongs to the outer layer, which only runs programs; no result depends on it.
-/

namespace SchemaTypings.Tools

open SchemaTypings.Text

/-- Whether a flag comes with a value. -/
inductive Taking where
  | nothing
  | value
  /-- A value that may be missing and has to be joined to the flag. -/
  | joinedValue
  deriving DecidableEq, Repr

/-- A flag of a tool: its letter, its word and whether it takes a value.  A flag without a letter of
its own is known by one that is no letter. -/
structure Flag where
  letter : Char
  word : Option String := none
  taking : Taking := .nothing

/-- An argument as it was understood. -/
inductive Argument where
  | flag (letter : Char) (value : Octets)
  | operand (operand : Octets)
  deriving DecidableEq, Repr

/-- What the flags of a tool are and whether the first operand ends them. -/
structure FlagSet where
  flags : List Flag
  operandEnds : Bool := false

namespace FlagSet

/-- The flag of a letter. -/
def ofLetter? (set : FlagSet) (c : Char) : Option Flag := set.flags.find? fun f => f.letter == c

/-- The flags whose word starts in a given way; one whose word is exactly that is the only one. -/
def ofWord (set : FlagSet) (start : Octets) : List Flag :=
  let named := set.flags.filter fun f => (f.word.map fun w => start.isPrefixOf w.toList).getD false
  match named.find? fun f => f.word.map String.toList == some start with
  | some exact => [exact]
  | none => named

/-- Reads joined letters: the arguments understood, and a flag that waits for its value. -/
def readLetters (set : FlagSet) : Octets → Except Octets (List Argument × Option Flag)
  | [] => .ok ([], none)
  | c :: rest =>
    match set.ofLetter? c with
    | none => .error (wording "invalid option -- '" ++ [c, '\''])
    | some flag =>
      match flag.taking with
      | .nothing => (readLetters set rest).map fun r => (.flag c [] :: r.1, r.2)
      | .joinedValue => .ok ([.flag c rest], none)
      | .value => if rest.isEmpty then .ok ([], some flag) else .ok ([.flag c rest], none)

/-- Reads a word after two hyphens: an argument, or a flag that waits for its value. -/
def readWord (set : FlagSet) (word : Octets) : Except Octets (Argument ⊕ Flag) :=
  let start := word.takeWhile (· != '=')
  let value? := if word.contains '=' then some ((word.dropWhile (· != '=')).drop 1) else none
  match set.ofWord start with
  | [] => .error (wording "unrecognized option '--" ++ start ++ ['\''])
  | [flag] =>
    let full := wording (flag.word.getD "")
    match flag.taking, value? with
    | .nothing, some _ =>
      .error (wording "option '--" ++ full ++ wording "' doesn't allow an argument")
    | .value, none => .ok (.inr flag)
    | _, value? => .ok (.inl (.flag flag.letter (value?.getD [])))
  | several =>
    .error (wording "option '--" ++ word ++ wording "' is ambiguous; possibilities:" ++
      several.flatMap fun f => wording (" '--" ++ f.word.getD "" ++ "'"))

/-- The complaint that a flag has no value. -/
def lacksValue (byWord : Bool) (flag : Flag) : Octets :=
  if byWord then wording ("option '--" ++ flag.word.getD "" ++ "' requires an argument")
  else wording "option requires an argument -- '" ++ [flag.letter, '\'']

/-- Reads arguments; a flag may wait for its value, and was given by its word or its letter. -/
def readFrom (set : FlagSet) : Option (Bool × Flag) → List Octets → Except Octets (List Argument)
  | some (byWord, flag), [] => .error (lacksValue byWord flag)
  | some (_, flag), value :: rest =>
    (readFrom set none rest).map (Argument.flag flag.letter value :: ·)
  | none, [] => .ok []
  | none, ['-', '-'] :: rest => .ok (rest.map Argument.operand)
  | none, ('-' :: '-' :: word) :: rest =>
    match set.readWord word with
    | .error problem => .error problem
    | .ok (.inl argument) => (readFrom set none rest).map (argument :: ·)
    | .ok (.inr flag) => readFrom set (some (true, flag)) rest
  | none, ('-' :: c :: letters) :: rest =>
    match set.readLetters (c :: letters) with
    | .error problem => .error problem
    | .ok (arguments, waiting) =>
      (readFrom set (waiting.map fun flag => (false, flag)) rest).map (arguments ++ ·)
  | none, operand :: rest =>
    if set.operandEnds then .ok ((operand :: rest).map Argument.operand)
    else (readFrom set none rest).map (Argument.operand operand :: ·)

/-- Reads the arguments of a tool. -/
def read (set : FlagSet) (arguments : List Octets) : Except Octets (List Argument) :=
  set.readFrom none arguments

end FlagSet

/-- The operands among arguments. -/
def operands (arguments : List Argument) : List Octets :=
  arguments.filterMap fun
    | .operand operand => some operand
    | .flag _ _ => none

/-- Whether a flag is given. -/
def hasFlag (arguments : List Argument) (letter : Char) : Bool :=
  arguments.any fun
    | .flag c _ => c == letter
    | .operand _ => false

/-- The value that a flag was last given. -/
def flagValue? (arguments : List Argument) (letter : Char) : Option Octets :=
  arguments.reverse.findSome? fun
    | .flag c value => if c = letter then some value else none
    | .operand _ => none

/-- The line that tells where a tool is explained. -/
def tryHelp (tool : String) : Octets :=
  wording ("Try '" ++ tool ++ " --help' for more information.")

/-- Refuses arguments. -/
def failUsage (status : Nat) (tool : String) (problem : Octets) : Work Unit :=
  fail status (wording (tool ++ ": ") ++ problem ++ ['\n'] ++ tryHelp tool)

/-- Works with the arguments of a tool as far as they are understood. -/
def withArguments (tool : String) (set : FlagSet) (arguments : List Octets)
    (work : List Argument → Work Unit) (status : Nat := 1) : Work Unit :=
  match set.read arguments with
  | .error problem => failUsage status tool problem
  | .ok understood => work understood

/-- A flag with a letter and a word. -/
def Flag.of (letter : Char) (word : String) (taking : Taking := .nothing) : Flag :=
  ⟨letter, some word, taking⟩

/-- A flag with a letter only. -/
def Flag.ofLetter (letter : Char) (taking : Taking := .nothing) : Flag := ⟨letter, none, taking⟩

end SchemaTypings.Tools
