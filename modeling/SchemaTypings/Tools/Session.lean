import SchemaTypings.Run.FileSystem
import SchemaTypings.Text.Octets

/-!
# Working sessions of tools

A tool works on octets: it takes its input, reads and changes files, and writes to two streams.  A
session holds all of that.  What was written is kept in the order of writing, because both streams
may lead to the same place.

The tools are part of the outer layer, which only runs programs: no result depends on them, because
results are about any `Run.Toolbox`.
-/

namespace SchemaTypings.Tools

open SchemaTypings.Run SchemaTypings.Text

/-- Where a tool writes. -/
inductive Stream where
  | output
  | errors
  deriving DecidableEq, Repr

/-- A tool at work: its input that is left, the files, what it has written, last first, its status
so far, and the place of the file that its output goes to, if it goes to one. -/
structure Session where
  input : Octets
  files : FileSystem
  written : List (Stream × Octets) := []
  status : Nat := 0
  target : Option Place := none

/-- A step of a tool. -/
abbrev Work := StateM Session

/-- What a tool does with its arguments. -/
abbrev Tool := List Octets → Work Unit

/-- Writes to a stream. -/
def writeTo (stream : Stream) (octets : Octets) : Work Unit :=
  modify fun s => if octets.isEmpty then s else { s with written := (stream, octets) :: s.written }

/-- Writes to the output. -/
def emit (octets : Octets) : Work Unit := writeTo .output octets

/-- Writes to the stream of errors. -/
def complain (message : Octets) : Work Unit := writeTo .errors message

/-- Sets the status to end with. -/
def endWith (status : Nat) : Work Unit := modify fun s => { s with status }

/-- Writes a line to the stream of errors and sets the status. -/
def fail (status : Nat) (message : Octets) : Work Unit := do
  complain (message ++ ['\n'])
  endWith status

/-- Takes all of the input. -/
def takeInput : Work Octets := do
  let s ← get
  set { s with input := [] }
  return s.input

/-- The octets of the file that a path leads to. -/
def readFile (path : Octets) : Work (Except PathProblem Octets) := do
  if path = "/dev/stdin".toList then return .ok (← takeInput)
  return ((← get).files.read (Octets.text path)).map fun content => Octets.ofBytes content.bytes

/-- Puts octets into the file that a path leads to. -/
def writeFile (path content : Octets) : Work (Except PathProblem Unit) := do
  let s ← get
  match s.files.filePlace (Octets.text path) with
  | .ok place =>
    set { s with files := s.files.put place (.ofBytes (Octets.bytes content)) }
    return .ok ()
  | .error problem => return .error problem

/-- What was written to a stream. -/
def Session.writtenTo (s : Session) (stream : Stream) : Octets :=
  (s.written.reverse.filter fun entry => entry.1 == stream).flatMap Prod.snd

/-! ### Names in messages -/

/-- A number in decimal digits. -/
def decimal (n : Nat) : Octets := (toString n).toList

/-- An octet in three octal digits. -/
def octal (c : Char) : Octets :=
  [c.toNat / 64 % 8, c.toNat / 8 % 8, c.toNat % 8].map fun d => Char.ofNat (d + 48)

/-- The letter that names a control character after a backslash. -/
def controlLetter? : Char → Option Char
  | '\x07' => some 'a'
  | '\x08' => some 'b'
  | '\x0c' => some 'f'
  | '\n' => some 'n'
  | '\r' => some 'r'
  | '\t' => some 't'
  | '\x0b' => some 'v'
  | _ => none

/-- Whether an octet is a printable character. -/
def isPrintable (c : Char) : Bool := 32 ≤ c.toNat && c.toNat < 127

/-- The octets of a name between quotes, where an apostrophe and what is not printable are taken
out of the quotes; the flag says whether the octet before was not printable. -/
def quotedFrom (escaped : Bool) : Octets → Octets
  | [] => []
  | c :: rest =>
    if isPrintable c then
      (if escaped then ['\'', '\''] else []) ++
        (if c = '\'' then ['\'', '\\', '\'', '\''] else [c]) ++ quotedFrom false rest
    else
      (if escaped then [] else ['\'', '$', '\'']) ++
        '\\' :: ((controlLetter? c).map fun letter => [letter]).getD (octal c) ++
        quotedFrom true rest

/-- A name in quotes. -/
def quoted (name : Octets) : Octets :=
  if name.contains '\'' && name.all fun c => isPrintable c && !"\"$\\!".toList.contains c &&
      c.toNat ≠ 0x60 then
    ['"'] ++ name ++ ['"']
  else ['\''] ++ quotedFrom false name ++ ['\'']

/-- Whether a name is shown without quotes. -/
def isPlainName (name : Octets) : Bool :=
  !name.isEmpty && name != ['\x7b'] && name != ['\x7d'] &&
    name.head? != some '#' && name.head? != some '~' &&
    name.all fun c => isPrintable c && c.toNat ≠ 0x60 && !" !\"$&'()*:;<=>?[\\^|".toList.contains c

/-- A name as it stands before a colon: in quotes only if it needs them. -/
def shownName (name : Octets) : Octets := if isPlainName name then name else quoted name

/-- A text in quotes, with backslashes before an apostrophe, a backslash and what is not
printable. -/
def cited (name : Octets) : Octets :=
  let shown := fun c =>
    if c = '\'' ∨ c = '\\' then ['\\', c]
    else if isPrintable c then [c]
    else '\\' :: ((controlLetter? c).map fun letter => [letter]).getD (octal c)
  ['\''] ++ name.flatMap shown ++ ['\'']

/-- The octets of a wording. -/
def wording (s : String) : Octets := s.toList

/-- Complains of a file that cannot be read. -/
def failOn (tool : String) (path : Octets) (problem : PathProblem) : Work Unit :=
  fail 1 (wording (tool ++ ": ") ++ shownName path ++ wording (": " ++ problem.message))

/-! ### Lines -/

/-- Adds an octet to the first line. -/
def consLine (c : Char) : List Octets → List Octets
  | [] => [[c]]
  | line :: rest => (c :: line) :: rest

/-- The lines of octets with their line ends. -/
def lines (octets : Octets) : List Octets :=
  octets.foldr (fun c rest => if c = '\n' then [c] :: rest else consLine c rest) []

/-- A line without its line end. -/
def chomp (line : Octets) : Octets :=
  if line.getLast? = some '\n' then line.dropLast else line

end SchemaTypings.Tools
