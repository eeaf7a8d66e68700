import SchemaTypings.Shell.Command

/-!
# Reading the source of a script

The source of a script is read character by character; a backslash at the end of a line joins the
line with the next one.  The reader remembers its last token, which it can be told to read again,
and the documents that a line has asked for and that follow it.

This belongs to the outer layer, which only runs programs; no result depends on it.
-/

namespace SchemaTypings.Shell

open SchemaTypings.Text

/-- What a redirection asks for. -/
inductive RedirectionKind where
  | file (opening : Opening)
  | duplicate (writing : Bool)
  /-- A document in the script, whose lines may lose the tabs that they start with. -/
  | document (dropsTabs : Bool)
  deriving DecidableEq, Repr

/-- A token of a script. -/
inductive Token where
  | endOfFile
  | newline
  | mark (text : String)
  | keyword (text : String)
  | word (word : Word)
  | redirection (channel : Nat) (kind : RedirectionKind)

/-- A document that a line has asked for. -/
structure AwaitedDocument where
  number : Nat
  delimiter : Octets
  dropsTabs : Bool
  /-- Whether the document is taken as it is. -/
  verbatim : Bool

/-- A source under way: what is left of it, the number of the line, the last token and whether it
is to be read again, and the documents. -/
structure Source where
  rest : Octets
  line : Nat := 1
  token : Token := .newline
  again : Bool := false
  awaited : List AwaitedDocument := []
  documents : List (Nat × List Part) := []
  /-- The number of the next document. -/
  next : Nat := 0
  /-- A bound for everything that is repeated while reading. -/
  limit : Nat := rest.length + 2

/-- What is wrong with a source, and the line where it shows. -/
structure SourceProblem where
  line : Nat
  message : Octets

/-- A step of reading. -/
abbrev Reading := StateT Source (Except SourceProblem)

/-- Refuses the source. -/
def refuse {α : Type} (message : String) : Reading α := do
  throw ⟨(← get).line, ("Syntax error: " ++ message).toList⟩

/-- Joins the lines at the start that a backslash continues, and counts them. -/
def joinLines : Octets → Nat → Octets × Nat
  | '\\' :: '\n' :: rest, line => joinLines rest (line + 1)
  | octets, line => (octets, line)

/-- The next character. -/
def peek : Reading (Option Char) :=
  modifyGet fun s =>
    let (rest, line) := joinLines s.rest s.line
    (rest.head?, { s with rest, line })

/-- Takes the next character as it is. -/
def take? : Reading (Option Char) :=
  modifyGet fun s =>
    match s.rest with
    | [] => (none, s)
    | c :: rest => (some c, { s with rest, line := if c = '\n' then s.line + 1 else s.line })

/-- Passes over a character that has been looked at. -/
def skip : Reading Unit := discard take?

/-- Takes the next character if it is a given one. -/
def skipIf (c : Char) : Reading Bool := do
  if (← peek) == some c then
    skip
    return true
  return false

/-- Takes characters while they fulfil a condition. -/
def takeWhile (p : Char → Bool) : Reading Octets := do
  let limit := (← get).limit
  go limit []
where
  /-- Takes characters up to a number of them; those taken come last first. -/
  go : Nat → Octets → Reading Octets
    | 0, taken => return taken.reverse
    | n + 1, taken => do
      match ← peek with
      | some c =>
        if p c then
          skip
          go n (c :: taken)
        else return taken.reverse
      | none => return taken.reverse

/-- Has the last token read again. -/
def readAgain : Reading Unit := modify fun s => { s with again := true }

/-- Remembers a token as the last one. -/
def remember (token : Token) : Reading Token := do
  modify fun s => { s with token }
  return token

namespace Token

/-- A token as it is named in a complaint. -/
def shown : Token → String
  | endOfFile => "end of file"
  | newline => "newline"
  | mark text => "\"" ++ text ++ "\""
  | keyword text => "\"" ++ text ++ "\""
  | word _ => "word"
  | redirection _ _ => "redirection"

/-- Whether a token is a given keyword. -/
def isKeyword (token : Token) (text : String) : Bool :=
  match token with
  | keyword t => t == text
  | _ => false

/-- Whether a token is a given mark. -/
def isMark (token : Token) (text : String) : Bool :=
  match token with
  | mark t => t == text
  | _ => false

/-- Whether a token ends the commands inside another command. -/
def endsCommands : Token → Bool
  | endOfFile => true
  | mark text => text == ")" || text == ";;"
  | keyword text => ["do", "done", "elif", "else", "esac", "fi", "then", "\x7d"].contains text
  | _ => false

end Token

/-- Refuses the last token. -/
def refuseToken {α : Type} : Reading α := do
  refuse ((← get).token.shown ++ " unexpected")

/-- Refuses the last token where another one has to stand. -/
def refuseTokenFor {α : Type} (expected : Token) : Reading α := do
  refuse ((← get).token.shown ++ " unexpected (expecting " ++ expected.shown ++ ")")

end SchemaTypings.Shell
