import SchemaTypings.Shell.Words

/-!
# Reading commands

Commands are read by recursive descent, one complete command after another: what a script says
first can run before the rest of it is looked at.  Keywords are known only where a command can
start.  A command inside another one is read by a reader of the next depth, so that reading ends.

This belongs to the outer layer, which only runs programs; no result depends on it.
-/

namespace SchemaTypings.Shell

open SchemaTypings.Text

/-- What to look for in the next token. -/
structure Wanted where
  keywords : Bool := false
  /-- Whether line ends are passed over. -/
  acrossLines : Bool := false
  delimiter : Bool := false
  deriving DecidableEq, Repr

/-- Where a list of commands stands. -/
inductive ListKind where
  /-- One complete command of a script, up to the end of its line. -/
  | line
  /-- Commands inside another one; there is at least one. -/
  | block
  /-- Commands inside another one; there may be none. -/
  | branch
  deriving DecidableEq, Repr

/-- The readers of what stands inside: lists of commands and single commands. -/
structure Reader where
  list : ListKind → Reading (Option Command)
  command : Wanted → Reading Command

/-- Where a keyword is expected. -/
def Wanted.keyword : Wanted := ⟨true, false, false⟩

/-- Where a keyword is expected, after any number of line ends. -/
def Wanted.nextKeyword : Wanted := ⟨true, true, false⟩

/-- The words that are keywords where a command can start. -/
def keywords : List String :=
  ["!", "case", "do", "done", "elif", "else", "esac", "fi", "for", "if", "in", "then", "until",
    "while", "\x7b", "\x7d"]

/-- The keyword that a word is. -/
def keyword? (word : Word) : Option String :=
  (plainText? word).bind fun text => keywords.find? fun k => k.toList == text

namespace Reader

/-- The commands inside another one, of which there may be none. -/
def commands (inner : Reader) (kind : ListKind) : Reading Command := do
  return (← inner.list kind).getD .nothing

/-- Accepts the parenthesis that closes a substitution; it is the last token. -/
def closing : Reading Command := do
  if (← get).token.isMark ")" then return .nothing
  refuseTokenFor (.mark ")")

/-- Reads parts up to the end of their setting. -/
def parts (inner : Reader) (setting : Setting) : Reading (List Part) := do
  readParts (inner.commands .branch) closing (← get).limit setting []

/-! ### Documents -/

/-- The lines up to a delimiter and what follows it; lines read so far come last first. -/
def documentLines (awaited : AwaitedDocument) :
    Nat → List Octets → Octets → Nat → List Octets × Octets × Nat
  | 0, seen, rest, line => (seen.reverse, rest, line)
  | _, seen, [], line => (seen.reverse, [], line)
  | n + 1, seen, rest, line =>
    let text := rest.takeWhile (· != '\n')
    let after := rest.drop text.length
    let kept := if awaited.dropsTabs then text.dropWhile (· == '\t') else text
    if kept = awaited.delimiter then (seen.reverse, after.drop 1, line + 1)
    else documentLines awaited n ((kept ++ after.take 1) :: seen) (after.drop 1) (line + 1)

/-- Reads a document that was asked for. -/
def readDocument (inner : Reader) (awaited : AwaitedDocument) : Reading Unit := do
  let s ← get
  let (found, rest, line) := documentLines awaited s.limit [] s.rest s.line
  let text := found.flatten
  if awaited.verbatim then
    set { s with
      rest, line, documents := (awaited.number, [.quoted (text.map Part.char)]) :: s.documents }
  else
    set { s with rest := text }
    let body ← inner.parts .document
    modify fun after => { after with
      rest, line, documents := (awaited.number, body) :: after.documents }

/-- Reads the documents that were asked for. -/
def readDocuments (inner : Reader) : Reading Unit := do
  let awaited := (← get).awaited
  modify fun s => { s with awaited := [] }
  awaited.forM inner.readDocument

/-! ### Tokens -/

/-- Passes over blanks and a comment. -/
def passBlanks : Nat → Reading Unit
  | 0 => return
  | n + 1 => do
    match ← peek with
    | some ' ' | some '\t' =>
      skip
      passBlanks n
    | some '#' => modify fun s => { s with rest := s.rest.dropWhile (· != '\n') }
    | _ => return

/-- What a redirection sign asks for; its first character has been read. -/
def readRedirection (sign : Char) : Reading RedirectionKind := do
  if sign = '>' then
    if ← skipIf '>' then return .file .append
    if ← skipIf '|' then return .file .write
    if ← skipIf '&' then return .duplicate true
    return .file .write
  if ← skipIf '<' then return .document (← skipIf '-')
  if ← skipIf '&' then return .duplicate false
  if ← skipIf '>' then return .file .readWrite
  return .file .read

/-- Reads a word, or a redirection whose channel it is. -/
def readWord (inner : Reader) (delimiter : Bool) : Reading Token := do
  let word ← inner.parts (.bare delimiter)
  let channel? : Option (Option Nat) := match word with
    | [] => some none
    | [.char c] => if c.isDigit then some (some (c.toNat - 48)) else none
    | _ => none
  match channel?, ← peek with
  | some channel?, some c =>
    if c = '<' || c = '>' then
      skip
      let kind ← readRedirection c
      return .redirection (channel?.getD (if c = '>' then 1 else 0)) kind
    return .word word
  | _, _ => return .word word

/-- Reads the next token from the characters. -/
def scanToken (inner : Reader) (delimiter : Bool) : Reading Token := do
  passBlanks (← get).limit
  match ← peek with
  | none => return .endOfFile
  | some '\n' =>
    skip
    inner.readDocuments
    return .newline
  | some '&' =>
    skip
    return .mark (if ← skipIf '&' then "&&" else "&")
  | some '|' =>
    skip
    return .mark (if ← skipIf '|' then "||" else "|")
  | some ';' =>
    skip
    return .mark (if ← skipIf ';' then ";;" else ";")
  | some '(' =>
    skip
    return .mark "("
  | some ')' =>
    skip
    return .mark ")"
  | some _ => inner.readWord delimiter

/-- The last token if it is to be read again, or else the next one. -/
def anyToken (inner : Reader) (delimiter : Bool) : Reading Token := do
  let s ← get
  if s.again then
    set { s with again := false }
    return s.token
  remember (← inner.scanToken delimiter)

/-- The next token, line ends passed over if that is wanted. -/
def tokenAcross (inner : Reader) (wanted : Wanted) : Nat → Reading Token
  | 0 => inner.anyToken wanted.delimiter
  | n + 1 => do
    match ← inner.anyToken wanted.delimiter with
    | .newline =>
      if wanted.acrossLines then inner.tokenAcross wanted n else return .newline
    | token => return token

/-- The next token. -/
def token (inner : Reader) (wanted : Wanted := {}) : Reading Token := do
  match ← inner.tokenAcross wanted (← get).limit with
  | .word word =>
    match if wanted.keywords then keyword? word else none with
    | some text => remember (.keyword text)
    | none => return .word word
  | token => return token

/-- Accepts a token that has to be a given keyword. -/
def expectKeyword (inner : Reader) (text : String) (wanted : Wanted := {}) : Reading Unit := do
  unless (← inner.token wanted).isKeyword text do
    refuseTokenFor (.keyword text)

/-! ### Redirections -/

/-- The characters of a word, taken out of their quotes. -/
def bareText (word : Word) : Octets :=
  word.flatMap fun
    | .char c => [c]
    | .quoted inside => inside.filterMap fun
      | .char c => some c
      | _ => none
    | _ => []

/-- Reads what a redirection leads to. -/
def readTarget (inner : Reader) (channel : Nat) (kind : RedirectionKind) :
    Reading Redirection := do
  let delimiter := kind matches .document _
  match ← inner.token { delimiter } with
  | .word word =>
    match kind with
    | .file opening => return .file channel opening word
    | .duplicate writing => return .duplicate channel writing word
    | .document dropsTabs =>
      let s ← get
      let verbatim := (plainText? word).isNone
      set { s with
        awaited := s.awaited ++ [AwaitedDocument.mk s.next (bareText word) dropsTabs verbatim]
        next := s.next + 1 }
      return .document channel s.next
  | _ => refuseToken

/-- Reads the redirections after a command that is not simple; those read come last first. -/
def readRedirections (inner : Reader) : Nat → List Redirection → Reading (List Redirection)
  | 0, read => return read.reverse
  | n + 1, read => do
    match ← inner.token .keyword with
    | .redirection channel kind =>
      let target ← inner.readTarget channel kind
      inner.readRedirections n (target :: read)
    | _ =>
      readAgain
      return read.reverse

/-! ### Simple commands -/

/-- A simple command under way; everything comes last first. -/
structure SimpleState where
  assignments : List (Octets × Word) := []
  words : List Word := []
  redirections : List Redirection := []

/-- The commands that no function can be named after. -/
def specialNames : List String :=
  [".", ":", "break", "continue", "eval", "exec", "exit", "export", "local", "readonly", "return",
    "set", "shift", "times", "trap", "unset"]

/-- Reads the definition of a function, whose opening parenthesis has been read. -/
def readFunction (inner : Reader) (word : Word) : Reading Command := do
  unless (← inner.token).isMark ")" do
    refuseTokenFor (.mark ")")
  match plainText? word with
  | none => refuse "Bad function name"
  | some name =>
    if !isName name || specialNames.any fun s => s.toList == name then refuse "Bad function name"
    let line := (← get).line
    return .function line name (← inner.command .nextKeyword)

/-- Reads a simple command. -/
def readSimple (inner : Reader) (line : Nat) : Nat → SimpleState → Reading Command
  | 0, _ => refuse "Out of space"
  | n + 1, st => do
    let finish := do
      readAgain
      return Command.simple line st.assignments.reverse st.words.reverse st.redirections.reverse
    match ← inner.token with
    | .word word =>
      match if st.words.isEmpty then assignment? word else none with
      | some assignment =>
        inner.readSimple line n { st with assignments := assignment :: st.assignments }
      | none => inner.readSimple line n { st with words := word :: st.words }
    | .redirection channel kind =>
      let target ← inner.readTarget channel kind
      inner.readSimple line n { st with redirections := target :: st.redirections }
    | .mark "(" =>
      match st with
      | ⟨[], [word], []⟩ => inner.readFunction word
      | _ => finish
    | _ => finish

/-! ### Compound commands -/

/-- Reads what follows the test of a conditional command, up to its end. -/
def readConditional (inner : Reader) : Nat → Command → Reading Command
  | 0, _ => refuse "Out of space"
  | n + 1, test => do
    inner.expectKeyword "then"
    let body ← inner.commands .block
    match ← inner.token with
    | .keyword "elif" =>
      let next ← inner.commands .block
      return .conditional test body (some (← inner.readConditional n next))
    | .keyword "else" => return .conditional test body (some (← inner.commands .block))
    | _ =>
      readAgain
      return .conditional test body none

/-- Reads words up to another token; those read come last first. -/
def readWords (inner : Reader) : Nat → List Word → Reading (List Word)
  | 0, words => return words.reverse
  | n + 1, words => do
    match ← inner.token with
    | .word word => inner.readWords n (word :: words)
    | _ => return words.reverse

/-- Reads a loop over words, whose first keyword has been read. -/
def readForEach (inner : Reader) (line : Nat) : Reading Command := do
  let limit := (← get).limit
  let name : Octets ← match ← inner.token with
    | .word word =>
      match plainText? word with
      | some name => if isName name then pure name else refuse "Bad for loop variable"
      | none => refuse "Bad for loop variable"
    | _ => refuse "Bad for loop variable"
  let words ← match ← inner.token .nextKeyword with
    | .keyword "in" => do
      let words ← inner.readWords limit []
      match (← get).token with
      | .newline | .mark ";" => pure words
      | _ => refuseToken
    | .mark ";" => pure [[.quoted [.parameter ['@'] .value]]]
    | _ =>
      readAgain
      pure [[.quoted [.parameter ['@'] .value]]]
  inner.expectKeyword "do" .nextKeyword
  return .forEach line name words (← inner.commands .block)

/-- The word that a token is as a pattern. -/
def patternOf : Token → Word
  | .word word => word
  | .keyword text => text.toList.map Part.char
  | _ => []

/-- Reads the patterns of a branch, the first of which is the last token; those read come last
first. -/
def readPatterns (inner : Reader) : Nat → List Word → Reading (List Word)
  | 0, read => return read.reverse
  | n + 1, read => do
    let pattern := patternOf (← get).token
    match ← inner.token with
    | .mark "|" =>
      discard inner.token
      inner.readPatterns n (pattern :: read)
    | .mark ")" => return (pattern :: read).reverse
    | _ => refuseTokenFor (.mark ")")

/-- Reads the branches of a selection, the first token of which is the last token; those read come
last first. -/
def readBranches (inner : Reader) :
    Nat → List (List Word × Command) → Reading (List (List Word × Command))
  | 0, read => return read.reverse
  | n + 1, read => do
    match (← get).token with
    | .keyword "esac" => return read.reverse
    | first =>
      if first.isMark "(" then discard inner.token
      let patterns ← inner.readPatterns n []
      let body ← inner.commands .branch
      let read := (patterns, body) :: read
      match ← inner.token .nextKeyword with
      | .keyword "esac" => return read.reverse
      | .mark ";;" =>
        discard (inner.token .nextKeyword)
        inner.readBranches n read
      | _ => refuseTokenFor (.mark ";;")

/-- Reads a selection, whose first keyword has been read. -/
def readSelection (inner : Reader) (line : Nat) : Reading Command := do
  match ← inner.token with
  | .word word =>
    inner.expectKeyword "in" .nextKeyword
    discard (inner.token .nextKeyword)
    return .select line word (← inner.readBranches (← get).limit [])
  | _ => refuseTokenFor (.word [])

/-- Adds the redirections that follow a command. -/
def withRedirections (inner : Reader) (line : Nat) (command : Command) : Reading Command := do
  let redirections ← inner.readRedirections (← get).limit []
  match command with
  | .subshell line body _ => return .subshell line body redirections
  | _ => return if redirections.isEmpty then command else .redirected line command redirections

/-- Reads one command. -/
def readCommand (inner : Reader) (wanted : Wanted) : Reading Command := do
  let line := (← get).line
  match ← inner.token wanted with
  | .keyword "if" =>
    let test ← inner.commands .block
    let command ← inner.readConditional (← get).limit test
    inner.expectKeyword "fi"
    inner.withRedirections line command
  | .keyword "while" => readLoop line false
  | .keyword "until" => readLoop line true
  | .keyword "for" =>
    let command ← inner.readForEach line
    inner.expectKeyword "done"
    inner.withRedirections line command
  | .keyword "case" => inner.withRedirections line (← inner.readSelection line)
  | .keyword "\x7b" =>
    let command ← inner.commands .block
    inner.expectKeyword "\x7d"
    inner.withRedirections line command
  | .mark "(" =>
    let command ← inner.commands .block
    unless (← inner.token).isMark ")" do
      refuseTokenFor (.mark ")")
    inner.withRedirections line (.subshell line command [])
  | .word _ | .redirection _ _ =>
    readAgain
    let s ← get
    inner.readSimple s.line s.limit {}
  | _ => refuseToken
where
  /-- Reads a loop, whose first keyword has been read. -/
  readLoop (line : Nat) (untilTrue : Bool) : Reading Command := do
    let test ← inner.commands .block
    inner.expectKeyword "do"
    let body ← inner.commands .block
    inner.expectKeyword "done"
    inner.withRedirections line (.loop untilTrue test body)

/-! ### Lists of commands -/

/-- Reads the commands after the first one of a pipeline; those read come last first. -/
def readPipes (inner : Reader) : Nat → List Command → Reading (List Command)
  | 0, read => return read.reverse
  | n + 1, read => do
    if (← inner.token).isMark "|" then
      let command ← inner.readCommand .nextKeyword
      inner.readPipes n (command :: read)
    else
      readAgain
      return read.reverse

/-- Reads a pipeline. -/
def readPipeline (inner : Reader) (wanted : Wanted) : Reading Command := do
  let negated := (← inner.token wanted).isKeyword "!"
  unless negated do readAgain
  let first ← inner.readCommand (if negated then .keyword else {})
  let rest ← inner.readPipes (← get).limit []
  let pipeline := if rest.isEmpty then first else .pipeline (first :: rest)
  return if negated then .negated pipeline else pipeline

/-- Reads the pipelines after the first one of a chain; those read come last first. -/
def readLinks (inner : Reader) : Nat → List (Bool × Command) → Reading (List (Bool × Command))
  | 0, read => return read.reverse
  | n + 1, read => do
    match ← inner.token with
    | .mark "&&" =>
      let command ← inner.readPipeline .nextKeyword
      inner.readLinks n ((true, command) :: read)
    | .mark "||" =>
      let command ← inner.readPipeline .nextKeyword
      inner.readLinks n ((false, command) :: read)
    | _ =>
      readAgain
      return read.reverse

/-- Reads pipelines that wait for one another. -/
def readChain (inner : Reader) : Reading Command := do
  let first ← inner.readPipeline {}
  let rest ← inner.readLinks (← get).limit []
  return if rest.isEmpty then first else .chain first rest

/-- The command that runs commands in order, given last first. -/
def inOrder : List Command → Command
  | [command] => command
  | commands => .sequence commands.reverse

/-- Reads a list of commands; those read come last first.  There is none at the end of a script. -/
def readList (inner : Reader) (kind : ListKind) : Nat → List Command → Reading (Option Command)
  | 0, _ => refuse "Out of space"
  | n + 1, read => do
    match ← inner.token ⟨true, kind != .line, false⟩ with
    | .newline => return some (inOrder read)
    | .endOfFile =>
      readAgain
      return if read.isEmpty && kind = .line then none else some (inOrder read)
    | first =>
      readAgain
      if kind != .line && (kind = .branch || !read.isEmpty) && first.endsCommands then
        return some (inOrder read)
      let command ← inner.readChain
      match ← inner.token with
      | .endOfFile =>
        readAgain
        return some (inOrder (command :: read))
      | .mark "&" => inner.readList kind n (.background command :: read)
      | .mark ";" => inner.readList kind n (command :: read)
      | .newline =>
        readAgain
        inner.readList kind n (command :: read)
      | _ =>
        if kind = .line then refuseToken
        readAgain
        return some (inOrder (command :: read))

/-- The reader around a given one. -/
def around (inner : Reader) : Reader where
  list kind := do inner.readList kind (← get).limit []
  command wanted := inner.readCommand wanted

/-- The reader of a given depth. -/
def ofDepth : Nat → Reader
  | 0 => ⟨fun _ => refuse "Out of space", fun _ => refuse "Out of space"⟩
  | n + 1 => ⟨fun kind => (ofDepth n).around.list kind,
      fun wanted => (ofDepth n).around.command wanted⟩

end Reader

/-- Reads the next complete command of a script; there is none at its end. -/
def nextCommand : Reading (Option Command) := do
  modify fun s => { s with again := false, awaited := [] }
  (Reader.ofDepth (← get).limit).list .line

end SchemaTypings.Shell
