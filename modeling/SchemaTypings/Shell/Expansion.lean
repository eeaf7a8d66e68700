import SchemaTypings.Shell.Arithmetic
import SchemaTypings.Shell.Engine

/-!
# Expansion of words

A word is expanded in three steps: parameters and substitutions are replaced by what they stand
for, what came from outside of quotes is split into fields, and fields with wildcards are replaced
by the names of the files that they match.

This belongs to the outer layer, which only runs programs; no result depends on it.
-/

namespace SchemaTypings.Shell

open SchemaTypings.Run SchemaTypings.Text SchemaTypings.Tools

/-! ### Parameters -/

/-- The value of a parameter that is not the list of all arguments. -/
def parameterValue? (name : Octets) : Script (Option Octets) := do
  let s ← getShell
  match name with
  | ['#'] => return some (decimal s.arguments.length)
  | ['?'] => return some (decimal s.status)
  | ['-'] => return some s.options
  | ['$'] => return some (decimal s.number)
  | ['!'] => return s.background.map decimal
  | _ =>
    if name.all isDigit then
      match digitsValue name with
      | 0 => return some s.name
      | n + 1 => return s.arguments[n]?
    else valueOf? name

/-- Whether a parameter is the list of all arguments. -/
def isArguments (name : Octets) : Bool := name = ['@'] || name = ['*']

/-- Pieces with the characters of a text. -/
def piecesOf (quoted splits : Bool) (text : Octets) : List Piece :=
  text.map fun c => .char c quoted splits

/-- The pieces of all arguments. -/
def argumentPieces (quoted joined : Bool) : Script (List Piece) := do
  let arguments := (← getShell).arguments
  if quoted && joined then
    let separator := (← separators).take 1
    return piecesOf true false (separator.intercalate arguments)
  else
    let start := if quoted then [Piece.quotes] else []
    return [Piece.cut].intercalate (arguments.map fun a => start ++ piecesOf quoted (!quoted) a)

/-- The pieces of a value. -/
def valuePieces (name : Octets) (quoted : Bool) : Script (List Piece) := do
  if isArguments name then argumentPieces quoted (name = ['*'])
  else
    match ← parameterValue? name with
    | some value => return piecesOf quoted (!quoted) value
    | none =>
      if (← hasOption 'u') && name != ['!'] then fault (name ++ wording ": parameter not set")
      return []

/-- Pieces in which what stood without quotes in a script is split like a value. -/
def splitting (quoted : Bool) (pieces : List Piece) : List Piece :=
  if quoted then pieces
  else pieces.map fun
    | .char c false _ => .char c false true
    | piece => piece

/-- The text of pieces that are not split. -/
def textOf (pieces : List Piece) : Octets :=
  pieces.filterMap fun
    | .char c _ _ => some c
    | .quotes => none
    | .cut => some ' '

/-- The characters of pieces, each marked by whether it was quoted. -/
def markedText (pieces : List Piece) : List Marked :=
  pieces.filterMap fun
    | .char c quoted _ => some (c, quoted)
    | .quotes => none
    | .cut => some (' ', false)

/-- The text of a word in which nothing is split. -/
def expandText (engine : Engine) (word : Word) : Script Octets :=
  return textOf (← engine.expand false word)

/-- The text that stands for a parameter that is looked at as a whole, if it is set. -/
def wholeValue? (name : Octets) : Script (Option Octets) := do
  if isArguments name then
    let arguments := (← getShell).arguments
    return if arguments.isEmpty then none else some ([' '].intercalate arguments)
  else parameterValue? name

/-- The pieces that a parameter stands for in a given form. -/
def expandParameter (engine : Engine) (quoted : Bool) (name : Octets) :
    Form → Script (List Piece)
  | .value => valuePieces name quoted
  | .unknown => fault (wording "Bad substitution")
  | .length => do
    if isArguments name then
      return piecesOf quoted (!quoted) (decimal (← getShell).arguments.length)
    match ← parameterValue? name with
    | some value => return piecesOf quoted (!quoted) (decimal value.length)
    | none =>
      if ← hasOption 'u' then fault (name ++ wording ": parameter not set")
      return piecesOf quoted (!quoted) ['0']
  | .fallback kind nullToo word => do
    let value? ← wholeValue? name
    let isSet := match value? with
      | none => false
      | some value => !(nullToo && value.isEmpty)
    match kind, isSet with
    | .instead, true => return splitting quoted (← engine.expand quoted word)
    | .instead, false => return []
    | _, true => valuePieces name quoted
    | .use, false => return splitting quoted (← engine.expand quoted word)
    | .assign, false =>
      let text := textOf (← engine.expand quoted word)
      unless isName name do fault (name ++ wording ": bad variable name")
      assign name text
      return piecesOf quoted (!quoted) text
    | .refuse, false =>
      let message := textOf (← engine.expand quoted word)
      if word.isEmpty then
        fault (name ++ wording (": parameter not set" ++ if nullToo then " or null" else ""))
      else fault (name ++ wording ": " ++ message)
  | .trim atEnd longest pattern => do
    match ← wholeValue? name with
    | none =>
      if ← hasOption 'u' then fault (name ++ wording ": parameter not set")
      return []
    | some value =>
      let items := itemsOf (markedText (← engine.expand false pattern))
      let rest := if atEnd then trimEnd items longest value else trimStart items longest value
      return piecesOf quoted (!quoted) rest

/-! ### Parts -/

/-- A text without the line ends at its end. -/
def withoutLineEnds (text : Octets) : Octets := (text.reverse.dropWhile (· == '\n')).reverse

/-- What a substitution stands for: the output of its commands, without zero bytes. -/
def substituted (engine : Engine) (body : List Command) : Script Octets := do
  let (ending, output) ← engine.capture do
    setStatus 0
    body.forM (engine.run false)
  modifyShell fun s => { s with status := endingStatus ending, substituted := endingStatus ending }
  return withoutLineEnds (output.filter fun c => c.toNat != 0)

/-- Whether parts are nothing but the list of all arguments. -/
def areArguments : List Part → Bool
  | [.parameter ['@'] _] => true
  | _ => false

/-- The pieces of one part. -/
def expandPart (engine : Engine) (quoted : Bool) : Part → Script (List Piece)
  | .char c => return [.char c quoted false]
  | .quoted parts => do
    let pieces ← engine.expand true parts
    return if areArguments parts then pieces else .quotes :: pieces
  | .parameter name form => expandParameter engine quoted name form
  | .output body => return piecesOf quoted (!quoted) (← substituted engine body)
  | .arithmetic expression => do
    let text := textOf (← engine.expand true expression)
    return piecesOf quoted (!quoted) (integerText (← arithmetic text))

/-- The pieces of parts; those found so far come last first. -/
def expandParts (engine : Engine) (quoted : Bool) (found : List Piece) :
    List Part → Script (List Piece)
  | [] => return found.reverse
  | .char c :: rest => expandParts engine quoted (.char c quoted false :: found) rest
  | part :: rest => do
    let pieces ← expandPart engine quoted part
    expandParts engine quoted (pieces.reverse ++ found) rest

/-- Replaces a tilde at the start of a word by the directory of the user. -/
def expandTilde (word : Word) : Script Word := do
  match word with
  | .char '~' :: rest =>
    let ends := match rest with
      | [] => true
      | .char c :: _ => c == '/' || c == ':'
      | _ => false
    match ends, ← valueOf? (wording "HOME") with
    | true, some home => return .quoted (home.map Part.char) :: rest
    | _, _ => return word
  | _ => return word

/-! ### Fields -/

/-- What splitting is at: between fields, inside one, or after a separator that may be followed by
more of it. -/
inductive Passing where
  | nothing
  | blanks
  | blanksAndOne
  deriving DecidableEq, Repr

/-- A field under way: its pieces, last first. -/
structure FieldState where
  current : List Piece := []
  fields : List (List Piece) := []
  passing : Passing := .nothing

/-- The state after the current field has ended. -/
def FieldState.close (st : FieldState) (passing : Passing) : FieldState :=
  ⟨[], st.current.reverse :: st.fields, passing⟩

/-- The state after one more piece. -/
def FieldState.step (separators : Octets) (st : FieldState) (piece : Piece) : FieldState :=
  match piece with
  | .cut => if st.current.isEmpty then st else st.close .nothing
  | .char c _ true =>
    if separators.contains c then
      let isBlank := c == ' ' || c == '\t' || c == '\n'
      match st.passing, isBlank with
      | .nothing, true => if st.current.isEmpty then st else st.close .blanksAndOne
      | .nothing, false => st.close .blanks
      | _, true => st
      | .blanksAndOne, false => { st with passing := .blanks }
      | .blanks, false => st.close .blanks
    else { st with current := piece :: st.current, passing := .nothing }
  | _ => { st with current := piece :: st.current, passing := .nothing }

/-- The fields that pieces are split into. -/
def fieldsOf (separators : Octets) (pieces : List Piece) : List (List Piece) :=
  let st := pieces.foldl (FieldState.step separators) {}
  (if st.current.isEmpty then st.fields else st.current.reverse :: st.fields).reverse

/-! ### Names of files -/

/-- A text cut at slashes. -/
def segments (text : List Marked) : List (List Marked) :=
  text.foldr (fun m found =>
    if m.1 = '/' then [] :: found
    else match found with
      | [] => [[m]]
      | first :: rest => (m :: first) :: rest) [[]]

/-- Whether a pattern that starts in a given way may match a name. -/
def mayStart (pattern : List Marked) (name : Octets) : Bool :=
  name.head? != some '.' || (pattern.head?.map Prod.fst) == some '.'

/-- The paths below a start that segments match; the start ends with a slash or is empty. -/
def matchingPaths (fs : FileSystem) (start : Octets) : List (List Marked) → List Octets
  | [] => [start]
  | segment :: rest =>
    let text := segment.map Prod.fst
    let continued := fun (name : Octets) =>
      match rest with
      | [] => [start ++ name]
      | _ :: _ =>
        let path := start ++ name ++ ['/']
        if name.isEmpty || fs.isDirectory (Octets.text path) then matchingPaths fs path rest else []
    if hasWildcard segment then
      let place? := if start.isEmpty then some fs.current else fs.locate? (Octets.text start)
      let names := (place?.map fs.namesIn).getD []
      let items := itemsOf segment
      (names.map Octets.ofText).flatMap fun name =>
        if mayStart segment name && matchesAll items name then continued name else []
    else
      match rest with
      | [] =>
        let path := start ++ text
        if text.isEmpty || fs.isDirectory (Octets.text path) ||
            (fs.read (Octets.text path)).toOption.isSome then
          [path]
        else []
      | _ :: _ => continued text

/-- The names of the files that a field matches, or its text if there are none. -/
def expandField (field : List Piece) : Script (List Octets) := do
  let marked := markedText field
  let text := marked.map Prod.fst
  if !hasWildcard marked || (← hasOption 'f') then return [text]
  let found := matchingPaths (← get).files [] (segments marked)
  if found.isEmpty then return [text]
  return found.mergeSort fun a b => !(b < a)

/-- The texts that a word stands for: none, one or several. -/
def expandWord (engine : Engine) (word : Word) : Script (List Octets) := do
  let pieces ← engine.expand false (← expandTilde word)
  let fields := fieldsOf (← separators) pieces
  return (← fields.mapM expandField).flatten

/-- The text that a word stands for where nothing is split. -/
def expandWhole (engine : Engine) (word : Word) : Script Octets := do
  expandText engine (← expandTilde word)

end SchemaTypings.Shell
