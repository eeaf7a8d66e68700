import SchemaTypings.Tools.Flags
import SchemaTypings.Tools.Sed.Reading

/-!
# The stream editor

`sed` runs a script once for every line of its input.  A line is held in the pattern space without
its line end; what a command appends is written when the line is done.  A line without line end at
the end of the input is written without one, unless something follows it.

This belongs to the outer layer, which only runs programs; no result depends on it.
-/

namespace SchemaTypings.Tools.Sed

open SchemaTypings.Run SchemaTypings.Text

/-! ### State -/

/-- A space of the editor: its text, and whether the line it came from had a line end. -/
structure Space where
  text : Octets := []
  ended : Bool := true

/-- Where the range of a command stands; an active one may end at a line that is known. -/
inductive RangeState where
  | inactive
  | active (stop : Option Nat)
  deriving DecidableEq, Repr

/-- What is written when a line is done. -/
inductive Queued where
  | text (octets : Octets)
  | file (path : Octets)

/-- How an editor is to work. -/
structure Setting where
  script : Script
  quiet : Bool
  /-- Whether every file is edited by itself. -/
  separate : Bool
  /-- Whether what is written for a file takes the place of the file. -/
  inPlace : Bool
  width : Nat

/-- An editor at work. -/
structure Editor where
  pattern : Space := {}
  held : Space := {}
  /-- The lines that are left of the present source. -/
  lines : List Octets := []
  sources : List Octets
  source : Octets := ['-']
  /-- The size of the input, once it has been opened. -/
  inputSize : Nat := 0
  lineNumber : Nat := 0
  /-- What was written, last first, and whether a line end is missing after it. -/
  output : List Octets := []
  lacksEnd : Bool := false
  /-- Whether a line end is missing after what was written to the output by name. -/
  lacksNamedEnd : Bool := false
  queue : List Queued := []
  replaced : Bool := false
  ranges : Array RangeState
  sought : Option Pattern := none
  /-- The lines that are left of files that are read line by line. -/
  readers : List (Octets × List Octets) := []
  place : Nat := 0
  status : Nat := 0

/-- A step of an editor. -/
abbrev Editing := StateT Editor Work

/-- What happens after a command. -/
inductive Flow where
  | next
  | jump (place : Nat)
  /-- The line is done, and printed or not. -/
  | done (prints : Bool)
  /-- The script starts again with what the pattern space holds. -/
  | again
  | quit (status : Nat) (prints : Bool)
  /-- There is no expression that was looked for. -/
  | nothingSought

/-! ### Writing -/

/-- Writes octets after the line end that may be missing. -/
def put (octets : Octets) : Editing Unit :=
  modify fun e =>
    let before := if e.lacksEnd then ['\n'] :: e.output else e.output
    { e with output := octets :: before, lacksEnd := false }

/-- Writes a text as a line. -/
def putSpace (space : Space) : Editing Unit := do
  put (if space.ended then space.text ++ ['\n'] else space.text)
  modify fun e => { e with lacksEnd := !space.ended }

/-- Adds octets to a file. -/
def addToFile (path octets : Octets) : Editing Unit := do
  let content : Work Octets := do
    match ← Tools.readFile path with
    | .ok octets => return octets
    | .error _ => return []
  let before ← (content : Work Octets)
  discard (Tools.writeFile path (before ++ octets) : Work _)

/-- Writes a space to a file; two names stand for the output and the stream of errors. -/
def writeSpace (path : Octets) (space : Space) : Editing Unit := do
  if path = "/dev/stdout".toList then
    modify fun e =>
      let before := if e.lacksNamedEnd then ['\n'] :: e.output else e.output
      let written := if space.ended then space.text ++ ['\n'] else space.text
      { e with output := written :: before, lacksNamedEnd := !space.ended }
  else if path = "/dev/stderr".toList then (complain (space.text ++ ['\n']) : Work Unit)
  else addToFile path (space.text ++ if space.ended then ['\n'] else [])

/-- Writes what waits for the end of the line. -/
def flushQueue : Editing Unit := do
  let e ← get
  set { e with queue := [] }
  for item in e.queue do
    put []
    match item with
    | .text octets => put octets
    | .file path =>
      match ← (Tools.readFile path : Work _) with
      | .ok octets => put octets
      | .error _ => pure ()

/-- Puts what was written in the place of the file that is edited. -/
def finishSource (setting : Setting) : Editing Unit := do
  if setting.inPlace then
    let e ← get
    discard (Tools.writeFile e.source e.output.reverse.flatten : Work _)
    set { e with output := [], lacksEnd := false }

/-! ### Lines -/

/-- Opens a source: its lines, or a complaint. -/
def openSource (setting : Setting) (name : Octets) : Editing (Option (List Octets)) := do
  if name = ['-'] && !setting.inPlace then
    let octets ← (takeInput : Work _)
    modify fun e => { e with inputSize := octets.length }
    return some (Tools.lines octets)
  match ← (Tools.readFile name : Work _) with
  | .ok octets => return some (Tools.lines octets)
  | .error .isADirectory =>
    let problem :=
      if setting.inPlace then
        wording "sed: couldn't edit " ++ name ++ wording ": not a regular file\n"
      else wording "sed: read error on " ++ name ++ wording ": Is a directory\n"
    (complain problem : Work _)
    modify fun e => { e with status := 4 }
    return none
  | .error problem =>
    (complain (wording "sed: can't read " ++ name ++ wording (": " ++ problem.message ++ "\n")) :
      Work _)
    modify fun e => { e with status := 2 }
    return none

/-- Goes on to the next source with lines, if the present one has none left. -/
def advance (setting : Setting) : List Octets → Editing Unit
  | [] => return
  | name :: rest => do
    if (← get).lines.isEmpty then
      modify fun e => { e with sources := rest }
      match ← openSource setting name with
      | none => return ← advance setting rest
      | some lines =>
        if setting.separate then
          if (← get).lineNumber > 0 then finishSource setting
          modify fun e => { e with lineNumber := 0 }
        modify fun e => { e with source := name, lines }
        advance setting rest
    else return

/-- Takes the next line. -/
def takeLine (setting : Setting) : Editing (Option Space) := do
  advance setting (← get).sources
  let e ← get
  match e.lines with
  | [] => return none
  | line :: rest =>
    set { e with lines := rest, lineNumber := e.lineNumber + 1, replaced := false }
    return some ⟨chomp line, line.getLast? == some '\n'⟩

/-- Whether there are octets in one of the sources. -/
def anyFilled : List Octets → Editing Bool
  | [] => return false
  | name :: rest => do
    let filled ←
      if name = ['-'] then pure !(← (getThe Session : Work _)).input.isEmpty
      else match ← (Tools.readFile name : Work _) with
        | .ok octets => pure !octets.isEmpty
        | .error _ => pure false
    if filled then return true else anyFilled rest

/-- Whether no line follows the present one. -/
def isLast (setting : Setting) : Editing Bool := do
  let e ← get
  if !e.lines.isEmpty then return false
  else if setting.separate then return true
  else return !(← anyFilled e.sources)

/-! ### Selecting -/

/-- The pattern that an expression means; it is then the one looked for last. -/
def resolve (pattern : Option Pattern) : Editing (Option Pattern) := do
  match pattern with
  | some p =>
    modify fun e => { e with sought := some p }
    return some p
  | none => return (← get).sought

/-- Whether the pattern space matches; without any expression to look for there is no answer. -/
def found (pattern : Option Pattern) : Editing (Option Bool) := do
  match ← resolve pattern with
  | none => return none
  | some p => return some (p.regex.matchesIn (← get).pattern.text)

/-- Whether an address selects the present line. -/
def isAt (setting : Setting) : Address → Editing (Option Bool)
  | .line n => return some ((← get).lineNumber == n)
  | .every first step => do
    let n := (← get).lineNumber
    return some (n ≥ first && (n - first) % step == 0)
  | .last => return some (← isLast setting)
  | .found pattern => found pattern

/-- Sets the state of the range of a command. -/
def setRange (i : Nat) (state : RangeState) : Editing Unit :=
  modify fun e => { e with ranges := e.ranges.set! i state }

/-- Begins a range at the present line. -/
def beginRange (i : Nat) (stop : RangeEnd) : Editing Unit := do
  let n := (← get).lineNumber
  let upTo := fun last : Nat => if last > n then setRange i (.active (some last)) else pure ()
  match stop with
  | .line last => upTo last
  | .after count => upTo (n + count)
  | .multiple m => upTo (if m = 0 then n else n + m - n % m)
  | .last => setRange i (.active none)
  | .found _ => setRange i (.active none)

/-- Whether a range that has begun holds the present line; it may end there. -/
def inRange (setting : Setting) (i : Nat) (stop : RangeEnd) (known : Option Nat) :
    Editing (Option Bool) := do
  match known with
  | some last =>
    let n := (← get).lineNumber
    if n ≥ last then setRange i .inactive
    return some (n ≤ last)
  | none =>
    match stop with
    | .found pattern =>
      match ← found pattern with
      | none => return none
      | some ends =>
        if ends then setRange i .inactive
        return some true
    | _ =>
      if ← isLast setting then setRange i .inactive
      return some true

/-- Whether a command is for the present line, its negation aside. -/
def selects (setting : Setting) (i : Nat) (guard : Guard) : Editing (Option Bool) := do
  match guard.first with
  | none => return some true
  | some first =>
    match guard.last with
    | none => isAt setting first
    | some stop =>
      match ((← get).ranges[i]?).getD .inactive with
      | .active known => inRange setting i stop known
      | .inactive =>
        match ← isAt setting first with
        | some true =>
          beginRange i stop
          return some true
        | answer => return answer

/-! ### Substituting -/

/-- How the case of what follows in a replacement is changed. -/
structure CaseState where
  mode : CaseChange := .none
  once : CaseChange := .none

/-- An octet in the case that a change asks for. -/
def CaseChange.apply (change : CaseChange) (c : Char) : Char :=
  match change with
  | upper | upperOnce => raised c
  | lower | lowerOnce => lowered c
  | none => c

/-- The state after a change of case. -/
def CaseState.after (st : CaseState) (change : CaseChange) : CaseState :=
  match change with
  | .upper | .lower => { st with mode := change }
  | .upperOnce | .lowerOnce => { st with once := change }
  | .none => {}

/-- Octets in the case of a state, and the state after them. -/
def CaseState.write (st : CaseState) (octets : Octets) : Octets × CaseState :=
  match octets with
  | [] => ([], st)
  | c :: rest =>
    let first := if st.once = .none then st.mode.apply c else st.once.apply c
    (if st.mode = .none then first :: rest else first :: rest.map st.mode.apply,
      { st with once := .none })

/-- The octets of a group of a match. -/
def groupText (text : Octets) (start : Nat) (way : Way) (index : Nat) : Octets :=
  if index = 0 then (text.drop start).take (way.position - start)
  else
    match way.range? index with
    | some (a, b) => (text.drop a).take (b - a)
    | none => []

/-- What replaces a match. -/
def replacement (parts : List Part) (text : Octets) (start : Nat) (way : Way) : Octets :=
  (parts.foldl (fun (done : List Octets × CaseState) part =>
    match part with
    | .change change => (done.1, done.2.after change)
    | .text octets =>
      let (written, st) := done.2.write octets
      (written :: done.1, st)
    | .group index =>
      let (written, st) := done.2.write (groupText text start way index)
      (written :: done.1, st)) ([], {})).1.reverse.flatten

/-- The pieces, last first, of a text in which a substitution is made, and whether one was made:
from a place on, with the end of the last match and the number of matches so far. -/
def substituteFrom (s : Substitution) (regex : Regex) (text : Octets) :
    Nat → Way → Option Nat → Nat → List Octets → Bool → List Octets × Bool
  | 0, w, _, _, pieces, made => (w.rest :: pieces, made)
  | k + 1, w, lastEnd, count, pieces, made =>
    match regex.search text w with
    | none => (w.rest :: pieces, made)
    | some (start, way) =>
      let before := w.rest.take (start - w.position)
      let isEmpty := way.position == start
      let isAdjacent := isEmpty && lastEnd == some start
      let counted := if isAdjacent then count else count + 1
      let replaces := !isAdjacent && counted ≥ s.occurrence
      let piece :=
        if replaces then replacement s.parts text start way
        else (w.rest.drop (start - w.position)).take (way.position - start)
      let pieces := piece :: before :: pieces
      if replaces && !s.everywhere then (way.rest :: pieces, true)
      else if isEmpty then
        match way.next? with
        | none => (pieces, made || replaces)
        | some (c, next) =>
          substituteFrom s regex text k next (some way.position) counted ([c] :: pieces)
            (made || replaces)
      else
        substituteFrom s regex text k way (some way.position) counted pieces (made || replaces)

/-- Makes a substitution in the pattern space. -/
def substitute (s : Substitution) : Editing Flow := do
  match ← resolve s.pattern with
  | none => return .nothingSought
  | some p =>
    let e ← get
    let text := e.pattern.text
    let (pieces, made) :=
      substituteFrom s p.regex text (2 * text.length + 2) (.start text) none 0 [] false
    if made then
      let pattern := { e.pattern with text := pieces.reverse.flatten }
      set { e with pattern, replaced := true }
      if s.prints then putSpace pattern
      match s.file with
      | some path => writeSpace path pattern
      | none => pure ()
    return .next

/-! ### Listing -/

/-- An octet as it is listed. -/
def listed (c : Char) : Octets :=
  if c = '\\' then ['\\', '\\']
  else if isPrintable c then [c]
  else '\\' :: ((controlLetter? c).map fun letter => [letter]).getD (octal c)

/-- Octets as they are listed, broken into lines of a width. -/
def listing (width : Nat) (octets : Octets) : Octets :=
  let (lines, line) := octets.foldl (fun (done : List Octets × Octets) c =>
    let shown := listed c
    if width > 0 && done.2.length + shown.length > width - 1 then
      ((['\n', '\\'] ++ done.2) :: done.1, shown.reverse)
    else (done.1, shown.reverse ++ done.2)) ([], [])
  ((['\n', '$'] ++ line) :: lines).reverse.flatMap List.reverse

/-! ### Commands -/

/-- The first line of a space; one that is not followed by another has the end of the space. -/
def firstLine (space : Space) : Space :=
  ⟨space.text.takeWhile (· != '\n'), space.ended || space.text.contains '\n'⟩

/-- Adds to what waits for the end of the line. -/
def enqueue (item : Queued) : Editing Unit :=
  modify fun e => { e with queue := e.queue ++ [item] }

/-- Changes the pattern space. -/
def modifyPattern (f : Space → Space) : Editing Unit :=
  modify fun e => { e with pattern := f e.pattern }

/-- Takes the next line of a file that is read line by line. -/
def takeLineOf (path : Octets) : Editing (Option Octets) := do
  let e ← get
  let lines ← match e.readers.find? fun entry => entry.1 == path with
    | some entry => pure entry.2
    | none =>
      match ← (Tools.readFile path : Work _) with
      | .ok octets => pure (Tools.lines octets)
      | .error _ => pure []
  let others := e.readers.filter fun entry => entry.1 != path
  set { e with readers := (path, lines.drop 1) :: others }
  return lines.head?

/-- Does what a command asks for at its place. -/
def perform (setting : Setting) (i : Nat) (guard : Guard) (action : Action) : Editing Flow := do
  let e ← get
  let pattern := e.pattern
  match action with
  | .block _ => return .next
  | .nothing => return .next
  | .append text =>
    enqueue (.text text)
    return .next
  | .insert text =>
    put text
    return .next
  | .change text =>
    let isOpen := guard.last.isSome && ((e.ranges[i]?).getD .inactive) != .inactive
    if !isOpen || guard.negated then put text
    return .done false
  | .branch condition label =>
    let goes := match condition with
      | .always => true
      | .ifReplaced => e.replaced
      | .unlessReplaced => !e.replaced
    if condition ≠ .always then modify fun e => { e with replaced := false }
    return if goes then .jump (setting.script.target label) else .next
  | .delete => return .done false
  | .deleteFirstLine =>
    if pattern.text.contains '\n' then
      modifyPattern fun space =>
        { space with text := (space.text.dropWhile (· != '\n')).drop 1 }
      return .again
    else return .done false
  | .showName =>
    put (e.source ++ ['\n'])
    return .next
  | .showNumber =>
    put (decimal e.lineNumber ++ ['\n'])
    return .next
  | .fetch =>
    set { e with pattern := e.held }
    return .next
  | .fetchAppend =>
    set { e with pattern := ⟨pattern.text ++ '\n' :: e.held.text, e.held.ended⟩ }
    return .next
  | .hold =>
    set { e with held := pattern }
    return .next
  | .holdAppend =>
    set { e with held := ⟨e.held.text ++ '\n' :: pattern.text, pattern.ended⟩ }
    return .next
  | .exchange =>
    set { e with pattern := e.held, held := pattern }
    return .next
  | .list width =>
    put (listing (width.getD setting.width) pattern.text)
    return .next
  | .next =>
    if ← isLast setting then return .done true
    if !setting.quiet then putSpace pattern
    flushQueue
    match ← takeLine setting with
    | none => return .done false
    | some space =>
      modifyPattern fun _ => space
      return .next
  | .appendNext =>
    if ← isLast setting then return .done true
    flushQueue
    match ← takeLine setting with
    | none => return .done true
    | some space =>
      modifyPattern fun before => ⟨before.text ++ '\n' :: space.text, space.ended⟩
      return .next
  | .print =>
    putSpace pattern
    return .next
  | .printFirstLine =>
    putSpace (firstLine pattern)
    return .next
  | .quit status prints => return .quit status prints
  | .readFile path =>
    enqueue (.file path)
    return .next
  | .readLine path =>
    match ← takeLineOf path with
    | some line => enqueue (.text (chomp line ++ ['\n']))
    | none => pure ()
    return .next
  | .substitute s => substitute s
  | .replaceOctets pairs =>
    let change := fun c => ((pairs.find? fun pair => pair.1 == c).map Prod.snd).getD c
    modifyPattern fun space => { space with text := space.text.map change }
    return .next
  | .write path =>
    writeSpace path pattern
    return .next
  | .writeFirstLine path =>
    writeSpace path (firstLine pattern)
    return .next
  | .clear =>
    modifyPattern fun space => { space with text := [] }
    return .next

/-- What happens at a place of the script. -/
def stepAt (setting : Setting) (i : Nat) : Editing Flow := do
  match setting.script.commands[i]? with
  | none => return .done true
  | some command =>
    match ← selects setting i command.guard with
    | none => return .nothingSought
    | some selected =>
      if selected != command.guard.negated then perform setting i command.guard command.action
      else
        match command.action with
        | .block stop => return .jump stop
        | _ => return .next

/-- Ends the work on a line. -/
def endLine (setting : Setting) (prints : Bool) : Editing Unit := do
  if prints && !setting.quiet then putSpace (← get).pattern
  flushQueue

/-- Begins the work on the next line; without one the work is over. -/
def beginLine (setting : Setting) : Editing Bool := do
  match ← takeLine setting with
  | none => return false
  | some space =>
    modify fun e => { e with pattern := space, place := 0 }
    return true

/-- One step of the work; whether more is to be done. -/
def step (setting : Setting) : Editing Bool := do
  let i := (← get).place
  match ← stepAt setting i with
  | .next =>
    modify fun e => { e with place := i + 1 }
    return true
  | .jump place =>
    modify fun e => { e with place }
    return true
  | .done prints =>
    endLine setting prints
    beginLine setting
  | .again =>
    endLine setting false
    modify fun e => { e with place := 0 }
    return true
  | .quit status prints =>
    if prints then
      if !setting.quiet then putSpace (← get).pattern
      put []
      flushQueue
    modify fun e => { e with status }
    return false
  | .nothingSought =>
    (complain (wording "sed: -e expression #1, char 0: no previous regular expression\n") : Work _)
    modify fun e => { e with status := 1, output := [] }
    return false

/-- Works step by step; the number bounds the steps. -/
def loop (setting : Setting) : Nat → Editing Unit
  | 0 => return
  | k + 1 => do
    if ← step setting then loop setting k else return

/-- The greatest number of steps. -/
def stepLimit : Nat := 100000000

/-- Gives back the input that has not been read; it is read in blocks. -/
def giveBack (e : Editor) : Work Unit :=
  if e.source = ['-'] then
    let left := e.lines.flatten
    let read := (e.inputSize - left.length + pipeBlock - 1) / pipeBlock * pipeBlock
    modify fun s => { s with input := left.drop (read - (e.inputSize - left.length)) }
  else return
where
  /-- The number of octets that are read at a time. -/
  pipeBlock : Nat := 4096

/-- Empties the files that a script writes to; the first one that cannot be written. -/
def prepareFiles : List Octets → Work (Option (Octets × PathProblem))
  | [] => return none
  | path :: rest => do
    if path = "/dev/stdout".toList || path = "/dev/stderr".toList then prepareFiles rest
    else
      match ← Tools.writeFile path [] with
      | .ok () => prepareFiles rest
      | .error problem => return some (path, problem)

/-- Edits sources. -/
def edit (setting : Setting) (sources : List Octets) : Work Unit := do
  match ← prepareFiles setting.script.files with
  | some (path, problem) =>
    fail 4 (wording "sed: couldn't open file " ++ path ++ wording (": " ++ problem.message))
  | none =>
    let first := setting.script.commands.map fun c =>
      match c.guard.first with
      | some (.line 0) => RangeState.active none
      | _ => .inactive
    let work : Editing Unit := do
      if ← beginLine setting then loop setting stepLimit
      finishSource setting
    let (_, e) ← work.run { sources, ranges := first }
    emit e.output.reverse.flatten
    giveBack e
    endWith e.status

/-! ### Arguments -/

/-- The flags of `sed`. -/
def flags : FlagSet where
  flags := [.of 'n' "quiet", ⟨'n', some "silent", .nothing⟩, .of 'e' "expression" .value,
    .of 'f' "file" .value, .of 'E' "regexp-extended", .ofLetter 'r',
    .of 'i' "in-place" .joinedValue, .of 's' "separate", .of 'u' "unbuffered", .of 'l' "line-length" .value, .of 'z' "null-data",
    .of 'b' "binary", ⟨'P', some "posix", .nothing⟩, ⟨'D', some "debug", .nothing⟩,
    ⟨'S', some "sandbox", .nothing⟩, ⟨'L', some "follow-symlinks", .nothing⟩]

/-- The texts of the script that flags give, in order; expressions are numbered. -/
def scriptTexts : Nat → List Argument → Work (Except Octets (List (Origin × Octets)))
  | _, [] => return .ok []
  | n, .flag 'e' text :: rest => do
    return (← scriptTexts (n + 1) rest).map fun more => (.expression (n + 1), text) :: more
  | n, .flag 'f' path :: rest => do
    let content ← if path = ['-'] then do pure (.ok (← takeInput)) else Tools.readFile path
    match content with
    | .ok text =>
      return (← scriptTexts n rest).map fun more => (.file path, text) :: more
    | .error problem =>
      return .error (wording "couldn't open file " ++ path ++ wording (": " ++ problem.message))
  | n, _ :: rest => scriptTexts n rest

/-- Edits its input or files by a script. -/
def sed : Tool := fun arguments =>
  withArguments "sed" flags arguments fun given => do
    let operands := operands given
    let isGiven := hasFlag given 'e' || hasFlag given 'f'
    if !isGiven && operands.isEmpty then
      fail 1 (wording ("Usage: sed [OPTION]... \x7bscript-only-if-no-other-script\x7d " ++
        "[input-file]..."))
    else
      let (texts, sources) ←
        if isGiven then pure (← scriptTexts 0 given, operands)
        else pure (.ok [(.expression 1, operands.headD [])], operands.drop 1)
      let extended := hasFlag given 'E' || hasFlag given 'r'
      match texts.mapError (4, ·) |>.bind (readScript extended) with
      | .error (status, problem) => fail status (wording "sed: " ++ problem)
      | .ok script =>
        let inPlace := hasFlag given 'i'
        edit {
          script
          quiet := hasFlag given 'n' || script.quiet
          separate := hasFlag given 's' || inPlace
          inPlace
          width := ((flagValue? given 'l').map decimalValue).getD 70 }
          (if sources.isEmpty then [['-']] else sources)

end SchemaTypings.Tools.Sed
