import SchemaTypings.Tools.Sed.Script

/-!
# Reading editing scripts

A script is read octet by octet, from expressions and files one after another.  What is wrong with
it is reported with the number of octets that have been read.

This belongs to the outer layer, which only runs programs; no result depends on it.
-/

namespace SchemaTypings.Tools.Sed

open SchemaTypings.Text

/-- Where a script comes from. -/
inductive Origin where
  | expression (number : Nat)
  | file (name : Octets)
  deriving DecidableEq, Repr

/-- A script being read: what is left of the present text, how much of it is read, and what the
script is so far.  `blocks` are the places of open blocks, the innermost first; `pending` says that
the last command waits for the rest of its text. -/
structure Draft where
  rest : Octets
  taken : Nat := 0
  line : Nat := 1
  origin : Origin
  extended : Bool
  commands : Array Command := #[]
  labels : List (Octets × Nat) := []
  blocks : List Nat := []
  quiet : Bool := false
  pending : Bool := false

/-- A step of reading; it may fail with a status and a complaint. -/
abbrev Drafting := StateT Draft (Except (Nat × Octets))

/-- Where in a script a problem is. -/
def Draft.location (d : Draft) : Octets :=
  match d.origin with
  | .expression n =>
    wording "-e expression #" ++ decimal n ++ wording ", char " ++ decimal d.taken ++ wording ": "
  | .file name => wording "file " ++ name ++ wording " line " ++ decimal d.line ++ wording ": "

/-- Fails with what is wrong here. -/
def failHere {α : Type} (problem : Octets) : Drafting α := do
  throw (1, (← get).location ++ problem)

/-- Fails with what is wrong here. -/
def wrong {α : Type} (problem : String) : Drafting α := failHere (wording problem)

/-- Takes the next octet. -/
def take : Drafting (Option Char) := do
  let d ← get
  match d.rest with
  | [] => return none
  | c :: rest =>
    set { d with rest, taken := d.taken + 1, line := if c = '\n' then d.line + 1 else d.line }
    return some c

/-- Puts an octet back. -/
def putBack (c? : Option Char) : Drafting Unit :=
  match c? with
  | none => return
  | some c => modify fun d => { d with
      rest := c :: d.rest, taken := d.taken - 1, line := if c = '\n' then d.line - 1 else d.line }

/-- Takes octets as long as they are accepted. -/
def takeWhile (accepts : Char → Bool) : Drafting Octets := do
  let d ← get
  let found := d.rest.takeWhile accepts
  set { d with
    rest := d.rest.drop found.length
    taken := d.taken + found.length
    line := d.line + found.count '\n' }
  return found

/-- Whether an octet is a space or a tab. -/
def isBlankOctet (c : Char) : Bool := c == ' ' || c == '\t'

/-- Takes the next octet that is no blank. -/
def takeNonblank : Drafting (Option Char) := do
  discard (takeWhile isBlankOctet)
  take

/-- The value of decimal digits. -/
def decimalValue (digits : Octets) : Nat := digits.foldl (fun n d => n * 10 + (d.toNat - 48)) 0

/-- Takes a number whose first digit is taken already. -/
def takeInteger (first : Char) : Drafting Nat := do
  return decimalValue (first :: (← takeWhile isDigit))

/-! ### Escapes -/

/-- The value of a digit in some base. -/
def digitValue? (base : Nat) (c : Char) : Option Nat :=
  let v :=
    if isDigit c then c.toNat - 48
    else if isLetter c then (lowered c).toNat - 87
    else base
  if v < base then some v else none

/-- The octet of a number in a base with at most so many digits, and how many there are. -/
def numbered? (base most : Nat) (rest : Octets) : Option (Char × Nat) :=
  let digits := (rest.take most).takeWhile fun c => (digitValue? base c).isSome
  if digits.isEmpty then none
  else
    let value := digits.foldl (fun n c => n * base + (digitValue? base c).getD 0) 0
    some (Char.ofNat (value % 256), digits.length)

/-- The octet that an escape means, given what follows the backslash, and how long it is. -/
def escape? : Octets → Option (Char × Nat)
  | 'a' :: _ => some ('\x07', 1)
  | 'f' :: _ => some ('\x0c', 1)
  | 'n' :: _ => some ('\n', 1)
  | 'r' :: _ => some ('\r', 1)
  | 't' :: _ => some ('\t', 1)
  | 'v' :: _ => some ('\x0b', 1)
  | 'c' :: c :: _ => some (Char.ofNat ((raised c).toNat ^^^ 64), 2)
  | 'd' :: rest => (numbered? 10 3 rest).map fun (c, n) => (c, n + 1)
  | 'o' :: rest => (numbered? 8 3 rest).map fun (c, n) => (c, n + 1)
  | 'x' :: rest => (numbered? 16 2 rest).map fun (c, n) => (c, n + 1)
  | _ => none

/-- An expression with its escapes replaced; the number is that of the octets to leave out. -/
def expressionText : Nat → Octets → Octets
  | _, [] => []
  | n + 1, _ :: rest => expressionText n rest
  | 0, '\\' :: c :: rest =>
    match escape? (c :: rest) with
    | some (d, n) => d :: expressionText n (c :: rest)
    | none => '\\' :: c :: expressionText 1 (c :: rest)
  | 0, c :: rest => c :: expressionText 0 rest

/-- A text for output with its escapes replaced and other backslashes left out. -/
def outputText : Nat → Octets → Octets
  | _, [] => []
  | n + 1, _ :: rest => outputText n rest
  | 0, '\\' :: c :: rest =>
    match escape? (c :: rest) with
    | some (d, n) => d :: outputText n (c :: rest)
    | none => c :: outputText 1 (c :: rest)
  | 0, ['\\'] => []
  | 0, c :: rest => c :: outputText 0 rest

/-- Adds an octet of text to the parts of a replacement. -/
def addOctet (c : Char) : List Part → List Part
  | .text octets :: rest => .text (c :: octets) :: rest
  | parts => .text [c] :: parts

/-- The parts of a replacement; the number is that of the octets to leave out. -/
def replacementParts : Nat → Octets → List Part
  | _, [] => []
  | n + 1, _ :: rest => replacementParts n rest
  | 0, '&' :: rest => .group 0 :: replacementParts 0 rest
  | 0, '\\' :: c :: rest =>
    if isDigit c then .group (c.toNat - 48) :: replacementParts 1 (c :: rest)
    else
      match c with
      | 'U' => .change .upper :: replacementParts 1 (c :: rest)
      | 'L' => .change .lower :: replacementParts 1 (c :: rest)
      | 'u' => .change .upperOnce :: replacementParts 1 (c :: rest)
      | 'l' => .change .lowerOnce :: replacementParts 1 (c :: rest)
      | 'E' => .change .none :: replacementParts 1 (c :: rest)
      | _ =>
        match escape? (c :: rest) with
        | some (d, n) => addOctet d (replacementParts n (c :: rest))
        | none => addOctet c (replacementParts 1 (c :: rest))
  | 0, c :: rest => addOctet c (replacementParts 0 rest)

/-! ### Delimited texts -/

/-- Where reading stands with respect to brackets. -/
inductive Bracket where
  | outside
  /-- Right after the opening bracket or its caret. -/
  | opened (afterCaret : Bool)
  | inside
  /-- Inside a class that ends with a mark and a bracket. -/
  | classed (mark : Char) (sawMark : Bool)
  deriving DecidableEq, Repr

/-- Where reading stands after one more octet, given the octet after that. -/
def Bracket.step (b : Bracket) (c : Char) (next? : Option Char) : Bracket :=
  match b with
  | .outside => if c = '[' then .opened false else .outside
  | .opened afterCaret =>
    if c = '^' ∧ !afterCaret then .opened true
    else if c = '[' ∧ (next? = some ':' ∨ next? = some '.' ∨ next? = some '=') then
      .classed (next?.getD ':') false
    else .inside
  | .inside =>
    if c = ']' then .outside
    else if c = '[' ∧ (next? = some ':' ∨ next? = some '.' ∨ next? = some '=') then
      .classed (next?.getD ':') false
    else .inside
  | .classed mark sawMark =>
    if c = ']' ∧ sawMark then .inside else .classed mark (c == mark)

/-- Takes a text up to a delimiter; in an expression a delimiter between brackets does not count and
`\n` is a line end.  There is none if the line or the script ends before. -/
def takeDelimited (delimiter : Char) (isExpression : Bool) :
    Nat → Bracket → Octets → Drafting (Option Octets)
  | 0, _, _ => return none
  | k + 1, bracket, found => do
    match ← take with
    | none => return none
    | some '\n' =>
      putBack (some '\n')
      return none
    | some c =>
      if c = delimiter && (bracket == .outside || !isExpression) then return some found.reverse
      else if c = '\\' then
        match ← take with
        | none => return none
        | some d =>
          let octets :=
            if d = 'n' && isExpression && delimiter ≠ 'n' then ['\n']
            else if d = '\n' || d = delimiter && (isExpression || d ≠ '&') then [d]
            else ['\\', d]
          let next? := (← get).rest.head?
          let bracket :=
            if bracket == .outside then bracket else (bracket.step c (some d)).step d next?
          takeDelimited delimiter isExpression k bracket (octets.reverse ++ found)
      else
        takeDelimited delimiter isExpression k (bracket.step c (← get).rest.head?) (c :: found)

/-- Takes a text up to a delimiter. -/
def takeUntil (delimiter : Char) (isExpression : Bool) : Drafting (Option Octets) := do
  takeDelimited delimiter isExpression ((← get).rest.length + 1) .outside []

/-- The pattern of an expression; an empty one is the pattern looked for last. -/
def patternOf (text : Octets) (ignoresCase byLines : Bool) : Drafting (Option Pattern) := do
  if text.isEmpty then
    if ignoresCase || byLines then wrong "cannot specify modifiers on empty regexp"
    return none
  let extended := (← get).extended
  match readPattern ⟨extended, ignoresCase, byLines⟩ (expressionText 0 text) with
  | .error problem => wrong problem.message
  | .ok pattern => return some pattern

/-! ### Addresses -/

/-- Reads the flags of an expression that is an address. -/
def addressFlags : Nat → Bool → Bool → Drafting (Bool × Bool)
  | 0, i, m => return (i, m)
  | k + 1, i, m => do
    match ← takeNonblank with
    | some 'I' => addressFlags k true m
    | some 'M' => addressFlags k i true
    | c? =>
      putBack c?
      return (i, m)

/-- Reads an expression that is an address. -/
def readFound (delimiter : Option Char) : Drafting (Option Pattern) := do
  match delimiter with
  | none => wrong "unterminated address regex"
  | some delimiter =>
    match ← takeUntil delimiter true with
    | none => wrong "unterminated address regex"
    | some text =>
      let (i, m) ← addressFlags ((← get).rest.length + 1) false false
      patternOf text i m

/-- Takes the number after a plus sign or a tilde; it may be missing. -/
def takeCount : Drafting Nat := do
  match ← takeNonblank with
  | some c =>
    if isDigit c then takeInteger c
    else
      putBack (some c)
      return 0
  | none => return 0

/-- Reads the address that begins with an octet. -/
def readAddress (c : Char) : Drafting (Option Address) := do
  if c = '/' then return some (.found (← readFound (some '/')))
  else if c = '\\' then return some (.found (← readFound (← take)))
  else if c = '$' then return some .last
  else if isDigit c then
    let n ← takeInteger c
    match ← takeNonblank with
    | some '~' =>
      let step ← takeCount
      return some (if step = 0 then .line n else .every n step)
    | c? =>
      putBack c?
      return some (.line n)
  else return none

/-- Reads the end of a range that begins with an octet. -/
def readRangeEnd (c? : Option Char) : Drafting RangeEnd := do
  match c? with
  | some '+' => return .after (← takeCount)
  | some '~' => return .multiple (← takeCount)
  | some c =>
    match ← readAddress c with
    | some (.line n) => return .line n
    | some (.every n _) => return .line n
    | some .last => return .last
    | some (.found pattern) => return .found pattern
    | none => wrong "unexpected `,'"
  | none => wrong "unexpected `,'"

/-- Whether the first address is line 0, which only an expression may follow. -/
def isBadZero (first : Address) (last : Option RangeEnd) : Bool :=
  match first, last with
  | .line 0, some (.found _) => false
  | .line 0, _ => true
  | _, _ => false

/-- Reads the guard of a command that begins with an octet, and the octet after it. -/
def readGuard (c : Char) : Drafting (Guard × Option Char) := do
  let (guard, c?) ←
    if c = '+' || c = '~' then
      discard takeCount
      wrong "invalid usage of +N or ~N as first address"
    else
      match ← readAddress c with
      | none => pure ({}, some c)
      | some first =>
        let c? ← takeNonblank
        let (stop, c?) ←
          if c? = some ',' then do
            let stop ← readRangeEnd (← takeNonblank)
            pure (some stop, ← takeNonblank)
          else pure (none, c?)
        if isBadZero first stop then wrong "invalid usage of line address 0"
        pure ({ first := some first, last := stop }, c?)
  if c? = some '!' then
    let c? ← takeNonblank
    if c? = some '!' then wrong "multiple `!'s"
    return ({ guard with negated := true }, c?)
  return (guard, c?)

/-! ### Commands -/

/-- Reads the end of a command. -/
def readEnd : Drafting Unit := do
  match ← takeNonblank with
  | none => return
  | some '\n' => return
  | some ';' => return
  | some c =>
    if c = '#' || c = '\x7d' then putBack (some c) else wrong "extra characters after command"

/-- Takes a text up to a line end that no backslash protects; the flag says that the script ends
with a backslash or with nothing at all, so that the text may go on. -/
def takeText : Nat → Octets → Drafting (Octets × Bool)
  | 0, found => return (found.reverse, false)
  | k + 1, found => do
    match ← take with
    | none => return (('\n' :: found).reverse, false)
    | some '\n' => return (('\n' :: found).reverse, false)
    | some '\\' =>
      match ← take with
      | none => return (found.reverse, true)
      | some c => takeText k (c :: '\\' :: found)
    | some c => takeText k (c :: found)

/-- Reads the text of a command that adds lines. -/
def readText (action : Octets → Action) : Drafting Action := do
  match ← takeNonblank with
  | none => wrong "expected \\ after `a', `c' or `i'"
  | some c =>
    if c = '\\' then
      match ← take with
      | none =>
        modify fun d => { d with pending := true }
        return action []
      | some d => if d ≠ '\n' then putBack (some d)
    else putBack (some c)
    let (text, pending) ← takeText ((← get).rest.length + 1) []
    modify fun d => { d with pending }
    return action (outputText 0 text)

/-- Takes the name of a file, which is the rest of the line. -/
def readFileName : Drafting Octets := do
  discard (takeWhile isBlankOctet)
  let name ← takeWhile (· != '\n')
  if name.isEmpty then wrong "missing filename in r/R/w/W commands"
  discard take
  return name

/-- Takes a label. -/
def readLabel : Drafting Octets := do
  discard (takeWhile isBlankOctet)
  takeWhile fun c => !isSpace c && c != ';' && c != '#' && c != '\x7d'

/-- Takes a number that may be missing, and the end of the command. -/
def readNumber : Drafting (Option Nat) := do
  match ← takeNonblank with
  | some c =>
    if isDigit c then
      let n ← takeInteger c
      readEnd
      return some n
    else
      putBack (some c)
      readEnd
      return none
  | none => return none

/-- The flags of a substitution. -/
structure SubstitutionFlags where
  occurrence : Nat := 0
  everywhere : Bool := false
  prints : Bool := false
  ignoresCase : Bool := false
  byLines : Bool := false
  file : Option Octets := none

/-- Reads the flags of a substitution and the end of the command. -/
def readFlags : Nat → SubstitutionFlags → Drafting SubstitutionFlags
  | 0, flags => return flags
  | k + 1, flags => do
    match ← take with
    | none => return flags
    | some c =>
      if c = '\n' || c = ';' then return flags
      else if c = '#' || c = '\x7d' then
        putBack (some c)
        return flags
      else if c = 'i' || c = 'I' then readFlags k { flags with ignoresCase := true }
      else if c = 'm' || c = 'M' then readFlags k { flags with byLines := true }
      else if c = 'p' then
        if flags.prints then wrong "multiple `p' options to `s' command"
        readFlags k { flags with prints := true }
      else if c = 'g' then
        if flags.everywhere then wrong "multiple `g' options to `s' command"
        readFlags k { flags with everywhere := true }
      else if c = 'w' then return { flags with file := some (← readFileName) }
      else if isDigit c then
        if flags.occurrence ≠ 0 then wrong "multiple number options to `s' command"
        let n ← takeInteger c
        if n = 0 then wrong "number option to `s' command may not be zero"
        readFlags k { flags with occurrence := n }
      else if isBlankOctet c then readFlags k flags
      else wrong "unknown option to `s'"

/-- The greatest group that a replacement refers to. -/
def greatestGroup (parts : List Part) : Nat :=
  parts.foldl (fun n part => match part with | .group i => max n i | _ => n) 0

/-- Reads a substitution. -/
def readSubstitution : Drafting Action := do
  match ← take with
  | none => wrong "unterminated `s' command"
  | some delimiter =>
    match ← takeUntil delimiter true with
    | none => wrong "unterminated `s' command"
    | some expression =>
      match ← takeUntil delimiter false with
      | none => wrong "unterminated `s' command"
      | some replacement =>
        let parts := replacementParts 0 replacement
        let flags ← readFlags ((← get).rest.length + 1) {}
        let pattern ← patternOf expression flags.ignoresCase flags.byLines
        let groups := (pattern.map Pattern.groups).getD 9
        if greatestGroup parts > groups then
          failHere (wording "invalid reference \\" ++ decimal (greatestGroup parts) ++
            wording " on `s' command's RHS")
        return .substitute {
          pattern, parts, occurrence := max flags.occurrence 1, everywhere := flags.everywhere
          prints := flags.prints, file := flags.file }

/-- The octets of one side of a replacement of octets. -/
def sideOctets : Nat → Octets → Octets
  | _, [] => []
  | n + 1, _ :: rest => sideOctets n rest
  | 0, '\\' :: c :: rest =>
    match escape? (c :: rest) with
    | some (d, n) => d :: sideOctets n (c :: rest)
    | none => c :: sideOctets 1 (c :: rest)
  | 0, c :: rest => c :: sideOctets 0 rest

/-- Reads a replacement of octets. -/
def readReplacement : Drafting Action := do
  match ← take with
  | none => wrong "unterminated `y' command"
  | some delimiter =>
    match ← takeUntil delimiter false with
    | none => wrong "unterminated `y' command"
    | some first =>
      match ← takeUntil delimiter false with
      | none => wrong "unterminated `y' command"
      | some second =>
        let (a, b) := (sideOctets 0 first, sideOctets 0 second)
        if a.length ≠ b.length then wrong "strings for `y' command are different lengths"
        readEnd
        return .replaceOctets (a.zip b)

/-- Reads the end of a command that has been understood. -/
def ended (action : Action) : Drafting Action := do
  readEnd
  return action

/-- Reads what a command does, given its letter. -/
def readAction (guard : Guard) (c : Char) : Drafting Action := do
  match c with
  | '=' => ended .showNumber
  | 'a' => readText .append
  | 'i' => readText .insert
  | 'c' => readText .change
  | 'b' => return .branch .always (← readLabel)
  | 't' => return .branch .ifReplaced (← readLabel)
  | 'T' => return .branch .unlessReplaced (← readLabel)
  | 'd' => ended .delete
  | 'D' => ended .deleteFirstLine
  | 'F' => ended .showName
  | 'g' => ended .fetch
  | 'G' => ended .fetchAppend
  | 'h' => ended .hold
  | 'H' => ended .holdAppend
  | 'x' => ended .exchange
  | 'l' => return .list (← readNumber)
  | 'n' => ended .next
  | 'N' => ended .appendNext
  | 'p' => ended .print
  | 'P' => ended .printFirstLine
  | 'q' =>
    if guard.last.isSome then wrong "command only uses one address"
    return .quit ((← readNumber).getD 0) true
  | 'Q' =>
    if guard.last.isSome then wrong "command only uses one address"
    return .quit ((← readNumber).getD 0) false
  | 'r' => return .readFile (← readFileName)
  | 'R' => return .readLine (← readFileName)
  | 's' => readSubstitution
  | 'v' =>
    discard readLabel
    return .nothing
  | 'w' => return .write (← readFileName)
  | 'W' => return .writeFirstLine (← readFileName)
  | 'y' => readReplacement
  | 'z' => ended .clear
  | c => failHere (wording "unknown command: `" ++ [c, '\''])

/-- Adds a command. -/
def addCommand (guard : Guard) (action : Action) : Drafting Unit :=
  modify fun d => { d with commands := d.commands.push ⟨guard, action⟩ }

/-- Closes the innermost block. -/
def closeBlock (guard : Guard) : Drafting Unit := do
  let d ← get
  match d.blocks with
  | [] => wrong "unexpected `\x7d'"
  | start :: outer =>
    if guard.first.isSome then wrong "\x7d doesn't want any addresses"
    readEnd
    let closed := d.commands.modify start fun c => { c with action := .block d.commands.size }
    modify fun d => { d with blocks := outer, commands := closed.push ⟨{}, .nothing⟩ }

/-- Reads a comment; one that is an `n` at the very start of a script asks for silence. -/
def readComment (guard : Guard) : Drafting Unit := do
  if guard.first.isSome then wrong "comments don't accept any addresses"
  let d ← get
  let isFirst := d.taken = 1 && (d.origin == .expression 1 || d.line = 1 && d.commands.isEmpty)
  let text ← takeWhile (· != '\n')
  if isFirst && text = ['n'] then modify fun d => { d with quiet := true }

/-- Reads one command that begins with an octet. -/
def readCommand (c : Char) : Drafting Unit := do
  let (guard, c?) ← readGuard c
  match c? with
  | none => wrong "missing command"
  | some '#' => readComment guard
  | some '\x7b' =>
    modify fun d => { d with blocks := d.commands.size :: d.blocks }
    addCommand guard (.block 0)
  | some '\x7d' => closeBlock guard
  | some ':' =>
    if guard.first.isSome then wrong ": doesn't want any addresses"
    let label ← readLabel
    if label.isEmpty then wrong "\":\" lacks a label"
    modify fun d => { d with labels := d.labels ++ [(label, d.commands.size)] }
    addCommand {} .nothing
  | some c => addCommand guard (← readAction guard c)

/-- Reads all commands of the present text. -/
def readCommands : Nat → Drafting Unit
  | 0 => return
  | k + 1 => do
    discard (takeWhile fun c => isSpace c || c == ';')
    match ← take with
    | none => return
    | some c =>
      readCommand c
      readCommands k

/-- Adds the rest of its text to the last command. -/
def resumeText : Drafting Unit := do
  let (text, pending) ← takeText ((← get).rest.length + 1) []
  let more := fun before : Octets => before ++ '\n' :: outputText 0 text
  let extend := fun c : Command =>
    match c.action with
    | .append t => { c with action := .append (if t.isEmpty then outputText 0 text else more t) }
    | .insert t => { c with action := .insert (if t.isEmpty then outputText 0 text else more t) }
    | .change t => { c with action := .change (if t.isEmpty then outputText 0 text else more t) }
    | _ => c
  modify fun d => { d with pending, commands := d.commands.modify (d.commands.size - 1) extend }

/-- Reads the present text. -/
def readPresent : Drafting Unit := do
  if (← get).pending then resumeText
  readCommands ((← get).rest.length + 1)

/-- Reads texts of a script, one after another. -/
def readTexts : List (Origin × Octets) → Drafting Unit
  | [] => return
  | (origin, text) :: rest => do
    modify fun d => { d with rest := text, taken := 0, line := 1, origin }
    readPresent
    readTexts rest

/-- The labels that branches go to. -/
def Draft.wanted (d : Draft) : List Octets :=
  d.commands.toList.filterMap fun c =>
    match c.action with
    | .branch _ label => if label.isEmpty then none else some label
    | _ => none

/-- Checks that all blocks are closed and all labels are there. -/
def readFinish : Drafting Script := do
  let d ← get
  if !d.blocks.isEmpty then
    modify fun d => { d with taken := 0, line := 0 }
    wrong "unmatched `\x7b'"
  match d.wanted.find? fun label => !d.labels.any fun entry => entry.1 == label with
  | some label => throw (4, wording "can't find label for jump to `" ++ label ++ ['\''])
  | none => return ⟨d.commands, d.labels, d.quiet⟩

/-- Reads a script from its texts. -/
def readScript (extended : Bool) (texts : List (Origin × Octets)) :
    Except (Nat × Octets) Script :=
  let work : Drafting Script := do
    readTexts texts
    readFinish
  (work.run { rest := [], origin := .expression 1, extended }).map Prod.fst

end SchemaTypings.Tools.Sed
