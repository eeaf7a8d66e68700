import SchemaTypings.Tools.Regex
import SchemaTypings.Tools.Session

/-!
# Reading regular expressions

The two notations of regular expressions.  In the basic one, parentheses, braces and bars have
their meaning after a backslash; in the extended one, without.  A star that has nothing before it
is an octet in the basic notation and a mistake in the extended one.

This belongs to the outer layer, which only runs programs; no result depends on it.
-/

namespace SchemaTypings.Tools

open SchemaTypings.Text

/-- A way of writing expressions: whether it is the extended one, whether letters of the two cases
are one, and whether lines of the text count. -/
structure Dialect where
  extended : Bool
  ignoresCase : Bool := false
  byLines : Bool := false
  deriving DecidableEq, Repr

/-- What is wrong with an expression. -/
inductive RegexProblem where
  | unmatchedBracket
  | unmatchedOpen
  | unmatchedClose
  | unmatchedBrace
  | badRepetition
  | nothingToRepeat
  | badRange
  | badClass
  | badReference
  | trailingBackslash
  | tooBig
  deriving DecidableEq, Repr

/-- The wording of a problem. -/
def RegexProblem.message : RegexProblem → String
  | unmatchedBracket => "Unmatched [, [^, [:, [., or [="
  | unmatchedOpen => "Unmatched ( or \\("
  | unmatchedClose => "Unmatched ) or \\)"
  | unmatchedBrace => "Unmatched \\\x7b"
  | badRepetition => "Invalid content of \\\x7b\\\x7d"
  | nothingToRepeat => "Invalid preceding regular expression"
  | badRange => "Invalid range end"
  | badClass => "Invalid character class name"
  | badReference => "Invalid back reference"
  | trailingBackslash => "Trailing backslash"
  | tooBig => "Regular expression too big"

/-- A token of an expression. -/
inductive RegexToken where
  | char (c : Char)
  | any
  | bracket
  | assertion (a : Assertion)
  | opening
  | closing
  | bar
  | star
  | plus
  | optional
  | brace
  | closingBrace
  | reference (index : Nat)
  /-- The octets of words, or the others. -/
  | word (isIn : Bool)
  /-- The blanks, or the others. -/
  | space (isIn : Bool)
  | stop
  | loneBackslash
  deriving DecidableEq, Repr

namespace Dialect

/-- The token after a backslash. -/
def escaped (d : Dialect) (c : Char) : RegexToken :=
  match c with
  | '|' => if d.extended then .char c else .bar
  | '(' => if d.extended then .char c else .opening
  | ')' => if d.extended then .char c else .closing
  | '\x7b' => if d.extended then .char c else .brace
  | '\x7d' => if d.extended then .char c else .closingBrace
  | '+' => if d.extended then .char c else .plus
  | '?' => if d.extended then .char c else .optional
  | '<' => .assertion .wordStart
  | '>' => .assertion .wordEnd
  | 'b' => .assertion .wordEdge
  | 'B' => .assertion .noWordEdge
  | 'w' => .word true
  | 'W' => .word false
  | 's' => .space true
  | 'S' => .space false
  | '\x60' => .assertion .textStart
  | '\'' => .assertion .textEnd
  | c => if '1' ≤ c ∧ c ≤ '9' then .reference (c.toNat - 48) else .char c

/-- The assertion of a caret. -/
def caret (d : Dialect) : RegexToken := .assertion (if d.byLines then .lineStart else .textStart)

/-- The assertion of a dollar sign. -/
def dollar (d : Dialect) : RegexToken := .assertion (if d.byLines then .lineEnd else .textEnd)

/-- Whether what follows a dollar sign lets it be an assertion. -/
def endsHere (d : Dialect) : Octets → Bool
  | [] => true
  | '\\' :: c :: _ => d.extended || c == ')' || c == '|'
  | _ => d.extended

/-- The next token and what follows it; the flag says whether a caret is an assertion here. -/
def token (d : Dialect) (caretHere : Bool) : Octets → RegexToken × Octets
  | [] => (.stop, [])
  | ['\\'] => (.loneBackslash, [])
  | '\\' :: c :: rest => (d.escaped c, rest)
  | c :: rest =>
    let t : RegexToken :=
      match c with
      | '*' => .star
      | '[' => .bracket
      | '.' => .any
      | '^' => if caretHere || d.extended then d.caret else .char c
      | '$' => if d.endsHere rest then d.dollar else .char c
      | '(' => if d.extended then .opening else .char c
      | ')' => if d.extended then .closing else .char c
      | '|' => if d.extended then .bar else .char c
      | '+' => if d.extended then .plus else .char c
      | '?' => if d.extended then .optional else .char c
      | '\x7b' => if d.extended then .brace else .char c
      | '\x7d' => if d.extended then .closingBrace else .char c
      | c => .char c
    (t, rest)

/-- The set of the octets that are accepted. -/
def setOf (d : Dialect) (accepts : Char → Bool) : Array Bool :=
  (allOctets.map fun c =>
    accepts c || d.ignoresCase && (accepts (lowered c) || accepts (raised c))).toArray

/-- The expression of an octet. -/
def octet (d : Dialect) (c : Char) : Regex :=
  if d.ignoresCase && isLetter c then .oneOf (d.setOf (· == c)) else .char c

end Dialect

/-! ### Brackets -/

/-- An end of a range, or a class, in brackets, and what follows it. -/
def bracketItem : Octets → Except RegexProblem ((Char ⊕ (Char → Bool)) × Octets)
  | [] => .error .unmatchedBracket
  | '[' :: mark :: rest =>
    if mark = ':' ∨ mark = '=' ∨ mark = '.' then
      match untilClose? mark rest with
      | none => .error .unmatchedBracket
      | some (name, after) =>
        if mark = ':' then
          match className? name with
          | some accepts => .ok (.inr accepts, after)
          | none => .error .badClass
        else
          match name with
          | [c] => if mark = '=' then .ok (.inr (· == c), after) else .ok (.inl c, after)
          | _ => .error .badRange
    else .ok (.inl '[', mark :: rest)
  | c :: rest => .ok (.inl c, rest)

/-- The octets between brackets, from the second item on; the number bounds that of the items. -/
def bracketItems (accepts : Char → Bool) (isFirst : Bool) :
    Nat → Octets → Except RegexProblem ((Char → Bool) × Octets)
  | 0, _ => .error .unmatchedBracket
  | n + 1, text =>
    if text.head? = some ']' ∧ !isFirst then .ok (accepts, text.drop 1)
    else
      match bracketItem text with
      | .error problem => .error problem
      | .ok (.inr class_, rest) => bracketItems (fun c => accepts c || class_ c) false n rest
      | .ok (.inl first, '-' :: d :: rest) =>
        if d = ']' then bracketItems (fun c => accepts c || c == first) false n ('-' :: d :: rest)
        else
          match bracketItem (d :: rest) with
          | .error problem => .error problem
          | .ok (.inr _, _) => .error .badRange
          | .ok (.inl last, rest) =>
            if first ≤ last then
              bracketItems (fun c => accepts c || first ≤ c && c ≤ last) false n rest
            else .error .badRange
      | .ok (.inl c, rest) => bracketItems (fun d => accepts d || d == c) false n rest

/-- The set that brackets mean, after the opening one, and what follows. -/
def bracketSet (d : Dialect) (text : Octets) : Except RegexProblem (Array Bool × Octets) :=
  let items := fun rest : Octets => bracketItems (fun _ => false) true (rest.length + 1) rest
  match text with
  | '^' :: rest =>
    (items rest).map fun (accepts, after) => ((d.setOf accepts).map (!·), after)
  | text => (items text).map fun (accepts, after) => (d.setOf accepts, after)

/-! ### Expressions -/

/-- Where reading stands: what is left, the number of the groups begun and of those that are open,
the groups that are complete, and whether a caret is an assertion here. -/
structure RegexState where
  rest : Octets
  groups : Nat := 0
  opened : Nat := 0
  complete : List Nat := []
  caretHere : Bool := true

/-- A step of reading. -/
abbrev RegexReading := StateT RegexState (Except RegexProblem)

/-- The next token, which stays. -/
def peekToken (d : Dialect) : RegexReading RegexToken := do
  let s ← get
  return (d.token s.caretHere s.rest).1

/-- Takes the next token; the flag says whether a caret is an assertion after it. -/
def takeToken (d : Dialect) (caretHere : Bool) : RegexReading RegexToken := do
  let s ← get
  let (t, rest) := d.token s.caretHere s.rest
  set { s with rest, caretHere }
  return t

/-- The greatest number of repetitions. -/
def repetitionLimit : Nat := 32767

/-- What was found where a number of repetitions may stand. -/
inductive Bound where
  | missing
  | number (n : Nat)
  | wrong
  deriving DecidableEq, Repr

/-- Takes a number of repetitions with the token that ends it: a comma, a closing brace or the end
of the expression. -/
def takeBound (d : Dialect) : Nat → Bound → RegexReading (Bound × RegexToken)
  | 0, _ => return (.wrong, .stop)
  | k + 1, before => do
    let t ← takeToken d false
    match t with
    | .stop => return (.wrong, t)
    | .closingBrace => return (before, t)
    | .char c =>
      if c = ',' then return (before, t)
      else if !isDigit c then takeBound d k .wrong
      else
        let digit := c.toNat - 48
        takeBound d k (match before with
          | .missing => .number digit
          | .number n => .number (min (repetitionLimit + 1) (n * 10 + digit))
          | .wrong => .wrong)
    | _ => takeBound d k .wrong

/-- Reads the bounds of a repetition after the opening brace. -/
def readBounds (d : Dialect) : RegexReading (Nat × Option Nat) := do
  let fuel := (← get).rest.length + 1
  let (first, t) ← takeBound d fuel .missing
  if first = .missing && t = .closingBrace then throw .badRepetition
  let (second, t) ←
    if t = .char ',' && first ≠ .wrong then takeBound d fuel .missing else pure (first, t)
  if first = .wrong || second = .wrong then
    throw (if t = .stop then .unmatchedBrace else .badRepetition)
  let most := match second with | .number n => some n | _ => none
  let least := match first with | .number n => n | _ => 0
  if most.getD least < least || t ≠ .closingBrace then throw .badRepetition
  else if most.getD least > repetitionLimit then throw .tooBig
  else return (least, most)

/-- The bounds of the repetition that a token means. -/
def repetitionOf? (d : Dialect) : RegexToken → Option (RegexReading (Nat × Option Nat))
  | .star => some (return (0, none))
  | .plus => some (return (1, none))
  | .optional => some (return (0, some 1))
  | .brace => some (readBounds d)
  | _ => none

/-- Reads the repetitions that follow an expression.  In the basic notation a star or a brace must
not follow another repetition. -/
def readRepetitions (d : Dialect) (isRepeated : Bool) : Nat → Regex → RegexReading Regex
  | 0, r => return r
  | k + 1, r => do
    let t ← peekToken d
    match repetitionOf? d t with
    | none => return r
    | some bounds =>
      if isRepeated && !d.extended && (t = .star || t = .brace) then throw .nothingToRepeat
      discard (takeToken d false)
      let (least, most) ← bounds
      readRepetitions d true k (.repeated r least most)

/-- The octet that an operator without operand stands for, or the mistake that it is. -/
def strayOperator (d : Dialect) (c : Char) : RegexReading Regex :=
  if d.extended then throw .nothingToRepeat else return .char c

/-- Reads what a token that begins an expression stands for; `inside` reads the inside of a
group. -/
def readAtom (d : Dialect) (inside : RegexReading Regex) : RegexToken → RegexReading Regex
  | .char c => return d.octet c
  | .any => return .oneOf (d.setOf fun _ => true)
  | .bracket => do
    let s ← get
    match bracketSet d s.rest with
    | .error problem => throw problem
    | .ok (accepted, rest) =>
      set { s with rest }
      return .oneOf accepted
  | .word isIn => return .oneOf (d.setOf fun c => isWordOctet c == isIn)
  | .space isIn => return .oneOf (d.setOf fun c => isSpace c == isIn)
  | .reference index => do
    if (← get).complete.contains index then return .back index d.ignoresCase
    else throw .badReference
  | .opening => do
    let s ← get
    let index := s.groups + 1
    set { s with groups := index, opened := s.opened + 1, caretHere := true }
    let body ← inside
    if (← takeToken d false) = .closing then
      modify fun s => { s with complete := index :: s.complete, opened := s.opened - 1 }
      return .group index body
    else throw .unmatchedOpen
  | .star => strayOperator d '*'
  | .plus => strayOperator d '+'
  | .optional => strayOperator d '?'
  | .brace => throw .nothingToRepeat
  | .closingBrace => return .char '\x7d'
  | .closing => throw .unmatchedClose
  | .loneBackslash => throw .trailingBackslash
  | .assertion a => return .assertion a
  | .bar => return .empty
  | .stop => return .empty

mutual

/-- Reads alternatives up to a closing parenthesis or the end.  A group of one alternative cannot be
referred to in another. -/
def readAlternatives (d : Dialect) : Nat → RegexReading Regex
  | 0 => return .empty
  | k + 1 => do
    let before := (← get).complete
    let first ← readBranch d k .empty
    if (← peekToken d) = .bar then
      discard (takeToken d true)
      let here := (← get).complete
      modify fun s => { s with complete := before }
      let others ← readAlternatives d k
      modify fun s => { s with complete := here ++ s.complete }
      return .either first others
    else return first

/-- Reads expressions one after another, after one that has been read. -/
def readBranch (d : Dialect) : Nat → Regex → RegexReading Regex
  | 0, before => return before
  | k + 1, before => do
    let join := fun r : Regex => match before with | .empty => r | before => .seq before r
    match ← peekToken d with
    | .stop => return before
    | .bar => return before
    | .closing =>
      if (← get).opened > 0 then return before else throw .unmatchedClose
    | .assertion a =>
      discard (takeToken d true)
      readBranch d k (join (.assertion a))
    | t =>
      discard (takeToken d false)
      let atom ← readAtom d (readAlternatives d k) t
      let r ← readRepetitions d false k atom
      readBranch d k (join r)

end

/-- An expression and the number of its groups. -/
structure Pattern where
  regex : Regex
  groups : Nat

/-- Reads a whole expression. -/
def readPattern (d : Dialect) (text : Octets) : Except RegexProblem Pattern :=
  match (readAlternatives d (2 * text.length + 2)).run { rest := text } with
  | .error problem => .error problem
  | .ok (regex, s) => if s.rest.isEmpty then .ok ⟨regex, s.groups⟩ else .error .unmatchedClose

end SchemaTypings.Tools
