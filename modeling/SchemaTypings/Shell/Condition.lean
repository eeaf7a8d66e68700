import SchemaTypings.Run.FileSystem
import SchemaTypings.Tools.Directive
import SchemaTypings.Tools.CharacterClass

/-!
# Conditions

A condition is a list of arguments: texts and numbers that are compared, files that are looked at,
and conditions that are joined or turned around.  What an argument is depends on the ones after it.

This belongs to the outer layer, which only runs programs; no result depends on it.
-/

namespace SchemaTypings.Shell

open SchemaTypings.Run SchemaTypings.Text SchemaTypings.Tools

/-- What an argument of a condition can be besides a text. -/
inductive ConditionSign where
  | unary
  | binary
  | conjunction
  | disjunction
  | negation
  | opening
  | closing
  deriving DecidableEq, Repr

/-- The sign that an argument spells. -/
def conditionSign? (argument : Octets) : Option ConditionSign :=
  match argument with
  | ['!'] => some .negation
  | ['('] => some .opening
  | [')'] => some .closing
  | ['-', 'a'] => some .conjunction
  | ['-', 'o'] => some .disjunction
  | ['-', c] => if "rwxefdcbpugksztnhOGLS".toList.contains c then some .unary else none
  | _ =>
    if ["=", "!=", "<", ">", "-eq", "-ne", "-ge", "-gt", "-le", "-lt", "-nt", "-ot", "-ef"].any
        fun s => s.toList == argument then some .binary
    else none

/-- What the first argument of a list is. -/
inductive Lexeme where
  | nothing
  | operand
  | sign (sign : ConditionSign)
  deriving DecidableEq, Repr

/-- Whether a sign for one side is no sign, by the arguments after it. -/
def isOperand : List Octets → Bool
  | [] => true
  | [_] => false
  | next :: _ => conditionSign? next == some .binary

/-- What the first argument is. -/
def lexeme : List Octets → Lexeme
  | [] => .nothing
  | argument :: rest =>
    match conditionSign? argument with
    | none => .operand
    | some sign =>
      if sign = .unary && isOperand rest || sign = .opening && rest.isEmpty then .operand
      else .sign sign

/-- A condition can be wrong in itself. -/
abbrev Judging := Except Octets

/-- The integer that an argument spells in decimal digits. -/
def comparedNumber (text : Octets) : Judging Int :=
  let inner := text.dropWhile isSpace
  let isNegative := inner.head? == some '-'
  let digits := if isNegative || inner.head? == some '+' then inner.drop 1 else inner
  let shown := digits.takeWhile isDigit
  let value : Int := decimalValue shown
  if shown.isEmpty || !(digits.drop shown.length).all isSpace then
    .error (wording "Illegal number: " ++ text)
  else .ok (if isNegative then -value else value)

/-- Whether a file passes a test. -/
def fileTest (fs : FileSystem) (test : Char) (path : Octets) : Bool :=
  match fs.locate? (Octets.text path) with
  | none => false
  | some place =>
    let isDirectory := fs.hasDirectory place
    match fs.content? place, isDirectory with
    | none, false => false
    | content?, _ =>
      let isDevice := place == .null
      match test with
      | 'e' | 'r' | 'w' | 'O' | 'G' => true
      | 'f' => !isDirectory && !isDevice
      | 'd' | 'x' => isDirectory
      | 'c' => isDevice
      | 's' => isDirectory || (content?.map fun c => !c.bytes.isEmpty).getD false
      | _ => false

/-- The truth of a test with one side. -/
def unaryTest (fs : FileSystem) (sign argument : Octets) : Judging Bool :=
  match sign with
  | ['-', 'z'] => .ok argument.isEmpty
  | ['-', 'n'] => .ok !argument.isEmpty
  | ['-', 't'] => (comparedNumber argument).map fun _ => false
  | ['-', c] => .ok (fileTest fs c argument)
  | _ => .ok false

/-- The truth of a test with two sides. -/
def binaryTest (fs : FileSystem) (left sign right : Octets) : Judging Bool := do
  let byNumbers (p : Int → Int → Bool) : Judging Bool := do
    let a ← comparedNumber left
    return p a (← comparedNumber right)
  match String.ofList sign with
  | "=" => return left == right
  | "!=" => return left != right
  | "<" => return decide (left < right)
  | ">" => return decide (right < left)
  | "-eq" => byNumbers (· == ·)
  | "-ne" => byNumbers (· != ·)
  | "-ge" => byNumbers (· ≥ ·)
  | "-gt" => byNumbers (· > ·)
  | "-le" => byNumbers (· ≤ ·)
  | "-lt" => byNumbers (· < ·)
  | "-ef" =>
    return fileTest fs 'e' left && fileTest fs 'e' right &&
      fs.locate? (Octets.text left) == fs.locate? (Octets.text right)
  | _ => return false

/-- The truth of what stands first, and the arguments from the last one that belongs to it. -/
def primary (fs : FileSystem)
    (whole : Lexeme → List Octets → Judging (Bool × List Octets)) (first : Lexeme)
    (arguments : List Octets) : Judging (Bool × List Octets) := do
  match first, arguments with
  | .nothing, _ => return (false, arguments)
  | _, [] => return (false, [])
  | .sign .opening, _ :: rest =>
    if lexeme rest = .sign .closing then return (false, rest)
    let (truth, last) ← whole (lexeme rest) rest
    if lexeme (last.drop 1) = .sign .closing then return (truth, last.drop 1)
    throw (wording "closing paren expected")
  | .sign .unary, sign :: rest =>
    match rest with
    | [] => throw (sign ++ wording ": argument expected")
    | argument :: _ => return (← unaryTest fs sign argument, rest)
  | _, left :: rest =>
    if lexeme rest = .sign .binary then
      match rest with
      | sign :: right :: more => return (← binaryTest fs left sign right, right :: more)
      | sign :: [] => throw (sign ++ wording ": argument expected")
      | [] => return (!left.isEmpty, arguments)
    else return (!left.isEmpty, arguments)

/-- The truth of what may be turned around. -/
def negation (fs : FileSystem)
    (whole : Lexeme → List Octets → Judging (Bool × List Octets)) :
    Nat → Lexeme → List Octets → Judging (Bool × List Octets)
  | 0, first, arguments => primary fs whole first arguments
  | n + 1, first, arguments =>
    if first = .sign .negation then do
      let next := lexeme (arguments.drop 1)
      let rest := if next = .nothing then arguments else arguments.drop 1
      let (truth, last) ← negation fs whole n next rest
      return (!truth, last)
    else primary fs whole first arguments

/-- The truth of conditions that a sign joins. -/
def joinedBy (sign : ConditionSign) (join : Bool → Bool → Bool)
    (part : Lexeme → List Octets → Judging (Bool × List Octets)) :
    Nat → Lexeme → List Octets → Judging (Bool × List Octets)
  | 0, first, arguments => part first arguments
  | n + 1, first, arguments => do
    let (truth, last) ← part first arguments
    if lexeme (last.drop 1) = .sign sign then
      let rest := last.drop 2
      let (more, end_) ← joinedBy sign join part n (lexeme rest) rest
      return (join truth more, end_)
    return (truth, last)

/-- The truth of a condition whose parentheses have a given depth. -/
def condition (fs : FileSystem) : Nat → Lexeme → List Octets → Judging (Bool × List Octets)
  | 0, _, arguments => return (false, arguments)
  | n + 1, first, arguments =>
    let whole := condition fs n
    joinedBy .disjunction (· || ·) (joinedBy .conjunction (· && ·) (negation fs whole (n + 1)) n) n
      first arguments

/-- The truth of a whole list of arguments, read from the beginning. -/
def judgeWith (fs : FileSystem) (first : Lexeme) (arguments : List Octets) : Judging Bool := do
  let (truth, last) ← condition fs (arguments.length + 2) first arguments
  match last with
  | a :: _ :: _ =>
    throw ((if a.isEmpty then [] else a ++ wording ": ") ++ wording "unexpected operator")
  | _ => return truth

/-- The truth of a list of arguments; lists of three and four are read by their form. -/
def judge (fs : FileSystem) : Nat → List Octets → Judging Bool
  | 0, _ => return false
  | _, [] => return false
  | n + 1, arguments =>
    let inParentheses := arguments.head? == some ['('] && arguments.getLast? == some [')']
    let byForm : Judging Bool :=
      if inParentheses then
        let inner := (arguments.drop 1).dropLast
        judgeWith fs (lexeme inner) inner
      else if arguments.head? == some ['!'] then do return !(← judge fs n (arguments.drop 1))
      else judgeWith fs (lexeme arguments) arguments
    match arguments with
    | [_, sign, _] =>
      if conditionSign? sign = some .binary then judgeWith fs .operand arguments else byForm
    | [_, _, _, _] => byForm
    | _ => judgeWith fs (lexeme arguments) arguments

end SchemaTypings.Shell
