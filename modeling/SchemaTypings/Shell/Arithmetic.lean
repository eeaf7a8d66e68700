import SchemaTypings.Shell.Machine

/-!
# Arithmetic of the shell

Expressions over 64-bit integers, with variables that can be read and assigned.  An expression is
cut into tokens, read by the strength of its operators and then evaluated; the side of a choice or
of a logical operator that does not matter is not evaluated.

This belongs to the outer layer, which only runs programs; no result depends on it.
-/

namespace SchemaTypings.Shell

open SchemaTypings.Text SchemaTypings.Tools

/-- An operator with two sides. -/
inductive Operator where
  | multiply | divide | remainder
  | add | subtract
  | shiftLeft | shiftRight
  | less | lessOrEqual | greater | greaterOrEqual
  | equal | different
  | bitAnd
  | bitXor
  | bitOr
  deriving DecidableEq, Repr

/-- An expression. -/
inductive Expression where
  | number (n : Int)
  | name (name : Octets)
  | negative (e : Expression)
  | isZero (e : Expression)
  | complement (e : Expression)
  | binary (operator : Operator) (left right : Expression)
  | both (left right : Expression)
  | either (left right : Expression)
  | choice (test left right : Expression)
  | assignment (name : Octets) (operator : Option Operator) (value : Expression)

/-! ### Numbers -/

/-- An integer brought into the range of 64 bits. -/
def wrapped (n : Int) : Int := Int.bmod n 18446744073709551616

/-- The value of a digit, if it is one of a base. -/
def digitValue? (base : Nat) (c : Char) : Option Nat :=
  let value? :=
    if isDigit c then some (c.toNat - 48)
    else if 'a' ≤ c ∧ c ≤ 'f' then some (c.toNat - 87)
    else if 'A' ≤ c ∧ c ≤ 'F' then some (c.toNat - 55)
    else none
  value?.filter fun v => v < base

/-- The number that digits of a base spell at the start of a text, kept below the greatest integer,
and what follows them. -/
def readDigits (base : Nat) (text : Octets) : Nat × Octets :=
  let digits := text.takeWhile fun c => (digitValue? base c).isSome
  let value := digits.foldl (fun n c => base * n + (digitValue? base c).getD 0) 0
  (min value 9223372036854775807, text.drop digits.length)

/-- The number at the start of a text that starts with a digit: hexadecimal after `0x`, octal after
`0`, else decimal. -/
def readNumber (text : Octets) : Nat × Octets :=
  match text with
  | '0' :: x :: d :: rest =>
    if (x = 'x' ∨ x = 'X') ∧ (digitValue? 16 d).isSome then readDigits 16 (d :: rest)
    else readDigits 8 text
  | '0' :: _ => readDigits 8 text
  | _ => readDigits 10 text

/-- The integer that the value of a variable spells; nothing spells zero. -/
def integer? (text : Octets) : Option Int :=
  match text.dropWhile isSpace with
  | [] => some 0
  | first :: rest =>
    let digits := if first = '-' ∨ first = '+' then rest else first :: rest
    match digits with
    | [] => none
    | d :: _ =>
      if isDigit d then
        let (value, after) := readNumber digits
        if after.all isSpace then some (if first = '-' then -value else value) else none
      else none

/-- The decimal digits of an integer, after a hyphen if it is negative. -/
def integerText (n : Int) : Octets := (toString n).toList

/-! ### Tokens -/

/-- A token of an expression. -/
inductive ExpressionToken where
  | number (n : Nat)
  | name (name : Octets)
  | sign (text : String)
  /-- What no expression contains. -/
  | stray
  deriving DecidableEq, Repr

/-- The signs, longer ones first. -/
def signs : List String :=
  ["<<=", ">>=", "<<", ">>", "<=", ">=", "==", "!=", "&&", "||", "+=", "-=", "*=", "/=", "%=",
    "&=", "^=", "|=", "+", "-", "*", "/", "%", "<", ">", "&", "^", "|", "!", "~", "?", ":", "=",
    "(", ")"]

/-- The tokens of an expression; those found so far come last first. -/
def expressionTokens : Nat → List ExpressionToken → Octets → List ExpressionToken
  | 0, found, _ => found.reverse
  | _, found, [] => found.reverse
  | n + 1, found, c :: rest =>
    if c = ' ' ∨ c = '\t' ∨ c = '\n' then expressionTokens n found rest
    else if isDigit c then
      let (value, after) := readNumber (c :: rest)
      expressionTokens n (.number value :: found) after
    else if startsName c then
      let name := (c :: rest).takeWhile continuesName
      expressionTokens n (.name name :: found) ((c :: rest).drop name.length)
    else
      match signs.find? fun s => s.toList.isPrefixOf (c :: rest) with
      | some s => expressionTokens n (.sign s :: found) ((c :: rest).drop s.length)
      | none => (.stray :: found).reverse

/-! ### Reading -/

/-- The operator of a sign, with its strength. -/
def operator? : String → Option (Operator × Nat)
  | "*" => some (.multiply, 8)
  | "/" => some (.divide, 8)
  | "%" => some (.remainder, 8)
  | "+" => some (.add, 7)
  | "-" => some (.subtract, 7)
  | "<<" => some (.shiftLeft, 6)
  | ">>" => some (.shiftRight, 6)
  | "<" => some (.less, 5)
  | "<=" => some (.lessOrEqual, 5)
  | ">" => some (.greater, 5)
  | ">=" => some (.greaterOrEqual, 5)
  | "==" => some (.equal, 4)
  | "!=" => some (.different, 4)
  | "&" => some (.bitAnd, 3)
  | "^" => some (.bitXor, 2)
  | "|" => some (.bitOr, 1)
  | _ => none

/-- The operator of a sign that assigns. -/
def assignmentSign? (text : String) : Option (Option Operator) :=
  if text = "=" then some none
  else if ["*=", "/=", "%=", "+=", "-=", "<<=", ">>=", "&=", "^=", "|="].contains text then
    some ((operator? (String.ofList text.toList.dropLast)).map Prod.fst)
  else none

/-- A step of reading an expression. -/
abbrev ExpressionReading := StateT (List ExpressionToken) (Except String)

/-- Takes the next token if it is a given sign. -/
def takeSign (text : String) : ExpressionReading Bool := do
  match ← get with
  | .sign s :: rest =>
    if s = text then
      set rest
      return true
    return false
  | _ => return false

/-- Reads a number, a variable or an expression in parentheses, with the signs before it. -/
def readOperand (whole : ExpressionReading Expression) : Nat → ExpressionReading Expression
  | 0 => throw "expecting primary"
  | n + 1 => do
    match ← get with
    | .number value :: rest =>
      set rest
      return .number value
    | .name name :: rest =>
      set rest
      return .name name
    | .sign s :: rest =>
      set rest
      match s with
      | "(" =>
        let e ← whole
        unless ← takeSign ")" do throw "expecting ')'"
        return e
      | "+" => readOperand whole n
      | "-" => return .negative (← readOperand whole n)
      | "!" => return .isZero (← readOperand whole n)
      | "~" => return .complement (← readOperand whole n)
      | _ => throw "expecting primary"
    | _ => throw "expecting primary"

/-- Reads the operators that are strong enough, with their right sides. -/
def readOperators (operand : ExpressionReading Expression) (least : Nat) :
    Nat → Expression → ExpressionReading Expression
  | 0, left => return left
  | n + 1, left => do
    match ← get with
    | .sign s :: rest =>
      match operator? s with
      | some (operator, strength) =>
        if strength < least then return left
        set rest
        let right ← readOperators operand (strength + 1) n (← operand)
        readOperators operand least n (.binary operator left right)
      | none => return left
    | _ => return left

/-- Reads expressions that a sign joins. -/
def readJoined (sign : String) (join : Expression → Expression → Expression)
    (part : ExpressionReading Expression) : Nat → ExpressionReading Expression
  | 0 => part
  | n + 1 => do
    let left ← part
    if ← takeSign sign then return join left (← readJoined sign join part n)
    return left

/-- Reads an expression of a given depth. -/
def readExpression : Nat → ExpressionReading Expression
  | 0 => throw "expecting primary"
  | n + 1 => do
    match ← get with
    | .name name :: .sign s :: rest =>
      match assignmentSign? s with
      | some operator =>
        set rest
        return .assignment name operator (← readExpression n)
      | none => readChoice n n
    | _ => readChoice n n
where
  /-- Reads a choice, or an expression without one. -/
  readChoice (depth : Nat) : Nat → ExpressionReading Expression
    | 0 => throw "expecting primary"
    | n + 1 => do
      let operand := readOperand (readExpression depth) (n + 1)
      let simple := do readOperators operand 1 (n + 1) (← operand)
      let test ← readJoined "||" .either (readJoined "&&" .both simple n) n
      unless ← takeSign "?" do return test
      let left ← readExpression depth
      unless ← takeSign ":" do throw "expecting ':'"
      return .choice test left (← readChoice depth n)

/-- The expression that a text spells. -/
def expressionOf (text : Octets) : Except String Expression := do
  let tokens := expressionTokens (text.length + 1) [] text
  let (e, rest) ← (readExpression (tokens.length + 2)).run tokens
  if rest.isEmpty then return e else throw "expecting EOF"

/-! ### Evaluating -/

/-- Complains of an expression. -/
def refuseExpression {α : Type} (text : Octets) (problem : String) : Script α :=
  fault (wording ("arithmetic expression: " ++ problem ++ ": \"") ++ text ++ ['"'])

/-- The truth of a condition as a number. -/
def truth (b : Bool) : Int := if b then 1 else 0

/-- The bits of an integer as those of a natural number. -/
def bitsOf (n : Int) : Nat := (Int.emod n 18446744073709551616).toNat

/-- What an operator makes of its sides; there is nothing if it divides by zero. -/
def Operator.apply? (operator : Operator) (a b : Int) : Option Int :=
  match operator with
  | .multiply => some (wrapped (a * b))
  | .divide => if b = 0 then none else some (wrapped (Int.tdiv a b))
  | .remainder => if b = 0 then none else some (Int.tmod a b)
  | .add => some (wrapped (a + b))
  | .subtract => some (wrapped (a - b))
  | .shiftLeft => some (wrapped (a * Nat.shiftLeft 1 (Int.emod b 64).toNat))
  | .shiftRight => some (Int.fdiv a (Nat.shiftLeft 1 (Int.emod b 64).toNat))
  | .less => some (truth (a < b))
  | .lessOrEqual => some (truth (a ≤ b))
  | .greater => some (truth (a > b))
  | .greaterOrEqual => some (truth (a ≥ b))
  | .equal => some (truth (a = b))
  | .different => some (truth (a ≠ b))
  | .bitAnd => some (wrapped (bitsOf a &&& bitsOf b))
  | .bitXor => some (wrapped (bitsOf a ^^^ bitsOf b))
  | .bitOr => some (wrapped (bitsOf a ||| bitsOf b))

/-- The value of a variable as an integer. -/
def integerOf (name : Octets) : Script Int := do
  match ← valueOf? name with
  | none =>
    if ← hasOption 'u' then fault (name ++ wording ": parameter not set")
    return 0
  | some text =>
    match integer? text with
    | some n => return n
    | none => fault (wording "Illegal number: " ++ text)

/-- The value of an expression, which stands in a given text. -/
def evaluateExpression (text : Octets) : Expression → Script Int
  | .number n => return n
  | .name name => integerOf name
  | .negative e => return wrapped (-(← evaluateExpression text e))
  | .isZero e => return truth ((← evaluateExpression text e) = 0)
  | .complement e => return -(← evaluateExpression text e) - 1
  | .binary operator left right => do
    let a ← evaluateExpression text left
    let b ← evaluateExpression text right
    match operator.apply? a b with
    | some n => return n
    | none => refuseExpression text "division by zero"
  | .both left right => do
    if (← evaluateExpression text left) = 0 then return 0
    return truth ((← evaluateExpression text right) ≠ 0)
  | .either left right => do
    if (← evaluateExpression text left) ≠ 0 then return 1
    return truth ((← evaluateExpression text right) ≠ 0)
  | .choice test left right => do
    if (← evaluateExpression text test) ≠ 0 then evaluateExpression text left
    else evaluateExpression text right
  | .assignment name operator? e => do
    let value ← evaluateExpression text e
    let result ← match operator? with
      | none => pure value
      | some operator =>
        match operator.apply? (← integerOf name) value with
        | some n => pure n
        | none => refuseExpression text "division by zero"
    assign name (integerText result)
    return result

/-- The value of the expression that a text spells. -/
def arithmetic (text : Octets) : Script Int := do
  match expressionOf text with
  | .ok e => evaluateExpression text e
  | .error problem => refuseExpression text problem

end SchemaTypings.Shell
