import SchemaTypings.Decimal.Shortest

/-!
# Numbers of JSON texts

A number written without fraction and exponent that fits 64 bits stays an integer; every other
one, and `-0`, is a binary value: of its digits those are kept whose number fits 64 bits, and their
value is scaled by a power of ten.  `Number.ofLexeme?` reads the number grammar and `Number.text`
writes a number: an integer in plain digits, a binary value by its shortest decimal.
-/

namespace SchemaTypings.Json

open SchemaTypings.Decimal

/-- An integer of 64 bits or a binary floating-point value. -/
inductive Number where
  | integer (value : Int)
  | binary (value : Binary64)
  deriving DecidableEq, Repr, Inhabited

namespace Number

/-- Whether the number is a zero of either kind. -/
def isZero : Number → Bool
  | integer value => value == 0
  | binary value => value.isZero

/-! ### Reading -/

/-- The number that a run of decimal digits denotes. -/
def digitsValue (digits : List Char) : Nat :=
  digits.foldl (fun n c => 10 * n + (c.toNat - '0'.toNat)) 0

/-- Whether a run of digits may stand before the point: one zero, or no zero in front. -/
def isWhole : List Char → Bool
  | [] => false
  | [_] => true
  | first :: _ => first != '0'

/-- The digits after a point, if there is one, and what follows them. -/
def fraction? : List Char → Option (List Char × List Char)
  | '.' :: rest =>
    match rest.takeWhile Char.isDigit with
    | [] => none
    | digits => some (digits, rest.dropWhile Char.isDigit)
  | rest => some ([], rest)

/-- The digits of an exponent with its sign taken off. -/
def unsigned? (digits : List Char) : Option Nat :=
  if digits.isEmpty || !digits.all Char.isDigit then none else some (digitsValue digits)

/-- The exponent that ends a number; none is zero. -/
def exponent? : List Char → Option Int
  | [] => some 0
  | mark :: rest =>
    if mark = 'e' ∨ mark = 'E' then
      match rest with
      | '-' :: digits => (unsigned? digits).map fun n => -(n : Int)
      | '+' :: digits => (unsigned? digits).map fun n => (n : Int)
      | digits => (unsigned? digits).map fun n => (n : Int)
    else none

/-- Adds digits to the end of a number as long as it fits 64 bits: the number, and the digits from
the first one on that does not fit. -/
def appendDigits (kept : Nat) : List Char → Nat × List Char
  | [] => (kept, [])
  | c :: rest =>
    let next := 10 * kept + (c.toNat - '0'.toNat)
    if next < twoTo 64 then appendDigits next rest else (kept, c :: rest)

/-- The binary value of a number with the given digits before and after the point.  Digits of the
whole that are not kept count as tens, digits of the fraction that are kept as tenths. -/
def ofParts? (negative : Bool) (whole fraction : List Char) (exponent : Int) : Option Number :=
  let (kept, beyond) := appendDigits 0 whole
  let (kept, cut) := appendDigits kept fraction
  (Binary64.ofDecimal? negative kept
    (exponent + beyond.length + cut.length - fraction.length)).map binary

/-- A number without fraction and exponent: an integer if it fits, otherwise a binary value. -/
def ofWhole? (negative : Bool) (whole : List Char) : Option Number :=
  let n := digitsValue whole
  if negative = false ∧ n < twoTo 64 then some (integer n)
  else if negative = true ∧ 0 < n ∧ n ≤ twoTo 63 then some (integer (-n))
  else ofParts? negative whole [] 0

/-- The number without its sign: digits, then possibly a fraction and an exponent. -/
def ofUnsigned? (negative : Bool) (body : List Char) : Option Number :=
  let whole := body.takeWhile Char.isDigit
  if isWhole whole then
    match body.dropWhile Char.isDigit with
    | [] => ofWhole? negative whole
    | rest =>
      match fraction? rest with
      | none => none
      | some (fraction, rest) => (exponent? rest).bind (ofParts? negative whole fraction)
  else none

/-- The number that a lexeme denotes, if it is one and not beyond the largest value. -/
def ofLexeme? : List Char → Option Number
  | '-' :: body => ofUnsigned? true body
  | body => ofUnsigned? false body

/-! ### Writing -/

/-- The digits of a natural number. -/
def natText (n : Nat) : List Char := Nat.toDigits 10 n

/-- An integer in plain digits. -/
def intText : Int → List Char
  | .ofNat n => natText n
  | .negSucc n => '-' :: natText (n + 1)

/-- A decimal `digits · 10 ^ power` with `lead` as the power of ten of its first digit: positional
from `1e-5` up to below `1e16` and always with a fraction, otherwise one digit before the point
and a signed exponent. -/
def decimalText (digits : List Char) (lead : Int) : List Char :=
  if -5 ≤ lead ∧ lead ≤ 15 then
    if lead < 0 then
      ['0', '.'] ++ List.replicate (-lead - 1).toNat '0' ++ digits
    else
      let whole := lead.toNat + 1
      let fraction := digits.drop whole
      digits.take whole ++ List.replicate (whole - digits.length) '0' ++ '.' ::
        (if fraction.isEmpty then ['0'] else fraction)
  else
    digits.take 1 ++ (if digits.length ≤ 1 then [] else '.' :: digits.drop 1) ++ 'e' ::
      (if lead < 0 then intText lead else '+' :: intText lead)

/-- A binary value by its shortest decimal. -/
def binaryText (x : Binary64) : List Char :=
  let sign := if x.negative then ['-'] else []
  if x.isZero then sign ++ ['0', '.', '0']
  else
    let (digits, power) := x.shortest
    let text := natText digits
    sign ++ decimalText text (power + text.length - 1)

/-- The text of a number. -/
def text : Number → List Char
  | integer value => intText value
  | binary value => binaryText value

end Number

end SchemaTypings.Json
