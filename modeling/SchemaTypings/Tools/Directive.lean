import SchemaTypings.Tools.Session

/-!
# Directives of formats

A directive of a format starts with a percent sign and says how an argument is written: with which
flags, how wide at least, how exactly, and as what.

This belongs to the outer layer, which only runs programs; no result depends on it.
-/

namespace SchemaTypings.Tools

open SchemaTypings.Text

/-- A number in a directive. -/
inductive Extent where
  | missing
  | given (n : Nat)
  /-- The number is an argument of its own. -/
  | argument
  deriving DecidableEq, Repr

/-- A directive: its flags, its width, its precision and what it converts to. -/
structure Directive where
  flags : Octets
  width : Extent
  precision : Extent
  conversion : Option Char
  /-- The directive as it is written, with the percent sign. -/
  text : Octets
  deriving Repr

/-- The number that decimal digits spell. -/
def decimalValue (digits : Octets) : Nat :=
  digits.foldl (fun n c => 10 * n + (c.toNat - 48)) 0

/-- The number at the start of a text, if a number is missing there, and what follows. -/
def readExtent (absent : Extent) : Octets → Extent × Octets
  | '*' :: rest => (.argument, rest)
  | text =>
    let digits := text.takeWhile isDecimal
    (if digits.isEmpty then absent else .given (decimalValue digits), text.drop digits.length)
where
  /-- Whether an octet is a decimal digit. -/
  isDecimal (c : Char) : Bool := '0' ≤ c && c ≤ '9'

/-- The directive after a percent sign, and what follows it. -/
def readDirective (text : Octets) : Directive × Octets :=
  let flags := text.takeWhile fun c => "#-+ 0".toList.contains c
  let (width, afterWidth) := readExtent .missing (text.drop flags.length)
  let (precision, rest) := match afterWidth with
    | '.' :: after => readExtent (.given 0) after
    | after => (.missing, after)
  match rest with
  | [] => (⟨flags, width, precision, none, '%' :: text⟩, [])
  | c :: after =>
    (⟨flags, width, precision, some c, '%' :: text.take (text.length - after.length)⟩, after)

/-- How one argument is written: a directive in which all numbers are known. -/
structure Layout where
  flags : Octets
  width : Nat
  precision : Option Nat
  deriving Repr

namespace Layout

/-- Whether a flag is given. -/
def has (l : Layout) (flag : Char) : Bool := l.flags.contains flag

/-- A text brought to the width with spaces. -/
def padded (l : Layout) (text : Octets) : Octets :=
  let spaces := List.replicate (l.width - text.length) ' '
  if l.has '-' then text ++ spaces else spaces ++ text

/-- A text as it is written. -/
def ofText (l : Layout) (text : Octets) : Octets :=
  l.padded (match l.precision with
    | some n => text.take n
    | none => text)

/-- The digits of a number in a base. -/
def digitsIn (base n : Nat) : Octets := Nat.toDigits base n

/-- Digits as they are written after what stands before them. -/
def ofDigits (l : Layout) (start digits : Octets) : Octets :=
  match l.precision with
  | some n => l.padded (start ++ List.replicate (n - digits.length) '0' ++ digits)
  | none =>
    if l.has '0' && !l.has '-' then
      start ++ List.replicate (l.width - start.length - digits.length) '0' ++ digits
    else l.padded (start ++ digits)

/-- The digits of a number, of which there are none for zero with precision zero. -/
def digitsOf (l : Layout) (base n : Nat) : Octets :=
  if n = 0 && l.precision = some 0 then [] else digitsIn base n

/-- An integer as it is written. -/
def ofInteger (l : Layout) (n : Int) : Octets :=
  let start := if n < 0 then ['-'] else if l.has '+' then ['+'] else if l.has ' ' then [' '] else []
  l.ofDigits start (l.digitsOf 10 n.natAbs)

/-- A natural number as it is written by a conversion without sign. -/
def ofNatural (l : Layout) (conversion : Char) (n : Nat) : Octets :=
  match conversion with
  | 'o' =>
    let digits := l.digitsOf 8 n
    l.ofDigits [] (if l.has '#' && digits.head? != some '0' then '0' :: digits else digits)
  | 'x' => l.ofDigits (if l.has '#' && n != 0 then ['0', 'x'] else []) (l.digitsOf 16 n)
  | 'X' =>
    l.ofDigits (if l.has '#' && n != 0 then ['0', 'X'] else [])
      ((l.digitsOf 16 n).map Char.toUpper)
  | _ => l.ofDigits [] (l.digitsOf 10 n)

end Layout

/-! ### Arguments -/

/-- What an argument is as a number: its value, and what is wrong with it. -/
structure Numeral where
  value : Int
  /-- Nothing of the argument was a number. -/
  isMissing : Bool := false
  /-- Something follows the number. -/
  isPartial : Bool := false
  isTooGreat : Bool := false
  deriving Repr

/-- The value of an octet as a digit of a base. -/
def digitIn? (base : Nat) (c : Char) : Option Nat :=
  let value? :=
    if '0' ≤ c ∧ c ≤ '9' then some (c.toNat - 48)
    else if 'a' ≤ c ∧ c ≤ 'f' then some (c.toNat - 87)
    else if 'A' ≤ c ∧ c ≤ 'F' then some (c.toNat - 55)
    else none
  value?.filter fun v => v < base

/-- The base of a number and its digits with what follows them. -/
def baseOf (text : Octets) : Nat × Octets :=
  match text with
  | '0' :: x :: d :: rest =>
    if (x = 'x' ∨ x = 'X') ∧ (digitIn? 16 d).isSome then (16, d :: rest) else (8, text)
  | '0' :: _ => (8, text)
  | _ => (10, text)

/-- What an argument is as a number: signed, or brought into the range without sign. -/
def Numeral.ofText (isSigned : Bool) (text : Octets) : Numeral :=
  match text with
  | [] => { value := 0 }
  | q :: quoted =>
    if q = '"' ∨ q = '\'' then { value := ((quoted.head?.map Char.toNat).getD 0 : Nat) }
    else
      let inner := text.dropWhile fun c => c == ' ' || ('\t' ≤ c && c ≤ '\r')
      let isNegative := inner.head? == some '-'
      let unsigned := if isNegative || inner.head? == some '+' then inner.drop 1 else inner
      let (base, digits) := baseOf unsigned
      let shown := digits.takeWhile fun c => (digitIn? base c).isSome
      let size := shown.foldl (fun n c => base * n + (digitIn? base c).getD 0) 0
      if shown.isEmpty then { value := 0, isMissing := true }
      else
        let isPartial := shown.length < digits.length
        let signed : Int := if isNegative then -size else size
        if isSigned then
          let value := max (-9223372036854775808) (min 9223372036854775807 signed)
          ⟨value, false, isPartial, value ≠ signed⟩
        else if size > 18446744073709551615 then ⟨18446744073709551615, false, isPartial, true⟩
        else ⟨Int.emod signed 18446744073709551616, false, isPartial, false⟩

end SchemaTypings.Tools
