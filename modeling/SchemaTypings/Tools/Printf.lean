import SchemaTypings.Tools.Directive
import SchemaTypings.Tools.Flags

/-!
# Writing arguments

`echo` writes its arguments on a line; `printf` writes them as a format says, which is used again
until all arguments are written.

This belongs to the outer layer, which only runs programs; no result depends on it.
-/

namespace SchemaTypings.Tools

open SchemaTypings.Text

/-! ### Escapes -/

/-- The character that a letter after a backslash stands for. -/
def escapedControl? : Char → Option Char
  | 'a' => some '\x07'
  | 'b' => some '\x08'
  | 'e' => some '\x1b'
  | 'f' => some '\x0c'
  | 'n' => some '\n'
  | 'r' => some '\r'
  | 't' => some '\t'
  | 'v' => some '\x0b'
  | '\\' => some '\\'
  | _ => none

/-- The character that at most so many digits of a base stand for, and what follows them. -/
def readCode (base most : Nat) (text : Octets) : Char × Octets :=
  let digits := (text.take most).takeWhile fun c => (digitIn? base c).isSome
  let code := digits.foldl (fun n c => base * n + (digitIn? base c).getD 0) 0
  (Char.ofNat (code % 256), text.drop digits.length)

/-- Which codes escapes may hold: hexadecimal ones, and octal ones after a zero of their own. -/
structure EscapeStyle where
  hexadecimal : Bool
  zeroFirst : Bool

/-- What a text with escapes stands for, and whether writing ends with it; what was read so far
comes last first. -/
def unescape (style : EscapeStyle) : Nat → Octets → Octets → Octets × Bool
  | 0, written, _ => (written.reverse, false)
  | _, written, [] => (written.reverse, false)
  | n + 1, written, '\\' :: c :: rest =>
    if c = 'c' then (written.reverse, true)
    else if let some control := escapedControl? c then unescape style n (control :: written) rest
    else if style.hexadecimal && c = 'x' && ((rest.head?.bind (digitIn? 16)).isSome) then
      let (code, after) := readCode 16 2 rest
      unescape style n (code :: written) after
    else if style.zeroFirst && c = '0' then
      let (code, after) := readCode 8 3 rest
      unescape style n (code :: written) after
    else if (digitIn? 8 c).isSome then
      let (code, after) := readCode 8 3 (c :: rest)
      unescape style n (code :: written) after
    else unescape style n (c :: '\\' :: written) rest
  | n + 1, written, c :: rest => unescape style n (c :: written) rest

/-- What a text with escapes stands for. -/
def unescaped (style : EscapeStyle) (text : Octets) : Octets × Bool :=
  unescape style (text.length + 1) [] text

/-! ### Writing a line -/

/-- How a line is written. -/
structure EchoStyle where
  endsLine : Bool := true
  escapes : Bool := false

/-- The style that letters ask for, if they all mean something. -/
def EchoStyle.after? (style : EchoStyle) : Octets → Option EchoStyle
  | [] => some style
  | 'n' :: rest => EchoStyle.after? { style with endsLine := false } rest
  | 'e' :: rest => EchoStyle.after? { style with escapes := true } rest
  | 'E' :: rest => EchoStyle.after? { style with escapes := false } rest
  | _ => none

/-- Takes the flags off the arguments. -/
def echoArguments (style : EchoStyle) : List Octets → EchoStyle × List Octets
  | ('-' :: c :: letters) :: rest =>
    match style.after? (c :: letters) with
    | some next => echoArguments next rest
    | none => (style, ('-' :: c :: letters) :: rest)
  | arguments => (style, arguments)

/-- Writes the arguments on a line. -/
def echo : Tool := fun arguments => do
  let (style, rest) := echoArguments {} arguments
  let line := [' '].intercalate rest
  if style.escapes then
    let (text, ends) := unescaped ⟨true, true⟩ line
    emit (if ends || !style.endsLine then text else text ++ ['\n'])
  else emit (if style.endsLine then line ++ ['\n'] else line)

/-! ### Writing by a format -/

/-- Writing by a format under way: the arguments left, and whether it has come to its end. -/
structure PrintState where
  arguments : List Octets
  ended : Bool := false

/-- A step of writing by a format. -/
abbrev Printing := StateT PrintState Work

/-- The next argument, if there is one. -/
def nextArgument? : Printing (Option Octets) :=
  modifyGet fun st => match st.arguments with
    | [] => (none, st)
    | a :: rest => (some a, { st with arguments := rest })

/-- The next argument as a number; what is wrong with it is complained of. -/
def nextNumber (isSigned : Bool) : Printing Int := do
  match ← nextArgument? with
  | none => return 0
  | some a =>
    let numeral := Numeral.ofText isSigned a
    let problem? :=
      if numeral.isMissing then some "expected a numeric value"
      else if numeral.isPartial then some "value not completely converted"
      else if numeral.isTooGreat then some "Numerical result out of range"
      else none
    if let some problem := problem? then
      fail 1 (wording "printf: " ++ quoted a ++ wording (": " ++ problem))
    return numeral.value

/-- The number of an extent: the flags may change by a negative one. -/
def extentNumber : Extent → Printing (Option Int)
  | .missing => return none
  | .given n => return some n
  | .argument => return some (← nextNumber true)

/-- Writes an argument by a directive. -/
def printDirective (d : Directive) : Printing Unit := do
  let width := (← extentNumber d.width).getD 0
  let precision := ((← extentNumber d.precision).filter fun n => 0 ≤ n).map Int.toNat
  let layout : Layout := ⟨if width < 0 then '-' :: d.flags else d.flags, width.natAbs, precision⟩
  match d.conversion with
  | some 's' => emit (layout.ofText ((← nextArgument?).getD []))
  | some 'c' => emit (layout.padded (((← nextArgument?).map (·.take 1)).getD []))
  | some 'b' =>
    let (text, ends) := unescaped ⟨true, true⟩ ((← nextArgument?).getD [])
    emit (layout.ofText text)
    if ends then modify fun st => { st with ended := true }
  | some 'q' =>
    let a := (← nextArgument?).getD []
    emit (layout.ofText (shownName a))
  | some 'd' | some 'i' => emit (layout.ofInteger (← nextNumber true))
  | some c =>
    if "ouxX".toList.contains c then
      emit (layout.ofNatural c (← nextNumber false).toNat)
    else refuseDirective
  | none => refuseDirective
where
  /-- Complains of a directive and ends. -/
  refuseDirective : Printing Unit := do
    fail 1 (wording "printf: " ++ d.text ++ wording ": invalid conversion specification")
    modify fun st => { st with ended := true }

/-- Writes by a format once. -/
def printOnce : Nat → Octets → Printing Unit
  | 0, _ => return
  | _, [] => return
  | n + 1, '%' :: '%' :: rest => do
    emit ['%']
    printOnce n rest
  | n + 1, '%' :: rest => do
    let (directive, after) := readDirective rest
    printDirective directive
    unless (← get).ended do printOnce n after
  | n + 1, '\\' :: c :: rest => do
    let taken := if (digitIn? 8 c).isSome then 4 else if c = 'x' then 4 else 2
    let escape := ('\\' :: c :: rest).take taken
    if c = '"' then
      emit ['"']
      printOnce n rest
    else if c = 'x' && !((rest.head?.bind (digitIn? 16)).isSome) then
      fail 1 (wording "printf: missing hexadecimal number in escape")
      modify fun st => { st with ended := true }
    else
      let used := match c with
        | 'x' => 2 + ((escape.drop 2).takeWhile fun d => (digitIn? 16 d).isSome).length
        | _ =>
          if (digitIn? 8 c).isSome then
            1 + ((escape.drop 1).takeWhile fun d => (digitIn? 8 d).isSome).length
          else 2
      let (text, ends) := unescaped ⟨true, false⟩ (escape.take used)
      emit text
      if ends then modify fun st => { st with ended := true }
      else printOnce n (('\\' :: c :: rest).drop used)
  | n + 1, text => do
    let plain := text.takeWhile fun c => c != '%' && c != '\\'
    if plain.isEmpty then
      emit (text.take 1)
      printOnce n (text.drop 1)
    else
      emit plain
      printOnce n (text.drop plain.length)

/-- Writes by a format until all arguments are written. -/
def printAll (format : Octets) : Nat → Printing Unit
  | 0 => return
  | n + 1 => do
    let before := (← get).arguments.length
    printOnce (format.length + 1) format
    let st ← get
    if st.ended || st.arguments.isEmpty then return
    if st.arguments.length = before then
      let first := st.arguments.headD []
      complain (wording "printf: warning: ignoring excess arguments, starting with " ++
        quoted first ++ ['\n'])
    else printAll format n

/-- Writes arguments by a format. -/
def printf : Tool := fun arguments => do
  let given := if arguments.head? == some ['-', '-'] then arguments.drop 1 else arguments
  match given with
  | [] => failUsage 1 "printf" (wording "missing operand")
  | format :: rest => discard ((printAll format (rest.length + 1)).run { arguments := rest })

end SchemaTypings.Tools
