import SchemaTypings.Shell.Machine
import SchemaTypings.Tools.Printf

/-!
# Writing in the shell

The shell writes lines and formats by itself.  Its `echo` knows the escapes without being asked, and
its `printf` repeats a format as long as it takes arguments.

This belongs to the outer layer, which only runs programs; no result depends on it.
-/

namespace SchemaTypings.Shell

open SchemaTypings.Text SchemaTypings.Tools

/-- The escapes of the shell. -/
def shellEscapes : EscapeStyle := ⟨false, true⟩

/-- What `echo` writes after its flag. -/
def echoed (endsLine : Bool) : List Octets → Octets
  | [] => if endsLine then ['\n'] else []
  | [last] =>
    let (text, ends) := unescaped shellEscapes last
    if ends || !endsLine then text else text ++ ['\n']
  | first :: rest =>
    let (text, ends) := unescaped shellEscapes first
    if ends then text else text ++ ' ' :: echoed endsLine rest

/-- Writes a line. -/
def echoLine (arguments : List Octets) : Script Nat := do
  match arguments with
  | ['-', 'n'] :: rest => writeFor "echo" 0 (echoed false rest)
  | _ => writeFor "echo" 0 (echoed true arguments)

/-- A format under way: the arguments left, what is written, last first, the status, and whether it
has come to its end. -/
structure FormatState where
  arguments : List Octets
  written : List Octets := []
  status : Nat := 0
  ended : Bool := false

/-- A step of writing by a format. -/
abbrev Formatting := StateT FormatState Script

/-- Adds to what is written. -/
def put (text : Octets) : Formatting Unit :=
  modify fun st => { st with written := text :: st.written }

/-- The next argument, if there is one. -/
def formatArgument? : Formatting (Option Octets) :=
  modifyGet fun st => match st.arguments with
    | [] => (none, st)
    | a :: rest => (some a, { st with arguments := rest })

/-- The next argument as a number. -/
def formatNumber (isSigned : Bool) : Formatting Int := do
  match ← formatArgument? with
  | none => return 0
  | some a =>
    let numeral := Numeral.ofText isSigned a
    let problem? :=
      if numeral.isMissing then some "expected numeric value"
      else if numeral.isPartial then some "not completely converted"
      else if numeral.isTooGreat then some "Numerical result out of range"
      else none
    if let some problem := problem? then
      warn (a ++ wording (": " ++ problem))
      modify fun st => { st with status := 1 }
    return numeral.value

/-- The number of an extent. -/
def formatExtent : Extent → Formatting (Option Int)
  | .missing => return none
  | .given n => return some n
  | .argument => return some (← formatNumber true)

/-- Ends a format with an error; what was written before it is kept. -/
def failFormat (message : Octets) : Formatting Unit := do
  write 1 (← get).written.reverse.flatten
  fault message

/-- Writes an argument by a directive. -/
def formatDirective (d : Directive) : Formatting Unit := do
  let width := (← formatExtent d.width).getD 0
  let precision := ((← formatExtent d.precision).filter fun n => 0 ≤ n).map Int.toNat
  let layout : Layout := ⟨if width < 0 then '-' :: d.flags else d.flags, width.natAbs, precision⟩
  match d.conversion with
  | none => failFormat (wording "missing format character")
  | some 's' => put (layout.ofText ((← formatArgument?).getD []))
  | some 'c' =>
    let a := (← formatArgument?).getD []
    put (layout.padded [a.headD (Char.ofNat 0)])
  | some 'b' =>
    let (text, ends) := unescaped shellEscapes ((← formatArgument?).getD [])
    put (layout.ofText text)
    if ends then modify fun st => { st with ended := true }
  | some 'd' | some 'i' => put (layout.ofInteger (← formatNumber true))
  | some c =>
    if "ouxX".toList.contains c then put (layout.ofNatural c (← formatNumber false).toNat)
    else failFormat (d.text ++ wording ": invalid directive")

/-- The character that an escape in a format stands for, and what follows it. -/
def formatEscape (text : Octets) : Octets × Octets :=
  match text with
  | [] => (['\\'], [])
  | c :: rest =>
    if c = 'c' then (['\\'], text)
    else match escapedControl? c with
      | some control => ([control], rest)
      | none =>
        if (digitIn? 8 c).isSome then
          let (code, after) := readCode 8 3 text
          ([code], after)
        else (['\\'], text)

/-- Writes by a format once. -/
def formatOnce : Nat → Octets → Formatting Unit
  | 0, _ => return
  | _, [] => return
  | n + 1, '\\' :: rest => do
    let (text, after) := formatEscape rest
    put text
    formatOnce n after
  | n + 1, '%' :: '%' :: rest => do
    put ['%']
    formatOnce n rest
  | n + 1, '%' :: rest => do
    let (directive, after) := readDirective rest
    formatDirective directive
    unless (← get).ended do formatOnce n after
  | n + 1, text => do
    let plain := text.takeWhile fun c => c != '%' && c != '\\'
    put plain
    formatOnce n (text.drop plain.length)

/-- Writes by a format until all arguments are written. -/
def formatAll (format : Octets) : Nat → Formatting Unit
  | 0 => return
  | n + 1 => do
    let before := (← get).arguments.length
    formatOnce (format.length + 1) format
    let st ← get
    if st.ended || st.arguments.isEmpty || st.arguments.length = before then return
    formatAll format n

/-- Writes arguments by a format. -/
def printFormat (arguments : List Octets) : Script Nat := do
  let given ← match arguments with
    | ['-', '-'] :: rest => pure rest
    | ('-' :: c :: _) :: _ => fault (wording "Illegal option -" ++ [c])
    | _ => pure arguments
  match given with
  | [] => fault (wording "usage: printf format [arg ...]")
  | format :: rest =>
    let (_, st) ← (formatAll format (rest.length + 1)).run { arguments := rest }
    writeFor "printf" st.status st.written.reverse.flatten

end SchemaTypings.Shell
