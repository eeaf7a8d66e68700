import SchemaTypings.Tools.CharacterClass
import SchemaTypings.Tools.Flags

/-!
# Concatenation

`cat` writes the files that it is given, or its input, one after another.  On request it numbers
lines, leaves out blank lines that repeat, marks line ends and shows what is not printable.

This belongs to the outer layer, which only runs programs; no result depends on it.
-/

namespace SchemaTypings.Tools

open SchemaTypings.Run SchemaTypings.Text

/-- How `cat` shows what it writes. -/
structure CatStyle where
  numbers : Bool
  /-- Whether blank lines have no number. -/
  numbersFilled : Bool
  squeezes : Bool
  marksEnds : Bool
  showsTabs : Bool
  showsControls : Bool
  deriving DecidableEq, Repr

namespace CatStyle

/-- The style that flags ask for. -/
def ofArguments (given : List Argument) : CatStyle :=
  let has := hasFlag given
  { numbers := has 'n' || has 'b'
    numbersFilled := has 'b'
    squeezes := has 's'
    marksEnds := has 'E' || has 'e' || has 'A'
    showsTabs := has 'T' || has 't' || has 'A'
    showsControls := has 'v' || has 'e' || has 't' || has 'A' }

/-- Whether all is written as it is. -/
def isPlain (style : CatStyle) : Bool :=
  !(style.numbers || style.squeezes || style.marksEnds || style.showsTabs || style.showsControls)

/-- An octet below 128 with a caret for a control character. -/
def shownAscii (c : Char) : Octets :=
  if c.toNat < 32 then ['^', Char.ofNat (c.toNat + 64)]
  else if c.toNat = 127 then ['^', '?']
  else [c]

/-- An octet as it is shown. -/
def shown (style : CatStyle) (c : Char) : Octets :=
  if c = '\t' then if style.showsTabs then ['^', 'I'] else ['\t']
  else if !style.showsControls then [c]
  else if c.toNat < 128 then shownAscii c
  else ['M', '-'] ++ shownAscii (Char.ofNat (c.toNat - 128))

end CatStyle

/-- Where `cat` stands: the number of the last line with one, and how many line ends have just been
seen. -/
structure CatState where
  number : Nat
  ends : Nat
  deriving DecidableEq, Repr

/-- A number before its line. -/
def lineNumber (n : Nat) : Octets :=
  List.replicate (6 - (decimal n).length) ' ' ++ decimal n ++ ['\t']

/-- What is written for an octet that is followed by others, and the state after it. -/
def CatStyle.step (style : CatStyle) (st : CatState) (c : Char) (next? : Option Char) :
    Octets × CatState :=
  if c = '\n' then
    if st.ends ≥ 2 && style.squeezes then ([], st)
    else
      let numbered := st.ends ≥ 1 && style.numbers && !style.numbersFilled
      let number := if numbered then st.number + 1 else st.number
      ((if numbered then lineNumber number else []) ++ (if style.marksEnds then ['$'] else []) ++
        ['\n'], ⟨number, st.ends + 1⟩)
  else
    let numbered := st.ends ≥ 1 && style.numbers
    let number := if numbered then st.number + 1 else st.number
    ((if numbered then lineNumber number else []) ++
      (if c = '\r' && style.marksEnds && next? = some '\n' then ['^', 'M'] else style.shown c),
      ⟨number, 0⟩)

/-- What is written for octets, last first, and the state after them. -/
def CatStyle.run (style : CatStyle) (st : CatState) (written : Octets) : Octets → Octets × CatState
  | [] => (written, st)
  | c :: rest =>
    let (shown, next) := style.step st c rest.head?
    style.run next (shown.reverse ++ written) rest

/-- Writes the octets of one source. -/
def catOctets (style : CatStyle) (st : CatState) (octets : Octets) : Work CatState := do
  if style.isPlain then
    emit octets
    return st
  let (written, next) := style.run st [] octets
  emit written.reverse
  return next

/-- Whether a path leads to the very file that the output goes to. -/
def isTarget (s : Session) (path : Octets) : Bool :=
  match s.target, s.files.filePlace (Octets.text path) with
  | some target, .ok place => target == place
  | _, _ => false

/-- Writes one source: the input or a file. -/
def catSource (style : CatStyle) (st : CatState) (source : Octets) : Work CatState := do
  if source = ['-'] then
    catOctets style st (← takeInput)
  else
    match ← readFile source with
    | .error problem =>
      failOn "cat" source problem
      return st
    | .ok octets =>
      if isTarget (← get) source && !octets.isEmpty then
        fail 1 (wording "cat: " ++ shownName source ++ wording ": input file is output file")
        return st
      else catOctets style st octets

/-- Writes source after source. -/
def catSources (style : CatStyle) (st : CatState) : List Octets → Work Unit
  | [] => return
  | source :: rest => do
    let next ← catSource style st source
    catSources style next rest

/-- The flags of `cat`. -/
def catFlags : FlagSet where
  flags := [.of 'A' "show-all", .of 'b' "number-nonblank", .ofLetter 'e', .of 'E' "show-ends",
    .of 'n' "number", .of 's' "squeeze-blank", .ofLetter 't', .of 'T' "show-tabs", .ofLetter 'u',
    .of 'v' "show-nonprinting"]

/-- Concatenates files. -/
def cat : Tool := fun arguments =>
  withArguments "cat" catFlags arguments fun given => do
    let sources := operands given
    catSources (.ofArguments given) ⟨0, 1⟩ (if sources.isEmpty then [['-']] else sources)

end SchemaTypings.Tools
