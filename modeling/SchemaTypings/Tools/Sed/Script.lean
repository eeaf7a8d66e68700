import SchemaTypings.Tools.RegexReading

/-!
# Editing scripts

A script of the stream editor: commands, each with a guard that selects lines by number, by
expression or by ranges of them.  Blocks are flat: a block knows where it ends.

This belongs to the outer layer, which only runs programs; no result depends on it.
-/

namespace SchemaTypings.Tools.Sed

open SchemaTypings.Text

/-- Lines that are selected; an expression that is missing is the one looked for last. -/
inductive Address where
  | line (number : Nat)
  /-- A line and every so many lines after it. -/
  | every (first step : Nat)
  | last
  | found (pattern : Option Pattern)

/-- Where a range of lines ends. -/
inductive RangeEnd where
  | line (number : Nat)
  | last
  | found (pattern : Option Pattern)
  /-- So many lines after the first one. -/
  | after (count : Nat)
  /-- At the next line whose number is a multiple. -/
  | multiple (number : Nat)

/-- Which lines a command is for. -/
structure Guard where
  first : Option Address := none
  last : Option RangeEnd := none
  negated : Bool := false

/-- A change of case in a replacement. -/
inductive CaseChange where
  | upper
  | lower
  | upperOnce
  | lowerOnce
  | none
  deriving DecidableEq, Repr

/-- A part of a replacement. -/
inductive Part where
  | text (octets : Octets)
  /-- What a group has matched, or all of the match. -/
  | group (index : Nat)
  | change (change : CaseChange)
  deriving DecidableEq, Repr

/-- A substitution. -/
structure Substitution where
  pattern : Option Pattern
  parts : List Part
  /-- The first occurrence that is replaced. -/
  occurrence : Nat := 1
  everywhere : Bool := false
  prints : Bool := false
  file : Option Octets := none

/-- When a branch is taken. -/
inductive BranchCondition where
  | always
  | ifReplaced
  | unlessReplaced
  deriving DecidableEq, Repr

/-- What a command does. -/
inductive Action where
  /-- The beginning of a block; its end is the command of a given number. -/
  | block (stop : Nat)
  | nothing
  | append (text : Octets)
  | insert (text : Octets)
  | change (text : Octets)
  /-- Goes to a label, or to the end without one. -/
  | branch (condition : BranchCondition) (label : Octets)
  | delete
  | deleteFirstLine
  | showName
  | showNumber
  | fetch
  | fetchAppend
  | hold
  | holdAppend
  | exchange
  | list (width : Option Nat)
  | next
  | appendNext
  | print
  | printFirstLine
  /-- Ends with a status, with or without printing. -/
  | quit (status : Nat) (prints : Bool)
  | readFile (path : Octets)
  | readLine (path : Octets)
  | substitute (substitution : Substitution)
  | replaceOctets (pairs : List (Char × Char))
  | write (path : Octets)
  | writeFirstLine (path : Octets)
  | clear

/-- A command. -/
structure Command where
  guard : Guard
  action : Action

/-- A script: its commands, the places of its labels, and whether it asks for silence. -/
structure Script where
  commands : Array Command := #[]
  labels : List (Octets × Nat) := []
  quiet : Bool := false

/-- The file that a command writes to. -/
def Action.file? : Action → Option Octets
  | write path => some path
  | writeFirstLine path => some path
  | substitute s => s.file
  | _ => none

/-- The files that a script writes to. -/
def Script.files (script : Script) : List Octets :=
  (script.commands.toList.filterMap fun c => c.action.file?).eraseDups

/-- The place of a label; without a label it is the end. -/
def Script.target (script : Script) (label : Octets) : Nat :=
  if label.isEmpty then script.commands.size
  else ((script.labels.find? fun entry => entry.1 == label).map Prod.snd).getD script.commands.size

end SchemaTypings.Tools.Sed
