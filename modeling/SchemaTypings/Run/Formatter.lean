import SchemaTypings.Options.Reading
import SchemaTypings.Run.Compiler

/-!
# Formatting files

A formatter turns the text of a generated file into the text that is written, or fails.  One that
is a program is given the text as its input, has to take it, to succeed and to write a text; like
every program it sees the files and may change them.
-/

namespace SchemaTypings.Run

open SchemaTypings.Text

/-- A step from the text of a file to the text that is written. -/
abbrev Formatter := String → Running String

namespace Formatter

/-- The formatter that is a function and leaves the files alone. -/
def ofFunction (f : String → Except Failure String) : Formatter := fun text => ofResult (f text)

/-- The formatter that changes nothing. -/
def unchanged : Formatter := ofFunction .ok

/-- The text that a program has made of one of a given size. -/
def formatted (program : String) (arguments : List String) (size : Nat) :
    Option Outcome → Except Failure String
  | none => .error (.format (.notRunnable program arguments))
  | some outcome =>
    if outcome.refuses size then .error .brokenPipe
    else if outcome.ending.isSuccess then
      match Utf8.decode outcome.output with
      | .ok text => .ok text
      | .error problem => .error (.format (.notText program problem))
    else .error (.format (.failed program outcome.ending (streamText outcome.errors)))

/-- The formatter that is a program. -/
def ofProgram (tools : Toolbox) (program : String) (arguments : List String) : Formatter :=
  fun text => do
    let outcome ← start tools program arguments (bytesOf text)
    ofResult (formatted program arguments text.utf8ByteSize outcome)

/-- The formatter of a command: a program and its arguments. -/
def ofCommand (tools : Toolbox) : List String → Except Failure Formatter
  | [] => .error (.format .noProgram)
  | program :: arguments => .ok (ofProgram tools program arguments)

/-- The formatter that options ask for. -/
def ofOptions (tools : Toolbox) (options : Options) : Except Failure Formatter :=
  if options.format then ofCommand tools options.formatterCommand else .ok unchanged

end Formatter

end SchemaTypings.Run
