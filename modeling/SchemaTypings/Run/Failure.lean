import SchemaTypings.Options.Reading
import SchemaTypings.Run.Toolbox
import SchemaTypings.Schema.Fault

/-!
# Failures of runs

Why a run fails: the schema text is no JSON, the schema is malformed, a program does not take its
input, or compiling, formatting, writing or reading the options fails.  `Failure.message` words
each of them.
-/

namespace SchemaTypings.Run

open SchemaTypings.Text

/-- What is added to the wording when a path cannot be one because of a zero byte. -/
def pathNote (path : String) : String :=
  if FileSystem.hasZeroByte path then ": file name contained an unexpected NUL byte" else ""

/-- What is added to the wording when a program cannot be started because of a zero byte. -/
def commandNote (command : List String) : String :=
  if command.any FileSystem.hasZeroByte then ": nul byte found in provided data" else ""

/-- Why there is no compiled schema. -/
inductive CompilerProblem where
  /-- The file of the schema cannot be read. -/
  | unreadable (path : String)
  /-- The compiler cannot be run on the model. -/
  | notRunnable (program model : String)
  /-- The compiler reports a failure. -/
  | failed (program model report : String)
  /-- What the compiler wrote is no JSON. -/
  | invalidOutput
  /-- The compiled schema has no object of definitions. -/
  | noDefinitions
  deriving DecidableEq, Repr

/-- The wording of a problem with the compiler. -/
def CompilerProblem.message : CompilerProblem → String
  | unreadable path => "failed to read '" ++ path ++ "'" ++ pathNote path
  | notRunnable program model =>
    "failed to run '" ++ program ++ "'; make sure it is installed and on PATH" ++
      commandNote [program, model]
  | failed program model report => "'" ++ program ++ " compile " ++ model ++ "' failed: " ++ report
  | invalidOutput => "invalid compiler output"
  | noDefinitions => "compiled schema has no 'definitions' object"

/-- Why a text cannot be formatted. -/
inductive FormatProblem where
  /-- No program is named. -/
  | noProgram
  /-- The formatter cannot be run with its arguments. -/
  | notRunnable (program : String) (arguments : List String)
  /-- The formatter reports a failure. -/
  | failed (program : String) (ending : Ending) (report : String)
  /-- What the formatter wrote is no text. -/
  | notText (program : String) (problem : Utf8.Problem)
  deriving DecidableEq, Repr

/-- The wording of a problem with the formatter. -/
def FormatProblem.message : FormatProblem → String
  | noProgram => "formatter command is empty"
  | notRunnable program arguments =>
    "failed to run '" ++ program ++ "'" ++ commandNote (program :: arguments)
  | failed program ending report =>
    "'" ++ program ++ "' exited with " ++ ending.message ++ ": " ++ report
  | notText program problem => "'" ++ program ++ "' produced invalid UTF-8: " ++ problem.message

/-- Why a file cannot be written. -/
inductive OutputProblem where
  /-- The output directory is none. -/
  | notADirectory (path : String)
  /-- There can be no file at the path. -/
  | unwritable (path : String)
  deriving DecidableEq, Repr

/-- The wording of a problem with the output. -/
def OutputProblem.message : OutputProblem → String
  | notADirectory path => "'" ++ path ++ "' is not an existing directory"
  | unwritable path => "failed to write '" ++ path ++ "'" ++ pathNote path

/-- Why a run fails. -/
inductive Failure where
  | notJson
  /-- A program has stopped reading what it is handed. -/
  | brokenPipe
  | schema (fault : Schema.Fault)
  | compiler (problem : CompilerProblem)
  | format (problem : FormatProblem)
  | output (problem : OutputProblem)
  | options (problem : Options.Problem)
  deriving DecidableEq, Repr

/-- The wording of a failure. -/
def Failure.message : Failure → String
  | notJson => "json error"
  | brokenPipe => "io error"
  | schema fault =>
    if fault.isMalformedDefinition then "malformed definition: " ++ fault.message
    else "schema error: " ++ fault.message
  | compiler problem => "compiler error: " ++ problem.message
  | format problem => "format error: " ++ problem.message
  | output problem => "output error: " ++ problem.message
  | options problem => "config error: " ++ problem.message

end SchemaTypings.Run
