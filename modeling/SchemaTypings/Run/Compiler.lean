import SchemaTypings.Run.Running
import SchemaTypings.Text.Blank

/-!
# Compiling models

A model whose file name ends in `.json` is a compiled schema already; any other one is handed to a
program that writes the compiled schema.  Either way the result has an object of definitions.
-/

namespace SchemaTypings.Run

open SchemaTypings.Json SchemaTypings.Text

/-- The trimmed text of a stream. -/
def streamText (bytes : Bytes) : String := String.ofList (trim (Utf8.lossy bytes).toList)

/-- How a compiled schema is had from a model. -/
inductive Compiler where
  /-- The model is the compiled schema. -/
  | precompiled
  /-- A program compiles the model. -/
  | command (program : String)
  deriving DecidableEq, Repr

namespace Compiler

/-- The compiler of models that are not compiled. -/
def standard : Compiler := command "cds"

/-- The compiler for a model, by its extension in any case. -/
def forModel (path : String) : Compiler :=
  match Path.extension? path with
  | some extension =>
    if extension.toList.map Char.toLower = "json".toList then precompiled else standard
  | none => standard

/-- The value of the model that is a compiled schema. -/
def loadFile (fs : FileSystem) (path : String) : Except Failure Value :=
  match fs.read? path with
  | none => .error (.compiler (.unreadable path))
  | some text =>
    match load? text with
    | none => .error .notJson
    | some value => .ok value

/-- The value that a program has written, if it has succeeded. -/
def loadOutput (program path : String) : Option Outcome → Except Failure Value
  | none => .error (.compiler (.notRunnable program path))
  | some outcome =>
    if outcome.ending.isSuccess then
      match load? (streamText outcome.output) with
      | none => .error (.compiler .invalidOutput)
      | some value => .ok value
    else .error (.compiler (.failed program path (streamText outcome.errors)))

/-- Loads what the compiler has for a model. -/
def load (tools : Toolbox) (path : String) : Compiler → Running Value
  | precompiled => do ofResult (loadFile (← get) path)
  | command program => do
    ofResult (loadOutput program path (← start tools program ["compile", path, "--to", "json"] []))

/-- Accepts a value with an object of definitions. -/
def ensureDefinitions (value : Value) : Except Failure Value :=
  match (value.member? "definitions").bind Value.members? with
  | some _ => .ok value
  | none => .error (.compiler .noDefinitions)

/-- The compiled schema of a model. -/
def compile (compiler : Compiler) (tools : Toolbox) (path : String) : Running Value := do
  ofResult (ensureDefinitions (← compiler.load tools path))

/-- A model that is compiled already is read, and nothing changes. -/
theorem compile_precompiled_on (tools : Toolbox) (path : String) (fs : FileSystem) :
    Running.on (precompiled.compile tools path) fs =
      ((loadFile fs path).bind ensureDefinitions, fs) := by
  simp only [compile, load, Running.on_bind, Running.on_get, Running.on_ofResult]
  cases loadFile fs path <;> rfl

end Compiler

end SchemaTypings.Run
