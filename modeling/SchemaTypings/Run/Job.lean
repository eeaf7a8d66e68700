import SchemaTypings.Generation.Files
import SchemaTypings.Run.Formatter

/-!
# Running jobs

A job reads its options, compiles its model, generates the files, dumps the schema if it is asked
to, and then formats and writes file after file into a directory that exists.  The first failure
ends it; what was written before stays.
-/

namespace SchemaTypings.Run

open SchemaTypings.Generation SchemaTypings.Json

/-- Formats and writes files, one after another; the paths written. -/
def writeFiles (formatter : Formatter) (directory : String) :
    List RenderedFile → Running (List String)
  | [] => return []
  | file :: rest => do
    let text ← formatter file.content
    let path := Path.join directory file.fileName
    writeFile path text
    let more ← writeFiles formatter directory rest
    return path :: more

/-- Formats and writes files into a directory, which has to exist. -/
def writeOutput (formatter : Formatter) (directory : String) (files : List RenderedFile) :
    Running (List String) := do
  if (← get).isDirectory directory then writeFiles formatter directory files
  else throw (.output (.notADirectory directory))

/-- The path of the dump of the schema, beside the output directory. -/
def dumpPath (directory : String) : String := directory ++ ".json"

/-- Writes the schema to its dump. -/
def dumpSchema (directory : String) (schema : Value) : Running Unit :=
  writeFile (dumpPath directory) schema.indented

/-- What a run is to do: how its options, its schema and its formatter are had, and the directory
that it writes to. -/
structure Job where
  options : FileSystem → Except Failure Options
  compile : Running Value
  formatter : Options → Except Failure Formatter
  directory : String

/-- What a successful run reports: the paths written and the warnings. -/
structure Report where
  written : List String
  warnings : List String
  deriving DecidableEq, Repr

/-- Runs a job. -/
def Job.run (job : Job) : Running Report := do
  let options ← ofResult (job.options (← get))
  let schema ← job.compile
  let output ← ofResult ((typings options schema).mapError .schema)
  if options.dumpJson then dumpSchema job.directory schema
  let formatter ← ofResult (job.formatter options)
  let written ← writeOutput formatter job.directory output.files
  return ⟨written, output.warnings⟩

/-- The job of compiling a model and writing its files, with options that are read first. -/
def Job.of (tools : Toolbox) (options : FileSystem → Except Failure Options)
    (compiler : Compiler) (model directory : String) : Job where
  options := options
  compile := compiler.compile tools model
  formatter := Formatter.ofOptions tools
  directory := directory

end SchemaTypings.Run
