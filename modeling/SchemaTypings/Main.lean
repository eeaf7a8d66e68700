import SchemaTypings.CommandLine.Program
import SchemaTypings.Shell.Toolbox

/-!
# The command line

The outer layer of the program: it takes a picture of the files and directories that the arguments
name, runs the program on that picture, and writes what has changed.
-/

namespace SchemaTypings.Main

open SchemaTypings.CommandLine SchemaTypings.Run

/-- Adds the file at a path, if there is one that can be read. -/
def addFile (fs : FileSystem) (path : String) : IO FileSystem := do
  try
    return fs.addFile path (.ofBytes (← IO.FS.readBinFile path).data.toList)
  catch _ =>
    return fs

/-- Adds the directory at a path, if there is one, with all directories below it. -/
def addDirectory (fs : FileSystem) (path : String) : IO FileSystem := do
  let root := System.mkFilePath [path]
  if ← root.isDir then
    let below ← root.walkDir
    let directories ← below.filterM fun entry => entry.isDir
    return directories.foldl (fun fs entry => fs.addDirectory entry.toString)
      (fs.addDirectory path)
  else
    return fs

/-- The files and directories that the arguments name. -/
def picture (arguments : List String) : IO FileSystem := do
  match parse arguments with
  | some (.run given) =>
    let mut fs := FileSystem.empty
    if let some path := given.value? .output then
      fs ← addDirectory fs path
    if let some path := given.value? .config then
      fs ← addFile fs path
    if let some path := given.value? .model then
      fs ← addFile fs path
    return fs
  | _ => return .empty

/-- Runs the program on the actual files. -/
def run (arguments : List String) : IO UInt32 := do
  let before ← picture arguments
  let (reply, after) := execute Shell.toolbox arguments before
  for (path, content) in after.changesSince before do
    IO.FS.writeBinFile path ⟨content.bytes.toArray⟩
  IO.print reply.output
  if reply.explains then
    if reply.exitCode = 0 then IO.print usage else IO.eprint usage
  if let some failure := reply.failure then
    IO.eprintln ("Unable to write types: " ++ failure)
  if reply.hint then
    IO.eprintln "Use the debug flag (-d, --debug) for detailed logging."
  return reply.exitCode.toUInt32

end SchemaTypings.Main

/-- The program. -/
def main (arguments : List String) : IO UInt32 := SchemaTypings.Main.run arguments
