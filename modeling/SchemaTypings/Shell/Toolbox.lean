import SchemaTypings.Shell.Evaluation
import SchemaTypings.Tools.Cat
import SchemaTypings.Tools.Printf
import SchemaTypings.Tools.Sed.Editing
import SchemaTypings.Tools.Tr

/-!
# The toolbox

The programs that a run can start by itself: the shell and the tools for text.  They are known by
their names and in the directories of programs.

The shell and the tools are the outer layer, which only runs programs.  Results are about any
`Run.Toolbox`, whatever its programs do, and depend on nothing that is defined here or in the other
modules of this layer.
-/

namespace SchemaTypings.Shell

open SchemaTypings.Run SchemaTypings.Text SchemaTypings.Tools

/-- The tool of a name. -/
def tool? : Programs
  | "cat" => some cat
  | "echo" => some echo
  | "false" => some fun _ => endWith 1
  | "printf" => some printf
  | "sed" => some Sed.sed
  | "tr" => some Tr.tr
  | "true" => some fun _ => return
  | _ => none

/-- The outcome of a tool. -/
def toolOutcome (tool : Tool) (arguments : List Octets) (input : Octets) (files : FileSystem) :
    Outcome :=
  let (_, session) := (tool arguments).run { input, files }
  { ending := .exited session.status
    output := Octets.bytes (session.writtenTo .output)
    errors := Octets.bytes (session.writtenTo .errors)
    taken := input.length - session.input.length
    files := session.files }

/-- The name of a program without the directory that it is installed in. -/
def programName (program : String) : String :=
  match Path.steps program with
  | ["", "bin", name] => name
  | ["", "usr", "bin", name] => name
  | _ => program

/-- The toolbox of the shell and the tools. -/
def toolbox : Toolbox := fun program arguments input files =>
  let given := arguments.map Octets.ofText
  let octets := Octets.ofBytes input
  match programName program with
  | "sh" | "dash" => some (shellOutcome tool? (Octets.ofText program) given octets files)
  | name => (tool? name).map fun tool => toolOutcome tool given octets files

end SchemaTypings.Shell
