import SchemaTypings.CommandLine.Arguments
import SchemaTypings.Run.Job

/-!
# The program

What the program does for its arguments on a file system: it prints the version, complains about
wrong arguments, or runs a job and reports the files written or the failure.
-/

namespace SchemaTypings.CommandLine

open SchemaTypings.Run

/-- What the program says and how it ends. -/
structure Reply where
  exitCode : Nat
  output : String
  /-- The wording of the failure, if a job failed. -/
  failure : Option String
  /-- Whether the debug switch is hinted at. -/
  hint : Bool
  /-- Whether the arguments are explained, on request or because they are wrong. -/
  explains : Bool
  deriving DecidableEq, Repr

/-- The line that names the version. -/
def versionLine : String := "cds2types 0.1.0\n"

/-- The options of the file that is given for them. -/
def fileOptions (given : Given) (fs : FileSystem) : Except Options.Problem Options :=
  match given.value? .config with
  | none => .ok {}
  | some path =>
    match fs.read? path with
    | none => .error (.unreadable path)
    | some text => Options.ofText text

/-- The options with what the arguments say put over them. -/
def overrideOptions (given : Given) (options : Options) : Options :=
  { options with
    interfacePrefix := (given.value? .interfacePrefix).getD options.interfacePrefix
    formatterCommand :=
      match given.value? .formatterCommand with
      | some command => (Text.words command.toList).map String.ofList
      | none => options.formatterCommand
    sort := options.sort || given.isOn .sort
    format := options.format || given.isOn .format
    dumpJson := options.dumpJson || given.isOn .json }

/-- The options that the arguments ask for. -/
def optionsOf (given : Given) (fs : FileSystem) : Except Failure Options :=
  (((fileOptions given fs).map (overrideOptions given)).bind Options.validate).mapError .options

/-- The job that the arguments ask for. -/
def jobOf (tools : Toolbox) (given : Given) : Job :=
  let model := (given.value? .model).getD ""
  Job.of tools (optionsOf given) (Compiler.forModel model) model ((given.value? .output).getD "")

/-- The line that reports a written file. -/
def writtenLine (path : String) : String := "Wrote types to '" ++ path ++ "'\n"

/-- The reply to the result of a job. -/
def replyTo (given : Given) : Except Failure Report → Reply
  | .ok report => ⟨0, String.join (report.written.map writtenLine), none, false, false⟩
  | .error failure => ⟨1, "", some failure.message, !given.isOn .debug, false⟩

/-- Runs the program. -/
def execute (tools : Toolbox) (arguments : List String) (fs : FileSystem) : Reply × FileSystem :=
  match parse arguments with
  | none => (⟨2, "", none, false, true⟩, fs)
  | some .help => (⟨0, "", none, false, true⟩, fs)
  | some .version => (⟨0, versionLine, none, false, false⟩, fs)
  | some (.run given) =>
    let (result, after) := Running.on (jobOf tools given).run fs
    (replyTo given result, after)

end SchemaTypings.CommandLine
