/-!
# Command-line arguments

The arguments of the command line: switches, which may be joined after one dash, and settings,
whose value follows in the same argument or in the next one.  Every one may be given once; the
model and the output directory have to be given.  A value that starts with a dash has to be
attached, and the values that are paths must not be empty.
-/

namespace SchemaTypings.CommandLine

/-- What can be switched on. -/
inductive Switch where
  | json
  | format
  | sort
  | debug
  | verbose
  deriving DecidableEq, Repr

/-- What can be given a value. -/
inductive Setting where
  | model
  | output
  | interfacePrefix
  | config
  | formatterCommand
  deriving DecidableEq, Repr

/-- Whether the value of a setting is a path. -/
def Setting.isPath : Setting → Bool
  | model => true
  | output => true
  | config => true
  | interfacePrefix => false
  | formatterCommand => false

/-- What an argument names. -/
inductive Label where
  | switch (switch : Switch)
  | setting (setting : Setting)
  | help
  | version
  deriving DecidableEq, Repr

/-- The meaning of a long name. -/
def Label.ofLong? : String → Option Label
  | "cds" => some (setting .model)
  | "output" => some (setting .output)
  | "prefix" => some (setting .interfacePrefix)
  | "config" => some (setting .config)
  | "formatter-command" => some (setting .formatterCommand)
  | "json" => some (switch .json)
  | "format" => some (switch .format)
  | "sort" => some (switch .sort)
  | "debug" => some (switch .debug)
  | "verbose" => some (switch .verbose)
  | "help" => some help
  | "version" => some version
  | _ => none

/-- The meaning of a letter. -/
def Label.ofShort? : Char → Option Label
  | 'c' => some (setting .model)
  | 'o' => some (setting .output)
  | 'p' => some (setting .interfacePrefix)
  | 'j' => some (switch .json)
  | 'f' => some (switch .format)
  | 's' => some (switch .sort)
  | 'd' => some (switch .debug)
  | 'v' => some (switch .verbose)
  | 'h' => some help
  | 'V' => some version
  | _ => none

/-- The text that explains the arguments. -/
def usage : String :=
  "Usage: cds2types [OPTIONS] --cds <FILE> --output <DIR>\n" ++
  "\n" ++
  "  -c, --cds <FILE>               model, or a compiled schema ending in .json\n" ++
  "  -o, --output <DIR>             existing directory for one file per namespace\n" ++
  "  -p, --prefix <PREFIX>          what interface names start with\n" ++
  "  -j, --json                     also write the compiled schema to <DIR>.json\n" ++
  "  -f, --format                   format the files with the formatter\n" ++
  "  -s, --sort                     sort namespaces and definitions by name\n" ++
  "  -d, --debug                    no hint at this switch after a failure\n" ++
  "  -v, --verbose                  accepted, changes nothing that is written\n" ++
  "      --config <FILE>            JSON file with options; arguments override it\n" ++
  "      --formatter-command <CMD>  formatter and its arguments\n" ++
  "  -h, --help                     print this text\n" ++
  "  -V, --version                  print the version\n"

/-- What was given so far. -/
structure Given where
  switches : List Switch
  settings : List (Setting × String)
  deriving DecidableEq, Repr

namespace Given

/-- Nothing given yet. -/
def none : Given := ⟨[], []⟩

/-- The value of a setting. -/
def value? (g : Given) (setting : Setting) : Option String :=
  (g.settings.find? fun entry => entry.1 = setting).map Prod.snd

/-- Whether something is switched on. -/
def isOn (g : Given) (switch : Switch) : Bool := g.switches.contains switch

/-- Switches something on, once. -/
def turnOn? (g : Given) (switch : Switch) : Option Given :=
  if g.isOn switch then .none else some { g with switches := switch :: g.switches }

/-- Gives a setting its value, once. -/
def give? (g : Given) (setting : Setting) (value : String) : Option Given :=
  if (g.value? setting).isSome || (setting.isPath && value == "") then .none
  else some { g with settings := (setting, value) :: g.settings }

end Given

/-- What the arguments ask for. -/
inductive Request where
  | help
  | version
  | run (given : Given)
  deriving DecidableEq, Repr

/-- What remains to be done after an argument. -/
inductive Progress where
  /-- The arguments so far are given. -/
  | given (given : Given)
  /-- A setting waits for its value in the next argument. -/
  | awaiting (given : Given) (setting : Setting)
  /-- Help or the version is asked for, whatever follows. -/
  | settled (request : Request)
  /-- The arguments are wrong. -/
  | wrong
  deriving DecidableEq, Repr

/-- Progress after something was given, which fails if it could not be. -/
def Progress.ofGiven? : Option Given → Progress
  | some g => .given g
  | none => .wrong

/-- A long argument: its name and the value attached to it, if any. -/
def readLong (g : Given) (name : String) (value : Option String) : Progress :=
  match Label.ofLong? name, value with
  | some (.setting setting), some value => .ofGiven? (g.give? setting value)
  | some (.setting setting), none => .awaiting g setting
  | some (.switch switch), none => .ofGiven? (g.turnOn? switch)
  | some .help, none => .settled .help
  | some .version, none => .settled .version
  | _, _ => .wrong

/-- The letters of a short argument: switches, then possibly a setting with the rest as value. -/
def readShort (g : Given) : List Char → Progress
  | [] => .given g
  | letter :: rest =>
    match Label.ofShort? letter with
    | some (.switch switch) =>
      match g.turnOn? switch with
      | some next => readShort next rest
      | none => .wrong
    | some (.setting setting) =>
      match rest with
      | [] => .awaiting g setting
      | '=' :: value => .ofGiven? (g.give? setting (String.ofList value))
      | value => .ofGiven? (g.give? setting (String.ofList value))
    | some .help => .settled .help
    | some .version => .settled .version
    | none => .wrong

/-- An argument that starts a name. -/
def readArgument (g : Given) (argument : String) : Progress :=
  match argument.toList with
  | '-' :: '-' :: name =>
    let label := name.takeWhile (· != '=')
    match name.dropWhile (· != '=') with
    | '=' :: value => readLong g (String.ofList label) (some (String.ofList value))
    | _ => readLong g (String.ofList label) none
  | '-' :: letter :: rest => readShort g (letter :: rest)
  | _ => .wrong

/-- Whether an argument can be the value of the setting before it. -/
def isValue (argument : String) : Bool :=
  argument == "-" || argument.toList.head? != some '-'

/-- The request at the end of the arguments, for which a model and an output must be given. -/
def Given.finish (g : Given) : Option Request :=
  if (g.value? .model).isSome && (g.value? .output).isSome then some (.run g) else .none

/-- What arguments ask for, given what came before; nothing if they are wrong. -/
def parseFrom (g : Given) : List String → Option Request
  | [] => g.finish
  | ["--"] => g.finish
  | argument :: rest =>
    match readArgument g argument with
    | .given next => parseFrom next rest
    | .settled request => some request
    | .wrong => none
    | .awaiting next setting =>
      match rest with
      | [] => none
      | value :: rest =>
        if isValue value then
          match next.give? setting value with
          | some next => parseFrom next rest
          | none => none
        else none

/-- What arguments ask for; nothing if they are wrong. -/
def parse (arguments : List String) : Option Request := parseFrom .none arguments

end SchemaTypings.CommandLine
