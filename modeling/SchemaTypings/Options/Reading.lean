import SchemaTypings.Json.Reader
import SchemaTypings.Options
import SchemaTypings.Text.Blank

/-!
# Options from a text

Options are written as a JSON object with any of the known keys, each at most once, or as an array
of the values in the order of the keys.  What is not written keeps its default.
-/

namespace SchemaTypings.Options

open SchemaTypings.Json

/-! ### Problems -/

/-- Why options cannot be had. -/
inductive Problem where
  /-- The text is no JSON or not of the required form. -/
  | invalid
  /-- The name of the global file is blank. -/
  | blankGlobalFileName
  /-- Files shall be formatted, but no formatter is named. -/
  | noFormatter
  /-- The file of the options cannot be read. -/
  | unreadable (path : String)
  deriving DecidableEq, Repr

/-- The wording of a problem. -/
def Problem.message : Problem → String
  | invalid => "invalid config"
  | blankGlobalFileName => "globalFileName must not be empty"
  | noFormatter => "formatterCommand must name a program when formatting is enabled"
  | unreadable path => "failed to read config '" ++ path ++ "'"

/-! ### Fields -/

/-- The keys of options, in the order in which an array gives their values. -/
inductive Key where
  | interfacePrefix
  | sort
  | format
  | dumpJson
  | globalFileName
  | foreignKeySeparator
  | formatterCommand
  deriving DecidableEq, Repr

/-- Every key, in order. -/
def Key.all : List Key :=
  [interfacePrefix, sort, format, dumpJson, globalFileName, foreignKeySeparator, formatterCommand]

/-- The key that a text spells. -/
def Key.ofName? : String → Option Key
  | "prefix" => some interfacePrefix
  | "sort" => some sort
  | "format" => some format
  | "dumpJson" => some dumpJson
  | "globalFileName" => some globalFileName
  | "foreignKeySeparator" => some foreignKeySeparator
  | "formatterCommand" => some formatterCommand
  | _ => none

/-- The truth value that a value is. -/
def truth? : Value → Option Bool
  | .bool b => some b
  | _ => none

/-- The texts of an array of nothing but texts. -/
def texts? : Value → Option (List String)
  | .array items => items.mapM Value.string?
  | _ => none

/-- Sets a field from its value, which has to be of the field's type. -/
def set? (options : Options) (value : Value) : Key → Option Options
  | .interfacePrefix => value.string?.map fun s => { options with interfacePrefix := s }
  | .sort => (truth? value).map fun b => { options with sort := b }
  | .format => (truth? value).map fun b => { options with format := b }
  | .dumpJson => (truth? value).map fun b => { options with dumpJson := b }
  | .globalFileName => value.string?.map fun s => { options with globalFileName := s }
  | .foreignKeySeparator => value.string?.map fun s => { options with foreignKeySeparator := s }
  | .formatterCommand => (texts? value).map fun c => { options with formatterCommand := c }

/-! ### Reading -/

/-- Sets the fields of an object; `seen` are the keys that came before. -/
def setMembers? (options : Options) (seen : List Key) : Members → Option Options
  | [] => some options
  | (name, value) :: rest =>
    match Key.ofName? name with
    | none => none
    | some key =>
      if seen.contains key then none
      else (options.set? value key).bind fun next => next.setMembers? (key :: seen) rest

/-- Sets the fields of an array; there may be fewer values than keys. -/
def setItems? (options : Options) : List Key → List Value → Option Options
  | _, [] => some options
  | [], _ :: _ => none
  | key :: keys, value :: rest =>
    (options.set? value key).bind fun next => next.setItems? keys rest

/-- The options that a value writes. -/
def ofValue? : Value → Option Options
  | .object members => setMembers? {} [] members
  | .array items => setItems? {} Key.all items
  | _ => none

/-- Accepts options with a name for the global file and, if files are formatted, a formatter. -/
def validate (options : Options) : Except Problem Options :=
  if (Text.trim options.globalFileName.toList).isEmpty then .error .blankGlobalFileName
  else if options.format && options.formatterCommand.isEmpty then .error .noFormatter
  else .ok options

/-- The options that a text writes. -/
def ofText (text : String) : Except Problem Options :=
  match (read? nestingLimit text).bind ofValue? with
  | some options => options.validate
  | none => .error .invalid

end SchemaTypings.Options
