/-!
# Options

What a run may be told: the interface prefix, whether to sort, to format and to dump the schema,
the name of the file of the global scope, the separator of foreign-key names, and the formatter.
-/

namespace SchemaTypings

/-- The options of a run. -/
structure Options where
  interfacePrefix : String := ""
  sort : Bool := false
  format : Bool := false
  dumpJson : Bool := false
  globalFileName : String := "cds"
  foreignKeySeparator : String := "_"
  formatterCommand : List String := ["prettier", "--parser", "typescript"]
  deriving DecidableEq, Repr, Inhabited

namespace Options

/-- The name that stands for a namespace in file names; the global scope has none of its own. -/
def displayName (options : Options) (namespaceName : String) : String :=
  if namespaceName = "" then options.globalFileName else namespaceName

/-- The name of the file of a namespace. -/
def fileName (options : Options) (namespaceName : String) : String :=
  options.displayName namespaceName ++ ".ts"

/-- The specifier by which other files import from the file of a namespace. -/
def moduleSpecifier (options : Options) (namespaceName : String) : String :=
  "./" ++ options.displayName namespaceName

/-- The specifier of a namespace leads to its file. -/
theorem moduleSpecifier_append (options : Options) (namespaceName : String) :
    options.moduleSpecifier namespaceName ++ ".ts" = "./" ++ options.fileName namespaceName := by
  rw [moduleSpecifier, fileName, String.append_assoc]

end Options

end SchemaTypings
