import SchemaTypings.Typing.Type

/-!
# Declarations

The declarations of a generated file: interfaces, enumerations, aliases, and groups, which hold
the declarations of bound actions under a dotted name.
-/

namespace SchemaTypings.Typing

/-- What an enumeration member is set to. -/
inductive Initializer where
  /-- A text, written in quotes. -/
  | text (value : String)
  /-- A literal, written as it stands. -/
  | literal (value : String)
  deriving DecidableEq, Repr

/-- A member of an enumeration; one without initializer is numbered. -/
structure EnumMember where
  name : String
  initializer : Option Initializer
  deriving DecidableEq, Repr

/-- A declaration of a generated file. -/
inductive Declaration where
  | interface (name : String) (bases : List String) (properties : List Property)
  | enumeration (name : String) (members : List EnumMember)
  | typeAlias (name : String) (type : TypeExpr)
  | group (name : String) (declarations : List Declaration)

instance : Inhabited Declaration := ⟨.group "" []⟩

/-- The name that a declaration declares. -/
def Declaration.name : Declaration → String
  | interface name _ _ => name
  | enumeration name _ => name
  | typeAlias name _ => name
  | group name _ => name

/-- An imported identifier and the local name it is given, if that differs. -/
structure ImportedName where
  name : String
  localAlias : Option String
  deriving DecidableEq, Repr

/-- The name under which the importing file knows an imported identifier. -/
def ImportedName.localName (imported : ImportedName) : String :=
  imported.localAlias.getD imported.name

/-- The identifiers imported from one file. -/
structure ImportClause where
  moduleSpecifier : String
  names : List ImportedName
  deriving DecidableEq, Repr

/-- A generated file: what it imports and what it declares. -/
structure SourceFile where
  fileName : String
  namespaceName : String
  imports : List ImportClause
  declarations : List Declaration

mutual

/-- The declaration itself or, inside a group, the first one of a name. -/
def Declaration.find? (name : String) : Declaration → Option Declaration
  | .interface n bases properties =>
    if n = name then some (.interface n bases properties) else none
  | .enumeration n members => if n = name then some (.enumeration n members) else none
  | .typeAlias n type => if n = name then some (.typeAlias n type) else none
  | .group n declarations =>
    if n = name then some (.group n declarations) else findIn? name declarations

/-- The first declaration of a name in a list, looking into groups in passing. -/
def findIn? (name : String) : List Declaration → Option Declaration
  | [] => none
  | declaration :: rest =>
    match declaration.find? name with
    | some found => some found
    | none => findIn? name rest

end

/-- The first declaration of a name in a file, looking into groups in passing. -/
def SourceFile.find? (file : SourceFile) (name : String) : Option Declaration :=
  findIn? name file.declarations

end SchemaTypings.Typing
