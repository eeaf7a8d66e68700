import SchemaTypings.Json.Value
import SchemaTypings.Schema.Vocabulary

/-!
# Definitions

The normal form of the definitions of a schema: entities (structured types are entities of another
kind), aliases, enumerations, and actions.  All tables keep the order of the schema, which is the
order of everything generated from them.
-/

namespace SchemaTypings.Schema

open SchemaTypings.Json

/-! ### Elements -/

/-- What stands in a type position. -/
inductive TypeRef where
  /-- A built-in type or a definition, by name. -/
  | named (name : String)
  /-- The type of the element `field` of the definition `owner`. -/
  | element (owner field : String)
  deriving DecidableEq, Repr

/-- The path of a key by which an association refers to its target; it has at least one step. -/
structure KeyPath where
  first : String
  rest : List String
  deriving DecidableEq, Repr

/-- The steps of a key path. -/
def KeyPath.steps (path : KeyPath) : List String := path.first :: path.rest

/-- The members of an enumeration, each with the value written for it. -/
abbrev EnumMembers := Table (Option Value)

/-- A field of an entity, a structured type or an object type. -/
structure Element where
  type : Option TypeRef
  target : Option String
  many : Bool
  nullable : Bool
  keys : List KeyPath
  members : Option EnumMembers

namespace Element

/-- Whether the type is one of the two association types. -/
def isAssociationType (element : Element) : Bool :=
  element.type = some (.named associationType) || element.type = some (.named compositionType)

/-- Whether the element leads to other records, by its target or by its type. -/
def isNavigation (element : Element) : Bool :=
  element.target.isSome || element.isAssociationType

end Element

/-- Whether a value written for an enumeration member is used. -/
def hasInitializer (value : Option Value) : Bool := (value.map Value.isTruthy).getD false

/-! ### Actions -/

/-- The two kinds of operations. -/
inductive ActionKind where
  | action
  | function
  deriving DecidableEq, Repr

/-- The word that starts the identifiers of an operation. -/
def ActionKind.label : ActionKind → String
  | action => "Action"
  | function => "Func"

/-- A parameter or a result of an operation. -/
structure Operand where
  type : Option TypeRef
  many : Bool
  deriving DecidableEq, Repr

/-- An action or function. -/
structure Action where
  kind : ActionKind
  parameters : Table Operand
  result : Option Operand

/-! ### Definitions -/

/-- The two kinds of definitions with elements. -/
inductive EntityKind where
  | entity
  | structuredType
  deriving DecidableEq, Repr

/-- A definition with elements. -/
structure Entity where
  kind : EntityKind
  elements : Table Element
  actions : Table Action
  includes : List String

/-- What an alias stands for. -/
inductive AliasBody where
  /-- A type by name, or nothing for array items without a type. -/
  | type (name : Option String)
  /-- The object type of array items with elements. -/
  | structured (elements : Table Element)

/-- A type alias. -/
structure Alias where
  body : AliasBody
  many : Bool

/-- An enumeration type. -/
structure Enumeration where
  primitive : String
  members : EnumMembers

/-- Whether the values of an enumeration are texts. -/
def Enumeration.isText (enumeration : Enumeration) : Bool :=
  stringTypes.contains enumeration.primitive

/-- A definition of a schema. -/
inductive Definition where
  | entity (entity : Entity)
  | typeAlias (typeAlias : Alias)
  | enumeration (enumeration : Enumeration)
  | action (action : Action)

namespace Definition

/-- The entity that a definition is, if it is one. -/
def entity? : Definition → Option Entity
  | entity e => some e
  | _ => none

/-- Whether a definition is an operation. -/
def isAction : Definition → Bool
  | action _ => true
  | _ => false

end Definition

end SchemaTypings.Schema
