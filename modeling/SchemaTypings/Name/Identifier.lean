import SchemaTypings.Name.Segments
import SchemaTypings.Name.Words

/-!
# Identifiers of generated declarations

Every identifier of a generated file is made here from the qualified name of a definition, so
that a reference and the declaration it means agree.
-/

namespace SchemaTypings.Name

open SchemaTypings.Text

/-- The identifier of a definition that is not an interface. -/
def identifier (name : String) : String := sanitize (short name)

/-- The identifier of an interface. -/
def interfaceIdentifier (interfacePrefix name : String) : String :=
  interfacePrefix ++ identifier name

/-- The identifier of the enumeration written inside field `field` of definition `owner`. -/
def inlineEnumIdentifier (owner field : String) : String :=
  identifier owner ++ String.ofList (capitalize field.toList)

/-- The identifiers that belong to an action or function. -/
structure ActionNames where
  short : String
  enumeration : String
  parameters : String
  result : String
  deriving DecidableEq, Repr

/-- The identifiers of an action; those of a bound one start with its owner's. -/
def ActionNames.of (interfacePrefix label name : String) (owner : Option String) : ActionNames :=
  let scope := match owner with
    | some owner => identifier owner ++ "Actions"
    | none => ""
  let base := scope ++ label ++ sanitize (Name.short name)
  { short := Name.short name
    enumeration := base
    parameters := interfacePrefix ++ base ++ "Params"
    result := base ++ "Return" }

end SchemaTypings.Name
