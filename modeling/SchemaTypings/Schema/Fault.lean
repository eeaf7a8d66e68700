/-!
# Faults of schemas

The ways in which a compiled schema can be malformed.  A fault names the place; `Fault.message`
words it.
-/

namespace SchemaTypings.Schema

/-- A malformed place of a schema. -/
inductive Fault where
  /-- The schema is no object. -/
  | notAnObject
  /-- The schema has no object of definitions. -/
  | noDefinitions
  /-- The elements of a definition are no object. -/
  | elementsNotAnObject (owner : String)
  /-- An element is no object. -/
  | elementNotAnObject (owner field : String)
  /-- A parameter is no object. -/
  | parameterNotAnObject (owner parameter : String)
  /-- An element or parameter has neither a type nor array items. -/
  | untyped (owner name : String)
  deriving DecidableEq, Repr

/-- Whether the fault is one of a single definition rather than of the schema's layout. -/
def Fault.isMalformedDefinition : Fault → Bool
  | untyped _ _ => true
  | _ => false

/-- The wording of a fault. -/
def Fault.message : Fault → String
  | notAnObject => "compiled schema must be a JSON object"
  | noDefinitions => "compiled schema must contain a 'definitions' object"
  | elementsNotAnObject owner => "elements of '" ++ owner ++ "' must be an object"
  | elementNotAnObject owner field =>
    "element '" ++ field ++ "' of '" ++ owner ++ "' must be an object"
  | parameterNotAnObject owner parameter =>
    "parameter '" ++ parameter ++ "' of '" ++ owner ++ "' must be an object"
  | untyped owner name =>
    "element '" ++ name ++ "' of '" ++ owner ++ "' has neither a type nor array items"

end SchemaTypings.Schema
