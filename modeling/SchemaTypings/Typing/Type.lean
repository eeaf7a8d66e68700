/-!
# Type expressions

The types that generated declarations speak of: primitives, references to declarations by
identifier, arrays, object types written in place, and `unknown` for what could not be resolved.
-/

namespace SchemaTypings.Typing

/-- A type without structure. -/
inductive Primitive where
  | string
  | number
  | boolean
  | date
  | buffer
  deriving DecidableEq, Repr

/-- The word of a primitive. -/
def Primitive.word : Primitive → String
  | string => "string"
  | number => "number"
  | boolean => "boolean"
  | date => "Date"
  | buffer => "Buffer"

/-- The primitive that a built-in type is mapped to. -/
def Primitive.ofBuiltin? : String → Option Primitive
  | "cds.UUID" => some string
  | "cds.String" => some string
  | "cds.LargeString" => some string
  | "User" => some string
  | "cds.Boolean" => some boolean
  | "cds.Integer" => some number
  | "cds.Integer64" => some number
  | "cds.Decimal" => some number
  | "cds.DecimalFloat" => some number
  | "cds.Double" => some number
  | "cds.hana.TINYINT" => some number
  | "cds.Date" => some date
  | "cds.Time" => some date
  | "cds.DateTime" => some date
  | "cds.Timestamp" => some date
  | "cds.Binary" => some buffer
  | "cds.LargeBinary" => some buffer
  | _ => none

mutual

/-- A type expression. -/
inductive TypeExpr where
  | unknown
  | primitive (primitive : Primitive)
  | reference (name : String)
  | object (properties : List Property)
  | array (item : TypeExpr)

/-- A property of an interface or of an object type. -/
structure Property where
  name : String
  optional : Bool
  type : TypeExpr

end

instance : Inhabited TypeExpr := ⟨.unknown⟩

/-- The array of a type if there are many values, otherwise the type itself. -/
def TypeExpr.arrayIf (type : TypeExpr) (many : Bool) : TypeExpr :=
  if many then .array type else type

@[simp] theorem TypeExpr.arrayIf_false (type : TypeExpr) : type.arrayIf false = type := rfl

end SchemaTypings.Typing
