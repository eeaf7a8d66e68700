/-!
# Vocabulary of compiled schemas

The fixed names of compiled schemas: the built-in types, the two association types, the fields
that a managed definition has filled in, and the marks of definitions made for localized texts.
-/

namespace SchemaTypings.Schema

/-- The type of an association. -/
def associationType : String := "cds.Association"

/-- The type of a composition. -/
def compositionType : String := "cds.Composition"

/-- The types of texts. -/
def stringTypes : List String := ["cds.String", "cds.LargeString"]

/-- The names that never mean a definition of the schema. -/
def builtinTypes : List String := [
  associationType, compositionType, "cds.UUID", "cds.Boolean", "cds.Integer", "cds.Integer64",
  "cds.Decimal", "cds.DecimalFloat", "cds.Double", "cds.Date", "cds.Time", "cds.DateTime",
  "cds.Timestamp", "cds.String", "cds.Binary", "cds.LargeString", "cds.LargeBinary", "User",
  "cds.hana.TINYINT"]

/-- Whether a name is that of a built-in type. -/
def isBuiltin (name : String) : Bool := builtinTypes.contains name

/-- The fields that are filled in by whoever stores the record. -/
def managedFields : List String := ["createdAt", "createdBy", "modifiedAt", "modifiedBy"]

/-- Whether a field is filled in by whoever stores the record. -/
def isManaged (field : String) : Bool := managedFields.contains field

/-- Whether a text occurs inside another. -/
def occursIn (part : List Char) : List Char → Bool
  | [] => part.isEmpty
  | c :: rest => part.isPrefixOf (c :: rest) || occursIn part rest

/-- Whether a name carries the mark of localized texts. -/
def hasTextsMark (name : String) : Bool := occursIn "_texts".toList name.toList

/-- Whether a name is that of localized texts or of a localized view. -/
def isLocalization (name : String) : Bool :=
  hasTextsMark name || "localized.".toList.isPrefixOf name.toList

end SchemaTypings.Schema
