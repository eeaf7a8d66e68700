import SchemaTypings.Json.Value
import SchemaTypings.Schema.Vocabulary

/-!
# Shapes of raw definitions

The members of a raw definition decide what it defines.  A definition of kind `type` is told apart
by a list of rules of which the first that fits wins; what fits no rule is unsupported.
-/

namespace SchemaTypings.Schema

open SchemaTypings.Json

/-- What the items of an array type carry. -/
inductive ItemsShape where
  | typed
  | structured
  | untyped
  deriving DecidableEq, Repr

/-- What a raw definition defines. -/
inductive Shape where
  | service
  | entity
  | action
  | function
  | typeAlias
  | arrayAlias (items : ItemsShape)
  | structuredType
  | enumeration
  | unsupported
  deriving DecidableEq, Repr

/-- The shape of the items of an array type. -/
def ItemsShape.ofMembers (members : Members) : ItemsShape :=
  match members.object? "items" with
  | none => .untyped
  | some items =>
    if (items.text? "type").isSome then .typed
    else if items.has "elements" then .structured
    else .untyped

namespace Shape

/-- The shape of a definition of kind `type`. -/
def ofType (members : Members) : Shape :=
  let hasType := (members.text? "type").isSome
  let hasEnum := members.has "enum"
  let hasElements := members.has "elements"
  if hasType && !hasEnum && !hasElements then .typeAlias
  else if !hasType && members.has "items" then .arrayAlias (.ofMembers members)
  else if !hasType && hasElements then .structuredType
  else if hasType && hasEnum then .enumeration
  else .unsupported

/-- The shape of a definition with the given members. -/
def ofMembers (members : Members) : Shape :=
  match members.text? "kind" with
  | some "service" => .service
  | some "entity" => .entity
  | some "action" => .action
  | some "function" => .function
  | some "type" => ofType members
  | _ => .unsupported

/-- The shape of a raw definition. -/
def ofValue : Value → Shape
  | .object members => ofMembers members
  | _ => .unsupported

end Shape

/-- Whether a definition is left out: one for localized texts, or a named association. -/
def isExcluded (name : String) (raw : Value) : Bool :=
  isLocalization name || (raw.member? "type").bind Value.string? == some associationType

/-- Whether an element points at localized texts. -/
def isLocalizedElement (members : Members) : Bool :=
  ((members.text? "target").map hasTextsMark).getD false

end SchemaTypings.Schema
