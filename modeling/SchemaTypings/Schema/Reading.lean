import SchemaTypings.Schema.Definition
import SchemaTypings.Schema.Fault
import SchemaTypings.Schema.Shape

/-!
# Reading definitions

Raw definitions become definitions in document order, and the first malformed place ends the work.
Inside an entity the elements come before the bound actions.  Excluded definitions, services and
definitions of no supported shape are passed over without being looked at.
-/

namespace SchemaTypings.Schema

open SchemaTypings.Json

/-! ### Parts -/

/-- The texts in the array under a key. -/
def textList (members : Members) (key : String) : List String :=
  match members.array? key with
  | some items => items.filterMap Value.string?
  | none => []

/-- The type that a value names: by a text, or by a path of one name or of a name and a field. -/
def TypeRef.ofValue? : Value → Option TypeRef
  | .string name => some (.named name)
  | .object members =>
    match textList members "ref" with
    | [owner, field] => some (.element owner field)
    | [name] => some (.named name)
    | _ => none
  | _ => none

/-- The type of an object, by its own member `type`. -/
def ownType? (members : Members) : Option TypeRef :=
  (members.get? "type").bind TypeRef.ofValue?

/-- The members of an enumeration under `enum`; there are none if no object stands there. -/
def enumMembers (members : Members) : EnumMembers :=
  match members.object? "enum" with
  | some entries => Table.ofEntries (entries.map fun entry => (entry.1, entry.2.member? "val"))
  | none => ∅

/-- The key path of an entry of `keys`, if it has a step. -/
def KeyPath.ofValue? (value : Value) : Option KeyPath :=
  match value.members? with
  | none => none
  | some members =>
    match textList members "ref" with
    | [] => none
    | first :: rest => some ⟨first, rest⟩

/-- The key paths of an association. -/
def keyPaths (members : Members) : List KeyPath :=
  ((members.array? "keys").getD []).filterMap KeyPath.ofValue?

/-- Whether an upper bound means many: `*`, the word `many` in any case, or an integer above one. -/
def isManyBound : Value → Bool
  | .string s => s == "*" || s.toList.map Char.toLower == "many".toList
  | .number (.integer n) => 1 < n
  | _ => false

/-- Whether an element without array items has many values. -/
def hasManyBound (members : Members) : Bool :=
  (((members.object? "cardinality").bind fun bounds => bounds.get? "max").map
    isManyBound).getD false

/-! ### Elements -/

/-- The type of an element: its own, or else that of its array items. -/
def elementType? (members : Members) : Option TypeRef :=
  match ownType? members with
  | some type => some type
  | none => (members.object? "items").bind ownType?

/-- Whether an element may be absent: computed, immutable, virtual, defaulted or managed. -/
def isNullable (field : String) (members : Members) : Bool :=
  members.isSet "@Core.Computed" || members.isSet "@Core.Immutable" || members.isSet "virtual" ||
    members.has "default" || isManaged field

/-- Whether an element says what it holds: by a type, array items, a target, or by being virtual. -/
def isTyped (members : Members) : Bool :=
  (elementType? members).isSome || (members.object? "items").isSome || members.has "target" ||
    members.isSet "virtual"

/-- The element that raw members describe. -/
def Element.ofMembers (field : String) (members : Members) : Element where
  type := elementType? members
  target := members.text? "target"
  many := (members.object? "items").isSome || hasManyBound members
  nullable := isNullable field members
  keys := keyPaths members
  members := if (enumMembers members).isEmpty then none else some (enumMembers members)

/-- Reads an element; one that points at localized texts is left out. -/
def readElement (owner field : String) : Value → Except Fault (Option Element)
  | .object members =>
    if isLocalizedElement members then .ok none
    else if isTyped members then .ok (some (Element.ofMembers field members))
    else .error (.untyped owner field)
  | _ => .error (.elementNotAnObject owner field)

/-- Reads the elements under `elements`; there are none if the key is missing. -/
def readElements (owner : String) (members : Members) : Except Fault (Table Element) :=
  match members.get? "elements" with
  | none => .ok ∅
  | some (.object entries) => Table.collect (readElement owner) entries
  | some _ => .error (.elementsNotAnObject owner)

/-! ### Actions -/

/-- The parameter or result that raw members describe: array items come before a type. -/
def Operand.ofMembers (members : Members) : Operand :=
  match members.object? "items" with
  | some items => ⟨ownType? items, true⟩
  | none => ⟨ownType? members, false⟩

/-- Reads a parameter. -/
def readParameter (owner name : String) : Value → Except Fault (Option Operand)
  | .object members =>
    let operand := Operand.ofMembers members
    if operand.type.isNone && !operand.many then .error (.untyped owner name)
    else .ok (some operand)
  | _ => .error (.parameterNotAnObject owner name)

/-- Reads an action or function. -/
def readAction (name : String) (kind : ActionKind) (members : Members) : Except Fault Action :=
  (Table.collect (readParameter name) ((members.object? "params").getD [])).map fun parameters =>
    { kind, parameters, result := (members.object? "returns").map Operand.ofMembers }

/-- The kind of operation of a shape. -/
def Shape.actionKind? : Shape → Option ActionKind
  | action => some .action
  | function => some .function
  | _ => none

/-- Reads a bound action; what is neither action nor function is left out. -/
def readBoundAction (owner name : String) (raw : Value) : Except Fault (Option Action) :=
  match raw with
  | .object members =>
    match (Shape.ofMembers members).actionKind? with
    | some kind => (readAction (owner ++ "." ++ name) kind members).map some
    | none => .ok none
  | _ => .ok none

/-- Reads the bound actions under `actions`. -/
def readBoundActions (owner : String) (members : Members) : Except Fault (Table Action) :=
  Table.collect (readBoundAction owner) ((members.object? "actions").getD [])

/-! ### Definitions -/

/-- Reads a definition with elements. -/
def readEntity (name : String) (kind : EntityKind) (members : Members) : Except Fault Entity :=
  match readElements name members with
  | .error fault => .error fault
  | .ok elements =>
    (readBoundActions name members).map fun actions =>
      { kind, elements, actions, includes := textList members "includes" }

/-- Reads the body of an array alias. -/
def readArrayBody (name : String) (shape : ItemsShape) (members : Members) :
    Except Fault AliasBody :=
  let items := (members.object? "items").getD []
  match shape with
  | .typed => .ok (.type (items.text? "type"))
  | .structured => (readElements name items).map .structured
  | .untyped => .ok (.type none)

/-- The definition of an enumeration type; without members it is an alias of its primitive. -/
def enumerationOf (members : Members) : Definition :=
  let primitive := (members.text? "type").getD ""
  let entries := enumMembers members
  if entries.isEmpty then .typeAlias ⟨.type (some primitive), false⟩
  else .enumeration ⟨primitive, entries⟩

/-- Reads a definition of a given shape; a shape that defines nothing here gives none. -/
def readShape (name : String) (members : Members) : Shape → Except Fault (Option Definition)
  | .entity => (readEntity name .entity members).map fun e => some (.entity e)
  | .structuredType => (readEntity name .structuredType members).map fun e => some (.entity e)
  | .action => (readAction name .action members).map fun a => some (.action a)
  | .function => (readAction name .function members).map fun a => some (.action a)
  | .typeAlias => .ok (some (.typeAlias ⟨.type (members.text? "type"), false⟩))
  | .arrayAlias shape =>
    (readArrayBody name shape members).map fun body => some (.typeAlias ⟨body, true⟩)
  | .enumeration => .ok (some (enumerationOf members))
  | .service => .ok none
  | .unsupported => .ok none

/-- Reads a raw definition; excluded and unsupported ones and services give none. -/
def readDefinition (name : String) (raw : Value) : Except Fault (Option Definition) :=
  if isExcluded name raw then .ok none
  else match raw with
    | .object members => readShape name members (Shape.ofMembers members)
    | _ => .ok none

/-- The object of raw definitions of a compiled schema. -/
def rawDefinitions : Value → Except Fault Members
  | .object members =>
    match Members.object? members "definitions" with
    | some definitions => .ok definitions
    | none => .error .noDefinitions
  | _ => .error .notAnObject

end SchemaTypings.Schema
