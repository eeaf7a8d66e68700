import SchemaTypings.Generation.Index
import SchemaTypings.Typing.Declaration

/-!
# Resolving types

Resolution turns the names in type positions into type expressions for the file of one namespace.
A name declared elsewhere is imported; the import keeps its identifier unless that is declared in
the file or already imported from another one, and is then given the namespace's name in front.
What cannot be resolved becomes `unknown` with a warning.  Imports and warnings only ever grow.
-/

namespace SchemaTypings.Generation

open SchemaTypings.Name SchemaTypings.Schema SchemaTypings.Typing

/-! ### What resolution collects -/

/-- An identifier imported from the file of another namespace under a local name. -/
structure Import where
  namespaceName : String
  identifier : String
  localName : String
  deriving DecidableEq, Repr

/-- Something that could not be resolved. -/
inductive Warning where
  /-- A built-in type has no counterpart. -/
  | unmappedBuiltin (name : String)
  /-- A type name means no definition that is a type. -/
  | unresolvedType (name : String)
  /-- A reference leads to no element. -/
  | unresolvedElement (owner field : String)
  /-- An association has no target. -/
  | missingTarget (owner field : String)
  /-- The target of an association means no definition that is a type. -/
  | unresolvedTarget (target : String)
  /-- A key of an association is no element of its target. -/
  | unknownKey (key field target : String)
  deriving DecidableEq, Repr

/-- The wording of a warning. -/
def Warning.message : Warning → String
  | unmappedBuiltin name => "builtin type '" ++ name ++ "' has no TypeScript mapping"
  | unresolvedType name => "unable to resolve type '" ++ name ++ "'"
  | unresolvedElement owner field =>
    "unable to resolve element reference '" ++ owner ++ ":" ++ field ++ "'"
  | missingTarget owner field => "association '" ++ owner ++ "." ++ field ++ "' has no target"
  | unresolvedTarget target => "unable to resolve association target '" ++ target ++ "'"
  | unknownKey key field target =>
    "foreign key '" ++ key ++ "' of '" ++ field ++ "' is not an element of '" ++ target ++ "'"

/-- The imports and warnings collected so far, in the order in which they came, and the local names
that the imports have taken. -/
structure Collected where
  imports : List Import
  taken : List String
  warnings : List Warning
  taken_eq : taken = imports.map Import.localName := by rfl
  deriving DecidableEq, Repr

namespace Collected

/-- Nothing collected yet. -/
def none : Collected where
  imports := []
  taken := []
  warnings := []

/-- The local name of an identifier that is already imported. -/
def localName? (c : Collected) (namespaceName identifier : String) : Option String :=
  (c.imports.find? fun i => i.namespaceName = namespaceName && i.identifier = identifier).map
    Import.localName

/-- Adds an import at the end and takes its local name. -/
def addImport (c : Collected) (i : Import) : Collected where
  imports := c.imports ++ [i]
  taken := c.taken ++ [i.localName]
  warnings := c.warnings
  taken_eq := by rw [c.taken_eq, List.map_append, List.map_singleton]

/-- Adds a warning at the end. -/
def addWarning (c : Collected) (w : Warning) : Collected := { c with warnings := c.warnings ++ [w] }

/-- An identifier that is already imported keeps its local name whatever is imported next. -/
theorem localName?_addImport {c : Collected} {namespaceName identifier localName : String}
    (h : c.localName? namespaceName identifier = some localName) (i : Import) :
    (c.addImport i).localName? namespaceName identifier = some localName := by
  obtain ⟨found, hf, rfl⟩ := Option.map_eq_some_iff.1 h
  rw [localName?, addImport, List.find?_append, hf]
  rfl

end Collected

/-- A resolution step, which may collect imports and warnings. -/
abbrev Resolving := StateM Collected

/-- Collects a warning. -/
def warn (w : Warning) : Resolving Unit := modify fun c => c.addWarning w

/-- What resolution depends on: the index, the namespace of the file, and its own identifiers. -/
structure Resolver where
  index : Index
  namespaceName : String
  localNames : List String

namespace Resolver

/-! ### Names -/

/-- What is put in front of an imported identifier whose own name is in use. -/
def qualifier (namespaceName : String) : String :=
  if namespaceName = "" then "Global" else sanitize namespaceName

/-- The local name for a new import. -/
def chooseLocalName (r : Resolver) (c : Collected) (namespaceName identifier : String) : String :=
  if r.localNames.contains identifier || c.taken.contains identifier then
    qualifier namespaceName ++ identifier
  else identifier

/-- The local name of an identifier of another namespace, imported if it is not yet. -/
def importName (r : Resolver) (namespaceName identifier : String) : Resolving String := do
  let c ← get
  match c.localName? namespaceName identifier with
  | some localName => return localName
  | none =>
    let localName := r.chooseLocalName c namespaceName identifier
    set (c.addImport ⟨namespaceName, identifier, localName⟩)
    return localName

/-- The local name of an identifier of some namespace. -/
def nameFrom (r : Resolver) (namespaceName identifier : String) : Resolving String :=
  if namespaceName = r.namespaceName then return identifier
  else r.importName namespaceName identifier

/-- The local name of a definition, unless there is none or it is an operation. -/
def reference (r : Resolver) (name : String) : Resolving (Option String) :=
  match r.index.get? name with
  | none => return none
  | some entry =>
    if entry.definition.isAction then return none
    else do return some (← r.nameFrom entry.namespaceName entry.identifier)

/-! ### Types -/

/-- The reference to a definition, or `unknown` with a warning. -/
def referenceOr (r : Resolver) (name : String) (w : Warning) : Resolving TypeExpr := do
  match ← r.reference name with
  | some localName => return .reference localName
  | none =>
    warn w
    return .unknown

/-- The type of a type name: a primitive, or a definition of the schema. -/
def typeName (r : Resolver) (name : String) : Resolving TypeExpr :=
  match Primitive.ofBuiltin? name with
  | some primitive => return .primitive primitive
  | none =>
    if isBuiltin name then do
      warn (.unmappedBuiltin name)
      return .unknown
    else r.referenceOr name (.unresolvedType name)

/-- The type of an association target. -/
def target (r : Resolver) (name : String) (many : Bool) : Resolving TypeExpr := do
  return (← r.referenceOr name (.unresolvedTarget name)).arrayIf many

/-- The reference to the enumeration written inside an element. -/
def inlineEnum (r : Resolver) (owner field : String) : Resolving TypeExpr :=
  match r.index.namespaceOf? owner with
  | some namespaceName => do
    return .reference (← r.nameFrom namespaceName (inlineEnumIdentifier owner field))
  | none => return .reference (inlineEnumIdentifier owner field)

/-- The type of an element, given how the type position of an element is resolved: its own
enumeration, else its target, else its type. -/
def elementVia (r : Resolver) (resolve : Option TypeRef → Resolving TypeExpr)
    (owner field : String) (element : Element) : Resolving TypeExpr :=
  if element.members.isSome then do
    return (← r.inlineEnum owner field).arrayIf element.many
  else if element.isNavigation then
    match element.target with
    | some name => r.target name element.many
    | none => do
      warn (.missingTarget owner field)
      return .unknown
  else do
    return (← resolve element.type).arrayIf element.many

/-- The type of a type position, following at most `fuel` references to elements. -/
def typeRefWithin (r : Resolver) : Nat → Option TypeRef → Resolving TypeExpr
  | _, none => return .unknown
  | _, some (.named name) => r.typeName name
  | fuel, some (.element owner field) =>
    match r.index.element? owner field with
    | none => do
      warn (.unresolvedElement owner field)
      return .unknown
    | some element =>
      match fuel with
      | 0 => return .unknown
      | fuel + 1 => r.elementVia (r.typeRefWithin fuel) owner field element

/-- The type of a type position.  A chain of references that does not run in a circle visits no
element twice, so the number of elements bounds it. -/
def typeRef (r : Resolver) (type : Option TypeRef) : Resolving TypeExpr :=
  r.typeRefWithin r.index.elementCount type

/-- The type of the element `field` of `owner`. -/
def element (r : Resolver) (owner field : String) (element : Element) : Resolving TypeExpr :=
  r.elementVia r.typeRef owner field element

/-! ### Includes and foreign keys -/

/-- The local name and the elements of an included definition, if it has elements. -/
def resolveInclude (r : Resolver) (name : String) : Resolving (Option (String × Entity)) :=
  match r.index.entity? name with
  | none => return none
  | some entity => do
    match ← r.reference name with
    | some localName => return some (localName, entity)
    | none => return none

/-- The name of a foreign-key property. -/
def foreignKeyName (field separator key : String) : String := field ++ separator ++ key

/-- The properties for the keys of an association to an entity; a key that the entity does not
have is warned of and left out. -/
def keyProperties (r : Resolver) (field targetName : String) (entity : Entity)
    (separator : String) : List KeyPath → Resolving (List Property)
  | [] => return []
  | path :: rest =>
    match entity.elements.get? path.first with
    | none => do
      warn (.unknownKey path.first field targetName)
      r.keyProperties field targetName entity separator rest
    | some element => do
      let type ← r.typeRef element.type
      let more ← r.keyProperties field targetName entity separator rest
      return ⟨foreignKeyName field separator path.first, true, type⟩ :: more

/-- The foreign-key properties of an element: those of an association to one entity. -/
def foreignKeys (r : Resolver) (field : String) (element : Element) (separator : String) :
    Resolving (List Property) :=
  if element.many || element.keys.isEmpty then return []
  else match element.target with
    | none => return []
    | some targetName =>
      match r.index.entity? targetName with
      | none => return []
      | some entity => r.keyProperties field targetName entity separator element.keys

end Resolver

end SchemaTypings.Generation
