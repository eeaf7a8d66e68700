import SchemaTypings.Generation.Declarations

/-!
# Sketches of declarations

A sketch is a declaration before its references have local names: a reference is still the mention
of what it means.  Sketches are functions of a catalogue, which tells the definitions by name, and
of nothing else; in particular they know neither namespaces nor imports nor the interface prefix.
`TypeSketch.named`, `PropertySketch.named` and `DeclarationSketch.named` put local names in.
-/

namespace SchemaTypings.Generation

open SchemaTypings.Name SchemaTypings.Schema SchemaTypings.Typing

/-! ### Mentions and events -/

/-- What a reference means. -/
inductive Mention where
  /-- A definition, by its qualified name. -/
  | definition (name : String)
  /-- The enumeration written inside the field of a definition. -/
  | inlineEnum (owner field : String)
  deriving DecidableEq

/-- The definition that is mentioned, or to which what is mentioned belongs. -/
def Mention.owner : Mention → String
  | definition name => name
  | inlineEnum owner _ => owner

/-- What resolution comes upon: something to refer to, or a reason for a warning. -/
inductive Event where
  | mention (mention : Mention)
  | warning (warning : Warning)

/-- What events mention, in order. -/
def mentionsOf (events : List Event) : List Mention :=
  events.filterMap fun
    | .mention m => some m
    | .warning _ => none

/-- What events warn of, in order. -/
def warningsOf (events : List Event) : List Warning :=
  events.filterMap fun
    | .mention _ => none
    | .warning w => some w

@[simp] theorem mentionsOf_append (a b : List Event) :
    mentionsOf (a ++ b) = mentionsOf a ++ mentionsOf b := List.filterMap_append
@[simp] theorem warningsOf_append (a b : List Event) :
    warningsOf (a ++ b) = warningsOf a ++ warningsOf b := List.filterMap_append
@[simp] theorem mentionsOf_nil : mentionsOf [] = [] := rfl
@[simp] theorem mentionsOf_mention (m : Mention) (rest : List Event) :
    mentionsOf (.mention m :: rest) = m :: mentionsOf rest := rfl
@[simp] theorem mentionsOf_warning (w : Warning) (rest : List Event) :
    mentionsOf (.warning w :: rest) = mentionsOf rest := rfl

theorem mem_mentionsOf (events : List Event) (m : Mention) :
    m ∈ mentionsOf events ↔ .mention m ∈ events := by
  induction events with
  | nil => simp
  | cons event rest ih => cases event <;> simp [ih]

/-! ### Sketches -/

mutual

/-- A type expression whose references are mentions. -/
inductive TypeSketch where
  /-- Unknown, with a warning unless there was nothing to resolve. -/
  | unknown (cause : Option Warning)
  | primitive (primitive : Primitive)
  | mention (mention : Mention)
  | object (properties : List PropertySketch)
  | array (item : TypeSketch)

/-- A property whose type is a sketch, or a key that is left out with a warning. -/
inductive PropertySketch where
  | property (name : String) (optional : Bool) (type : TypeSketch)
  | missing (cause : Warning)

end

/-- A declaration whose references are mentions.  The names of interfaces and groups are stems, to
which the interface prefix is added. -/
inductive DeclarationSketch where
  | interface (stem : String) (bases : List Mention) (properties : List PropertySketch)
  | enumeration (name : String) (members : List EnumMember)
  | typeAlias (name : String) (type : TypeSketch)
  | group (stem : String) (declarations : List DeclarationSketch)

/-- The array of a sketch if there are many values, otherwise the sketch itself. -/
def TypeSketch.arrayIf (type : TypeSketch) (many : Bool) : TypeSketch :=
  if many then .array type else type

/-! ### Events of sketches -/

mutual

/-- What is come upon in a type, in order. -/
def TypeSketch.events : TypeSketch → List Event
  | .unknown cause => (cause.map Event.warning).toList
  | .primitive _ => []
  | .mention m => [.mention m]
  | .object properties => propertyEvents properties
  | .array item => item.events

/-- What is come upon in a property, in order. -/
def PropertySketch.events : PropertySketch → List Event
  | .property _ _ type => type.events
  | .missing cause => [.warning cause]

/-- What is come upon in properties, in order. -/
def propertyEvents : List PropertySketch → List Event
  | [] => []
  | property :: rest => property.events ++ propertyEvents rest

end

mutual

/-- What is come upon in a declaration, in order. -/
def DeclarationSketch.events : DeclarationSketch → List Event
  | .interface _ bases properties => bases.map Event.mention ++ propertyEvents properties
  | .enumeration _ _ => []
  | .typeAlias _ type => type.events
  | .group _ declarations => declarationEvents declarations

/-- What is come upon in declarations, in order. -/
def declarationEvents : List DeclarationSketch → List Event
  | [] => []
  | declaration :: rest => declaration.events ++ declarationEvents rest

end

theorem propertyEvents_eq_flatMap (properties : List PropertySketch) :
    propertyEvents properties = properties.flatMap PropertySketch.events := by
  induction properties with
  | nil => rfl
  | cons property rest ih => rw [propertyEvents, ih, List.flatMap_cons]

theorem propertyEvents_append (a b : List PropertySketch) :
    propertyEvents (a ++ b) = propertyEvents a ++ propertyEvents b := by
  simp only [propertyEvents_eq_flatMap, List.flatMap_append]

@[simp] theorem propertyEvents_property (name : String) (optional : Bool) (type : TypeSketch)
    (rest : List PropertySketch) :
    propertyEvents (.property name optional type :: rest) = type.events ++ propertyEvents rest :=
  rfl

theorem declarationEvents_eq_flatMap (declarations : List DeclarationSketch) :
    declarationEvents declarations = declarations.flatMap DeclarationSketch.events := by
  induction declarations with
  | nil => rfl
  | cons declaration rest ih => rw [declarationEvents, ih, List.flatMap_cons]

theorem declarationEvents_append (a b : List DeclarationSketch) :
    declarationEvents (a ++ b) = declarationEvents a ++ declarationEvents b := by
  simp only [declarationEvents_eq_flatMap, List.flatMap_append]

@[simp] theorem events_arrayIf (type : TypeSketch) (many : Bool) :
    (type.arrayIf many).events = type.events := by
  cases many <;> rfl

/-! ### Local names put in -/

mutual

/-- The type with local names for what it mentions. -/
def TypeSketch.named (nameOf : Mention → String) : TypeSketch → TypeExpr
  | .unknown _ => .unknown
  | .primitive primitive => .primitive primitive
  | .mention m => .reference (nameOf m)
  | .object properties => .object (namedProperties nameOf properties)
  | .array item => .array (item.named nameOf)

/-- The property with local names, unless it is left out. -/
def PropertySketch.named (nameOf : Mention → String) : PropertySketch → Option Property
  | .property name optional type => some ⟨name, optional, type.named nameOf⟩
  | .missing _ => none

/-- The properties with local names. -/
def namedProperties (nameOf : Mention → String) : List PropertySketch → List Property
  | [] => []
  | property :: rest => (property.named nameOf).toList ++ namedProperties nameOf rest

end

mutual

/-- The declaration with local names. -/
def DeclarationSketch.named (interfacePrefix : String) (nameOf : Mention → String) :
    DeclarationSketch → Declaration
  | .interface stem bases properties =>
    .interface (interfacePrefix ++ stem) (bases.map nameOf) (namedProperties nameOf properties)
  | .enumeration name members => .enumeration name members
  | .typeAlias name type => .typeAlias name (type.named nameOf)
  | .group stem declarations =>
    .group (interfacePrefix ++ stem ++ ".actions")
      (namedDeclarations interfacePrefix nameOf declarations)

/-- The declarations with local names. -/
def namedDeclarations (interfacePrefix : String) (nameOf : Mention → String) :
    List DeclarationSketch → List Declaration
  | [] => []
  | declaration :: rest =>
    declaration.named interfacePrefix nameOf :: namedDeclarations interfacePrefix nameOf rest

end

theorem namedProperties_eq_flatMap (nameOf : Mention → String)
    (properties : List PropertySketch) : namedProperties nameOf properties =
      properties.flatMap fun property => (property.named nameOf).toList := by
  induction properties with
  | nil => rfl
  | cons property rest ih => rw [namedProperties, ih, List.flatMap_cons]

theorem namedProperties_append (nameOf : Mention → String) (a b : List PropertySketch) :
    namedProperties nameOf (a ++ b) = namedProperties nameOf a ++ namedProperties nameOf b := by
  simp only [namedProperties_eq_flatMap, List.flatMap_append]

@[simp] theorem namedProperties_property (nameOf : Mention → String) (name : String)
    (optional : Bool) (type : TypeSketch) (rest : List PropertySketch) :
    namedProperties nameOf (.property name optional type :: rest) =
      ⟨name, optional, type.named nameOf⟩ :: namedProperties nameOf rest := rfl

theorem namedDeclarations_eq_map (interfacePrefix : String) (nameOf : Mention → String)
    (declarations : List DeclarationSketch) :
    namedDeclarations interfacePrefix nameOf declarations =
      declarations.map (DeclarationSketch.named interfacePrefix nameOf) := by
  induction declarations with
  | nil => rfl
  | cons declaration rest ih => rw [namedDeclarations, ih, List.map_cons]

theorem namedDeclarations_append (interfacePrefix : String) (nameOf : Mention → String)
    (a b : List DeclarationSketch) : namedDeclarations interfacePrefix nameOf (a ++ b) =
      namedDeclarations interfacePrefix nameOf a ++ namedDeclarations interfacePrefix nameOf b := by
  simp only [namedDeclarations_eq_map, List.map_append]

@[simp] theorem named_arrayIf (nameOf : Mention → String) (type : TypeSketch) (many : Bool) :
    (type.arrayIf many).named nameOf = (type.named nameOf).arrayIf many := by
  cases many <;> rfl

/-! ### Sketches of types -/

/-- What sketching reads: the definitions by name, and a bound on chains of element references. -/
structure Catalogue where
  definition? : String → Option Definition
  bound : Nat

/-- The catalogue of an index. -/
def Index.catalogue (index : Index) : Catalogue where
  definition? name := (index.get? name).map Entry.definition
  bound := index.elementCount

namespace Catalogue

/-- The definition with elements of a qualified name. -/
def entity? (k : Catalogue) (name : String) : Option Entity :=
  (k.definition? name).bind Definition.entity?

/-- An element of a definition with elements. -/
def element? (k : Catalogue) (owner field : String) : Option Element :=
  (k.entity? owner).bind fun entity => entity.elements.get? field

/-- Whether a name means a definition that can be referred to. -/
def isReferable (k : Catalogue) (name : String) : Bool :=
  ((k.definition? name).map fun definition => !definition.isAction).getD false

theorem isReferable_of_entity? {k : Catalogue} {name : String} {entity : Entity}
    (h : k.entity? name = some entity) : k.isReferable name = true := by
  obtain ⟨definition, hd, he⟩ := Option.bind_eq_some_iff.1 h
  rw [isReferable, hd]
  cases definition with
  | action a => cases he
  | entity e => rfl
  | typeAlias a => rfl
  | enumeration e => rfl

/-- The mention of a definition, or unknown with a warning. -/
def mentionOr (k : Catalogue) (name : String) (w : Warning) : TypeSketch :=
  if k.isReferable name then .mention (.definition name) else .unknown (some w)

/-- The type of a type name. -/
def typeName (k : Catalogue) (name : String) : TypeSketch :=
  match Primitive.ofBuiltin? name with
  | some primitive => .primitive primitive
  | none =>
    if isBuiltin name then .unknown (some (.unmappedBuiltin name))
    else k.mentionOr name (.unresolvedType name)

/-- The type of an element, given the types of type positions. -/
def elementVia (k : Catalogue) (typeOf : Option TypeRef → TypeSketch) (owner field : String)
    (element : Element) : TypeSketch :=
  if element.members.isSome then (TypeSketch.mention (.inlineEnum owner field)).arrayIf element.many
  else if element.isNavigation then
    match element.target with
    | some name => (k.mentionOr name (.unresolvedTarget name)).arrayIf element.many
    | none => .unknown (some (.missingTarget owner field))
  else (typeOf element.type).arrayIf element.many

/-- The type of a type position, following at most `fuel` references to elements. -/
def typeRefWithin (k : Catalogue) : Nat → Option TypeRef → TypeSketch
  | _, none => .unknown none
  | _, some (.named name) => k.typeName name
  | fuel, some (.element owner field) =>
    match k.element? owner field with
    | none => .unknown (some (.unresolvedElement owner field))
    | some element =>
      match fuel with
      | 0 => .unknown none
      | fuel + 1 => k.elementVia (k.typeRefWithin fuel) owner field element

/-- The type of a type position. -/
def typeRef (k : Catalogue) (type : Option TypeRef) : TypeSketch := k.typeRefWithin k.bound type

/-- The type of the element `field` of `owner`. -/
def element (k : Catalogue) (owner field : String) (element : Element) : TypeSketch :=
  k.elementVia k.typeRef owner field element

/-! ### Sketches of properties -/

/-- The property of a key of an association to an entity. -/
def keyProperty (k : Catalogue) (field targetName : String) (entity : Entity) (separator : String)
    (path : KeyPath) : PropertySketch :=
  match entity.elements.get? path.first with
  | none => .missing (.unknownKey path.first field targetName)
  | some element =>
    .property (Resolver.foreignKeyName field separator path.first) true (k.typeRef element.type)

/-- The foreign keys of an element. -/
def foreignKeys (k : Catalogue) (separator field : String) (element : Element) :
    List PropertySketch :=
  if element.many || element.keys.isEmpty then []
  else match element.target with
    | none => []
    | some targetName =>
      match k.entity? targetName with
      | none => []
      | some entity => element.keys.map (k.keyProperty field targetName entity separator)

/-- The property of an element, followed by its foreign keys. -/
def elementProperties (k : Catalogue) (separator owner : String) (entry : String × Element) :
    List PropertySketch :=
  .property entry.1 (entry.2.nullable || entry.2.isNavigation) (k.element owner entry.1 entry.2) ::
    k.foreignKeys separator entry.1 entry.2

/-- The property of a parameter. -/
def parameter (k : Catalogue) (entry : String × Operand) : PropertySketch :=
  .property entry.1 false ((k.typeRef entry.2.type).arrayIf entry.2.many)

/-! ### Sketches of declarations -/

/-- The interface of an action's parameters, if there are any. -/
def parameterInterface (k : Catalogue) (stem : String) (parameters : Table Operand) :
    List DeclarationSketch :=
  if parameters.isEmpty then [] else [.interface stem [] (parameters.entries.map k.parameter)]

/-- The alias of an action's result, if there is one. -/
def resultAlias (k : Catalogue) (name : String) (result : Option Operand) :
    List DeclarationSketch :=
  match result with
  | none => []
  | some operand => [.typeAlias name ((k.typeRef operand.type).arrayIf operand.many)]

/-- The declarations of an action, bound to `owner` if there is one. -/
def action (k : Catalogue) (name : String) (action : Action) (owner : Option String) :
    List DeclarationSketch :=
  let names := ActionNames.of "" action.kind.label name owner
  .enumeration names.enumeration (actionMembers names.short action.parameters.keys) ::
    k.parameterInterface names.parameters action.parameters ++
    k.resultAlias names.result action.result

/-- The group of the actions bound to an entity, if there are any. -/
def actionGroup (k : Catalogue) (owner : String) (actions : Table Action) :
    List DeclarationSketch :=
  if actions.isEmpty then []
  else [.group (identifier owner)
    (actions.entries.flatMap fun entry => k.action entry.1 entry.2 (some owner))]

/-- The included definitions that have elements. -/
def includes (k : Catalogue) (names : List String) : List (String × Entity) :=
  names.filterMap fun name => (k.entity? name).map fun entity => (name, entity)

/-- A declaration without references, as a sketch. -/
def enumerationSketch : Declaration → DeclarationSketch
  | .enumeration name members => .enumeration name members
  | declaration => .enumeration declaration.name []

/-- The declarations of an entity. -/
def entity (k : Catalogue) (separator name : String) (entity : Entity) : List DeclarationSketch :=
  let bases := k.includes entity.includes
  let own := ownElements entity bases
  (own.filterMap (inlineEnumOf name)).map enumerationSketch ++
    .interface (identifier name) (bases.map fun base => .definition base.1)
      (own.flatMap (k.elementProperties separator name)) ::
    k.actionGroup name entity.actions

/-- The type that an alias stands for, before it is made an array. -/
def aliasType (k : Catalogue) (separator name : String) : AliasBody → TypeSketch
  | .type (some typeName) => k.typeName typeName
  | .type none => .unknown none
  | .structured elements => .object (elements.entries.flatMap (k.elementProperties separator name))

/-- The declarations of an alias. -/
def typeAlias (k : Catalogue) (separator name : String) (a : Alias) : List DeclarationSketch :=
  (aliasEnums name a.body).map enumerationSketch ++
    [.typeAlias (identifier name) ((k.aliasType separator name a.body).arrayIf a.many)]

/-- The declarations of a definition. -/
def definition (k : Catalogue) (separator name : String) : Definition → List DeclarationSketch
  | .entity e => k.entity separator name e
  | .typeAlias a => k.typeAlias separator name a
  | .enumeration e => [enumerationSketch (enumerationAs (identifier name) e)]
  | .action a => k.action name a none

/-- The declarations of an outline. -/
def outline (k : Catalogue) (separator : String) (o : Outline) : List DeclarationSketch :=
  o.emission.flatMap (fun entry => k.definition separator entry.1 entry.2) ++
    [enumerationSketch (enumerationAs Outline.entityEnumName o.entityEnum),
      enumerationSketch (enumerationAs Outline.sanitizedEnumName o.sanitizedEnum)]

end Catalogue

/-! ### Types without object types -/

/-- A type in which there is at most one thing to come upon: no object types, only arrays. -/
inductive TypeSketch.Flat : TypeSketch → Prop where
  | unknown (cause : Option Warning) : Flat (.unknown cause)
  | primitive (primitive : Primitive) : Flat (.primitive primitive)
  | mention (mention : Mention) : Flat (.mention mention)
  | array {item : TypeSketch} (flat : Flat item) : Flat (.array item)

theorem TypeSketch.Flat.arrayIf {type : TypeSketch} (h : type.Flat) (many : Bool) :
    (type.arrayIf many).Flat := by
  cases many with
  | false => exact h
  | true => exact .array h

theorem TypeSketch.Flat.length_events_le {type : TypeSketch} (h : type.Flat) :
    type.events.length ≤ 1 := by
  induction h with
  | unknown cause => cases cause <;> simp [TypeSketch.events]
  | primitive => exact Nat.zero_le 1
  | mention => exact Nat.le_refl 1
  | array _ ih => exact ih

namespace Catalogue

variable (k : Catalogue)

theorem flat_mentionOr (name : String) (w : Warning) : (k.mentionOr name w).Flat := by
  rw [mentionOr]
  split
  · exact .mention _
  · exact .unknown _

theorem flat_typeName (name : String) : (k.typeName name).Flat := by
  rw [typeName]
  split
  · exact .primitive _
  · split
    · exact .unknown _
    · exact k.flat_mentionOr _ _

theorem flat_elementVia {typeOf : Option TypeRef → TypeSketch} (h : ∀ type, (typeOf type).Flat)
    (owner field : String) (element : Element) :
    (k.elementVia typeOf owner field element).Flat := by
  rw [elementVia]
  split
  · exact (TypeSketch.Flat.mention _).arrayIf _
  · split
    · split
      · exact (k.flat_mentionOr _ _).arrayIf _
      · exact .unknown _
    · exact (h _).arrayIf _

theorem flat_typeRefWithin (fuel : Nat) (type : Option TypeRef) :
    (k.typeRefWithin fuel type).Flat := by
  induction fuel generalizing type with
  | zero =>
    rcases type with _ | name | ⟨owner, field⟩
    · exact .unknown _
    · exact k.flat_typeName name
    · rw [typeRefWithin]
      split <;> exact .unknown _
  | succ fuel ih =>
    rcases type with _ | name | ⟨owner, field⟩
    · exact .unknown _
    · exact k.flat_typeName name
    · rw [typeRefWithin]
      split
      · exact .unknown _
      · exact k.flat_elementVia ih _ _ _

theorem flat_typeRef (type : Option TypeRef) : (k.typeRef type).Flat := k.flat_typeRefWithin _ _

theorem flat_element (owner field : String) (element : Element) :
    (k.element owner field element).Flat :=
  k.flat_elementVia k.flat_typeRef _ _ _

end Catalogue

/-! ### The catalogue of an index -/

namespace Index

variable {index : Index}

theorem definition?_catalogue (name : String) :
    index.catalogue.definition? name = (index.get? name).map Entry.definition := rfl

theorem entity?_catalogue (name : String) :
    index.catalogue.entity? name = index.entity? name := by
  rw [Catalogue.entity?, definition?_catalogue, Option.bind_map]
  rfl

theorem element?_catalogue (owner field : String) :
    index.catalogue.element? owner field = index.element? owner field := by
  rw [Catalogue.element?, entity?_catalogue, element?]

theorem exists_entry_of_isReferable {name : String}
    (h : index.catalogue.isReferable name = true) :
    ∃ entry, index.get? name = some entry ∧ entry.definition.isAction = false := by
  rw [Catalogue.isReferable, definition?_catalogue] at h
  cases hg : index.get? name with
  | none => simp [hg] at h
  | some entry => exact ⟨entry, rfl, by simpa [hg] using h⟩

end Index

end SchemaTypings.Generation
