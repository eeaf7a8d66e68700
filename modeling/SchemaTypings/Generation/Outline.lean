import SchemaTypings.Name.Identifier
import SchemaTypings.Schema.Scope

/-!
# Outlines

An outline is what one generated file is made from: the definitions of a scope by category.
Aliases come first, then enumerations, entities and actions; inside a category the order is that
of the schema or, on request, that of the names.
-/

namespace SchemaTypings.Generation

open SchemaTypings.Name SchemaTypings.Schema

/-! ### Order by name -/

/-- Entries in their own order or, on request, stably sorted by name. -/
def inOrder {α : Type} (sorted : Bool) (entries : List (String × α)) : List (String × α) :=
  if sorted then entries.mergeSort fun a b => decide (a.1 ≤ b.1) else entries

/-- Texts in ascending order without repetitions. -/
def ascending (texts : List String) : List String :=
  (texts.mergeSort fun a b => decide (a ≤ b)).eraseReps

/-! ### Categories -/

/-- The definitions of a scope by category. -/
structure Outline where
  key : ScopeKey
  aliases : List (String × Alias)
  enumerations : List (String × Enumeration)
  entities : List (String × Entity)
  actions : List (String × Action)

/-- The alias of an entry, if it is one. -/
def aliasEntry? : String × Definition → Option (String × Alias)
  | (name, .typeAlias a) => some (name, a)
  | _ => none

/-- The enumeration of an entry, if it is one. -/
def enumerationEntry? : String × Definition → Option (String × Enumeration)
  | (name, .enumeration e) => some (name, e)
  | _ => none

/-- The entity of an entry, if it is one. -/
def entityEntry? : String × Definition → Option (String × Entity)
  | (name, .entity e) => some (name, e)
  | _ => none

/-- The action of an entry, if it is one. -/
def actionEntry? : String × Definition → Option (String × Action)
  | (name, .action a) => some (name, a)
  | _ => none

namespace Outline

/-- The outline of a scope. -/
def ofScope (sorted : Bool) (scope : Scope) : Outline where
  key := scope.key
  aliases := inOrder sorted (scope.definitions.entries.filterMap aliasEntry?)
  enumerations := inOrder sorted (scope.definitions.entries.filterMap enumerationEntry?)
  entities := inOrder sorted (scope.definitions.entries.filterMap entityEntry?)
  actions := inOrder sorted (scope.definitions.entries.filterMap actionEntry?)

/-- The namespace of an outline; the global one has no name. -/
def name (o : Outline) : String := o.key.name

/-- Whether an outline has no definition. -/
def isEmpty (o : Outline) : Bool :=
  o.entities.isEmpty && o.enumerations.isEmpty && o.aliases.isEmpty && o.actions.isEmpty

/-- The definitions in the order in which they are emitted. -/
def emission (o : Outline) : List (String × Definition) :=
  o.aliases.map (fun e => (e.1, .typeAlias e.2)) ++
  o.enumerations.map (fun e => (e.1, .enumeration e.2)) ++
  o.entities.map (fun e => (e.1, .entity e.2)) ++
  o.actions.map (fun e => (e.1, .action e.2))

/-! ### The enumerations of entity names -/

/-- The name of the enumeration of qualified entity names. -/
def entityEnumName : String := "Entity"

/-- The name of the enumeration of entity identifiers. -/
def sanitizedEnumName : String := "SanitizedEntity"

/-- A text enumeration with a member for the identifier of every entity. -/
def namesEnum (o : Outline) (value : String → String) : Enumeration where
  primitive := "cds.String"
  members := Table.ofEntries (o.entities.map fun e => (identifier e.1, some (.string (value e.1))))

/-- The qualified names of the entities. -/
def entityEnum (o : Outline) : Enumeration := o.namesEnum id

/-- The identifiers of the entities. -/
def sanitizedEnum (o : Outline) : Enumeration := o.namesEnum identifier

/-! ### Local identifiers -/

/-- The identifiers of the enumerations written inside elements. -/
def inlineEnumIdentifiers (owner : String) (elements : Table Element) : List String :=
  (elements.entries.filter fun e => e.2.members.isSome).map fun e => inlineEnumIdentifier owner e.1

/-- The identifiers that an alias declares. -/
def aliasIdentifiers (entry : String × Alias) : List String :=
  identifier entry.1 ::
    match entry.2.body with
    | .type _ => []
    | .structured elements => inlineEnumIdentifiers entry.1 elements

/-- The identifiers that an entity declares. -/
def entityIdentifiers (interfacePrefix : String) (entry : String × Entity) : List String :=
  interfaceIdentifier interfacePrefix entry.1 :: inlineEnumIdentifiers entry.1 entry.2.elements

/-- The identifiers that an unbound action may declare. -/
def actionIdentifiers (interfacePrefix : String) (entry : String × Action) : List String :=
  let names := ActionNames.of interfacePrefix entry.2.kind.label entry.1 none
  [names.enumeration, names.parameters, names.result]

/-- The identifiers that the file of an outline keeps for itself, possibly with repetitions. -/
def localIdentifiers (o : Outline) (interfacePrefix : String) : List String :=
  [entityEnumName, sanitizedEnumName] ++
  o.aliases.flatMap aliasIdentifiers ++
  o.enumerations.map (fun e => identifier e.1) ++
  o.entities.flatMap (entityIdentifiers interfacePrefix) ++
  o.actions.flatMap (actionIdentifiers interfacePrefix)

end Outline

/-! ### The outlines of a schema -/

/-- Scopes in their own order or, on request, stably sorted by name. -/
def scopesInOrder (sorted : Bool) (scopes : List Scope) : List Scope :=
  if sorted then scopes.mergeSort fun a b => decide (a.key.name ≤ b.key.name) else scopes

/-- The global scope, if it has a definition. -/
def globalScope (t : ScopeTable) : List Scope :=
  if (t.definitionsOf .global).isEmpty then [] else [⟨.global, t.definitionsOf .global⟩]

/-- The outlines of a schema: namespaces, then services, then the global scope unless empty. -/
def outlines (sorted : Bool) (t : ScopeTable) : List Outline :=
  (scopesInOrder sorted (t.ofKind .nameSpace) ++ scopesInOrder sorted (t.ofKind .service) ++
    globalScope t).map (Outline.ofScope sorted)

end SchemaTypings.Generation
