import SchemaTypings.Name.Identifier
import SchemaTypings.Schema.Scope

/-!
# The index of definitions

Every definition of a schema by its qualified name, with the namespace whose file declares it and
the identifier under which it is declared there.
-/

namespace SchemaTypings.Generation

open SchemaTypings.Name SchemaTypings.Schema

/-- Where and as what a definition is declared. -/
structure Entry where
  namespaceName : String
  identifier : String
  definition : Definition

/-- The entries of a schema, with the prefix that interfaces are given. -/
structure Index where
  interfacePrefix : String
  entries : Table Entry

/-- The identifier of a definition: only interfaces are given the prefix. -/
def definitionIdentifier (interfacePrefix name : String) : Definition → String
  | .entity _ => interfaceIdentifier interfacePrefix name
  | _ => identifier name

namespace Index

/-- The entry of a definition of a scope. -/
def entryOf (interfacePrefix : String) (scope : Scope) (definition : String × Definition) :
    String × Entry :=
  (definition.1, { namespaceName := scope.key.name
                   identifier := definitionIdentifier interfacePrefix definition.1 definition.2
                   definition := definition.2 })

/-- The index of a scope table. -/
def ofScopes (t : ScopeTable) (interfacePrefix : String) : Index where
  interfacePrefix := interfacePrefix
  entries := Table.ofEntries
    (t.scopes.flatMap fun scope => scope.definitions.entries.map (entryOf interfacePrefix scope))

/-- The entry of a qualified name. -/
def get? (index : Index) (name : String) : Option Entry := index.entries.get? name

/-- The namespace of a qualified name. -/
def namespaceOf? (index : Index) (name : String) : Option String :=
  (index.get? name).map Entry.namespaceName

/-- The definition with elements of a qualified name. -/
def entity? (index : Index) (name : String) : Option Entity :=
  (index.get? name).bind fun entry => entry.definition.entity?

/-- An element of a definition with elements. -/
def element? (index : Index) (owner field : String) : Option Element :=
  (index.entity? owner).bind fun entity => entity.elements.get? field

/-- The number of elements of an entry. -/
def Entry.elementCount (entry : Entry) : Nat :=
  match entry.definition.entity? with
  | some entity => entity.elements.size
  | none => 0

/-- The number of elements of all definitions, which bounds every chain of element references that
does not run in a circle. -/
def elementCount (index : Index) : Nat :=
  index.entries.entries.foldr (fun entry total => Entry.elementCount entry.2 + total) 0

end Index

end SchemaTypings.Generation
