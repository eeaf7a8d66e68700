import SchemaTypings.Schema.Reading
import SchemaTypings.Schema.Scope

/-!
# Placing the definitions of a schema

A schema is read in full before anything is placed.  Its services are declared first, wherever
they stand, so that their members find them; then every definition is placed in document order.
-/

namespace SchemaTypings.Schema

open SchemaTypings.Json

/-- The names of the services of a schema, in document order. -/
def serviceNames (definitions : Members) : List String :=
  (definitions.filter fun entry =>
    Shape.ofValue entry.2 = .service && !isExcluded entry.1 entry.2).map Prod.fst

namespace ScopeTable

/-- The table with the given services declared and nothing placed. -/
def withServices (names : List String) : ScopeTable :=
  names.foldl (fun t name => t.declare ⟨.service, name⟩) initial

/-- Places definitions in order. -/
def placeAll (t : ScopeTable) (definitions : List (String × Definition)) : ScopeTable :=
  definitions.foldl (fun t entry => t.place entry.1 entry.2) t

/-- The scope table of a compiled schema. -/
def ofSchema (schema : Value) : Except Fault ScopeTable :=
  match rawDefinitions schema with
  | .error fault => .error fault
  | .ok definitions =>
    (Table.collect readDefinition definitions).map fun read =>
      (withServices (serviceNames definitions)).placeAll read.entries

end ScopeTable

end SchemaTypings.Schema
