import SchemaTypings.Name.Segments
import SchemaTypings.Schema.Definition

/-!
# Scopes

A definition belongs to the longest service that encloses it, else to the longest namespace that
does, else to a namespace made from the part before its last dot, else to the global scope.  A
scope is known by its kind and name, and a scope table holds every scope once, the global one
first, together with the owner of every definition.
-/

namespace SchemaTypings.Schema

open SchemaTypings.Name

/-- The kinds of scopes. -/
inductive ScopeKind where
  | service
  | nameSpace
  | global
  deriving DecidableEq, Repr

/-- A scope's kind and name. -/
structure ScopeKey where
  kind : ScopeKind
  name : String
  deriving DecidableEq, Repr

/-- The global scope, which has no name. -/
def ScopeKey.global : ScopeKey := ⟨.global, ""⟩

/-- A scope and its definitions by qualified name. -/
structure Scope where
  key : ScopeKey
  definitions : Table Definition

/-- The scopes of a schema in the order of their declaration, and who owns what. -/
structure ScopeTable where
  scopes : List Scope
  owners : Table ScopeKey

namespace ScopeTable

/-- The table that holds the empty global scope only. -/
def initial : ScopeTable := ⟨[⟨.global, ∅⟩], ∅⟩

/-! ### Look-up -/

/-- The keys of the scopes, in order. -/
def keys (t : ScopeTable) : List ScopeKey := t.scopes.map Scope.key

/-- The scope of a key. -/
def scope? (t : ScopeTable) (key : ScopeKey) : Option Scope :=
  t.scopes.find? fun scope => scope.key = key

/-- The definitions of the scope of a key. -/
def definitionsOf (t : ScopeTable) (key : ScopeKey) : Table Definition :=
  ((t.scope? key).map Scope.definitions).getD ∅

/-- The scopes of a kind, in order. -/
def ofKind (t : ScopeTable) (kind : ScopeKind) : List Scope :=
  t.scopes.filter fun scope => scope.key.kind = kind

/-- The scope that owns a definition. -/
def scopeOf? (t : ScopeTable) (name : String) : Option Scope :=
  (t.owners.get? name).bind t.scope?

/-- The definition of a name, as its owner holds it. -/
def definition? (t : ScopeTable) (name : String) : Option Definition :=
  (t.scopeOf? name).bind fun scope => scope.definitions.get? name

/-! ### Ownership -/

/-- Of two scope names the longer one, the second if they are equally long. -/
def longer (first : Option String) (second : String) : Option String :=
  match first with
  | none => some second
  | some name => if second.length < name.length then some name else some second

/-- The longest of the names that enclose a given one. -/
def longestEnclosing (name : String) (names : List String) : Option String :=
  (names.filter fun scope => encloses scope name).foldl longer none

/-- The scope of a kind that encloses a name and has the longest name of all that do. -/
def enclosing? (t : ScopeTable) (kind : ScopeKind) (name : String) : Option ScopeKey :=
  (longestEnclosing name ((t.ofKind kind).map fun scope => scope.key.name)).map (ScopeKey.mk kind)

/-- The scope that a definition of a name belongs to, declared or not. -/
def ownerOf (t : ScopeTable) (name : String) : ScopeKey :=
  match t.enclosing? .service name with
  | some key => key
  | none =>
    match t.enclosing? .nameSpace name with
    | some key => key
    | none =>
      match parent? name with
      | some parent => ⟨.nameSpace, parent⟩
      | none => .global

/-! ### Changes -/

/-- Adds an empty scope at the end unless the table has one of that key. -/
def declare (t : ScopeTable) (key : ScopeKey) : ScopeTable :=
  if key ∈ t.keys then t else { t with scopes := t.scopes ++ [⟨key, ∅⟩] }

/-- Puts a definition into a declared scope and records that scope as its owner. -/
def insert (t : ScopeTable) (key : ScopeKey) (name : String) (definition : Definition) :
    ScopeTable where
  scopes := t.scopes.map fun scope =>
    if scope.key = key then { scope with definitions := scope.definitions.insert name definition }
    else scope
  owners := t.owners.insert name key

/-- Puts a definition into the scope that it belongs to, declaring the scope if need be. -/
def place (t : ScopeTable) (name : String) (definition : Definition) : ScopeTable :=
  (t.declare (t.ownerOf name)).insert (t.ownerOf name) name definition

theorem keys_declare (t : ScopeTable) (key : ScopeKey) :
    (t.declare key).keys = if key ∈ t.keys then t.keys else t.keys ++ [key] := by
  unfold declare
  split
  · rfl
  · simp [keys]

@[simp] theorem keys_insert (t : ScopeTable) (key : ScopeKey) (name : String)
    (definition : Definition) : (t.insert key name definition).keys = t.keys := by
  simp only [keys, insert, List.map_map]
  refine List.map_congr_left fun scope _ => ?_
  simp only [Function.comp_apply]
  split <;> rfl

/-- A declared scope is one of the table's. -/
theorem mem_keys_declare (t : ScopeTable) (key : ScopeKey) : key ∈ (t.declare key).keys := by
  rw [keys_declare]
  split
  · next h => exact h
  · simp

/-- Declaring a scope again changes nothing. -/
theorem declare_of_mem {t : ScopeTable} {key : ScopeKey} (h : key ∈ t.keys) :
    t.declare key = t :=
  if_pos h

@[simp] theorem keys_place (t : ScopeTable) (name : String) (definition : Definition) :
    (t.place name definition).keys = (t.declare (t.ownerOf name)).keys :=
  keys_insert _ _ _ _

end ScopeTable

end SchemaTypings.Schema
