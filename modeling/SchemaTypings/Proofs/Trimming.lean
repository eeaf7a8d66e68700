import Mathlib.Data.List.Basic
import SchemaTypings.Schema.Reading

/-!
# Trimmed schemas

A trimming takes from a schema what its reader does not look at: the definitions, elements and
bound actions that are passed over, and in the objects that are read by fixed keys the members
under other keys and those that are `null`.  How much of it is taken is up to the trimming;
`Trimming.full` takes all of it.
-/

namespace SchemaTypings.Json.Value

/-- Changes the members of an object and leaves every other value alone. -/
def mapMembers (change : Members → Members) : Value → Value
  | object members => object (change members)
  | value => value

/-- Changes the items of an array and leaves every other value alone. -/
def mapItems (change : List Value → List Value) : Value → Value
  | array items => array (change items)
  | value => value

section Views

variable (change : Members → Members) (changeItems : List Value → List Value) (value : Value)

@[simp] theorem members?_mapMembers :
    (value.mapMembers change).members? = value.members?.map change := by
  cases value <;> rfl

@[simp] theorem isPresent_mapMembers : (value.mapMembers change).isPresent = value.isPresent := by
  cases value <;> rfl

@[simp] theorem items?_mapItems :
    (value.mapItems changeItems).items? = value.items?.map changeItems := by
  cases value <;> rfl

end Views

end SchemaTypings.Json.Value

namespace SchemaTypings.Schema

open SchemaTypings.Json

/-! ### What is read where -/

/-- The objects that are read by fixed keys. -/
inductive Place where
  | root
  /-- A definition of the given kind. -/
  | definition (kind : String)
  | boundAction
  | element
  /-- What `items` holds in an element, a parameter or a result. -/
  | items
  /-- What `items` holds in a definition. -/
  | arrayItems
  | cardinality
  /-- A type that is written as a path. -/
  | typePath
  /-- An entry of `keys`. -/
  | keyPath
  /-- An entry of `enum`. -/
  | enumMember
  /-- A parameter or a result. -/
  | operand
  deriving DecidableEq, Repr

/-- The keys that are read at a place. -/
def Place.keys : Place → List String
  | root => ["definitions"]
  | definition "service" => ["kind", "type"]
  | definition "entity" => ["kind", "type", "elements", "actions", "includes"]
  | definition "action" => ["kind", "type", "params", "returns"]
  | definition "function" => ["kind", "type", "params", "returns"]
  | definition _ => ["kind", "type", "enum", "elements", "items", "actions", "includes"]
  | boundAction => ["kind", "params", "returns"]
  | element =>
    ["type", "items", "target", "virtual", "@Core.Computed", "@Core.Immutable", "default",
      "enum", "keys", "cardinality"]
  | items => ["type"]
  | arrayItems => ["type", "elements"]
  | cardinality => ["max"]
  | typePath => ["ref"]
  | keyPath => ["ref"]
  | enumMember => ["val"]
  | operand => ["items", "type"]

/-- Whether a member matters: one under a key that is read, unless it is `null`, and the elements of
an entity even then, for they must be an object if they are there. -/
def Place.matters (place : Place) (key : String) (value : Value) : Bool :=
  place.keys.contains key &&
    (value.isPresent || (place = .definition "entity" && key == "elements"))

/-- Which members are kept; those that matter are. -/
structure Trimming where
  keeps : Place → String → Value → Bool
  keeps_of_matters : ∀ {place key value}, place.matters key value = true →
    keeps place key value = true

/-- The trimming that keeps nothing but what matters. -/
def Trimming.full : Trimming where
  keeps := Place.matters
  keeps_of_matters h := h

/-! ### Trimming -/

namespace Trimming

variable (v : Trimming)

/-- Trims the members at a place, and what stands inside of those that are kept. -/
def members (place : Place) (inside : String → Value → Value) (members : Members) : Members :=
  (members.filter fun entry => ((members.get? entry.1).map (v.keeps place entry.1)).getD false).map
    fun entry => (entry.1, inside entry.1 entry.2)

/-- Changes every entry of an object. -/
def entries (inside : Value → Value) : Value → Value :=
  Value.mapMembers (List.map fun entry => (entry.1, inside entry.2))

/-- Trims a type. -/
def typePath : Value → Value := Value.mapMembers (v.members .typePath fun _ => id)

/-- Trims what stands inside the items of an element, a parameter or a result. -/
def insideItems : String → Value → Value
  | "type" => v.typePath
  | _ => id

/-- Trims the items of an element, a parameter or a result. -/
def items : Value → Value := Value.mapMembers (v.members .items v.insideItems)

/-- Trims an entry of `enum`. -/
def enumMember : Value → Value := Value.mapMembers (v.members .enumMember fun _ => id)

/-- Trims an entry of `keys`. -/
def keyPath : Value → Value := Value.mapMembers (v.members .keyPath fun _ => id)

/-- Trims what stands inside an element. -/
def insideElement : String → Value → Value
  | "type" => v.typePath
  | "items" => v.items
  | "enum" => entries v.enumMember
  | "keys" => Value.mapItems (List.map v.keyPath)
  | "cardinality" => Value.mapMembers (v.members .cardinality fun _ => id)
  | _ => id

/-- Trims an element. -/
def element : Value → Value := Value.mapMembers (v.members .element v.insideElement)

/-- Whether an element is read: one that points at localized texts is passed over. -/
def isRead : Value → Bool
  | .object members => !isLocalizedElement members
  | _ => true

/-- Trims the elements under `elements` and takes away those that are passed over. -/
def elements : Value → Value := Value.mapMembers fun entries =>
  (entries.filter fun entry => isRead entry.2).map fun entry => (entry.1, v.element entry.2)

/-- Trims what stands inside a parameter or a result. -/
def insideOperand : String → Value → Value
  | "type" => v.typePath
  | "items" => v.items
  | _ => id

/-- Trims a parameter or a result. -/
def operand : Value → Value := Value.mapMembers (v.members .operand v.insideOperand)

/-- Trims what stands inside an action. -/
def insideAction : String → Value → Value
  | "params" => entries v.operand
  | "returns" => v.operand
  | _ => id

/-- Trims a bound action. -/
def boundAction : Value → Value := Value.mapMembers (v.members .boundAction v.insideAction)

/-- Whether a bound action is read: one that is neither action nor function is passed over. -/
def isOperation (raw : Value) : Bool := (Shape.ofValue raw).actionKind?.isSome

/-- Trims the bound actions under `actions` and takes away those that are passed over. -/
def boundActions : Value → Value := Value.mapMembers fun entries =>
  (entries.filter fun entry => isOperation entry.2).map fun entry =>
    (entry.1, v.boundAction entry.2)

/-- Trims what stands inside the items of an array type. -/
def insideArrayItems : String → Value → Value
  | "elements" => v.elements
  | _ => id

/-- Trims what stands inside a definition. -/
def insideDefinition : String → Value → Value
  | "enum" => entries v.enumMember
  | "elements" => v.elements
  | "items" => Value.mapMembers (v.members .arrayItems v.insideArrayItems)
  | "actions" => v.boundActions
  | key => v.insideAction key

/-- Trims a definition. -/
def definition : Value → Value := Value.mapMembers fun members =>
  v.members (.definition ((members.text? "kind").getD "")) v.insideDefinition members

/-- Whether a definition is looked at: excluded and unsupported ones are passed over. -/
def isSupported (name : String) (raw : Value) : Bool :=
  !isExcluded name raw && Shape.ofValue raw != .unsupported

/-- Trims the definitions and takes away those that are passed over. -/
def definitions (entries : Members) : Members :=
  (entries.filter fun entry => isSupported entry.1 entry.2).map fun entry =>
    (entry.1, v.definition entry.2)

/-- Trims what stands at the root. -/
def insideRoot : String → Value → Value
  | "definitions" => Value.mapMembers v.definitions
  | _ => id

/-- Trims a schema. -/
def schema : Value → Value := Value.mapMembers (v.members .root v.insideRoot)

/-! ### Members read by key -/

section Members

variable {v} {place : Place} {inside : String → Value → Value} {key : String}

/-- A look-up among trimmed members. -/
theorem get?_members (ms : Members) (key : String) :
    Members.get? (v.members place inside ms) key =
      ((ms.get? key).filter (v.keeps place key)).map (inside key) := by
  have hfind (kept : String → Bool) (entries : Members) :
      Table.find key ((entries.filter fun entry => kept entry.1).map fun entry =>
          (entry.1, inside entry.1 entry.2)) =
        if kept key then (Table.find key entries).map (inside key) else none := by
    induction entries with
    | nil => simp
    | cons entry rest ih =>
      by_cases hk : kept entry.1 = true <;> by_cases he : entry.1 = key
      · subst he
        simp [hk, Table.find_cons]
      · simp [hk, he, Table.find_cons, ih]
      · subst he
        simp [hk, ih]
      · simp [hk, he, Table.find_cons, ih]
  rw [members, Members.get?, hfind fun name =>
    ((ms.get? name).map (v.keeps place name)).getD false]
  show _ = Option.map (inside key) ((ms.get? key).filter _)
  cases hg : ms.get? key with
  | none => rfl
  | some value =>
    have hfound : Table.find key ms = some value := hg
    rw [hfound, Option.filter_some, apply_ite (Option.map (inside key))]
    rfl

/-- A member under a key that is read is there after trimming, or was `null` and is not. -/
theorem get?_members_cases (hkey : key ∈ place.keys) (ms : Members) :
    Members.get? (v.members place inside ms) key = (ms.get? key).map (inside key) ∨
      ms.get? key = some .null ∧ Members.get? (v.members place inside ms) key = none := by
  rw [get?_members]
  cases hg : ms.get? key with
  | none => exact .inl rfl
  | some value =>
    cases hk : v.keeps place key value with
    | true => exact .inl (by rw [Option.filter_some, if_pos hk])
    | false =>
      have hnull : value = .null := by
        by_contra hne
        have hpresent : value.isPresent = true := by
          cases value <;> first | exact absurd rfl hne | rfl
        have hmatters : place.matters key value = true := by
          simp [Place.matters, hkey, hpresent]
        rw [v.keeps_of_matters hmatters] at hk
        cases hk
      subst hnull
      exact .inr ⟨rfl, by rw [Option.filter_some, hk]; rfl⟩

/-- What is there and is not `null` is there after trimming. -/
theorem get?_members_of_has {ms : Members} (hkey : key ∈ place.keys) (h : ms.has key = true) :
    Members.get? (v.members place inside ms) key = (ms.get? key).map (inside key) := by
  rcases get?_members_cases hkey ms with hkept | ⟨hnull, -⟩
  · exact hkept
  · rw [Members.has, hnull] at h
    cases h

/-- What is read under a key is what was there before, if it is read the same inside. -/
theorem bind_get?_members {β : Type} (hkey : key ∈ place.keys) {read read' : Value → Option β}
    (hnull : read .null = none) (hinside : ∀ value, read' (inside key value) = read value)
    (ms : Members) :
    (Members.get? (v.members place inside ms) key).bind read' = (ms.get? key).bind read := by
  have hcases : Members.get? (v.members place inside ms) key = _ ∨ _ := get?_members_cases hkey ms
  rcases hcases with h | ⟨hms, h⟩
  · rw [h, Option.bind_map]
    exact congrArg _ (funext hinside)
  · rw [h, hms]
    exact hnull.symm

theorem test_members (hkey : key ∈ place.keys) {test : Value → Bool}
    (hnull : test .null = false) (hinside : ∀ value, test (inside key value) = test value)
    (ms : Members) :
    ((Members.get? (v.members place inside ms) key).map test).getD false =
      ((ms.get? key).map test).getD false := by
  have hcases : Members.get? (v.members place inside ms) key = _ ∨ _ := get?_members_cases hkey ms
  rcases hcases with h | ⟨hms, h⟩
  · rw [h, Option.map_map]
    exact congrArg (fun f => ((ms.get? key).map f).getD false) (funext hinside)
  · rw [h, hms]
    exact hnull.symm

theorem text?_members (hkey : key ∈ place.keys)
    (hinside : ∀ value, (inside key value).string? = value.string?) (ms : Members) :
    Members.text? (v.members place inside ms) key = ms.text? key :=
  bind_get?_members hkey rfl hinside ms

theorem object?_members {change : Members → Members} (hkey : key ∈ place.keys)
    (hinside : inside key = Value.mapMembers change) (ms : Members) :
    Members.object? (v.members place inside ms) key = (ms.object? key).map change := by
  rw [Members.object?, Members.object?, Option.map_bind]
  refine bind_get?_members hkey rfl (fun value => ?_) ms
  rw [hinside]
  exact Value.members?_mapMembers change value

theorem has_members (hkey : key ∈ place.keys)
    (hinside : ∀ value, (inside key value).isPresent = value.isPresent) (ms : Members) :
    Members.has (v.members place inside ms) key = ms.has key :=
  test_members hkey rfl hinside ms

theorem isSet_members (hkey : key ∈ place.keys) (hinside : inside key = id) (ms : Members) :
    Members.isSet (v.members place inside ms) key = ms.isSet key :=
  test_members hkey rfl (fun value => by rw [hinside]; rfl) ms

theorem textList_members (hkey : key ∈ place.keys) (hinside : inside key = id) (ms : Members) :
    textList (v.members place inside ms) key = textList ms key := by
  have harray : Members.array? (v.members place inside ms) key = ms.array? key :=
    bind_get?_members hkey rfl (fun value => by rw [hinside]; rfl) ms
  rw [textList, textList, harray]

end Members

end Trimming

end SchemaTypings.Schema
