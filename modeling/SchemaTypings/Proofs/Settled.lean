import SchemaTypings.Proofs.Tables
import SchemaTypings.Schema.Placement

/-!
# Settled definitions

A member of an enumeration whose value is written as `null` is set to nothing, like one without a
value.  A definition is settled by taking such values away.  Names, owners and everything that
resolution reads stay as they are, so placing commutes with settling.
-/

namespace SchemaTypings.Schema

open SchemaTypings.Json

/-! ### Settling -/

/-- The members of an enumeration without the values that are `null`. -/
def EnumMembers.settled (members : EnumMembers) : EnumMembers :=
  members.map (Option.filter Value.isPresent)

/-- The element with its enumeration settled. -/
def Element.settled (element : Element) : Element :=
  { element with members := element.members.map EnumMembers.settled }

/-- The definition with elements, each of them settled. -/
def Entity.settled (entity : Entity) : Entity :=
  { entity with elements := entity.elements.map Element.settled }

/-- What an alias stands for, with its elements settled. -/
def AliasBody.settled : AliasBody → AliasBody
  | type name => type name
  | structured elements => structured (elements.map Element.settled)

/-- The alias with its body settled. -/
def Alias.settled (a : Alias) : Alias := { a with body := a.body.settled }

/-- The enumeration with its members settled. -/
def Enumeration.settled (enumeration : Enumeration) : Enumeration :=
  { enumeration with members := enumeration.members.settled }

/-- The definition with its enumerations settled. -/
def Definition.settled : Definition → Definition
  | entity e => entity e.settled
  | typeAlias a => typeAlias a.settled
  | enumeration e => enumeration e.settled
  | action a => action a

/-- The scope with its definitions settled. -/
def Scope.settled (scope : Scope) : Scope :=
  { scope with definitions := scope.definitions.map Definition.settled }

/-- The table with its scopes settled. -/
def ScopeTable.settled (t : ScopeTable) : ScopeTable :=
  { t with scopes := t.scopes.map Scope.settled }

/-! ### Settling again -/

theorem EnumMembers.settled_settled (members : EnumMembers) :
    EnumMembers.settled members.settled = members.settled := by
  refine Table.ext_entries ?_
  simp only [settled, Table.entries_map, List.map_map]
  refine List.map_congr_left fun entry _ => ?_
  simp

theorem Element.settled_settled (element : Element) :
    element.settled.settled = element.settled := by
  obtain ⟨type, target, many, nullable, keys, members⟩ := element
  cases members with
  | none => rfl
  | some members => simp only [settled, Option.map_some, EnumMembers.settled_settled]

theorem map_settled_settled (elements : Table Element) :
    (elements.map Element.settled).map Element.settled = elements.map Element.settled := by
  refine Table.ext_entries ?_
  simp only [Table.entries_map, List.map_map]
  exact List.map_congr_left fun entry _ => congrArg (Prod.mk entry.1) entry.2.settled_settled

/-- A settled definition is settled. -/
theorem Definition.settled_settled (definition : Definition) :
    definition.settled.settled = definition.settled := by
  cases definition with
  | entity e => simp only [settled, Entity.settled, map_settled_settled]
  | typeAlias a =>
    obtain ⟨body, many⟩ := a
    cases body with
    | type name => rfl
    | structured elements =>
      simp only [settled, Alias.settled, AliasBody.settled, map_settled_settled]
  | enumeration e => simp only [settled, Enumeration.settled, EnumMembers.settled_settled]
  | action a => rfl

/-! ### What settling keeps -/

namespace Element

variable (element : Element)

@[simp] theorem type_settled : element.settled.type = element.type := rfl

@[simp] theorem target_settled : element.settled.target = element.target := rfl

@[simp] theorem many_settled : element.settled.many = element.many := rfl

@[simp] theorem isSome_members_settled :
    element.settled.members.isSome = element.members.isSome := Option.isSome_map

@[simp] theorem isNavigation_settled :
    element.settled.isNavigation = element.isNavigation := rfl

end Element

@[simp] theorem Definition.isAction_settled (definition : Definition) :
    definition.settled.isAction = definition.isAction := by
  cases definition <;> rfl

@[simp] theorem Definition.entity?_settled (definition : Definition) :
    definition.settled.entity? = definition.entity?.map Entity.settled := by
  cases definition <;> rfl

namespace ScopeTable

@[simp] theorem keys_settled (t : ScopeTable) : t.settled.keys = t.keys := by
  rw [keys, keys, settled, List.map_map]
  rfl

theorem ofKind_settled (t : ScopeTable) (kind : ScopeKind) :
    t.settled.ofKind kind = (t.ofKind kind).map Scope.settled := by
  rw [ofKind, ofKind, settled, List.filter_map]
  rfl

theorem scope?_settled (t : ScopeTable) (key : ScopeKey) :
    t.settled.scope? key = (t.scope? key).map Scope.settled := by
  rw [scope?, scope?, settled, List.find?_map]
  rfl

theorem definitionsOf_settled (t : ScopeTable) (key : ScopeKey) :
    t.settled.definitionsOf key = (t.definitionsOf key).map Definition.settled := by
  rw [definitionsOf, definitionsOf, scope?_settled]
  cases t.scope? key <;> rfl

theorem enclosing?_settled (t : ScopeTable) (kind : ScopeKind) (name : String) :
    t.settled.enclosing? kind name = t.enclosing? kind name := by
  rw [enclosing?, enclosing?, ofKind_settled, List.map_map]
  rfl

@[simp] theorem ownerOf_settled (t : ScopeTable) (name : String) :
    t.settled.ownerOf name = t.ownerOf name := by
  simp only [ownerOf, enclosing?_settled]

theorem declare_settled (t : ScopeTable) (key : ScopeKey) :
    t.settled.declare key = (t.declare key).settled := by
  rw [declare, declare, keys_settled]
  split
  · rfl
  · simp only [settled, List.map_append]
    rfl

theorem insert_settled (t : ScopeTable) (key : ScopeKey) (name : String)
    (definition : Definition) :
    t.settled.insert key name definition.settled = (t.insert key name definition).settled := by
  simp only [insert, settled, List.map_map]
  congr 1
  refine List.map_congr_left fun scope _ => ?_
  show (if scope.settled.key = key then _ else _) = Scope.settled (if scope.key = key then _ else _)
  rw [apply_ite Scope.settled]
  refine if_congr Iff.rfl ?_ rfl
  simp only [Scope.settled, Table.map_insert]

/-- Placing a settled definition is settling what was placed. -/
theorem place_settled (t : ScopeTable) (name : String) (definition : Definition) :
    t.settled.place name definition.settled = (t.place name definition).settled := by
  rw [place, place, ownerOf_settled, declare_settled, insert_settled]

theorem placeAll_settled (t : ScopeTable) (definitions : List (String × Definition)) :
    t.settled.placeAll (definitions.map fun d => (d.1, d.2.settled)) =
      (t.placeAll definitions).settled := by
  induction definitions generalizing t with
  | nil => rfl
  | cons d rest ih =>
    show (t.settled.place d.1 d.2.settled).placeAll _ = _
    rw [place_settled]
    exact ih (t.place d.1 d.2)

/-- Declared services have nothing to settle. -/
theorem settled_withServices (names : List String) :
    (withServices names).settled = withServices names := by
  have hrun (t : ScopeTable) (h : t.settled = t) :
      (names.foldl (fun t name => t.declare ⟨.service, name⟩) t).settled =
        names.foldl (fun t name => t.declare ⟨.service, name⟩) t := by
    induction names generalizing t with
    | nil => exact h
    | cons name rest ih =>
      refine ih (t.declare ⟨.service, name⟩) ?_
      rw [← declare_settled, h]
  exact hrun initial rfl

end ScopeTable

end SchemaTypings.Schema
