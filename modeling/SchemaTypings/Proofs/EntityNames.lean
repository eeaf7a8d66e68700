import SchemaTypings.Proofs.Categories
import SchemaTypings.Proofs.Placement

/-!
# Enumerations of entity names

An outline has two enumerations with the identifiers of its entities.  A scope may own entities of
different names and one identifier, and of these only the last is a member:
`entityEnumsComplete_iff` says that nothing else can be missing.
-/

namespace SchemaTypings.Generation

open SchemaTypings.Json SchemaTypings.Name SchemaTypings.Schema

/-- The two enumerations have a member for every entity of the outline. -/
structure EntityEnumsComplete (o : Outline) : Prop where
  /-- The members of the first are the entities in their order, set to their qualified names. -/
  qualified : o.entityEnum.members.entries.map Prod.snd =
    o.entities.map fun e => some (.string e.1)
  /-- The second has members of the same names. -/
  names : o.sanitizedEnum.members.keys = o.entityEnum.members.keys
  /-- A member of the second is set to its own name. -/
  own : ∀ member ∈ o.sanitizedEnum.members.entries, member.2 = some (.string member.1)

namespace Outline

variable {o : Outline}

/-- The members from which an enumeration of the entities is made. -/
def nameEntries (o : Outline) (value : String → String) : List (String × Option Value) :=
  o.entities.map fun e => (identifier e.1, some (.string (value e.1)))

theorem members_namesEnum (value : String → String) :
    (o.namesEnum value).members = Table.ofEntries (o.nameEntries value) := rfl

theorem names_nameEntries (value : String → String) :
    (o.nameEntries value).map Prod.fst = o.entities.map fun e => identifier e.1 := by
  rw [nameEntries, List.map_map]
  rfl

/-! ### What always holds -/

theorem keys_sanitizedEnum : o.sanitizedEnum.members.keys = o.entityEnum.members.keys :=
  Table.keys_ofEntries_congr ((names_nameEntries _).trans (names_nameEntries _).symm)

theorem own_sanitizedEnum {member : String × Option Value}
    (h : member ∈ o.sanitizedEnum.members.entries) : member.2 = some (.string member.1) := by
  obtain ⟨e, -, rfl⟩ := List.mem_map.1 (Table.mem_of_mem_ofEntries h)
  rfl

/-- The first enumeration has a member for each entity whose identifier no later one has. -/
theorem mem_entityEnum_iff (hnames : (o.entities.map Prod.fst).Nodup)
    {before after : List (String × Entity)} {e : String × Entity}
    (ho : o.entities = before ++ e :: after) :
    some (.string e.1) ∈ o.entityEnum.members.entries.map Prod.snd ↔
      ∀ later ∈ after, identifier later.1 ≠ identifier e.1 := by
  -- the members made from the entities before it, from itself and from those after it
  let entryOf (e : String × Entity) : String × Option Value := (identifier e.1, some (.string e.1))
  have hmembers : o.entityEnum.members =
      Table.ofEntries (before.map entryOf ++ entryOf e :: after.map entryOf) := by
    rw [entityEnum, members_namesEnum, nameEntries, ho, List.map_append]
    rfl
  constructor
  · intro h later hlater hsame
    obtain ⟨member, hmember, hvalue⟩ := List.mem_map.1 h
    obtain ⟨e', -, rfl⟩ := List.mem_map.1 (Table.mem_of_mem_ofEntries hmember)
    have hsame' : e'.1 = e.1 := Value.string.inj (Option.some.inj hvalue)
    have hmem : entryOf e ∈ o.entityEnum.members.entries := by
      simpa only [entryOf, hsame', id] using hmember
    -- the member has come through later entities, so one of them has the same qualified name
    rw [hmembers] at hmem
    have hagain := Table.mem_of_mem_ofEntries_of_mem hmem
      (List.mem_map.2 ⟨_, List.mem_map_of_mem hlater, hsame⟩)
    obtain ⟨other, hother, hentry⟩ := List.mem_map.1 hagain
    have hname : other.1 = e.1 := Value.string.inj (Option.some.inj (Prod.mk.inj hentry).2)
    rw [ho, List.map_append, List.map_cons, List.nodup_append, List.nodup_cons] at hnames
    exact hnames.2.1.1 (hname ▸ List.mem_map_of_mem hother)
  · intro h
    have hlast : entryOf e ∈ o.entityEnum.members.entries := by
      rw [hmembers]
      refine Table.mem_ofEntries_of_last ?_
      rw [List.map_map]
      intro hm
      obtain ⟨later, hlater, hsame⟩ := List.mem_map.1 hm
      exact h later hlater hsame
    exact List.mem_map.2 ⟨_, hlast, rfl⟩

end Outline

/-! ### Complete enumerations -/

/-- In a complete enumeration no member is missing. -/
theorem EntityEnumsComplete.length {o : Outline} (h : EntityEnumsComplete o) :
    o.entityEnum.members.entries.length = (o.nameEntries id).length := by
  simpa [Outline.nameEntries] using congrArg List.length h.qualified

/-- The entities of an outline have distinct qualified names. -/
theorem nodup_entities {t : ScopeTable} {sorted : Bool} {o : Outline} (h : o ∈ outlines sorted t) :
    (o.entities.map Prod.fst).Nodup := by
  obtain ⟨scope, -, rfl⟩ := List.mem_map.1 h
  have hnames : ((Outline.ofScope sorted scope).emission.map Prod.fst).Nodup :=
    ((emission_ofScope_perm sorted scope).map Prod.fst).nodup_iff.2 scope.definitions.distinct
  rw [Outline.emission, List.map_append, List.map_append, List.nodup_append, List.nodup_append]
    at hnames
  simpa [Function.comp_def] using hnames.1.2.1

/-- **The enumerations of entity names lack exactly the entities whose identifier comes again.**
The second has the members of the first, each set to itself; an entity has no member if and only if
a later one has its identifier; so both are complete if and only if no two entities of the outline
have one identifier. -/
theorem entityEnumsComplete_iff {t : ScopeTable} {sorted : Bool} {o : Outline}
    (ho : o ∈ outlines sorted t) :
    (EntityEnumsComplete o ↔ (o.entities.map fun e => identifier e.1).Nodup) ∧
      o.sanitizedEnum.members.keys = o.entityEnum.members.keys ∧
      (∀ member ∈ o.sanitizedEnum.members.entries, member.2 = some (.string member.1)) ∧
      ∀ before e after, o.entities = before ++ e :: after →
        (some (.string e.1) ∈ o.entityEnum.members.entries.map Prod.snd ↔
          ∀ later ∈ after, identifier later.1 ≠ identifier e.1) := by
  refine ⟨⟨fun h => ?_, fun h => ?_⟩, Outline.keys_sanitizedEnum,
    fun _ => Outline.own_sanitizedEnum,
    fun _ _ _ => Outline.mem_entityEnum_iff (nodup_entities ho)⟩
  · rw [← Outline.names_nameEntries id, ← Table.length_ofEntries_iff]
    exact h.length
  · rw [← Outline.names_nameEntries id] at h
    refine ⟨?_, Outline.keys_sanitizedEnum, fun _ => Outline.own_sanitizedEnum⟩
    rw [Outline.entityEnum, Outline.members_namesEnum, Table.entries_ofEntries h,
      Outline.nameEntries, List.map_map]
    rfl

/-- What the members of an enumeration are set to, as texts. -/
def memberTexts (members : EnumMembers) : List (String × Option String) :=
  members.entries.map fun member => (member.1, member.2.bind Value.string?)

/-- Two entities of a service, of different depth and different identifiers. -/
def nestedEntities : Table Value where
  entries :=
    let entity : Value := .object [("kind", .string "entity")]
    [("S", .object [("kind", .string "service")]), ("S.Books", entity), ("S.old.Authors", entity)]
  distinct := by decide

/-- Both entities of the service are members of its enumerations. -/
theorem entityEnumsComplete_nested : ∃ t, ScopeTable.ofSchema (schemaOf nestedEntities) = .ok t ∧
    ∃ o ∈ outlines false t,
      memberTexts o.entityEnum.members =
        [("Books", some "S.Books"), ("Authors", some "S.old.Authors")] ∧
      (o.entities.map fun e => identifier e.1).Nodup ∧ EntityEnumsComplete o := by
  have hmembers : (ScopeTable.ofSchema (schemaOf nestedEntities)).toOption.map (fun t =>
      decide (∃ o ∈ outlines false t,
        memberTexts o.entityEnum.members =
          [("Books", some "S.Books"), ("Authors", some "S.old.Authors")] ∧
        (o.entities.map fun e => identifier e.1).Nodup)) = some true := by decide +kernel
  obtain ⟨t, ht, hfound⟩ := exists_ok_of_map hmembers
  obtain ⟨o, ho, htexts, hdistinct⟩ := of_decide_eq_true hfound
  exact ⟨t, ht, o, ho, htexts, hdistinct, (entityEnumsComplete_iff ho).1.2 hdistinct⟩

/-- Two entities of a service, of different depth and one identifier. -/
def entitiesAlike : Table Value where
  entries :=
    let entity : Value := .object [("kind", .string "entity")]
    [("S", .object [("kind", .string "service")]), ("S.Books", entity), ("S.old.Books", entity)]
  distinct := by decide

/-- Not all enumerations of entity names are complete: that of the service has one member for its
two entities, and no member is set to `S.Books`. -/
theorem exists_entity_without_member :
    ∃ t, ScopeTable.ofSchema (schemaOf entitiesAlike) = .ok t ∧ ∃ o ∈ outlines false t,
      o.entities.map Prod.fst = ["S.Books", "S.old.Books"] ∧
      memberTexts o.entityEnum.members = [("Books", some "S.old.Books")] ∧
      ¬ EntityEnumsComplete o := by
  have hmembers : (ScopeTable.ofSchema (schemaOf entitiesAlike)).toOption.map (fun t =>
      decide (∃ o ∈ outlines false t, o.entities.map Prod.fst = ["S.Books", "S.old.Books"] ∧
        memberTexts o.entityEnum.members = [("Books", some "S.old.Books")])) = some true := by
    decide +kernel
  obtain ⟨t, ht, hfound⟩ := exists_ok_of_map hmembers
  obtain ⟨o, ho, hnames, htexts⟩ := of_decide_eq_true hfound
  refine ⟨t, ht, o, ho, hnames, htexts, fun hcomplete => ?_⟩
  -- one member cannot stand for two entities
  have hentities := congrArg List.length hnames
  have hone := congrArg List.length htexts
  have hlength := hcomplete.length
  simp only [memberTexts, Outline.nameEntries, List.length_map, List.length_cons, List.length_nil]
    at hentities hone hlength
  omega

end SchemaTypings.Generation
