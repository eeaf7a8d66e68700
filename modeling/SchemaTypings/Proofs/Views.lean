import SchemaTypings.Proofs.Emission

/-!
# One owner in all views

Who owns a definition is asked in four places: the table has an owner for every name and scopes that
hold the definitions, the outlines list what is emitted, and the index gives a namespace by name.
`ofSchema_views` says that all four answer alike.
-/

namespace SchemaTypings.Schema.Placed

open SchemaTypings.Generation

variable {services : List String} {placed : List (String × Definition)} {t : ScopeTable}

/-- The namespace of an entry is the name of the owner. -/
theorem namespaceName_get?_ofScopes (h : Placed services placed t)
    (interfacePrefix name : String) :
    ((Index.ofScopes t interfacePrefix).get? name).map Entry.namespaceName =
      (t.owners.get? name).map ScopeKey.name := by
  refine Option.ext fun namespaceName => ?_
  rw [Option.map_eq_some_iff, Option.map_eq_some_iff]
  constructor
  · rintro ⟨entry, hentry, rfl⟩
    obtain ⟨definition, key, -, ho, rfl⟩ := (h.get?_ofScopes_iff _ _ _).1 hentry
    exact ⟨key, ho, rfl⟩
  · rintro ⟨key, ho, rfl⟩
    obtain ⟨definition, hd⟩ := h.exists_of_owner ho
    exact ⟨_, (h.get?_ofScopes_iff _ _ _).2 ⟨definition, key, hd, ho, rfl⟩, rfl⟩

/-- An outline lists a name exactly if its scope is the owner. -/
theorem mem_names_emission_iff (h : Placed services placed t) {sorted : Bool} {o : Outline}
    (hmem : o ∈ outlines sorted t) (name : String) :
    name ∈ o.emission.map Prod.fst ↔ t.owners.get? name = some o.key := by
  constructor
  · intro hname
    obtain ⟨d, hd, rfl⟩ := List.mem_map.1 hname
    exact ((h.mem_emission_iff hmem d).1 hd).2
  · intro ho
    obtain ⟨definition, hd⟩ := h.exists_of_owner ho
    exact List.mem_map.2 ⟨_, (h.mem_emission_iff hmem (name, definition)).2 ⟨hd, ho⟩, rfl⟩

/-- The outlines that list a name are the one of its owner, if it has an owner. -/
theorem map_key_listing (h : Placed services placed t) (sorted : Bool) (name : String) :
    ((outlines sorted t).filter fun o => name ∈ o.emission.map Prod.fst).map Outline.key =
      (t.owners.get? name).toList := by
  have howner : ((outlines sorted t).filter fun o => name ∈ o.emission.map Prod.fst) =
      (outlines sorted t).filter fun o => t.owners.get? name = some o.key :=
    List.filter_congr fun o ho => by simp only [h.mem_names_emission_iff ho]
  have hkeys :
      ((outlines sorted t).filter fun o => t.owners.get? name = some o.key).map Outline.key =
        ((outlines sorted t).map Outline.key).filter fun key => t.owners.get? name = some key := by
    rw [List.filter_map]
    rfl
  rw [howner, hkeys]
  cases ho : t.owners.get? name with
  | none => simp
  | some key =>
    obtain ⟨definition, hd⟩ := h.exists_of_owner ho
    obtain ⟨o, hmem, rfl, -⟩ := h.exists_outline_of_owner sorted hd ho
    -- the keys of the outlines are distinct, so that of the owner stands there once
    have honce : ((outlines sorted t).map Outline.key).count o.key = 1 :=
      List.count_eq_one_of_mem (h.nodup_map_key_outlines sorted) (List.mem_map_of_mem hmem)
    simp only [Option.some.injEq, Option.toList_some, eq_comm (a := o.key)]
    rw [List.filter_eq, honce]
    rfl

/-- The index has one entry for every definition of every scope. -/
theorem size_ofScopes (h : Placed services placed t) (interfacePrefix : String) :
    (Index.ofScopes t interfacePrefix).entries.size =
      (t.scopes.flatMap fun scope => scope.definitions.entries).length := by
  rw [Table.size, Index.ofScopes, Table.entries_ofEntries (h.nodup_indexed interfacePrefix),
    List.length_flatMap, List.length_flatMap]
  simp only [List.length_map]

end SchemaTypings.Schema.Placed

namespace SchemaTypings.Generation

open SchemaTypings.Json SchemaTypings.Schema

/-- The table, its outlines and the index give the same answers for a name. -/
structure ViewsAgree (t : ScopeTable) (index : Index) (listed : List Outline) (name : String) :
    Prop where
  /-- The index has an entry exactly if the table has a definition, and it is that one. -/
  definition : (index.get? name).map Entry.definition = t.definition? name
  /-- The namespace is the name of the scope that owns the definition. -/
  owner : (index.get? name).map Entry.namespaceName =
    (t.scopeOf? name).map fun scope => scope.key.name
  /-- One outline lists the name if there is an entry, that of its namespace; otherwise none. -/
  outline : (listed.filter fun o => name ∈ o.emission.map Prod.fst).map Outline.name =
    ((index.get? name).map Entry.namespaceName).toList
  /-- What is emitted under the name is the definition. -/
  emitted : ∀ o ∈ listed, ∀ definition, (name, definition) ∈ o.emission →
    t.definition? name = some definition

/-- **All views of an accepted schema agree on who owns a definition**, whether the outlines are
sorted or not, and the index has as many entries as the scopes have definitions. -/
theorem ofSchema_views {schema : Value} {t : ScopeTable} (ht : ScopeTable.ofSchema schema = .ok t)
    (interfacePrefix : String) :
    (∀ sorted name,
      ViewsAgree t (Index.ofScopes t interfacePrefix) (outlines sorted t) name) ∧
    (Index.ofScopes t interfacePrefix).entries.size =
      (t.scopes.flatMap fun scope => scope.definitions.entries).length := by
  obtain ⟨definitions, read, -, -, h⟩ := placed_ofSchema ht
  refine ⟨fun sorted name => ?_, h.size_ofScopes interfacePrefix⟩
  constructor
  case definition => exact h.definition_get?_ofScopes interfacePrefix name
  case owner =>
    rw [h.namespaceName_get?_ofScopes, ← h.key_scopeOf?, Option.map_map]
    rfl
  case outline =>
    have hnames := congrArg (List.map ScopeKey.name) (h.map_key_listing sorted name)
    rw [List.map_map] at hnames
    rw [h.namespaceName_get?_ofScopes, Option.toList_map]
    exact hnames
  case emitted =>
    intro o ho definition hd
    exact (h.exists_emission_iff sorted name definition).1 ⟨o, ho, hd⟩

/-- A service inside of a namespace, with a definition of the same simple name in each. -/
def nestedService : Value :=
  let text : Value := .object [("kind", .string "type"), ("type", .string "cds.String")]
  .object [("definitions", .object
    [("a.X", text), ("a.S", .object [("kind", .string "service")]), ("a.S.X", text), ("T", text)])]

/-- Each of the three definitions of `nestedService` is owned by another scope. -/
theorem ofSchema_views_nestedService : ∃ t, ScopeTable.ofSchema nestedService = .ok t ∧
    ["a.X", "a.S.X", "T", "X"].map (fun name =>
        ((Index.ofScopes t "I").get? name).map Entry.namespaceName) =
      [some "a", some "a.S", some "", none] ∧
    (Index.ofScopes t "I").entries.size = 3 ∧
    (∀ sorted name, ViewsAgree t (Index.ofScopes t "I") (outlines sorted t) name) := by
  have hlists : (ScopeTable.ofSchema nestedService).toOption.map (fun t =>
      (["a.X", "a.S.X", "T", "X"].map (fun name =>
        ((Index.ofScopes t "I").get? name).map Entry.namespaceName),
      (t.scopes.flatMap fun scope => scope.definitions.entries).length)) =
      some ([some "a", some "a.S", some "", none], 3) := by decide +kernel
  obtain ⟨t, ht, hlisted⟩ := exists_ok_of_map hlists
  obtain ⟨hspaces, hlength⟩ := Prod.mk.inj hlisted
  obtain ⟨hviews, hsize⟩ := ofSchema_views ht "I"
  exact ⟨t, ht, hspaces, hsize.trans hlength, hviews⟩

end SchemaTypings.Generation
