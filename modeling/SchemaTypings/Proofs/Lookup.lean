import SchemaTypings.Generation.Index
import SchemaTypings.Proofs.Categories
import SchemaTypings.Proofs.Placement

/-!
# Look-up of placed definitions

The index and the outlines of a table, read off the definitions that were placed in it: the entry
of a name says who owns the definition and how it is declared, and the definitions of an outline
are those that its scope owns.
-/

namespace SchemaTypings.Schema.Placed

open SchemaTypings.Name SchemaTypings.Generation

variable {services : List String} {placed : List (String × Definition)} {t : ScopeTable}

/-! ### Owners by name -/

theorem scopeKey_eq {a b : ScopeKey} (hkind : a.kind = b.kind) (hname : a.name = b.name) :
    a = b := by
  cases a
  cases b
  cases hkind
  cases hname
  rfl

theorem exists_of_owner (h : Placed services placed t) {name : String} {key : ScopeKey}
    (ho : t.owners.get? name = some key) : ∃ definition, (name, definition) ∈ placed := by
  have hname : name ∈ t.owners.keys := by
    rw [Table.keys, ← Table.find_isSome_iff]
    exact Option.isSome_of_eq_some ho
  rw [h.owners_keys] at hname
  obtain ⟨d, hd, rfl⟩ := List.mem_map.1 hname
  exact ⟨d.2, hd⟩

/-- Only the global scope owns definitions without having a name. -/
theorem eq_global_of_owner (h : Placed services placed t) {name : String} {key : ScopeKey}
    (ho : t.owners.get? name = some key) (hkey : key.name = "") : key = .global := by
  obtain ⟨definition, hd⟩ := h.exists_of_owner ho
  obtain ⟨before, after, hp⟩ := List.append_of_mem hd
  obtain ⟨key', ho', hbelongs⟩ := h.belongs before _ after hp
  obtain rfl : key = key' := Option.some.inj (ho.symm.trans ho')
  cases hbelongs with
  | service longest => exact absurd hkey ((encloses_iff _ _).1 longest.2.1).1
  | nameSpace _ longest => exact absurd hkey ((encloses_iff _ _).1 longest.2.1).1
  | parent _ _ hparent =>
    exact absurd hkey ((encloses_iff _ _).1 (encloses_of_parent? hparent)).1
  | global => rfl

/-- Declared scopes with a name are told apart by it. -/
theorem key_ext (h : Placed services placed t) {key key' : ScopeKey} (hmem : key ∈ t.keys)
    (hmem' : key' ∈ t.keys) (hkeys : key.name = key'.name) (hnamed : key.name ≠ "") :
    key = key' := by
  have hglobal : key.kind ≠ .global := fun hk => hnamed (by rw [h.global_only _ hmem hk]; rfl)
  have hglobal' : key'.kind ≠ .global := fun hk =>
    hnamed (by rw [hkeys, h.global_only _ hmem' hk]; rfl)
  obtain ⟨kind, scopeName⟩ := key
  obtain ⟨kind', scopeName'⟩ := key'
  obtain rfl : scopeName = scopeName' := hkeys
  cases kind with
  | global => exact absurd rfl hglobal
  | service =>
    cases kind' with
    | global => exact absurd rfl hglobal'
    | service => rfl
    | nameSpace => exact absurd ((h.service_mem _).1 hmem) (h.nameSpace_apart _ hmem')
  | nameSpace =>
    cases kind' with
    | global => exact absurd rfl hglobal'
    | service => exact absurd ((h.service_mem _).1 hmem') (h.nameSpace_apart _ hmem)
    | nameSpace => rfl

/-- Scopes that own definitions are told apart by their names. -/
theorem owner_ext (h : Placed services placed t) {name name' : String} {key key' : ScopeKey}
    (ho : t.owners.get? name = some key) (ho' : t.owners.get? name' = some key')
    (hkeys : key.name = key'.name) : key = key' := by
  -- without a name both are the global scope; with one they are services or namespaces
  by_cases hempty : key.name = ""
  · rw [h.eq_global_of_owner ho hempty, h.eq_global_of_owner ho' (hkeys ▸ hempty)]
  · exact h.key_ext (h.owner_mem name key ho) (h.owner_mem name' key' ho') hkeys hempty

/-! ### The index -/

/-- No two scopes hold definitions of one name. -/
theorem nodup_indexed (h : Placed services placed t) (interfacePrefix : String) :
    ((t.scopes.flatMap fun scope => scope.definitions.entries.map
      (Index.entryOf interfacePrefix scope)).map Prod.fst).Nodup := by
  have hkeys : (t.scopes.flatMap fun scope => scope.definitions.entries.map
      (Index.entryOf interfacePrefix scope)).map Prod.fst =
      t.scopes.flatMap fun scope => scope.definitions.keys := by
    rw [List.map_flatMap]
    simp only [List.map_map]
    rfl
  rw [hkeys, List.nodup_flatMap]
  refine ⟨fun scope _ => scope.definitions.nodup_keys, ?_⟩
  have hpairs : t.scopes.Pairwise fun a b => a.key ≠ b.key := List.pairwise_map.1 h.keys_nodup
  refine hpairs.imp_of_mem fun ha hb hne name hna hnb => ?_
  obtain ⟨d, hd, rfl⟩ := List.mem_map.1 hna
  obtain ⟨e, he, hname⟩ := List.mem_map.1 hnb
  have hda := ((h.mem_definitions_iff ha d).1 hd).2
  have heb := ((h.mem_definitions_iff hb e).1 he).2
  rw [hname] at heb
  exact hne (Option.some.inj (hda.symm.trans heb))

/-- The entry of a placed definition names its owner. -/
theorem get?_ofScopes_iff (h : Placed services placed t) (interfacePrefix name : String)
    (entry : Entry) : (Index.ofScopes t interfacePrefix).get? name = some entry ↔
      ∃ definition key, (name, definition) ∈ placed ∧ t.owners.get? name = some key ∧
        entry = ⟨key.name, definitionIdentifier interfacePrefix name definition, definition⟩ := by
  have hentries := Table.entries_ofEntries (h.nodup_indexed interfacePrefix)
  rw [Index.get?, Table.get?, Index.ofScopes, hentries,
    Table.find_eq_some_iff (h.nodup_indexed interfacePrefix), List.mem_flatMap]
  constructor
  · rintro ⟨scope, hs, hentry⟩
    obtain ⟨d, hd, he⟩ := List.mem_map.1 hentry
    obtain ⟨hplaced, ho⟩ := (h.mem_definitions_iff hs d).1 hd
    cases he
    exact ⟨d.2, scope.key, hplaced, ho, rfl⟩
  · rintro ⟨definition, key, hplaced, ho, rfl⟩
    obtain ⟨scope, hs, rfl, -⟩ :=
      ScopeTable.exists_scope?_of_mem h.keys_nodup (h.owner_mem name key ho)
    have hd := (h.mem_definitions_iff hs (name, definition)).2 ⟨hplaced, ho⟩
    exact ⟨scope, hs, List.mem_map.2 ⟨_, hd, rfl⟩⟩

/-- The index has the definitions of the table. -/
theorem definition_get?_ofScopes (h : Placed services placed t) (interfacePrefix name : String) :
    ((Index.ofScopes t interfacePrefix).get? name).map Entry.definition = t.definition? name := by
  rw [h.definition?_eq]
  refine Option.ext fun definition => ?_
  rw [Option.map_eq_some_iff, Table.find_eq_some_iff h.names_nodup]
  constructor
  · rintro ⟨entry, hentry, rfl⟩
    obtain ⟨definition, key, hd, -, rfl⟩ := (h.get?_ofScopes_iff _ _ _).1 hentry
    exact hd
  · intro hd
    obtain ⟨key, ho⟩ := h.exists_owner hd
    exact ⟨_, (h.get?_ofScopes_iff _ _ _).2 ⟨definition, key, hd, ho, rfl⟩, rfl⟩

/-- The index has the definitions with elements of the table. -/
theorem entity?_ofScopes (h : Placed services placed t) (interfacePrefix name : String) :
    (Index.ofScopes t interfacePrefix).entity? name =
      (t.definition? name).bind Definition.entity? := by
  rw [← h.definition_get?_ofScopes interfacePrefix, Option.bind_map]
  rfl

/-! ### Outlines -/

/-- The scopes of a kind are told apart by their names. -/
theorem nodup_names_ofKind (h : Placed services placed t) (kind : ScopeKind) :
    ((t.ofKind kind).map fun scope => scope.key.name).Nodup := by
  have hkeys : ((t.ofKind kind).map Scope.key).Nodup :=
    h.keys_nodup.sublist (List.filter_sublist.map Scope.key)
  refine List.Nodup.map_on (fun a ha b hb hname => ?_) (List.Nodup.of_map _ hkeys)
  have hkind : a.key.kind = b.key.kind := by
    rw [of_decide_eq_true (List.mem_filter.1 ha).2, of_decide_eq_true (List.mem_filter.1 hb).2]
  exact List.inj_on_of_nodup_map hkeys ha hb (scopeKey_eq hkind hname)

/-- The global scope of the outlines is that of the table, unless it is empty. -/
theorem globalScope_eq (h : Placed services placed t) : ∃ base ∈ t.scopes, base.key = .global ∧
    globalScope t = if base.definitions.entries.isEmpty then [] else [base] := by
  obtain ⟨base, hb, hkey, hfound⟩ := ScopeTable.exists_scope?_of_mem h.keys_nodup h.global_mem
  have hdefinitions : t.definitionsOf .global = base.definitions := by
    rw [ScopeTable.definitionsOf, hfound]
    rfl
  have hbase : (⟨.global, base.definitions⟩ : Scope) = base := by rw [← hkey]
  refine ⟨base, hb, hkey, ?_⟩
  rw [globalScope, hdefinitions, hbase, Table.isEmpty]

theorem mem_globalScope_iff (h : Placed services placed t) (scope : Scope) :
    scope ∈ globalScope t ↔
      scope ∈ t.scopes ∧ scope.key = .global ∧ scope.definitions.entries ≠ [] := by
  obtain ⟨base, hb, hkey, hglobal⟩ := h.globalScope_eq
  have hunique : ∀ other ∈ t.scopes, other.key = .global → other = base := fun other ho hk =>
    List.inj_on_of_nodup_map h.keys_nodup ho hb (hk.trans hkey.symm)
  rw [hglobal]
  constructor
  · intro hs
    split at hs
    · cases hs
    · next hn =>
      rw [List.mem_singleton.1 hs]
      exact ⟨hb, hkey, by simpa using hn⟩
  · rintro ⟨hs, hk, hn⟩
    obtain rfl := hunique scope hs hk
    rw [if_neg (by simpa using hn)]
    exact List.mem_singleton_self scope

/-- Every scope has an outline, except the global one when it is empty. -/
theorem mem_outlines_iff (h : Placed services placed t) (sorted : Bool) (o : Outline) :
    o ∈ outlines sorted t ↔ ∃ scope ∈ t.scopes, o = Outline.ofScope sorted scope ∧
      (scope.key = .global → scope.definitions.entries ≠ []) := by
  simp only [outlines, List.mem_map, List.mem_append, mem_scopesInOrder, h.mem_globalScope_iff,
    ScopeTable.ofKind, List.mem_filter, decide_eq_true_iff]
  constructor
  · rintro ⟨scope, (⟨hs, hk⟩ | ⟨hs, hk⟩) | ⟨hs, hk, hn⟩, rfl⟩
    · exact ⟨scope, hs, rfl, fun hg => by simp [hg, ScopeKey.global] at hk⟩
    · exact ⟨scope, hs, rfl, fun hg => by simp [hg, ScopeKey.global] at hk⟩
    · exact ⟨scope, hs, rfl, fun _ => hn⟩
  · rintro ⟨scope, hs, rfl, hn⟩
    refine ⟨scope, ?_, rfl⟩
    cases hk : scope.key.kind with
    | nameSpace => exact Or.inl (Or.inl ⟨hs, rfl⟩)
    | service => exact Or.inl (Or.inr ⟨hs, rfl⟩)
    | global =>
      have hg := h.global_only _ (List.mem_map_of_mem hs) hk
      exact Or.inr ⟨hs, hg, hn hg⟩

/-- The scope that owns a definition has an outline, which emits the definition. -/
theorem exists_outline_of_owner (h : Placed services placed t) (sorted : Bool) {name : String}
    {definition : Definition} {key : ScopeKey} (hd : (name, definition) ∈ placed)
    (ho : t.owners.get? name = some key) : ∃ o ∈ outlines sorted t, o.key = key ∧
      (name, definition) ∈ o.emission := by
  obtain ⟨scope, hs, rfl, -⟩ :=
    ScopeTable.exists_scope?_of_mem h.keys_nodup (h.owner_mem name key ho)
  have hmem := (h.mem_definitions_iff hs (name, definition)).2 ⟨hd, ho⟩
  refine ⟨Outline.ofScope sorted scope, ?_, rfl, ?_⟩
  · exact (h.mem_outlines_iff sorted _).2 ⟨scope, hs, rfl, fun _ => List.ne_nil_of_mem hmem⟩
  · exact (Outline.mem_emission_ofScope _ _ _).2 hmem

/-- An outline emits what its scope owns. -/
theorem mem_emission_iff (h : Placed services placed t) {sorted : Bool} {o : Outline}
    (ho : o ∈ outlines sorted t) (d : String × Definition) :
    d ∈ o.emission ↔ d ∈ placed ∧ t.owners.get? d.1 = some o.key := by
  obtain ⟨scope, hs, rfl, -⟩ := (h.mem_outlines_iff sorted o).1 ho
  rw [Outline.mem_emission_ofScope, h.mem_definitions_iff hs]
  rfl

/-- What the outlines emit are the definitions of the table. -/
theorem exists_emission_iff (h : Placed services placed t) (sorted : Bool) (name : String)
    (definition : Definition) : (∃ o ∈ outlines sorted t, (name, definition) ∈ o.emission) ↔
      t.definition? name = some definition := by
  rw [h.definition?_eq, Table.find_eq_some_iff h.names_nodup]
  constructor
  · rintro ⟨o, ho, hd⟩
    exact ((h.mem_emission_iff ho _).1 hd).1
  · intro hd
    obtain ⟨key, ho⟩ := h.exists_owner hd
    obtain ⟨o, hmem, -, hemitted⟩ := h.exists_outline_of_owner sorted hd ho
    exact ⟨o, hmem, hemitted⟩

/-- A definition whose scope has the name of an outline with a definition is in that outline. -/
theorem mem_emission_of_name_eq (h : Placed services placed t) {sorted : Bool} {o : Outline}
    (hmem : o ∈ outlines sorted t) (hne : ∃ d, d ∈ o.emission) {name : String}
    {definition : Definition} {key : ScopeKey} (hd : (name, definition) ∈ placed)
    (ho : t.owners.get? name = some key) (hkey : key.name = o.name) :
    (name, definition) ∈ o.emission := by
  obtain ⟨d, hdo⟩ := hne
  obtain rfl : key = o.key := h.owner_ext ho ((h.mem_emission_iff hmem d).1 hdo).2 hkey
  exact (h.mem_emission_iff hmem _).2 ⟨hd, ho⟩

end SchemaTypings.Schema.Placed
