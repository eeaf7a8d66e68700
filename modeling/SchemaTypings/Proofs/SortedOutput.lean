import SchemaTypings.Proofs.Agreement
import SchemaTypings.Proofs.Lookup

/-!
# Sorted output

With sorting the output is a function of which definitions there are and who owns them, not of
their order.  Outlines are sorted by names that do not repeat, the index is read by name only, and
the files are made from outlines and index alone.
-/

namespace SchemaTypings.Generation

open SchemaTypings.Schema SchemaTypings.Typing

/-! ### Outlines of a scope -/

/-- What is picked from entries under their own names has distinct names if they have. -/
theorem nodup_filterMap_names {α β : Type} {pick : String × α → Option (String × β)}
    (hpick : ∀ entry picked, pick entry = some picked → picked.1 = entry.1)
    {entries : List (String × α)} (hd : (entries.map Prod.fst).Nodup) :
    ((entries.filterMap pick).map Prod.fst).Nodup := by
  refine hd.sublist ?_
  induction entries with
  | nil => exact List.Sublist.slnil
  | cons entry rest ih =>
    have hrest := ih (List.nodup_cons.1 hd).2
    cases hp : pick entry with
    | none =>
      rw [List.filterMap_cons_none hp]
      exact hrest.cons _
    | some picked =>
      rw [List.filterMap_cons_some hp, List.map_cons, List.map_cons, hpick entry picked hp]
      exact hrest.cons_cons _

/-- The sorted outline of a scope does not depend on the order of its definitions. -/
theorem Outline.ofScope_eq_of_perm {scope other : Scope} (hkey : scope.key = other.key)
    (h : scope.definitions.entries.Perm other.definitions.entries) :
    Outline.ofScope true scope = Outline.ofScope true other := by
  have hpicked {β : Type} (pick : String × Definition → Option (String × β))
      (hpick : ∀ entry picked, pick entry = some picked → picked.1 = entry.1) :
      inOrder true (scope.definitions.entries.filterMap pick) =
        inOrder true (other.definitions.entries.filterMap pick) :=
    inOrder_eq_of_perm (h.filterMap pick) (nodup_filterMap_names hpick scope.definitions.distinct)
  rw [Outline.ofScope, Outline.ofScope, hkey, hpicked aliasEntry?, hpicked enumerationEntry?,
    hpicked entityEntry?, hpicked actionEntry?]
  all_goals
    rintro ⟨name, definition⟩ picked hp
    cases definition <;> cases hp
    rfl

/-- Sorted scopes have sorted outlines. -/
theorem map_ofScope_scopesInOrder (scopes : List Scope) :
    (scopesInOrder true scopes).map (Outline.ofScope true) =
      (scopes.map (Outline.ofScope true)).mergeSort fun a b => decide (a.name ≤ b.name) :=
  List.map_mergeSort fun _ _ _ _ => rfl

/-! ### Files of equal indices -/

/-- The file of an outline depends on the entries by name only. -/
theorem fileOf_congr {index index' : Index} (hget : index.get? = index'.get?)
    (hcount : index.elementCount = index'.elementCount) (options : Options) (o : Outline) :
    fileOf index options o = fileOf index' options o := by
  have hcatalogue : index.catalogue = index'.catalogue := by
    rw [Index.catalogue, Index.catalogue, hget, hcount]
  refine fileOf_agree rfl rfl (by rw [hcatalogue]) fun m _ => Resolver.locate_congr ?_ ?_
  · rfl
  · exact congrArg (Option.map Resolver.address) (congrFun hget m.owner)

/-- The number of elements does not depend on the order of the entries. -/
theorem elementCount_congr {index index' : Index} (hget : index.get? = index'.get?) :
    index.elementCount = index'.elementCount := by
  have hperm : index.entries.entries.Perm index'.entries.entries :=
    Table.perm_of_get? fun name => congrFun hget name
  exact hperm.foldr_eq' (fun _ _ _ _ total => by omega) 0

/-! ### Rearranged tables -/

section Rearranged

variable {services services' : List String} {placed placed' : List (String × Definition)}
  {t t' : ScopeTable}

/-- Two tables were made of the same services and definitions in some order, and their definitions
have the same owners. -/
structure Rearranged (services services' : List String)
    (placed placed' : List (String × Definition)) (t t' : ScopeTable) : Prop where
  placed_left : Placed services placed t
  placed_right : Placed services' placed' t'
  services_iff : ∀ s, s ∈ services ↔ s ∈ services'
  perm : placed.Perm placed'
  owners : ∀ name, t.owners.get? name = t'.owners.get? name

namespace Rearranged

theorem symm (h : Rearranged services services' placed placed' t t') :
    Rearranged services' services placed' placed t' t where
  placed_left := h.placed_right
  placed_right := h.placed_left
  services_iff s := (h.services_iff s).symm
  perm := h.perm.symm
  owners name := (h.owners name).symm

theorem mem_keys (h : Rearranged services services' placed placed' t t') {key : ScopeKey}
    (hk : key ∈ t.keys) : key ∈ t'.keys := by
  obtain ⟨kind, name⟩ := key
  cases kind with
  | global =>
    rw [h.placed_left.global_only _ hk rfl]
    exact h.placed_right.global_mem
  | service =>
    exact (h.placed_right.service_mem name).2
      ((h.services_iff name).1 ((h.placed_left.service_mem name).1 hk))
  | nameSpace =>
    obtain ⟨d, hd, ho⟩ := (h.placed_left.nameSpace_mem name).1 hk
    exact (h.placed_right.nameSpace_mem name).2 ⟨d, h.perm.mem_iff.1 hd, h.owners d.1 ▸ ho⟩

/-- Scopes of one key hold the same definitions in some order. -/
theorem perm_entries (h : Rearranged services services' placed placed' t t')
    {scope other : Scope} (hs : scope ∈ t.scopes) (ho : other ∈ t'.scopes)
    (hkey : scope.key = other.key) :
    scope.definitions.entries.Perm other.definitions.entries := by
  rw [h.placed_left.contents scope hs, h.placed_right.contents other ho, hkey]
  simp only [h.owners]
  exact h.perm.filter _

theorem exists_scope (h : Rearranged services services' placed placed' t t') {scope : Scope}
    (hs : scope ∈ t.scopes) : ∃ other ∈ t'.scopes, other.key = scope.key ∧
      Outline.ofScope true scope = Outline.ofScope true other := by
  have hk : scope.key ∈ t'.keys := h.mem_keys (List.mem_map_of_mem hs)
  obtain ⟨other, ho, hkey, -⟩ := ScopeTable.exists_scope?_of_mem h.placed_right.keys_nodup hk
  exact ⟨other, ho, hkey, Outline.ofScope_eq_of_perm hkey.symm (h.perm_entries hs ho hkey.symm)⟩

theorem mem_ofKind (h : Rearranged services services' placed placed' t t') {kind : ScopeKind}
    {o : Outline} (ho : o ∈ (t.ofKind kind).map (Outline.ofScope true)) :
    o ∈ (t'.ofKind kind).map (Outline.ofScope true) := by
  obtain ⟨scope, hs, rfl⟩ := List.mem_map.1 ho
  obtain ⟨hmem, hkind⟩ := List.mem_filter.1 hs
  obtain ⟨other, hother, hkey, houtline⟩ := h.exists_scope hmem
  rw [houtline]
  exact List.mem_map_of_mem (List.mem_filter.2 ⟨hother, hkey ▸ hkind⟩)

theorem nodup_names_ofScope (h : Placed services placed t) (kind : ScopeKind) :
    (((t.ofKind kind).map (Outline.ofScope true)).map Outline.name).Nodup := by
  rw [List.map_map]
  exact h.nodup_names_ofKind kind

/-- The sorted outlines of a kind are the same. -/
theorem outlines_ofKind (h : Rearranged services services' placed placed' t t')
    (kind : ScopeKind) :
    (scopesInOrder true (t.ofKind kind)).map (Outline.ofScope true) =
      (scopesInOrder true (t'.ofKind kind)).map (Outline.ofScope true) := by
  have hnodup := nodup_names_ofScope h.placed_left kind
  have hnodup' := nodup_names_ofScope h.placed_right kind
  -- the scopes themselves differ in the order of their definitions, so their outlines are sorted
  rw [map_ofScope_scopesInOrder, map_ofScope_scopesInOrder]
  refine mergeSort_eq_of_perm ((List.perm_ext_iff_of_nodup (List.Nodup.of_map _ hnodup)
    (List.Nodup.of_map _ hnodup')).2 fun o => ?_) hnodup
  exact ⟨h.mem_ofKind, h.symm.mem_ofKind⟩

/-- The outline of the global scope is the same. -/
theorem outlines_global (h : Rearranged services services' placed placed' t t') :
    (globalScope t).map (Outline.ofScope true) = (globalScope t').map (Outline.ofScope true) := by
  obtain ⟨base, hb, hkey, hglobal⟩ := h.placed_left.globalScope_eq
  obtain ⟨base', hb', hkey', hglobal'⟩ := h.placed_right.globalScope_eq
  have hkeys : base.key = base'.key := hkey.trans hkey'.symm
  have hperm := h.perm_entries hb hb' hkeys
  rw [hglobal, hglobal', hperm.isEmpty_eq]
  split
  · rfl
  · rw [List.map_singleton, List.map_singleton, Outline.ofScope_eq_of_perm hkeys hperm]

theorem outlines_eq (h : Rearranged services services' placed placed' t t') :
    outlines true t = outlines true t' := by
  simp only [outlines, List.map_append, h.outlines_ofKind, h.outlines_global]

theorem get?_ofScopes (h : Rearranged services services' placed placed' t t')
    (interfacePrefix : String) :
    (Index.ofScopes t interfacePrefix).get? = (Index.ofScopes t' interfacePrefix).get? := by
  funext name
  refine Option.ext fun entry => ?_
  rw [h.placed_left.get?_ofScopes_iff, h.placed_right.get?_ofScopes_iff]
  simp only [h.owners, h.perm.mem_iff]

/-- **With sorting, rearranged tables generate the same files and warnings.** -/
theorem generate_eq (h : Rearranged services services' placed placed' t t') {options : Options}
    (hsort : options.sort = true) : generate options t = generate options t' := by
  have hget := h.get?_ofScopes options.interfacePrefix
  have hfile : fileOf (indexOf options t) options =
      fileOf (indexOf options t') options :=
    funext fun o => fileOf_congr hget (elementCount_congr hget) options o
  rw [generate, generate, hsort, h.outlines_eq, hfile]

end Rearranged

end Rearranged

/-! ### Rearranged schemas -/

section Schemas

variable {schema schema' : Json.Value} {definitions definitions' : Table Json.Value}

/-- **Sorted output does not depend on document order.**  Of two schemas with the same entries in
different orders both are accepted or none is; and if all definitions have the same owners, the
sorted output of both is the same text for text, with the same warnings. -/
theorem typings_sorted (hraw : rawDefinitions schema = .ok definitions.entries)
    (hraw' : rawDefinitions schema' = .ok definitions'.entries)
    (hperm : definitions.entries.Perm definitions'.entries) :
    ((∃ t, ScopeTable.ofSchema schema = .ok t) ↔ ∃ t', ScopeTable.ofSchema schema' = .ok t') ∧
    ∀ t t', ScopeTable.ofSchema schema = .ok t → ScopeTable.ofSchema schema' = .ok t' →
      (∀ name, (t.scopeOf? name).map Scope.key = (t'.scopeOf? name).map Scope.key) →
      ∀ options : Options, options.sort = true →
        typings options schema = typings options schema' := by
  constructor
  · rw [exists_ofSchema_iff hraw, exists_ofSchema_iff hraw']
    exact forall_congr' fun entry => imp_congr hperm.mem_iff Iff.rfl
  · intro t t' ht ht' howners options hsort
    have hplaced := placed_keptEntry hraw ht
    have hplaced' := placed_keptEntry hraw' ht'
    have h : Rearranged (serviceNames definitions.entries) (serviceNames definitions'.entries)
        (definitions.entries.filterMap (Table.keptEntry readDefinition))
        (definitions'.entries.filterMap (Table.keptEntry readDefinition)) t t' := by
      constructor
      case placed_left => exact hplaced
      case placed_right => exact hplaced'
      case services_iff => exact fun s => (serviceNames_perm hperm).mem_iff
      case perm => exact hperm.filterMap _
      case owners =>
        intro name
        rw [← hplaced.key_scopeOf?, ← hplaced'.key_scopeOf?]
        exact howners name
    rw [typings, typings, ht, ht', Except.map, Except.map, h.generate_eq hsort]

end Schemas

/-- Definitions of two namespaces, the later one in the alphabet first. -/
def twoNamespaces : Table Json.Value where
  entries :=
    [("b.Y", .object [("kind", .string "type"), ("type", .string "cds.String")]),
      ("a.X", .object [("kind", .string "type"), ("type", .string "b.Y")])]
  distinct := by decide

/-- The same definitions in reverse order. -/
def twoNamespacesReversed : Table Json.Value where
  entries := twoNamespaces.entries.reverse
  distinct := by decide

/-- Sorted, both orders of the two namespaces give the same output. -/
theorem typings_sorted_twoNamespaces :
    (∃ t, ScopeTable.ofSchema (schemaOf twoNamespaces) = .ok t) ∧
    typings { sort := true } (schemaOf twoNamespaces) =
      typings { sort := true } (schemaOf twoNamespacesReversed) := by
  have hleft : (ScopeTable.ofSchema (schemaOf twoNamespaces)).toOption.map
      (fun t => t.owners.entries) =
        some [("b.Y", ⟨.nameSpace, "b"⟩), ("a.X", ⟨.nameSpace, "a"⟩)] := by decide
  have hright : (ScopeTable.ofSchema (schemaOf twoNamespacesReversed)).toOption.map
      (fun t => t.owners.entries) =
        some [("a.X", ⟨.nameSpace, "a"⟩), ("b.Y", ⟨.nameSpace, "b"⟩)] := by decide
  obtain ⟨t, ht, howners⟩ := exists_ok_of_map hleft
  obtain ⟨t', ht', howners'⟩ := exists_ok_of_map hright
  have hraw := rawDefinitions_schemaOf twoNamespaces
  have hraw' := rawDefinitions_schemaOf twoNamespacesReversed
  have hperm : twoNamespaces.entries.Perm twoNamespacesReversed.entries :=
    (List.reverse_perm _).symm
  refine ⟨⟨t, ht⟩, ?_⟩
  refine (typings_sorted hraw hraw' hperm).2 t t' ht ht' (fun name => ?_) { sort := true } rfl
  rw [(placed_keptEntry hraw ht).key_scopeOf?, (placed_keptEntry hraw' ht').key_scopeOf?]
  have howned : t.owners.entries.Perm t'.owners.entries := by
    rw [howners, howners']
    exact List.Perm.swap _ _ _
  exact Table.find_of_perm howned t.owners.distinct name

end SchemaTypings.Generation
