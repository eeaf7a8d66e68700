import Mathlib.Data.List.Nodup
import Mathlib.Data.List.Perm.Basic
import SchemaTypings.Proofs.Lookup

/-!
# The order of emission

The outlines of an accepted schema emit every definition once, each under the scope that owns it.
The order of the outlines comes from that of the scopes in the table: `Placed.keys_place` is the
step, `keys_placeAll` the run.  The order inside an outline is that of the categories.
-/

namespace SchemaTypings.Schema

open SchemaTypings.Json

/-! ### The order of declaration -/

/-- The global scope, the services, and the namespaces in the order in which they first own
something. -/
def declarationOrder (services : List String) (owners : List ScopeKey) : List ScopeKey :=
  .global :: services.map (ScopeKey.mk .service) ++
    (owners.filter fun key => key.kind = .nameSpace).eraseDups

/-- The owners of definitions, in the order of the definitions. -/
def ScopeTable.ownersOf (t : ScopeTable) (placed : List (String × Definition)) : List ScopeKey :=
  placed.filterMap fun d => t.owners.get? d.1

/-- One more owner comes last if it is a namespace that owned nothing before. -/
theorem declarationOrder_concat (services : List String) (owners : List ScopeKey)
    (owner : ScopeKey) : declarationOrder services (owners ++ [owner]) =
      if owner.kind = .nameSpace ∧ owner ∉ owners then declarationOrder services owners ++ [owner]
      else declarationOrder services owners := by
  unfold declarationOrder
  rw [List.filter_append, List.eraseDups_append]
  by_cases hkind : owner.kind = .nameSpace
  · by_cases hold : owner ∈ owners
    · simp [hkind, hold, List.removeAll]
    · simp [hkind, hold, List.removeAll, List.eraseDups_cons]
  · simp [hkind, List.removeAll]

namespace Placed

variable {services : List String} {placed : List (String × Definition)} {t : ScopeTable}

theorem ownersOf_place {name : String} (hn : name ∉ placed.map Prod.fst)
    (definition : Definition) :
    (t.place name definition).ownersOf (placed ++ [(name, definition)]) =
      t.ownersOf placed ++ [t.ownerOf name] := by
  rw [ScopeTable.ownersOf, List.filterMap_append, List.filterMap_congr fun d hd =>
    get?_owners_place_of_mem hn definition hd]
  simp [ScopeTable.ownersOf, get?_owners_place]

/-- A scope is declared when it comes to own something, unless it was there. -/
theorem keys_place (h : Placed services placed t)
    (hkeys : t.keys = declarationOrder services (t.ownersOf placed)) {name : String}
    (hn : name ∉ placed.map Prod.fst) (definition : Definition) :
    (t.place name definition).keys = declarationOrder services
      ((t.place name definition).ownersOf (placed ++ [(name, definition)])) := by
  have howners (m : String) : (⟨.nameSpace, m⟩ : ScopeKey) ∈ t.keys ↔
      (⟨.nameSpace, m⟩ : ScopeKey) ∈ t.ownersOf placed := by
    rw [h.nameSpace_mem, ScopeTable.ownersOf, List.mem_filterMap]
  rw [ScopeTable.keys_place, ScopeTable.keys_declare, ownersOf_place hn, declarationOrder_concat,
    ← hkeys]
  rcases h.ownerOf_cases name with hdeclared | ⟨m, hm, -⟩
  · rw [if_pos hdeclared, if_neg]
    rintro ⟨hkind, hnew⟩
    generalize t.ownerOf name = owner at hdeclared hkind hnew
    obtain ⟨kind, m⟩ := owner
    obtain rfl : kind = .nameSpace := hkind
    exact hnew ((howners m).1 hdeclared)
  · simp only [hm, howners, true_and, ite_not]

end Placed

open ScopeTable

theorem keys_foldl_declare {services names : List String} {t : ScopeTable}
    (h : Placed services [] t) (hkeys : t.keys = declarationOrder services [])
    (hd : (services ++ names).Nodup) :
    (names.foldl (fun t name => t.declare ⟨.service, name⟩) t).keys =
      declarationOrder (services ++ names) [] := by
  induction names generalizing services t with
  | nil => simpa using hkeys
  | cons name rest ih =>
    have hnew : (⟨.service, name⟩ : ScopeKey) ∉ t.keys := by
      rw [h.service_mem]
      rw [List.nodup_append] at hd
      exact fun hm => hd.2.2 name hm name List.mem_cons_self rfl
    have happend : services ++ name :: rest = services ++ [name] ++ rest := by simp
    rw [happend] at hd ⊢
    refine ih (h.declareService name) ?_ hd
    rw [keys_declare, if_neg hnew, hkeys]
    simp [declarationOrder]

theorem keys_withServices {services : List String} (hd : services.Nodup) :
    (withServices services).keys = declarationOrder services [] :=
  keys_foldl_declare placed_initial rfl (by simpa using hd)

theorem keys_placeAll {services : List String} {placed more : List (String × Definition)}
    {t : ScopeTable} (h : Placed services placed t)
    (hkeys : t.keys = declarationOrder services (t.ownersOf placed))
    (hd : ((placed ++ more).map Prod.fst).Nodup) :
    (t.placeAll more).keys =
      declarationOrder services ((t.placeAll more).ownersOf (placed ++ more)) := by
  induction more generalizing placed t with
  | nil => simpa [placeAll] using hkeys
  | cons d rest ih =>
    have hn : d.1 ∉ placed.map Prod.fst := by
      rw [List.map_append, List.nodup_append] at hd
      exact fun hm => hd.2.2 _ hm _ (by simp) rfl
    have happend : placed ++ d :: rest = placed ++ [d] ++ rest := by simp
    rw [happend] at hd ⊢
    exact ih (h.place hn d.2) (h.keys_place hkeys hn d.2) hd

/-- The services of a schema, in document order, have distinct names. -/
theorem nodup_serviceNames (definitions : Table Value) :
    (serviceNames definitions.entries).Nodup :=
  definitions.distinct.sublist (List.filter_sublist.map Prod.fst)

/-- The scopes of an accepted schema stand in the order of their declaration. -/
theorem keys_ofSchema {schema : Value} {definitions : Table Value}
    (hraw : rawDefinitions schema = .ok definitions.entries) {t : ScopeTable}
    (ht : ofSchema schema = .ok t) :
    t.keys = declarationOrder (serviceNames definitions.entries)
      (t.ownersOf (definitions.entries.filterMap (Table.keptEntry readDefinition))) := by
  obtain ⟨entries, read, hraw', hread, rfl⟩ := eq_placeAll_of_ofSchema ht
  obtain rfl : definitions.entries = entries := Except.ok.inj (hraw.symm.trans hraw')
  rw [← Table.entries_collect hread definitions.distinct]
  have hnames : ((([] : List (String × Definition)) ++ read.entries).map Prod.fst).Nodup := by
    simpa using read.distinct
  simpa using keys_placeAll (placed_withServices (serviceNames definitions.entries))
    (keys_withServices (nodup_serviceNames definitions)) hnames

/-- The scopes of a kind are those of the table, in its order. -/
theorem map_key_ofKind (t : ScopeTable) (kind : ScopeKind) :
    (t.ofKind kind).map Scope.key = t.keys.filter fun key => key.kind = kind := by
  rw [ofKind, keys, List.filter_map]
  rfl

/-- The scopes of a kind are one part of the order of declaration. -/
theorem filter_declarationOrder (services : List String) (owners : List ScopeKey)
    (kind : ScopeKind) : (declarationOrder services owners).filter (fun key => key.kind = kind) =
      (if .global = kind then [.global] else []) ++
      (if .service = kind then services.map (ScopeKey.mk .service) else []) ++
      (if .nameSpace = kind then (owners.filter fun key => key.kind = .nameSpace).eraseDups
        else []) := by
  have hglobal : ∀ key ∈ [ScopeKey.global], key.kind = .global := by simp [ScopeKey.global]
  have hservices : ∀ key ∈ services.map (ScopeKey.mk .service), key.kind = .service := by simp
  have hnamespaces : ∀ key ∈ (owners.filter fun key => key.kind = .nameSpace).eraseDups,
      key.kind = .nameSpace :=
    fun key hm => of_decide_eq_true (List.mem_filter.1 (List.mem_eraseDups.1 hm)).2
  rw [declarationOrder, ← List.singleton_append, List.filter_append, List.filter_append,
    Generation.filter_of_forall_key ScopeKey.kind hglobal,
    Generation.filter_of_forall_key ScopeKey.kind hservices,
    Generation.filter_of_forall_key ScopeKey.kind hnamespaces]

end SchemaTypings.Schema

namespace SchemaTypings.Generation

open SchemaTypings.Json SchemaTypings.Schema

/-! ### Arranged lists -/

/-- A list is arranged if it stands in document order or, when sorted, by strictly ascending
names. -/
def Arranged {α : Type} (sorted : Bool) (nameOf : α → String) (documented listed : List α) : Prop :=
  if sorted then listed.Perm documented ∧ listed.Pairwise fun a b => nameOf a < nameOf b
  else listed = documented

theorem Arranged.perm {α : Type} {sorted : Bool} {nameOf : α → String} {documented listed : List α}
    (h : Arranged sorted nameOf documented listed) : listed.Perm documented := by
  cases sorted with
  | false => exact .of_eq h
  | true => exact h.1

theorem Arranged.map {α β : Type} {sorted : Bool} {nameOf : α → String} {nameOf' : β → String}
    {documented listed : List α} (h : Arranged sorted nameOf documented listed) (f : α → β)
    (hname : ∀ a, nameOf' (f a) = nameOf a) :
    Arranged sorted nameOf' (documented.map f) (listed.map f) := by
  cases sorted with
  | false => exact congrArg (List.map f) h
  | true =>
    refine ⟨h.1.map f, List.pairwise_map.2 ?_⟩
    simpa only [hname] using h.2

/-- Sorting by distinct names arranges a list. -/
theorem arranged_mergeSort {α : Type} (sorted : Bool) (nameOf : α → String) (entries : List α)
    (hd : (entries.map nameOf).Nodup) : Arranged sorted nameOf entries
      (if sorted then entries.mergeSort fun a b => decide (nameOf a ≤ nameOf b) else entries) := by
  cases sorted with
  | false => rfl
  | true =>
    have hperm := List.mergeSort_perm entries fun a b => decide (nameOf a ≤ nameOf b)
    have hdistinct := List.pairwise_map.1 ((hperm.map nameOf).nodup_iff.2 hd)
    refine ⟨hperm, ((pairwise_mergeSort_name nameOf entries).and hdistinct).imp ?_⟩
    rintro a b ⟨hle, hne⟩
    exact Std.lt_of_le_of_ne hle hne

/-! ### The order of outlines -/

theorem map_key_outlines (sorted : Bool) (t : ScopeTable) :
    (outlines sorted t).map Outline.key =
      (scopesInOrder sorted (t.ofKind .nameSpace)).map Scope.key ++
        (scopesInOrder sorted (t.ofKind .service)).map Scope.key ++
        (globalScope t).map Scope.key := by
  simp [outlines, Function.comp_def, Outline.ofScope]

end SchemaTypings.Generation

namespace SchemaTypings.Schema.Placed

open SchemaTypings.Generation

variable {services : List String} {placed : List (String × Definition)} {t : ScopeTable}

/-- The scopes of a kind are arranged like the keys of the table. -/
theorem arranged_scopesInOrder (h : Placed services placed t) (sorted : Bool) (kind : ScopeKind) :
    Arranged sorted ScopeKey.name (t.keys.filter fun key => key.kind = kind)
      ((scopesInOrder sorted (t.ofKind kind)).map Scope.key) := by
  have harranged : Arranged sorted (fun scope : Scope => scope.key.name) (t.ofKind kind)
      (scopesInOrder sorted (t.ofKind kind)) :=
    arranged_mergeSort sorted _ _ (h.nodup_names_ofKind kind)
  rw [← map_key_ofKind]
  exact harranged.map Scope.key fun _ => rfl

/-- The global scope is there if it owns a definition. -/
theorem map_key_globalScope (h : Placed services placed t) : (globalScope t).map Scope.key =
    if ∃ d ∈ placed, t.owners.get? d.1 = some .global then [.global] else [] := by
  obtain ⟨base, hb, hkey, hglobal⟩ := h.globalScope_eq
  have hempty : base.definitions.entries.isEmpty = true ↔
      ¬ ∃ d ∈ placed, t.owners.get? d.1 = some .global := by
    rw [h.contents base hb, hkey]
    simp
  rw [hglobal]
  by_cases he : base.definitions.entries.isEmpty = true
  · rw [if_pos he, if_neg (hempty.1 he)]
    rfl
  · rw [if_neg he, if_pos (not_not.1 (mt hempty.2 he)), List.map_singleton, hkey]

/-- No scope has two outlines. -/
theorem nodup_map_key_outlines (h : Placed services placed t) (sorted : Bool) :
    ((outlines sorted t).map Outline.key).Nodup := by
  have hnodup (kind : ScopeKind) : ((scopesInOrder sorted (t.ofKind kind)).map Scope.key).Nodup :=
    (h.arranged_scopesInOrder sorted kind).perm.nodup_iff.2 (h.keys_nodup.filter _)
  have hkind {kind : ScopeKind} {key : ScopeKey}
      (hk : key ∈ (scopesInOrder sorted (t.ofKind kind)).map Scope.key) : key.kind = kind :=
    of_decide_eq_true
      (List.mem_filter.1 ((h.arranged_scopesInOrder sorted kind).perm.mem_iff.1 hk)).2
  have hglobal {key : ScopeKey} (hk : key ∈ (globalScope t).map Scope.key) :
      key.kind = .global := by
    obtain ⟨scope, hs, rfl⟩ := List.mem_map.1 hk
    rw [((h.mem_globalScope_iff scope).1 hs).2.1]
    rfl
  have hlast : ((globalScope t).map Scope.key).Nodup := by
    rw [h.map_key_globalScope]
    split
    · exact List.nodup_singleton _
    · exact List.nodup_nil
  rw [map_key_outlines, List.nodup_append, List.nodup_append]
  refine ⟨⟨hnodup _, hnodup _, ?_⟩, hlast, ?_⟩
  · rintro a ha b hb rfl
    cases (hkind ha).symm.trans (hkind hb)
  · rintro a ha b hb rfl
    rcases List.mem_append.1 ha with ha | ha
    · cases (hkind ha).symm.trans (hglobal hb)
    · cases (hkind ha).symm.trans (hglobal hb)

/-- The outlines together emit what was placed, each definition once. -/
theorem emissions_perm (h : Placed services placed t) (sorted : Bool) :
    ((outlines sorted t).flatMap Outline.emission).Perm placed := by
  have hemission : ∀ o ∈ outlines sorted t,
      o.emission.Perm (placed.filter fun d => t.owners.get? d.1 = some o.key) := by
    intro o ho
    obtain ⟨scope, hs, rfl, -⟩ := (h.mem_outlines_iff sorted o).1 ho
    exact (emission_ofScope_perm sorted scope).trans (.of_eq (h.contents scope hs))
  have hcover : ∀ d ∈ placed,
      t.owners.get? d.1 ∈ (outlines sorted t).map fun o => some o.key := by
    intro d hd
    obtain ⟨key, howner⟩ := h.exists_owner hd
    obtain ⟨o, ho, rfl, -⟩ := h.exists_outline_of_owner sorted hd howner
    exact List.mem_map.2 ⟨o, ho, howner.symm⟩
  have hnodup : ((outlines sorted t).map fun o => some o.key).Nodup := by
    have hsome := (h.nodup_map_key_outlines sorted).map fun _ _ he => Option.some.inj he
    rwa [List.map_map] at hsome
  have hgrouped := flatMap_filter_perm (fun d : String × Definition => t.owners.get? d.1)
    hnodup hcover
  rw [List.flatMap_map] at hgrouped
  exact (List.Perm.flatMap_left _ hemission).trans hgrouped

end SchemaTypings.Schema.Placed

namespace SchemaTypings.Generation

open SchemaTypings.Json SchemaTypings.Schema

/-! ### Emission of an accepted schema -/

/-- The outlines of the table `t` emit the definitions `defined` of a schema with the given entries,
none lost and none twice, in document order or sorted by name. -/
structure EmissionOrder (entries : Members) (sorted : Bool) (t : ScopeTable)
    (defined : List (String × Definition)) : Prop where
  /-- The definitions are the retained entries, in document order, each as it is read. -/
  reads : List.Forall₂
    (fun entry d => d.1 = entry.1 ∧ readDefinition entry.1 entry.2 = .ok (some d.2))
    (entries.filter isRetained) defined
  /-- The outlines together emit every definition once. -/
  complete : ((outlines sorted t).flatMap Outline.emission).Perm defined
  distinct : (defined.map Prod.fst).Nodup
  /-- An outline emits aliases, then enumerations, then entities, then actions. -/
  grouped : ∀ o ∈ outlines sorted t,
    o.emission = Category.all.flatMap fun category => ofCategory category o.emission
  /-- Of a category it emits what its scope owns. -/
  arranged : ∀ o ∈ outlines sorted t, ∀ category, Arranged sorted Prod.fst
    (ofCategory category (defined.filter fun d => (t.scopeOf? d.1).map Scope.key = some o.key))
    (ofCategory category o.emission)
  /-- Namespaces come in the order of the definitions that they were made for, then all services of
  the document, then the global scope if it owns a definition. -/
  units : ∃ namespaces services,
    (outlines sorted t).map Outline.key = namespaces ++ services ++
      (if ∃ d ∈ defined, (t.scopeOf? d.1).map Scope.key = some .global then [.global] else []) ∧
    Arranged sorted ScopeKey.name ((defined.filterMap fun d => (t.scopeOf? d.1).map Scope.key).filter
      fun key => key.kind = .nameSpace).eraseDups namespaces ∧
    Arranged sorted ScopeKey.name ((serviceNames entries).map (ScopeKey.mk .service)) services

/-- **An accepted schema is emitted completely and in order**, whether sorted or not. -/
theorem outlines_emissionOrder {schema : Value} {definitions : Table Value} {t : ScopeTable}
    (hraw : rawDefinitions schema = .ok definitions.entries)
    (ht : ScopeTable.ofSchema schema = .ok t) :
    ∃ defined, ∀ sorted, EmissionOrder definitions.entries sorted t defined := by
  have h := placed_keptEntry hraw ht
  have hkeys := keys_ofSchema hraw ht
  have hreads := forall₂_keptEntry ((exists_ofSchema_iff hraw).1 ⟨t, ht⟩)
  generalize definitions.entries.filterMap (Table.keptEntry readDefinition) = defined
    at h hkeys hreads
  refine ⟨defined, fun sorted => ?_⟩
  constructor
  case reads => exact hreads
  case complete => exact h.emissions_perm sorted
  case distinct => exact h.names_nodup
  case grouped =>
    intro o ho
    obtain ⟨scope, -, rfl, -⟩ := (h.mem_outlines_iff sorted o).1 ho
    simp only [ofCategory_emission_ofScope]
    exact emission_ofScope sorted scope
  case arranged =>
    intro o ho category
    obtain ⟨scope, hs, rfl, -⟩ := (h.mem_outlines_iff sorted o).1 ho
    have hnames : ((ofCategory category scope.definitions.entries).map Prod.fst).Nodup :=
      scope.definitions.distinct.sublist (List.filter_sublist.map Prod.fst)
    simp only [h.key_scopeOf?]
    rw [ofCategory_emission_ofScope]
    have howned := h.contents scope hs
    exact howned ▸ arranged_mergeSort sorted Prod.fst _ hnames
  case units =>
    have hnamespaces := h.arranged_scopesInOrder sorted .nameSpace
    have hservices := h.arranged_scopesInOrder sorted .service
    simp only [hkeys, filter_declarationOrder, ScopeTable.ownersOf, reduceCtorEq, if_true,
      if_false, List.nil_append, List.append_nil] at hnamespaces hservices
    simp only [h.key_scopeOf?]
    refine ⟨_, _, ?_, hnamespaces, hservices⟩
    rw [map_key_outlines, h.map_key_globalScope]

/-- Definitions of a service, of two namespaces and of the global scope, in mixed order. -/
def scatteredDefinitions : Table Value where
  entries :=
    let text : Value := .object [("kind", .string "type"), ("type", .string "cds.String")]
    let entity : Value := .object [("kind", .string "entity")]
    let service : Value := .object [("kind", .string "service")]
    [("b.E", entity), ("b.Z", text), ("G", text), ("S", service), ("b.Y", text), ("a.X", text),
      ("R", service), ("S.T", text)]
  distinct := by decide

/-- In document order the scattered definitions are emitted by namespace, service and category. -/
theorem outlines_emissionOrder_scattered :
    ∃ t, ScopeTable.ofSchema (schemaOf scatteredDefinitions) = .ok t ∧
      (outlines false t).map (fun o => (o.key, o.emission.map Prod.fst)) =
        [(⟨.nameSpace, "b"⟩, ["b.Z", "b.Y", "b.E"]), (⟨.nameSpace, "a"⟩, ["a.X"]),
          (⟨.service, "S"⟩, ["S.T"]), (⟨.service, "R"⟩, []), (.global, ["G"])] ∧
      ∃ defined, ∀ sorted, EmissionOrder scatteredDefinitions.entries sorted t defined := by
  have hemissions : (ScopeTable.ofSchema (schemaOf scatteredDefinitions)).toOption.map
      (fun t => (outlines false t).map fun o => (o.key, o.emission.map Prod.fst)) =
        some [(⟨.nameSpace, "b"⟩, ["b.Z", "b.Y", "b.E"]), (⟨.nameSpace, "a"⟩, ["a.X"]),
          (⟨.service, "S"⟩, ["S.T"]), (⟨.service, "R"⟩, []), (.global, ["G"])] := by
    decide +kernel
  obtain ⟨t, ht, hlists⟩ := exists_ok_of_map hemissions
  exact ⟨t, ht, hlists,
    outlines_emissionOrder (rawDefinitions_schemaOf scatteredDefinitions) ht⟩

end SchemaTypings.Generation
