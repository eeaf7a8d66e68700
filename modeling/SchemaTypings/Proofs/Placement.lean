import Mathlib.Data.List.Basic
import Mathlib.Data.List.Forall2
import SchemaTypings.Proofs.Ownership

/-!
# Placed definitions

What a scope table holds after the services were declared and some definitions were placed one by
one: `Placed.place` is the step, `placed_placeAll` the run, and `ofSchema_ownership` says for every
accepted schema which definitions it defines and which scope owns each of them.
-/

namespace SchemaTypings.Schema

open SchemaTypings.Json SchemaTypings.Name

namespace ScopeTable

/-! ### Declared scopes -/

theorem mem_keys_declare_iff (t : ScopeTable) (key other : ScopeKey) :
    other ∈ (t.declare key).keys ↔ other ∈ t.keys ∨ other = key := by
  rw [keys_declare]
  split
  · next h =>
    refine ⟨Or.inl, ?_⟩
    rintro (ho | rfl)
    · exact ho
    · exact h
  · simp

theorem nodup_keys_declare {t : ScopeTable} (h : t.keys.Nodup) (key : ScopeKey) :
    (t.declare key).keys.Nodup := by
  rw [keys_declare]
  split
  · exact h
  · next hk =>
    refine List.nodup_append.2 ⟨h, by simp, fun a ha b hb => ?_⟩
    rw [List.mem_singleton.1 hb]
    rintro rfl
    exact hk ha

@[simp] theorem owners_declare (t : ScopeTable) (key : ScopeKey) :
    (t.declare key).owners = t.owners := by
  unfold declare
  split <;> rfl

theorem owners_place (t : ScopeTable) (name : String) (definition : Definition) :
    (t.place name definition).owners = t.owners.insert name (t.ownerOf name) := by
  rw [← owners_declare t (t.ownerOf name)]
  rfl

/-- A declaration changes no definition: the scope that it adds is empty. -/
theorem mem_scopes_declare {t : ScopeTable} {key : ScopeKey} {scope : Scope}
    (h : scope ∈ (t.declare key).scopes) :
    scope ∈ t.scopes ∨ key ∉ t.keys ∧ scope = ⟨key, ∅⟩ := by
  unfold declare at h
  split at h
  · exact Or.inl h
  · next hk =>
    rcases List.mem_append.1 h with hs | hs
    · exact Or.inl hs
    · exact Or.inr ⟨hk, List.mem_singleton.1 hs⟩

theorem mem_keys_of_kind {t : ScopeTable} {scope : Scope} (hs : scope ∈ t.scopes)
    {kind : ScopeKind} (hk : scope.key.kind = kind) : ⟨kind, scope.key.name⟩ ∈ t.keys :=
  hk ▸ List.mem_map_of_mem hs

/-- The scope of a key is the one that bears it. -/
theorem scope?_of_mem {t : ScopeTable} (hd : t.keys.Nodup) {scope : Scope}
    (h : scope ∈ t.scopes) : t.scope? scope.key = some scope :=
  Table.find?_key_of_mem hd h

theorem exists_scope?_of_mem {t : ScopeTable} (hd : t.keys.Nodup) {key : ScopeKey}
    (h : key ∈ t.keys) : ∃ scope ∈ t.scopes, scope.key = key ∧ t.scope? key = some scope := by
  obtain ⟨scope, hs, rfl⟩ := List.mem_map.1 h
  exact ⟨scope, hs, rfl, scope?_of_mem hd hs⟩

end ScopeTable

open ScopeTable

/-! ### The invariant -/

/-- What holds of a table with the given services after the given definitions were placed. -/
structure Placed (services : List String) (placed : List (String × Definition))
    (t : ScopeTable) : Prop where
  keys_nodup : t.keys.Nodup
  global_mem : ScopeKey.global ∈ t.keys
  global_only : ∀ key ∈ t.keys, key.kind = .global → key = .global
  service_mem : ∀ s, ⟨.service, s⟩ ∈ t.keys ↔ s ∈ services
  /-- Every namespace was made for a definition that it holds. -/
  nameSpace_mem : ∀ m, ⟨.nameSpace, m⟩ ∈ t.keys ↔
    ∃ d ∈ placed, t.owners.get? d.1 = some ⟨.nameSpace, m⟩
  nameSpace_apart : ∀ m, ⟨.nameSpace, m⟩ ∈ t.keys → m ∉ services
  owners_keys : t.owners.keys = placed.map Prod.fst
  owner_mem : ∀ name key, t.owners.get? name = some key → key ∈ t.keys
  /-- A scope holds what it owns, in the order of placement. -/
  contents : ∀ scope ∈ t.scopes,
    scope.definitions.entries = placed.filter fun d => t.owners.get? d.1 = some scope.key
  /-- A definition is owned by the scope to which it belonged when it was placed. -/
  belongs : ∀ before d after, placed = before ++ d :: after →
    ∃ key, t.owners.get? d.1 = some key ∧ BelongsTo (· ∈ services)
      (fun m => ∃ e ∈ before, t.owners.get? e.1 = some ⟨.nameSpace, m⟩) d.1 key

/-! ### The step -/

namespace Placed

variable {services : List String} {placed : List (String × Definition)} {t : ScopeTable}

/-- The rule of ownership reads the scopes of the table as the services and the namespaces made for
what was placed. -/
theorem belongsTo_ownerOf (h : Placed services placed t) (name : String) :
    BelongsTo (· ∈ services) (fun m => ∃ e ∈ placed, t.owners.get? e.1 = some ⟨.nameSpace, m⟩) name
      (t.ownerOf name) := by
  have hs : (fun s => (⟨.service, s⟩ : ScopeKey) ∈ t.keys) = (· ∈ services) :=
    funext fun s => propext (h.service_mem s)
  have hn : (fun m => (⟨.nameSpace, m⟩ : ScopeKey) ∈ t.keys) =
      fun m => ∃ e ∈ placed, t.owners.get? e.1 = some ⟨.nameSpace, m⟩ :=
    funext fun m => propext (h.nameSpace_mem m)
  rw [← hs, ← hn]
  exact t.belongsTo_ownerOf name

/-- The owner of a name is a declared scope, or a namespace that no service is named like. -/
theorem ownerOf_cases (h : Placed services placed t) (name : String) :
    t.ownerOf name ∈ t.keys ∨ ∃ m, t.ownerOf name = ⟨.nameSpace, m⟩ ∧ m ∉ services := by
  generalize hk : t.ownerOf name = key
  cases hk ▸ h.belongsTo_ownerOf name with
  | service longest => exact Or.inl ((h.service_mem _).2 longest.1)
  | nameSpace _ longest => exact Or.inl ((h.nameSpace_mem _).2 longest.1)
  | @parent owner noService _ hp =>
    exact Or.inr ⟨owner, rfl, fun hm => noService owner hm (encloses_of_parent? hp)⟩
  | global => exact Or.inl h.global_mem

theorem mem_keys_place (name : String) (definition : Definition) (key : ScopeKey) :
    key ∈ (t.place name definition).keys ↔ key ∈ t.keys ∨ key = t.ownerOf name := by
  rw [keys_place, mem_keys_declare_iff]

theorem get?_owners_place (name other : String) (definition : Definition) :
    (t.place name definition).owners.get? other =
      if name = other then some (t.ownerOf name) else t.owners.get? other := by
  rw [owners_place, Table.get?_insert]

/-- What was placed keeps its owner when another name is placed. -/
theorem get?_owners_place_of_mem {name : String} (hn : name ∉ placed.map Prod.fst)
    (definition : Definition) {d : String × Definition} (hd : d ∈ placed) :
    (t.place name definition).owners.get? d.1 = t.owners.get? d.1 := by
  rw [get?_owners_place, if_neg]
  rintro rfl
  exact hn (List.mem_map_of_mem hd)

/-- The owners of what was placed and of the new definition. -/
theorem exists_owner_place_iff {name : String} (hn : name ∉ placed.map Prod.fst)
    (definition : Definition) (key : ScopeKey) :
    (∃ d ∈ placed ++ [(name, definition)],
        (t.place name definition).owners.get? d.1 = some key) ↔
      (∃ d ∈ placed, t.owners.get? d.1 = some key) ∨ t.ownerOf name = key := by
  constructor
  · rintro ⟨d, hd, hk⟩
    rcases List.mem_append.1 hd with hp | hp
    · exact Or.inl ⟨d, hp, get?_owners_place_of_mem hn definition hp ▸ hk⟩
    · rw [List.mem_singleton.1 hp, get?_owners_place, if_pos rfl] at hk
      exact Or.inr (Option.some.inj hk)
  · rintro (⟨d, hd, hk⟩ | hk)
    · exact ⟨d, List.mem_append_left _ hd, by rw [get?_owners_place_of_mem hn definition hd, hk]⟩
    · exact ⟨(name, definition), by simp, by rw [get?_owners_place, if_pos rfl, hk]⟩

/-- The new definition comes last in the scope that owns it; no other scope changes. -/
theorem contents_place (h : Placed services placed t) {name : String}
    (hn : name ∉ placed.map Prod.fst) (definition : Definition) {scope : Scope}
    (hs : scope ∈ (t.place name definition).scopes) :
    scope.definitions.entries = (placed ++ [(name, definition)]).filter fun d =>
      (t.place name definition).owners.get? d.1 = some scope.key := by
  have hold (key : ScopeKey) :
      (placed.filter fun d => (t.place name definition).owners.get? d.1 = some key) =
        placed.filter fun d => t.owners.get? d.1 = some key :=
    List.filter_congr fun d hd => by rw [get?_owners_place_of_mem hn definition hd]
  have hdeclared : ∀ base ∈ (t.declare (t.ownerOf name)).scopes, base.definitions.entries =
      placed.filter fun d => t.owners.get? d.1 = some base.key := by
    intro base hb
    rcases mem_scopes_declare hb with hb | ⟨hk, rfl⟩
    · exact h.contents base hb
    · -- nothing that was placed is owned by a scope that is declared only now
      refine (List.filter_eq_nil_iff.2 fun d _ => ?_).symm
      simpa using fun ho => hk (h.owner_mem d.1 _ ho)
  obtain ⟨base, hb, rfl⟩ := List.mem_map.1 hs
  by_cases hk : base.key = t.ownerOf name
  · have hfresh : name ∉ base.definitions.keys := by
      rw [Table.keys, hdeclared base hb]
      intro hm
      obtain ⟨d, hd, rfl⟩ := List.mem_map.1 hm
      exact hn (List.mem_map_of_mem (List.mem_of_mem_filter hd))
    rw [if_pos hk, Table.entries_insert_of_not_mem hfresh, List.filter_append, hold,
      hdeclared base hb]
    simp [get?_owners_place, hk]
  · have hk' : t.ownerOf name ≠ base.key := fun e => hk e.symm
    rw [if_neg hk, List.filter_append, hold, hdeclared base hb]
    simp [get?_owners_place, hk']

/-- A definition that was already placed belongs where it did. -/
theorem belongs_place (h : Placed services placed t) {name : String}
    (hn : name ∉ placed.map Prod.fst) (definition : Definition)
    {before after : List (String × Definition)} {d : String × Definition}
    (hp : placed ++ [(name, definition)] = before ++ d :: after) :
    ∃ key, (t.place name definition).owners.get? d.1 = some key ∧ BelongsTo (· ∈ services)
      (fun m => ∃ e ∈ before, (t.place name definition).owners.get? e.1 = some ⟨.nameSpace, m⟩)
      d.1 key := by
  rcases List.eq_nil_or_concat' after with rfl | ⟨init, last, rfl⟩
  · obtain ⟨rfl, hd⟩ := List.append_inj' hp rfl
    cases hd
    refine ⟨t.ownerOf name, by rw [get?_owners_place, if_pos rfl], ?_⟩
    have hearlier : (fun m => ∃ e ∈ placed,
        (t.place name definition).owners.get? e.1 = some ⟨.nameSpace, m⟩) =
        fun m => ∃ e ∈ placed, t.owners.get? e.1 = some ⟨.nameSpace, m⟩ := by
      refine funext fun m => propext (exists_congr fun e => and_congr_right fun he => ?_)
      rw [get?_owners_place_of_mem hn definition he]
    rw [hearlier]
    exact h.belongsTo_ownerOf name
  · rw [← List.cons_append, ← List.append_assoc] at hp
    obtain ⟨rfl, -⟩ := List.append_inj' hp rfl
    obtain ⟨key, ho, hbelongs⟩ := h.belongs before d init rfl
    have hearlier : (fun m => ∃ e ∈ before,
        (t.place name definition).owners.get? e.1 = some ⟨.nameSpace, m⟩) =
        fun m => ∃ e ∈ before, t.owners.get? e.1 = some ⟨.nameSpace, m⟩ := by
      refine funext fun m => propext (exists_congr fun e => and_congr_right fun he => ?_)
      rw [get?_owners_place_of_mem hn definition (List.mem_append_left _ he)]
    refine ⟨key, ?_, hearlier ▸ hbelongs⟩
    rw [get?_owners_place_of_mem hn definition (by simp), ho]

/-- Placing a definition of a new name keeps the invariant. -/
theorem place (h : Placed services placed t) {name : String} (hn : name ∉ placed.map Prod.fst)
    (definition : Definition) :
    Placed services (placed ++ [(name, definition)]) (t.place name definition) where
  keys_nodup := by
    rw [keys_place]
    exact nodup_keys_declare h.keys_nodup _
  global_mem := (mem_keys_place _ _ _).2 (Or.inl h.global_mem)
  global_only := by
    intro key hk hkind
    rcases (mem_keys_place _ _ _).1 hk with hk | rfl
    · exact h.global_only key hk hkind
    · rcases h.ownerOf_cases name with ho | ⟨m, ho, -⟩
      · exact h.global_only _ ho hkind
      · rw [ho] at hkind
        cases hkind
  service_mem := by
    intro s
    rw [mem_keys_place, ← h.service_mem]
    refine ⟨?_, Or.inl⟩
    rintro (hk | hk)
    · exact hk
    · rcases h.ownerOf_cases name with ho | ⟨m, ho, -⟩
      · exact hk ▸ ho
      · cases hk.trans ho
  nameSpace_mem := by
    intro m
    rw [mem_keys_place, exists_owner_place_iff hn, h.nameSpace_mem, eq_comm (b := t.ownerOf name)]
  nameSpace_apart := by
    intro m hm
    rcases (mem_keys_place _ _ _).1 hm with hm | hm
    · exact h.nameSpace_apart m hm
    · rcases h.ownerOf_cases name with ho | ⟨m', ho, hapart⟩
      · exact h.nameSpace_apart m (hm ▸ ho)
      · cases hm.trans ho
        exact hapart
  owners_keys := by
    have hnew : name ∉ t.owners.keys := by rwa [h.owners_keys]
    rw [owners_place, Table.keys_insert, if_neg hnew, h.owners_keys]
    simp
  owner_mem := by
    intro other key ho
    rw [get?_owners_place] at ho
    split at ho
    · exact (mem_keys_place _ _ _).2 (Or.inr (Option.some.inj ho).symm)
    · exact (mem_keys_place _ _ _).2 (Or.inl (h.owner_mem other key ho))
  contents := fun _ hs => h.contents_place hn definition hs
  belongs := fun _ _ _ hp => h.belongs_place hn definition hp

/-! ### Look-up -/

theorem names_nodup (h : Placed services placed t) : (placed.map Prod.fst).Nodup :=
  h.owners_keys ▸ t.owners.nodup_keys

/-- The scope of a definition is the one that owns it. -/
theorem key_scopeOf? (h : Placed services placed t) (name : String) :
    (t.scopeOf? name).map Scope.key = t.owners.get? name := by
  rw [scopeOf?]
  cases ho : t.owners.get? name with
  | none => rfl
  | some key =>
    obtain ⟨scope, -, hkey, hs⟩ := exists_scope?_of_mem h.keys_nodup (h.owner_mem name key ho)
    rw [Option.bind_some, hs, Option.map_some, hkey]

theorem exists_owner (h : Placed services placed t) {d : String × Definition} (hd : d ∈ placed) :
    ∃ key, t.owners.get? d.1 = some key := by
  obtain ⟨before, after, hp⟩ := List.append_of_mem hd
  obtain ⟨key, ho, -⟩ := h.belongs before d after hp
  exact ⟨key, ho⟩

/-- A scope holds a definition exactly if it was placed and the scope owns it. -/
theorem mem_definitions_iff (h : Placed services placed t) {scope : Scope} (hs : scope ∈ t.scopes)
    (d : String × Definition) :
    d ∈ scope.definitions.entries ↔ d ∈ placed ∧ t.owners.get? d.1 = some scope.key := by
  rw [h.contents scope hs, List.mem_filter, decide_eq_true_iff]

/-- The definitions of the table are those that were placed. -/
theorem definition?_eq (h : Placed services placed t) (name : String) :
    t.definition? name = Table.find name placed := by
  rw [definition?, scopeOf?]
  cases hf : Table.find name placed with
  | none =>
    have hnone : t.owners.get? name = none := by
      rw [Table.get?, Table.find_eq_none_iff, ← Table.keys, h.owners_keys]
      exact (Table.find_eq_none_iff name placed).1 hf
    rw [hnone]
    rfl
  | some definition =>
    have hd : (name, definition) ∈ placed := (Table.find_eq_some_iff h.names_nodup _ _).1 hf
    obtain ⟨key, ho⟩ := h.exists_owner hd
    obtain ⟨scope, hs, rfl, hscope⟩ :=
      exists_scope?_of_mem h.keys_nodup (h.owner_mem name key ho)
    rw [ho, Option.bind_some, hscope, Option.bind_some]
    exact scope.definitions.get?_of_mem ((h.mem_definitions_iff hs (name, definition)).2 ⟨hd, ho⟩)

end Placed

/-! ### The run -/

/-- Declaring a service before anything is placed adds its scope and nothing else. -/
theorem Placed.declareService {services : List String} {t : ScopeTable}
    (h : Placed services [] t) (name : String) :
    Placed (services ++ [name]) [] (t.declare ⟨.service, name⟩) := by
  have hnone : ∀ m, ⟨.nameSpace, m⟩ ∉ (t.declare ⟨.service, name⟩).keys := by
    intro m hm
    rcases (mem_keys_declare_iff _ _ _).1 hm with hm | hm
    · obtain ⟨d, hd, -⟩ := (h.nameSpace_mem m).1 hm
      exact absurd hd List.not_mem_nil
    · cases hm
  constructor
  case keys_nodup => exact nodup_keys_declare h.keys_nodup _
  case global_mem => exact (mem_keys_declare_iff _ _ _).2 (Or.inl h.global_mem)
  case global_only =>
    intro key hk hkind
    rcases (mem_keys_declare_iff _ _ _).1 hk with hk | rfl
    · exact h.global_only key hk hkind
    · cases hkind
  case service_mem =>
    intro s
    rw [mem_keys_declare_iff, h.service_mem]
    simp
  case nameSpace_mem =>
    intro m
    simpa using hnone m
  case nameSpace_apart =>
    intro m hm
    exact absurd hm (hnone m)
  case owners_keys => rw [owners_declare, h.owners_keys]
  case owner_mem =>
    intro other key ho
    rw [owners_declare] at ho
    exact (mem_keys_declare_iff _ _ _).2 (Or.inl (h.owner_mem other key ho))
  case contents =>
    intro scope hs
    rcases mem_scopes_declare hs with hs | ⟨-, rfl⟩
    · rw [h.contents scope hs]
      rfl
    · rfl
  case belongs =>
    intro before d after hp
    exact absurd hp (by simp)

/-- Declaring services one after another adds their scopes and nothing else. -/
theorem placed_foldl_declare {services names : List String} {t : ScopeTable}
    (h : Placed services [] t) :
    Placed (services ++ names) [] (names.foldl (fun t name => t.declare ⟨.service, name⟩) t) := by
  induction names generalizing services t with
  | nil => simpa using h
  | cons name rest ih =>
    have hrest := ih (h.declareService name)
    rwa [List.append_assoc, List.singleton_append] at hrest

theorem placed_initial : Placed [] [] initial := by
  constructor
  case keys_nodup => simp [keys, initial]
  case global_mem => exact List.mem_cons_self
  case global_only =>
    intro key hk _
    exact List.mem_singleton.1 hk
  case service_mem => simp [keys, initial, ScopeKey.global]
  case nameSpace_mem => simp [keys, initial, ScopeKey.global]
  case nameSpace_apart => simp
  case owners_keys => rfl
  case owner_mem =>
    intro name key ho
    cases ho
  case contents =>
    intro scope hs
    rw [List.mem_singleton.1 hs]
    rfl
  case belongs =>
    intro before d after hp
    exact absurd hp (by simp)

theorem placed_withServices (services : List String) :
    Placed services [] (withServices services) :=
  placed_foldl_declare placed_initial

/-- Placing definitions of new, distinct names one after another keeps the invariant. -/
theorem placed_placeAll {services : List String} {placed more : List (String × Definition)}
    {t : ScopeTable} (h : Placed services placed t) (hd : ((placed ++ more).map Prod.fst).Nodup) :
    Placed services (placed ++ more) (t.placeAll more) := by
  induction more generalizing placed t with
  | nil => simpa [placeAll] using h
  | cons d rest ih =>
    have hn : d.1 ∉ placed.map Prod.fst := by
      rw [List.map_append, List.nodup_append] at hd
      exact fun hm => hd.2.2 _ hm _ (by simp) rfl
    have happend : placed ++ d :: rest = placed ++ [d] ++ rest := by simp
    rw [happend] at hd ⊢
    exact ih (h.place hn d.2) hd

/-- The table of an accepted schema is made by placing the definitions that were read. -/
theorem eq_placeAll_of_ofSchema {schema : Value} {t : ScopeTable} (h : ofSchema schema = .ok t) :
    ∃ definitions read, rawDefinitions schema = .ok definitions ∧
      Table.collect readDefinition definitions = .ok read ∧
      t = (withServices (serviceNames definitions)).placeAll read.entries := by
  rw [ofSchema] at h
  cases hraw : rawDefinitions schema with
  | error fault => simp [hraw] at h
  | ok definitions =>
    cases hread : Table.collect readDefinition definitions with
    | error fault => simp [hraw, hread, Except.map] at h
    | ok read =>
      simp only [hraw, hread, Except.map, Except.ok.injEq] at h
      exact ⟨definitions, read, rfl, hread, h.symm⟩

/-- The table of an accepted schema holds the definitions that were read, placed in order. -/
theorem placed_ofSchema {schema : Value} {t : ScopeTable} (h : ofSchema schema = .ok t) :
    ∃ definitions read, rawDefinitions schema = .ok definitions ∧
      Table.collect readDefinition definitions = .ok read ∧
      Placed (serviceNames definitions) read.entries t := by
  obtain ⟨definitions, read, hraw, hread, rfl⟩ := eq_placeAll_of_ofSchema h
  refine ⟨definitions, read, hraw, hread, ?_⟩
  simpa using placed_placeAll (placed_withServices (serviceNames definitions))
    (by simpa using read.distinct : ((([] : List (String × Definition)) ++
      read.entries).map Prod.fst).Nodup)

section Accepted

variable {schema : Value} {definitions : Table Value}

/-- A schema is accepted when each of its definitions is. -/
theorem exists_ofSchema_iff (hraw : rawDefinitions schema = .ok definitions.entries) :
    (∃ t, ofSchema schema = .ok t) ↔
      ∀ entry ∈ definitions.entries, ∃ made, readDefinition entry.1 entry.2 = .ok made := by
  rw [← Table.exists_collectFrom_iff readDefinition ∅]
  constructor
  · rintro ⟨t, ht⟩
    obtain ⟨entries, read, hraw', hread, -⟩ := placed_ofSchema ht
    obtain rfl : definitions.entries = entries := Except.ok.inj (hraw.symm.trans hraw')
    exact ⟨read, hread⟩
  · rintro ⟨read, hread⟩
    have hcollect : Table.collect readDefinition definitions.entries = .ok read := hread
    refine ⟨(withServices (serviceNames definitions.entries)).placeAll read.entries, ?_⟩
    simp only [ofSchema, hraw, hcollect, Except.map]

/-- The table of an accepted schema holds what is kept of its entries. -/
theorem placed_keptEntry (hraw : rawDefinitions schema = .ok definitions.entries)
    {t : ScopeTable} (ht : ofSchema schema = .ok t) :
    Placed (serviceNames definitions.entries)
      (definitions.entries.filterMap (Table.keptEntry readDefinition)) t := by
  obtain ⟨entries, read, hraw', hread, hplaced⟩ := placed_ofSchema ht
  obtain rfl : definitions.entries = entries := Except.ok.inj (hraw.symm.trans hraw')
  exact Table.entries_collect hread definitions.distinct ▸ hplaced

end Accepted

/-! ### What a schema defines -/

/-- Whether an entry of a schema defines something here: it is not left out, and it has a supported
shape that is not that of a service. -/
def isRetained (entry : String × Value) : Bool :=
  !isExcluded entry.1 entry.2 && Shape.ofValue entry.2 != .service &&
    Shape.ofValue entry.2 != .unsupported

/-- A supported shape other than that of a service gives a definition. -/
theorem isSome_readShape {name : String} {members : Members} {shape : Shape}
    {made : Option Definition} (h : readShape name members shape = .ok made) :
    made.isSome = (shape != .service && shape != .unsupported) := by
  have hmap {α : Type} {result : Except Fault α} {f : α → Definition}
      (hr : (result.map fun a => some (f a)) = .ok made) : made.isSome = true := by
    cases result with
    | error fault => cases hr
    | ok a =>
      cases hr
      rfl
  cases shape with
  | service => cases h; rfl
  | unsupported => cases h; rfl
  | typeAlias => cases h; rfl
  | enumeration => cases h; rfl
  | entity => exact hmap h
  | structuredType => exact hmap h
  | action => exact hmap h
  | function => exact hmap h
  | arrayAlias items => exact hmap h

/-- The entries that give a definition are the retained ones. -/
theorem isSome_readDefinition {entry : String × Value} {made : Option Definition}
    (h : readDefinition entry.1 entry.2 = .ok made) : made.isSome = isRetained entry := by
  obtain ⟨name, raw⟩ := entry
  unfold readDefinition at h
  by_cases he : isExcluded name raw = true
  · rw [if_pos he] at h
    cases h
    simp [isRetained, he]
  · rw [if_neg he] at h
    cases raw with
    | object members =>
      rw [isSome_readShape h]
      simp [isRetained, he, Shape.ofValue]
    | null => cases h; simp [isRetained, Shape.ofValue]
    | bool value => cases h; simp [isRetained, Shape.ofValue]
    | number value => cases h; simp [isRetained, Shape.ofValue]
    | string value => cases h; simp [isRetained, Shape.ofValue]
    | array items => cases h; simp [isRetained, Shape.ofValue]

/-- What is kept of the entries of a schema are its retained ones, in order, each as it is read. -/
theorem forall₂_keptEntry {entries : List (String × Value)}
    (h : ∀ entry ∈ entries, ∃ made, readDefinition entry.1 entry.2 = .ok made) :
    List.Forall₂ (fun entry d => d.1 = entry.1 ∧ readDefinition entry.1 entry.2 = .ok (some d.2))
      (entries.filter isRetained) (entries.filterMap (Table.keptEntry readDefinition)) := by
  induction entries with
  | nil => exact .nil
  | cons entry rest ih =>
    obtain ⟨⟨made, hm⟩, hrest⟩ := List.forall_mem_cons.1 h
    have hsome := isSome_readDefinition hm
    cases made with
    | none =>
      rw [List.filter_cons_of_neg (by rw [← hsome]; simp),
        List.filterMap_cons_none (by simp [Table.keptEntry, hm])]
      exact ih hrest
    | some definition =>
      rw [List.filter_cons_of_pos (by rw [← hsome]; rfl),
        List.filterMap_cons_some (b := (entry.1, definition)) (by simp [Table.keptEntry, hm])]
      exact .cons ⟨rfl, hm⟩ (ih hrest)

theorem mem_serviceNames (definitions : Members) (name : String) :
    name ∈ serviceNames definitions ↔
      ∃ raw, (name, raw) ∈ definitions ∧ Shape.ofValue raw = .service ∧
        isExcluded name raw = false := by
  simp only [serviceNames, List.mem_map, List.mem_filter, Bool.and_eq_true, decide_eq_true_iff,
    Bool.not_eq_true']
  constructor
  · rintro ⟨⟨n, raw⟩, h, rfl⟩
    exact ⟨raw, h⟩
  · rintro ⟨raw, h⟩
    exact ⟨(name, raw), h, rfl⟩

theorem serviceNames_perm {definitions definitions' : Members} (h : definitions.Perm definitions') :
    (serviceNames definitions).Perm (serviceNames definitions') :=
  (h.filter _).map Prod.fst

/-! ### Exact ownership -/

/-- The definitions `defined` are those of a schema with the given entries, and the scope table `t`
holds each of them in the scope to which it belongs. -/
structure Ownership (entries : Members) (t : ScopeTable)
    (defined : List (String × Definition)) : Prop where
  /-- The definitions are the retained entries, in document order, each as it is read. -/
  reads : List.Forall₂
    (fun entry d => d.1 = entry.1 ∧ readDefinition entry.1 entry.2 = .ok (some d.2))
    (entries.filter isRetained) defined
  /-- The table knows them by name and knows no others. -/
  definition? : ∀ name, t.definition? name = Table.find name defined
  /-- Every scope holds, in document order, exactly the definitions that it owns. -/
  contents : ∀ scope ∈ t.scopes, scope.definitions.entries =
    defined.filter fun d => (t.scopeOf? d.1).map Scope.key = some scope.key
  /-- A definition belongs to its owner, given all services of the document that are not left out
  and the namespaces that were made for definitions before it. -/
  owner : ∀ before d after, defined = before ++ d :: after → ∃ key,
    (t.scopeOf? d.1).map Scope.key = some key ∧ BelongsTo
      (fun s => ∃ raw, (s, raw) ∈ entries ∧ Shape.ofValue raw = .service ∧ isExcluded s raw = false)
      (fun m => ∃ e ∈ before, (t.scopeOf? e.1).map Scope.key = some ⟨.nameSpace, m⟩) d.1 key
  /-- A namespace holds a definition. -/
  inhabited : ∀ scope ∈ t.scopes, scope.key.kind = .nameSpace → scope.definitions.entries ≠ []
  /-- No namespace has the name of a service. -/
  apart : ∀ scope ∈ t.scopes, ∀ other ∈ t.scopes, scope.key.kind = .nameSpace →
    other.key.kind = .service → scope.key.name ≠ other.key.name

/-- The invariant of placement, read off the scopes. -/
theorem Placed.ownership {entries : Members} {placed : List (String × Definition)}
    {t : ScopeTable} (h : Placed (serviceNames entries) placed t)
    (hreads : List.Forall₂
      (fun entry d => d.1 = entry.1 ∧ readDefinition entry.1 entry.2 = .ok (some d.2))
      (entries.filter isRetained) placed) : Ownership entries t placed where
  reads := hreads
  definition? := h.definition?_eq
  contents := by
    intro scope hs
    simp only [h.key_scopeOf?]
    exact h.contents scope hs
  owner := by
    intro before d after hp
    simp only [h.key_scopeOf?, ← mem_serviceNames]
    exact h.belongs before d after hp
  inhabited := by
    intro scope hs hkind hnil
    obtain ⟨d, hd, ho⟩ := (h.nameSpace_mem scope.key.name).1 (mem_keys_of_kind hs hkind)
    have hmem := (h.mem_definitions_iff hs d).2 ⟨hd, by rw [ho, ← hkind]⟩
    exact absurd (hnil ▸ hmem) List.not_mem_nil
  apart := by
    intro scope hs other hother hkind hservice hname
    have hm := h.nameSpace_apart _ (mem_keys_of_kind hs hkind)
    rw [hname] at hm
    exact hm ((h.service_mem _).1 (mem_keys_of_kind hother hservice))

/-- **Every accepted schema has exact owners**: its definitions are the retained entries, and each
belongs to the longest enclosing service of the whole document, else to the longest enclosing
namespace made before it, else to a new namespace or the global scope. -/
theorem ofSchema_ownership {schema : Value} {definitions : Table Value} {t : ScopeTable}
    (hraw : rawDefinitions schema = .ok definitions.entries) (ht : ofSchema schema = .ok t) :
    ∃ defined, Ownership definitions.entries t defined := by
  have hmade := (exists_ofSchema_iff hraw).1 ⟨t, ht⟩
  exact ⟨_, (placed_keptEntry hraw ht).ownership (forall₂_keptEntry hmade)⟩

/-- A result of which something is known has ended well. -/
theorem exists_ok_of_map {ε α β : Type} {result : Except ε α} {f : α → β} {value : β}
    (h : result.toOption.map f = some value) : ∃ a, result = .ok a ∧ f a = value := by
  cases result with
  | error e => cases h
  | ok a => exact ⟨a, rfl, Option.some.inj h⟩

/-- The schema with the given definitions and nothing else. -/
def schemaOf (definitions : Table Value) : Value :=
  .object [("definitions", .object definitions.entries)]

theorem rawDefinitions_schemaOf (definitions : Table Value) :
    rawDefinitions (schemaOf definitions) = .ok definitions.entries := rfl

/-- Definitions in nested scopes, with their service at the end. -/
def nestedDefinitions : Table Value where
  entries :=
    let text : Value := .object [("kind", .string "type"), ("type", .string "cds.String")]
    [("a.X", text), ("a.b.Y", text), ("a.S.Z", text), ("T", text), ("c_texts", text),
      ("a.S", .object [("kind", .string "service")])]
  distinct := by decide

/-- In the nested definitions `a.b.Y` goes to the namespace made for `a.X` and `a.S.Z` to the
service that is declared last. -/
theorem ofSchema_ownership_nested :
    ∃ t, ofSchema (schemaOf nestedDefinitions) = .ok t ∧
      t.scopes.map (fun scope => (scope.key, scope.definitions.keys)) =
        [(.global, ["T"]), (⟨.service, "a.S"⟩, ["a.S.Z"]), (⟨.nameSpace, "a"⟩, ["a.X", "a.b.Y"])] ∧
      ∃ defined, Ownership nestedDefinitions.entries t defined := by
  have hscopes : (ofSchema (schemaOf nestedDefinitions)).toOption.map
      (fun t => t.scopes.map fun scope => (scope.key, scope.definitions.keys)) =
        some [(.global, ["T"]), (⟨.service, "a.S"⟩, ["a.S.Z"]),
          (⟨.nameSpace, "a"⟩, ["a.X", "a.b.Y"])] := by decide
  obtain ⟨t, ht, hkeys⟩ := exists_ok_of_map hscopes
  exact ⟨t, ht, hkeys, ofSchema_ownership (rawDefinitions_schemaOf nestedDefinitions) ht⟩

end SchemaTypings.Schema
