import SchemaTypings.Proofs.Agreement
import SchemaTypings.Proofs.Chains
import SchemaTypings.Proofs.Closure
import SchemaTypings.Proofs.Sorting

/-!
# Adding a definition

A definition at the end of a schema that no other definition uses touches the file of its owner
only.  Placing it moves no other definition and changes no other scope; the larger index answers as
before whatever another file asks for; so the other files are the same, in the same order.
-/

namespace SchemaTypings.Schema.ScopeTable

open SchemaTypings.Json SchemaTypings.Generation

/-! ### Reading -/

/-- An entry that gives a definition is not a service. -/
theorem serviceNames_concat (entries : Members) {name : String} {raw : Value}
    {definition : Definition} (hd : readDefinition name raw = .ok (some definition)) :
    serviceNames (entries ++ [(name, raw)]) = serviceNames entries := by
  have hretained : isRetained (name, raw) = true := (@isSome_readDefinition (name, raw) _ hd).symm
  have hshape : Shape.ofValue raw ≠ .service := by
    intro hs
    simp [isRetained, hs] at hretained
  rw [serviceNames, serviceNames, List.filter_append]
  simp [hshape]

/-- A definition at the end of an accepted schema is placed last. -/
theorem ofSchema_concat {schema schema' : Value} {definitions : Table Value} {name : String}
    {raw : Value} {t : ScopeTable} {definition : Definition}
    (hraw : rawDefinitions schema = .ok definitions.entries)
    (hraw' : rawDefinitions schema' = .ok (definitions.entries ++ [(name, raw)]))
    (hn : name ∉ definitions.keys) (ht : ofSchema schema = .ok t)
    (hd : readDefinition name raw = .ok (some definition)) :
    ofSchema schema' = .ok (t.place name definition) := by
  obtain ⟨entries, read, hentries, hread, rfl⟩ := eq_placeAll_of_ofSchema ht
  obtain rfl : definitions.entries = entries := Except.ok.inj (hraw.symm.trans hentries)
  have hnew : name ∉ read.keys := by
    rw [Table.keys, Table.entries_collect hread definitions.distinct]
    exact fun hm => hn (Table.names_keptEntry_subset _ _ hm)
  have hcollect : Table.collect readDefinition (definitions.entries ++ [(name, raw)]) =
      .ok (read.insert name definition) := by
    rw [Table.collect, Table.collectFrom_append, ← Table.collect, hread]
    show Table.collectFrom readDefinition read [(name, raw)] = _
    rw [Table.collectFrom, hd]
    rfl
  simp only [ofSchema, hraw', hcollect, Except.map, serviceNames_concat definitions.entries hd,
    Table.entries_insert_of_not_mem hnew, placeAll, List.foldl_append]
  rfl

/-! ### Scopes -/

variable {t : ScopeTable} {name : String}

theorem filter_scopes_insert (t : ScopeTable) (key : ScopeKey) (name : String)
    (definition : Definition) :
    ((t.insert key name definition).scopes.filter fun scope => scope.key ≠ key) =
      t.scopes.filter fun scope => scope.key ≠ key := by
  rw [insert]
  induction t.scopes with
  | nil => rfl
  | cons scope rest ih =>
    rw [List.map_cons, List.filter_cons, List.filter_cons, ih]
    by_cases hk : scope.key = key <;> simp [hk]

/-- All scopes but the owner stay as they are. -/
theorem filter_scopes_place (t : ScopeTable) (name : String) (definition : Definition) :
    ((t.place name definition).scopes.filter fun scope => scope.key ≠ t.ownerOf name) =
      t.scopes.filter fun scope => scope.key ≠ t.ownerOf name := by
  rw [place, filter_scopes_insert, declare]
  split
  · rfl
  · simp

/-- The other scopes hold what they did. -/
theorem scope?_place_of_ne {key : ScopeKey} (hk : key ≠ t.ownerOf name) (definition : Definition) :
    (t.place name definition).scope? key = t.scope? key := by
  have hfiltered (t' : ScopeTable) : t'.scope? key =
      (t'.scopes.filter fun scope => scope.key ≠ t.ownerOf name).find?
        fun scope => scope.key = key := by
    rw [scope?, List.find?_filter]
    -- the scope that is sought is among those that are kept
    refine congrArg (List.find? · t'.scopes) (funext fun scope => ?_)
    by_cases hs : scope.key = key <;> simp [hs, hk]
  rw [hfiltered, hfiltered t, filter_scopes_place]

theorem filter_ofKind_place (t : ScopeTable) (kind : ScopeKind) (name : String)
    (definition : Definition) :
    (((t.place name definition).ofKind kind).filter fun scope => scope.key ≠ t.ownerOf name) =
      (t.ofKind kind).filter fun scope => scope.key ≠ t.ownerOf name := by
  rw [ofKind, ofKind, List.filter_comm, filter_scopes_place, List.filter_comm]

end SchemaTypings.Schema.ScopeTable

namespace SchemaTypings.Schema.Placed

open SchemaTypings.Generation

variable {services : List String} {placed : List (String × Definition)} {t : ScopeTable}
  {name : String}

/-! ### The index -/

/-- The index knows the definitions of the table. -/
theorem definition?_ofScopes (h : Placed services placed t) (interfacePrefix : String) :
    (Index.ofScopes t interfacePrefix).catalogue.definition? = t.definition? :=
  funext fun other => h.definition_get?_ofScopes interfacePrefix other

theorem get?_ofScopes_eq_none (h : Placed services placed t) (hn : name ∉ placed.map Prod.fst)
    (interfacePrefix : String) : (Index.ofScopes t interfacePrefix).get? name = none := by
  refine Option.eq_none_iff_forall_not_mem.2 fun entry hentry => hn ?_
  obtain ⟨definition, -, hplaced, -⟩ := (h.get?_ofScopes_iff _ _ _).1 hentry
  exact List.mem_map_of_mem hplaced

/-- The larger index has the same entries under the other names. -/
theorem get?_ofScopes_place (h : Placed services placed t) (hn : name ∉ placed.map Prod.fst)
    (definition : Definition) (interfacePrefix : String) {other : String} (hne : other ≠ name) :
    (Index.ofScopes (t.place name definition) interfacePrefix).get? other =
      (Index.ofScopes t interfacePrefix).get? other := by
  refine Option.ext fun entry => ?_
  have hmem (d : Definition) :
      (other, d) ∈ placed ++ [(name, definition)] ↔ (other, d) ∈ placed := by
    simp [hne]
  have howner : (t.place name definition).owners.get? other = t.owners.get? other := by
    rw [get?_owners_place, if_neg (Ne.symm hne)]
  rw [(h.place hn definition).get?_ofScopes_iff, h.get?_ofScopes_iff]
  simp only [hmem, howner]

/-- The larger index has one entry more. -/
theorem entries_ofScopes_place (h : Placed services placed t) (hn : name ∉ placed.map Prod.fst)
    (definition : Definition) (interfacePrefix : String) : ∃ entry,
    (Index.ofScopes (t.place name definition) interfacePrefix).entries.entries.Perm
      ((Index.ofScopes t interfacePrefix).entries.entries ++ [(name, entry)]) := by
  have hplaced := h.place hn definition
  obtain ⟨key, ho⟩ := hplaced.exists_owner
    (List.mem_append_right placed (List.mem_singleton_self (name, definition)))
  have hentry := (hplaced.get?_ofScopes_iff interfacePrefix name _).2
    ⟨definition, key, by simp, ho, rfl⟩
  have hnew : name ∉ (Index.ofScopes t interfacePrefix).entries.keys :=
    (Table.find_eq_none_iff _ _).1 (h.get?_ofScopes_eq_none hn interfacePrefix)
  refine ⟨⟨key.name, definitionIdentifier interfacePrefix name definition, definition⟩, ?_⟩
  rw [← Table.entries_insert_of_not_mem hnew]
  refine Table.perm_of_get? fun other => ?_
  rw [Table.get?_insert]
  split
  · next heq => exact heq ▸ hentry
  · next hne => exact h.get?_ofScopes_place hn definition interfacePrefix (Ne.symm hne)

/-- The larger index allows for longer chains. -/
theorem elementCount_le_place (h : Placed services placed t) (hn : name ∉ placed.map Prod.fst)
    (definition : Definition) (interfacePrefix : String) :
    (Index.ofScopes t interfacePrefix).elementCount ≤
      (Index.ofScopes (t.place name definition) interfacePrefix).elementCount := by
  obtain ⟨entry, hperm⟩ := h.entries_ofScopes_place hn definition interfacePrefix
  rw [← Index.length_elements, ← Index.length_elements, Index.elements, Index.elements,
    (hperm.flatMap_right _).length_eq, List.flatMap_append, List.length_append]
  exact Nat.le_add_right _ _

/-- **The larger index agrees with the smaller one on the other names**, if no definition uses the
new one and no chain of element references runs in a circle. -/
theorem agreeOn_place (h : Placed services placed t) (hn : name ∉ placed.map Prod.fst)
    (definition : Definition) (hacyclic : AcyclicReferences t.definition?)
    (hunused : ∀ other d, t.definition? other = some d → name ∉ d.uses)
    (interfacePrefix : String) :
    Catalogue.AgreeOn (· ≠ name)
      (Index.ofScopes (t.place name definition) interfacePrefix).catalogue
      (Index.ofScopes t interfacePrefix).catalogue := by
  have hknown := h.definition?_ofScopes interfacePrefix
  have hdefinition : ∀ other, other ≠ name →
      ((Index.ofScopes (t.place name definition) interfacePrefix).catalogue.definition?
          other).map Definition.settled =
        ((Index.ofScopes t interfacePrefix).catalogue.definition? other).map
          Definition.settled := by
    intro other hne
    rw [Index.definition?_catalogue, Index.definition?_catalogue,
      h.get?_ofScopes_place hn definition interfacePrefix hne]
  have hclosed : ∀ other d, other ≠ name →
      (Index.ofScopes t interfacePrefix).catalogue.definition? other = some d →
      ∀ used ∈ d.uses, used ≠ name := by
    rintro other d - hd used hused rfl
    exact hunused other d (hknown ▸ hd) hused
  refine ⟨hdefinition, hclosed, fun type htype => ?_⟩
  -- first with the larger bound in both catalogues, then with the smaller one in the smaller
  refine (Catalogue.typeRefWithin_congr hdefinition hclosed _ type htype).trans ?_
  exact Catalogue.typeRefWithin_of_le (hknown ▸ hacyclic)
    (fun _ => Index.mem_elements_of_element?) (Index.length_elements _).le
    (h.elementCount_le_place hn definition interfacePrefix) type

/-! ### Outlines -/

theorem filter_scopesInOrder_place (h : Placed services placed t)
    (hn : name ∉ placed.map Prod.fst) (definition : Definition) (sorted : Bool)
    (kind : ScopeKind) :
    ((scopesInOrder sorted ((t.place name definition).ofKind kind)).filter fun scope =>
        scope.key ≠ t.ownerOf name) =
      (scopesInOrder sorted (t.ofKind kind)).filter fun scope => scope.key ≠ t.ownerOf name := by
  have hsame := t.filter_ofKind_place kind name definition
  cases sorted with
  | false => exact hsame
  | true =>
    refine (filter_mergeSort_name _ ((h.place hn definition).nodup_names_ofKind kind)).trans ?_
    rw [hsame]
    exact (filter_mergeSort_name _ (h.nodup_names_ofKind kind)).symm

theorem filter_globalScope_place (t : ScopeTable) (name : String) (definition : Definition) :
    ((globalScope (t.place name definition)).filter fun scope => scope.key ≠ t.ownerOf name) =
      (globalScope t).filter fun scope => scope.key ≠ t.ownerOf name := by
  by_cases hg : t.ownerOf name = .global
  · have hnone : ∀ t' : ScopeTable,
        ((globalScope t').filter fun scope => scope.key ≠ t.ownerOf name) = [] := by
      intro t'
      rw [globalScope, hg]
      split <;> simp
    rw [hnone, hnone]
  · have hsame : (t.place name definition).definitionsOf .global = t.definitionsOf .global := by
      rw [ScopeTable.definitionsOf, ScopeTable.scope?_place_of_ne (Ne.symm hg),
        ScopeTable.definitionsOf]
    rw [globalScope, globalScope, hsame]

/-- The other scopes have the outlines that they had, in the same order. -/
theorem filter_outlines_place (h : Placed services placed t) (hn : name ∉ placed.map Prod.fst)
    (definition : Definition) (sorted : Bool) :
    ((outlines sorted (t.place name definition)).filter fun o => o.key ≠ t.ownerOf name) =
      (outlines sorted t).filter fun o => o.key ≠ t.ownerOf name := by
  rw [outlines, outlines, List.filter_map, List.filter_map]
  refine congrArg (List.map _) ?_
  show ((_ ++ _) ++ _ : List Scope).filter (fun scope => scope.key ≠ t.ownerOf name) =
    ((_ ++ _) ++ _ : List Scope).filter fun scope => scope.key ≠ t.ownerOf name
  simp only [List.filter_append]
  rw [h.filter_scopesInOrder_place hn, h.filter_scopesInOrder_place hn, filter_globalScope_place]

/-! ### Files -/

/-- What the smaller catalogue knows is found where it was. -/
theorem locate_place (h : Placed services placed t) (hn : name ∉ placed.map Prod.fst)
    (definition : Definition) (options : Options) (o : Outline) {m : Mention}
    (hm : (indexOf options t).catalogue.Knows m) :
    (resolverFor (indexOf options (t.place name definition)) options o).locate m =
      (resolverFor (indexOf options t) options o).locate m := by
  have hne : m.owner ≠ name := by
    rintro rfl
    have hknown := hm.isSome_definition?
    rw [Index.definition?_catalogue, h.get?_ofScopes_eq_none hn] at hknown
    cases hknown
  refine Resolver.locate_congr ?_ ?_
  · rfl
  · exact congrArg (Option.map Resolver.address)
      (h.get?_ofScopes_place hn definition options.interfacePrefix hne)

/-- **An outline has the same file when an unused definition is added.** -/
theorem fileOf_place (h : Placed services placed t) (hn : name ∉ placed.map Prod.fst)
    (definition : Definition) (hacyclic : AcyclicReferences t.definition?)
    (hunused : ∀ other d, t.definition? other = some d → name ∉ d.uses) (options : Options)
    {o : Outline} (ho : o ∈ outlines options.sort t) :
    fileOf (indexOf options (t.place name definition)) options o =
      fileOf (indexOf options t) options o := by
  have hagree := h.agreeOn_place hn definition hacyclic hunused options.interfacePrefix
  have hknown : ∀ d ∈ o.emission, (indexOf options t).catalogue.definition? d.1 = some d.2 :=
    fun d hd => h.definition?_of_mem_emission options ho hd
  have huses : ∀ d ∈ o.emission, ∀ used ∈ d.2.uses, used ≠ name := by
    rintro d hd used hused rfl
    exact hunused d.1 d.2 (h.definition?_ofScopes options.interfacePrefix ▸ hknown d hd) hused
  refine fileOf_agree rfl rfl ?_ fun m hm => ?_
  · -- through the settled outline, which both catalogues sketch alike
    exact (hagree.left.outline huses _).symm.trans (hagree.outline huses _)
  · exact h.locate_place hn definition options o (Catalogue.allKnown_outline _ hknown m hm)

end SchemaTypings.Schema.Placed

namespace SchemaTypings.Generation

open SchemaTypings.Schema

/-! ### Files by scope -/

/-- The files of a table as texts, each with the scope whose definitions it declares. -/
def scopeFiles (options : Options) (t : ScopeTable) : List (ScopeKey × RenderedFile) :=
  (outlines options.sort t).map fun o =>
    (o.key, renderFile (fileOf (indexOf options t) options o).1)

/-- The files of an accepted schema are those of its scopes, in order. -/
theorem files_typings {schema : Json.Value} {t : ScopeTable}
    (ht : ScopeTable.ofSchema schema = .ok t) (options : Options) :
    (typings options schema).map Output.files = .ok ((scopeFiles options t).map Prod.snd) := by
  rw [typings, ht]
  show Except.ok ((generate options t).files.map renderFile) = _
  rw [files_generate, scopeFiles, List.map_map, List.map_map]
  rfl

/-- **A definition that no other uses touches the file of its owner only.**  If it is added at the
end of an accepted schema without circles of element references, the larger schema is accepted, all
other definitions keep their owners, and for all options the files of the other scopes are the same,
text for text and in the same order. -/
theorem typings_concat {schema schema' raw : Json.Value} {definitions : Table Json.Value}
    {name : String} {definition : Definition} {t : ScopeTable}
    (hraw : rawDefinitions schema = .ok definitions.entries)
    (hraw' : rawDefinitions schema' = .ok (definitions.entries ++ [(name, raw)]))
    (hn : name ∉ definitions.keys) (ht : ScopeTable.ofSchema schema = .ok t)
    (hd : readDefinition name raw = .ok (some definition))
    (hacyclic : AcyclicReferences t.definition?)
    (hunused : ∀ other d, t.definition? other = some d → name ∉ d.uses) :
    ∃ t' owner, ScopeTable.ofSchema schema' = .ok t' ∧
      (t'.scopeOf? name).map Scope.key = some owner ∧
      (∀ other, other ≠ name →
        (t'.scopeOf? other).map Scope.key = (t.scopeOf? other).map Scope.key) ∧
      ∀ options : Options,
        (typings options schema).map Output.files = .ok ((scopeFiles options t).map Prod.snd) ∧
        (typings options schema').map Output.files = .ok ((scopeFiles options t').map Prod.snd) ∧
        ((scopeFiles options t').filter fun file => file.1 ≠ owner) =
          (scopeFiles options t).filter fun file => file.1 ≠ owner := by
  have ht' := ScopeTable.ofSchema_concat hraw hraw' hn ht hd
  have hplaced := placed_keptEntry hraw ht
  have hnew : name ∉ (definitions.entries.filterMap (Table.keptEntry readDefinition)).map
      Prod.fst := fun hm => hn (Table.names_keptEntry_subset _ _ hm)
  have hplaced' := hplaced.place hnew definition
  refine ⟨t.place name definition, t.ownerOf name, ht', ?_, fun other hne => ?_, fun options =>
    ⟨files_typings ht options, files_typings ht' options, ?_⟩⟩
  · rw [hplaced'.key_scopeOf?, Placed.get?_owners_place, if_pos rfl]
  · rw [hplaced'.key_scopeOf?, hplaced.key_scopeOf?, Placed.get?_owners_place,
      if_neg (Ne.symm hne)]
  · rw [scopeFiles, scopeFiles, List.filter_map, List.filter_map]
    show ((outlines options.sort (t.place name definition)).filter fun o =>
      o.key ≠ t.ownerOf name).map _ = ((outlines options.sort t).filter fun o =>
        o.key ≠ t.ownerOf name).map _
    rw [hplaced.filter_outlines_place hnew]
    refine List.map_congr_left fun o ho => ?_
    rw [hplaced.fileOf_place hnew definition hacyclic hunused options (List.mem_of_mem_filter ho)]

/-- An entity with an element that has the type of another one, and an alias in a second namespace
that uses the entity. -/
def referringDefinitions : Table Json.Value where
  entries :=
    [("a.Base", .object [("kind", .string "entity"), ("elements", .object
        [("code", .object [("type", .string "cds.String")]),
          ("copy", .object [("type", .object
            [("ref", .array [.string "a.Base", .string "code"])])])])]),
      ("c.T", .object [("kind", .string "type"), ("type", .string "a.Base")])]
  distinct := by decide

/-- An alias of a third namespace. -/
def addedAlias : Json.Value := .object [("kind", .string "type"), ("type", .string "a.Base")]

/-- The referring definitions and an alias that none of them uses. -/
def extendedDefinitions : Table Json.Value where
  entries := referringDefinitions.entries ++ [("b.New", addedAlias)]
  distinct := by decide

/-- The alias gets a file of its own; the files of the other two namespaces stay as they are. -/
theorem typings_concat_referring : ∃ t t',
    ScopeTable.ofSchema (schemaOf referringDefinitions) = .ok t ∧
    ScopeTable.ofSchema (schemaOf extendedDefinitions) = .ok t' ∧
    (t'.scopeOf? "b.New").map Scope.key = some ⟨.nameSpace, "b"⟩ ∧
    ∀ options : Options,
      ((scopeFiles options t').filter fun file => file.1 ≠ ⟨.nameSpace, "b"⟩) =
        (scopeFiles options t).filter fun file => file.1 ≠ ⟨.nameSpace, "b"⟩ := by
  have hkeys : (ScopeTable.ofSchema (schemaOf referringDefinitions)).toOption.map ScopeTable.keys =
      some [.global, ⟨.nameSpace, "a"⟩, ⟨.nameSpace, "c"⟩] := by decide
  obtain ⟨t, ht, -⟩ := exists_ok_of_map hkeys
  have hplaced := placed_keptEntry (rawDefinitions_schemaOf referringDefinitions) ht
  have hreferences : ∀ r ∈ elementReferences
      (referringDefinitions.entries.filterMap (Table.keptEntry readDefinition)),
      (if r.2.2 = "copy" then 1 else 0) < (if r.1.2 = "copy" then 1 else 0) := by decide
  have huses : ∀ d ∈ referringDefinitions.entries.filterMap (Table.keptEntry readDefinition),
      "b.New" ∉ d.2.uses := by decide
  have hfind : t.definition? = (Table.find ·
      (referringDefinitions.entries.filterMap (Table.keptEntry readDefinition))) :=
    funext hplaced.definition?_eq
  have hacyclic : AcyclicReferences t.definition? :=
    acyclicReferences_of_rank (fun a => if a.2 = "copy" then 1 else 0) fun a b hab =>
      hreferences _ (mem_elementReferences hplaced.names_nodup (hfind ▸ hab))
  have hunused : ∀ other d, t.definition? other = some d → "b.New" ∉ d.uses := by
    intro other d hd
    rw [hplaced.definition?_eq] at hd
    exact huses _ ((Table.find_eq_some_iff hplaced.names_nodup other d).1 hd)
  obtain ⟨t', owner, ht', howner, -, hfiles⟩ := typings_concat
    (rawDefinitions_schemaOf referringDefinitions) (rawDefinitions_schemaOf extendedDefinitions)
    (by decide) ht (show readDefinition "b.New" addedAlias =
      .ok (some (.typeAlias ⟨.type (some "a.Base"), false⟩)) by rfl) hacyclic hunused
  have hscope : (ScopeTable.ofSchema (schemaOf extendedDefinitions)).toOption.map
      (fun t => (t.scopeOf? "b.New").map Scope.key) = some (some ⟨.nameSpace, "b"⟩) := by decide
  rw [ht'] at hscope
  obtain rfl : owner = ⟨.nameSpace, "b"⟩ :=
    Option.some.inj (howner.symm.trans (Option.some.inj hscope))
  exact ⟨t, t', ht, ht', howner, fun options => (hfiles options).2.2⟩

end SchemaTypings.Generation
