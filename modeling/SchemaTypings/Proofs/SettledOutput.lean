import SchemaTypings.Proofs.Agreement
import SchemaTypings.Proofs.Categories

/-!
# Output of settled definitions

Nothing that is generated tells a scope table from the settled one: outlines, index and local
identifiers are those of the table up to settling, and the sketches are the same.
-/

namespace SchemaTypings.Generation

open SchemaTypings.Name SchemaTypings.Schema

/-! ### Outlines -/

/-- From a settled definition a category picks what it picks from the definition, settled. -/
def PicksSettled {α : Type} (pick : String × Definition → Option (String × α)) (settle : α → α) :
    Prop :=
  ∀ d : String × Definition,
    pick (d.1, d.2.settled) = (pick d).map fun entry => (entry.1, settle entry.2)

theorem filterMap_settled {α : Type} {pick : String × Definition → Option (String × α)}
    {settle : α → α} (h : PicksSettled pick settle) (sorted : Bool)
    (entries : List (String × Definition)) :
    inOrder sorted ((entries.map fun d => (d.1, d.2.settled)).filterMap pick) =
      (inOrder sorted (entries.filterMap pick)).map fun entry => (entry.1, settle entry.2) := by
  rw [map_inOrder, List.filterMap_map, List.map_filterMap]
  exact congrArg (inOrder sorted) (List.filterMap_congr fun d _ => h d)

theorem Outline.ofScope_settled (sorted : Bool) (scope : Scope) :
    Outline.ofScope sorted scope.settled = (Outline.ofScope sorted scope).settled := by
  have hactions : PicksSettled actionEntry? id := by
    rintro ⟨name, definition⟩
    cases definition <;> rfl
  have haliases : PicksSettled aliasEntry? Alias.settled := by
    rintro ⟨name, definition⟩
    cases definition <;> rfl
  have henumerations : PicksSettled enumerationEntry? Enumeration.settled := by
    rintro ⟨name, definition⟩
    cases definition <;> rfl
  have hentities : PicksSettled entityEntry? Entity.settled := by
    rintro ⟨name, definition⟩
    cases definition <;> rfl
  have hunchanged (entries : List (String × Action)) :
      entries.map (fun entry => (entry.1, id entry.2)) = entries := List.map_id entries
  rw [ofScope, ofScope, Outline.settled, Scope.settled, Table.entries_map,
    filterMap_settled haliases, filterMap_settled henumerations, filterMap_settled hentities,
    filterMap_settled hactions, hunchanged]

theorem map_settled_scopesInOrder (sorted : Bool) (scopes : List Scope) :
    (scopesInOrder sorted scopes).map Scope.settled =
      scopesInOrder sorted (scopes.map Scope.settled) := by
  cases sorted with
  | false => rfl
  | true => exact List.map_mergeSort fun _ _ _ _ => rfl

theorem globalScope_settled (t : ScopeTable) :
    globalScope t.settled = (globalScope t).map Scope.settled := by
  rw [globalScope, globalScope, ScopeTable.definitionsOf_settled, Table.isEmpty_map]
  split <;> rfl

/-- The outlines of a settled table are the settled outlines. -/
theorem outlines_settled (sorted : Bool) (t : ScopeTable) :
    outlines sorted t.settled = (outlines sorted t).map Outline.settled := by
  simp only [outlines, ScopeTable.ofKind_settled, ← map_settled_scopesInOrder, globalScope_settled,
    ← List.map_append, List.map_map]
  exact List.map_congr_left fun scope _ => Outline.ofScope_settled sorted scope

/-! ### The index -/

/-- The entry with its definition settled. -/
def Entry.settled (entry : Entry) : Entry := { entry with definition := entry.definition.settled }

theorem entries_ofScopes_settled (t : ScopeTable) (interfacePrefix : String) :
    (Index.ofScopes t.settled interfacePrefix).entries =
      (Index.ofScopes t interfacePrefix).entries.map Entry.settled := by
  have hentry (scope : Scope) (d : String × Definition) :
      Index.entryOf interfacePrefix scope.settled (d.1, d.2.settled) =
        ((Index.entryOf interfacePrefix scope d).1,
          (Index.entryOf interfacePrefix scope d).2.settled) := by
    obtain ⟨name, definition⟩ := d
    cases definition <;> rfl
  rw [Index.ofScopes, Index.ofScopes, Table.map_ofEntries, ScopeTable.settled, List.flatMap_map,
    List.map_flatMap]
  refine congrArg Table.ofEntries (List.flatMap_congr fun scope _ => ?_)
  rw [Scope.settled, Table.entries_map, List.map_map, List.map_map]
  exact List.map_congr_left fun d _ => hentry scope d

theorem get?_ofScopes_settled (t : ScopeTable) (interfacePrefix name : String) :
    (Index.ofScopes t.settled interfacePrefix).get? name =
      ((Index.ofScopes t interfacePrefix).get? name).map Entry.settled := by
  rw [Index.get?, Index.get?, entries_ofScopes_settled, Table.get?_map]

theorem elementCount_settled (t : ScopeTable) (interfacePrefix : String) :
    (Index.ofScopes t.settled interfacePrefix).elementCount =
      (Index.ofScopes t interfacePrefix).elementCount := by
  have hcount (entry : Entry) : Index.Entry.elementCount entry.settled =
      Index.Entry.elementCount entry := by
    obtain ⟨namespaceName, identifier, definition⟩ := entry
    cases definition with
    | entity e => exact Table.size_map _ _
    | typeAlias a => rfl
    | enumeration e => rfl
    | action a => rfl
  rw [Index.elementCount, Index.elementCount, entries_ofScopes_settled, Table.entries_map,
    List.foldr_map]
  simp only [hcount]

/-! ### Files -/

theorem inlineEnumIdentifiers_settled (owner : String) (elements : Table Element) :
    Outline.inlineEnumIdentifiers owner (elements.map Element.settled) =
      Outline.inlineEnumIdentifiers owner elements := by
  rw [Outline.inlineEnumIdentifiers, Outline.inlineEnumIdentifiers, Table.entries_map,
    List.filter_map, List.map_map]
  simp only [Function.comp_def, Element.isSome_members_settled]

theorem localIdentifiers_settled (o : Outline) (interfacePrefix : String) :
    o.settled.localIdentifiers interfacePrefix = o.localIdentifiers interfacePrefix := by
  have hentity (entry : String × Entity) :
      Outline.entityIdentifiers interfacePrefix (entry.1, entry.2.settled) =
        Outline.entityIdentifiers interfacePrefix entry :=
    congrArg (List.cons _) (inlineEnumIdentifiers_settled entry.1 entry.2.elements)
  have halias (entry : String × Alias) :
      Outline.aliasIdentifiers (entry.1, entry.2.settled) = Outline.aliasIdentifiers entry := by
    obtain ⟨name, body, many⟩ := entry
    cases body with
    | type typeName => rfl
    | structured elements =>
      exact congrArg (List.cons _) (inlineEnumIdentifiers_settled name elements)
  simp only [Outline.localIdentifiers, Outline.settled, List.flatMap_map, List.map_map, hentity,
    halias]
  rfl

/-- The catalogue of a settled table agrees with that of the table on all names. -/
theorem agreeOn_settled (t : ScopeTable) (interfacePrefix : String) :
    Catalogue.AgreeOn (fun _ => True) (Index.ofScopes t.settled interfacePrefix).catalogue
      (Index.ofScopes t interfacePrefix).catalogue := by
  have hdefinition (name : String) :
      ((Index.ofScopes t.settled interfacePrefix).catalogue.definition? name).map
          Definition.settled =
        ((Index.ofScopes t interfacePrefix).catalogue.definition? name).map
          Definition.settled := by
    rw [Index.definition?_catalogue, Index.definition?_catalogue, get?_ofScopes_settled,
      Option.map_map, Option.map_map, Option.map_map]
    exact Option.map_congr fun entry _ => entry.definition.settled_settled
  refine ⟨fun name _ => hdefinition name, fun _ _ _ _ _ _ => trivial, fun type _ => ?_⟩
  show Catalogue.typeRefWithin _ (Index.ofScopes t.settled interfacePrefix).elementCount type = _
  rw [elementCount_settled]
  exact Catalogue.typeRefWithin_congr (fun name _ => hdefinition name)
    (fun _ _ _ _ _ _ => trivial) _ type fun _ _ => trivial

/-- Settled or not, a table generates the same file for an outline. -/
theorem fileOf_settled (options : Options) (t : ScopeTable) (o : Outline) :
    fileOf (indexOf options t.settled) options o.settled =
      fileOf (indexOf options t) options o := by
  refine fileOf_agree rfl (localIdentifiers_settled o options.interfacePrefix)
    ((agreeOn_settled t options.interfacePrefix).outline (fun _ _ _ _ => trivial) _) fun m _ =>
      Resolver.locate_congr ?_ ?_
  · rfl
  · show ((indexOf options t.settled).get? m.owner).map _ = _
    rw [get?_ofScopes_settled, Option.map_map]
    rfl

/-- **Settling changes no file and no warning.** -/
theorem generate_settled (options : Options) (t : ScopeTable) :
    generate options t.settled = generate options t := by
  have hfiles : (outlines options.sort t.settled).map
        (fileOf (indexOf options t.settled) options) =
      (outlines options.sort t).map (fileOf (indexOf options t) options) := by
    rw [outlines_settled, List.map_map]
    exact List.map_congr_left fun o _ => fileOf_settled options t o
  rw [generate, generate, hfiles]

end SchemaTypings.Generation
