import SchemaTypings.Proofs.Clauses
import SchemaTypings.Proofs.Drafting
import SchemaTypings.Proofs.Lookup
import SchemaTypings.Proofs.References

/-!
# Closure of references

Every reference of a generated file that means a definition leads to the declaration of that
definition: in the file itself or, through an import, in the file of another namespace; and all
imports are used.  Identifiers are made in the index for references and in the generator for
declarations, and files come from the outlines; `ClosedFile` is where the three meet.  The way from
a name to the file of the owner is `Reaches`, whether or not the owner's file declares the target.
-/

namespace SchemaTypings.Generation

open SchemaTypings.Name SchemaTypings.Schema SchemaTypings.Typing

/-! ### Where references lead -/

/-- The name stands for the identifier in the file: it is the identifier itself or the local name of
an import specifier of the identifier. -/
def StandsFor (file : SourceFile) (name identifier : String) : Prop :=
  name = identifier ∨ ∃ clause ∈ file.imports, ∃ specifier ∈ clause.names,
    specifier.localName = name ∧ specifier.name = identifier

/-- The name leads from the file to a declaration of the identifier. -/
inductive LeadsTo (files : List SourceFile) (file : SourceFile) (name identifier : String) :
    Prop where
  /-- To a declaration in the file itself. -/
  | declared (same : name = identifier) (top : identifier ∈ file.topLevelNames)
  /-- By an import specifier to a declaration in the file of another namespace. -/
  | imported {clause : ImportClause} {specifier : ImportedName} {other : SourceFile}
      (clause_mem : clause ∈ file.imports) (specifier_mem : specifier ∈ clause.names)
      (local_eq : specifier.localName = name) (name_eq : specifier.name = identifier)
      (other_mem : other ∈ files) (apart : other.namespaceName ≠ file.namespaceName)
      (path : clause.moduleSpecifier ++ ".ts" = "./" ++ other.fileName)
      (top : identifier ∈ other.topLevelNames)

/-- By the name a file reaches the identifier in its home: the home is the file itself and the name
is the identifier, or the file imports it from there under that name. -/
inductive Reaches (file home : SourceFile) (name identifier : String) : Prop where
  | here (same : home = file) (name_eq : name = identifier)
  | imported {clause : ImportClause} {specifier : ImportedName} (clause_mem : clause ∈ file.imports)
      (specifier_mem : specifier ∈ clause.names) (local_eq : specifier.localName = name)
      (name_eq : specifier.name = identifier) (apart : home.namespaceName ≠ file.namespaceName)
      (path : clause.moduleSpecifier ++ ".ts" = "./" ++ home.fileName)

theorem Reaches.standsFor {file home : SourceFile} {name identifier : String}
    (h : Reaches file home name identifier) : StandsFor file name identifier := by
  cases h with
  | here same name_eq => exact Or.inl name_eq
  | imported clause_mem specifier_mem local_eq name_eq apart path =>
    exact Or.inr ⟨_, clause_mem, _, specifier_mem, local_eq, name_eq⟩

/-- What is reached and declared there is where the name leads. -/
theorem Reaches.leadsTo {files : List SourceFile} {file home : SourceFile}
    {name identifier : String} (h : Reaches file home name identifier) (hhome : home ∈ files)
    (htop : identifier ∈ home.topLevelNames) : LeadsTo files file name identifier := by
  cases h with
  | here same name_eq => exact .declared name_eq (same ▸ htop)
  | imported clause_mem specifier_mem local_eq name_eq apart path =>
    exact .imported clause_mem specifier_mem local_eq name_eq hhome apart path htop

/-- The name is a reference to what is mentioned. -/
inductive Means (index : Index) (files : List SourceFile) (file : SourceFile) :
    Mention → String → Prop where
  /-- A definition is referred to by a name that leads to its declaration. -/
  | definition {definitionName name : String} {entry : Entry}
      (found : index.get? definitionName = some entry)
      (leads : LeadsTo files file name entry.identifier) :
      Means index files file (.definition definitionName) name
  | inlineEnum {owner field name : String}
      (stands : StandsFor file name (inlineEnumIdentifier owner field)) :
      Means index files file (.inlineEnum owner field) name

/-- The references of the file of an outline are closed. -/
structure ClosedFile (index : Index) (options : Options) (files : List SourceFile) (o : Outline)
    (file : SourceFile) : Prop where
  /-- Bases and references, at any depth, are what the outline mentions, in order. -/
  references : List.Forall₂ (Means index files file) (mentionsOf (outlineEvents index options o))
    file.references
  /-- Every specifier is used. -/
  used : ∀ clause ∈ file.imports, ∀ specifier ∈ clause.names,
    specifier.localName ∈ file.references

/-! ### Imports of mentions -/

namespace Resolver

variable {r : Resolver}

/-- Every import that is collected is where something mentioned is found, and goes by the local name
of that. -/
theorem exists_mention_of_mem_after {c : Collected} {events : List Event} {i : Import}
    (h : i ∈ (r.after c events).imports) : i ∈ c.imports ∨ ∃ m, .mention m ∈ events ∧
      r.locate m = (i.namespaceName, i.identifier) ∧
        r.nameIn (r.after c events) m = i.localName := by
  induction events generalizing c with
  | nil => exact Or.inl h
  | cons event rest ih =>
    rcases ih h with hi | ⟨m, hm, hn⟩
    · -- the import was there after the first event: this one added it, or it is older
      cases event with
      | warning w => exact Or.inl hi
      | mention m =>
        by_cases hl : r.Linked c m
        · rw [record, if_pos hl] at hi
          exact Or.inl hi
        · have hname := nameIn_after (linked_record (r := r) c m) rest
          rw [nameIn_record hl] at hname
          rw [record, if_neg hl, Collected.addImport] at hi
          rcases List.mem_append.1 hi with hi | hi
          · exact Or.inl hi
          · rw [List.mem_singleton.1 hi]
            exact Or.inr ⟨m, List.mem_cons_self, rfl, hname⟩
    · exact Or.inr ⟨m, List.mem_cons_of_mem _ hm, hn⟩

/-- What events mention goes by its own name in the namespace of the resolver, or by the name under
which it is imported from another one. -/
theorem nameIn_cases (c : Collected) {events : List Event} {m : Mention}
    (h : .mention m ∈ events) :
    ((r.locate m).1 = r.namespaceName ∧ r.nameIn (r.after c events) m = (r.locate m).2) ∨
      ((r.locate m).1 ≠ r.namespaceName ∧ ∃ i ∈ (r.after c events).imports,
        i.namespaceName = (r.locate m).1 ∧ i.identifier = (r.locate m).2 ∧
          r.nameIn (r.after c events) m = i.localName) := by
  have hl := linked_after (r := r) c h
  by_cases hn : (r.locate m).1 = r.namespaceName
  · exact Or.inl ⟨hn, if_pos hn⟩
  · obtain ⟨localName, hlocal⟩ := Option.isSome_iff_exists.1 (hl.resolve_left hn)
    obtain ⟨i, hi, rfl⟩ := Option.map_eq_some_iff.1 hlocal
    have hfound := List.find?_some hi
    simp only [Bool.and_eq_true, decide_eq_true_iff] at hfound
    refine Or.inr ⟨hn, i, List.mem_of_find?_eq_some hi, hfound.1, hfound.2, ?_⟩
    rw [nameIn, if_neg hn, hlocal, Option.getD_some]

end Resolver

/-! ### What files declare -/

theorem exists_topLevelName (k : Catalogue) (separator interfacePrefix name : String)
    {definition : Definition} (h : definition.isAction = false) :
    ∃ s ∈ k.definition separator name definition, s.topLevelName? interfacePrefix =
      some (definitionIdentifier interfacePrefix name definition) := by
  cases definition with
  | action a => cases h
  | entity e => exact ⟨_, List.mem_append_right _ List.mem_cons_self, rfl⟩
  | typeAlias a => exact ⟨_, List.mem_append_right _ List.mem_cons_self, rfl⟩
  | enumeration e => exact ⟨_, List.mem_cons_self, rfl⟩

theorem topLevelNames_fileOf (index : Index) (options : Options) (o : Outline) :
    (fileOf index options o).1.topLevelNames =
      (index.catalogue.outline options.foreignKeySeparator o).filterMap
        (DeclarationSketch.topLevelName? options.interfacePrefix) := by
  rw [fileOf_eq]
  exact topLevelNames_namedDeclarations _ _ _

/-- The file of an outline declares every definition that can be referred to under the identifier
that the index gives it. -/
theorem mem_topLevelNames_fileOf (index : Index) (options : Options) {o : Outline}
    {d : String × Definition} (hd : d ∈ o.emission) (ha : d.2.isAction = false) :
    definitionIdentifier options.interfacePrefix d.1 d.2 ∈
      (fileOf index options o).1.topLevelNames := by
  obtain ⟨s, hs, hname⟩ := exists_topLevelName index.catalogue options.foreignKeySeparator
    options.interfacePrefix d.1 ha
  have hmem : s ∈ index.catalogue.outline options.foreignKeySeparator o :=
    List.mem_append_left _ (List.mem_flatMap.2 ⟨d, hd, hs⟩)
  rw [topLevelNames_fileOf]
  exact List.mem_filterMap.2 ⟨s, hmem, hname⟩

theorem references_fileOf (index : Index) (options : Options) (o : Outline) :
    (fileOf index options o).1.references = (mentionsOf (outlineEvents index options o)).map
      ((resolverFor index options o).nameIn (collectedFor index options o)) := by
  rw [fileOf_eq]
  exact references_namedDeclarations _ _ _

theorem exists_emitted {index : Index} {options : Options} {o : Outline} {m : Mention}
    (h : .mention m ∈ outlineEvents index options o) : ∃ d, d ∈ o.emission := by
  refine List.exists_mem_of_ne_nil _ fun hnil => ?_
  rw [outlineEvents, Catalogue.outline, hnil] at h
  simp [declarationEvents, Catalogue.enumerationSketch, enumerationAs,
    DeclarationSketch.events] at h

theorem files_generate (options : Options) (t : ScopeTable) :
    (generate options t).files = (outlines options.sort t).map fun o =>
      (fileOf (indexOf options t) options o).1 := by
  rw [generate, List.map_map]
  rfl

end SchemaTypings.Generation

namespace SchemaTypings.Schema.Placed

open SchemaTypings.Name SchemaTypings.Generation SchemaTypings.Typing

variable {services : List String} {placed : List (String × Definition)} {t : ScopeTable}

/-- The catalogue knows what an outline emits. -/
theorem definition?_of_mem_emission (h : Placed services placed t) (options : Options) {o : Outline}
    (hmem : o ∈ outlines options.sort t) {d : String × Definition} (hd : d ∈ o.emission) :
    (indexOf options t).catalogue.definition? d.1 = some d.2 := by
  obtain ⟨hplaced, ho⟩ := (h.mem_emission_iff hmem d).1 hd
  rw [Index.definition?_catalogue, (h.get?_ofScopes_iff _ _ _).2 ⟨d.2, o.key, hplaced, ho, rfl⟩]
  rfl

/-- The file of an outline reaches what it mentions in the file of the outline that emits the
definition to which that belongs. -/
theorem reaches (h : Placed services placed t) (options : Options) {o : Outline}
    (hmem : o ∈ outlines options.sort t) {m : Mention}
    (hm : .mention m ∈ outlineEvents (indexOf options t) options o) {owner : String}
    {definition : Definition} {key : ScopeKey} (hd : (owner, definition) ∈ placed)
    (ho : t.owners.get? owner = some key)
    (hlocate : ((resolverFor (indexOf options t) options o).locate m).1 = key.name) :
    ∃ home ∈ outlines options.sort t, home.key = key ∧ (owner, definition) ∈ home.emission ∧
      Reaches (fileOf (indexOf options t) options o).1 (fileOf (indexOf options t) options home).1
        ((resolverFor (indexOf options t) options o).nameIn
          (collectedFor (indexOf options t) options o) m)
        ((resolverFor (indexOf options t) options o).locate m).2 := by
  rcases Resolver.nameIn_cases (r := resolverFor (indexOf options t) options o) .none hm with
    ⟨hkey, hname⟩ | ⟨hkey, i, hi, hns, hid, hname⟩
  · -- the outline mentions something, so it has definitions and its name tells its scope
    have hemitted := h.mem_emission_of_name_eq hmem (exists_emitted hm) hd ho
      (hlocate.symm.trans hkey)
    refine ⟨o, hmem, ?_, hemitted, .here rfl hname⟩
    have howner := ((h.mem_emission_iff hmem (owner, definition)).1 hemitted).2
    exact Option.some.inj (howner.symm.trans ho)
  · -- the file imported from is that of the scope which owns the definition
    obtain ⟨home, hhome, rfl, hemitted⟩ := h.exists_outline_of_owner options.sort hd ho
    obtain ⟨clause, hc, hpath, hspecifier⟩ := exists_clause_of_mem options hi
    have hlocal : (importedName i).localName = _ := (localName_importedName i).trans hname.symm
    refine ⟨home, hhome, rfl, hemitted, .imported ?_ hspecifier hlocal hid ?_ ?_⟩
    · rw [fileOf_eq]
      exact hc
    · exact fun he => hkey (hlocate.trans he)
    · rw [hpath, hns, hlocate]
      exact options.moduleSpecifier_append home.name

/-- The file of an outline reaches the enumerations inside elements that it mentions. -/
theorem reaches_inlineEnum (h : Placed services placed t) (options : Options) {o : Outline}
    (hmem : o ∈ outlines options.sort t) {owner field : String}
    (hm : .mention (.inlineEnum owner field) ∈ outlineEvents (indexOf options t) options o) :
    ∃ definition element, ∃ home ∈ outlines options.sort t, (owner, definition) ∈ placed ∧
      (field, element) ∈ elementsOf definition ∧ element.members.isSome = true ∧
      t.owners.get? owner = some home.key ∧ (owner, definition) ∈ home.emission ∧
      Reaches (fileOf (indexOf options t) options o).1 (fileOf (indexOf options t) options home).1
        ((resolverFor (indexOf options t) options o).nameIn
          (collectedFor (indexOf options t) options o) (.inlineEnum owner field))
        (inlineEnumIdentifier owner field) := by
  obtain ⟨definition, element, hfound, helement, hwritten⟩ := Catalogue.allKnown_outline _
    (fun d hd => h.definition?_of_mem_emission options hmem hd) _ hm
  obtain ⟨entry, hentry, rfl⟩ := Option.map_eq_some_iff.1 hfound
  obtain ⟨definition, key, hd, ho, rfl⟩ := (h.get?_ofScopes_iff _ _ _).1 hentry
  have hlocate := Resolver.locate_inlineEnum (r := resolverFor (indexOf options t) options o)
    hentry field
  obtain ⟨home, hhome, rfl, hemitted, hreaches⟩ :=
    h.reaches options hmem hm hd ho (congrArg Prod.fst hlocate)
  rw [hlocate] at hreaches
  exact ⟨definition, element, home, hhome, hd, helement, hwritten, ho, hemitted, hreaches⟩

/-- What an outline mentions is meant by its name in the file. -/
theorem means (h : Placed services placed t) (options : Options) {o : Outline}
    (hmem : o ∈ outlines options.sort t) {m : Mention}
    (hm : .mention m ∈ outlineEvents (indexOf options t) options o) :
    Means (indexOf options t) (generate options t).files
      (fileOf (indexOf options t) options o).1 m
      ((resolverFor (indexOf options t) options o).nameIn
        (collectedFor (indexOf options t) options o) m) := by
  cases m with
  | inlineEnum owner field =>
    obtain ⟨-, -, home, -, -, -, -, -, -, hreaches⟩ := h.reaches_inlineEnum options hmem hm
    exact .inlineEnum hreaches.standsFor
  | definition name =>
    obtain ⟨entry, hentry, ha⟩ := Index.exists_entry_of_isReferable
      (Catalogue.allKnown_outline _ (fun d hd => h.definition?_of_mem_emission options hmem hd) _ hm)
    obtain ⟨definition, key, hd, ho, rfl⟩ := (h.get?_ofScopes_iff _ _ _).1 hentry
    have hlocate := Resolver.locate_definition (r := resolverFor (indexOf options t) options o)
      hentry
    obtain ⟨home, hhome, -, hemitted, hreaches⟩ :=
      h.reaches options hmem hm hd ho (congrArg Prod.fst hlocate)
    rw [hlocate] at hreaches
    have hfile := List.mem_map_of_mem hhome (f := fun o =>
      (fileOf (indexOf options t) options o).1)
    rw [← files_generate] at hfile
    exact .definition hentry
      (hreaches.leadsTo hfile (mem_topLevelNames_fileOf (indexOf options t) options hemitted ha))

/-- The file of an outline is closed. -/
theorem closedFile (h : Placed services placed t) (options : Options) {o : Outline}
    (hmem : o ∈ outlines options.sort t) :
    ClosedFile (indexOf options t) options (generate options t).files o
      (fileOf (indexOf options t) options o).1 where
  references := by
    rw [references_fileOf, List.forall₂_map_right_iff]
    exact List.forall₂_same.2 fun m hm => h.means options hmem ((mem_mentionsOf _ m).1 hm)
  used := by
    intro clause hc specifier hs
    rw [fileOf_eq] at hc
    obtain ⟨i, hi, rfl⟩ := exists_import_of_mem hc hs
    rcases Resolver.exists_mention_of_mem_after hi with hnone | ⟨m, hm, -, hname⟩
    · cases hnone
    · rw [localName_importedName, ← hname, references_fileOf]
      exact List.mem_map_of_mem ((mem_mentionsOf _ m).2 hm)

end SchemaTypings.Schema.Placed

namespace SchemaTypings.Generation

open SchemaTypings.Json SchemaTypings.Schema SchemaTypings.Typing

/-- **The files generated from an accepted schema are closed under reference.**  What a file refers
to as a definition is declared in it, or imported from the file that declares it; and every import
is used. -/
theorem generate_closed {schema : Value} {t : ScopeTable} (ht : ScopeTable.ofSchema schema = .ok t)
    (options : Options) :
    List.Forall₂
      (ClosedFile (indexOf options t) options (generate options t).files)
      (outlines options.sort t) (generate options t).files := by
  obtain ⟨definitions, read, -, -, hplaced⟩ := placed_ofSchema ht
  rw [files_generate, List.forall₂_map_right_iff]
  exact List.forall₂_same.2 fun o ho => files_generate options t ▸ hplaced.closedFile options ho

/-- An alias of a type of another namespace. -/
def aliasAcross : Value :=
  .object [("definitions", .object
    [("a.X", .object [("kind", .string "type"), ("type", .string "b.Y")]),
      ("b.Y", .object [("kind", .string "type"), ("type", .string "cds.String")])])]

/-- The file of `a` imports `Y`, to which its alias refers, from the file of `b`. -/
theorem generate_closed_across : ∃ t, ScopeTable.ofSchema aliasAcross = .ok t ∧
    (generate {} t).files.map (fun file => (file.fileName, file.imports, file.references)) =
      [("a.ts", [⟨"./b", [⟨"Y", none⟩]⟩], ["Y"]), ("b.ts", [], [])] ∧
    List.Forall₂ (ClosedFile (indexOf {} t) {} (generate {} t).files)
      (outlines false t) (generate {} t).files := by
  have hfiles : (ScopeTable.ofSchema aliasAcross).toOption.map (fun t =>
      (generate {} t).files.map fun file => (file.fileName, file.imports, file.references)) =
        some [("a.ts", [⟨"./b", [⟨"Y", none⟩]⟩], ["Y"]), ("b.ts", [], [])] := by decide +kernel
  obtain ⟨t, ht, hlisted⟩ := exists_ok_of_map hfiles
  exact ⟨t, ht, hlisted, generate_closed ht {}⟩

end SchemaTypings.Generation
