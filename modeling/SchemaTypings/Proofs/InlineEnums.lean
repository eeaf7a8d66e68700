import SchemaTypings.Proofs.Closure

/-!
# Inline enumerations

An element with an enumeration written inside it has that enumeration as its type, wherever its
type is asked for.  The enumeration is declared beside the definition of the element, unless the
field is inherited from an included definition: then the file reaches the place where the
enumeration would stand, and there is none.
-/

namespace SchemaTypings.Generation

open SchemaTypings.Json SchemaTypings.Name SchemaTypings.Schema SchemaTypings.Typing

/-! ### Where inline enumerations are declared -/

/-- Whether a field of a definition is one of an included definition, too. -/
def IsInherited (index : Index) (definition : Definition) (field : String) : Prop :=
  ∃ entity, definition.entity? = some entity ∧ ∃ base ∈ entity.includes,
    ∃ included, index.entity? base = some included ∧ field ∈ included.elements.keys

/-- The elements that an entity keeps as its own are those whose field is not inherited. -/
theorem mem_ownElements_iff {index : Index} {entity : Entity} {entry : String × Element} :
    entry ∈ ownElements entity (index.catalogue.includes entity.includes) ↔
      entry ∈ entity.elements.entries ∧ ¬ IsInherited index (.entity entity) entry.1 := by
  refine List.mem_filter.trans (and_congr_right fun _ => ?_)
  rw [Bool.not_eq_true', List.contains_eq_mem, decide_eq_false_iff_not, List.mem_flatMap]
  refine not_congr ⟨?_, ?_⟩
  · rintro ⟨base, hbase, hfield⟩
    obtain ⟨name, hname, hfound⟩ := List.mem_filterMap.1 hbase
    obtain ⟨included, hincluded, rfl⟩ := Option.map_eq_some_iff.1 hfound
    rw [Index.entity?_catalogue] at hincluded
    exact ⟨entity, rfl, name, hname, included, hincluded, hfield⟩
  · rintro ⟨_, hentity, name, hname, included, hincluded, hfield⟩
    cases hentity
    rw [← Index.entity?_catalogue] at hincluded
    exact ⟨(name, included), List.mem_filterMap.2 ⟨name, hname, by rw [hincluded]; rfl⟩, hfield⟩

/-- The declarations of a definition hold the enumerations inside its elements, except those of
inherited fields. -/
theorem enumeration_mem_definition {index : Index} (separator name : String)
    {definition : Definition} {entry : String × Element} {members : EnumMembers}
    (he : entry ∈ elementsOf definition) (hw : entry.2.members = some members)
    (hown : ¬ IsInherited index definition entry.1) :
    .enumeration (inlineEnumIdentifier name entry.1)
      (enumMembersOf (isTextType entry.2.type) members) ∈
        index.catalogue.definition separator name definition := by
  have hwritten {entries : List (String × Element)} (hmem : entry ∈ entries) :
      .enumeration (inlineEnumIdentifier name entry.1)
        (enumMembersOf (isTextType entry.2.type) members) ∈
          (entries.filterMap (inlineEnumOf name)).map Catalogue.enumerationSketch :=
    List.mem_map.2 ⟨_, List.mem_filterMap.2 ⟨entry, hmem, by rw [inlineEnumOf, hw]; rfl⟩, rfl⟩
  cases definition with
  | entity e => exact List.mem_append_left _ (hwritten (mem_ownElements_iff.2 ⟨he, hown⟩))
  | typeAlias a =>
    obtain ⟨typeName | elements, many⟩ := a
    · cases he
    · exact List.mem_append_left _ (hwritten he)
  | enumeration e => cases he
  | action a => cases he

/-- The file of an outline declares the enumerations inside the elements of what it emits, except
those of inherited fields. -/
theorem enumeration_mem_fileOf {index : Index} (options : Options) {o : Outline} {name : String}
    {definition : Definition} {field : String} {element : Element} {members : EnumMembers}
    (hd : (name, definition) ∈ o.emission) (he : (field, element) ∈ elementsOf definition)
    (hw : element.members = some members) (hown : ¬ IsInherited index definition field) :
    .enumeration (inlineEnumIdentifier name field)
      (enumMembersOf (isTextType element.type) members) ∈
        (fileOf index options o).1.declarations := by
  have hsketch := enumeration_mem_definition options.foreignKeySeparator name he hw hown
  rw [fileOf_eq, namedDeclarations_eq_map]
  exact List.mem_map.2 ⟨_, List.mem_append_left _ (List.mem_flatMap.2 ⟨_, hd, hsketch⟩), rfl⟩

/-! ### References to inline enumerations -/

/-- By the name the file refers to the enumeration inside the field of a definition.  Its home is
the file of the scope that owns the definition. -/
inductive RefersToEnum (options : Options) (t : ScopeTable) (file : SourceFile)
    (owner field name : String) : Prop where
  | intro {home : Outline} {definition : Definition} {element : Element} {members : EnumMembers}
      (home_mem : home ∈ outlines options.sort t)
      (owned : (t.scopeOf? owner).map Scope.key = some home.key)
      (defined : t.definition? owner = some definition)
      (element_mem : (field, element) ∈ elementsOf definition)
      (written : element.members = some members)
      (reaches : Reaches file (fileOf (indexOf options t) options home).1 name
        (inlineEnumIdentifier owner field))
      (declared : ¬ IsInherited (indexOf options t) definition field →
        .enumeration (inlineEnumIdentifier owner field)
          (enumMembersOf (isTextType element.type) members) ∈
            (fileOf (indexOf options t) options home).1.declarations) :
      RefersToEnum options t file owner field name

end SchemaTypings.Generation

namespace SchemaTypings.Schema.Placed

open SchemaTypings.Generation

variable {services : List String} {placed : List (String × Definition)} {t : ScopeTable}

/-- What an outline mentions as an inline enumeration, its file refers to as one. -/
theorem refersToEnum (h : Placed services placed t) (options : Options) {o : Outline}
    (hmem : o ∈ outlines options.sort t) {owner field : String}
    (hm : .mention (.inlineEnum owner field) ∈ outlineEvents (indexOf options t) options o) :
    RefersToEnum options t (fileOf (indexOf options t) options o).1 owner field
      ((resolverFor (indexOf options t) options o).nameIn
        (collectedFor (indexOf options t) options o) (.inlineEnum owner field)) := by
  obtain ⟨definition, element, home, hhome, hd, he, hwritten, howner, hemitted, hreaches⟩ :=
    h.reaches_inlineEnum options hmem hm
  obtain ⟨members, hmembers⟩ := Option.isSome_iff_exists.1 hwritten
  have hdefined : t.definition? owner = some definition := by
    rw [h.definition?_eq]
    exact (Table.find_eq_some_iff h.names_nodup _ _).2 hd
  have howned : (t.scopeOf? owner).map Scope.key = some home.key := by
    rw [h.key_scopeOf?, howner]
  exact .intro hhome howned hdefined he hmembers hreaches fun hown =>
    enumeration_mem_fileOf options hemitted he hmembers hown

end SchemaTypings.Schema.Placed

namespace SchemaTypings.Generation

open SchemaTypings.Json SchemaTypings.Name SchemaTypings.Schema SchemaTypings.Typing

/-- **References to inline enumerations reach their place.**  Whatever a file refers to as the
enumeration inside an element is that of an element of an accepted schema, and the file reaches it
in the file of the scope that owns its definition, where it is declared if its field is not
inherited. -/
theorem generate_inlineEnums {schema : Value} {t : ScopeTable}
    (ht : ScopeTable.ofSchema schema = .ok t) (options : Options) :
    List.Forall₂ (fun o file => List.Forall₂
        (fun m name => ∀ owner field, m = .inlineEnum owner field →
          RefersToEnum options t file owner field name)
        (mentionsOf (outlineEvents (indexOf options t) options o)) file.references)
      (outlines options.sort t) (generate options t).files := by
  obtain ⟨definitions, read, -, -, h⟩ := placed_ofSchema ht
  rw [files_generate, List.forall₂_map_right_iff]
  refine List.forall₂_same.2 fun o ho => ?_
  rw [references_fileOf, List.forall₂_map_right_iff]
  refine List.forall₂_same.2 fun m hm owner field he => ?_
  subst he
  exact h.refersToEnum options ho ((mem_mentionsOf _ _).1 hm)

/-- An entity of one namespace refers to an element with an enumeration of an entity of another. -/
def kindAcross : Value :=
  .object [("definitions", .object
    [("a.D", .object [("kind", .string "entity"), ("elements", .object
        [("kind", .object [("type", .string "cds.String"), ("enum", .object [("x", .object [])])])])]),
      ("b.E", .object [("kind", .string "entity"), ("elements", .object
        [("k", .object [("type", .object [("ref", .array [.string "a.D", .string "kind"])])])])])])]

/-- The file of `b` imports `DKind`, to which its element refers, from the file of `a`. -/
theorem generate_inlineEnums_across : ∃ t, ScopeTable.ofSchema kindAcross = .ok t ∧
    (generate {} t).files.map (fun file =>
        (file.fileName, file.imports, file.references, file.topLevelNames)) =
      [("a.ts", [], ["DKind"], ["DKind", "D", "Entity", "SanitizedEntity"]),
        ("b.ts", [⟨"./a", [⟨"DKind", none⟩]⟩], ["DKind"], ["E", "Entity", "SanitizedEntity"])] ∧
    List.Forall₂ (fun o file => List.Forall₂
        (fun m name => ∀ owner field, m = .inlineEnum owner field →
          RefersToEnum {} t file owner field name)
        (mentionsOf (outlineEvents (indexOf {} t) {} o)) file.references)
      (outlines false t) (generate {} t).files := by
  have hfiles : (ScopeTable.ofSchema kindAcross).toOption.map (fun t =>
      (generate {} t).files.map fun file =>
        (file.fileName, file.imports, file.references, file.topLevelNames)) =
      some [("a.ts", [], ["DKind"], ["DKind", "D", "Entity", "SanitizedEntity"]),
        ("b.ts", [⟨"./a", [⟨"DKind", none⟩]⟩], ["DKind"],
          ["E", "Entity", "SanitizedEntity"])] := by decide +kernel
  obtain ⟨t, ht, hlisted⟩ := exists_ok_of_map hfiles
  exact ⟨t, ht, hlisted, generate_inlineEnums ht {}⟩

/-- An entity with a field that it inherits, and an entity that refers to that field of it. -/
def inheritedKind : Value :=
  let kind : Value :=
    .object [("type", .string "cds.String"), ("enum", .object [("x", .object [])])]
  .object [("definitions", .object
    [("a.Base", .object [("kind", .string "entity"), ("elements", .object [("kind", kind)])]),
      ("a.D", .object [("kind", .string "entity"), ("includes", .array [.string "a.Base"]),
        ("elements", .object [("kind", kind)])]),
      ("a.E", .object [("kind", .string "entity"), ("elements", .object
        [("k", .object [("type", .object [("ref", .array [.string "a.D", .string "kind"])])])])])])]

/-- Not every reference to an inline enumeration has one: `E` refers to the enumeration inside the
field `kind` of `a.D`, for which the file of `a` declares none, since the field is inherited. -/
theorem exists_inlineEnum_undeclared : ∃ t, ScopeTable.ofSchema inheritedKind = .ok t ∧
    (outlines false t).map (fun o => mentionsOf (outlineEvents (indexOf {} t) {} o)) =
      [[.inlineEnum "a.Base" "kind", .definition "a.Base", .inlineEnum "a.D" "kind"]] ∧
    inlineEnumIdentifier "a.D" "kind" = "DKind" ∧
    (generate {} t).files.map (fun file => (file.references, file.imports, file.topLevelNames)) =
      [(["BaseKind", "Base", "DKind"], [],
        ["BaseKind", "Base", "D", "E", "Entity", "SanitizedEntity"])] ∧
    ¬ ∃ file ∈ (generate {} t).files, "DKind" ∈ file.topLevelNames := by
  have hlists : (ScopeTable.ofSchema inheritedKind).toOption.map (fun t =>
      ((outlines false t).map fun o => mentionsOf (outlineEvents (indexOf {} t) {} o),
        (generate {} t).files.map fun file =>
          (file.references, file.imports, file.topLevelNames))) =
      some ([[.inlineEnum "a.Base" "kind", .definition "a.Base", .inlineEnum "a.D" "kind"]],
        [(["BaseKind", "Base", "DKind"], [],
          ["BaseKind", "Base", "D", "E", "Entity", "SanitizedEntity"])]) := by decide +kernel
  obtain ⟨t, ht, hlisted⟩ := exists_ok_of_map hlists
  obtain ⟨hmentions, hfiles⟩ := Prod.mk.inj hlisted
  refine ⟨t, ht, hmentions, by decide +kernel, hfiles, ?_⟩
  rintro ⟨file, hfile, hname⟩
  have hmem := List.mem_map_of_mem hfile (f := fun file =>
    (file.references, file.imports, file.topLevelNames))
  rw [hfiles, List.mem_singleton] at hmem
  rw [(Prod.mk.inj (Prod.mk.inj hmem).2).2] at hname
  revert hname
  decide

end SchemaTypings.Generation
