import SchemaTypings.Proofs.InlineEnums

/-!
# Declared names

Before a file is made its own identifiers are foretold from the definitions of its outline, so that
no import is given one of them.  `localIdentifiers_exact` says that they are the names which the
file then declares, and which others are kept although nothing is declared under them: those for
the parameters and the result of an action that has none, and those of the enumerations inside
inherited fields.
-/

namespace SchemaTypings.Generation

open SchemaTypings.Name SchemaTypings.Schema SchemaTypings.Typing

/-! ### The names that a definition declares -/

section Sketches

variable (k : Catalogue) (separator interfacePrefix : String)

theorem topLevelNames_inlineEnums (owner : String) (entries : List (String × Element)) :
    ((entries.filterMap (inlineEnumOf owner)).map Catalogue.enumerationSketch).filterMap
        (DeclarationSketch.topLevelName? interfacePrefix) =
      (entries.filter fun e => e.2.members.isSome).map fun e => inlineEnumIdentifier owner e.1 := by
  induction entries with
  | nil => rfl
  | cons entry rest ih =>
    cases hm : entry.2.members with
    | none =>
      rw [List.filterMap_cons_none (by simp [inlineEnumOf, hm]),
        List.filter_cons_of_neg (by simp [hm]), ih]
    | some members =>
      rw [List.filterMap_cons_some (by simp [inlineEnumOf, hm]; rfl),
        List.filter_cons_of_pos (by simp [hm]), List.map_cons, List.map_cons, ← ih]
      rfl

/-- An entity declares the enumerations inside its own elements, and its interface. -/
theorem topLevelNames_entity (owner : String) (e : Entity) :
    (k.entity separator owner e).filterMap (DeclarationSketch.topLevelName? interfacePrefix) =
      ((ownElements e (k.includes e.includes)).filter fun entry => entry.2.members.isSome).map
        (fun entry => inlineEnumIdentifier owner entry.1) ++
        [interfaceIdentifier interfacePrefix owner] := by
  have hgroup : (k.actionGroup owner e.actions).filterMap
      (DeclarationSketch.topLevelName? interfacePrefix) = [] := by
    unfold Catalogue.actionGroup
    split <;> rfl
  rw [Catalogue.entity, List.filterMap_append, topLevelNames_inlineEnums, List.filterMap_cons,
    hgroup]
  rfl

/-- An alias declares the enumerations inside it, and itself. -/
theorem topLevelNames_typeAlias (owner : String) (a : Alias) :
    ((k.typeAlias separator owner a).filterMap
      (DeclarationSketch.topLevelName? interfacePrefix)).Perm
        (Outline.aliasIdentifiers (owner, a)) := by
  obtain ⟨name | elements, many⟩ := a
  · exact .refl _
  · rw [Catalogue.typeAlias, List.filterMap_append, aliasEnums, topLevelNames_inlineEnums]
    exact List.perm_append_singleton _ _

/-- An action declares its names, its parameters if it has any, and its result if it has one. -/
theorem topLevelNames_action (name : String) (action : Action) :
    (k.action name action none).filterMap (DeclarationSketch.topLevelName? interfacePrefix) =
      let names := ActionNames.of interfacePrefix action.kind.label name none
      names.enumeration :: ((if action.parameters.isEmpty then [] else [names.parameters]) ++
        (action.result.map fun _ => names.result).toList) := by
  obtain ⟨kind, parameters, result⟩ := action
  rw [Resolver.actionNames_of, Catalogue.action, Catalogue.parameterInterface]
  cases parameters.isEmpty <;> cases result <;> rfl

end Sketches

/-- The names that the file of an outline declares. -/
theorem mem_topLevelNames_fileOf_iff (index : Index) (options : Options) (o : Outline)
    (name : String) : name ∈ (fileOf index options o).1.topLevelNames ↔
      (∃ d ∈ o.emission, name ∈ (index.catalogue.definition options.foreignKeySeparator d.1
        d.2).filterMap (DeclarationSketch.topLevelName? options.interfacePrefix)) ∨
      name = Outline.entityEnumName ∨ name = Outline.sanitizedEnumName := by
  rw [topLevelNames_fileOf, Catalogue.outline, List.filterMap_append, List.mem_append,
    List.filterMap_flatMap, List.mem_flatMap]
  refine or_congr Iff.rfl ?_
  simp [Catalogue.enumerationSketch, enumerationAs, DeclarationSketch.topLevelName?]

/-! ### Foretold and declared -/

/-- The identifiers foretold for a definition. -/
def definitionIdentifiers (interfacePrefix : String) : String × Definition → List String
  | (name, .typeAlias a) => Outline.aliasIdentifiers (name, a)
  | (name, .enumeration _) => [identifier name]
  | (name, .entity e) => Outline.entityIdentifiers interfacePrefix (name, e)
  | (name, .action a) => Outline.actionIdentifiers interfacePrefix (name, a)

/-- The identifiers that a file keeps for a definition without declaring anything under them. -/
inductive Spare (index : Index) (interfacePrefix : String) :
    String × Definition → String → Prop where
  /-- Of the parameters of an action that has none. -/
  | parameters {name : String} {action : Action} (empty : action.parameters.isEmpty = true) :
      Spare index interfacePrefix (name, .action action)
        (ActionNames.of interfacePrefix action.kind.label name none).parameters
  /-- Of the result of an action that has none. -/
  | result {name : String} {action : Action} (empty : action.result = none) :
      Spare index interfacePrefix (name, .action action)
        (ActionNames.of interfacePrefix action.kind.label name none).result
  /-- Of the enumeration inside an element that an included definition has, too. -/
  | inherited {name field : String} {entity : Entity} {element : Element}
      (element_mem : (field, element) ∈ entity.elements.entries)
      (written : element.members.isSome = true)
      (inherited : IsInherited index (.entity entity) field) :
      Spare index interfacePrefix (name, .entity entity) (inlineEnumIdentifier name field)

/-- The fixed names and those foretold for the definitions are what a file keeps for itself. -/
theorem mem_localIdentifiers (o : Outline) (interfacePrefix name : String) :
    name ∈ o.localIdentifiers interfacePrefix ↔
      (∃ d ∈ o.emission, name ∈ definitionIdentifiers interfacePrefix d) ∨
        name = Outline.entityEnumName ∨ name = Outline.sanitizedEnumName := by
  simp only [Outline.localIdentifiers, Outline.emission, List.mem_append, List.mem_flatMap,
    List.mem_map, List.mem_cons, List.not_mem_nil, or_false, or_and_right, exists_or,
    exists_exists_and_eq_and, definitionIdentifiers, eq_comm (b := name)]
  grind

section Definitions

variable (index : Index) (separator interfacePrefix : String)

theorem mem_entityIdentifiers_iff (owner : String) (e : Entity) (name : String) :
    name ∈ Outline.entityIdentifiers interfacePrefix (owner, e) ↔
      name ∈ (index.catalogue.entity separator owner e).filterMap
        (DeclarationSketch.topLevelName? interfacePrefix) ∨
      Spare index interfacePrefix (owner, .entity e) name := by
  rw [topLevelNames_entity, Outline.entityIdentifiers, Outline.inlineEnumIdentifiers]
  simp only [List.mem_cons, List.mem_append, List.mem_map, List.mem_filter, mem_ownElements_iff,
    List.not_mem_nil, or_false]
  constructor
  · rintro (rfl | ⟨⟨field, element⟩, ⟨he, hw⟩, rfl⟩)
    · exact Or.inl (Or.inr rfl)
    · by_cases hi : IsInherited index (.entity e) field
      · exact Or.inr (.inherited he hw hi)
      · exact Or.inl (Or.inl ⟨_, ⟨⟨he, hi⟩, hw⟩, rfl⟩)
  · rintro ((⟨entry, ⟨⟨he, -⟩, hw⟩, rfl⟩ | rfl) | hspare)
    · exact Or.inr ⟨entry, ⟨he, hw⟩, rfl⟩
    · exact Or.inl rfl
    · cases hspare with
      | inherited element_mem written _ => exact Or.inr ⟨_, ⟨element_mem, written⟩, rfl⟩

theorem mem_actionIdentifiers_iff (owner : String) (action : Action) (name : String) :
    name ∈ Outline.actionIdentifiers interfacePrefix (owner, action) ↔
      name ∈ (index.catalogue.action owner action none).filterMap
        (DeclarationSketch.topLevelName? interfacePrefix) ∨
      Spare index interfacePrefix (owner, .action action) name := by
  rw [topLevelNames_action, Outline.actionIdentifiers]
  simp only [List.mem_cons, List.mem_append, List.not_mem_nil, or_false, Option.mem_toList,
    Option.map_eq_some_iff]
  constructor
  · rintro (rfl | rfl | rfl)
    · exact Or.inl (Or.inl rfl)
    · by_cases hp : action.parameters.isEmpty = true
      · exact Or.inr (.parameters hp)
      · exact Or.inl (Or.inr (Or.inl (by simp [hp])))
    · cases hr : action.result with
      | none => exact Or.inr (.result hr)
      | some operand => exact Or.inl (Or.inr (Or.inr ⟨operand, rfl, rfl⟩))
  · rintro ((rfl | hname | ⟨operand, -, rfl⟩) | hspare)
    · exact Or.inl rfl
    · split at hname
      · cases hname
      · exact Or.inr (Or.inl (List.mem_singleton.1 hname))
    · exact Or.inr (Or.inr rfl)
    · cases hspare with
      | parameters empty => exact Or.inr (Or.inl rfl)
      | result empty => exact Or.inr (Or.inr rfl)

/-- What is foretold for a definition is what it declares and what is spare. -/
theorem mem_definitionIdentifiers_iff (d : String × Definition) (name : String) :
    name ∈ definitionIdentifiers interfacePrefix d ↔
      name ∈ (index.catalogue.definition separator d.1 d.2).filterMap
        (DeclarationSketch.topLevelName? interfacePrefix) ∨
      Spare index interfacePrefix d name := by
  obtain ⟨owner, definition⟩ := d
  have hnone (h : definition.isAction = false) (h' : definition.entity? = none) :
      ¬ Spare index interfacePrefix (owner, definition) name := by
    rintro ⟨⟩
    · cases h
    · cases h
    · cases h'
  cases definition with
  | entity e => exact mem_entityIdentifiers_iff index separator interfacePrefix owner e name
  | action a => exact mem_actionIdentifiers_iff index interfacePrefix owner a name
  | typeAlias a =>
    rw [or_iff_left (hnone rfl rfl)]
    exact (topLevelNames_typeAlias index.catalogue separator interfacePrefix owner a).mem_iff.symm
  | enumeration e =>
    rw [or_iff_left (hnone rfl rfl)]
    rfl

end Definitions

/-- The identifiers that a file keeps for itself are those that it declares and the spare ones of
its definitions. -/
theorem mem_localIdentifiers_iff (index : Index) (options : Options) (o : Outline)
    (name : String) : name ∈ o.localIdentifiers options.interfacePrefix ↔
      name ∈ (fileOf index options o).1.topLevelNames ∨
        ∃ d ∈ o.emission, Spare index options.interfacePrefix d name := by
  rw [mem_topLevelNames_fileOf_iff, mem_localIdentifiers]
  simp only [mem_definitionIdentifiers_iff index options.foreignKeySeparator, and_or_left,
    exists_or]
  exact or_right_comm

/-- **A file keeps for itself what it declares**, and beside that the identifiers of the parameters
and results that its actions have not and of the enumerations inside inherited fields. -/
theorem localIdentifiers_exact (t : ScopeTable) (options : Options) :
    List.Forall₂ (fun o file => ∀ name, name ∈ o.localIdentifiers options.interfacePrefix ↔
        name ∈ file.topLevelNames ∨
          ∃ d ∈ o.emission, Spare (indexOf options t) options.interfacePrefix d name)
      (outlines options.sort t) (generate options t).files := by
  rw [files_generate, List.forall₂_map_right_iff]
  exact List.forall₂_same.2 fun o _ => mem_localIdentifiers_iff (indexOf options t) options o

/-- An entity with a field that it inherits, and an action without parameters and result. -/
def undeclaredNames : Json.Value :=
  let kind : Json.Value :=
    .object [("type", .string "cds.String"), ("enum", .object [("x", .object [])])]
  .object [("definitions", .object
    [("a.Base", .object [("kind", .string "entity"), ("elements", .object [("kind", kind)])]),
      ("a.Part", .object [("kind", .string "entity"), ("includes", .array [.string "a.Base"]),
        ("elements", .object [("kind", kind)])]),
      ("a.ping", .object [("kind", .string "action")])])]

/-- The file of `a` keeps `PartKind` for itself, although that enumeration is left out because its
field is inherited, and of the action `ping` the names for its parameters and its result. -/
theorem localIdentifiers_exact_undeclared : ∃ t,
    ScopeTable.ofSchema undeclaredNames = .ok t ∧
    (outlines false t).map (fun o => o.localIdentifiers "I") =
      [["Entity", "SanitizedEntity", "IBase", "BaseKind", "IPart", "PartKind", "ActionPing",
        "IActionPingParams", "ActionPingReturn"]] ∧
    (generate { interfacePrefix := "I" } t).files.map SourceFile.topLevelNames =
      [["BaseKind", "IBase", "IPart", "ActionPing", "Entity", "SanitizedEntity"]] ∧
    List.Forall₂ (fun o file => ∀ name, name ∈ o.localIdentifiers "I" ↔
        name ∈ file.topLevelNames ∨
          ∃ d ∈ o.emission, Spare (indexOf { interfacePrefix := "I" } t) "I" d name)
      (outlines false t) (generate { interfacePrefix := "I" } t).files := by
  have hlists : (ScopeTable.ofSchema undeclaredNames).toOption.map (fun t =>
      ((outlines false t).map fun o => o.localIdentifiers "I",
        (generate { interfacePrefix := "I" } t).files.map SourceFile.topLevelNames)) =
      some ([["Entity", "SanitizedEntity", "IBase", "BaseKind", "IPart", "PartKind", "ActionPing",
          "IActionPingParams", "ActionPingReturn"]],
        [["BaseKind", "IBase", "IPart", "ActionPing", "Entity", "SanitizedEntity"]]) := by
    decide +kernel
  obtain ⟨t, ht, hlisted⟩ := exists_ok_of_map hlists
  obtain ⟨hidentifiers, hdeclared⟩ := Prod.mk.inj hlisted
  exact ⟨t, ht, hidentifiers, hdeclared,
    localIdentifiers_exact t { interfacePrefix := "I" }⟩

end SchemaTypings.Generation
