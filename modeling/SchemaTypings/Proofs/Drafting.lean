import SchemaTypings.Generation.Files
import SchemaTypings.Proofs.Linking

/-!
# Generation follows sketches

Every resolution step of a generated file follows the events of a sketch and returns the sketch
with local names put in.  So the declarations of a file are a function of the catalogue and of the
local names, and the local names are those of the imports that the file ends up with.
-/

namespace SchemaTypings.Generation

open SchemaTypings.Name SchemaTypings.Schema SchemaTypings.Typing

namespace Resolver

variable (r : Resolver)

/-- The step returns the type of a sketch. -/
abbrev DraftsType (r : Resolver) (step : Resolving TypeExpr) (sketch : TypeSketch) : Prop :=
  r.Follows step sketch.events fun nameOf => sketch.named nameOf

/-- The step returns the properties of sketches. -/
abbrev DraftsProperties (r : Resolver) (step : Resolving (List Property))
    (sketches : List PropertySketch) : Prop :=
  r.Follows step (propertyEvents sketches) fun nameOf => namedProperties nameOf sketches

/-- The step returns the declarations of sketches. -/
abbrev DraftsDeclarations (r : Resolver) (interfacePrefix : String)
    (step : Resolving (List Declaration)) (sketches : List DeclarationSketch) : Prop :=
  r.Follows step (declarationEvents sketches) fun nameOf =>
    namedDeclarations interfacePrefix nameOf sketches

/-! ### Names -/

theorem follows_nameFrom (m : Mention) :
    r.Follows (r.nameFrom (r.locate m).1 (r.locate m).2) [.mention m] fun nameOf => nameOf m where
  congr h := h m List.mem_cons_self
  run c := by
    rw [after_cons, after_nil]
    -- a mention that is linked finds its import again, any other is imported now
    by_cases hl : r.Linked c m
    · rw [record, if_pos hl, nameIn, nameFrom]
      split
      case isTrue h => rfl
      case isFalse h =>
        obtain ⟨localName, hn⟩ := Option.isSome_iff_exists.1 (hl.resolve_left h)
        simp only [importName, StateT.run_bind, StateT.run_get, pure_bind, hn]
        rfl
    · obtain ⟨hn, hs⟩ := not_linked_iff.1 hl
      rw [nameIn_record hl, nameFrom, if_neg hn, record, if_neg hl]
      simp only [importName, StateT.run_bind, StateT.run_get, pure_bind, hs]
      rfl

theorem follows_reference {name : String} (h : r.index.catalogue.isReferable name = true) :
    r.Follows (r.reference name) [.mention (.definition name)]
      fun nameOf => some (nameOf (.definition name)) := by
  obtain ⟨entry, hg, ha⟩ := Index.exists_entry_of_isReferable h
  have hn := (follows_nameFrom r (.definition name)).map some
  rw [locate_definition hg] at hn
  simpa [reference, hg, ha] using hn

theorem reference_of_not_isReferable {name : String}
    (h : r.index.catalogue.isReferable name = false) : r.reference name = pure none := by
  rw [Catalogue.isReferable, Index.definition?_catalogue] at h
  cases hg : r.index.get? name with
  | none => simp [reference, hg]
  | some entry =>
    have ha : entry.definition.isAction = true := by simpa [hg] using h
    simp [reference, hg, ha]

/-! ### Types -/

theorem draftsType_referenceOr (name : String) (w : Warning) :
    r.DraftsType (r.referenceOr name w) (r.index.catalogue.mentionOr name w) := by
  rw [Catalogue.mentionOr]
  cases h : r.index.catalogue.isReferable name with
  | true =>
    have hb : r.Follows (r.referenceOr name w) ([.mention (.definition name)] ++ [])
        fun nameOf => TypeExpr.reference (nameOf (.definition name)) :=
      (follows_reference r h).bind (fun found _ => TypeExpr.reference (found.getD ""))
        fun nameOf => follows_pure (TypeExpr.reference (nameOf (.definition name)))
    exact hb
  | false =>
    rw [referenceOr, reference_of_not_isReferable r h, pure_bind]
    exact follows_warned w TypeExpr.unknown

theorem draftsType_typeName (name : String) :
    r.DraftsType (r.typeName name) (r.index.catalogue.typeName name) := by
  rw [Catalogue.typeName, typeName]
  cases Primitive.ofBuiltin? name with
  | some primitive => exact follows_pure (TypeExpr.primitive primitive)
  | none =>
    cases isBuiltin name with
    | true => exact follows_warned _ TypeExpr.unknown
    | false => exact draftsType_referenceOr r name _

theorem DraftsType.arrayIf {r : Resolver} {step : Resolving TypeExpr} {sketch : TypeSketch}
    (h : r.DraftsType step sketch) (many : Bool) :
    r.DraftsType (do return (← step).arrayIf many) (sketch.arrayIf many) := by
  have hm := Follows.map (fun type => type.arrayIf many) h
  simpa only [DraftsType, events_arrayIf, named_arrayIf] using hm

theorem draftsType_inlineEnum (owner field : String) :
    r.DraftsType (r.inlineEnum owner field) (.mention (.inlineEnum owner field)) := by
  have h := (follows_nameFrom r (.inlineEnum owner field)).map TypeExpr.reference
  rw [inlineEnum]
  cases hn : r.index.namespaceOf? owner with
  | some namespaceName =>
    rwa [locate, hn] at h
  | none =>
    -- an owner that the index does not know counts as one of the file's own
    rwa [locate, hn, nameFrom, if_pos (by rfl), pure_bind] at h

theorem draftsType_elementVia {resolve : Option TypeRef → Resolving TypeExpr}
    {typeOf : Option TypeRef → TypeSketch}
    (h : ∀ type, r.DraftsType (resolve type) (typeOf type)) (owner field : String)
    (element : Element) : r.DraftsType (r.elementVia resolve owner field element)
      (r.index.catalogue.elementVia typeOf owner field element) := by
  rw [elementVia, Catalogue.elementVia]
  cases element.members.isSome with
  | true => exact (draftsType_inlineEnum r owner field).arrayIf _
  | false =>
    cases element.isNavigation with
    | true =>
      cases element.target with
      | some name => exact (draftsType_referenceOr r name _).arrayIf _
      | none => exact follows_warned _ TypeExpr.unknown
    | false => exact (h element.type).arrayIf _

theorem draftsType_typeRefWithin (fuel : Nat) (type : Option TypeRef) :
    r.DraftsType (r.typeRefWithin fuel type) (r.index.catalogue.typeRefWithin fuel type) := by
  -- every reference to an element leads to another type position with less fuel
  induction fuel generalizing type with
  | zero =>
    rcases type with _ | name | ⟨owner, field⟩
    · exact follows_pure TypeExpr.unknown
    · exact draftsType_typeName r name
    · unfold typeRefWithin Catalogue.typeRefWithin
      rw [Index.element?_catalogue]
      cases r.index.element? owner field with
      | none => exact follows_warned _ TypeExpr.unknown
      | some element => exact follows_pure TypeExpr.unknown
  | succ fuel ih =>
    rcases type with _ | name | ⟨owner, field⟩
    · exact follows_pure TypeExpr.unknown
    · exact draftsType_typeName r name
    · unfold typeRefWithin Catalogue.typeRefWithin
      rw [Index.element?_catalogue]
      cases r.index.element? owner field with
      | none => exact follows_warned _ TypeExpr.unknown
      | some element => exact draftsType_elementVia r ih owner field element

theorem draftsType_typeRef (type : Option TypeRef) :
    r.DraftsType (r.typeRef type) (r.index.catalogue.typeRef type) :=
  draftsType_typeRefWithin r _ type

theorem draftsType_element (owner field : String) (element : Element) :
    r.DraftsType (r.element owner field element)
      (r.index.catalogue.element owner field element) :=
  draftsType_elementVia r (draftsType_typeRef r) owner field element

/-! ### Properties -/

theorem draftsProperties_keyProperties (field targetName : String) (entity : Entity)
    (separator : String) (paths : List KeyPath) :
    r.DraftsProperties (r.keyProperties field targetName entity separator paths)
      (paths.map (r.index.catalogue.keyProperty field targetName entity separator)) := by
  induction paths with
  | nil => exact follows_pure []
  | cons path rest ih =>
    rw [keyProperties, List.map_cons, Catalogue.keyProperty]
    cases entity.elements.get? path.first with
    | none =>
      -- the key is left out, and its warning comes before what the keys after it bring
      exact (follows_warn _).bind (fun _ nameOf => namedProperties nameOf _) fun _ => ih
    | some element =>
      exact Follows.map₂
        (fun type more => ⟨foreignKeyName field separator path.first, true, type⟩ :: more)
        (draftsType_typeRef r element.type) ih

theorem draftsProperties_foreignKeys (field : String) (element : Element) (separator : String) :
    r.DraftsProperties (r.foreignKeys field element separator)
      (r.index.catalogue.foreignKeys separator field element) := by
  simp only [foreignKeys, Catalogue.foreignKeys, Index.entity?_catalogue]
  cases element.many || element.keys.isEmpty with
  | true => exact follows_pure []
  | false =>
    cases element.target with
    | none => exact follows_pure []
    | some targetName =>
      simp only [Bool.false_eq_true, if_false]
      cases r.index.entity? targetName with
      | none => exact follows_pure []
      | some entity =>
        exact draftsProperties_keyProperties r field targetName entity separator element.keys

theorem follows_propertyOf (owner : String) (entry : String × Element) :
    r.Follows (propertyOf r owner entry)
      (r.index.catalogue.element owner entry.1 entry.2).events fun nameOf =>
        ⟨entry.1, entry.2.nullable || entry.2.isNavigation,
          (r.index.catalogue.element owner entry.1 entry.2).named nameOf⟩ :=
  Follows.map (Property.mk entry.1 (entry.2.nullable || entry.2.isNavigation))
    (draftsType_element r owner entry.1 entry.2)

theorem draftsProperties_propertiesOf (separator owner : String)
    (entries : List (String × Element)) :
    r.DraftsProperties (propertiesOf r separator owner entries)
      (entries.flatMap (r.index.catalogue.elementProperties separator owner)) := by
  induction entries with
  | nil => exact follows_pure []
  | cons entry rest ih =>
    have hp := follows_propertyOf r owner entry
    have hk := draftsProperties_foreignKeys r entry.1 entry.2 separator
    have h := Follows.map₃ (fun property keys more => property :: keys ++ more) hp hk ih
    rw [propertiesOf, List.flatMap_cons, Catalogue.elementProperties, DraftsProperties]
    simpa [propertyEvents_append, namedProperties_append] using h

theorem follows_parameterOf (entry : String × Operand) :
    r.Follows (parameterOf r entry) (r.index.catalogue.typeRef entry.2.type).events fun nameOf =>
      ⟨entry.1, false,
        ((r.index.catalogue.typeRef entry.2.type).named nameOf).arrayIf entry.2.many⟩ :=
  Follows.map (fun type : TypeExpr => Property.mk entry.1 false (type.arrayIf entry.2.many))
    (draftsType_typeRef r entry.2.type)

theorem draftsProperties_parametersOf (entries : List (String × Operand)) :
    r.DraftsProperties (parametersOf r entries)
      (entries.map r.index.catalogue.parameter) := by
  induction entries with
  | nil => exact follows_pure []
  | cons entry rest ih =>
    have h := Follows.map₂ List.cons (follows_parameterOf r entry) ih
    rw [parametersOf, List.map_cons, Catalogue.parameter, DraftsProperties]
    simpa using h

/-! ### Actions -/

theorem draftsDeclarations_parameterInterface (interfacePrefix stem : String)
    (parameters : Table Operand) :
    r.DraftsDeclarations interfacePrefix
      (parameterInterface r (interfacePrefix ++ stem) parameters)
      (r.index.catalogue.parameterInterface stem parameters) := by
  rw [parameterInterface, Catalogue.parameterInterface]
  cases parameters.isEmpty with
  | true => exact follows_pure []
  | false =>
    have h := Follows.map
      (fun properties => [Declaration.interface (interfacePrefix ++ stem) [] properties])
      (draftsProperties_parametersOf r parameters.entries)
    simpa [DraftsDeclarations, declarationEvents, DeclarationSketch.events, namedDeclarations,
      DeclarationSketch.named] using h

theorem draftsDeclarations_resultAlias (interfacePrefix name : String)
    (result : Option Operand) :
    r.DraftsDeclarations interfacePrefix (resultAlias r name result)
      (r.index.catalogue.resultAlias name result) := by
  cases result with
  | none => exact follows_pure []
  | some operand =>
    have h := Follows.map
      (fun type : TypeExpr => [Declaration.typeAlias name (type.arrayIf operand.many)])
      (draftsType_typeRef r operand.type)
    simpa [resultAlias, Catalogue.resultAlias, DraftsDeclarations, declarationEvents,
      DeclarationSketch.events, namedDeclarations, DeclarationSketch.named] using h

/-- The interface prefix is in front of the names of interfaces only. -/
theorem actionNames_of (interfacePrefix label name : String) (owner : Option String) :
    ActionNames.of interfacePrefix label name owner =
      { ActionNames.of "" label name owner with
        parameters := interfacePrefix ++ (ActionNames.of "" label name owner).parameters } := by
  simp [ActionNames.of, String.append_assoc]

theorem draftsDeclarations_actionDeclarations (interfacePrefix name : String) (action : Action)
    (owner : Option String) :
    r.DraftsDeclarations interfacePrefix
      (actionDeclarations r interfacePrefix name action owner)
      (r.index.catalogue.action name action owner) := by
  rw [actionDeclarations, actionNames_of, Catalogue.action]
  generalize ActionNames.of "" action.kind.label name owner = names
  have hp := draftsDeclarations_parameterInterface r interfacePrefix names.parameters
    action.parameters
  have hr := draftsDeclarations_resultAlias r interfacePrefix names.result action.result
  have h := Follows.map₂ (fun parameters result => .enumeration names.enumeration
    (actionMembers names.short action.parameters.keys) :: parameters ++ result) hp hr
  simpa [DraftsDeclarations, declarationEvents_append, namedDeclarations_append,
    declarationEvents, namedDeclarations, DeclarationSketch.events, DeclarationSketch.named] using h

theorem draftsDeclarations_boundDeclarations (interfacePrefix owner : String)
    (entries : List (String × Action)) :
    r.DraftsDeclarations interfacePrefix (boundDeclarations r interfacePrefix owner entries)
      (entries.flatMap fun entry =>
        r.index.catalogue.action entry.1 entry.2 (some owner)) := by
  induction entries with
  | nil => exact follows_pure []
  | cons entry rest ih =>
    have hf := draftsDeclarations_actionDeclarations r interfacePrefix entry.1 entry.2 (some owner)
    have h := Follows.map₂ (fun first more => first ++ more) hf ih
    rw [boundDeclarations, List.flatMap_cons]
    simpa [DraftsDeclarations, declarationEvents_append, namedDeclarations_append] using h

theorem draftsDeclarations_actionGroup (interfacePrefix owner : String)
    (actions : Table Action) :
    r.DraftsDeclarations interfacePrefix (actionGroup r interfacePrefix owner actions)
      (r.index.catalogue.actionGroup owner actions) := by
  rw [actionGroup, Catalogue.actionGroup]
  cases actions.isEmpty with
  | true => exact follows_pure []
  | false =>
    have h := Follows.map (fun declarations =>
      [Declaration.group (interfaceIdentifier interfacePrefix owner ++ ".actions") declarations])
      (draftsDeclarations_boundDeclarations r interfacePrefix owner actions.entries)
    simpa [DraftsDeclarations, declarationEvents, DeclarationSketch.events, namedDeclarations,
      DeclarationSketch.named, interfaceIdentifier] using h

/-! ### Entities -/

theorem follows_resolveInclude (name : String) :
    r.Follows (r.resolveInclude name)
      ((r.index.catalogue.includes [name]).map fun base => .mention (.definition base.1))
      fun nameOf => (r.index.catalogue.entity? name).map fun entity =>
        (nameOf (.definition name), entity) := by
  rw [resolveInclude, ← Index.entity?_catalogue, Catalogue.includes, List.filterMap_cons]
  cases he : r.index.catalogue.entity? name with
  | none => exact follows_pure none
  | some entity =>
    have hr := follows_reference r (Catalogue.isReferable_of_entity? he)
    have h := hr.map fun found => found.map fun localName => (localName, entity)
    have hstep : (do return (← r.reference name).map fun localName => (localName, entity)) =
        r.resolveInclude name := by
      rw [resolveInclude, ← Index.entity?_catalogue, he]
      refine congrArg (r.reference name >>= ·) (funext fun found => ?_)
      cases found <;> rfl
    rw [hstep, resolveInclude, ← Index.entity?_catalogue, he] at h
    exact h

theorem follows_resolveIncludes (names : List String) :
    r.Follows (resolveIncludes r names)
      ((r.index.catalogue.includes names).map fun base => .mention (.definition base.1))
      fun nameOf => (r.index.catalogue.includes names).map fun base =>
        (nameOf (.definition base.1), base.2) := by
  induction names with
  | nil => exact follows_pure []
  | cons name rest ih =>
    have h := Follows.map₂ (fun found more => found.toList ++ more)
      (follows_resolveInclude r name) ih
    have hi : r.index.catalogue.includes (name :: rest) =
        r.index.catalogue.includes [name] ++ r.index.catalogue.includes rest := by
      rw [Catalogue.includes, Catalogue.includes, Catalogue.includes, ← List.filterMap_append]
      rfl
    rw [resolveIncludes, hi]
    simp only [List.map_append]
    cases he : r.index.catalogue.entity? name <;>
      simpa [Catalogue.includes, he] using h

theorem ownElements_map_snd (entity : Entity) (nameOf : Mention → String)
    (bases : List (String × Entity)) :
    ownElements entity (bases.map fun base => (nameOf (.definition base.1), base.2)) =
      ownElements entity bases := by
  simp only [ownElements, List.flatMap_map]

/-! ### Enumerations -/

theorem declarationEvents_enumerations (declarations : List Declaration) :
    declarationEvents (declarations.map Catalogue.enumerationSketch) = [] := by
  induction declarations with
  | nil => rfl
  | cons declaration rest ih =>
    have hd : (Catalogue.enumerationSketch declaration).events = [] := by
      cases declaration <;> rfl
    rw [List.map_cons, declarationEvents, hd, ih, List.nil_append]

theorem named_enumerations (interfacePrefix : String) (nameOf : Mention → String)
    {declarations : List Declaration}
    (h : ∀ d ∈ declarations, ∃ name members, d = .enumeration name members) :
    namedDeclarations interfacePrefix nameOf (declarations.map Catalogue.enumerationSketch) =
      declarations := by
  induction declarations with
  | nil => rfl
  | cons declaration rest ih =>
    obtain ⟨name, members, rfl⟩ := h declaration List.mem_cons_self
    rw [List.map_cons, namedDeclarations, ih fun d hd => h d (List.mem_cons_of_mem _ hd)]
    rfl

theorem isEnumeration_inlineEnums (owner : String) (entries : List (String × Element)) :
    ∀ d ∈ entries.filterMap (inlineEnumOf owner),
      ∃ name members, d = .enumeration name members := by
  intro d hd
  obtain ⟨entry, -, he⟩ := List.mem_filterMap.1 hd
  obtain ⟨members, -, rfl⟩ := Option.map_eq_some_iff.1 he
  exact ⟨_, _, rfl⟩

/-- The declarations of an entity, given its includes, properties and bound actions. -/
def entityParts (options : Options) (name : String) (entity : Entity)
    (includes : List (String × Entity)) (properties : List Property)
    (actions : List Declaration) : List Declaration :=
  (ownElements entity includes).filterMap (inlineEnumOf name) ++
    .interface (interfaceIdentifier options.interfacePrefix name) (includes.map Prod.fst)
      properties :: actions

theorem draftsDeclarations_entityDeclarations (options : Options) (name : String)
    (entity : Entity) :
    r.DraftsDeclarations options.interfacePrefix (entityDeclarations r options name entity)
      (r.index.catalogue.entity options.foreignKeySeparator name entity) := by
  have hi := follows_resolveIncludes r entity.includes
  rw [Catalogue.entity]
  -- The elements left over depend on what is included, not on its local names.
  generalize r.index.catalogue.includes entity.includes = bases at hi ⊢
  have hp := draftsProperties_propertiesOf r options.foreignKeySeparator name
    (ownElements entity bases)
  have ha := draftsDeclarations_actionGroup r options.interfacePrefix name entity.actions
  have h : r.Follows (entityDeclarations r options name entity) _ _ :=
    hi.bind (fun includes nameOf => entityParts options name entity includes
      (namedProperties nameOf _) (namedDeclarations options.interfacePrefix nameOf _))
      fun nameOf => by
        have hm := hp.map₂ (entityParts options name entity
          (bases.map fun base => (nameOf (.definition base.1), base.2))) ha
        simp only [entityParts, ownElements_map_snd] at hm ⊢
        exact hm
  have he := fun nameOf => named_enumerations options.interfacePrefix nameOf
    (isEnumeration_inlineEnums name (ownElements entity bases))
  simp only [DraftsDeclarations, declarationEvents_append, declarationEvents_enumerations,
    namedDeclarations_append, he, declarationEvents, namedDeclarations, DeclarationSketch.events,
    DeclarationSketch.named]
  simpa [entityParts, ownElements_map_snd, interfaceIdentifier, Function.comp_def] using h

/-! ### Aliases -/

theorem draftsType_aliasType (separator name : String) (body : AliasBody) :
    r.DraftsType (aliasType r separator name body)
      (r.index.catalogue.aliasType separator name body) := by
  rcases body with (_ | typeName) | elements
  · exact follows_pure TypeExpr.unknown
  · exact draftsType_typeName r typeName
  · exact Follows.map TypeExpr.object
      (draftsProperties_propertiesOf r separator name elements.entries)

theorem isEnumeration_aliasEnums (owner : String) (body : AliasBody) :
    ∀ d ∈ aliasEnums owner body, ∃ name members, d = .enumeration name members := by
  cases body with
  | type name => exact fun d hd => absurd hd List.not_mem_nil
  | structured elements => exact isEnumeration_inlineEnums owner elements.entries

theorem draftsDeclarations_aliasDeclarations (options : Options) (name : String) (a : Alias) :
    r.DraftsDeclarations options.interfacePrefix (aliasDeclarations r options name a)
      (r.index.catalogue.typeAlias options.foreignKeySeparator name a) := by
  have h := Follows.map (fun type : TypeExpr =>
      aliasEnums name a.body ++ [.typeAlias (identifier name) (type.arrayIf a.many)])
    (draftsType_aliasType r options.foreignKeySeparator name a.body)
  have he := fun nameOf => named_enumerations options.interfacePrefix nameOf
    (isEnumeration_aliasEnums name a.body)
  simpa [DraftsDeclarations, aliasDeclarations, Catalogue.typeAlias, declarationEvents_append,
    declarationEvents_enumerations, namedDeclarations_append, he, declarationEvents,
    namedDeclarations, DeclarationSketch.events, DeclarationSketch.named] using h

/-! ### Definitions and outlines -/

theorem draftsDeclarations_definitionDeclarations (options : Options) (name : String)
    (definition : Definition) :
    r.DraftsDeclarations options.interfacePrefix
      (definitionDeclarations r options name definition)
      (r.index.catalogue.definition options.foreignKeySeparator name definition) := by
  cases definition with
  | entity e => exact draftsDeclarations_entityDeclarations r options name e
  | typeAlias a => exact draftsDeclarations_aliasDeclarations r options name a
  | enumeration e => exact follows_pure [enumerationAs (identifier name) e]
  | action a =>
    exact draftsDeclarations_actionDeclarations r options.interfacePrefix name a Option.none

theorem draftsDeclarations_declarationsOf (options : Options)
    (entries : List (String × Definition)) :
    r.DraftsDeclarations options.interfacePrefix (declarationsOf r options entries)
      (entries.flatMap fun entry =>
        r.index.catalogue.definition options.foreignKeySeparator entry.1 entry.2) := by
  induction entries with
  | nil => exact follows_pure []
  | cons entry rest ih =>
    have hd := draftsDeclarations_definitionDeclarations r options entry.1 entry.2
    have h := Follows.map₂ (fun first more => first ++ more) hd ih
    rw [declarationsOf, List.flatMap_cons]
    simpa only [DraftsDeclarations, declarationEvents_append, namedDeclarations_append] using h

theorem draftsDeclarations_outlineDeclarations (options : Options) (o : Outline) :
    r.DraftsDeclarations options.interfacePrefix (outlineDeclarations r options o)
      (r.index.catalogue.outline options.foreignKeySeparator o) := by
  have h := Follows.map (fun declarations => declarations ++
      [enumerationAs Outline.entityEnumName o.entityEnum,
        enumerationAs Outline.sanitizedEnumName o.sanitizedEnum])
    (draftsDeclarations_declarationsOf r options o.emission)
  have he : declarationEvents (r.index.catalogue.outline options.foreignKeySeparator o) =
      declarationEvents (o.emission.flatMap fun entry =>
        r.index.catalogue.definition options.foreignKeySeparator entry.1 entry.2) := by
    rw [Catalogue.outline, declarationEvents_append]
    exact List.append_nil _
  have hn := fun nameOf => namedDeclarations_append options.interfacePrefix nameOf
    (o.emission.flatMap fun entry =>
      r.index.catalogue.definition options.foreignKeySeparator entry.1 entry.2)
    [Catalogue.enumerationSketch (enumerationAs Outline.entityEnumName o.entityEnum),
      Catalogue.enumerationSketch (enumerationAs Outline.sanitizedEnumName o.sanitizedEnum)]
  rw [DraftsDeclarations, he]
  simp only [Catalogue.outline, hn]
  exact h

end Resolver

/-! ### Files -/

/-- The index with which the files of a scope table are generated. -/
abbrev indexOf (options : Options) (t : ScopeTable) : Index :=
  Index.ofScopes t options.interfacePrefix

/-- What an outline mentions and warns of, in the order of generation. -/
def outlineEvents (index : Index) (options : Options) (o : Outline) : List Event :=
  declarationEvents (index.catalogue.outline options.foreignKeySeparator o)

/-- What the file of an outline collects. -/
def collectedFor (index : Index) (options : Options) (o : Outline) : Collected :=
  (resolverFor index options o).after .none (outlineEvents index options o)

/-- **The file of an outline, as the named sketch of its declarations.** -/
theorem fileOf_eq (index : Index) (options : Options) (o : Outline) :
    fileOf index options o =
      ({ fileName := options.fileName o.name
         namespaceName := o.name
         imports := importClauses options (collectedFor index options o).imports
         declarations := namedDeclarations options.interfacePrefix
           ((resolverFor index options o).nameIn (collectedFor index options o))
           (index.catalogue.outline options.foreignKeySeparator o) },
        (collectedFor index options o).warnings) := by
  have h := ((resolverFor index options o).draftsDeclarations_outlineDeclarations options o).run
    .none
  rw [fileOf, h]
  rfl

/-- The warnings of a file are those of its sketch. -/
theorem warnings_fileOf (index : Index) (options : Options) (o : Outline) :
    (fileOf index options o).2 = warningsOf (outlineEvents index options o) := by
  rw [fileOf_eq, collectedFor, Resolver.warnings_after]
  rfl

end SchemaTypings.Generation
