import SchemaTypings.Proofs.Addition
import SchemaTypings.Proofs.Findings

/-!
# Warnings and unknown types

Every type that cannot be resolved is `unknown` in a generated file, and there is one warning for
it; `unknown` without a warning stands only where there is no type at all, and a warning without
`unknown` tells of a key that is left out.  The findings of a sketch are the link: a sketch is
unknown with its cause, so its warnings and its unknown types are read off them.
-/

namespace SchemaTypings.Typing

/-! ### Unknown types at any depth -/

mutual

/-- The number of unknown types in a type. -/
def TypeExpr.unknowns : TypeExpr → Nat
  | .unknown => 1
  | .primitive _ => 0
  | .reference _ => 0
  | .object properties => propertyUnknowns properties
  | .array item => item.unknowns

/-- The number of unknown types in the type of a property. -/
def Property.unknowns : Property → Nat
  | ⟨_, _, type⟩ => type.unknowns

/-- The number of unknown types in properties. -/
def propertyUnknowns : List Property → Nat
  | [] => 0
  | property :: rest => property.unknowns + propertyUnknowns rest

end

mutual

/-- The number of unknown types in a declaration. -/
def Declaration.unknowns : Declaration → Nat
  | .interface _ _ properties => propertyUnknowns properties
  | .enumeration _ _ => 0
  | .typeAlias _ type => type.unknowns
  | .group _ declarations => declarationUnknowns declarations

/-- The number of unknown types in declarations. -/
def declarationUnknowns : List Declaration → Nat
  | [] => 0
  | declaration :: rest => declaration.unknowns + declarationUnknowns rest

end

/-- The number of unknown types in files. -/
def fileUnknowns (files : List SourceFile) : Nat :=
  declarationUnknowns (files.flatMap SourceFile.declarations)

theorem declarationUnknowns_append (a b : List Declaration) :
    declarationUnknowns (a ++ b) = declarationUnknowns a + declarationUnknowns b := by
  induction a with
  | nil => simp [declarationUnknowns]
  | cons declaration rest ih =>
    simp only [List.cons_append, declarationUnknowns, ih, Nat.add_assoc]

end SchemaTypings.Typing

namespace SchemaTypings.Generation

open SchemaTypings.Json SchemaTypings.Schema SchemaTypings.Typing

/-! ### Findings of sketches -/

/-- Whether a finding leaves a type unknown. -/
def Finding.isUnknown (finding : Finding) : Bool := finding.isBlank || finding.isFailed

theorem Finding.countP_isUnknown (findings : List Finding) : findings.countP isUnknown =
    findings.countP isBlank + findings.countP isFailed := by
  induction findings with
  | nil => rfl
  | cons finding rest ih =>
    rw [List.countP_cons, List.countP_cons, List.countP_cons, ih]
    cases finding <;> simp [isUnknown, isBlank, isFailed] <;> omega

mutual

/-- What was found for a type. -/
def TypeSketch.findings : TypeSketch → List Finding
  | .unknown none => [.blank]
  | .unknown (some cause) => [.failed cause]
  | .primitive _ => [.resolved]
  | .mention _ => [.resolved]
  | .object properties => propertyFindings properties
  | .array item => item.findings

/-- What was found for a property. -/
def PropertySketch.findings : PropertySketch → List Finding
  | .property _ _ type => type.findings
  | .missing cause => [.skipped cause]

/-- What was found for properties, in order. -/
def propertyFindings : List PropertySketch → List Finding
  | [] => []
  | property :: rest => property.findings ++ propertyFindings rest

end

mutual

/-- What was found for a declaration. -/
def DeclarationSketch.findings : DeclarationSketch → List Finding
  | .interface _ _ properties => propertyFindings properties
  | .enumeration _ _ => []
  | .typeAlias _ type => type.findings
  | .group _ declarations => declarationFindings declarations

/-- What was found for declarations, in order. -/
def declarationFindings : List DeclarationSketch → List Finding
  | [] => []
  | declaration :: rest => declaration.findings ++ declarationFindings rest

end

theorem propertyFindings_append (a b : List PropertySketch) :
    propertyFindings (a ++ b) = propertyFindings a ++ propertyFindings b := by
  induction a with
  | nil => rfl
  | cons property rest ih =>
    rw [List.cons_append, propertyFindings, propertyFindings, ih, List.append_assoc]

theorem declarationFindings_append (a b : List DeclarationSketch) :
    declarationFindings (a ++ b) = declarationFindings a ++ declarationFindings b := by
  induction a with
  | nil => rfl
  | cons declaration rest ih =>
    rw [List.cons_append, declarationFindings, declarationFindings, ih, List.append_assoc]

@[simp] theorem findings_arrayIf (type : TypeSketch) (many : Bool) :
    (type.arrayIf many).findings = type.findings := by
  cases many <;> rfl

/-! ### Warnings of findings -/

mutual

theorem TypeSketch.warningsOf_events : ∀ sketch : TypeSketch,
    warningsOf sketch.events = sketch.findings.filterMap Finding.warning?
  | .unknown none => rfl
  | .unknown (some _) => rfl
  | .primitive _ => rfl
  | .mention _ => rfl
  | .object properties => warningsOf_propertyEvents properties
  | .array item => TypeSketch.warningsOf_events item

theorem PropertySketch.warningsOf_events : ∀ sketch : PropertySketch,
    warningsOf sketch.events = sketch.findings.filterMap Finding.warning?
  | .property _ _ type => TypeSketch.warningsOf_events type
  | .missing _ => rfl

theorem warningsOf_propertyEvents : ∀ sketches : List PropertySketch,
    warningsOf (propertyEvents sketches) = (propertyFindings sketches).filterMap Finding.warning?
  | [] => rfl
  | property :: rest => by
    rw [propertyEvents, propertyFindings, warningsOf_append, List.filterMap_append,
      PropertySketch.warningsOf_events property, warningsOf_propertyEvents rest]

end

theorem warningsOf_mentions (mentions : List Mention) :
    warningsOf (mentions.map Event.mention) = [] := by
  induction mentions with
  | nil => rfl
  | cons m rest ih => exact ih

mutual

theorem DeclarationSketch.warningsOf_events : ∀ sketch : DeclarationSketch,
    warningsOf sketch.events = sketch.findings.filterMap Finding.warning?
  | .interface _ bases properties => by
    rw [DeclarationSketch.events, warningsOf_append, warningsOf_mentions, List.nil_append,
      warningsOf_propertyEvents]
    rfl
  | .enumeration _ _ => rfl
  | .typeAlias _ type => TypeSketch.warningsOf_events type
  | .group _ declarations => warningsOf_declarationEvents declarations

/-- The warnings of sketches are those of their findings. -/
theorem warningsOf_declarationEvents : ∀ sketches : List DeclarationSketch,
    warningsOf (declarationEvents sketches) =
      (declarationFindings sketches).filterMap Finding.warning?
  | [] => rfl
  | declaration :: rest => by
    rw [declarationEvents, declarationFindings, warningsOf_append, List.filterMap_append,
      DeclarationSketch.warningsOf_events declaration, warningsOf_declarationEvents rest]

end

/-! ### Unknown types of findings -/

section Unknowns

variable (interfacePrefix : String) (nameOf : Mention → String)

mutual

theorem TypeSketch.unknowns_named : ∀ sketch : TypeSketch,
    (sketch.named nameOf).unknowns = sketch.findings.countP Finding.isUnknown
  | .unknown none => rfl
  | .unknown (some _) => rfl
  | .primitive _ => rfl
  | .mention _ => rfl
  | .object properties => unknowns_namedProperties properties
  | .array item => TypeSketch.unknowns_named item

theorem PropertySketch.unknowns_named : ∀ sketch : PropertySketch,
    propertyUnknowns (sketch.named nameOf).toList = sketch.findings.countP Finding.isUnknown
  | .property _ _ type => TypeSketch.unknowns_named type
  | .missing _ => rfl

theorem unknowns_namedProperties : ∀ sketches : List PropertySketch,
    propertyUnknowns (namedProperties nameOf sketches) =
      (propertyFindings sketches).countP Finding.isUnknown
  | [] => rfl
  | property :: rest => by
    have hp := PropertySketch.unknowns_named property
    rw [namedProperties, propertyFindings, List.countP_append, ← hp,
      ← unknowns_namedProperties rest]
    cases property.named nameOf with
    | none => exact (Nat.zero_add _).symm
    | some made => rfl

end

mutual

theorem DeclarationSketch.unknowns_named : ∀ sketch : DeclarationSketch,
    (sketch.named interfacePrefix nameOf).unknowns = sketch.findings.countP Finding.isUnknown
  | .interface _ _ properties => unknowns_namedProperties nameOf properties
  | .enumeration _ _ => rfl
  | .typeAlias _ type => TypeSketch.unknowns_named nameOf type
  | .group _ declarations => unknowns_namedDeclarations declarations

/-- The unknown types of named sketches are those of their findings. -/
theorem unknowns_namedDeclarations : ∀ sketches : List DeclarationSketch,
    declarationUnknowns (namedDeclarations interfacePrefix nameOf sketches) =
      (declarationFindings sketches).countP Finding.isUnknown
  | [] => rfl
  | declaration :: rest => by
    rw [namedDeclarations, declarationUnknowns, declarationFindings, List.countP_append,
      DeclarationSketch.unknowns_named declaration, unknowns_namedDeclarations rest]

end

end Unknowns

/-! ### Sketches show what is found -/

/-- The sketch of a type shows what is found at a place. -/
def Shows (index : Index) (asked : Asked) (sketch : TypeSketch) : Prop :=
  ∃ finding, Finds index asked finding ∧ sketch.findings = [finding]

/-- The sketches of properties show what is found at places, one after another. -/
abbrev ShowsAll (index : Index) (asked : List Asked) (sketches : List PropertySketch) : Prop :=
  List.Forall₂ (Finds index) asked (propertyFindings sketches)

/-- The sketches of declarations show what is found at places, one after another. -/
abbrev DeclaresAll (index : Index) (asked : List Asked) (sketches : List DeclarationSketch) :
    Prop :=
  List.Forall₂ (Finds index) asked (declarationFindings sketches)

namespace Shows

variable {index : Index}

theorem arrayIf {asked : Asked} {sketch : TypeSketch} (h : Shows index asked sketch) (many : Bool) :
    Shows index asked (sketch.arrayIf many) := by
  rwa [Shows, findings_arrayIf]

theorem refers_iff (name : String) :
    index.Refers name ↔ index.catalogue.isReferable name = true := by
  constructor
  · rintro ⟨entry, hentry, ha⟩
    rw [Catalogue.isReferable, Index.definition?_catalogue, hentry, Option.map_some,
      Option.map_some, ha]
    rfl
  · exact Index.exists_entry_of_isReferable

theorem mentionOr {asked : Asked} {name : String} {w : Warning}
    (hfound : index.Refers name → Finds index asked .resolved)
    (hmissing : ¬ index.Refers name → Finds index asked (.failed w)) :
    Shows index asked (index.catalogue.mentionOr name w) := by
  rw [Catalogue.mentionOr]
  split
  · next h => exact ⟨.resolved, hfound ((refers_iff name).2 h), rfl⟩
  · next h => exact ⟨.failed w, hmissing fun hr => h ((refers_iff name).1 hr), rfl⟩

theorem typeName (name : String) :
    Shows index (.type (some (.named name))) (index.catalogue.typeName name) := by
  rw [Catalogue.typeName]
  cases hp : Primitive.ofBuiltin? name with
  | some primitive => exact ⟨.resolved, .primitive hp, rfl⟩
  | none =>
    cases hb : isBuiltin name with
    | true => exact ⟨_, .unmapped hp hb, rfl⟩
    | false => exact mentionOr (.definition hp hb) (.noDefinition hp hb)

/-- An element shows what its type position does, if it has no enumeration and leads nowhere. -/
theorem elementVia {typeOf : Option TypeRef → TypeSketch} {element : Element}
    (h : element.members = none → element.target = none →
      Shows index (.type element.type) (typeOf element.type)) (owner field : String) :
    Shows index (.element owner field element)
      (index.catalogue.elementVia typeOf owner field element) := by
  rw [Catalogue.elementVia]
  cases hm : element.members.isSome with
  | true =>
    have hshown : Shows index (.element owner field element) (.mention (.inlineEnum owner field)) :=
      ⟨.resolved, .members hm, rfl⟩
    exact hshown.arrayIf _
  | false =>
    rw [if_neg Bool.false_ne_true]
    cases ht : element.target with
    | some name =>
      have hn : element.isNavigation = true := by rw [Element.isNavigation, ht]; rfl
      rw [if_pos hn]
      exact (mentionOr (.target hm ht) (.badTarget hm ht)).arrayIf _
    | none =>
      have hn : element.isNavigation = element.isAssociationType := by
        rw [Element.isNavigation, ht]
        rfl
      rw [hn]
      cases ha : element.isAssociationType with
      | true => exact ⟨_, .noTarget hm ht ha, rfl⟩
      | false =>
        obtain ⟨finding, hfinds, hfindings⟩ := h (by simpa using hm) ht
        have hshown : Shows index (.element owner field element) (typeOf element.type) :=
          ⟨finding, .typed hm ht ha hfinds, hfindings⟩
        exact hshown.arrayIf _

/-- A position that is no reference to an element shows what is found, within every bound. -/
theorem typeRefWithin_of_not_element {type : Option TypeRef}
    (h : ∀ owner field, type ≠ some (.element owner field)) (fuel : Nat) :
    Shows index (.type type) (index.catalogue.typeRefWithin fuel type) := by
  rcases type with _ | name | ⟨owner, field⟩
  · rw [Catalogue.typeRefWithin]
    exact ⟨.blank, .noType, rfl⟩
  · rw [Catalogue.typeRefWithin]
    exact typeName name
  · exact absurd rfl (h owner field)

/-- A reference to an element shows what is found, within a bound no less than the length of the
chain. -/
theorem typeRefWithin_of_chain {start : String × String} {links : List Link}
    (h : ReferenceChain index.element? start links) {fuel : Nat} (hfuel : links.length ≤ fuel) :
    Shows index (.type (some (.element start.1 start.2)))
      (index.catalogue.typeRefWithin fuel (some (.element start.1 start.2))) := by
  induction h generalizing fuel with
  | missing missing =>
    unfold Catalogue.typeRefWithin
    simp only [Index.element?_catalogue, missing]
    exact ⟨_, .noElement missing, rfl⟩
  | @last owner field element found last =>
    obtain ⟨fuel, rfl⟩ := Nat.exists_eq_add_one_of_ne_zero (Nat.ne_of_gt hfuel)
    have hshown : Shows index (.element owner field element)
        (index.catalogue.elementVia (index.catalogue.typeRefWithin fuel) owner field element) :=
      elementVia (fun hm ht =>
        typeRefWithin_of_not_element (Link.type_ne_element last hm ht) _) owner field
    obtain ⟨finding, hfinds, hfindings⟩ := hshown
    unfold Catalogue.typeRefWithin
    simp only [Index.element?_catalogue, found]
    exact ⟨finding, .reference found hfinds, hfindings⟩
  | @step owner field element next links found step rest ih =>
    obtain ⟨fuel, rfl⟩ := Nat.exists_eq_add_one_of_ne_zero (Nat.ne_of_gt (Nat.zero_lt_of_lt hfuel))
    have htype := ((Link.next?_eq_some_iff _ _).1 step).2.2
    have hshown : Shows index (.element owner field element)
        (index.catalogue.elementVia (index.catalogue.typeRefWithin fuel) owner field element) := by
      refine elementVia (fun _ _ => ?_) _ _
      rw [htype]
      exact ih (Nat.le_of_succ_le_succ hfuel)
    obtain ⟨finding, hfinds, hfindings⟩ := hshown
    unfold Catalogue.typeRefWithin
    simp only [Index.element?_catalogue, found]
    exact ⟨finding, .reference found hfinds, hfindings⟩

variable (hacyclic : AcyclicReferences index.catalogue.definition?)

include hacyclic

/-- Without circles every type position shows what is found. -/
theorem typeRef (type : Option TypeRef) :
    Shows index (.type type) (index.catalogue.typeRef type) := by
  by_cases h : ∃ owner field, type = some (.element owner field)
  · obtain ⟨owner, field, rfl⟩ := h
    exact typeRefWithin_of_chain (Index.chain_links hacyclic owner field)
      (index.length_links_le owner field)
  · push Not at h
    exact typeRefWithin_of_not_element h _

theorem element (owner field : String) (element : Element) :
    Shows index (.element owner field element) (index.catalogue.element owner field element) :=
  elementVia (fun _ _ => typeRef hacyclic element.type) owner field

end Shows

/-! ### Properties and declarations show what is found -/

section Declarations

variable {index : Index} (hacyclic : AcyclicReferences index.catalogue.definition?)

theorem ShowsAll.append {asked more : List Asked} {sketches others : List PropertySketch}
    (h : ShowsAll index asked sketches) (ho : ShowsAll index more others) :
    ShowsAll index (asked ++ more) (sketches ++ others) := by
  rw [ShowsAll, propertyFindings_append]
  exact List.rel_append h ho

theorem DeclaresAll.append {asked more : List Asked} {sketches others : List DeclarationSketch}
    (h : DeclaresAll index asked sketches) (ho : DeclaresAll index more others) :
    DeclaresAll index (asked ++ more) (sketches ++ others) := by
  rw [DeclaresAll, declarationFindings_append]
  exact List.rel_append h ho

/-- A declaration by itself shows what its findings do. -/
theorem DeclaresAll.single {asked : List Asked} {sketch : DeclarationSketch}
    (h : List.Forall₂ (Finds index) asked sketch.findings) : DeclaresAll index asked [sketch] := by
  rw [DeclaresAll, declarationFindings, declarationFindings, List.append_nil]
  exact h

theorem declarationFindings_enumerations (declarations : List Declaration) :
    declarationFindings (declarations.map Catalogue.enumerationSketch) = [] := by
  induction declarations with
  | nil => rfl
  | cons declaration rest ih =>
    rw [List.map_cons, declarationFindings, ih]
    cases declaration <;> rfl

theorem Shows.findings {a : Asked} {type : TypeSketch} (h : Shows index a type) :
    List.Forall₂ (Finds index) [a] type.findings := by
  obtain ⟨finding, hfinds, hfindings⟩ := h
  rw [hfindings]
  exact .cons hfinds .nil

theorem Shows.cons {a : Asked} {type : TypeSketch} (h : Shows index a type) (name : String)
    (optional : Bool) {asked : List Asked} {sketches : List PropertySketch}
    (hs : ShowsAll index asked sketches) :
    ShowsAll index (a :: asked) (.property name optional type :: sketches) :=
  List.rel_append h.findings hs

include hacyclic

theorem showsAll_keys (field target separator : String) (entity : Entity) (paths : List KeyPath) :
    ShowsAll index
      (paths.map fun path => match entity.elements.get? path.first with
        | none => .missingKey path.first field target
        | some key => .type key.type)
      (paths.map (index.catalogue.keyProperty field target entity separator)) := by
  induction paths with
  | nil => exact .nil
  | cons path rest ih =>
    rw [List.map_cons, List.map_cons, Catalogue.keyProperty]
    cases entity.elements.get? path.first with
    | none => exact .cons (.missingKey path.first field target) ih
    | some key => exact (Shows.typeRef hacyclic key.type).cons _ true ih

theorem showsAll_foreignKeys (separator field : String) (element : Element) :
    ShowsAll index (index.askedByKeys field element)
      (index.catalogue.foreignKeys separator field element) := by
  rw [Index.askedByKeys, Catalogue.foreignKeys]
  cases element.many with
  | true => exact .nil
  | false =>
    cases element.target with
    | none => simp [propertyFindings]
    | some target =>
      simp only [Index.entity?_catalogue]
      cases index.entity? target with
      | none => simp [propertyFindings]
      | some entity =>
        have hkeys := showsAll_keys hacyclic field target separator entity element.keys
        cases hempty : element.keys.isEmpty with
        | true =>
          rw [List.isEmpty_iff.1 hempty]
          exact .nil
        | false => exact hkeys

theorem showsAll_fields (separator owner : String) (entries : List (String × Element)) :
    ShowsAll index (entries.flatMap (index.askedByField owner))
      (entries.flatMap (index.catalogue.elementProperties separator owner)) := by
  induction entries with
  | nil => exact .nil
  | cons entry rest ih =>
    have hkeys := showsAll_foreignKeys hacyclic separator entry.1 entry.2
    exact ((Shows.element hacyclic owner entry.1 entry.2).cons entry.1 _ hkeys).append ih

theorem showsAll_parameters (entries : List (String × Operand)) :
    ShowsAll index (entries.map fun entry => .type entry.2.type)
      (entries.map index.catalogue.parameter) := by
  induction entries with
  | nil => exact .nil
  | cons entry rest ih =>
    exact ((Shows.typeRef hacyclic entry.2.type).arrayIf _).cons entry.1 false ih

theorem declaresAll_action (name : String) (action : Action) (owner : Option String) :
    DeclaresAll index (Index.askedByAction action) (index.catalogue.action name action owner) := by
  have hparameters (stem : String) : DeclaresAll index
      (action.parameters.entries.map fun entry => .type entry.2.type)
      (index.catalogue.parameterInterface stem action.parameters) := by
    rw [Catalogue.parameterInterface, Table.isEmpty]
    cases hempty : action.parameters.entries with
    | nil => exact .nil
    | cons entry rest => exact .single (showsAll_parameters hacyclic (entry :: rest))
  have hresult (name : String) : DeclaresAll index
      (action.result.toList.map fun operand => .type operand.type)
      (index.catalogue.resultAlias name action.result) := by
    cases action.result with
    | none => exact .nil
    | some operand =>
      exact .single ((Shows.typeRef hacyclic operand.type).arrayIf operand.many).findings
  exact (hparameters _).append (hresult _)

theorem declaresAll_actionGroup (owner : String) (actions : Table Action) :
    DeclaresAll index (actions.entries.flatMap fun entry => Index.askedByAction entry.2)
      (index.catalogue.actionGroup owner actions) := by
  have hactions (entries : List (String × Action)) :
      DeclaresAll index (entries.flatMap fun entry => Index.askedByAction entry.2)
        (entries.flatMap fun entry => index.catalogue.action entry.1 entry.2 (some owner)) := by
    induction entries with
    | nil => exact .nil
    | cons entry rest ih => exact (declaresAll_action hacyclic entry.1 entry.2 _).append ih
  rw [Catalogue.actionGroup, Table.isEmpty]
  cases hempty : actions.entries with
  | nil => exact .nil
  | cons entry rest => exact .single (hactions (entry :: rest))

theorem declaresAll_entity (separator name : String) (entity : Entity) :
    DeclaresAll index (index.askedBy name (.entity entity))
      (index.catalogue.entity separator name entity) := by
  rw [Catalogue.entity, Index.includes_catalogue, DeclaresAll, declarationFindings_append,
    declarationFindings_enumerations, List.nil_append]
  exact List.rel_append (showsAll_fields hacyclic separator name _)
    (declaresAll_actionGroup hacyclic name entity.actions)

theorem declaresAll_typeAlias (separator name : String) (a : Alias) :
    DeclaresAll index (index.askedBy name (.typeAlias a))
      (index.catalogue.typeAlias separator name a) := by
  rw [Catalogue.typeAlias, DeclaresAll, declarationFindings_append,
    declarationFindings_enumerations, List.nil_append]
  refine DeclaresAll.single ?_
  rw [DeclarationSketch.findings, findings_arrayIf]
  obtain ⟨(_ | typeName) | elements, many⟩ := a
  · exact .cons .noType .nil
  · exact (Shows.typeName typeName).findings
  · exact showsAll_fields hacyclic separator name elements.entries

theorem declaresAll_definition (separator name : String) (definition : Definition) :
    DeclaresAll index (index.askedBy name definition)
      (index.catalogue.definition separator name definition) := by
  cases definition with
  | entity e => exact declaresAll_entity hacyclic separator name e
  | typeAlias a => exact declaresAll_typeAlias hacyclic separator name a
  | enumeration e => exact .nil
  | action a => exact declaresAll_action hacyclic name a none

/-- The sketch of an outline shows what is found where its definitions ask. -/
theorem declaresAll_outline (separator : String) (o : Outline) :
    DeclaresAll index (o.emission.flatMap fun entry => index.askedBy entry.1 entry.2)
      (index.catalogue.outline separator o) := by
  have hdefinitions (entries : List (String × Definition)) :
      DeclaresAll index (entries.flatMap fun entry => index.askedBy entry.1 entry.2)
        (entries.flatMap fun entry => index.catalogue.definition separator entry.1 entry.2) := by
    induction entries with
    | nil => exact .nil
    | cons entry rest ih =>
      exact (declaresAll_definition hacyclic separator entry.1 entry.2).append ih
  rw [← List.append_nil (o.emission.flatMap _)]
  exact (hdefinitions o.emission).append .nil

end Declarations

/-! ### Files -/

/-- The findings of the outlines of a table, in the order of generation. -/
def findingsOf (options : Options) (t : ScopeTable) : List Finding :=
  (outlines options.sort t).flatMap fun o => declarationFindings
    ((indexOf options t).catalogue.outline options.foreignKeySeparator o)

/-- The warnings of a table are those of its findings, in order. -/
theorem warnings_generate (options : Options) (t : ScopeTable) :
    (generate options t).warnings = (findingsOf options t).filterMap Finding.warning? := by
  rw [generate, findingsOf, List.flatMap_map, List.filterMap_flatMap]
  refine List.flatMap_congr fun o _ => ?_
  rw [warnings_fileOf, outlineEvents, warningsOf_declarationEvents]

/-- The unknown types of a table are those of its findings. -/
theorem fileUnknowns_generate (options : Options) (t : ScopeTable) :
    fileUnknowns (generate options t).files =
      (findingsOf options t).countP Finding.isUnknown := by
  rw [fileUnknowns, files_generate, findingsOf]
  induction outlines options.sort t with
  | nil => rfl
  | cons o rest ih =>
    rw [List.map_cons, List.flatMap_cons, List.flatMap_cons, declarationUnknowns_append, ih,
      List.countP_append, fileOf_eq, unknowns_namedDeclarations]

/-- Without circles of element references, the findings are what is found where the files ask. -/
theorem finds_findingsOf {options : Options} {t : ScopeTable}
    (hacyclic : AcyclicReferences (indexOf options t).catalogue.definition?) :
    List.Forall₂ (Finds (indexOf options t)) (askedFor options t) (findingsOf options t) := by
  rw [askedFor, findingsOf]
  induction outlines options.sort t with
  | nil => exact .nil
  | cons o rest ih =>
    exact List.rel_append (declaresAll_outline hacyclic options.foreignKeySeparator o) ih

/-- Where nothing deserves a warning, everything is resolved or blank. -/
theorem finds_of_no_warnings {index : Index} {asked : List Asked} {findings : List Finding}
    (h : List.Forall₂ (Finds index) asked findings)
    (hnone : findings.filterMap Finding.warning? = []) :
    ∀ a ∈ asked, Finds index a .resolved ∨ Finds index a .blank := by
  induction h with
  | nil => exact fun a ha => absurd ha List.not_mem_nil
  | @cons first finding rest others hfinds _ ih =>
    rw [List.filterMap_cons] at hnone
    cases finding with
    | resolved => exact List.forall_mem_cons.2 ⟨Or.inl hfinds, ih hnone⟩
    | blank => exact List.forall_mem_cons.2 ⟨Or.inr hfinds, ih hnone⟩
    | failed cause => cases hnone
    | skipped cause => cases hnone

/-- **Every type that is not resolved is reported, and once.**  For an accepted schema without
circles of element references, one thing is found at each place where its files ask for a type or a
key, and the warnings are those of what is found, in order.  So their number is that of the unknown
types in the files, less those for which there is no type at all, and that of the keys left out; and
without warnings everything that could be resolved is. -/
theorem generate_findings {schema : Value} {t : ScopeTable}
    (ht : ScopeTable.ofSchema schema = .ok t) (hacyclic : AcyclicReferences t.definition?)
    (options : Options) : ∃ findings,
    (∀ others, List.Forall₂ (Finds (indexOf options t)) (askedFor options t) others ↔
      others = findings) ∧
    (generate options t).warnings = findings.filterMap Finding.warning? ∧
    findings.countP Finding.isBlank ≤ fileUnknowns (generate options t).files ∧
    (generate options t).warnings.length = fileUnknowns (generate options t).files -
      findings.countP Finding.isBlank + findings.countP Finding.isSkipped ∧
    ((generate options t).warnings = [] → ∀ asked ∈ askedFor options t,
      Finds (indexOf options t) asked .resolved ∨ Finds (indexOf options t) asked .blank) := by
  obtain ⟨definitions, read, -, -, hplaced⟩ := placed_ofSchema ht
  rw [← hplaced.definition?_ofScopes options.interfacePrefix] at hacyclic
  have hunique : Relator.RightUnique (Finds (indexOf options t)) :=
    fun _ _ _ hfirst hsecond => hfirst.unique hsecond
  have hfinds := finds_findingsOf hacyclic
  have hwarnings := warnings_generate options t
  have hunknowns := fileUnknowns_generate options t
  rw [Finding.countP_isUnknown] at hunknowns
  refine ⟨findingsOf options t, fun others => ?_, hwarnings, by omega, ?_, fun hnone => ?_⟩
  · constructor
    · intro hothers
      exact List.right_unique_forall₂' hunique hothers hfinds
    · rintro rfl
      exact hfinds
  · have hlength := Finding.length_warnings (findingsOf options t)
    rw [← hwarnings] at hlength
    omega
  · exact finds_of_no_warnings hfinds (hwarnings ▸ hnone)

/-- There is no circle if every element reference of the definitions read leads down. -/
theorem acyclicReferences_of_entries {schema : Value} {definitions : Table Value} {t : ScopeTable}
    (hraw : rawDefinitions schema = .ok definitions.entries)
    (ht : ScopeTable.ofSchema schema = .ok t)
    (rank : String × String → Nat) (hrank : ∀ reference ∈ elementReferences
      (definitions.entries.filterMap (Table.keptEntry readDefinition)),
      rank reference.2 < rank reference.1) : AcyclicReferences t.definition? := by
  have hplaced := placed_keptEntry hraw ht
  have hfind : t.definition? = (Table.find ·
      (definitions.entries.filterMap (Table.keptEntry readDefinition))) :=
    funext hplaced.definition?_eq
  exact acyclicReferences_of_rank rank fun a b hab =>
    hrank _ (mem_elementReferences hplaced.names_nodup (hfind ▸ hab))

/-- An element without a type, one that has the type of that element, an association with a key
that its target has and one that it does not have, and an alias of a type that is not defined. -/
def mixedDefinitions : Table Value where
  entries :=
    [("a.Books", .object [("kind", .string "entity"), ("elements", .object
        [("computed", .object [("virtual", .bool true)]),
          ("copy", .object [("type", .object
            [("ref", .array [.string "a.Books", .string "computed"])])]),
          ("next", .object [("type", .string "cds.Association"), ("target", .string "a.Books"),
            ("keys", .array [.object [("ref", .array [.string "copy"])],
              .object [("ref", .array [.string "gone"])]])])])]),
      ("a.Genre", .object [("kind", .string "type"), ("type", .string "a.Missing")])]
  distinct := by decide

/-- Of four unknown types one has a warning, and the other warning is about the missing key. -/
theorem generate_findings_mixed : ∃ t findings,
    ScopeTable.ofSchema (schemaOf mixedDefinitions) = .ok t ∧ AcyclicReferences t.definition? ∧
    (∀ others, List.Forall₂ (Finds (indexOf {} t)) (askedFor {} t) others ↔ others = findings) ∧
    findings = [.failed (.unresolvedType "a.Missing"), .blank, .blank, .resolved, .blank,
      .skipped (.unknownKey "gone" "next" "a.Books")] ∧
    fileUnknowns (generate {} t).files = 4 ∧
    (generate {} t).warnings.length = 4 - 3 + 1 := by
  have hcomputed : (ScopeTable.ofSchema (schemaOf mixedDefinitions)).toOption.map
      (fun t => (findingsOf {} t, fileUnknowns (generate {} t).files)) =
      some ([.failed (.unresolvedType "a.Missing"), .blank, .blank, .resolved, .blank,
        .skipped (.unknownKey "gone" "next" "a.Books")], 4) := by decide +kernel
  obtain ⟨t, ht, hvalues⟩ := exists_ok_of_map hcomputed
  obtain ⟨hfound, hunknowns⟩ := Prod.mk.inj hvalues
  have hraw := rawDefinitions_schemaOf mixedDefinitions
  have hacyclic : AcyclicReferences t.definition? :=
    acyclicReferences_of_entries hraw ht (fun a => if a.2 = "copy" then 1 else 0)
      (by decide +kernel)
  obtain ⟨findings, hunique, -, -, hlength, -⟩ := generate_findings ht hacyclic {}
  have hplaced := placed_keptEntry hraw ht
  have hfindings := (hunique _).1 (finds_findingsOf
    ((hplaced.definition?_ofScopes ({} : Options).interfacePrefix).symm ▸ hacyclic))
  rw [← hfindings, hfound, hunknowns] at hlength
  exact ⟨t, findings, ht, hacyclic, hunique, hfindings.symm.trans hfound, hunknowns, hlength⟩

end SchemaTypings.Generation
