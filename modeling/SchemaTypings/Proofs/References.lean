import SchemaTypings.Proofs.Sketch
import SchemaTypings.Proofs.Tables

/-!
# References

The references of a declaration at any depth are those of its sketch, and a sketch mentions only
definitions that can be referred to and enumerations that are written inside an element.
-/

namespace SchemaTypings.Typing

/-! ### References at any depth -/

mutual

/-- The references in a type, in order. -/
def TypeExpr.references : TypeExpr → List String
  | .unknown => []
  | .primitive _ => []
  | .reference name => [name]
  | .object properties => propertyReferences properties
  | .array item => item.references

/-- The references in the type of a property, in order. -/
def Property.references : Property → List String
  | ⟨_, _, type⟩ => type.references

/-- The references in properties, in order. -/
def propertyReferences : List Property → List String
  | [] => []
  | property :: rest => property.references ++ propertyReferences rest

end

mutual

/-- The bases and references in a declaration, in order. -/
def Declaration.references : Declaration → List String
  | .interface _ bases properties => bases ++ propertyReferences properties
  | .enumeration _ _ => []
  | .typeAlias _ type => type.references
  | .group _ declarations => declarationReferences declarations

/-- The bases and references in declarations, in order. -/
def declarationReferences : List Declaration → List String
  | [] => []
  | declaration :: rest => declaration.references ++ declarationReferences rest

end

/-- The bases and references of a file, in order. -/
def SourceFile.references (file : SourceFile) : List String :=
  declarationReferences file.declarations

/-- The name under which a declaration can be referred to: groups have none. -/
def Declaration.topLevelName? : Declaration → Option String
  | .interface name _ _ => some name
  | .enumeration name _ => some name
  | .typeAlias name _ => some name
  | .group _ _ => none

/-- The names of the interfaces, enumerations and aliases that a file declares. -/
def SourceFile.topLevelNames (file : SourceFile) : List String :=
  file.declarations.filterMap Declaration.topLevelName?

end SchemaTypings.Typing

namespace SchemaTypings.Generation

open SchemaTypings.Name SchemaTypings.Schema SchemaTypings.Typing

/-! ### References of named sketches -/

mutual

theorem TypeSketch.references_named (nameOf : Mention → String) :
    ∀ sketch : TypeSketch,
      (sketch.named nameOf).references = (mentionsOf sketch.events).map nameOf
  | .unknown none => rfl
  | .unknown (some _) => rfl
  | .primitive _ => rfl
  | .mention _ => rfl
  | .object properties => references_namedProperties nameOf properties
  | .array item => TypeSketch.references_named nameOf item

theorem PropertySketch.references_named (nameOf : Mention → String) :
    ∀ sketch : PropertySketch, propertyReferences (sketch.named nameOf).toList =
      (mentionsOf sketch.events).map nameOf
  | .property name optional type => by
    have h := TypeSketch.references_named nameOf type
    exact (List.append_nil _).trans h
  | .missing _ => rfl

theorem references_namedProperties (nameOf : Mention → String) :
    ∀ sketches : List PropertySketch, propertyReferences (namedProperties nameOf sketches) =
      (mentionsOf (propertyEvents sketches)).map nameOf
  | [] => rfl
  | property :: rest => by
    have hp := PropertySketch.references_named nameOf property
    have hr := references_namedProperties nameOf rest
    rw [namedProperties, propertyEvents, mentionsOf_append, List.map_append, ← hp, ← hr]
    cases property.named nameOf with
    | none => rfl
    | some made => simp [propertyReferences]

end

@[simp] theorem mentionsOf_map_mention (mentions : List Mention) :
    mentionsOf (mentions.map Event.mention) = mentions := by
  induction mentions with
  | nil => rfl
  | cons m rest ih => rw [List.map_cons, mentionsOf_mention, ih]

mutual

theorem DeclarationSketch.references_named (interfacePrefix : String) (nameOf : Mention → String) :
    ∀ sketch : DeclarationSketch, (sketch.named interfacePrefix nameOf).references =
      (mentionsOf sketch.events).map nameOf
  | .interface _ bases properties => by
    have h := references_namedProperties nameOf properties
    rw [DeclarationSketch.named, Declaration.references, DeclarationSketch.events,
      mentionsOf_append, List.map_append, ← h, mentionsOf_map_mention]
  | .enumeration _ _ => rfl
  | .typeAlias _ type => TypeSketch.references_named nameOf type
  | .group _ declarations => references_namedDeclarations interfacePrefix nameOf declarations

/-- The references of named declarations are the names of what their sketches mention. -/
theorem references_namedDeclarations (interfacePrefix : String) (nameOf : Mention → String) :
    ∀ sketches : List DeclarationSketch,
      declarationReferences (namedDeclarations interfacePrefix nameOf sketches) =
        (mentionsOf (declarationEvents sketches)).map nameOf
  | [] => rfl
  | declaration :: rest => by
    have hd := DeclarationSketch.references_named interfacePrefix nameOf declaration
    have hr := references_namedDeclarations interfacePrefix nameOf rest
    rw [namedDeclarations, declarationReferences, declarationEvents, mentionsOf_append,
      List.map_append, hd, hr]

end

/-! ### Names of named sketches -/

/-- The name under which the declaration of a sketch can be referred to. -/
def DeclarationSketch.topLevelName? (interfacePrefix : String) : DeclarationSketch → Option String
  | .interface stem _ _ => some (interfacePrefix ++ stem)
  | .enumeration name _ => some name
  | .typeAlias name _ => some name
  | .group _ _ => none

/-- The names that declarations declare do not depend on the local names put in. -/
theorem topLevelNames_namedDeclarations (interfacePrefix : String) (nameOf : Mention → String)
    (sketches : List DeclarationSketch) :
    (namedDeclarations interfacePrefix nameOf sketches).filterMap Declaration.topLevelName? =
      sketches.filterMap (DeclarationSketch.topLevelName? interfacePrefix) := by
  have hname : Declaration.topLevelName? ∘ DeclarationSketch.named interfacePrefix nameOf =
      DeclarationSketch.topLevelName? interfacePrefix := by
    funext sketch
    cases sketch <;> rfl
  rw [namedDeclarations_eq_map, List.filterMap_map, hname]

/-! ### Mentions are known -/

/-- The elements of a definition: those of an entity, or of the items of an array alias. -/
def elementsOf : Definition → List (String × Element)
  | .entity e => e.elements.entries
  | .typeAlias a =>
    match a.body with
    | .type _ => []
    | .structured elements => elements.entries
  | _ => []

/-- Whether there is what a mention means: a definition that can be referred to, or an element with
an enumeration written inside it. -/
def Catalogue.Knows (k : Catalogue) : Mention → Prop
  | .definition name => k.isReferable name = true
  | .inlineEnum owner field => ∃ definition element, k.definition? owner = some definition ∧
      (field, element) ∈ elementsOf definition ∧ element.members.isSome = true

/-- What is known belongs to a definition of the catalogue. -/
theorem Catalogue.Knows.isSome_definition? {k : Catalogue} {m : Mention} (h : k.Knows m) :
    (k.definition? m.owner).isSome = true := by
  cases m with
  | definition name =>
    cases hd : k.definition? name with
    | none => simp [Knows, isReferable, hd] at h
    | some definition => simp [Mention.owner, hd]
  | inlineEnum owner field =>
    obtain ⟨definition, -, hd, -⟩ := h
    exact Option.isSome_of_eq_some hd

/-- Whether there is everything that events mention. -/
def AllKnown (k : Catalogue) (events : List Event) : Prop :=
  ∀ m, .mention m ∈ events → k.Knows m

namespace Catalogue

variable {k : Catalogue}

theorem allKnown_append {events more : List Event} :
    AllKnown k (events ++ more) ↔ AllKnown k events ∧ AllKnown k more := by
  simp only [AllKnown, List.mem_append, or_imp, forall_and]

theorem allKnown_propertyEvents {sketches : List PropertySketch} :
    AllKnown k (propertyEvents sketches) ↔ ∀ s ∈ sketches, AllKnown k s.events := by
  simp only [AllKnown, propertyEvents_eq_flatMap, List.mem_flatMap]
  exact ⟨fun h s hs m hm => h m ⟨s, hs, hm⟩, fun h m ⟨s, hs, hm⟩ => h s hs m hm⟩

theorem allKnown_declarationEvents {sketches : List DeclarationSketch} :
    AllKnown k (declarationEvents sketches) ↔ ∀ s ∈ sketches, AllKnown k s.events := by
  simp only [AllKnown, declarationEvents_eq_flatMap, List.mem_flatMap]
  exact ⟨fun h s hs m hm => h m ⟨s, hs, hm⟩, fun h m ⟨s, hs, hm⟩ => h s hs m hm⟩

theorem allKnown_nil : AllKnown k [] := fun _ h => absurd h List.not_mem_nil

theorem allKnown_mention {m : Mention} (h : k.Knows m) : AllKnown k [.mention m] := by
  intro other hm
  cases List.mem_singleton.1 hm
  exact h

theorem allKnown_warning (w : Warning) : AllKnown k [.warning w] := by
  simp [AllKnown]

theorem allKnown_mentionOr (name : String) (w : Warning) :
    AllKnown k (k.mentionOr name w).events := by
  rw [mentionOr]
  split
  · next h => exact allKnown_mention h
  · exact allKnown_warning w

theorem allKnown_typeName (name : String) : AllKnown k (k.typeName name).events := by
  rw [typeName]
  split
  · exact allKnown_nil
  · split
    · exact allKnown_warning _
    · exact allKnown_mentionOr name _

theorem allKnown_elementVia {typeOf : Option TypeRef → TypeSketch}
    (h : ∀ type, AllKnown k (typeOf type).events) {owner field : String} {element : Element}
    (hw : element.members.isSome = true → k.Knows (.inlineEnum owner field)) :
    AllKnown k (k.elementVia typeOf owner field element).events := by
  rw [elementVia]
  split
  · next hmembers =>
    rw [events_arrayIf]
    exact allKnown_mention (hw hmembers)
  · split
    · split
      · rw [events_arrayIf]
        exact allKnown_mentionOr _ _
      · exact allKnown_warning _
    · rw [events_arrayIf]
      exact h element.type

/-- An element that is found by its definition and field is known. -/
theorem knows_of_element? {owner field : String} {element : Element}
    (h : k.element? owner field = some element) (hw : element.members.isSome = true) :
    k.Knows (.inlineEnum owner field) := by
  obtain ⟨entity, hentity, hfield⟩ := Option.bind_eq_some_iff.1 h
  obtain ⟨definition, hdefinition, he⟩ := Option.bind_eq_some_iff.1 hentity
  cases definition with
  | entity e =>
    cases he
    have hmem := (Table.find_eq_some_iff entity.elements.distinct field element).1 hfield
    exact ⟨.entity entity, element, hdefinition, hmem, hw⟩
  | typeAlias a => cases he
  | enumeration e => cases he
  | action a => cases he

theorem allKnown_typeRefWithin (fuel : Nat) (type : Option TypeRef) :
    AllKnown k (k.typeRefWithin fuel type).events := by
  induction fuel generalizing type with
  | zero =>
    rcases type with _ | name | ⟨owner, field⟩
    · exact allKnown_nil
    · exact allKnown_typeName name
    · unfold typeRefWithin
      split
      · exact allKnown_warning _
      · exact allKnown_nil
  | succ fuel ih =>
    rcases type with _ | name | ⟨owner, field⟩
    · exact allKnown_nil
    · exact allKnown_typeName name
    · unfold typeRefWithin
      split
      · exact allKnown_warning _
      · next element he => exact allKnown_elementVia ih (knows_of_element? he)

theorem allKnown_typeRef (type : Option TypeRef) : AllKnown k (k.typeRef type).events :=
  allKnown_typeRefWithin k.bound type

theorem allKnown_elementProperties (separator : String) {owner : String}
    {entries : List (String × Element)}
    (hw : ∀ entry ∈ entries, entry.2.members.isSome = true →
      k.Knows (.inlineEnum owner entry.1)) :
    AllKnown k (propertyEvents (entries.flatMap (k.elementProperties separator owner))) := by
  rw [allKnown_propertyEvents]
  intro sketch hs
  obtain ⟨entry, hentry, hs⟩ := List.mem_flatMap.1 hs
  rcases List.mem_cons.1 hs with rfl | hs
  · exact allKnown_elementVia allKnown_typeRef (hw entry hentry)
  · -- a foreign key has the type of a key of the target, or is left out with a warning
    rw [foreignKeys] at hs
    split at hs
    · cases hs
    · split at hs
      · cases hs
      · split at hs
        · cases hs
        · obtain ⟨path, -, rfl⟩ := List.mem_map.1 hs
          rw [keyProperty]
          split
          · exact allKnown_warning _
          · exact allKnown_typeRef _

theorem allKnown_action (name : String) (action : Action) (owner : Option String) :
    AllKnown k (declarationEvents (k.action name action owner)) := by
  rw [Catalogue.action, List.cons_append, declarationEvents, declarationEvents_append]
  refine allKnown_append.2 ⟨allKnown_nil, allKnown_append.2 ⟨?_, ?_⟩⟩
  · rw [parameterInterface]
    split
    · exact allKnown_nil
    · refine allKnown_declarationEvents.2 fun s hs => ?_
      rw [List.mem_singleton.1 hs]
      refine allKnown_append.2 ⟨allKnown_nil, allKnown_propertyEvents.2 fun p hp => ?_⟩
      obtain ⟨entry, -, rfl⟩ := List.mem_map.1 hp
      rw [parameter, PropertySketch.events, events_arrayIf]
      exact allKnown_typeRef _
  · unfold resultAlias
    split
    · exact allKnown_nil
    · refine allKnown_declarationEvents.2 fun s hs => ?_
      rw [List.mem_singleton.1 hs, DeclarationSketch.events, events_arrayIf]
      exact allKnown_typeRef _

theorem allKnown_enumerations (declarations : List Declaration) :
    AllKnown k (declarationEvents (declarations.map enumerationSketch)) := by
  refine allKnown_declarationEvents.2 fun s hs => ?_
  obtain ⟨declaration, -, rfl⟩ := List.mem_map.1 hs
  cases declaration <;> exact allKnown_nil

theorem allKnown_includes (names : List String) :
    AllKnown k ((k.includes names).map fun base => .mention (.definition base.1)) := by
  intro m hm
  obtain ⟨base, hb, he⟩ := List.mem_map.1 hm
  cases he
  obtain ⟨included, -, hi⟩ := List.mem_filterMap.1 hb
  obtain ⟨entity, hentity, rfl⟩ := Option.map_eq_some_iff.1 hi
  exact isReferable_of_entity? hentity

theorem allKnown_entity (separator : String) {name : String} {entity : Entity}
    (hw : ∀ entry ∈ entity.elements.entries, entry.2.members.isSome = true →
      k.Knows (.inlineEnum name entry.1)) :
    AllKnown k (declarationEvents (k.entity separator name entity)) := by
  rw [Catalogue.entity, declarationEvents_append, declarationEvents]
  refine allKnown_append.2 ⟨allKnown_enumerations _, allKnown_append.2 ⟨?_, ?_⟩⟩
  · rw [DeclarationSketch.events, List.map_map]
    exact allKnown_append.2 ⟨allKnown_includes entity.includes,
      allKnown_elementProperties separator fun entry he => hw entry (List.mem_filter.1 he).1⟩
  · rw [actionGroup]
    split
    · exact allKnown_nil
    · refine allKnown_declarationEvents.2 fun s hs => ?_
      rw [List.mem_singleton.1 hs, DeclarationSketch.events, allKnown_declarationEvents]
      intro s hs
      obtain ⟨entry, -, hs⟩ := List.mem_flatMap.1 hs
      exact allKnown_declarationEvents.1 (allKnown_action entry.1 entry.2 (some name)) s hs

theorem allKnown_aliasType (separator : String) {name : String} {a : Alias}
    (hw : ∀ entry ∈ elementsOf (.typeAlias a), entry.2.members.isSome = true →
      k.Knows (.inlineEnum name entry.1)) :
    AllKnown k (k.aliasType separator name a.body).events := by
  obtain ⟨(_ | typeName) | elements, many⟩ := a
  · exact allKnown_nil
  · exact allKnown_typeName typeName
  · exact allKnown_elementProperties separator hw

theorem allKnown_definition (separator : String) {name : String} {definition : Definition}
    (h : k.definition? name = some definition) :
    AllKnown k (declarationEvents (k.definition separator name definition)) := by
  have hw : ∀ entry ∈ elementsOf definition, entry.2.members.isSome = true →
      k.Knows (.inlineEnum name entry.1) :=
    fun entry he hmembers => ⟨definition, entry.2, h, he, hmembers⟩
  cases definition with
  | entity e => exact allKnown_entity separator hw
  | typeAlias a =>
    rw [Catalogue.definition, typeAlias, declarationEvents_append]
    refine allKnown_append.2 ⟨allKnown_enumerations _, ?_⟩
    refine allKnown_declarationEvents.2 fun s hs => ?_
    rw [List.mem_singleton.1 hs, DeclarationSketch.events, events_arrayIf]
    exact allKnown_aliasType separator hw
  | enumeration e => exact allKnown_nil
  | action a => exact allKnown_action name a none

/-- **There is everything that an outline of known definitions mentions.** -/
theorem allKnown_outline (separator : String) {o : Outline}
    (h : ∀ d ∈ o.emission, k.definition? d.1 = some d.2) :
    AllKnown k (declarationEvents (k.outline separator o)) := by
  rw [outline, declarationEvents_append]
  have hnames := allKnown_enumerations (k := k)
    [enumerationAs Outline.entityEnumName o.entityEnum,
      enumerationAs Outline.sanitizedEnumName o.sanitizedEnum]
  refine allKnown_append.2 ⟨allKnown_declarationEvents.2 fun s hs => ?_, hnames⟩
  obtain ⟨entry, he, hs⟩ := List.mem_flatMap.1 hs
  exact allKnown_declarationEvents.1 (allKnown_definition separator (h entry he)) s hs

end Catalogue

end SchemaTypings.Generation
