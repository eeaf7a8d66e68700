import SchemaTypings.Proofs.Drafting
import SchemaTypings.Proofs.Settled

/-!
# Catalogues that agree

The sketch of a definition looks up only the names that the definition uses, and what it finds
there it reads only as far as settling keeps it.  So two catalogues that agree on the used names
give the same sketch, settled or not; and files of the same sketch are the same when their resolvers
find the mentioned definitions in the same places.
-/

namespace SchemaTypings.Schema

/-! ### Used names -/

/-- The definition that a type position names. -/
def TypeRef.uses : TypeRef → List String
  | named name => [name]
  | element owner _ => [owner]

/-- The definitions that an optional type position names. -/
def typeUses (type : Option TypeRef) : List String := type.toList.flatMap TypeRef.uses

/-- The definitions that an element names: by its type and by its target. -/
def Element.uses (element : Element) : List String := typeUses element.type ++ element.target.toList

/-- The definitions that elements name. -/
def elementUses (elements : Table Element) : List String :=
  elements.entries.flatMap fun entry => entry.2.uses

/-- The definitions that an action names: by its parameters and by its result. -/
def Action.uses (action : Action) : List String :=
  (action.parameters.entries.flatMap fun entry => typeUses entry.2.type) ++
    (action.result.toList.flatMap fun operand => typeUses operand.type)

/-- The definitions that a definition with elements names. -/
def Entity.uses (entity : Entity) : List String :=
  entity.includes ++ elementUses entity.elements ++
    entity.actions.entries.flatMap fun entry => entry.2.uses

/-- The definitions that an alias names. -/
def AliasBody.uses : AliasBody → List String
  | type name => name.toList
  | structured elements => elementUses elements

/-- The definitions that a definition names. -/
def Definition.uses : Definition → List String
  | entity e => e.uses
  | typeAlias a => a.body.uses
  | enumeration _ => []
  | action a => a.uses

theorem Element.uses_subset {elements : Table Element} {field : String} {element : Element}
    (h : elements.get? field = some element) : element.uses ⊆ elementUses elements :=
  fun _ hused => List.mem_flatMap.2
    ⟨(field, element), (Table.find_eq_some_iff elements.distinct field element).1 h, hused⟩

/-- A definition with elements uses what they do, and what its actions do. -/
theorem Definition.uses_of_entity? {definition : Definition} {e : Entity}
    (h : definition.entity? = some e) : definition.uses = e.uses := by
  cases definition with
  | entity found =>
    obtain rfl : found = e := Option.some.inj h
    rfl
  | typeAlias a => cases h
  | enumeration e => cases h
  | action a => cases h

theorem elementUses_settled (elements : Table Element) :
    elementUses (elements.map Element.settled) = elementUses elements := by
  rw [elementUses, Table.entries_map, List.flatMap_map]
  rfl

@[simp] theorem Definition.uses_settled (definition : Definition) :
    definition.settled.uses = definition.uses := by
  cases definition with
  | entity e =>
    show _ ++ elementUses (e.elements.map Element.settled) ++ _ = _
    rw [elementUses_settled]
    rfl
  | typeAlias a =>
    obtain ⟨body, many⟩ := a
    cases body with
    | type name => rfl
    | structured elements => exact elementUses_settled elements
  | enumeration e => rfl
  | action a => rfl

end SchemaTypings.Schema

namespace SchemaTypings.Generation

open SchemaTypings.Name SchemaTypings.Schema SchemaTypings.Typing

/-! ### Agreement -/

namespace Catalogue

/-- The catalogues have the same definitions under the names of a set, up to settling; these use
only names of the set, and type positions that name no others are resolved in the same way. -/
structure AgreeOn (names : String → Prop) (k' k : Catalogue) : Prop where
  definition? : ∀ name, names name →
    (k'.definition? name).map Definition.settled = (k.definition? name).map Definition.settled
  closed : ∀ name definition, names name → k.definition? name = some definition →
    ∀ used ∈ definition.uses, names used
  typeRef : ∀ type, (∀ name ∈ typeUses type, names name) → k'.typeRef type = k.typeRef type

section Lookups

variable {names : String → Prop} {k' k : Catalogue}
  (h : ∀ name, names name →
    (k'.definition? name).map Definition.settled = (k.definition? name).map Definition.settled)

include h

theorem isReferable_congr {name : String} (hn : names name) :
    k'.isReferable name = k.isReferable name := by
  have heq := congrArg (Option.map Definition.isAction) (h name hn)
  simp only [Option.map_map, Function.comp_def, Definition.isAction_settled] at heq
  have hnot : ∀ k : Catalogue, k.isReferable name =
      (((k.definition? name).map Definition.isAction).map not).getD false := by
    intro k
    rw [isReferable, Option.map_map]
    rfl
  rw [hnot, hnot, heq]

theorem entity?_congr {name : String} (hn : names name) :
    (k'.entity? name).map Entity.settled = (k.entity? name).map Entity.settled := by
  have heq := congrArg (Option.bind · Definition.entity?) (h name hn)
  simp only [Option.bind_map, Function.comp_def, Definition.entity?_settled] at heq
  rw [entity?, entity?, Option.map_bind, Option.map_bind]
  exact heq

theorem element?_congr {owner : String} (hn : names owner) (field : String) :
    (k'.element? owner field).map Element.settled =
      (k.element? owner field).map Element.settled := by
  have heq := congrArg (Option.bind · fun e => e.elements.get? field) (entity?_congr h hn)
  simp only [Option.bind_map, Function.comp_def, Entity.settled, Table.get?_map] at heq
  rw [element?, element?, Option.map_bind, Option.map_bind]
  exact heq

/-- An element is found in both catalogues or in none, and then in both the same up to settling. -/
theorem element?_cases {owner : String} (hn : names owner) (field : String) :
    (k'.element? owner field = none ∧ k.element? owner field = none) ∨
      ∃ e' e, k'.element? owner field = some e' ∧ k.element? owner field = some e ∧
        e'.settled = e.settled := by
  have heq := element?_congr h hn field
  cases hk' : k'.element? owner field with
  | none => simpa [hk'] using heq.symm
  | some e' =>
    rw [hk'] at heq
    obtain ⟨e, hk, he⟩ := Option.map_eq_some_iff.1 heq.symm
    exact .inr ⟨e', e, rfl, hk, he.symm⟩

theorem mentionOr_congr {name : String} (hn : names name) (w : Warning) :
    k'.mentionOr name w = k.mentionOr name w := by
  rw [mentionOr, mentionOr, isReferable_congr h hn]

theorem typeName_congr {name : String} (hn : names name) : k'.typeName name = k.typeName name := by
  rw [typeName, typeName, mentionOr_congr h hn]

/-- The type of an element, settled or not, if the types of type positions agree. -/
theorem elementVia_congr {typeOf typeOf' : Option TypeRef → TypeSketch} {e : Element}
    (hn : ∀ name ∈ e.uses, names name)
    (htype : (∀ name ∈ typeUses e.type, names name) → typeOf' e.type = typeOf e.type)
    (owner field : String) :
    k'.elementVia typeOf' owner field e.settled = k.elementVia typeOf owner field e := by
  have hown : typeOf' e.type = typeOf e.type :=
    htype fun name hm => hn name (List.mem_append_left _ hm)
  have htarget : ∀ name ∈ e.target, ∀ w, k'.mentionOr name w = k.mentionOr name w := by
    intro name hm
    exact mentionOr_congr h (hn name (List.mem_append_right _ (Option.mem_toList.2 hm)))
  simp only [elementVia, Element.isSome_members_settled, Element.isNavigation_settled,
    Element.type_settled, Element.target_settled, Element.many_settled, hown]
  cases ht : e.target with
  | none => rfl
  | some name => simp only [htarget name ht]

end Lookups

/-- The catalogue itself treats an element like the settled one. -/
theorem elementVia_settled (k : Catalogue) (typeOf : Option TypeRef → TypeSketch)
    (owner field : String) (e : Element) :
    k.elementVia typeOf owner field e.settled = k.elementVia typeOf owner field e :=
  elementVia_congr (fun _ _ => rfl) (fun _ _ => trivial) (fun _ => rfl) owner field

/-- The elements of definitions that use only names of a set use no others. -/
theorem uses_of_element? {names : String → Prop} {k : Catalogue}
    (hclosed : ∀ name definition, names name → k.definition? name = some definition →
      ∀ used ∈ definition.uses, names used)
    {owner field : String} {e : Element} (hn : names owner) (he : k.element? owner field = some e) :
    ∀ used ∈ e.uses, names used := by
  intro used hused
  obtain ⟨entity, hentity, hget⟩ := Option.bind_eq_some_iff.1 he
  obtain ⟨definition, hd, hfound⟩ := Option.bind_eq_some_iff.1 hentity
  refine hclosed owner definition hn hd used ?_
  rw [Definition.uses_of_entity? hfound]
  exact List.mem_append_left _ (List.mem_append_right _ (Element.uses_subset hget hused))

/-- What one catalogue resolves with a bound, the other does with the same bound, if the definitions
that are come upon use no other names. -/
theorem typeRefWithin_congr {names : String → Prop} {k' k : Catalogue}
    (h : ∀ name, names name →
      (k'.definition? name).map Definition.settled = (k.definition? name).map Definition.settled)
    (hclosed : ∀ name definition, names name → k.definition? name = some definition →
      ∀ used ∈ definition.uses, names used)
    (fuel : Nat) (type : Option TypeRef) (hn : ∀ name ∈ typeUses type, names name) :
    k'.typeRefWithin fuel type = k.typeRefWithin fuel type := by
  induction fuel generalizing type with
  | zero =>
    rcases type with _ | name | ⟨owner, field⟩
    · rfl
    · exact typeName_congr h (hn name (by simp [typeUses, TypeRef.uses]))
    · have howner := hn owner (by simp [typeUses, TypeRef.uses])
      rcases element?_cases h howner field with ⟨hk', hk⟩ | ⟨e', e, hk', hk, -⟩
      · rw [typeRefWithin, typeRefWithin, hk', hk]
      · rw [typeRefWithin, typeRefWithin, hk', hk]
  | succ fuel ih =>
    rcases type with _ | name | ⟨owner, field⟩
    · rfl
    · exact typeName_congr h (hn name (by simp [typeUses, TypeRef.uses]))
    · have howner := hn owner (by simp [typeUses, TypeRef.uses])
      rcases element?_cases h howner field with ⟨hk', hk⟩ | ⟨e', e, hk', hk, he⟩
      · rw [typeRefWithin, typeRefWithin, hk', hk]
      · rw [typeRefWithin, typeRefWithin, hk', hk]
        show k'.elementVia _ owner field e' = k.elementVia _ owner field e
        -- both elements are replaced by the settled one that they share
        rw [← k'.elementVia_settled, he]
        exact elementVia_congr h (uses_of_element? hclosed howner hk) (ih e.type) owner field

/-! ### Sketches of agreeing catalogues -/

namespace AgreeOn

variable {names : String → Prop} {k' k : Catalogue}

/-- The first of two catalogues that agree also agrees with itself. -/
theorem left (h : AgreeOn names k' k) : AgreeOn names k' k' where
  definition? _ _ := rfl
  closed name definition hn hd := by
    have heq := h.definition? name hn
    rw [hd] at heq
    obtain ⟨other, ho, hsettled⟩ := Option.map_eq_some_iff.1 heq.symm
    rw [← definition.uses_settled, ← hsettled, other.uses_settled]
    exact h.closed name other hn ho
  typeRef _ _ := rfl

theorem uses_of_entity? (h : AgreeOn names k' k) {name : String} {e : Entity} (hn : names name)
    (he : k.entity? name = some e) : ∀ used ∈ e.uses, names used := by
  obtain ⟨definition, hd, hentity⟩ := Option.bind_eq_some_iff.1 he
  rw [← Definition.uses_of_entity? hentity]
  exact h.closed name definition hn hd

theorem element (h : AgreeOn names k' k) {e : Element} (hn : ∀ name ∈ e.uses, names name)
    (owner field : String) : k'.element owner field e.settled = k.element owner field e :=
  elementVia_congr h.definition? hn (h.typeRef e.type) owner field

/-- The keys of an association have the types that the keys of its target have. -/
theorem keyProperty (h : AgreeOn names k' k) {targetName : String} {target' target : Entity}
    (htarget : target'.settled = target.settled)
    (hn : ∀ name ∈ elementUses target.elements, names name) (field separator : String)
    (path : KeyPath) :
    k'.keyProperty field targetName target' separator path =
      k.keyProperty field targetName target separator path := by
  have heq := congrArg (fun entity => entity.elements.get? path.first) htarget
  simp only [Entity.settled, Table.get?_map] at heq
  rw [Catalogue.keyProperty, Catalogue.keyProperty]
  cases hg : target.elements.get? path.first with
  | none =>
    rw [hg] at heq
    rw [Option.map_eq_none_iff.1 heq]
  | some e =>
    rw [hg] at heq
    obtain ⟨e', hg', he⟩ := Option.map_eq_some_iff.1 heq
    have htype : e'.settled.type = e.settled.type := congrArg Element.type he
    rw [hg']
    show PropertySketch.property _ true (k'.typeRef e'.settled.type) =
      .property _ true (k.typeRef e.type)
    rw [htype]
    exact congrArg _ (h.typeRef e.type fun name hm =>
      hn name (Element.uses_subset hg (List.mem_append_left _ hm)))

theorem foreignKeys (h : AgreeOn names k' k) {e : Element} (hn : ∀ name ∈ e.uses, names name)
    (separator field : String) :
    k'.foreignKeys separator field e.settled = k.foreignKeys separator field e := by
  have hsettled : k'.foreignKeys separator field e.settled = k'.foreignKeys separator field e := rfl
  rw [hsettled, Catalogue.foreignKeys, Catalogue.foreignKeys]
  split
  · rfl
  · cases ht : e.target with
    | none => rfl
    | some targetName =>
      have htarget : names targetName :=
        hn targetName (List.mem_append_right _ (by simp [ht]))
      have heq := entity?_congr h.definition? htarget
      cases hk : k.entity? targetName with
      | none =>
        rw [hk] at heq
        simp only [Option.map_eq_none_iff.1 heq, hk]
      | some target =>
        rw [hk] at heq
        obtain ⟨target', hk', hsettled⟩ := Option.map_eq_some_iff.1 heq
        have huses := h.uses_of_entity? htarget hk
        simp only [hk', hk]
        exact List.map_congr_left fun path _ => h.keyProperty hsettled
          (fun name hm => huses name
            (List.mem_append_left _ (List.mem_append_right _ hm))) field separator path

theorem elementProperties (h : AgreeOn names k' k) {entry : String × Element}
    (hn : ∀ name ∈ entry.2.uses, names name) (separator owner : String) :
    k'.elementProperties separator owner (entry.1, entry.2.settled) =
      k.elementProperties separator owner entry := by
  rw [Catalogue.elementProperties, Catalogue.elementProperties, h.element hn, h.foreignKeys hn]
  rfl

/-- The properties of elements, settled or not. -/
theorem flatMap_elementProperties (h : AgreeOn names k' k) {entries : List (String × Element)}
    (hn : ∀ name ∈ entries.flatMap (fun entry => entry.2.uses), names name)
    (separator owner : String) :
    (entries.map fun entry => (entry.1, entry.2.settled)).flatMap
        (k'.elementProperties separator owner) =
      entries.flatMap (k.elementProperties separator owner) := by
  rw [List.flatMap_map]
  exact List.flatMap_congr fun entry hentry => h.elementProperties
    (fun name hm => hn name (List.mem_flatMap.2 ⟨entry, hentry, hm⟩)) separator owner

theorem parameterInterface (h : AgreeOn names k' k) {a : Action}
    (hn : ∀ name ∈ a.uses, names name) (stem : String) :
    k'.parameterInterface stem a.parameters = k.parameterInterface stem a.parameters := by
  rw [Catalogue.parameterInterface, Catalogue.parameterInterface]
  have hparameters :
      a.parameters.entries.map k'.parameter = a.parameters.entries.map k.parameter := by
    refine List.map_congr_left fun entry hentry => ?_
    rw [parameter, parameter, h.typeRef entry.2.type fun name hm => hn name
      (List.mem_append_left _ (List.mem_flatMap.2 ⟨entry, hentry, hm⟩))]
  rw [hparameters]

theorem resultAlias (h : AgreeOn names k' k) {a : Action} (hn : ∀ name ∈ a.uses, names name)
    (stem : String) : k'.resultAlias stem a.result = k.resultAlias stem a.result := by
  cases hr : a.result with
  | none => rfl
  | some operand =>
    have htype := h.typeRef operand.type fun name hm => hn name
      (List.mem_append_right _ (List.mem_flatMap.2 ⟨operand, by simp [hr], hm⟩))
    simp only [Catalogue.resultAlias, htype]

theorem action (h : AgreeOn names k' k) {a : Action} (hn : ∀ name ∈ a.uses, names name)
    (name : String) (owner : Option String) :
    k'.action name a owner = k.action name a owner := by
  rw [Catalogue.action, Catalogue.action]
  simp only [h.parameterInterface hn, h.resultAlias hn]

theorem actionGroup (h : AgreeOn names k' k) {actions : Table Action}
    (hn : ∀ name ∈ actions.entries.flatMap (fun entry => entry.2.uses), names name)
    (owner : String) : k'.actionGroup owner actions = k.actionGroup owner actions := by
  rw [Catalogue.actionGroup, Catalogue.actionGroup]
  have hactions : (actions.entries.flatMap fun entry => k'.action entry.1 entry.2 (some owner)) =
      actions.entries.flatMap fun entry => k.action entry.1 entry.2 (some owner) :=
    List.flatMap_congr fun entry hentry => h.action
      (fun name hm => hn name (List.mem_flatMap.2 ⟨entry, hentry, hm⟩)) entry.1 (some owner)
  rw [hactions]

/-- The included definitions are the same up to settling. -/
theorem includes (h : AgreeOn names k' k) {included : List String}
    (hn : ∀ name ∈ included, names name) :
    (k'.includes included).map (fun base => (base.1, base.2.settled)) =
      (k.includes included).map fun base => (base.1, base.2.settled) := by
  rw [Catalogue.includes, Catalogue.includes, List.map_filterMap, List.map_filterMap]
  refine List.filterMap_congr fun name hm => ?_
  have heq := congrArg (Option.map (Prod.mk name)) (entity?_congr h.definition? (hn name hm))
  rw [Option.map_map, Option.map_map] at heq ⊢
  exact heq

end AgreeOn

end Catalogue

/-! ### Enumerations and own elements of settled definitions -/

/-- A value that is `null` sets nothing. -/
theorem enumMembersOf_settled (isText : Bool) (members : EnumMembers) :
    enumMembersOf isText members.settled = enumMembersOf isText members := by
  rw [enumMembersOf, enumMembersOf, EnumMembers.settled, Table.entries_map, List.map_map]
  refine List.map_congr_left fun entry _ => ?_
  have hvalue : initializerOf isText (entry.2.filter Json.Value.isPresent) =
      initializerOf isText entry.2 := by
    rcases entry.2 with _ | value
    · rfl
    · cases value <;> rfl
  exact congrArg (EnumMember.mk entry.1) hvalue

theorem enumerationAs_settled (name : String) (enumeration : Enumeration) :
    enumerationAs name enumeration.settled = enumerationAs name enumeration := by
  rw [enumerationAs, enumerationAs]
  exact congrArg (Declaration.enumeration name) (enumMembersOf_settled _ _)

theorem inlineEnumOf_settled (owner : String) (entry : String × Element) :
    inlineEnumOf owner (entry.1, entry.2.settled) = inlineEnumOf owner entry := by
  obtain ⟨field, element⟩ := entry
  rw [inlineEnumOf, inlineEnumOf]
  show (element.members.map EnumMembers.settled).map _ = _
  rw [Option.map_map]
  refine Option.map_congr fun members _ => ?_
  exact congrArg (Declaration.enumeration _) (enumMembersOf_settled _ members)

theorem filterMap_inlineEnumOf_settled (owner : String) (entries : List (String × Element)) :
    (entries.map fun entry => (entry.1, entry.2.settled)).filterMap (inlineEnumOf owner) =
      entries.filterMap (inlineEnumOf owner) := by
  rw [List.filterMap_map]
  exact List.filterMap_congr fun entry _ => inlineEnumOf_settled owner entry

/-- The own elements of a settled entity are its settled own elements, if what it includes has the
same elements. -/
theorem ownElements_settled (e : Entity) {bases' bases : List (String × Entity)}
    (h : bases'.map (fun base => (base.1, base.2.settled)) =
      bases.map fun base => (base.1, base.2.settled)) :
    ownElements e.settled bases' =
      (ownElements e bases).map fun entry => (entry.1, entry.2.settled) := by
  have hinherited : (bases'.flatMap fun base => base.2.elements.keys) =
      bases.flatMap fun base => base.2.elements.keys := by
    have heq := congrArg (List.flatMap fun base => base.2.elements.keys) h
    simp only [List.flatMap_map, Entity.settled, Table.keys_map] at heq
    exact heq
  rw [ownElements, ownElements, hinherited, Entity.settled, Table.entries_map, List.filter_map]
  rfl

/-! ### Sketches of definitions and outlines -/

namespace Catalogue.AgreeOn

variable {names : String → Prop} {k' k : Catalogue}

theorem entity (h : AgreeOn names k' k) {e : Entity} (hn : ∀ name ∈ e.uses, names name)
    (separator name : String) : k'.entity separator name e.settled = k.entity separator name e := by
  have hbases : (k'.includes e.includes).map (fun base => (base.1, base.2.settled)) =
      (k.includes e.includes).map fun base => (base.1, base.2.settled) :=
    h.includes fun used hm => hn used (List.mem_append_left _ (List.mem_append_left _ hm))
  have hown := ownElements_settled e hbases
  have hmentions : (k'.includes e.includes).map (fun base => Mention.definition base.1) =
      (k.includes e.includes).map fun base => Mention.definition base.1 := by
    have heq := congrArg (List.map fun base => Mention.definition base.1) hbases
    rwa [List.map_map, List.map_map] at heq
  have huses : ∀ used ∈ (ownElements e (k.includes e.includes)).flatMap fun entry => entry.2.uses,
      names used := by
    intro used hm
    obtain ⟨entry, hentry, hused⟩ := List.mem_flatMap.1 hm
    exact hn used (List.mem_append_left _ (List.mem_append_right _
      (List.mem_flatMap.2 ⟨entry, List.mem_of_mem_filter hentry, hused⟩)))
  have hproperties := h.flatMap_elementProperties huses separator name
  have hactions : k'.actionGroup name e.actions = k.actionGroup name e.actions :=
    h.actionGroup (fun used hm => hn used (List.mem_append_right _ hm)) name
  show ((ownElements e.settled (k'.includes e.includes)).filterMap (inlineEnumOf name)).map
      enumerationSketch ++ .interface (identifier name)
        ((k'.includes e.includes).map fun base => Mention.definition base.1)
        ((ownElements e.settled (k'.includes e.includes)).flatMap
          (k'.elementProperties separator name)) :: k'.actionGroup name e.actions = _
  rw [hown, hmentions, hproperties, hactions, filterMap_inlineEnumOf_settled]
  rfl

theorem aliasType (h : AgreeOn names k' k) {body : AliasBody} (hn : ∀ name ∈ body.uses, names name)
    (separator name : String) :
    k'.aliasType separator name body.settled = k.aliasType separator name body := by
  cases body with
  | type typeName =>
    cases typeName with
    | none => rfl
    | some typeName => exact typeName_congr h.definition? (hn typeName List.mem_cons_self)
  | structured elements =>
    exact congrArg TypeSketch.object (h.flatMap_elementProperties hn separator name)

theorem typeAlias (h : AgreeOn names k' k) {a : Alias} (hn : ∀ name ∈ a.body.uses, names name)
    (separator name : String) :
    k'.typeAlias separator name a.settled = k.typeAlias separator name a := by
  have henums : aliasEnums name a.body.settled = aliasEnums name a.body := by
    cases a.body with
    | type typeName => rfl
    | structured elements => exact filterMap_inlineEnumOf_settled name elements.entries
  rw [Catalogue.typeAlias, Catalogue.typeAlias]
  show (aliasEnums name a.body.settled).map _ ++
    [DeclarationSketch.typeAlias _
      ((k'.aliasType separator name a.body.settled).arrayIf a.many)] = _
  rw [henums, h.aliasType hn]

/-- Agreeing catalogues give a definition, settled or not, the same declarations. -/
theorem definition (h : AgreeOn names k' k) {d : Definition} (hn : ∀ name ∈ d.uses, names name)
    (separator name : String) :
    k'.definition separator name d.settled = k.definition separator name d := by
  cases d with
  | entity e => exact h.entity hn separator name
  | typeAlias a => exact h.typeAlias hn separator name
  | enumeration e => exact congrArg (fun d => [enumerationSketch d]) (enumerationAs_settled _ e)
  | action a => exact h.action hn name none

end Catalogue.AgreeOn

/-- The outline with its definitions settled. -/
def Outline.settled (o : Outline) : Outline where
  key := o.key
  aliases := o.aliases.map fun entry => (entry.1, entry.2.settled)
  enumerations := o.enumerations.map fun entry => (entry.1, entry.2.settled)
  entities := o.entities.map fun entry => (entry.1, entry.2.settled)
  actions := o.actions

theorem Outline.emission_settled (o : Outline) :
    o.settled.emission = o.emission.map fun entry => (entry.1, entry.2.settled) := by
  simp only [emission, settled, List.map_append, List.map_map]
  rfl

theorem Outline.namesEnum_settled (o : Outline) (value : String → String) :
    o.settled.namesEnum value = o.namesEnum value := by
  rw [namesEnum, namesEnum, settled, List.map_map]
  rfl

/-- Agreeing catalogues give an outline, settled or not, the same declarations. -/
theorem Catalogue.AgreeOn.outline {names : String → Prop} {k' k : Catalogue}
    (h : AgreeOn names k' k) {o : Outline}
    (hn : ∀ d ∈ o.emission, ∀ name ∈ d.2.uses, names name) (separator : String) :
    k'.outline separator o.settled = k.outline separator o := by
  have hdefinitions : (o.settled.emission.flatMap fun d => k'.definition separator d.1 d.2) =
      o.emission.flatMap fun d => k.definition separator d.1 d.2 := by
    rw [o.emission_settled, List.flatMap_map]
    exact List.flatMap_congr fun d hd => h.definition (hn d hd) separator d.1
  rw [Catalogue.outline, Catalogue.outline, hdefinitions, Outline.entityEnum, Outline.sanitizedEnum,
    o.namesEnum_settled, o.namesEnum_settled]
  rfl

/-! ### Files of one sketch -/

namespace Resolver

variable {r' r : Resolver}

theorem nameIn_congr {m : Mention} (hlocate : r'.locate m = r.locate m)
    (hnamespace : r'.namespaceName = r.namespaceName) (c : Collected) :
    r'.nameIn c m = r.nameIn c m := by
  simp only [nameIn, hlocate, hnamespace]

/-- Resolvers that locate alike what is mentioned collect alike. -/
theorem after_congr (hnamespace : r'.namespaceName = r.namespaceName)
    (hlocal : r'.localNames = r.localNames) {events : List Event}
    (hlocate : ∀ m, .mention m ∈ events → r'.locate m = r.locate m) (c : Collected) :
    r'.after c events = r.after c events := by
  induction events generalizing c with
  | nil => rfl
  | cons event rest ih =>
    have hstep : r'.record c event = r.record c event := by
      cases event with
      | warning w => rfl
      | mention m =>
        have hm := hlocate m List.mem_cons_self
        have hlinked : r'.Linked c m ↔ r.Linked c m := by
          rw [Linked, Linked, hm, hnamespace]
        have hnew : r'.newImport c m = r.newImport c m := by
          simp only [newImport, chooseLocalName, hm, hlocal]
        rw [record, record, hnew]
        exact if_congr hlinked rfl rfl
    rw [after_cons, after_cons, hstep]
    exact ih (fun m hm => hlocate m (List.mem_cons_of_mem _ hm)) _

end Resolver

/-- **Outlines of one scope with the same sketch and the same local identifiers have the same file**
if what they mention is found in the same places. -/
theorem fileOf_agree {index' index : Index} {options : Options} {o' o : Outline}
    (hkey : o'.key = o.key)
    (hlocal : o'.localIdentifiers options.interfacePrefix =
      o.localIdentifiers options.interfacePrefix)
    (hsketch : index'.catalogue.outline options.foreignKeySeparator o' =
      index.catalogue.outline options.foreignKeySeparator o)
    (hlocate : ∀ m, .mention m ∈ outlineEvents index options o →
      (resolverFor index' options o').locate m = (resolverFor index options o).locate m) :
    fileOf index' options o' = fileOf index options o := by
  have hname : o'.name = o.name := congrArg ScopeKey.name hkey
  have hcollected : collectedFor index' options o' = collectedFor index options o := by
    rw [collectedFor, collectedFor, outlineEvents, hsketch]
    exact Resolver.after_congr hname hlocal hlocate .none
  have hnamed := ((resolverFor index options o).draftsDeclarations_outlineDeclarations options
    o).congr fun m hm => Resolver.nameIn_congr (hlocate m hm) hname (collectedFor index options o)
  rw [fileOf_eq, fileOf_eq, hcollected, hsketch, hname]
  exact congrArg (fun declarations => (SourceFile.mk _ _ _ declarations, _)) hnamed

end SchemaTypings.Generation
