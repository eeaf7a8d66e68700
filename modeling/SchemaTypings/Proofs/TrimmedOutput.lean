import SchemaTypings.Proofs.SettledOutput
import SchemaTypings.Proofs.Trimming

/-!
# Output of trimmed schemas

Every part of a trimmed schema is read as that part of the schema is.  The only difference is in
enumerations, where a value that was `null` may be missing; so definitions are read the same up to
settling, and with them the scope table of the schema.  Nothing that is generated shows more.
-/

namespace SchemaTypings.Schema

open SchemaTypings.Json

namespace Trimming

variable (v : Trimming) {place : Place} {inside : String → Value → Value}

/-! ### Types, keys and enumerations -/

theorem ofValue?_typePath (value : Value) :
    TypeRef.ofValue? (v.typePath value) = TypeRef.ofValue? value := by
  cases value with
  | object ms =>
    have href : textList (v.members .typePath (fun _ => id) ms) "ref" = textList ms "ref" :=
      textList_members (by decide) rfl ms
    show TypeRef.ofValue? (.object _) = _
    rw [TypeRef.ofValue?, TypeRef.ofValue?, href]
  | _ => rfl

theorem ownType?_members (hkey : "type" ∈ place.keys) (hinside : inside "type" = v.typePath)
    (ms : Members) : ownType? (v.members place inside ms) = ownType? ms :=
  bind_get?_members hkey rfl (fun value => by rw [hinside]; exact v.ofValue?_typePath value) ms

theorem ofValue?_keyPath (value : Value) :
    KeyPath.ofValue? (v.keyPath value) = KeyPath.ofValue? value := by
  cases value with
  | object ms =>
    have href : textList (v.members .keyPath (fun _ => id) ms) "ref" = textList ms "ref" :=
      textList_members (by decide) rfl ms
    simp only [KeyPath.ofValue?, keyPath, Value.mapMembers, Value.members?, href]
  | _ => rfl

theorem keyPaths_members (hkey : "keys" ∈ place.keys)
    (hinside : inside "keys" = Value.mapItems (List.map v.keyPath)) (ms : Members) :
    keyPaths (v.members place inside ms) = keyPaths ms := by
  have harray : Members.array? (v.members place inside ms) "keys" =
      (ms.array? "keys").map (List.map v.keyPath) := by
    rw [Members.array?, Members.array?, Option.map_bind]
    refine bind_get?_members hkey rfl (fun value => ?_) ms
    rw [hinside]
    exact Value.items?_mapItems _ value
  rw [keyPaths, keyPaths, harray]
  cases ms.array? "keys" with
  | none => rfl
  | some items =>
    show (items.map v.keyPath).filterMap _ = items.filterMap _
    rw [List.filterMap_map]
    exact List.filterMap_congr fun value _ => v.ofValue?_keyPath value

/-- The value of a member of an enumeration is kept unless it is `null`. -/
theorem filter_val_enumMember (raw : Value) :
    ((v.enumMember raw).member? "val").filter Value.isPresent =
      (raw.member? "val").filter Value.isPresent := by
  cases raw with
  | object ms =>
    show (Members.get? (v.members .enumMember (fun _ => id) ms) "val").filter _ =
      (Members.get? ms "val").filter _
    have hcases : Members.get? (v.members .enumMember (fun _ => id) ms) "val" = _ ∨ _ :=
      get?_members_cases (by decide) ms
    rcases hcases with h | ⟨hms, h⟩
    · rw [h, Option.map_id]
      rfl
    · rw [h, hms]
      rfl
  | _ => rfl

theorem settled_enumMembers (hkey : "enum" ∈ place.keys)
    (hinside : inside "enum" = entries v.enumMember) (ms : Members) :
    (enumMembers (v.members place inside ms)).settled = (enumMembers ms).settled := by
  rw [enumMembers, enumMembers, object?_members hkey hinside]
  cases ms.object? "enum" with
  | none => rfl
  | some raws =>
    simp only [Option.map_some, EnumMembers.settled, Table.map_ofEntries, List.map_map]
    refine congrArg Table.ofEntries (List.map_congr_left fun entry _ => ?_)
    exact congrArg (Prod.mk entry.1) (v.filter_val_enumMember entry.2)

theorem isEmpty_enumMembers (hkey : "enum" ∈ place.keys)
    (hinside : inside "enum" = entries v.enumMember) (ms : Members) :
    (enumMembers (v.members place inside ms)).isEmpty = (enumMembers ms).isEmpty := by
  have h := congrArg Table.isEmpty (v.settled_enumMembers hkey hinside ms)
  rwa [EnumMembers.settled, EnumMembers.settled, Table.isEmpty_map, Table.isEmpty_map] at h

/-! ### Elements -/

theorem object?_items_element (ms : Members) :
    Members.object? (v.members .element v.insideElement ms) "items" =
      (ms.object? "items").map (v.members .items v.insideItems) :=
  object?_members (by decide) rfl ms

theorem elementType?_members (ms : Members) :
    elementType? (v.members .element v.insideElement ms) = elementType? ms := by
  rw [elementType?, elementType?, v.ownType?_members (by decide) rfl, object?_items_element,
    Option.bind_map]
  have hitems : ownType? ∘ v.members .items v.insideItems = ownType? :=
    funext (v.ownType?_members (by decide) rfl)
  rw [hitems]

theorem hasManyBound_members (ms : Members) :
    hasManyBound (v.members .element v.insideElement ms) = hasManyBound ms := by
  have hcardinality : Members.object? (v.members .element v.insideElement ms) "cardinality" =
      (ms.object? "cardinality").map (v.members .cardinality fun _ => id) :=
    object?_members (by decide) rfl ms
  rw [hasManyBound, hasManyBound, hcardinality]
  cases ms.object? "cardinality" with
  | none => rfl
  | some bounds => exact test_members (by decide) rfl (fun _ => rfl) bounds

theorem isNullable_members (field : String) (ms : Members) :
    isNullable field (v.members .element v.insideElement ms) = isNullable field ms := by
  rw [isNullable, isNullable, isSet_members (by decide) rfl, isSet_members (by decide) rfl,
    isSet_members (by decide) rfl, has_members (by decide) fun _ => rfl]

theorem isTyped_members (ms : Members) :
    isTyped (v.members .element v.insideElement ms) = isTyped ms := by
  rw [isTyped, isTyped, v.elementType?_members, v.object?_items_element, Option.isSome_map,
    has_members (by decide) fun _ => rfl, isSet_members (by decide) rfl]

theorem text?_target_element (ms : Members) :
    Members.text? (v.members .element v.insideElement ms) "target" = ms.text? "target" :=
  text?_members (by decide) (fun _ => rfl) ms

theorem settled_elementOfMembers (field : String) (ms : Members) :
    (Element.ofMembers field (v.members .element v.insideElement ms)).settled =
      (Element.ofMembers field ms).settled := by
  have hkeys : keyPaths (v.members .element v.insideElement ms) = keyPaths ms :=
    v.keyPaths_members (by decide) rfl ms
  have hsettled : (enumMembers (v.members .element v.insideElement ms)).settled =
      (enumMembers ms).settled := v.settled_enumMembers (by decide) rfl ms
  have hempty : (enumMembers (v.members .element v.insideElement ms)).isEmpty =
      (enumMembers ms).isEmpty := v.isEmpty_enumMembers (by decide) rfl ms
  simp only [Element.ofMembers, Element.settled, v.elementType?_members, v.text?_target_element,
    v.object?_items_element, Option.isSome_map, v.hasManyBound_members, v.isNullable_members, hkeys,
    hempty, apply_ite (Option.map EnumMembers.settled), Option.map_none, Option.map_some, hsettled]

/-- An element that is read is read the same up to settling. -/
theorem readElement_element (owner field : String) {raw : Value} (h : isRead raw = true) :
    (readElement owner field (v.element raw)).map (Option.map Element.settled) =
      (readElement owner field raw).map (Option.map Element.settled) := by
  cases raw with
  | object ms =>
    have hlocalized : isLocalizedElement (v.members .element v.insideElement ms) =
        isLocalizedElement ms := by
      rw [isLocalizedElement, isLocalizedElement, v.text?_target_element]
    have hread : isLocalizedElement ms = false := by simpa [isRead] using h
    show (readElement owner field (.object _)).map _ = _
    rw [readElement, readElement, hlocalized, hread, v.isTyped_members]
    cases isTyped ms with
    | true => exact congrArg (fun e => Except.ok (some e)) (v.settled_elementOfMembers field ms)
    | false => rfl
  | _ => rfl

/-- An element that is not read makes nothing. -/
theorem readElement_of_not_isRead (owner field : String) {raw : Value} (h : isRead raw = false) :
    readElement owner field raw = .ok none := by
  cases raw with
  | object ms =>
    have hlocalized : isLocalizedElement ms = true := by simpa [isRead] using h
    rw [readElement, if_pos hlocalized]
  | _ => cases h

/-- Elements are read the same up to settling wherever they are kept. -/
theorem readElements_elements (owner : String) {ms' ms : Members}
    (h : ms'.get? "elements" = (ms.get? "elements").map v.elements) :
    (readElements owner ms').map (Table.map Element.settled) =
      (readElements owner ms).map (Table.map Element.settled) := by
  rw [readElements, readElements, h]
  cases ms.get? "elements" with
  | none => rfl
  | some raw =>
    cases raw with
    | object raws =>
      exact Table.map_collect_congr Element.settled
        (fun entry _ hread => v.readElement_element owner entry.1 hread)
        fun entry _ hread => readElement_of_not_isRead owner entry.1 hread
    | _ => rfl

/-! ### Actions -/

theorem operandOfMembers (ms : Members) :
    Operand.ofMembers (v.members .operand v.insideOperand ms) = Operand.ofMembers ms := by
  have hitems : Members.object? (v.members .operand v.insideOperand ms) "items" =
      (ms.object? "items").map (v.members .items v.insideItems) :=
    object?_members (by decide) rfl ms
  rw [Operand.ofMembers, Operand.ofMembers, hitems, v.ownType?_members (by decide) rfl]
  cases ms.object? "items" with
  | none => rfl
  | some items =>
    show Operand.mk (ownType? (v.members .items v.insideItems items)) true = _
    rw [v.ownType?_members (by decide) rfl]

theorem readParameter_operand (owner name : String) (raw : Value) :
    readParameter owner name (v.operand raw) = readParameter owner name raw := by
  cases raw with
  | object ms =>
    show readParameter owner name (.object _) = _
    rw [readParameter, readParameter, v.operandOfMembers]
  | _ => rfl

/-- An action is read the same wherever its parameters and its result are read. -/
theorem readAction_members (hparams : "params" ∈ place.keys) (hreturns : "returns" ∈ place.keys)
    (hentries : inside "params" = entries v.operand) (hoperand : inside "returns" = v.operand)
    (name : String) (kind : ActionKind) (ms : Members) :
    readAction name kind (v.members place inside ms) = readAction name kind ms := by
  have hcollect : Table.collect (readParameter name)
      ((Members.object? (v.members place inside ms) "params").getD []) =
        Table.collect (readParameter name) ((ms.object? "params").getD []) := by
    rw [object?_members hparams hentries]
    cases ms.object? "params" with
    | none => rfl
    | some raws =>
      have h : Table.collect (readParameter name)
          ((raws.filter fun _ => true).map fun entry => (entry.1, v.operand entry.2)) =
            Table.collect (readParameter name) raws :=
        Table.collect_change (fun entry _ _ => v.readParameter_operand name entry.1 entry.2)
          fun _ _ hdropped => by cases hdropped
      simpa using h
  have hresult : (Members.object? (v.members place inside ms) "returns").map Operand.ofMembers =
      (ms.object? "returns").map Operand.ofMembers := by
    rw [object?_members hreturns hoperand, Option.map_map]
    exact Option.map_congr fun raw _ => v.operandOfMembers raw
  rw [readAction, readAction, hcollect, hresult]

/-- No definition of kind `type` is an operation. -/
theorem actionKind?_ofType (ms : Members) : (Shape.ofType ms).actionKind? = none := by
  simp only [Shape.ofType]
  repeat' split
  all_goals rfl

/-- Whether a shape is that of an operation is up to the kind. -/
theorem actionKind?_congr {ms' ms : Members} (h : ms'.text? "kind" = ms.text? "kind") :
    (Shape.ofMembers ms').actionKind? = (Shape.ofMembers ms).actionKind? := by
  rw [Shape.ofMembers, Shape.ofMembers, h]
  split
  case h_5 => rw [actionKind?_ofType, actionKind?_ofType]
  all_goals rfl

theorem readBoundAction_boundAction (owner name : String) (raw : Value) :
    readBoundAction owner name (v.boundAction raw) = readBoundAction owner name raw := by
  cases raw with
  | object ms =>
    have hkind : (Shape.ofMembers (v.members .boundAction v.insideAction ms)).actionKind? =
        (Shape.ofMembers ms).actionKind? :=
      actionKind?_congr (text?_members (by decide) (fun _ => rfl) ms)
    show readBoundAction owner name (.object _) = _
    rw [readBoundAction, readBoundAction, hkind]
    cases (Shape.ofMembers ms).actionKind? with
    | none => rfl
    | some kind =>
      have haction : readAction (owner ++ "." ++ name) kind
          (v.members .boundAction v.insideAction ms) = readAction (owner ++ "." ++ name) kind ms :=
        v.readAction_members (by decide) (by decide) rfl rfl _ kind ms
      exact congrArg (Except.map some) haction
  | _ => rfl

/-- A bound action that is no operation makes nothing. -/
theorem readBoundAction_of_not_isOperation (owner name : String) {raw : Value}
    (h : isOperation raw = false) : readBoundAction owner name raw = .ok none := by
  cases raw with
  | object ms =>
    have hkind : (Shape.ofMembers ms).actionKind? = none := by
      simpa [isOperation, Shape.ofValue] using h
    rw [readBoundAction, hkind]
  | _ => rfl

theorem readBoundActions_members (hkey : "actions" ∈ place.keys)
    (hinside : inside "actions" = v.boundActions) (owner : String) (ms : Members) :
    readBoundActions owner (v.members place inside ms) = readBoundActions owner ms := by
  rw [readBoundActions, readBoundActions, object?_members hkey hinside]
  cases ms.object? "actions" with
  | none => rfl
  | some raws =>
    exact Table.collect_change
      (fun entry _ _ => v.readBoundAction_boundAction owner entry.1 entry.2)
      fun entry _ hread => readBoundAction_of_not_isOperation owner entry.1 hread

/-! ### Shapes of definitions -/

theorem mem_keys_definition (kind : String) :
    "kind" ∈ (Place.definition kind).keys ∧ "type" ∈ (Place.definition kind).keys := by
  unfold Place.keys
  split <;> simp_all

theorem object?_items_definition (ms : Members) :
    Members.object? (v.members (.definition "type") v.insideDefinition ms) "items" =
      (ms.object? "items").map (v.members .arrayItems v.insideArrayItems) :=
  object?_members (by decide) rfl ms

theorem itemsShape_members (ms : Members) :
    ItemsShape.ofMembers (v.members (.definition "type") v.insideDefinition ms) =
      ItemsShape.ofMembers ms := by
  rw [ItemsShape.ofMembers, ItemsShape.ofMembers, v.object?_items_definition]
  cases ms.object? "items" with
  | none => rfl
  | some items =>
    have htype : Members.text? (v.members .arrayItems v.insideArrayItems items) "type" =
        items.text? "type" := text?_members (by decide) (fun _ => rfl) items
    have helements : Members.has (v.members .arrayItems v.insideArrayItems items) "elements" =
        items.has "elements" :=
      has_members (by decide) (fun value => Value.isPresent_mapMembers _ value) items
    simp only [Option.map_some, htype, helements]

theorem shapeOfType_members (ms : Members) :
    Shape.ofType (v.members (.definition "type") v.insideDefinition ms) = Shape.ofType ms := by
  have htype : Members.text? (v.members (.definition "type") v.insideDefinition ms) "type" =
      ms.text? "type" := text?_members (by decide) (fun _ => rfl) ms
  have hpresent (key : String) (hkey : key ∈ ["enum", "elements", "items"]) :
      Members.has (v.members (.definition "type") v.insideDefinition ms) key = ms.has key := by
    simp only [List.mem_cons, List.not_mem_nil, or_false] at hkey
    rcases hkey with rfl | rfl | rfl
    all_goals exact has_members (by decide) (fun value => Value.isPresent_mapMembers _ value) ms
  simp only [Shape.ofType, htype, hpresent "enum" (by decide), hpresent "elements" (by decide),
    hpresent "items" (by decide), v.itemsShape_members]

theorem shapeOfMembers_members {kind : String} {ms : Members} (h : ms.text? "kind" = some kind) :
    Shape.ofMembers (v.members (.definition kind) v.insideDefinition ms) = Shape.ofMembers ms := by
  have hkind : Members.text? (v.members (.definition kind) v.insideDefinition ms) "kind" =
      ms.text? "kind" := text?_members (mem_keys_definition kind).1 (fun _ => rfl) ms
  have htype (hk : kind = "type") :
      Shape.ofType (v.members (.definition kind) v.insideDefinition ms) = Shape.ofType ms := by
    subst hk
    exact v.shapeOfType_members ms
  rw [Shape.ofMembers, Shape.ofMembers, hkind, h]
  -- the kind decides alone, except for types
  split
  case h_5 hk => exact htype (Option.some.inj hk)
  all_goals rfl

/-! ### Definitions -/

/-- A definition with elements is read the same up to settling if its elements are kept. -/
theorem readEntity_members (hactions : "actions" ∈ place.keys) (hincludes : "includes" ∈ place.keys)
    (hbound : inside "actions" = v.boundActions) (hid : inside "includes" = id) {ms : Members}
    (helements : Members.get? (v.members place inside ms) "elements" =
      (ms.get? "elements").map v.elements) (name : String) (kind : EntityKind) :
    (readEntity name kind (v.members place inside ms)).map Entity.settled =
      (readEntity name kind ms).map Entity.settled := by
  have hcommute (ms : Members) : (readEntity name kind ms).map Entity.settled =
      ((readElements name ms).map (Table.map Element.settled)).bind fun elements =>
        (readBoundActions name ms).map fun actions =>
          { kind, elements, actions, includes := textList ms "includes" } := by
    rw [readEntity]
    cases readElements name ms with
    | error fault => rfl
    | ok elements => cases readBoundActions name ms <;> rfl
  rw [hcommute, hcommute, v.readElements_elements name helements,
    v.readBoundActions_members hactions hbound, textList_members hincludes hid]

/-- Structured items are an object that has elements. -/
theorem exists_items_of_structured {ms : Members} (h : ItemsShape.ofMembers ms = .structured) :
    ∃ items, ms.object? "items" = some items ∧ items.has "elements" = true := by
  rw [ItemsShape.ofMembers] at h
  cases hitems : ms.object? "items" with
  | none =>
    rw [hitems] at h
    cases h
  | some items =>
    simp only [hitems] at h
    refine ⟨items, rfl, ?_⟩
    by_contra hno
    rw [if_neg hno] at h
    split at h <;> cases h

theorem readArrayBody_members (name : String) (ms : Members) :
    (readArrayBody name (ItemsShape.ofMembers ms)
        (v.members (.definition "type") v.insideDefinition ms)).map AliasBody.settled =
      (readArrayBody name (ItemsShape.ofMembers ms) ms).map AliasBody.settled := by
  have hitems := v.object?_items_definition ms
  cases hshape : ItemsShape.ofMembers ms with
  | untyped => rfl
  | typed =>
    have htype : Members.text? ((Members.object?
        (v.members (.definition "type") v.insideDefinition ms) "items").getD []) "type" =
          Members.text? ((ms.object? "items").getD []) "type" := by
      rw [hitems]
      cases ms.object? "items" with
      | none => rfl
      | some items => exact text?_members (by decide) (fun _ => rfl) items
    rw [readArrayBody.eq_def, readArrayBody.eq_def]
    exact congrArg (fun type => Except.ok (AliasBody.type type)) htype
  | structured =>
    obtain ⟨items, hfound, hhas⟩ := exists_items_of_structured hshape
    have helements : Members.get? (v.members .arrayItems v.insideArrayItems items) "elements" =
        (items.get? "elements").map v.elements := get?_members_of_has (by decide) hhas
    have hcommute (read : Except Fault (Table Element)) :
        (read.map AliasBody.structured).map AliasBody.settled =
          (read.map (Table.map Element.settled)).map AliasBody.structured := by
      cases read <;> rfl
    rw [readArrayBody.eq_def, readArrayBody.eq_def, hitems, hfound]
    show Except.map _ ((readElements name (v.members .arrayItems v.insideArrayItems items)).map _) =
      Except.map _ ((readElements name items).map _)
    rw [hcommute, hcommute, v.readElements_elements name helements]

theorem settled_enumerationOf (ms : Members) :
    (enumerationOf (v.members (.definition "type") v.insideDefinition ms)).settled =
      (enumerationOf ms).settled := by
  have htype : Members.text? (v.members (.definition "type") v.insideDefinition ms) "type" =
      ms.text? "type" := text?_members (by decide) (fun _ => rfl) ms
  have hsettled : (enumMembers (v.members (.definition "type") v.insideDefinition ms)).settled =
      (enumMembers ms).settled := v.settled_enumMembers (by decide) rfl ms
  have hempty : (enumMembers (v.members (.definition "type") v.insideDefinition ms)).isEmpty =
      (enumMembers ms).isEmpty := v.isEmpty_enumMembers (by decide) rfl ms
  simp only [enumerationOf, htype, hempty]
  split
  · rfl
  · simp only [Definition.settled, Enumeration.settled, hsettled]

/-- The elements of an entity are kept even when they are `null`. -/
theorem get?_elements_entity (ms : Members) :
    Members.get? (v.members (.definition "entity") v.insideDefinition ms) "elements" =
      (ms.get? "elements").map v.elements := by
  have hkeeps (value : Value) : v.keeps (.definition "entity") "elements" value = true :=
    v.keeps_of_matters (by simp [Place.matters, Place.keys])
  rw [get?_members]
  cases ms.get? "elements" with
  | none => rfl
  | some value =>
    rw [Option.filter_some, if_pos (hkeeps value)]
    rfl

theorem readShape_entity (name : String) (kind : EntityKind) {kindText : String}
    (hactions : "actions" ∈ (Place.definition kindText).keys)
    (hincludes : "includes" ∈ (Place.definition kindText).keys) {ms : Members}
    (helements : Members.get? (v.members (.definition kindText) v.insideDefinition ms) "elements" =
      (ms.get? "elements").map v.elements) :
    ((readEntity name kind (v.members (.definition kindText) v.insideDefinition ms)).map
        fun e => some (Definition.entity e)).map (Option.map Definition.settled) =
      ((readEntity name kind ms).map fun e => some (Definition.entity e)).map
        (Option.map Definition.settled) := by
  have hcommute (read : Except Fault Entity) :
      (read.map fun e => some (Definition.entity e)).map (Option.map Definition.settled) =
        (read.map Entity.settled).map fun e => some (Definition.entity e) := by
    cases read <;> rfl
  rw [hcommute, hcommute, v.readEntity_members hactions hincludes rfl rfl helements]

/-- A definition of kind `type` is read the same up to settling. -/
theorem readShape_ofType (name : String) (ms : Members) :
    (readShape name (v.members (.definition "type") v.insideDefinition ms) (Shape.ofType ms)).map
        (Option.map Definition.settled) =
      (readShape name ms (Shape.ofType ms)).map (Option.map Definition.settled) := by
  have htype : Members.text? (v.members (.definition "type") v.insideDefinition ms) "type" =
      ms.text? "type" := text?_members (by decide) (fun _ => rfl) ms
  simp only [Shape.ofType]
  split
  · rw [readShape.eq_def, readShape.eq_def]
    simp only [htype]
  · split
    · have hcommute (read : Except Fault AliasBody) :
          (read.map fun body => some (Definition.typeAlias ⟨body, true⟩)).map
              (Option.map Definition.settled) =
            (read.map AliasBody.settled).map fun body =>
              some (Definition.typeAlias ⟨body, true⟩) := by
        cases read <;> rfl
      rw [readShape.eq_def, readShape.eq_def]
      simp only [hcommute, v.readArrayBody_members]
    · split
      · next h =>
        have hhas : ms.has "elements" = true := (Bool.and_eq_true_iff.1 h).2
        exact v.readShape_entity name .structuredType (by decide) (by decide)
          (get?_members_of_has (by decide) hhas)
      · split
        · exact congrArg (fun d => Except.ok (some d)) (v.settled_enumerationOf ms)
        · rfl

theorem readShape_members {kind : String} {ms : Members} (h : ms.text? "kind" = some kind)
    (name : String) :
    (readShape name (v.members (.definition kind) v.insideDefinition ms) (Shape.ofMembers ms)).map
        (Option.map Definition.settled) =
      (readShape name ms (Shape.ofMembers ms)).map (Option.map Definition.settled) := by
  have haction (kind : ActionKind) (kindText : String)
      (hparams : "params" ∈ (Place.definition kindText).keys)
      (hreturns : "returns" ∈ (Place.definition kindText).keys) :
      readAction name kind (v.members (.definition kindText) v.insideDefinition ms) =
        readAction name kind ms :=
    v.readAction_members hparams hreturns rfl rfl name kind ms
  rw [Shape.ofMembers, h]
  split
  case h_1 => rfl
  case h_2 hk =>
    obtain rfl := Option.some.inj hk
    exact v.readShape_entity name .entity (by decide) (by decide) (v.get?_elements_entity ms)
  case h_3 hk =>
    obtain rfl := Option.some.inj hk
    rw [readShape.eq_def, readShape.eq_def]
    simp only [haction .action "action" (by decide) (by decide)]
  case h_4 hk =>
    obtain rfl := Option.some.inj hk
    rw [readShape.eq_def, readShape.eq_def]
    simp only [haction .function "function" (by decide) (by decide)]
  case h_5 hk =>
    obtain rfl := Option.some.inj hk
    exact v.readShape_ofType name ms
  case h_6 => rfl

/-! ### Schemas -/

/-- Whether a definition is excluded is read off its name and its type alone. -/
theorem isExcluded_definition (name : String) (raw : Value) :
    isExcluded name (v.definition raw) = isExcluded name raw := by
  cases raw with
  | object ms =>
    have htype : Members.text? (v.members
        (.definition ((Members.text? ms "kind").getD "")) v.insideDefinition ms) "type" =
          Members.text? ms "type" :=
      text?_members (mem_keys_definition _).2 (fun _ => rfl) ms
    show (isLocalization name || Members.text? (v.members _ _ ms) "type" == _) = _
    rw [htype]
    rfl
  | _ => rfl

/-- A supported definition has a kind. -/
theorem exists_kind_of_isSupported {name : String} {raw : Value}
    (h : isSupported name raw = true) :
    ∃ ms kind, raw = .object ms ∧ Members.text? ms "kind" = some kind := by
  have hshape : Shape.ofValue raw ≠ .unsupported := by
    simpa [isSupported] using (Bool.and_eq_true_iff.1 h).2
  cases raw with
  | object ms =>
    cases hkind : Members.text? ms "kind" with
    | none =>
      refine absurd ?_ hshape
      rw [Shape.ofValue, Shape.ofMembers, hkind]
    | some kind => exact ⟨ms, kind, rfl, hkind⟩
  | _ => exact absurd rfl hshape

theorem definition_object {ms : Members} {kind : String} (h : ms.text? "kind" = some kind) :
    v.definition (.object ms) =
      .object (v.members (.definition kind) v.insideDefinition ms) := by
  show Value.object (v.members (.definition ((ms.text? "kind").getD "")) _ ms) = _
  rw [h]
  rfl

theorem shapeOfValue_definition {name : String} {raw : Value} (h : isSupported name raw = true) :
    Shape.ofValue (v.definition raw) = Shape.ofValue raw := by
  obtain ⟨ms, kind, rfl, hkind⟩ := exists_kind_of_isSupported h
  rw [v.definition_object hkind]
  exact v.shapeOfMembers_members hkind

/-- A supported definition is read the same up to settling. -/
theorem readDefinition_definition {name : String} {raw : Value} (h : isSupported name raw = true) :
    (readDefinition name (v.definition raw)).map (Option.map Definition.settled) =
      (readDefinition name raw).map (Option.map Definition.settled) := by
  have hexcluded := v.isExcluded_definition name raw
  obtain ⟨ms, kind, rfl, hkind⟩ := exists_kind_of_isSupported h
  rw [v.definition_object hkind] at hexcluded ⊢
  rw [readDefinition, readDefinition, hexcluded]
  split
  · rfl
  · show (readShape name _ (Shape.ofMembers (v.members _ _ ms))).map _ = _
    rw [v.shapeOfMembers_members hkind]
    exact v.readShape_members hkind name

/-- An unsupported definition makes nothing. -/
theorem readDefinition_of_not_isSupported {name : String} {raw : Value}
    (h : isSupported name raw = false) : readDefinition name raw = .ok none := by
  cases raw with
  | object ms =>
    rw [readDefinition]
    split
    · rfl
    · next hexcluded =>
      have hshape : Shape.ofMembers ms = .unsupported := by
        simpa [isSupported, hexcluded, Shape.ofValue] using h
      show readShape name ms (Shape.ofMembers ms) = _
      rw [hshape]
      rfl
  | _ => exact ite_self _

/-- No service is taken away. -/
theorem serviceNames_definitions (raws : Members) :
    serviceNames (v.definitions raws) = serviceNames raws := by
  rw [serviceNames, serviceNames, definitions, List.filter_map, List.map_map, List.filter_filter]
  refine congrArg (List.map Prod.fst) (List.filter_congr fun entry _ => ?_)
  show ((decide (Shape.ofValue (v.definition entry.2) = .service) &&
    !isExcluded entry.1 (v.definition entry.2)) && isSupported entry.1 entry.2) = _
  cases h : isSupported entry.1 entry.2 with
  | true => rw [v.shapeOfValue_definition h, v.isExcluded_definition, Bool.and_true]
  | false =>
    -- a service that is not excluded would be supported
    rw [Bool.and_false, eq_comm, Bool.eq_false_iff]
    intro hservice
    obtain ⟨hshape, hincluded⟩ := Bool.and_eq_true_iff.1 hservice
    rw [isSupported, hincluded, of_decide_eq_true hshape] at h
    cases h

theorem rawDefinitions_schema (schema : Value) :
    rawDefinitions (v.schema schema) = (rawDefinitions schema).map v.definitions := by
  cases schema with
  | object ms =>
    have hroot : Members.object? (v.members .root v.insideRoot ms) "definitions" =
        (Members.object? ms "definitions").map v.definitions :=
      object?_members (by decide) rfl ms
    show rawDefinitions (.object _) = _
    rw [rawDefinitions, rawDefinitions, hroot]
    cases Members.object? ms "definitions" <;> rfl
  | _ => rfl

/-- **A trimmed schema is read into the same table up to settling, or fails in the same way.** -/
theorem ofSchema_schema (schema : Value) :
    (ScopeTable.ofSchema (v.schema schema)).map ScopeTable.settled =
      (ScopeTable.ofSchema schema).map ScopeTable.settled := by
  have hcommute (names : List String) (read : Except Fault (Table Definition)) :
      (read.map fun read => (ScopeTable.withServices names).placeAll read.entries).map
          ScopeTable.settled =
        (read.map (Table.map Definition.settled)).map fun read =>
          (ScopeTable.withServices names).placeAll read.entries := by
    cases read with
    | error fault => rfl
    | ok read =>
      have hplace := (ScopeTable.withServices names).placeAll_settled read.entries
      rw [ScopeTable.settled_withServices] at hplace
      exact congrArg Except.ok hplace.symm
  rw [ScopeTable.ofSchema, ScopeTable.ofSchema, v.rawDefinitions_schema]
  cases rawDefinitions schema with
  | error fault => rfl
  | ok raws =>
    have hread : (Table.collect readDefinition (v.definitions raws)).map
          (Table.map Definition.settled) =
        (Table.collect readDefinition raws).map (Table.map Definition.settled) :=
      Table.map_collect_congr Definition.settled
        (fun _ _ hsupported => v.readDefinition_definition hsupported)
        fun _ _ hdropped => readDefinition_of_not_isSupported hdropped
    show Except.map _ (Except.map _ (Table.collect readDefinition (v.definitions raws))) =
      Except.map _ (Except.map _ (Table.collect readDefinition raws))
    rw [hcommute, hcommute, hread, v.serviceNames_definitions]

end Trimming

end SchemaTypings.Schema

namespace SchemaTypings.Generation

open SchemaTypings.Json SchemaTypings.Schema

/-- **Only what is read matters**: whatever a trimming takes away, the schema has the same outcome
with all options, the same texts and warnings or the same fault. -/
theorem typings_trimmed (v : Trimming) (options : Options) (schema : Value) :
    typings options (v.schema schema) = typings options schema := by
  have hsettled (read : Except Fault ScopeTable) :
      (read.map fun t => (generate options t).render) =
        (read.map ScopeTable.settled).map fun t => (generate options t).render := by
    cases read with
    | error fault => rfl
    | ok t =>
      show _ = Except.ok (generate options t.settled).render
      rw [generate_settled]
      rfl
  rw [typings, typings, hsettled, v.ofSchema_schema, ← hsettled]

/-- A schema of which most is not read. -/
example : Trimming.full.schema (.object [("$version", .string "2.0"), ("definitions", .object [
      ("localized.Books", .object [("kind", .string "entity")]),
      ("Named", .object [("kind", .string "aspect")]),
      ("Books", .object [("kind", .string "entity"), ("includes", .null), ("elements", .object [
        ("texts", .object [("target", .string "Books_texts")]),
        ("genre", .object [("type", .string "cds.String"), ("items", .null), ("length", .string "9"),
          ("enum", .object [("fiction", .object [("val", .null)])])])])])])]) =
    .object [("definitions", .object [
      ("Books", .object [("kind", .string "entity"), ("elements", .object [
        ("genre", .object [("type", .string "cds.String"),
          ("enum", .object [("fiction", .object [])])])])])])] := by
  rfl

end SchemaTypings.Generation
