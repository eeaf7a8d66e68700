import Mathlib.Data.List.Infix
import SchemaTypings.Json.Reader
import SchemaTypings.Proofs.Grammar
import SchemaTypings.Proofs.Placement

/-!
# The normal form of definitions

Reading passes over much that is odd in a schema: a key with a value of the wrong type counts as
missing, empty enumerations and paths are dropped.  What is left is in normal form, whatever was
read: `Normal` says what a definition is like and how its elements come from the raw ones, and
`ofSchema_normal` that every definition of an accepted schema is so.
-/

namespace SchemaTypings.Json

/-! ### Distinct keys -/

/-- No object inside of the value repeats a key. -/
inductive KeysDistinct : Value → Prop where
  | null : KeysDistinct .null
  | bool (b : Bool) : KeysDistinct (.bool b)
  | number (n : Number) : KeysDistinct (.number n)
  | string (s : String) : KeysDistinct (.string s)
  | array {items : List Value} (each : ∀ item ∈ items, KeysDistinct item) :
      KeysDistinct (.array items)
  | object {members : Members} (distinct : (members.map Prod.fst).Nodup)
      (each : ∀ member ∈ members, KeysDistinct member.2) : KeysDistinct (.object members)

open Value in
mutual

/-- After merging no key is repeated. -/
theorem keysDistinct_merged : (v : Value) → KeysDistinct v.merged
  | .null => .null
  | .bool b => .bool b
  | .number n => .number n
  | .string s => .string s
  | .array items => .array (keysDistinct_mergedItems items)
  | .object members => .object (Table.ofEntries (mergedMembers members)).distinct fun member hm =>
      keysDistinct_mergedMembers members member (Table.mem_of_mem_ofEntries hm)

theorem keysDistinct_mergedItems :
    (items : List Value) → ∀ item ∈ mergedItems items, KeysDistinct item
  | [] => fun _ h => absurd h List.not_mem_nil
  | item :: rest =>
    List.forall_mem_cons.2 ⟨keysDistinct_merged item, keysDistinct_mergedItems rest⟩

theorem keysDistinct_mergedMembers :
    (members : Members) → ∀ member ∈ mergedMembers members, KeysDistinct member.2
  | [] => fun _ h => absurd h List.not_mem_nil
  | (_, value) :: rest =>
    List.forall_mem_cons.2 ⟨keysDistinct_merged value, keysDistinct_mergedMembers rest⟩

end

namespace KeysDistinct

/-- What a text means repeats no key. -/
theorem of_load? {text : String} {v : Value} (h : load? text = some v) : KeysDistinct v := by
  obtain ⟨written, -, rfl⟩ := Option.map_eq_some_iff.1 h
  exact keysDistinct_merged written

variable {members : Members}

theorem nodup (h : KeysDistinct (.object members)) : (members.map Prod.fst).Nodup := by
  cases h with
  | object distinct each => exact distinct

theorem of_mem (h : KeysDistinct (.object members)) {member : String × Value}
    (hm : member ∈ members) : KeysDistinct member.2 := by
  cases h with
  | object distinct each => exact each member hm

theorem of_get? (h : KeysDistinct (.object members)) {key : String} {value : Value}
    (hget : members.get? key = some value) : KeysDistinct value :=
  h.of_mem (Table.mem_of_find hget)

theorem of_object? (h : KeysDistinct (.object members)) {key : String} {inner : Members}
    (hget : members.object? key = some inner) : KeysDistinct (.object inner) := by
  obtain ⟨value, hvalue, hinner⟩ := Option.bind_eq_some_iff.1 hget
  cases value with
  | object inner' =>
    cases hinner
    exact h.of_get? hvalue
  | _ => cases hinner

end KeysDistinct

end SchemaTypings.Json

namespace SchemaTypings.Schema

open SchemaTypings.Json

/-! ### Values under a key -/

/-- The value under a key has a property. -/
def Has (members : Members) (key : String) (P : Value → Prop) : Prop :=
  ∃ value, members.get? key = some value ∧ P value

/-- A value that counts as true. -/
inductive Truthy : Value → Prop where
  | bool : Truthy (.bool true)
  | number {n : Number} (nonzero : n.isZero = false) : Truthy (.number n)
  | string {s : String} (nonempty : s ≠ "") : Truthy (.string s)
  | array (items : List Value) : Truthy (.array items)
  | object (members : Members) : Truthy (.object members)

/-- An upper bound that means many. -/
inductive MeansMany : Value → Prop where
  | star : MeansMany (.string "*")
  /-- Each letter of the word may be a capital. -/
  | word {s : String}
      (letters : List.Forall₂ (fun c m => c = m ∨ c = m.toUpper) s.toList "many".toList) :
      MeansMany (.string s)
  | integer {n : Int} (above : 1 < n) : MeansMany (.number (.integer n))

/-- The target of a raw element contains the mark of localized texts. -/
def PointsAtTexts (raw : Value) : Prop :=
  ∃ target ∈ (raw.member? "target").bind Value.string?, "_texts".toList <:+: target.toList

theorem getD_map_eq_true_iff (members : Members) (key : String) (p : Value → Bool) :
    ((members.get? key).map p).getD false = true ↔ Has members key fun value => p value = true := by
  unfold Has
  cases members.get? key <;> simp

theorem isTruthy_iff (value : Value) : value.isTruthy = true ↔ Truthy value := by
  constructor
  · intro h
    cases value with
    | null => cases h
    | bool b =>
      cases h
      exact .bool
    | number n => exact .number (by simpa [Value.isTruthy] using h)
    | string s => exact .string (by simpa [Value.isTruthy] using h)
    | array items => exact .array items
    | object members => exact .object members
  · intro h
    cases h with
    | bool => rfl
    | number nonzero => simp [Value.isTruthy, nonzero]
    | string nonempty => simpa [Value.isTruthy] using nonempty
    | array items => rfl
    | object members => rfl

theorem isPresent_iff (value : Value) : value.isPresent = true ↔ value ≠ .null := by
  cases value <;> simp [Value.isPresent]

theorem isSet_iff (members : Members) (key : String) :
    members.isSet key = true ↔ Has members key Truthy := by
  rw [Members.isSet, getD_map_eq_true_iff]
  simp only [isTruthy_iff]

theorem has_iff (members : Members) (key : String) :
    members.has key = true ↔ Has members key (· ≠ .null) := by
  rw [Members.has, getD_map_eq_true_iff]
  simp only [isPresent_iff]

/-- A character is a letter of the word in lower case if it is that letter or its capital. -/
theorem toLower_eq_iff {m : Char} (hm : m ∈ "many".toList) (c : Char) :
    c.toLower = m ↔ c = m ∨ c = m.toUpper := by
  by_cases hc : c.toNat < 128
  · have hall : ∀ n < 128, ("many".toList.all fun m =>
        (Char.ofNat n).toLower = m ↔ Char.ofNat n = m ∨ Char.ofNat n = m.toUpper) = true := by
      decide
    have h := List.all_eq_true.1 (hall c.toNat hc) m hm
    rwa [decide_eq_true_iff, Char.ofNat_toNat] at h
  · -- only letters below 128 change, and neither the word nor its capitals are beyond
    have hsame : c.toLower = c := dif_neg fun h => hc (h.2.trans_lt (by decide))
    have hcapitals : ("many".toList.all fun m => m.toUpper.toNat < 128) = true := by decide
    have hne : c ≠ m.toUpper := fun h =>
      hc (h ▸ of_decide_eq_true (List.all_eq_true.1 hcapitals m hm))
    rw [hsame, or_iff_left hne]

theorem map_toLower_eq_iff {word : List Char} (hword : word ⊆ "many".toList) (cs : List Char) :
    cs.map Char.toLower = word ↔ List.Forall₂ (fun c m => c = m ∨ c = m.toUpper) cs word := by
  induction word generalizing cs with
  | nil => simp
  | cons m rest ih =>
    rw [List.cons_subset] at hword
    cases cs with
    | nil => simp
    | cons c others =>
      rw [List.map_cons, List.cons.injEq, List.forall₂_cons, toLower_eq_iff hword.1,
        ih hword.2]

theorem isManyBound_iff (value : Value) : isManyBound value = true ↔ MeansMany value := by
  constructor
  · intro h
    cases value with
    | string s =>
      rw [isManyBound, Bool.or_eq_true, beq_iff_eq, beq_iff_eq] at h
      rcases h with rfl | h
      · exact .star
      · exact .word ((map_toLower_eq_iff (List.Subset.refl _) _).1 h)
    | number n =>
      cases n with
      | integer n => exact .integer (of_decide_eq_true h)
      | binary x => cases h
    | null => cases h
    | bool b => cases h
    | array items => cases h
    | object members => cases h
  · intro h
    cases h with
    | star => rfl
    | word letters =>
      rw [isManyBound, (map_toLower_eq_iff (List.Subset.refl _) _).2 letters]
      simp
    | integer above => exact decide_eq_true above

theorem hasManyBound_iff (members : Members) : hasManyBound members = true ↔
    ∃ bounds, members.object? "cardinality" = some bounds ∧ Has bounds "max" MeansMany := by
  unfold hasManyBound
  cases members.object? "cardinality" with
  | none => simp
  | some bounds =>
    rw [Option.bind_some, getD_map_eq_true_iff]
    simp only [isManyBound_iff, Option.some.injEq, exists_eq_left']

theorem occursIn_iff (part cs : List Char) : occursIn part cs = true ↔ part <:+: cs := by
  induction cs with
  | nil => simp [occursIn]
  | cons c rest ih =>
    rw [occursIn, Bool.or_eq_true, List.isPrefixOf_iff_prefix, ih, List.infix_cons_iff]

instance : DecidablePred PointsAtTexts :=
  fun _ => inferInstanceAs (Decidable (∃ _ ∈ _, _))

theorem isLocalizedElement_iff_pointsAtTexts (members : Members) :
    isLocalizedElement members = true ↔ PointsAtTexts (.object members) := by
  rw [isLocalizedElement_iff]
  unfold PointsAtTexts hasTextsMark
  simp only [occursIn_iff]
  rfl

/-! ### Elements -/

/-- The paths under `keys`; an entry that has none counts as one without steps. -/
def writtenPaths (raw : Members) : List (List String) :=
  (((raw.array? "keys").getD []).filterMap Value.members?).map fun key => textList key "ref"

/-- An element as it comes from raw members. -/
structure NormalElement (field : String) (raw : Members) (element : Element) : Prop where
  /-- Enumerated values are at least one. -/
  inhabited : ∀ members ∈ element.members, members.keys ≠ []
  many : element.many = true ↔ HasItems raw ∨
    ∃ bounds, raw.object? "cardinality" = some bounds ∧ Has bounds "max" MeansMany
  nullable : element.nullable = true ↔ Has raw "@Core.Computed" Truthy ∨
    Has raw "@Core.Immutable" Truthy ∨ Has raw "virtual" Truthy ∨ Has raw "default" (· ≠ .null) ∨
      field ∈ managedFields
  /-- An element that neither has a type nor leads anywhere has many values, or is virtual, or was
  written with a target that is no text. -/
  untyped : element.type = none → element.target = none → element.many = true ∨
    (Has raw "virtual" Truthy ∧ element.nullable = true) ∨
      Has raw "target" fun target => target ≠ .null ∧ ∀ name, target ≠ .string name
  /-- The key paths are those that were written and are not empty. -/
  keys : element.keys.map KeyPath.steps = (writtenPaths raw).filter (· ≠ [])
  stepped : ∀ key ∈ element.keys, key.steps ≠ []

/-- The entries under `elements`. -/
def writtenElements (raw : Members) : Members := (raw.object? "elements").getD []

/-- The elements of a definition as they come from raw members: all that were written except those
that point at localized texts, in their order. -/
structure NormalElements (raw : Members) (elements : Table Element) : Prop where
  keys : elements.keys =
    ((writtenElements raw).filter fun entry => ¬ PointsAtTexts entry.2).map Prod.fst
  each : ∀ entry ∈ elements.entries, ∃ members,
    (entry.1, .object members) ∈ writtenElements raw ∧ NormalElement entry.1 members entry.2

theorem map_steps_keyPaths (raw : Members) :
    (keyPaths raw).map KeyPath.steps = (writtenPaths raw).filter (· ≠ []) := by
  rw [keyPaths, writtenPaths]
  induction (raw.array? "keys").getD [] with
  | nil => rfl
  | cons value rest ih =>
    cases hm : value.members? with
    | none =>
      rw [List.filterMap_cons_none (by simp [KeyPath.ofValue?, hm]), List.filterMap_cons_none hm,
        ih]
    | some members =>
      rw [List.filterMap_cons_some hm, List.map_cons]
      cases hp : textList members "ref" with
      | nil =>
        rw [List.filterMap_cons_none (by simp [KeyPath.ofValue?, hm, hp]),
          List.filter_cons_of_neg (by simp), ih]
      | cons first others =>
        rw [List.filterMap_cons_some (b := ⟨first, others⟩) (by simp [KeyPath.ofValue?, hm, hp]),
          List.filter_cons_of_pos (by simp), List.map_cons, ih]
        rfl

theorem isNullable_iff (field : String) (raw : Members) : isNullable field raw = true ↔
    Has raw "@Core.Computed" Truthy ∨ Has raw "@Core.Immutable" Truthy ∨
      Has raw "virtual" Truthy ∨ Has raw "default" (· ≠ .null) ∨ field ∈ managedFields := by
  simp only [isNullable, Bool.or_eq_true, isSet_iff, has_iff, isManaged, List.contains_iff_mem,
    or_assoc]

/-- What an accepted element holds is known from its type or target, or it has many values, or is
virtual, or has a target that is no text. -/
theorem untyped_ofMembers (field : String) {raw : Members} (h : isTyped raw = true)
    (htype : (Element.ofMembers field raw).type = none)
    (htarget : (Element.ofMembers field raw).target = none) :
    (Element.ofMembers field raw).many = true ∨
      (Has raw "virtual" Truthy ∧ (Element.ofMembers field raw).nullable = true) ∨
        Has raw "target" fun target => target ≠ .null ∧ ∀ name, target ≠ .string name := by
  have htype' : elementType? raw = none := htype
  simp only [isTyped, htype', Option.isSome_none, Bool.false_or, Bool.or_eq_true, has_iff,
    isSet_iff] at h
  rcases h with (hitems | ⟨target, hget, hpresent⟩) | hvirtual
  · exact Or.inl (Bool.or_eq_true_iff.2 (Or.inl hitems))
  · refine Or.inr (Or.inr ⟨target, hget, hpresent, ?_⟩)
    rintro name rfl
    have htext : raw.text? "target" = some name := by rw [Members.text?, hget]; rfl
    exact Option.some_ne_none name (htext.symm.trans htarget)
  · have hnullable : isNullable field raw = true :=
      (isNullable_iff field raw).2 (Or.inr (Or.inr (Or.inl hvirtual)))
    exact Or.inr (Or.inl ⟨hvirtual, hnullable⟩)

theorem normalElement_ofMembers (field : String) {raw : Members} (h : isTyped raw = true) :
    NormalElement field raw (Element.ofMembers field raw) := by
  constructor
  case inhabited =>
    intro members hm
    have hmembers : (if (enumMembers raw).isEmpty then none else some (enumMembers raw)) =
        some members := hm
    split at hmembers
    · cases hmembers
    · next hne =>
      cases hmembers
      simpa [Table.isEmpty, Table.keys] using hne
  case many =>
    rw [← isSome_items_iff, ← hasManyBound_iff]
    exact Bool.or_eq_true_iff
  case nullable => exact isNullable_iff field raw
  case untyped => exact untyped_ofMembers field h
  case keys => exact map_steps_keyPaths raw
  case stepped => exact fun key _ => List.cons_ne_nil key.first key.rest

/-- An accepted element is an object; it is left out if it points at localized texts, and otherwise
says what it holds. -/
theorem readElement_cases {owner field : String} {raw : Value} {made : Option Element}
    (h : readElement owner field raw = .ok made) :
    (PointsAtTexts raw ∧ made = none) ∨
      ∃ members, raw = .object members ∧ ¬ PointsAtTexts raw ∧ isTyped members = true ∧
        made = some (Element.ofMembers field members) := by
  cases raw with
  | object members =>
    rw [readElement] at h
    split at h
    · next hlocalized =>
      cases h
      exact Or.inl ⟨(isLocalizedElement_iff_pointsAtTexts members).1 hlocalized, rfl⟩
    · next hlocalized =>
      rw [isLocalizedElement_iff_pointsAtTexts] at hlocalized
      split at h
      · next htyped =>
        cases h
        exact Or.inr ⟨members, rfl, hlocalized, htyped, rfl⟩
      · cases h
  | _ => cases h

/-- The elements that are read are in normal form. -/
theorem normalElements_readElements {owner : String} {raw : Members} {elements : Table Element}
    (hkeys : KeysDistinct (.object raw)) (h : readElements owner raw = .ok elements) :
    NormalElements raw elements := by
  rw [readElements] at h
  cases hget : raw.get? "elements" with
  | none =>
    rw [hget] at h
    cases h
    have hwritten : writtenElements raw = [] := by rw [writtenElements, Members.object?, hget]; rfl
    exact ⟨by rw [hwritten]; rfl, fun entry hentry => absurd hentry List.not_mem_nil⟩
  | some value =>
    cases value with
    | object entries =>
      rw [hget] at h
      have hwritten : writtenElements raw = entries := by
        rw [writtenElements, Members.object?, hget]
        rfl
      have hmade := (Table.exists_collectFrom_iff _ ∅ entries).1 ⟨elements, h⟩
      constructor
      case keys =>
        -- the names are distinct, so no element takes the place of another one
        rw [Table.keys, Table.entries_collect h (hkeys.of_get? hget).nodup, hwritten]
        refine Table.map_fst_keptEntry fun entry hentry => ?_
        obtain ⟨made, hread⟩ := hmade entry hentry
        refine ⟨made, hread, ?_⟩
        rcases readElement_cases hread with ⟨htexts, rfl⟩ | ⟨members, -, hnot, -, rfl⟩
        · simpa using htexts
        · simpa using hnot
      case each =>
        intro entry hentry
        obtain ⟨raw, hraw, hread⟩ := Table.exists_of_mem_collect h hentry
        rcases readElement_cases hread with ⟨-, hnone⟩ | ⟨members, rfl, -, htyped, hsome⟩
        · cases hnone
        · rw [hwritten, Option.some.inj hsome]
          exact ⟨members, hraw, normalElement_ofMembers entry.1 htyped⟩
    | _ =>
      rw [hget] at h
      cases h

/-! ### Definitions -/

/-- Every parameter of an action has a type or is an array. -/
def NormalAction (action : Action) : Prop :=
  ∀ parameter ∈ action.parameters.entries,
    parameter.2.type.isSome = true ∨ parameter.2.many = true

/-- A definition as it comes from raw members. -/
inductive Normal (raw : Members) : Definition → Prop where
  | entity {e : Entity} (elements : NormalElements raw e.elements)
      (actions : ∀ entry ∈ e.actions.entries, NormalAction entry.2) : Normal raw (.entity e)
  | typeAlias {a : Alias} (named : a.many = false → ∃ name, a.body = .type (some name))
      (structured : ∀ elements, a.body = .structured elements → a.many = true ∧
        ∃ items, raw.object? "items" = some items ∧ NormalElements items elements) :
      Normal raw (.typeAlias a)
  | enumeration {e : Enumeration} (inhabited : e.members.keys ≠ []) : Normal raw (.enumeration e)
  | action {a : Action} (parameters : NormalAction a) : Normal raw (.action a)

/-- A mapped result that ended well is the image of one that did. -/
theorem exists_of_map_eq_ok {ε α β : Type} {result : Except ε α} {f : α → β} {b : β}
    (h : result.map f = .ok b) : ∃ a, result = .ok a ∧ f a = b := by
  cases result with
  | error e => cases h
  | ok a => exact ⟨a, rfl, Except.ok.inj h⟩

theorem normalAction_readAction {name : String} {kind : ActionKind} {raw : Members}
    {action : Action} (h : readAction name kind raw = .ok action) : NormalAction action := by
  obtain ⟨parameters, hcollect, rfl⟩ := exists_of_map_eq_ok h
  intro parameter hm
  obtain ⟨value, -, hread⟩ := Table.exists_of_mem_collect hcollect hm
  cases value with
  | object members =>
    simp only [readParameter] at hread
    split at hread
    · cases hread
    · next htyped =>
      rw [← Option.some.inj (Except.ok.inj hread)]
      cases htype : (Operand.ofMembers members).type with
      | some type => exact Or.inl rfl
      | none => exact Or.inr (by simpa [htype] using htyped)
  | _ => cases hread

theorem normalAction_readBoundActions {owner : String} {raw : Members} {actions : Table Action}
    (h : readBoundActions owner raw = .ok actions) :
    ∀ entry ∈ actions.entries, NormalAction entry.2 := by
  intro entry hentry
  obtain ⟨value, -, hread⟩ := Table.exists_of_mem_collect h hentry
  cases value with
  | object members =>
    rw [readBoundAction] at hread
    split at hread
    · obtain ⟨action, haction, hmade⟩ := exists_of_map_eq_ok hread
      exact Option.some.inj hmade ▸ normalAction_readAction haction
    · cases hread
  | _ => cases hread

theorem normal_readEntity {name : String} {kind : EntityKind} {raw : Members} {d : Definition}
    (hkeys : KeysDistinct (.object raw))
    (h : (readEntity name kind raw).map (fun e => some (.entity e)) = .ok (some d)) :
    Normal raw d := by
  obtain ⟨e, hread, hmade⟩ := exists_of_map_eq_ok h
  obtain rfl := Option.some.inj hmade
  rw [readEntity] at hread
  cases helements : readElements name raw with
  | error fault => simp [helements] at hread
  | ok elements =>
    rw [helements] at hread
    obtain ⟨actions, hactions, rfl⟩ := exists_of_map_eq_ok hread
    exact .entity (normalElements_readElements hkeys helements)
      (normalAction_readBoundActions hactions)

theorem normal_readAction {name : String} {kind : ActionKind} {raw : Members} {d : Definition}
    (h : (readAction name kind raw).map (fun a => some (.action a)) = .ok (some d)) :
    Normal raw d := by
  obtain ⟨a, hread, hmade⟩ := exists_of_map_eq_ok h
  obtain rfl := Option.some.inj hmade
  exact .action (normalAction_readAction hread)

/-- The shape of an alias is that of a definition of kind `type`. -/
theorem ofType_eq_of_ofMembers {raw : Members} {shape : Shape} (h : Shape.ofMembers raw = shape)
    (halias : shape = .typeAlias ∨ ∃ items, shape = .arrayAlias items) :
    Shape.ofType raw = shape := by
  rw [Shape.ofMembers] at h
  split at h <;> first | exact h | (subst h; simp at halias)

/-- A plain alias has a type. -/
theorem exists_type_of_shape {raw : Members} (h : Shape.ofMembers raw = .typeAlias) :
    ∃ type, raw.text? "type" = some type := by
  have htype := ofType_eq_of_ofMembers h (Or.inl rfl)
  have hsome : (raw.text? "type").isSome = true := by
    simp only [Shape.ofType] at htype
    grind
  exact Option.isSome_iff_exists.1 hsome

/-- Structured items are an object. -/
theorem exists_items_of_shape {raw : Members}
    (h : Shape.ofMembers raw = .arrayAlias .structured) :
    ∃ items, raw.object? "items" = some items := by
  have htype := ofType_eq_of_ofMembers h (Or.inr ⟨_, rfl⟩)
  have hitems : ItemsShape.ofMembers raw = .structured := by
    simp only [Shape.ofType] at htype
    grind
  cases hobject : raw.object? "items" with
  | none => simp [ItemsShape.ofMembers, hobject] at hitems
  | some items => exact ⟨items, rfl⟩

theorem normal_enumerationOf (raw : Members) : Normal raw (enumerationOf raw) := by
  simp only [enumerationOf]
  split
  · exact .typeAlias (fun _ => ⟨_, rfl⟩) fun elements h => by cases h
  · next hne => exact .enumeration (by simpa [Table.isEmpty, Table.keys] using hne)

theorem normal_readArrayBody {name : String} {raw : Members} {items : ItemsShape} {d : Definition}
    (hkeys : KeysDistinct (.object raw)) (hshape : Shape.ofMembers raw = .arrayAlias items)
    (h : (readArrayBody name items raw).map (fun body => some (.typeAlias ⟨body, true⟩)) =
      .ok (some d)) : Normal raw d := by
  obtain ⟨body, hread, hmade⟩ := exists_of_map_eq_ok h
  obtain rfl := Option.some.inj hmade
  refine .typeAlias (fun hmany => by cases hmany) ?_
  rintro elements rfl
  cases items with
  | typed => cases hread
  | untyped => cases hread
  | structured =>
    obtain ⟨inner, hinner⟩ := exists_items_of_shape hshape
    obtain ⟨elements', hread', hbody⟩ := exists_of_map_eq_ok hread
    rw [hinner, Option.getD_some] at hread'
    cases hbody
    exact ⟨rfl, inner, hinner, normalElements_readElements (hkeys.of_object? hinner) hread'⟩

/-- What is read by its shape is in normal form. -/
theorem normal_readShape {name : String} {raw : Members} {d : Definition}
    (hkeys : KeysDistinct (.object raw))
    (h : readShape name raw (Shape.ofMembers raw) = .ok (some d)) : Normal raw d := by
  cases hshape : Shape.ofMembers raw <;> rw [hshape] at h
  case entity => exact normal_readEntity hkeys h
  case structuredType => exact normal_readEntity hkeys h
  case action => exact normal_readAction h
  case function => exact normal_readAction h
  case typeAlias =>
    cases h
    obtain ⟨type, htype⟩ := exists_type_of_shape hshape
    exact .typeAlias (fun _ => ⟨type, congrArg AliasBody.type htype⟩) fun elements h => by cases h
  case arrayAlias items => exact normal_readArrayBody hkeys hshape h
  case enumeration =>
    cases h
    exact normal_enumerationOf raw
  case service => cases h
  case unsupported => cases h

theorem keysDistinct_rawDefinitions {schema : Value} {definitions : Members}
    (hkeys : KeysDistinct schema) (h : rawDefinitions schema = .ok definitions) :
    KeysDistinct (.object definitions) := by
  cases schema with
  | object members =>
    rw [rawDefinitions] at h
    split at h
    · next hget =>
      cases h
      exact hkeys.of_object? hget
    · cases h
  | _ => cases h

/-- **Every definition of an accepted schema is in normal form.**  It comes from the raw members of
its name, which decide what it is like as `Normal` says.  That no key is repeated holds of every
schema read from a text, by `KeysDistinct.of_load?`. -/
theorem ofSchema_normal {schema : Value} {t : ScopeTable} (hkeys : KeysDistinct schema)
    (ht : ScopeTable.ofSchema schema = .ok t) :
    ∃ definitions, rawDefinitions schema = .ok definitions ∧
      ∀ scope ∈ t.scopes, ∀ d ∈ scope.definitions.entries,
        ∃ raw, (d.1, .object raw) ∈ definitions ∧ Normal raw d.2 := by
  obtain ⟨definitions, read, hraw, hread, hplaced⟩ := placed_ofSchema ht
  refine ⟨definitions, hraw, fun scope hscope d hd => ?_⟩
  have hd' : d ∈ read.entries := ((hplaced.mem_definitions_iff hscope d).1 hd).1
  obtain ⟨value, hvalue, hmade⟩ := Table.exists_of_mem_collect hread hd'
  have hdistinct : KeysDistinct (.object definitions) := keysDistinct_rawDefinitions hkeys hraw
  unfold readDefinition at hmade
  split at hmade
  · cases hmade
  · cases value with
    | object raw => exact ⟨raw, hvalue, normal_readShape (hdistinct.of_mem hvalue) hmade⟩
    | _ => cases hmade

/-- An entity with a repeated field, a field of localized texts, an empty enumeration, an upper
bound in capitals, a target that is no text and a computed field with an enumeration; enumeration
types without and with members; and an action with a typed parameter and one of untyped items. -/
def untidySchema : Value :=
  .object [("definitions", .object
    [("E", .object [("kind", .string "entity"), ("elements", .object
      [("ID", .object [("type", .string "cds.String"), ("virtual", .bool true)]),
        ("texts", .object [("target", .string "E_texts")]),
        ("to", .object [("target", .bool true),
          ("keys", .array [.object [("ref", .array [])],
            .object [("ref", .array [.string "x", .string "y"])]]),
          ("cardinality", .object [("max", .string "Many")])]),
        ("other", .object [("target", .bool true),
          ("cardinality", .object [("max", .string "1")])]),
        ("state", .object [("type", .string "cds.String"),
          ("@Core.Computed", .string "yes"), ("enum", .object [("open", .null)])]),
        ("ID", .object [("type", .string "cds.UUID"), ("enum", .object []),
          ("default", .null)])])]),
      ("T", .object [("kind", .string "type"), ("type", .string "cds.String"),
        ("enum", .object [])]),
      ("Level", .object [("kind", .string "type"), ("type", .string "cds.String"),
        ("enum", .object [("low", .object []), ("high", .object [("val", .string "H")])])]),
      ("raise", .object [("kind", .string "action"), ("params", .object
        [("by", .object [("type", .string "Level")]),
          ("notes", .object [("type", .bool true), ("items", .object [])])])])])]

/-- With its repeated key merged, `untidySchema` is read as definitions in normal form: the entity,
of whose fields one is left out and one has an enumeration, an alias for the empty enumeration, the
other enumeration type with both members, and the action with both parameters. -/
theorem ofSchema_normal_untidy : ∃ t, ScopeTable.ofSchema untidySchema.merged = .ok t ∧
    (t.scopes.flatMap fun scope => scope.definitions.entries.flatMap fun d =>
      (d.2.entity?.map fun e => e.elements.entries.map fun entry =>
        (entry.1, entry.2.many, entry.2.nullable, entry.2.keys.map KeyPath.steps)).getD []) =
      [("ID", false, false, []), ("to", true, false, [["x", "y"]]), ("other", false, false, []),
        ("state", false, true, [])] ∧
    (t.scopes.flatMap fun scope => scope.definitions.entries.flatMap fun
      | (_, .entity e) => e.elements.entries.filterMap fun entry =>
          entry.2.members.map fun members => (entry.1, members.keys)
      | (name, .enumeration e) => [(name, e.members.keys)]
      | _ => []) = [("state", ["open"]), ("Level", ["low", "high"])] ∧
    (t.scopes.flatMap fun scope => scope.definitions.entries.filterMap fun
      | (name, .action a) => some (name, a.parameters.entries)
      | _ => none) =
      [("raise", [("by", ⟨some (.named "Level"), false⟩), ("notes", ⟨none, true⟩)])] ∧
    ∃ definitions, rawDefinitions untidySchema.merged = .ok definitions ∧
      ∀ scope ∈ t.scopes, ∀ d ∈ scope.definitions.entries,
        ∃ raw, (d.1, .object raw) ∈ definitions ∧ Normal raw d.2 := by
  have helements : (ScopeTable.ofSchema untidySchema.merged).toOption.map (fun t =>
      t.scopes.flatMap fun scope => scope.definitions.entries.flatMap fun d =>
        (d.2.entity?.map fun e => e.elements.entries.map fun entry =>
          (entry.1, entry.2.many, entry.2.nullable, entry.2.keys.map KeyPath.steps)).getD []) =
      some [("ID", false, false, []), ("to", true, false, [["x", "y"]]),
        ("other", false, false, []), ("state", false, true, [])] := by decide +kernel
  have hmembers : (ScopeTable.ofSchema untidySchema.merged).toOption.map (fun t =>
      t.scopes.flatMap fun scope => scope.definitions.entries.flatMap fun
        | (_, .entity e) => e.elements.entries.filterMap fun entry =>
            entry.2.members.map fun members => (entry.1, members.keys)
        | (name, .enumeration e) => [(name, e.members.keys)]
        | _ => []) = some [("state", ["open"]), ("Level", ["low", "high"])] := by decide +kernel
  have hparameters : (ScopeTable.ofSchema untidySchema.merged).toOption.map (fun t =>
      t.scopes.flatMap fun scope => scope.definitions.entries.filterMap fun
        | (name, .action a) => some (name, a.parameters.entries)
        | _ => none) =
      some [("raise", [("by", ⟨some (.named "Level"), false⟩), ("notes", ⟨none, true⟩)])] := by
    decide +kernel
  obtain ⟨t, ht, helements⟩ := exists_ok_of_map helements
  rw [ht] at hmembers hparameters
  exact ⟨t, ht, helements, Option.some.inj hmembers, Option.some.inj hparameters,
    ofSchema_normal (keysDistinct_merged untidySchema) ht⟩

end SchemaTypings.Schema
