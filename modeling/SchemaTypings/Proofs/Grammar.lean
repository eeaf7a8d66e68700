import Mathlib.Data.List.Basic
import SchemaTypings.Schema.Placement

/-!
# The grammar of schemas

`IsSchema` says which values are schemas, without any reading, and `offences` lists the malformed
places of a value in the order of the document, inside an entity those of its elements before those
of its bound actions.  Reading accepts exactly the schemas and reports the first offence of any
other value: `Reports` says so of each part that is read, and `ofSchema_grammar` of the whole.
-/

namespace SchemaTypings.Schema

open SchemaTypings.Json

/-! ### The grammar -/

/-- A value that names a type: a text, or an object whose path `ref` has one or two texts. -/
inductive NamesType : Value → Prop where
  | text (name : String) : NamesType (.string name)
  | path {members : Members} {items : List Value} (ref : members.array? "ref" = some items)
      (steps : (items.filterMap Value.string?).length = 1 ∨
        (items.filterMap Value.string?).length = 2) : NamesType (.object members)

/-- The member `type` names a type. -/
def HasType (members : Members) : Prop :=
  ∃ value, members.get? "type" = some value ∧ NamesType value

/-- The member `items` is an object. -/
def HasItems (members : Members) : Prop := ∃ items, members.object? "items" = some items

/-- Members that describe an element, to be read or to be left out. -/
inductive IsElement (members : Members) : Prop where
  /-- The element points at localized texts. -/
  | localized {target : String} (text : members.text? "target" = some target)
      (mark : hasTextsMark target = true)
  | typed (type : HasType members)
  /-- The element has array items, whatever their type. -/
  | array (items : HasItems members)
  | navigation (target : members.has "target" = true)
  | computed (set : members.isSet "virtual" = true)

/-- A value of which the key `elements`, if present, is an object of elements. -/
def ElementsIn (members : Members) : Prop :=
  ∀ value, members.get? "elements" = some value →
    ∃ entries, value = .object entries ∧
      ∀ entry ∈ entries, ∃ element, entry.2 = .object element ∧ IsElement element

/-- Every entry of an object `params` is an object with array items or a type. -/
def ParametersIn (members : Members) : Prop :=
  ∀ entries, members.object? "params" = some entries →
    ∀ entry ∈ entries, ∃ parameter, entry.2 = .object parameter ∧
      (HasItems parameter ∨ HasType parameter)

/-- Every action and function in an object `actions` has its parameters. -/
def BoundActionsIn (members : Members) : Prop :=
  ∀ entries, members.object? "actions" = some entries →
    ∀ entry ∈ entries, ∀ action, entry.2 = .object action →
      Shape.ofMembers action = .action ∨ Shape.ofMembers action = .function → ParametersIn action

/-- Members that describe a definition of a shape. -/
def IsDefinition (members : Members) : Shape → Prop
  | .entity => ElementsIn members ∧ BoundActionsIn members
  | .structuredType => ElementsIn members ∧ BoundActionsIn members
  | .arrayAlias .structured => ∀ items, members.object? "items" = some items → ElementsIn items
  | .action => ParametersIn members
  | .function => ParametersIn members
  | _ => True

/-- A value with an object of definitions, of which those that are not left out are well formed. -/
def IsSchema (value : Value) : Prop :=
  ∃ members definitions : Members, value = .object members ∧
    members.object? "definitions" = some definitions ∧
    ∀ entry ∈ definitions, isExcluded entry.1 entry.2 = false →
      ∀ body, entry.2 = .object body → IsDefinition body (Shape.ofMembers body)

/-! ### Types -/

theorem isSome_ofValue?_iff (value : Value) :
    (TypeRef.ofValue? value).isSome = true ↔ NamesType value := by
  constructor
  · intro h
    cases value with
    | string name => exact .text name
    | object members =>
      unfold TypeRef.ofValue? textList at h
      cases hitems : Members.array? members "ref" with
      | none => simp [hitems] at h
      | some items =>
        refine .path hitems ?_
        simp only [hitems] at h
        split at h
        · next hs => exact Or.inr (by rw [hs]; rfl)
        · next hs => exact Or.inl (by rw [hs]; rfl)
        · cases h
    | null => cases h
    | bool b => cases h
    | number n => cases h
    | array items => cases h
  · intro h
    cases h with
    | text name => rfl
    | path ref steps =>
      unfold TypeRef.ofValue? textList
      simp only [ref]
      rcases steps with hs | hs
      · obtain ⟨name, hname⟩ := List.length_eq_one_iff.1 hs
        rw [hname]
        rfl
      · obtain ⟨owner, field, hpath⟩ := List.length_eq_two.1 hs
        rw [hpath]
        rfl

theorem isSome_ownType?_iff (members : Members) :
    (ownType? members).isSome = true ↔ HasType members := by
  unfold ownType? HasType
  cases members.get? "type" with
  | none => simp
  | some value => simpa using isSome_ofValue?_iff value

theorem isSome_items_iff (members : Members) :
    (members.object? "items").isSome = true ↔ HasItems members :=
  Option.isSome_iff_exists

theorem isTyped_iff (members : Members) : isTyped members = true ↔
    HasType members ∨ HasItems members ∨ members.has "target" = true ∨
      members.isSet "virtual" = true := by
  -- the type of array items adds nothing, since array items are enough by themselves
  have htype : (elementType? members).isSome = true ↔
      HasType members ∨ ∃ items, members.object? "items" = some items ∧ HasType items := by
    rw [← isSome_ownType?_iff, elementType?]
    cases ownType? members with
    | some type => simp
    | none =>
      cases members.object? "items" with
      | none => simp
      | some items => simpa using isSome_ownType?_iff items
  simp only [isTyped, Bool.or_eq_true, htype, isSome_items_iff, or_assoc]
  constructor
  · rintro (h | ⟨items, hi, -⟩ | h)
    · exact Or.inl h
    · exact Or.inr (Or.inl ⟨items, hi⟩)
    · exact Or.inr h
  · rintro (h | h)
    · exact Or.inl h
    · exact Or.inr (Or.inr h)

theorem isLocalizedElement_iff (members : Members) : isLocalizedElement members = true ↔
    ∃ target, members.text? "target" = some target ∧ hasTextsMark target = true := by
  unfold isLocalizedElement
  cases members.text? "target" with
  | none => simp
  | some target => simp

theorem isElement_iff (members : Members) :
    IsElement members ↔ isLocalizedElement members = true ∨ isTyped members = true := by
  rw [isLocalizedElement_iff, isTyped_iff]
  constructor
  · intro h
    cases h with
    | localized text mark => exact Or.inl ⟨_, text, mark⟩
    | typed type => exact Or.inr (Or.inl type)
    | array items => exact Or.inr (Or.inr (Or.inl items))
    | navigation target => exact Or.inr (Or.inr (Or.inr (Or.inl target)))
    | computed set => exact Or.inr (Or.inr (Or.inr (Or.inr set)))
  · rintro (⟨target, text, mark⟩ | type | items | target | set)
    · exact .localized text mark
    · exact .typed type
    · exact .array items
    · exact .navigation target
    · exact .computed set

instance (members : Members) : Decidable (IsElement members) :=
  decidable_of_iff _ (isElement_iff members).symm

instance (members : Members) : Decidable (HasItems members) :=
  decidable_of_iff _ (isSome_items_iff members)

instance (members : Members) : Decidable (HasType members) :=
  decidable_of_iff _ (isSome_ownType?_iff members)

/-! ### Offences -/

/-- The offence of an element. -/
def elementOffences (owner : String) (entry : String × Value) : List Fault :=
  match entry.2 with
  | .object element => if IsElement element then [] else [.untyped owner entry.1]
  | _ => [.elementNotAnObject owner entry.1]

/-- The offences of the elements under `elements`, in their order. -/
def elementsOffences (owner : String) (members : Members) : List Fault :=
  match members.get? "elements" with
  | none => []
  | some (.object entries) => entries.flatMap (elementOffences owner)
  | some _ => [.elementsNotAnObject owner]

/-- The offence of a parameter. -/
def parameterOffences (owner : String) (entry : String × Value) : List Fault :=
  match entry.2 with
  | .object parameter =>
    if HasItems parameter ∨ HasType parameter then [] else [.untyped owner entry.1]
  | _ => [.parameterNotAnObject owner entry.1]

/-- The offences of the parameters of an action, in their order. -/
def parametersOffences (owner : String) (members : Members) : List Fault :=
  ((members.object? "params").getD []).flatMap (parameterOffences owner)

/-- The offences of a bound action, whose parameters are known by its qualified name. -/
def boundActionOffences (owner : String) (entry : String × Value) : List Fault :=
  match entry.2 with
  | .object action =>
    if Shape.ofMembers action = .action ∨ Shape.ofMembers action = .function then
      parametersOffences (owner ++ "." ++ entry.1) action
    else []
  | _ => []

/-- The offences of the bound actions of an entity, in their order. -/
def boundActionsOffences (owner : String) (members : Members) : List Fault :=
  ((members.object? "actions").getD []).flatMap (boundActionOffences owner)

/-- The offences of a definition of a shape: elements come before bound actions. -/
def shapeOffences (name : String) (members : Members) : Shape → List Fault
  | .entity => elementsOffences name members ++ boundActionsOffences name members
  | .structuredType => elementsOffences name members ++ boundActionsOffences name members
  | .arrayAlias .structured => elementsOffences name ((members.object? "items").getD [])
  | .action => parametersOffences name members
  | .function => parametersOffences name members
  | _ => []

/-- The offences of an entry of a schema. -/
def definitionOffences (entry : String × Value) : List Fault :=
  match entry.2 with
  | .object body =>
    if isExcluded entry.1 entry.2 then [] else shapeOffences entry.1 body (Shape.ofMembers body)
  | _ => []

/-- The offences of a value, in the order of the document. -/
def offences : Value → List Fault
  | .object members =>
    match Members.object? members "definitions" with
    | some definitions => definitions.flatMap definitionOffences
    | none => [.noDefinitions]
  | _ => [.notAnObject]

/-! ### Without offences -/

theorem elementOffences_eq_nil_iff (owner : String) (entry : String × Value) :
    elementOffences owner entry = [] ↔ ∃ element, entry.2 = .object element ∧ IsElement element := by
  unfold elementOffences
  split
  · next element he => simp [he]
  · next hno => simpa using fun element he => absurd he (hno element)

theorem elementsOffences_eq_nil_iff (owner : String) (members : Members) :
    elementsOffences owner members = [] ↔ ElementsIn members := by
  unfold elementsOffences ElementsIn
  split
  · next hm => simp [hm]
  · next entries hm =>
    rw [List.flatMap_eq_nil_iff]
    simp [hm, elementOffences_eq_nil_iff]
  · next value hno hm => simpa [hm] using fun entries he => absurd he (hno entries)

theorem parameterOffences_eq_nil_iff (owner : String) (entry : String × Value) :
    parameterOffences owner entry = [] ↔
      ∃ parameter, entry.2 = .object parameter ∧ (HasItems parameter ∨ HasType parameter) := by
  unfold parameterOffences
  split
  · next parameter hp => simp [hp, -not_or]
  · next hno => simpa using fun parameter hp => absurd hp (hno parameter)

theorem parametersOffences_eq_nil_iff (owner : String) (members : Members) :
    parametersOffences owner members = [] ↔ ParametersIn members := by
  unfold parametersOffences ParametersIn
  cases members.object? "params" with
  | none => simp
  | some entries =>
    rw [List.flatMap_eq_nil_iff]
    simp [parameterOffences_eq_nil_iff]

theorem boundActionsOffences_eq_nil_iff (owner : String) (members : Members) :
    boundActionsOffences owner members = [] ↔ BoundActionsIn members := by
  have hentry (entry : String × Value) : boundActionOffences owner entry = [] ↔
      ∀ action, entry.2 = .object action →
        Shape.ofMembers action = .action ∨ Shape.ofMembers action = .function →
          ParametersIn action := by
    unfold boundActionOffences
    split
    · next action ha => simp [ha, parametersOffences_eq_nil_iff]
    · next hno => simpa using fun action ha => absurd ha (hno action)
  unfold boundActionsOffences BoundActionsIn
  cases members.object? "actions" with
  | none => simp
  | some entries =>
    rw [List.flatMap_eq_nil_iff]
    simp [hentry]

theorem shapeOffences_eq_nil_iff (name : String) (members : Members) (shape : Shape) :
    shapeOffences name members shape = [] ↔ IsDefinition members shape := by
  unfold shapeOffences IsDefinition
  split
  · rw [List.append_eq_nil_iff, elementsOffences_eq_nil_iff, boundActionsOffences_eq_nil_iff]
  · rw [List.append_eq_nil_iff, elementsOffences_eq_nil_iff, boundActionsOffences_eq_nil_iff]
  · rw [elementsOffences_eq_nil_iff]
    cases members.object? "items" with
    | none => simp [ElementsIn, Members.get?]
    | some items => simp
  · exact parametersOffences_eq_nil_iff name members
  · exact parametersOffences_eq_nil_iff name members
  · simp

theorem definitionOffences_eq_nil_iff (entry : String × Value) :
    definitionOffences entry = [] ↔ (isExcluded entry.1 entry.2 = false →
      ∀ body, entry.2 = .object body → IsDefinition body (Shape.ofMembers body)) := by
  unfold definitionOffences
  split
  · next body hb =>
    cases hx : isExcluded entry.1 entry.2 <;> simp [hb, shapeOffences_eq_nil_iff]
  · next hno => simpa using fun _ body hb => absurd hb (hno body)

/-- A value without offences is a schema. -/
theorem offences_eq_nil_iff (value : Value) : offences value = [] ↔ IsSchema value := by
  constructor
  · intro h
    cases value with
    | object members =>
      unfold offences at h
      cases hd : Members.object? members "definitions" with
      | none => simp [hd] at h
      | some definitions =>
        simp only [hd, List.flatMap_eq_nil_iff, definitionOffences_eq_nil_iff] at h
        exact ⟨members, definitions, rfl, hd, h⟩
    | _ => cases h
  · rintro ⟨members, definitions, rfl, hd, h⟩
    simpa only [offences, hd, List.flatMap_eq_nil_iff, definitionOffences_eq_nil_iff] using h

/-! ### Reading reports the first offence -/

/-- The result fails exactly with the first of the offences. -/
def Reports {α : Type} (result : Except Fault α) (offences : List Fault) : Prop :=
  ∀ fault, result = .error fault ↔ offences.head? = some fault

namespace Reports

variable {α β : Type} {result : Except Fault α} {found more : List Fault}

theorem ok (a : α) : Reports (.ok a : Except Fault α) [] := by
  simp [Reports]

theorem error (fault : Fault) : Reports (.error fault : Except Fault α) [fault] := by
  simp [Reports]

/-- A result without offences is there. -/
theorem exists_ok_iff (h : Reports result found) : (∃ a, result = .ok a) ↔ found = [] := by
  cases result with
  | ok a =>
    have hnone : found.head? = none := Option.eq_none_iff_forall_ne_some.2 fun fault hf => by
      cases (h fault).2 hf
    simpa using List.head?_eq_none_iff.1 hnone
  | error fault =>
    have hsome : found.head? = some fault := (h fault).1 rfl
    have hne : found ≠ [] := fun hnil => by simp [hnil] at hsome
    simpa using hne

theorem map (h : Reports result found) (f : α → β) : Reports (result.map f) found := by
  intro fault
  rw [← h fault]
  cases result <;> simp [Except.map]

/-- The offences of what is read first come before those of the rest of the whole. -/
theorem andThen {whole : Except Fault β} (h : Reports result found)
    (herror : ∀ fault, result = .error fault → whole = .error fault)
    (hok : ∀ a, result = .ok a → Reports whole more) : Reports whole (found ++ more) := by
  intro fault
  cases hr : result with
  | ok a =>
    obtain rfl : found = [] := h.exists_ok_iff.1 ⟨a, hr⟩
    exact hok a hr fault
  | error first =>
    have hfirst : found.head? = some first := (h first).1 hr
    rw [herror first hr, List.head?_append, hfirst]
    simp

end Reports

/-- What is collected reports the offences of its entries one after another. -/
theorem reports_collectFrom {α : Type} {f : String → Value → Except Fault (Option α)}
    {offencesOf : String × Value → List Fault} {entries : Members}
    (h : ∀ entry ∈ entries, Reports (f entry.1 entry.2) (offencesOf entry)) (t : Table α) :
    Reports (Table.collectFrom f t entries) (entries.flatMap offencesOf) := by
  induction entries generalizing t with
  | nil => exact .ok t
  | cons entry rest ih =>
    obtain ⟨hentry, hrest⟩ := List.forall_mem_cons.1 h
    rw [List.flatMap_cons]
    refine hentry.andThen (fun fault hf => by simp [Table.collectFrom, hf]) fun made hf => ?_
    cases made <;> simpa only [Table.collectFrom, hf] using ih hrest _

theorem reports_collect {α : Type} {f : String → Value → Except Fault (Option α)}
    {offencesOf : String × Value → List Fault} {entries : Members}
    (h : ∀ entry ∈ entries, Reports (f entry.1 entry.2) (offencesOf entry)) :
    Reports (Table.collect f entries) (entries.flatMap offencesOf) :=
  reports_collectFrom h ∅

theorem reports_readElement (owner : String) (entry : String × Value) :
    Reports (readElement owner entry.1 entry.2) (elementOffences owner entry) := by
  obtain ⟨field, raw⟩ := entry
  cases raw with
  | object element =>
    simp only [readElement, elementOffences, isElement_iff]
    cases isLocalizedElement element with
    | true => exact .ok none
    | false =>
      cases isTyped element with
      | true => exact .ok _
      | false => exact .error _
  | _ => exact .error _

theorem reports_readElements (owner : String) (members : Members) :
    Reports (readElements owner members) (elementsOffences owner members) := by
  unfold readElements elementsOffences
  cases members.get? "elements" with
  | none => exact .ok (∅ : Table Element)
  | some value =>
    cases value with
    | object entries => exact reports_collect fun entry _ => reports_readElement owner entry
    | _ => exact .error _

/-- A parameter is accepted if it has array items or a type. -/
theorem isSome_or_many_ofMembers (members : Members) :
    ((Operand.ofMembers members).type.isNone && !(Operand.ofMembers members).many) = false ↔
      HasItems members ∨ HasType members := by
  rw [← isSome_items_iff, ← isSome_ownType?_iff, Operand.ofMembers]
  cases members.object? "items" with
  | some items => simp
  | none => cases ownType? members <;> simp

theorem reports_readParameter (owner : String) (entry : String × Value) :
    Reports (readParameter owner entry.1 entry.2) (parameterOffences owner entry) := by
  obtain ⟨name, raw⟩ := entry
  cases raw with
  | object parameter =>
    simp only [readParameter, parameterOffences, ← isSome_or_many_ofMembers]
    cases (Operand.ofMembers parameter).type.isNone && !(Operand.ofMembers parameter).many with
    | true => exact .error _
    | false => exact .ok _
  | _ => exact .error _

theorem reports_readAction (name : String) (kind : ActionKind) (members : Members) :
    Reports (readAction name kind members) (parametersOffences name members) :=
  (reports_collect fun entry _ => reports_readParameter name entry).map _

theorem reports_readBoundAction (owner : String) (entry : String × Value) :
    Reports (readBoundAction owner entry.1 entry.2) (boundActionOffences owner entry) := by
  obtain ⟨name, raw⟩ := entry
  cases raw with
  | object action =>
    simp only [readBoundAction, boundActionOffences]
    cases Shape.ofMembers action with
    | action => exact (reports_readAction _ _ action).map some
    | function => exact (reports_readAction _ _ action).map some
    | service => exact .ok none
    | entity => exact .ok none
    | typeAlias => exact .ok none
    | arrayAlias items => exact .ok none
    | structuredType => exact .ok none
    | enumeration => exact .ok none
    | unsupported => exact .ok none
  | _ => exact .ok none

theorem reports_readBoundActions (owner : String) (members : Members) :
    Reports (readBoundActions owner members) (boundActionsOffences owner members) :=
  reports_collect fun entry _ => reports_readBoundAction owner entry

theorem reports_readEntity (name : String) (kind : EntityKind) (members : Members) :
    Reports (readEntity name kind members)
      (elementsOffences name members ++ boundActionsOffences name members) := by
  refine (reports_readElements name members).andThen
    (fun fault hr => by simp [readEntity, hr]) fun elements hr => ?_
  simpa only [readEntity, hr] using (reports_readBoundActions name members).map _

theorem reports_readShape (name : String) (members : Members) (shape : Shape) :
    Reports (readShape name members shape) (shapeOffences name members shape) := by
  cases shape with
  | service => exact .ok none
  | entity => exact (reports_readEntity name .entity members).map _
  | action => exact (reports_readAction name .action members).map _
  | function => exact (reports_readAction name .function members).map _
  | typeAlias => exact .ok _
  | arrayAlias items =>
    cases items with
    | typed => exact .ok _
    | structured => exact ((reports_readElements name _).map _).map _
    | untyped => exact .ok _
  | structuredType => exact (reports_readEntity name .structuredType members).map _
  | enumeration => exact .ok _
  | unsupported => exact .ok none

theorem reports_readDefinition (entry : String × Value) :
    Reports (readDefinition entry.1 entry.2) (definitionOffences entry) := by
  obtain ⟨name, raw⟩ := entry
  unfold readDefinition definitionOffences
  cases raw with
  | object body =>
    cases isExcluded name (.object body) with
    | true => exact .ok none
    | false => exact reports_readShape name body (Shape.ofMembers body)
  | _ => simpa using Reports.ok none

/-- **Reading accepts exactly the schemas and reports the first offence of every other value.** -/
theorem ofSchema_grammar (value : Value) :
    ((∃ t, ScopeTable.ofSchema value = .ok t) ↔ IsSchema value) ∧
      ∀ fault, ScopeTable.ofSchema value = .error fault ↔
        (offences value).head? = some fault := by
  have hreports : Reports (ScopeTable.ofSchema value) (offences value) := by
    cases value with
    | object members =>
      simp only [ScopeTable.ofSchema, offences, rawDefinitions]
      cases Members.object? members "definitions" with
      | none => exact .error _
      | some definitions =>
        exact (reports_collect fun entry _ => reports_readDefinition entry).map _
    | _ => exact .error _
  refine ⟨?_, hreports⟩
  rw [hreports.exists_ok_iff, offences_eq_nil_iff]

/-- Elements come before bound actions, whose parameters are known by the qualified name of the
action, even if the actions stand first. -/
example : offences (.object [("definitions", .object [("E", .object [("kind", .string "entity"),
    ("actions", .object [("a", .object [("kind", .string "action"),
      ("params", .object [("p", .null)])])]),
    ("elements", .object [("x", .null)])])])]) =
      [.elementNotAnObject "E" "x", .parameterNotAnObject "E.a" "p"] := by
  decide +kernel

end SchemaTypings.Schema
