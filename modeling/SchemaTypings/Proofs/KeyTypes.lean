import SchemaTypings.Proofs.Diagnosis

/-!
# Types of keys

The property for a key of an association stands for an element of the target, whose own property
has a type, too.  The type of the key is that of the element's type position alone; it is the type
of the element exactly as far as the element has no enumeration written inside it, which comes
before the type position.
-/

namespace SchemaTypings.Generation

open SchemaTypings.Json SchemaTypings.Name SchemaTypings.Schema SchemaTypings.Typing

namespace Resolver

/-! ### Keys one after another -/

section Keys

variable (r : Resolver) (field target : String) (entity : Entity) (separator : String)

/-- The properties for the keys of a list, and then those for more keys. -/
theorem run_keyProperties_append (before after : List KeyPath) (c : Collected) :
    (r.keyProperties field target entity separator (before ++ after)).run c =
      let first := (r.keyProperties field target entity separator before).run c
      let second := (r.keyProperties field target entity separator after).run first.2
      (first.1 ++ second.1, second.2) := by
  induction before generalizing c with
  | nil => rfl
  | cons path rest ih =>
    rw [List.cons_append, keyProperties, keyProperties]
    cases entity.elements.get? path.first with
    | none =>
      simp only [StateT.run_bind, ih]
      rfl
    | some found =>
      simp only [StateT.run_bind, ih]
      rfl

/-- There is one property for every key that the target has. -/
theorem length_keyProperties (paths : List KeyPath) (c : Collected) :
    ((r.keyProperties field target entity separator paths).run c).1.length =
      paths.countP fun path => (entity.elements.get? path.first).isSome := by
  induction paths generalizing c with
  | nil => rfl
  | cons path rest ih =>
    rw [keyProperties, List.countP_cons]
    cases hfound : entity.elements.get? path.first with
    | none =>
      simp only [StateT.run_bind, Option.isSome_none]
      exact ih _
    | some found =>
      simp only [StateT.run_bind, Option.isSome_some, if_true]
      exact congrArg (· + 1) (ih _)

/-- The property for a key of a list stands after those for the keys before it and is made from what
they leave behind. -/
theorem getElem?_keyProperties (before after : List KeyPath) (path : KeyPath) {found : Element}
    (hfound : entity.elements.get? path.first = some found) (c : Collected) :
    ((r.keyProperties field target entity separator (before ++ path :: after)).run c).1[
        before.countP fun path => (entity.elements.get? path.first).isSome]? =
      some ⟨foreignKeyName field separator path.first, true, ((r.typeRef found.type).run
        ((r.keyProperties field target entity separator before).run c).2).1⟩ := by
  rw [run_keyProperties_append, ← r.length_keyProperties field target entity separator before c]
  generalize (r.keyProperties field target entity separator before).run c = first
  rw [List.getElem?_append_right (Nat.le_refl _), Nat.sub_self, keyProperties, hfound]
  rfl

end Keys

/-! ### Types of elements and of type positions -/

variable {r : Resolver} {found : Element}

/-- A single value without an enumeration has the type of its type position. -/
theorem element_eq_typeRef (hplain : found.members.isSome = false)
    (hvalue : found.isNavigation = false) (hone : found.many = false) (owner field : String) :
    r.element owner field found = r.typeRef found.type := by
  rw [element, elementVia, hplain, hvalue, hone]
  simp only [Bool.false_eq_true, if_false, TypeExpr.arrayIf_false, bind_pure]

/-- A single value with an enumeration has a reference as its type. -/
theorem exists_reference_element (hmembers : found.members.isSome = true)
    (hone : found.many = false) (owner field : String) (c : Collected) :
    ∃ name, ((r.element owner field found).run c).1 = .reference name := by
  have h := (r.draftsType_element owner field found).run c
  rw [Catalogue.element, Catalogue.elementVia, if_pos hmembers, hone] at h
  exact ⟨_, congrArg Prod.fst h⟩

end Resolver

/-- Whether a type position asks for no definition: it is empty or has a built-in type. -/
def isOwnType (type : Option TypeRef) : Bool :=
  match type with
  | none => true
  | some (.named name) => isBuiltin name
  | some (.element _ _) => false

namespace Resolver

variable {r : Resolver} {found : Element}

/-- A built-in type is no reference. -/
theorem typeRef_ne_reference {type : Option TypeRef} (h : isOwnType type = true) (c : Collected)
    (name : String) : ((r.typeRef type).run c).1 ≠ .reference name := by
  have hdrafts := congrArg Prod.fst ((r.draftsType_typeRef type).run c)
  rw [hdrafts]
  rcases type with _ | builtin | ⟨owner, field⟩
  · simp [Catalogue.typeRef, Catalogue.typeRefWithin, TypeSketch.named]
  · rw [Catalogue.typeRef, Catalogue.typeRefWithin, Catalogue.typeName]
    cases Primitive.ofBuiltin? builtin with
    | some primitive => simp [TypeSketch.named]
    | none => simp [show isBuiltin builtin = true from h, TypeSketch.named]
  · cases h

/-- **A key has the type of the element that it stands for, unless that has an enumeration.**  The
property for a key stands after those for the keys before it that the target has; it has the type of
the type position of the element as it is resolved then.  That is the type of the element if no
enumeration is written inside it; if one is, and the type position is empty or built in, it is
not. -/
theorem foreignKeys_keyType (r : Resolver) (c : Collected) (field separator : String)
    {element : Element} {target : String} {entity : Entity} (hsingle : element.many = false)
    (htarget : element.target = some target) (hentity : r.index.entity? target = some entity)
    {before after : List KeyPath} {path : KeyPath} (hkeys : element.keys = before ++ path :: after)
    (hfound : entity.elements.get? path.first = some found) (hone : found.many = false)
    (hvalue : found.isNavigation = false) :
    let position := before.countP fun path => (entity.elements.get? path.first).isSome
    let reached := ((r.keyProperties field target entity separator before).run c).2
    let made := ((r.foreignKeys field element separator).run c).1[position]?
    let expected : Property := ⟨field ++ separator ++ path.first, true,
      ((r.element target path.first found).run reached).1⟩
    made = some { expected with type := ((r.typeRef found.type).run reached).1 } ∧
      (found.members.isSome = false → made = some expected) ∧
      (found.members.isSome = true → isOwnType found.type = true → made ≠ some expected) := by
  have hkeysNotEmpty : element.keys.isEmpty = false := by
    rw [hkeys]
    cases before <;> rfl
  have hforeignKeys : r.foreignKeys field element separator =
      r.keyProperties field target entity separator (before ++ path :: after) := by
    rw [foreignKeys, hsingle, hkeysNotEmpty, htarget, ← hkeys]
    simp only [Bool.or_self, Bool.false_eq_true, if_false, hentity]
  have hmade := r.getElem?_keyProperties field target entity separator before after path hfound c
  rw [← hforeignKeys] at hmade
  intro position reached made expected
  refine ⟨hmade, fun hplain => ?_, fun hmembers hown heq => ?_⟩
  · show made = some ⟨_, _, ((r.element target path.first found).run reached).1⟩
    rw [element_eq_typeRef hplain hvalue hone]
    exact hmade
  · obtain ⟨name, hname⟩ :=
      exists_reference_element (r := r) hmembers hone target path.first reached
    have htype := congrArg Property.type (Option.some.inj (hmade.symm.trans heq))
    exact typeRef_ne_reference hown reached name (htype.trans hname)

/-- An association by three keys: one that its target does not have, one of a type of another
namespace, and one with an enumeration written inside it. -/
def orderedBooks : Table Value where
  entries :=
    [("a.Books", .object [("kind", .string "entity"), ("elements", .object
        [("group", .object [("type", .string "b.Group")]),
          ("status", .object [("type", .string "cds.String"),
            ("enum", .object [("new", .object [])])])])]),
      ("a.Orders", .object [("kind", .string "entity"), ("elements", .object
        [("book", .object [("type", .string "cds.Association"), ("target", .string "a.Books"),
          ("keys", .array [.object [("ref", .array [.string "gone"])],
            .object [("ref", .array [.string "group"])],
            .object [("ref", .array [.string "status"])]])])])]),
      ("b.Group", .object [("kind", .string "type"), ("type", .string "cds.String")])]
  distinct := by decide

/-- The scope table of that schema. -/
def orderedTable : ScopeTable :=
  ((ScopeTable.ofSchema (schemaOf orderedBooks)).toOption.getD .initial)

theorem ofSchema_orderedBooks :
    ScopeTable.ofSchema (schemaOf orderedBooks) = .ok orderedTable := by
  have hread : (ScopeTable.ofSchema (schemaOf orderedBooks)).toOption.map (fun _ => true) =
      some true := by decide +kernel
  obtain ⟨t, ht, -⟩ := exists_ok_of_map hread
  rw [orderedTable, ht]
  rfl

/-- The resolver for the file of the namespace `a`. -/
def besideOrders : Resolver := ⟨indexOf {} orderedTable, "a", []⟩

/-- The association leads to one `a.Books`, by three keys. -/
theorem exists_book : ∃ element, besideOrders.index.element? "a.Orders" "book" = some element ∧
    element.many = false ∧ element.target = some "a.Books" ∧
    element.keys = [⟨"gone", []⟩, ⟨"group", []⟩, ⟨"status", []⟩] := by
  have hread : (besideOrders.index.element? "a.Orders" "book").map
      (fun element => (element.many, element.target, element.keys)) =
      some (false, some "a.Books", [⟨"gone", []⟩, ⟨"group", []⟩, ⟨"status", []⟩]) := by
    decide +kernel
  obtain ⟨element, helement, hvalues⟩ := Option.map_eq_some_iff.1 hread
  simp only [Prod.mk.injEq] at hvalues
  exact ⟨element, helement, hvalues⟩

/-- The key `group` has the type of the element `group`, which asks for an import. -/
theorem foreignKeys_keyType_group : ∃ element found reached,
    besideOrders.index.element? "a.Orders" "book" = some element ∧
    besideOrders.index.element? "a.Books" "group" = some found ∧
    reached.warnings = [.unknownKey "gone" "book" "a.Books"] ∧
    ((besideOrders.element "a.Books" "group" found).run reached).1.text = "Group" ∧
    ((besideOrders.foreignKeys "book" element "_").run .none).1[0]? =
      some ⟨"book_group", true, ((besideOrders.element "a.Books" "group" found).run reached).1⟩ := by
  obtain ⟨element, helement, hsingle, htarget, hkeys⟩ := exists_book
  let warned := Collected.none.addWarning (.unknownKey "gone" "book" "a.Books")
  have hread : (besideOrders.index.entity? "a.Books").map (fun entity =>
      ((entity.elements.get? "gone").isNone, (entity.elements.get? "group").map fun found =>
        (found.many, found.isNavigation, found.members.isSome,
          ((besideOrders.element "a.Books" "group" found).run warned).1.text))) =
      some (true, some (false, false, false, "Group")) := by decide +kernel
  obtain ⟨entity, hentity, hvalues⟩ := Option.map_eq_some_iff.1 hread
  obtain ⟨hgone, hgroup⟩ := Prod.mk.inj hvalues
  obtain ⟨found, hfound, hread⟩ := Option.map_eq_some_iff.1 hgroup
  simp only [Prod.mk.injEq] at hread
  obtain ⟨hone, hvalue, hplain, htext⟩ := hread
  have hmade := (foreignKeys_keyType besideOrders .none "book" "_" hsingle htarget hentity
    (show element.keys = [⟨"gone", []⟩] ++ ⟨"group", []⟩ :: [⟨"status", []⟩] from hkeys) hfound
    hone hvalue).2.1 hplain
  have hreached : ((besideOrders.keyProperties "book" "a.Books" entity "_" [⟨"gone", []⟩]).run
      .none).2 = warned := by
    rw [keyProperties, Option.isNone_iff_eq_none.1 hgone]
    rfl
  have hposition : [(⟨"gone", []⟩ : KeyPath)].countP
      (fun path => (entity.elements.get? path.first).isSome) = 0 := by
    simp [Option.isNone_iff_eq_none.1 hgone]
  rw [hreached, hposition] at hmade
  have hfound' : besideOrders.index.element? "a.Books" "group" = some found := by
    rw [Index.element?, hentity, Option.bind_some, hfound]
  exact ⟨element, found, warned, helement, hfound', rfl, htext, hmade⟩

/-- Not every key has the type of the element that it stands for: the key `status` is a text,
whatever was resolved before, and the element is an enumeration. -/
theorem exists_key_of_other_type : ∃ element found,
    AcyclicReferences orderedTable.definition? ∧
    besideOrders.index.element? "a.Orders" "book" = some element ∧ element.many = false ∧
    element.target = some "a.Books" ∧ ⟨"status", []⟩ ∈ element.keys ∧
    besideOrders.index.element? "a.Books" "status" = some found ∧ found.many = false ∧
    found.isNavigation = false ∧
    ((besideOrders.element "a.Books" "status" found).run .none).1.text = "BooksStatus" ∧
    ((besideOrders.foreignKeys "book" element "_").run .none).1.map
      (fun property => (property.name, property.type.text)) =
        [("book_group", "Group"), ("book_status", "string")] ∧
    ∀ reached, ∀ property ∈ ((besideOrders.foreignKeys "book" element "_").run .none).1,
      property.name = "book_status" →
        property.type ≠ ((besideOrders.element "a.Books" "status" found).run reached).1 := by
  obtain ⟨element, helement, hsingle, htarget, hkeys⟩ := exists_book
  have hmade : (besideOrders.index.element? "a.Orders" "book").map (fun element =>
      ((besideOrders.foreignKeys "book" element "_").run .none).1.map fun property =>
        (property.name, property.type.text)) =
      some [("book_group", "Group"), ("book_status", "string")] := by decide +kernel
  have hreferences : (besideOrders.index.element? "a.Orders" "book").map (fun element =>
      ((besideOrders.foreignKeys "book" element "_").run .none).1.map fun property =>
        (property.name, property.type.references)) =
      some [("book_group", ["Group"]), ("book_status", [])] := by decide +kernel
  rw [helement, Option.map_some, Option.some.injEq] at hmade hreferences
  have hread : (besideOrders.index.element? "a.Books" "status").map (fun found =>
      (found.many, found.isNavigation, found.members.isSome,
        ((besideOrders.element "a.Books" "status" found).run .none).1.text)) =
      some (false, false, true, "BooksStatus") := by decide +kernel
  obtain ⟨found, hfound, hvalues⟩ := Option.map_eq_some_iff.1 hread
  simp only [Prod.mk.injEq] at hvalues
  obtain ⟨hone, hvalue, hmembers, htext⟩ := hvalues
  have hacyclic : AcyclicReferences orderedTable.definition? :=
    acyclicReferences_of_entries (rawDefinitions_schemaOf orderedBooks) ofSchema_orderedBooks
      (fun _ => 0) (by decide +kernel)
  refine ⟨element, found, hacyclic, helement, hsingle, htarget, by simp [hkeys], hfound, hone,
    hvalue, htext, hmade, fun reached property hp hname htype => ?_⟩
  -- the type of the key refers to nothing, that of the element refers to the enumeration
  obtain ⟨name, hreference⟩ := exists_reference_element (r := besideOrders) hmembers hone "a.Books"
    "status" reached
  have hmem : (property.name, property.type.references) ∈
      [("book_group", ["Group"]), ("book_status", [])] :=
    hreferences ▸ List.mem_map.2 ⟨property, hp, rfl⟩
  rw [hname, htype, hreference] at hmem
  simp [TypeExpr.references] at hmem

end Resolver

end SchemaTypings.Generation
