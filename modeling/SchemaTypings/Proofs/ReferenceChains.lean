import Mathlib.Logic.Function.Iterate
import SchemaTypings.Proofs.Diagnosis

/-!
# The end of a chain of element references

A reference to an element is resolved at the end of the chain that starts there.
`Resolver.chainType` is the type of a chain, read off its last link and the number of links that add
an array; `typeRef_eq_chainType` says that without circles the type of a reference is that of its
chain, and that at most one import or one warning is collected for it.
-/

namespace SchemaTypings.Generation

open SchemaTypings.Json SchemaTypings.Name SchemaTypings.Schema SchemaTypings.Typing

/-! ### The type at the end of a chain -/

/-- Whether a link makes an array of the type at the end.  An association without target has no type
of which there could be many. -/
def Link.addsArray (link : Link) : Bool :=
  link.element.many && (link.element.members.isSome || link.element.target.isSome ||
    !link.element.isAssociationType)

namespace Resolver

/-- The type that the last link of a chain gives, before it is made an array. -/
def endingType (r : Resolver) (link : Link) : Resolving TypeExpr :=
  if link.element.members.isSome then r.inlineEnum link.owner link.field
  else match link.element.target with
    | some target => r.referenceOr target (.unresolvedTarget target)
    | none =>
      if link.element.isAssociationType then do
        warn (.missingTarget link.owner link.field)
        return .unknown
      else match link.element.type with
        | some (.named name) => r.typeName name
        | some (.element owner field) => do
          warn (.unresolvedElement owner field)
          return .unknown
        | none => return .unknown

/-- The type of the chain from an element: that of its last link, made an array once for every link
that adds one.  Without links there is no such element. -/
def chainType (r : Resolver) (owner field : String) (links : List Link) : Resolving TypeExpr :=
  match links.getLast? with
  | none => do
    warn (.unresolvedElement owner field)
    return .unknown
  | some last => do
    return TypeExpr.array^[links.countP Link.addsArray] (← r.endingType last)

variable {r : Resolver}

theorem arrayIf_iterate (type : TypeExpr) (n : Nat) (many : Bool) :
    (TypeExpr.array^[n] type).arrayIf many = TypeExpr.array^[n + many.toNat] type := by
  cases many with
  | false => rfl
  | true => exact (Function.iterate_succ_apply' TypeExpr.array n type).symm

theorem countP_addsArray_cons (link : Link) (rest : List Link) :
    (link :: rest).countP Link.addsArray = rest.countP Link.addsArray + link.addsArray.toNat := by
  rw [List.countP_cons]
  cases link.addsArray <;> rfl

/-- A link that has the type of another element adds an array if there are many. -/
theorem addsArray_of_next? {link : Link} {next : String × String} (h : link.next? = some next) :
    link.addsArray = link.element.many := by
  obtain ⟨-, -, htype⟩ := (link.next?_eq_some_iff next).1 h
  simp [Link.addsArray, Element.isAssociationType, htype]

/-- Where the next element does not exist, the link gives no type. -/
theorem endingType_of_next? {link : Link} {next : String × String} (h : link.next? = some next) :
    r.endingType link = do
      warn (.unresolvedElement next.1 next.2)
      return .unknown := by
  obtain ⟨hm, ht, htype⟩ := (link.next?_eq_some_iff next).1 h
  simp [endingType, hm, ht, Element.isAssociationType, htype]

/-- One more link adds its own array to the type of the chain from the next element. -/
theorem chainType_cons {link : Link} {next : String × String} (h : link.next? = some next)
    (owner field : String) (rest : List Link) : r.chainType owner field (link :: rest) = do
      return (← r.chainType next.1 next.2 rest).arrayIf link.element.many := by
  have hmany := addsArray_of_next? h
  cases rest with
  | nil =>
    rw [chainType, chainType, List.getLast?_singleton, List.countP_cons, hmany]
    simp only [endingType_of_next? h, List.getLast?_nil, bind_assoc, pure_bind]
    cases link.element.many <;> rfl
  | cons after rest =>
    obtain ⟨last, hlast⟩ : ∃ last, (after :: rest).getLast? = some last :=
      ⟨_, List.getLast?_eq_some_getLast (List.cons_ne_nil after rest)⟩
    rw [chainType, chainType, List.getLast?_cons_cons, hlast, countP_addsArray_cons, hmany]
    simp only [← arrayIf_iterate, bind_assoc, pure_bind]

/-- A link without a next one gives its own type. -/
theorem elementVia_of_last {link : Link} (hlast : link.next? = none) (fuel : Nat)
    (owner field : String) :
    r.elementVia (r.typeRefWithin fuel) link.owner link.field link.element =
      r.chainType owner field [link] := by
  have harray (type : TypeExpr) : TypeExpr.array^[[link].countP Link.addsArray] type =
      type.arrayIf link.addsArray := by
    rw [countP_addsArray_cons, ← arrayIf_iterate]
    rfl
  rw [chainType, List.getLast?_singleton]
  simp only [harray]
  -- the type comes from the members, else from the target, else from the type position
  rw [elementVia, endingType, Link.addsArray]
  cases hm : link.element.members with
  | some members => simp
  | none =>
    cases ht : link.element.target with
    | some target => simp [Element.isNavigation, ht, Resolver.target]
    | none =>
      cases ha : link.element.isAssociationType with
      | true => simp [Element.isNavigation, ht, ha]
      | false =>
        have hplain := Link.type_ne_element hlast hm ht
        rcases htype : link.element.type with _ | name | ⟨owner', field'⟩
        · simp [Element.isNavigation, ht, ha, typeRefWithin]
        · simp [Element.isNavigation, ht, ha, typeRefWithin]
        · exact absurd htype (hplain owner' field')

/-- A link with a next one gives the type of that. -/
theorem elementVia_of_next? {link : Link} {next : String × String} (h : link.next? = some next)
    (resolve : Option TypeRef → Resolving TypeExpr) :
    r.elementVia resolve link.owner link.field link.element = do
      return (← resolve (some (.element next.1 next.2))).arrayIf link.element.many := by
  obtain ⟨hm, ht, htype⟩ := (link.next?_eq_some_iff next).1 h
  simp [elementVia, hm, ht, htype, Element.isNavigation, Element.isAssociationType]

/-- **A reference has the type of its chain, with every bound no less than the chain is long.** -/
theorem typeRefWithin_eq_chainType {start : String × String} {links : List Link}
    (h : ReferenceChain r.index.element? start links) {fuel : Nat} (hfuel : links.length ≤ fuel) :
    r.typeRefWithin fuel (some (.element start.1 start.2)) =
      r.chainType start.1 start.2 links := by
  induction h generalizing fuel with
  | missing missing =>
    unfold typeRefWithin
    simp only [missing]
    rfl
  | @last owner field element found last =>
    obtain ⟨fuel, rfl⟩ := Nat.exists_eq_add_one_of_ne_zero (Nat.ne_of_gt hfuel)
    unfold typeRefWithin
    simp only [found]
    exact elementVia_of_last last fuel owner field
  | @step owner field element next links found step rest ih =>
    obtain ⟨fuel, rfl⟩ := Nat.exists_eq_add_one_of_ne_zero (Nat.ne_of_gt (Nat.zero_lt_of_lt hfuel))
    unfold typeRefWithin
    simp only [found]
    rw [chainType_cons step, ← ih (Nat.le_of_succ_le_succ hfuel)]
    exact elementVia_of_next? step _

end Resolver

/-! ### References to elements -/

/-- **A reference to an element is resolved at the end of its chain.**  Without circles there is
exactly one chain from an element, no longer than there are elements.  Every bound that is no less
than its length gives the type of the chain, so resolution satisfies its recursion equation as if
there were no bound; and for the whole chain at most one import or one warning is added to what was
collected before. -/
theorem typeRef_eq_chainType {r : Resolver}
    (hacyclic : AcyclicReferences r.index.catalogue.definition?) (owner field : String) :
    ∃ links, (∀ others, ReferenceChain r.index.element? (owner, field) others ↔ others = links) ∧
      links.length ≤ r.index.elementCount ∧
      (∀ bound, links.length ≤ bound → r.typeRefWithin bound (some (.element owner field)) =
        r.chainType owner field links) ∧
      (∀ element, r.index.element? owner field = some element →
        r.typeRef (some (.element owner field)) = r.element owner field element) ∧
      r.typeRef (some (.element owner field)) = r.chainType owner field links ∧
      ∀ c, ∃ imports warnings,
        ((r.typeRef (some (.element owner field))).run c).2.imports = c.imports ++ imports ∧
        ((r.typeRef (some (.element owner field))).run c).2.warnings = c.warnings ++ warnings ∧
        imports.length + warnings.length ≤ 1 := by
  have hchain := Index.chain_links hacyclic owner field
  have hlength := r.index.length_links_le owner field
  have hbound : ∀ bound, (r.index.links owner field).length ≤ bound →
      r.typeRefWithin bound (some (.element owner field)) =
        r.chainType owner field (r.index.links owner field) :=
    fun bound hle => Resolver.typeRefWithin_eq_chainType hchain hle
  refine ⟨_, fun others => ⟨fun h => h.unique hchain, fun h => h ▸ hchain⟩, hlength, hbound,
    fun element found => ?_, hbound _ hlength, fun c => ?_⟩
  · -- one more than the bound makes no difference, and leaves the bound for the next element
    have hmore : r.typeRefWithin (r.index.elementCount + 1) (some (.element owner field)) =
        r.element owner field element := by
      rw [Resolver.typeRefWithin, found]
      rfl
    rw [Resolver.typeRef, hbound _ hlength, ← hbound _ (Nat.le_succ_of_le hlength), hmore]
  · obtain ⟨imports, warnings, hi, hw, hle⟩ := Resolver.exists_added_after (r := r) c
      (r.index.catalogue.typeRef (some (.element owner field))).events
    rw [(r.draftsType_typeRef _).run c]
    exact ⟨imports, warnings, hi, hw, hle.trans (r.index.catalogue.flat_typeRef _).length_events_le⟩

/-- A field with as many values of the type of another one, which has the type of an association to
many in another namespace. -/
def shelvedBooks : Table Value where
  entries :=
    [("a.Books", .object [("kind", .string "entity"), ("elements", .object
        [("copies", .object [("items", .object [("type", .object
            [("ref", .array [.string "a.Books", .string "shelf"])])])]),
          ("shelf", .object [("type", .object
            [("ref", .array [.string "b.Shelves", .string "books"])])])])]),
      ("b.Shelves", .object [("kind", .string "entity"), ("elements", .object
        [("books", .object [("type", .string "cds.Association"), ("target", .string "b.Books"),
          ("cardinality", .object [("max", .string "*")])])])]),
      ("b.Books", .object [("kind", .string "entity")])]
  distinct := by decide

/-- The resolver for a file that has an identifier `Books` of its own. -/
def besideBooks (t : ScopeTable) : Resolver := ⟨indexOf {} t, "a", ["Books"]⟩

/-- The chain has three links, of which two add an array, and its end asks for one import. -/
theorem typeRef_eq_chainType_shelved : ∃ t, ScopeTable.ofSchema (schemaOf shelvedBooks) = .ok t ∧
    AcyclicReferences (besideBooks t).index.catalogue.definition? ∧
    ∃ links, ReferenceChain (besideBooks t).index.element? ("a.Books", "copies") links ∧
      links.map (fun link => (link.owner, link.field)) =
        [("a.Books", "copies"), ("a.Books", "shelf"), ("b.Shelves", "books")] ∧
      links.countP Link.addsArray = 2 ∧
      ∃ made, ((besideBooks t).typeRef (some (.element "a.Books" "copies"))).run .none = made ∧
        ((besideBooks t).chainType "a.Books" "copies" links).run .none = made ∧
        made.1.text = "BBooks[][]" ∧ made.2.imports = [⟨"b", "Books", "BBooks"⟩] := by
  have hcomputed : (ScopeTable.ofSchema (schemaOf shelvedBooks)).toOption.map (fun t =>
      let links := (besideBooks t).index.links "a.Books" "copies"
      let made := ((besideBooks t).typeRef (some (.element "a.Books" "copies"))).run .none
      decide (links.map (fun link => (link.owner, link.field)) =
          [("a.Books", "copies"), ("a.Books", "shelf"), ("b.Shelves", "books")] ∧
        links.countP Link.addsArray = 2 ∧ made.1.text = "BBooks[][]" ∧
        made.2.imports = [⟨"b", "Books", "BBooks"⟩])) = some true := by decide +kernel
  obtain ⟨t, ht, hcomputed⟩ := exists_ok_of_map hcomputed
  obtain ⟨hfields, harrays, htext, himports⟩ := of_decide_eq_true hcomputed
  have hraw := rawDefinitions_schemaOf shelvedBooks
  have hacyclic : AcyclicReferences (besideBooks t).index.catalogue.definition? :=
    ((placed_keptEntry hraw ht).definition?_ofScopes _).symm ▸ acyclicReferences_of_entries hraw ht
      (fun a => if a.2 = "copies" then 2 else if a.2 = "shelf" then 1 else 0) (by decide +kernel)
  obtain ⟨links, hunique, -, -, -, htype, -⟩ := typeRef_eq_chainType hacyclic "a.Books" "copies"
  obtain rfl := (hunique _).1 (Index.chain_links hacyclic "a.Books" "copies")
  exact ⟨t, ht, hacyclic, _, (hunique _).2 rfl, hfields, harrays, _, rfl, by rw [htype], htext,
    himports⟩

end SchemaTypings.Generation
