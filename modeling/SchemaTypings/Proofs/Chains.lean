import Mathlib.Data.List.Chain
import Mathlib.Data.List.Perm.Subperm
import Mathlib.Logic.Relation
import SchemaTypings.Proofs.Sketch
import SchemaTypings.Proofs.Tables

/-!
# Chains of element references

The type of an element may be that of another element, and so on.  If no such chain comes back to
where it started, it visits no element twice; then it has no more links than there are elements.
`ReferenceChain` is the chain that resolution follows, and a type position is resolved in the same
way with every bound that is no less than the chain is long.
-/

namespace SchemaTypings.Generation

open SchemaTypings.Schema

/-! ### References between elements -/

/-- The first element has the type of the second, which is named by its owner and field. -/
def RefersTo (definition? : String → Option Definition) (a b : String × String) : Prop :=
  ∃ entity element, (definition? a.1).bind Definition.entity? = some entity ∧
    entity.elements.get? a.2 = some element ∧ element.type = some (.element b.1 b.2)

/-- No chain of element references comes back to where it started. -/
def AcyclicReferences (definition? : String → Option Definition) : Prop :=
  ∀ a, ¬ Relation.TransGen (RefersTo definition?) a a

/-- There is no circle if every step leads down. -/
theorem not_transGen_self_of_rank {α : Type} {step : α → α → Prop} (rank : α → Nat)
    (h : ∀ a b, step a b → rank b < rank a) (a : α) : ¬ Relation.TransGen step a a := by
  have hdown : ∀ a b, Relation.TransGen step a b → rank b < rank a := by
    intro a b hab
    induction hab with
    | single hstep => exact h _ _ hstep
    | tail _ hstep ih => exact Nat.lt_trans (h _ _ hstep) ih
  exact fun ha => Nat.lt_irrefl _ (hdown a a ha)

theorem acyclicReferences_of_rank {definition? : String → Option Definition}
    (rank : String × String → Nat) (h : ∀ a b, RefersTo definition? a b → rank b < rank a) :
    AcyclicReferences definition? :=
  not_transGen_self_of_rank rank h

/-- The references between the elements of definitions. -/
def elementReferences (definitions : List (String × Definition)) :
    List ((String × String) × (String × String)) :=
  definitions.flatMap fun d => match d.2.entity? with
    | none => []
    | some entity => entity.elements.entries.filterMap fun entry => match entry.2.type with
      | some (.element owner field) => some ((d.1, entry.1), (owner, field))
      | _ => none

theorem mem_elementReferences {definitions : List (String × Definition)}
    (hd : (definitions.map Prod.fst).Nodup) {a b : String × String}
    (h : RefersTo (Table.find · definitions) a b) : (a, b) ∈ elementReferences definitions := by
  obtain ⟨entity, element, hentity, hget, htype⟩ := h
  obtain ⟨definition, hfind, hfound⟩ := Option.bind_eq_some_iff.1 hentity
  refine List.mem_flatMap.2 ⟨_, (Table.find_eq_some_iff hd a.1 definition).1 hfind, ?_⟩
  simp only [hfound]
  refine List.mem_filterMap.2
    ⟨_, (Table.find_eq_some_iff entity.elements.distinct a.2 element).1 hget, ?_⟩
  simp only [htype]

/-- Without circles a chain visits no element twice. -/
theorem AcyclicReferences.nodup {definition? : String → Option Definition}
    (h : AcyclicReferences definition?) {chain : List (String × String)}
    (hchain : chain.IsChain (RefersTo definition?)) : chain.Nodup := by
  have hlong : chain.IsChain (Relation.TransGen (RefersTo definition?)) :=
    hchain.imp fun _ _ => Relation.TransGen.single
  refine hlong.pairwise.imp fun {a b} hab hne => ?_
  subst hne
  exact h a hab

/-! ### Chains -/

/-- An element, with its owner and field. -/
structure Link where
  owner : String
  field : String
  element : Element

/-- The element whose type this one has.  An element with members or with a target has its type from
these. -/
def Link.next? (link : Link) : Option (String × String) :=
  if link.element.members.isSome || link.element.target.isSome then none
  else match link.element.type with
    | some (.element owner field) => some (owner, field)
    | _ => none

theorem Link.next?_eq_some_iff (link : Link) (next : String × String) : link.next? = some next ↔
    link.element.members = none ∧ link.element.target = none ∧
      link.element.type = some (.element next.1 next.2) := by
  obtain ⟨owner, field⟩ := next
  rw [next?]
  cases link.element.members with
  | some members => simp
  | none =>
    cases link.element.target with
    | some target => simp
    | none => rcases link.element.type with _ | name | ⟨owner', field'⟩ <;> simp

/-- The last link with neither members nor target has a type that is not that of an element. -/
theorem Link.type_ne_element {link : Link} (hlast : link.next? = none)
    (hm : link.element.members = none) (ht : link.element.target = none) (owner field : String) :
    link.element.type ≠ some (.element owner field) := by
  intro htype
  have hnext := (link.next?_eq_some_iff (owner, field)).2 ⟨hm, ht, htype⟩
  rw [hlast] at hnext
  cases hnext

/-- The links from the given element until there is no next one, in terms of how elements are
found. -/
inductive ReferenceChain (element? : String → String → Option Element) :
    String × String → List Link → Prop where
  /-- There is no such element. -/
  | missing {owner field : String} (missing : element? owner field = none) :
      ReferenceChain element? (owner, field) []
  /-- The element does not have the type of another one. -/
  | last {owner field : String} {element : Element} (found : element? owner field = some element)
      (last : (⟨owner, field, element⟩ : Link).next? = none) :
      ReferenceChain element? (owner, field) [⟨owner, field, element⟩]
  /-- The element has the type of the next one. -/
  | step {owner field : String} {element : Element} {next : String × String} {links : List Link}
      (found : element? owner field = some element)
      (step : (⟨owner, field, element⟩ : Link).next? = some next)
      (rest : ReferenceChain element? next links) :
      ReferenceChain element? (owner, field) (⟨owner, field, element⟩ :: links)

/-- From every element there is at most one chain. -/
theorem ReferenceChain.unique {element? : String → String → Option Element}
    {start : String × String} {links others : List Link}
    (h : ReferenceChain element? start links) (h' : ReferenceChain element? start others) :
    links = others := by
  induction h generalizing others with
  | missing missing => cases h' <;> simp_all
  | last found last => cases h' <;> simp_all
  | step found step rest ih =>
    cases h' with
    | missing missing => simp [found] at missing
    | last found' last => simp_all
    | step found' step' rest' =>
      obtain rfl := Option.some.inj (found.symm.trans found')
      obtain rfl := Option.some.inj (step.symm.trans step')
      rw [ih rest']

/-- At most so many links of the chain from an element. -/
def linksWithin (element? : String → String → Option Element) : Nat → String × String → List Link
  | 0, _ => []
  | bound + 1, (owner, field) =>
    match element? owner field with
    | none => []
    | some element => ⟨owner, field, element⟩ ::
      match (⟨owner, field, element⟩ : Link).next? with
      | none => []
      | some next => linksWithin element? bound next

theorem length_linksWithin_le (element? : String → String → Option Element) (bound : Nat)
    (start : String × String) : (linksWithin element? bound start).length ≤ bound := by
  induction bound generalizing start with
  | zero => exact Nat.le_refl 0
  | succ bound ih =>
    rw [linksWithin]
    split
    · exact Nat.zero_le _
    · split
      · exact Nat.succ_le_succ (Nat.zero_le _)
      · exact Nat.succ_le_succ (ih _)

namespace Catalogue

variable {k : Catalogue}

theorem refersTo_of_element? {owner field : String} {e : Element}
    (he : k.element? owner field = some e) {next : String × String}
    (htype : e.type = some (.element next.1 next.2)) :
    RefersTo k.definition? (owner, field) next := by
  obtain ⟨entity, hentity, hget⟩ := Option.bind_eq_some_iff.1 he
  exact ⟨entity, e, hentity, hget, htype⟩

/-- The links within a bound are the chain, unless there is a path longer than the bound. -/
theorem chain_or_exists_path (bound : Nat) (start : String × String) :
    ReferenceChain k.element? start (linksWithin k.element? bound start) ∨
      ∃ path : List (String × String), path.length = bound + 1 ∧ path.head? = some start ∧
        path.IsChain (RefersTo k.definition?) ∧
        ∀ a ∈ path, (k.element? a.1 a.2).isSome = true := by
  induction bound generalizing start with
  | zero =>
    obtain ⟨owner, field⟩ := start
    cases hf : k.element? owner field with
    | none => exact Or.inl (.missing hf)
    | some element =>
      exact Or.inr ⟨[(owner, field)], rfl, rfl, List.isChain_singleton _, by simp [hf]⟩
  | succ bound ih =>
    obtain ⟨owner, field⟩ := start
    rw [linksWithin]
    cases hf : k.element? owner field with
    | none => exact Or.inl (.missing hf)
    | some element =>
      dsimp only
      cases hn : (⟨owner, field, element⟩ : Link).next? with
      | none => exact Or.inl (.last hf hn)
      | some next =>
        -- a path from the next element is one longer from this one
        refine (ih next).imp (.step hf hn) ?_
        rintro ⟨path, hlength, hhead, hpath, hfound⟩
        refine ⟨(owner, field) :: path, by rw [List.length_cons, hlength], rfl, ?_, ?_⟩
        · refine hpath.cons fun after hafter => ?_
          obtain rfl := Option.some.inj (hhead.symm.trans hafter)
          exact refersTo_of_element? hf ((Link.next?_eq_some_iff _ _).1 hn).2.2
        · exact List.forall_mem_cons.2 ⟨by simp [hf], hfound⟩

/-- **Without circles every element has a chain, with no more links than there are elements.** -/
theorem chain_linksWithin (hacyclic : AcyclicReferences k.definition?)
    {elements : List (String × String)}
    (helements : ∀ a : String × String, (k.element? a.1 a.2).isSome = true → a ∈ elements)
    (start : String × String) :
    ReferenceChain k.element? start (linksWithin k.element? elements.length start) := by
  refine (chain_or_exists_path _ _).resolve_right ?_
  rintro ⟨path, hlength, -, hpath, hfound⟩
  -- a path one longer than the number of elements would have to visit one of them twice
  have hshort := (hacyclic.nodup hpath).length_le_of_subset fun a ha => helements a (hfound a ha)
  omega

/-! ### Resolution along a chain -/

/-- An element has the same type if its type position has, as far as that matters. -/
theorem elementVia_eq {typeOf typeOf' : Option TypeRef → TypeSketch} {link : Link}
    (h : link.element.members = none → link.element.target = none →
      typeOf' link.element.type = typeOf link.element.type) :
    k.elementVia typeOf' link.owner link.field link.element =
      k.elementVia typeOf link.owner link.field link.element := by
  rw [elementVia, elementVia]
  cases hm : link.element.members with
  | some members => rfl
  | none =>
    cases ht : link.element.target with
    | some target => simp [Element.isNavigation, ht]
    | none => rw [h hm ht]

/-- Only references to elements need a bound. -/
theorem typeRefWithin_of_not_element {type : Option TypeRef}
    (h : ∀ owner field, type ≠ some (.element owner field)) (fuel fuel' : Nat) :
    k.typeRefWithin fuel' type = k.typeRefWithin fuel type := by
  rcases type with _ | name | ⟨owner, field⟩
  · rw [typeRefWithin, typeRefWithin]
  · rw [typeRefWithin, typeRefWithin]
  · exact absurd rfl (h owner field)

/-- **All bounds no less than the length of the chain resolve alike.** -/
theorem typeRefWithin_of_chain {start : String × String} {links : List Link}
    (h : ReferenceChain k.element? start links) {fuel fuel' : Nat} (hfuel : links.length ≤ fuel)
    (hfuel' : links.length ≤ fuel') :
    k.typeRefWithin fuel' (some (.element start.1 start.2)) =
      k.typeRefWithin fuel (some (.element start.1 start.2)) := by
  induction h generalizing fuel fuel' with
  | missing missing =>
    unfold typeRefWithin
    simp only [missing]
  | @last owner field element found last =>
    obtain ⟨fuel, rfl⟩ := Nat.exists_eq_add_one_of_ne_zero (Nat.ne_of_gt hfuel)
    obtain ⟨fuel', rfl⟩ := Nat.exists_eq_add_one_of_ne_zero (Nat.ne_of_gt hfuel')
    unfold typeRefWithin
    simp only [found]
    exact @elementVia_eq _ _ _ ⟨owner, field, element⟩ fun hm ht =>
      typeRefWithin_of_not_element (Link.type_ne_element last hm ht) _ _
  | @step owner field element next links found step rest ih =>
    obtain ⟨fuel, rfl⟩ := Nat.exists_eq_add_one_of_ne_zero (Nat.ne_of_gt (Nat.zero_lt_of_lt hfuel))
    obtain ⟨fuel', rfl⟩ := Nat.exists_eq_add_one_of_ne_zero (Nat.ne_of_gt (Nat.zero_lt_of_lt hfuel'))
    unfold typeRefWithin
    simp only [found]
    refine @elementVia_eq _ _ _ ⟨owner, field, element⟩ fun _ _ => ?_
    rw [((Link.next?_eq_some_iff _ _).1 step).2.2]
    exact ih (Nat.le_of_succ_le_succ hfuel) (Nat.le_of_succ_le_succ hfuel')

/-- **Without circles all bounds no less than the number of elements resolve alike.** -/
theorem typeRefWithin_of_le (hacyclic : AcyclicReferences k.definition?)
    {elements : List (String × String)}
    (helements : ∀ a : String × String, (k.element? a.1 a.2).isSome = true → a ∈ elements)
    {fuel fuel' : Nat} (hfuel : elements.length ≤ fuel) (hle : fuel ≤ fuel')
    (type : Option TypeRef) : k.typeRefWithin fuel' type = k.typeRefWithin fuel type := by
  by_cases h : ∃ owner field, type = some (.element owner field)
  · obtain ⟨owner, field, rfl⟩ := h
    have hchain := chain_linksWithin hacyclic helements (owner, field)
    have hlength := length_linksWithin_le k.element? elements.length (owner, field)
    exact typeRefWithin_of_chain hchain (hlength.trans hfuel) ((hlength.trans hfuel).trans hle)
  · push Not at h
    exact typeRefWithin_of_not_element h _ _

end Catalogue

/-! ### The elements of an index -/

namespace Index

/-- The elements of an entry, each named by its owner and field. -/
def elementsOfEntry (entry : String × Entry) : List (String × String) :=
  match entry.2.definition.entity? with
  | some entity => entity.elements.keys.map (Prod.mk entry.1)
  | none => []

theorem length_elementsOfEntry (entry : String × Entry) :
    (elementsOfEntry entry).length = Entry.elementCount entry.2 := by
  rw [elementsOfEntry, Entry.elementCount]
  cases entry.2.definition.entity? with
  | none => rfl
  | some entity => simp [Table.keys, Table.size]

/-- The elements of all entries; there are as many as the bound says. -/
def elements (index : Index) : List (String × String) :=
  index.entries.entries.flatMap elementsOfEntry

theorem length_elements (index : Index) : index.elements.length = index.elementCount := by
  rw [elements, elementCount]
  induction index.entries.entries with
  | nil => rfl
  | cons entry rest ih =>
    rw [List.flatMap_cons, List.length_append, length_elementsOfEntry, ih]
    rfl

theorem mem_elements_of_element? {index : Index} {a : String × String}
    (h : (index.catalogue.element? a.1 a.2).isSome = true) : a ∈ index.elements := by
  obtain ⟨e, he⟩ := Option.isSome_iff_exists.1 h
  obtain ⟨entity, hentity, hget⟩ := Option.bind_eq_some_iff.1 he
  obtain ⟨definition, hdefinition, hfound⟩ := Option.bind_eq_some_iff.1 hentity
  obtain ⟨entry, hentry, rfl⟩ := Option.map_eq_some_iff.1 hdefinition
  have hmem : (a.1, entry) ∈ index.entries.entries :=
    (Table.find_eq_some_iff index.entries.distinct a.1 entry).1 hentry
  refine List.mem_flatMap.2 ⟨_, hmem, ?_⟩
  rw [elementsOfEntry, hfound]
  refine List.mem_map.2 ⟨a.2, ?_, rfl⟩
  rw [← Table.contains_iff, Table.contains, hget]
  rfl

theorem element?_catalogue_eq (index : Index) : index.catalogue.element? = index.element? :=
  funext fun _ => funext fun _ => element?_catalogue _ _

/-- The links of the chain from an element. -/
def links (index : Index) (owner field : String) : List Link :=
  linksWithin index.element? index.elementCount (owner, field)

theorem length_links_le (index : Index) (owner field : String) :
    (index.links owner field).length ≤ index.elementCount :=
  length_linksWithin_le _ _ _

/-- Without circles the links are the chain. -/
theorem chain_links {index : Index} (hacyclic : AcyclicReferences index.catalogue.definition?)
    (owner field : String) :
    ReferenceChain index.element? (owner, field) (index.links owner field) := by
  have h := Catalogue.chain_linksWithin hacyclic (fun _ => mem_elements_of_element?) (owner, field)
  rwa [length_elements, element?_catalogue_eq] at h

end Index

end SchemaTypings.Generation
