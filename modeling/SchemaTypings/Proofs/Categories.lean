import SchemaTypings.Proofs.Sorting

/-!
# Categories

What an outline emits, category by category: `emission_ofScope` reads it off the definitions of the
scope, of which it loses none and repeats none.
-/

namespace SchemaTypings.Generation

open SchemaTypings.Schema

/-! ### Categories -/

/-- The categories of definitions. -/
inductive Category where
  | typeAlias
  | enumeration
  | entity
  | action
  deriving DecidableEq, Repr

/-- The categories in the order in which their definitions are emitted. -/
def Category.all : List Category := [.typeAlias, .enumeration, .entity, .action]

/-- The category of a definition. -/
def Category.of : Definition → Category
  | .typeAlias _ => .typeAlias
  | .enumeration _ => .enumeration
  | .entity _ => .entity
  | .action _ => .action

/-- The definitions of a category. -/
def ofCategory (category : Category) (entries : List (String × Definition)) :
    List (String × Definition) :=
  entries.filter fun d => Category.of d.2 = category

/-! ### The order inside an outline -/

theorem map_inOrder {α β : Type} (sorted : Bool) (entries : List (String × α)) (make : α → β) :
    (inOrder sorted entries).map (fun e => (e.1, make e.2)) =
      inOrder sorted (entries.map fun e => (e.1, make e.2)) := by
  cases sorted with
  | false => rfl
  | true => exact List.map_mergeSort fun _ _ _ _ => rfl

/-- The entries of one category, taken out, put in order and put back. -/
theorem map_inOrder_filterMap {α : Type} (pick : String × Definition → Option (String × α))
    (make : α → Definition) (category : Category)
    (h : ∀ d, (pick d).map (fun e => (e.1, make e.2)) =
      if Category.of d.2 = category then some d else none)
    (sorted : Bool) (entries : List (String × Definition)) :
    (inOrder sorted (entries.filterMap pick)).map (fun e => (e.1, make e.2)) =
      inOrder sorted (ofCategory category entries) := by
  have hentries : (entries.filterMap pick).map (fun e => (e.1, make e.2)) =
      ofCategory category entries := by
    rw [List.map_filterMap, ofCategory, ← List.filterMap_eq_filter]
    refine List.filterMap_congr fun d _ => ?_
    rw [h, Option.guard]
    simp
  rw [map_inOrder, hentries]

/-- An outline emits category by category what its scope holds. -/
theorem emission_ofScope (sorted : Bool) (scope : Scope) :
    (Outline.ofScope sorted scope).emission = Category.all.flatMap fun category =>
      inOrder sorted (ofCategory category scope.definitions.entries) := by
  have haliases := map_inOrder_filterMap aliasEntry? .typeAlias .typeAlias
    (by rintro ⟨name, definition⟩; cases definition <;> rfl) sorted scope.definitions.entries
  have henumerations := map_inOrder_filterMap enumerationEntry? .enumeration .enumeration
    (by rintro ⟨name, definition⟩; cases definition <;> rfl) sorted scope.definitions.entries
  have hentities := map_inOrder_filterMap entityEntry? .entity .entity
    (by rintro ⟨name, definition⟩; cases definition <;> rfl) sorted scope.definitions.entries
  have hactions := map_inOrder_filterMap actionEntry? .action .action
    (by rintro ⟨name, definition⟩; cases definition <;> rfl) sorted scope.definitions.entries
  simp only [Outline.emission, Outline.ofScope, haliases, henumerations, hentities, hactions,
    Category.all, List.flatMap_cons, List.flatMap_nil, List.append_nil, List.append_assoc]

/-- Of what an outline emits the definitions of a category stand together, in their order. -/
theorem ofCategory_emission_ofScope (category : Category) (sorted : Bool) (scope : Scope) :
    ofCategory category (Outline.ofScope sorted scope).emission =
      inOrder sorted (ofCategory category scope.definitions.entries) := by
  have hcategory (other : Category) :
      ∀ d ∈ inOrder sorted (ofCategory other scope.definitions.entries),
        Category.of d.2 = other := by
    intro d hd
    exact of_decide_eq_true (List.mem_filter.1 ((mem_inOrder _ _ _).1 hd)).2
  have hselected (other : Category) :
      ofCategory category (inOrder sorted (ofCategory other scope.definitions.entries)) =
        if other = category then inOrder sorted (ofCategory other scope.definitions.entries)
        else [] :=
    filter_of_forall_key (fun d : String × Definition => Category.of d.2) (hcategory other) category
  have happend (a b : List (String × Definition)) :
      ofCategory category (a ++ b) = ofCategory category a ++ ofCategory category b :=
    List.filter_append a b
  rw [emission_ofScope]
  simp only [Category.all, List.flatMap_cons, List.flatMap_nil, List.append_nil, happend, hselected]
  cases category <;> simp

/-! ### Nothing lost, nothing twice -/

theorem nodup_categories : Category.all.Nodup := by decide

theorem mem_categories (category : Category) : category ∈ Category.all := by
  cases category <;> decide

/-- An outline emits what its scope holds, each definition once. -/
theorem emission_ofScope_perm (sorted : Bool) (scope : Scope) :
    (Outline.ofScope sorted scope).emission.Perm scope.definitions.entries := by
  rw [emission_ofScope]
  refine (List.Perm.flatMap_left _ fun category _ => ?_).trans
    (flatMap_filter_perm (fun d : String × Definition => Category.of d.2) nodup_categories
      fun d _ => mem_categories _)
  cases sorted with
  | false => exact .refl _
  | true => exact List.mergeSort_perm _ _

/-- An outline emits the definitions of its scope. -/
theorem Outline.mem_emission_ofScope (sorted : Bool) (scope : Scope) (d : String × Definition) :
    d ∈ (Outline.ofScope sorted scope).emission ↔ d ∈ scope.definitions.entries :=
  (emission_ofScope_perm sorted scope).mem_iff

end SchemaTypings.Generation
