import Mathlib.Data.List.Induction
import SchemaTypings.Proofs.DeclaredNames

/-!
# Names of imports

An import keeps its identifier unless that is in use in the file, and is then given the name of its
namespace in front.  The longer name is not looked up again, so it is the only one that can clash:
`importsApart_iff` says exactly when the import names of a file are distinct and different from the
names that the file declares.
-/

namespace SchemaTypings.Generation

open SchemaTypings.Name SchemaTypings.Schema SchemaTypings.Typing

/-- The names that a file declares are among those that it keeps for itself. -/
theorem mem_localIdentifiers_of_topLevel (index : Index) (options : Options) (o : Outline)
    {name : String} (h : name ∈ (fileOf index options o).1.topLevelNames) :
    name ∈ o.localIdentifiers options.interfacePrefix :=
  (mem_localIdentifiers_iff index options o name).2 (Or.inl h)

/-! ### How names are chosen -/

/-- The name that an import is given when its identifier is in use. -/
def longName (i : Import) : String := Resolver.qualifier i.namespaceName ++ i.identifier

/-- The identifier of an import is in use in the file or by an import before it. -/
def InUse (localNames : List String) (before : List Import) (i : Import) : Prop :=
  i.identifier ∈ localNames ∨ i.identifier ∈ before.map Import.localName

instance (localNames : List String) (before : List Import) (i : Import) :
    Decidable (InUse localNames before i) :=
  inferInstanceAs (Decidable (_ ∨ _))

/-- Every import goes by its identifier unless that is in use, and then by its longer name. -/
def Chosen (localNames : List String) (imports : List Import) : Prop :=
  ∀ before i after, imports = before ++ i :: after →
    i.localName = if InUse localNames before i then longName i else i.identifier

/-- Every longer name that is given to an import is neither declared nor taken by an import before
it. -/
def LongNamesFree (declared localNames : List String) (imports : List Import) : Prop :=
  ∀ before i after, imports = before ++ i :: after → InUse localNames before i →
    longName i ∉ declared ∧ longName i ∉ before.map Import.localName

namespace Resolver

variable {r : Resolver}

theorem localName_newImport (c : Collected) (m : Mention) : (r.newImport c m).localName =
    if InUse r.localNames c.imports (r.newImport c m) then longName (r.newImport c m)
    else (r.newImport c m).identifier := by
  simp only [newImport, chooseLocalName, InUse, longName, Bool.or_eq_true, List.contains_iff_mem,
    c.taken_eq]

/-- A step keeps imports chosen. -/
theorem chosen_record {c : Collected} (h : Chosen r.localNames c.imports) (event : Event) :
    Chosen r.localNames (r.record c event).imports := by
  cases event with
  | warning w => exact h
  | mention m =>
    rw [record]
    split
    · exact h
    · intro before i after hi
      rw [Collected.addImport] at hi
      -- the import in question is the new one or was chosen before
      rcases List.eq_nil_or_concat' after with rfl | ⟨init, last, rfl⟩
      · obtain ⟨rfl, hlast⟩ := List.append_inj' hi rfl
        rw [← (List.cons.inj hlast).1]
        exact localName_newImport c m
      · rw [← List.cons_append, ← List.append_assoc] at hi
        obtain ⟨hinit, -⟩ := List.append_inj' hi rfl
        exact h before i init hinit

/-- A run keeps imports chosen. -/
theorem chosen_after {c : Collected} (h : Chosen r.localNames c.imports) (events : List Event) :
    Chosen r.localNames (r.after c events).imports := by
  induction events generalizing c with
  | nil => exact h
  | cons event rest ih => exact ih (chosen_record h event)

end Resolver

/-! ### Exactly the longer names can clash -/

theorem nodup_map_iff_split {α : Type} (f : α → String) (entries : List α) :
    (entries.map f).Nodup ↔
      ∀ before a after, entries = before ++ a :: after → f a ∉ before.map f := by
  constructor
  · rintro h before a after rfl hm
    rw [List.map_append, List.nodup_append] at h
    exact h.2.2 _ hm _ (by simp) rfl
  · intro h
    induction entries using List.reverseRecOn with
    | nil => exact List.nodup_nil
    | append_singleton init last ih =>
      have hinit := ih fun before a after he => h before a (after ++ [last]) (by rw [he]; simp)
      have hlast := h init last [] rfl
      rw [List.map_append, List.nodup_append]
      refine ⟨hinit, by simp, fun name hm other ho e => hlast ?_⟩
      rw [List.map_singleton, List.mem_singleton] at ho
      exact ho ▸ e ▸ hm

/-- Chosen names are distinct and undeclared exactly if the longer ones among them are free, as
long as everything declared counts as in use. -/
theorem nodup_and_undeclared_iff {declared localNames : List String} {imports : List Import}
    (hc : Chosen localNames imports) (hsub : ∀ name ∈ declared, name ∈ localNames) :
    (imports.map Import.localName).Nodup ∧ (∀ i ∈ imports, i.localName ∉ declared) ↔
      LongNamesFree declared localNames imports := by
  rw [nodup_map_iff_split]
  constructor
  · rintro ⟨hdistinct, hdeclared⟩ before i after hi huse
    have hlong : i.localName = longName i := (hc before i after hi).trans (if_pos huse)
    rw [← hlong]
    exact ⟨hdeclared i (by rw [hi]; simp), hdistinct before i after hi⟩
  · intro hfree
    have hboth : ∀ before i after, imports = before ++ i :: after →
        i.localName ∉ declared ∧ i.localName ∉ before.map Import.localName := by
      intro before i after hi
      rw [hc before i after hi]
      split
      · next huse => exact hfree before i after hi huse
      · next huse =>
        -- an identifier that is not in use is free as it stands, since declared names are local
        rw [InUse, not_or] at huse
        exact ⟨fun hd => huse.1 (hsub _ hd), huse.2⟩
    refine ⟨fun before i after hi => (hboth before i after hi).2, fun i hi => ?_⟩
    obtain ⟨before, after, hsplit⟩ := List.append_of_mem hi
    exact (hboth before i after hsplit).1

/-! ### Files -/

/-- The names that the import specifiers of a file bind. -/
def importedNames (file : SourceFile) : List String :=
  (file.imports.flatMap ImportClause.names).map ImportedName.localName

/-- The names that imports bind are distinct, and the file declares none of them. -/
def ImportsApart (file : SourceFile) : Prop :=
  (importedNames file).Nodup ∧ ∀ name ∈ importedNames file, name ∉ file.topLevelNames

instance (file : SourceFile) : Decidable (ImportsApart file) :=
  inferInstanceAs (Decidable (_ ∧ _))

theorem importedNames_fileOf_perm (index : Index) (options : Options) (o : Outline) :
    (importedNames (fileOf index options o).1).Perm
      ((collectedFor index options o).imports.map Import.localName) := by
  have h := (specifiers_perm options (collectedFor index options o).imports).map
    ImportedName.localName
  rw [List.map_map] at h
  rw [importedNames, fileOf_eq]
  refine h.trans (List.Perm.of_eq (List.map_congr_left fun i _ => localName_importedName i))

/-- **Imports clash exactly when a longer name does**: the import names of every generated file are
distinct and undeclared if and only if each longer name given to an import is. -/
theorem importsApart_iff (t : ScopeTable) (options : Options) :
    List.Forall₂ (fun o file => ImportsApart file ↔
        LongNamesFree file.topLevelNames (o.localIdentifiers options.interfacePrefix)
          (collectedFor (indexOf options t) options o).imports)
      (outlines options.sort t) (generate options t).files := by
  rw [files_generate, List.forall₂_map_right_iff]
  refine List.forall₂_same.2 fun o _ => ?_
  generalize indexOf options t = index
  have hperm := importedNames_fileOf_perm index options o
  have hchosen : Chosen (o.localIdentifiers options.interfacePrefix)
      (collectedFor index options o).imports :=
    Resolver.chosen_after (r := resolverFor index options o) (c := .none)
      (fun before i after hi => by simp [Collected.none] at hi) _
  rw [← nodup_and_undeclared_iff hchosen fun name hn =>
      mem_localIdentifiers_of_topLevel index options o hn, ImportsApart, hperm.nodup_iff]
  simp only [hperm.mem_iff, List.forall_mem_map]

/-- In the namespace `c` the identifier `X` of `a.b` is in use, and so is its longer name `ABX`. -/
def longNameDeclared : Json.Value :=
  .object [("definitions", .object
    [("a.b.X", .object [("kind", .string "type"), ("type", .string "cds.String")]),
      ("c.X", .object [("kind", .string "type"), ("type", .string "cds.String")]),
      ("c.ABX", .object [("kind", .string "type"), ("type", .string "cds.String")]),
      ("c.T", .object [("kind", .string "type"), ("type", .string "a.b.X")])])]

/-- Not all files of accepted schemas keep their imports apart: that of `c` imports `X` as `ABX`,
which it declares itself. -/
theorem exists_not_importsApart : ∃ t, ScopeTable.ofSchema longNameDeclared = .ok t ∧
    ∃ file ∈ (generate {} t).files, ¬ ImportsApart file := by
  have hclash : (ScopeTable.ofSchema longNameDeclared).toOption.map (fun t =>
      decide (∃ file ∈ (generate {} t).files, ¬ ImportsApart file)) = some true := by
    decide +kernel
  obtain ⟨t, ht, hfile⟩ := exists_ok_of_map hclash
  exact ⟨t, ht, of_decide_eq_true hfile⟩

end SchemaTypings.Generation
