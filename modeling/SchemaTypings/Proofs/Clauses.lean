import Mathlib.Data.List.Perm.Basic
import SchemaTypings.Generation.Files
import SchemaTypings.Proofs.Sorting

/-!
# Import clauses

The import clauses of a file arrange its imports and change nothing else: every import stands in
one clause, under the namespace that it comes from.
-/

namespace SchemaTypings.Generation

open SchemaTypings.Typing

/-! ### Specifiers -/

theorem importsFrom_perm (imports : List Import) (namespaceName : String) :
    (importsFrom imports namespaceName).Perm
      (imports.filter fun i => i.namespaceName = namespaceName) :=
  List.mergeSort_perm _ _

@[simp] theorem localName_importedName (i : Import) : (importedName i).localName = i.localName := by
  rw [importedName, ImportedName.localName]
  split
  · next h => exact h.symm
  · rfl

/-- **The specifiers of a file are its imports in another order.** -/
theorem specifiers_perm (options : Options) (imports : List Import) :
    ((importClauses options imports).flatMap ImportClause.names).Perm
      (imports.map importedName) := by
  have hmem : ∀ i ∈ imports, i.namespaceName ∈ importedNamespaces imports :=
    fun i hi => (mem_ascending _ _).2 (List.mem_map_of_mem hi)
  have hparts := flatMap_filter_perm Import.namespaceName (nodup_ascending _) hmem
  have hsorted : ((importedNamespaces imports).flatMap (importsFrom imports)).Perm
      ((importedNamespaces imports).flatMap fun namespaceName =>
        imports.filter fun i => i.namespaceName = namespaceName) :=
    List.Perm.flatMap_left _ fun namespaceName _ => importsFrom_perm imports namespaceName
  have hnames : (importClauses options imports).flatMap ImportClause.names =
      ((importedNamespaces imports).flatMap (importsFrom imports)).map importedName := by
    rw [importClauses, List.flatMap_map, List.map_flatMap]
  rw [hnames]
  exact (hsorted.trans hparts).map importedName

/-- An import stands in the clause of its namespace. -/
theorem exists_clause_of_mem (options : Options) {imports : List Import} {i : Import}
    (h : i ∈ imports) : ∃ clause ∈ importClauses options imports,
      clause.moduleSpecifier = options.moduleSpecifier i.namespaceName ∧
        importedName i ∈ clause.names := by
  have hnamespace : i.namespaceName ∈ importedNamespaces imports :=
    (mem_ascending _ _).2 (List.mem_map_of_mem h)
  refine ⟨_, List.mem_map_of_mem hnamespace, rfl, List.mem_map_of_mem ?_⟩
  exact (importsFrom_perm imports i.namespaceName).mem_iff.2 (List.mem_filter.2 ⟨h, by simp⟩)

/-- Every specifier of a file comes from an import. -/
theorem exists_import_of_mem {options : Options} {imports : List Import} {clause : ImportClause}
    {specifier : ImportedName} (hc : clause ∈ importClauses options imports)
    (hs : specifier ∈ clause.names) : ∃ i ∈ imports, specifier = importedName i := by
  have hmem := (specifiers_perm options imports).mem_iff.1 (List.mem_flatMap.2 ⟨clause, hc, hs⟩)
  obtain ⟨i, hi, rfl⟩ := List.mem_map.1 hmem
  exact ⟨i, hi, rfl⟩

end SchemaTypings.Generation
