import SchemaTypings.Options.Reading
import SchemaTypings.Proofs.Closure
import SchemaTypings.Proofs.Emission

/-!
# File names

The files of a schema are named like their scopes, and what has no name goes by the name that the
options give to the file of the global scope.  Declared scopes with a name are told apart by it, so
two files clash only over the name of the global file: `fileNames_nodup_iff` says when.
-/

namespace SchemaTypings

namespace Options

/-- Only scopes of equal display names have equal file names. -/
theorem fileName_inj (options : Options) {name other : String} :
    options.fileName name = options.fileName other ↔
      options.displayName name = options.displayName other := by
  rw [fileName, fileName]
  constructor
  · intro h
    have hlists := congrArg String.toList h
    rw [String.toList_append, String.toList_append] at hlists
    exact String.toList_inj.1 (List.append_cancel_right hlists)
  · intro h
    rw [h]

theorem displayName_empty (options : Options) : options.displayName "" = options.globalFileName :=
  if_pos rfl

theorem displayName_of_ne (options : Options) {name : String} (h : name ≠ "") :
    options.displayName name = name :=
  if_neg h

/-- Valid options name the file of the global scope. -/
theorem globalFileName_ne_empty {options : Options} (h : options.validate = .ok options) :
    options.globalFileName ≠ "" := by
  intro hempty
  rw [validate, hempty] at h
  cases h

end Options

end SchemaTypings

namespace SchemaTypings.Generation

open SchemaTypings.Schema SchemaTypings.Typing

/-- Every declared scope has a file, except the global one when it is empty. -/
def HasFile (t : ScopeTable) (key : ScopeKey) : Prop :=
  key ∈ t.keys ∧ (key = .global → (t.definitionsOf .global).isEmpty = false)

/-- The file of the global scope has its name for itself. -/
structure StemsApart (options : Options) (t : ScopeTable) : Prop where
  /-- The global scope and a service without a name do not both have a file. -/
  unnamed : ⟨.service, ""⟩ ∈ t.keys → (t.definitionsOf .global).isEmpty = true
  /-- If one of them has a file, no scope is named like it. -/
  stem : ⟨.service, ""⟩ ∈ t.keys ∨ (t.definitionsOf .global).isEmpty = false →
    ∀ key ∈ t.keys, key.name ≠ options.globalFileName

end SchemaTypings.Generation

namespace SchemaTypings.Schema.Placed

open SchemaTypings.Generation SchemaTypings.Typing

variable {services : List String} {placed : List (String × Definition)} {t : ScopeTable}

/-- The scopes with files are those of the outlines. -/
theorem mem_map_key_outlines_iff (h : Placed services placed t) (sorted : Bool) (key : ScopeKey) :
    key ∈ (outlines sorted t).map Outline.key ↔ HasFile t key := by
  have hdefinitions {scope : Scope} (hs : scope ∈ t.scopes) (hg : scope.key = .global) :
      (t.definitionsOf .global).isEmpty = false ↔ scope.definitions.entries ≠ [] := by
    rw [← hg, ScopeTable.definitionsOf, ScopeTable.scope?_of_mem h.keys_nodup hs]
    simp [Table.isEmpty]
  rw [List.mem_map]
  constructor
  · rintro ⟨o, ho, rfl⟩
    obtain ⟨scope, hs, rfl, hn⟩ := (h.mem_outlines_iff sorted o).1 ho
    exact ⟨List.mem_map_of_mem hs, fun hg => (hdefinitions hs hg).2 (hn hg)⟩
  · rintro ⟨hk, hn⟩
    obtain ⟨scope, hs, rfl⟩ := List.mem_map.1 hk
    refine ⟨Outline.ofScope sorted scope, ?_, rfl⟩
    exact (h.mem_outlines_iff sorted _).2 ⟨scope, hs, rfl, fun hg => (hdefinitions hs hg).1 (hn hg)⟩

/-- A scope without a name is the global one or a service. -/
theorem eq_of_name_empty (h : Placed services placed t) {key : ScopeKey} (hk : key ∈ t.keys)
    (hname : key.name = "") : key = .global ∨ key = ⟨.service, ""⟩ := by
  obtain ⟨kind, name⟩ := key
  obtain rfl : name = "" := hname
  cases kind with
  | global => exact Or.inl rfl
  | service => exact Or.inr rfl
  | nameSpace =>
    obtain ⟨d, -, ho⟩ := (h.nameSpace_mem "").1 hk
    exact Or.inl (h.eq_global_of_owner ho rfl)

/-! ### Display names -/

/-- If files are told apart by their display names, the stems are apart. -/
theorem stemsApart_of_inj (h : Placed services placed t) {options : Options}
    (hglobal : options.globalFileName ≠ "") (hinj : ∀ a b, HasFile t a → HasFile t b →
      options.displayName a.name = options.displayName b.name → a = b) :
    StemsApart options t := by
  constructor
  case unnamed =>
    intro hs
    by_contra hfull
    cases hinj .global ⟨.service, ""⟩ ⟨h.global_mem, fun _ => by simpa using hfull⟩ ⟨hs, nofun⟩ rfl
  case stem =>
    intro hfile key hk hname
    have hnamed : key.name ≠ "" := hname ▸ hglobal
    -- the file of the scope without a name would have the name of this one
    obtain ⟨unnamed, hu, hempty⟩ : ∃ u, HasFile t u ∧ u.name = "" := by
      rcases hfile with hs | hg
      · exact ⟨⟨.service, ""⟩, ⟨hs, nofun⟩, rfl⟩
      · exact ⟨.global, ⟨h.global_mem, fun _ => hg⟩, rfl⟩
    have hdisplay : options.displayName key.name = options.displayName unnamed.name := by
      rw [options.displayName_of_ne hnamed, hempty, options.displayName_empty, hname]
    have hkey : HasFile t key := ⟨hk, fun hg => absurd (congrArg ScopeKey.name hg) hnamed⟩
    exact hnamed (hinj key unnamed hkey hu hdisplay ▸ hempty)

/-- If the stems are apart, at most one scope without a name has a file. -/
theorem eq_of_unnamed (h : Placed services placed t) {options : Options}
    (hapart : StemsApart options t) {a b : ScopeKey} (ha : HasFile t a) (hb : HasFile t b)
    (hname : a.name = "") (hname' : b.name = "") : a = b := by
  rcases h.eq_of_name_empty ha.1 hname with rfl | rfl
  · rcases h.eq_of_name_empty hb.1 hname' with rfl | rfl
    · rfl
    · exact absurd (hapart.unnamed hb.1) (by simp [ha.2 rfl])
  · rcases h.eq_of_name_empty hb.1 hname' with rfl | rfl
    · exact absurd (hapart.unnamed ha.1) (by simp [hb.2 rfl])
    · rfl

/-- If the stems are apart, no scope with a name goes by the display name of one without. -/
theorem name_empty_of_displayName_eq (h : Placed services placed t) {options : Options}
    (hapart : StemsApart options t) {a b : ScopeKey} (ha : HasFile t a) (hb : HasFile t b)
    (hname : a.name = "") (hdisplay : options.displayName a.name = options.displayName b.name) :
    b.name = "" := by
  by_contra hnamed
  rw [hname, options.displayName_empty, options.displayName_of_ne hnamed] at hdisplay
  refine hapart.stem ?_ b hb.1 hdisplay.symm
  rcases h.eq_of_name_empty ha.1 hname with rfl | rfl
  · exact Or.inr (ha.2 rfl)
  · exact Or.inl ha.1

/-- If the stems are apart, files are told apart by their display names. -/
theorem displayName_inj (h : Placed services placed t) {options : Options}
    (hapart : StemsApart options t) {a b : ScopeKey} (ha : HasFile t a) (hb : HasFile t b)
    (hdisplay : options.displayName a.name = options.displayName b.name) : a = b := by
  by_cases hname : a.name = ""
  · exact h.eq_of_unnamed hapart ha hb hname
      (h.name_empty_of_displayName_eq hapart ha hb hname hdisplay)
  · have hname' : b.name ≠ "" := fun hempty =>
      hname (h.name_empty_of_displayName_eq hapart hb ha hempty hdisplay.symm)
    rw [options.displayName_of_ne hname, options.displayName_of_ne hname'] at hdisplay
    exact h.key_ext ha.1 hb.1 hdisplay hname

/-- The files have distinct names exactly if the stems are apart. -/
theorem nodup_fileNames_iff (h : Placed services placed t) {options : Options}
    (hglobal : options.globalFileName ≠ "") :
    (((outlines options.sort t).map Outline.key).map fun key => options.fileName key.name).Nodup ↔
      StemsApart options t := by
  rw [List.nodup_map_iff_inj_on (h.nodup_map_key_outlines options.sort)]
  simp only [h.mem_map_key_outlines_iff, Options.fileName_inj]
  constructor
  · intro hinj
    exact h.stemsApart_of_inj hglobal fun a b ha hb => hinj a ha b hb
  · intro hapart a ha b hb
    exact h.displayName_inj hapart ha hb

end SchemaTypings.Schema.Placed

namespace SchemaTypings.Generation

open SchemaTypings.Schema SchemaTypings.Typing

theorem map_fileName_files (options : Options) (t : ScopeTable) :
    (generate options t).files.map SourceFile.fileName =
      ((outlines options.sort t).map Outline.key).map fun key => options.fileName key.name := by
  rw [files_generate, List.map_map, List.map_map]
  refine List.map_congr_left fun o _ => ?_
  simp only [Function.comp_apply, fileOf_eq, Outline.name]

/-- **File names clash only over the name of the global file**: with valid options the files of an
accepted schema have distinct names if and only if the stems are apart, and then every file of the
output is found by its name. -/
theorem fileNames_nodup_iff {schema : Json.Value} {t : ScopeTable} {options : Options}
    (ht : ScopeTable.ofSchema schema = .ok t) (hv : options.validate = .ok options) :
    (((generate options t).files.map SourceFile.fileName).Nodup ↔ StemsApart options t) ∧
      (StemsApart options t → ∀ file ∈ (generate options t).render.files,
        (generate options t).render.file? file.fileName = some file) := by
  obtain ⟨definitions, read, -, -, h⟩ := placed_ofSchema ht
  have hiff : ((generate options t).files.map SourceFile.fileName).Nodup ↔
      StemsApart options t := by
    rw [map_fileName_files]
    exact h.nodup_fileNames_iff (Options.globalFileName_ne_empty hv)
  refine ⟨hiff, fun hapart file hfile => ?_⟩
  refine Table.find?_key_of_mem ?_ hfile
  have hnames : (generate options t).render.files.map RenderedFile.fileName =
      (generate options t).files.map SourceFile.fileName := by
    rw [Generated.render, List.map_map]
    rfl
  rw [hnames]
  exact hiff.2 hapart

/-- A definition of the global scope, one of a namespace, and a service without definitions. -/
def threeScopes : Table Json.Value where
  entries :=
    [("T", .object [("kind", .string "type"), ("type", .string "cds.String")]),
      ("a.X", .object [("kind", .string "type"), ("type", .string "cds.String")]),
      ("S", .object [("kind", .string "service")])]
  distinct := by decide

/-- The files of the three scopes have distinct names, so each is found by its own. -/
theorem fileNames_nodup_threeScopes :
    ∃ t, ScopeTable.ofSchema (schemaOf threeScopes) = .ok t ∧
      (generate {} t).files.map SourceFile.fileName = ["a.ts", "S.ts", "cds.ts"] ∧
      StemsApart {} t ∧ ∀ file ∈ (generate {} t).render.files,
        (generate {} t).render.file? file.fileName = some file := by
  have hnames : (ScopeTable.ofSchema (schemaOf threeScopes)).toOption.map
      (fun t => (generate {} t).files.map SourceFile.fileName) =
        some ["a.ts", "S.ts", "cds.ts"] := by decide +kernel
  obtain ⟨t, ht, hfiles⟩ := exists_ok_of_map hnames
  obtain ⟨hiff, hfound⟩ := fileNames_nodup_iff ht (rfl : Options.validate {} = .ok {})
  have hapart : StemsApart {} t := hiff.1 (hfiles ▸ by decide)
  exact ⟨t, ht, hfiles, hapart, hfound hapart⟩

/-- A namespace with the name that the file of the global scope goes by, and a definition of the
global scope. -/
def globalStemTaken : Table Json.Value where
  entries :=
    [("cds.X", .object [("kind", .string "type"), ("type", .string "cds.String")]),
      ("Y", .object [("kind", .string "type"), ("type", .string "cds.String")])]
  distinct := by decide

/-- Not all accepted schemas have files of distinct names under valid options: with the default
ones the namespace `cds` and the global scope share a file name, by which only the file of the
namespace is found. -/
theorem exists_fileNames_clash : ∃ t, ScopeTable.ofSchema (schemaOf globalStemTaken) = .ok t ∧
    Options.validate {} = .ok {} ∧
    (generate {} t).files.map (fun file => (file.fileName, file.namespaceName)) =
      [("cds.ts", "cds"), ("cds.ts", "")] ∧
    ¬ ((generate {} t).files.map SourceFile.fileName).Nodup ∧
    ((generate {} t).render.file? "cds.ts").map RenderedFile.namespaceName = some "cds" := by
  have hclash : (ScopeTable.ofSchema (schemaOf globalStemTaken)).toOption.map
      (fun t => ((generate {} t).files.map fun file => (file.fileName, file.namespaceName),
        (generate {} t).files.map SourceFile.fileName,
        ((generate {} t).render.file? "cds.ts").map RenderedFile.namespaceName)) =
      some ([("cds.ts", "cds"), ("cds.ts", "")], ["cds.ts", "cds.ts"], some "cds") := by
    decide +kernel
  obtain ⟨t, ht, hfiles⟩ := exists_ok_of_map hclash
  simp only [Prod.mk.injEq] at hfiles
  refine ⟨t, ht, rfl, hfiles.1, ?_, hfiles.2.2⟩
  rw [hfiles.2.1]
  decide

end SchemaTypings.Generation
