import SchemaTypings.Proofs.Drafting
import SchemaTypings.Proofs.Tables

/-!
# The interface prefix

Declarations made with two interface prefixes correspond one to one.  The prefixes stand in front of
the same stems of interfaces and groups; besides, only references may be spelled differently, since
other names may be taken and other imports may get long names.  Both lists are the same sketches,
named in two ways.
-/

namespace SchemaTypings.Typing

/-! ### Correspondence up to the spelling of references -/

mutual

/-- The types differ in the spelling of references only. -/
inductive TypeExpr.Alike : TypeExpr → TypeExpr → Prop where
  | unknown : TypeExpr.Alike .unknown .unknown
  | primitive (primitive : Primitive) : TypeExpr.Alike (.primitive primitive) (.primitive primitive)
  | reference (name name' : String) : TypeExpr.Alike (.reference name) (.reference name')
  | object {properties properties' : List Property}
      (each : List.Forall₂ Property.Alike properties properties') :
      TypeExpr.Alike (.object properties) (.object properties')
  | array {item item' : TypeExpr} (same : TypeExpr.Alike item item') :
      TypeExpr.Alike (.array item) (.array item')

/-- The properties have the same name, are both optional or both not, and have types that differ in
the spelling of references only. -/
inductive Property.Alike : Property → Property → Prop where
  | intro (name : String) (optional : Bool) {type type' : TypeExpr}
      (same : TypeExpr.Alike type type') :
      Property.Alike ⟨name, optional, type⟩ ⟨name, optional, type'⟩

end

/-- The declarations differ in the spelling of references and in the prefixes `p` and `q` of
interfaces and groups only. -/
inductive Declaration.Alike (p q : String) : Declaration → Declaration → Prop where
  | interface (stem : String) {bases bases' : List String} {properties properties' : List Property}
      (asMany : bases.length = bases'.length)
      (each : List.Forall₂ Property.Alike properties properties') :
      Alike p q (.interface (p ++ stem) bases properties)
        (.interface (q ++ stem) bases' properties')
  | enumeration (name : String) (members : List EnumMember) :
      Alike p q (.enumeration name members) (.enumeration name members)
  | typeAlias (name : String) {type type' : TypeExpr} (same : type.Alike type') :
      Alike p q (.typeAlias name type) (.typeAlias name type')
  | group (stem : String) {declarations declarations' : List Declaration}
      (each : List.Forall₂ (Alike p q) declarations declarations') :
      Alike p q (.group (p ++ stem ++ ".actions") declarations)
        (.group (q ++ stem ++ ".actions") declarations')

/-- The files have the same name and namespace, and declarations that differ in the spelling of
references and in the prefixes only. -/
structure SourceFile.Alike (p q : String) (file file' : SourceFile) : Prop where
  fileName : file.fileName = file'.fileName
  namespaceName : file.namespaceName = file'.namespaceName
  declarations : List.Forall₂ (Declaration.Alike p q) file.declarations file'.declarations

end SchemaTypings.Typing

namespace SchemaTypings.Generation

open SchemaTypings.Schema SchemaTypings.Typing

/-! ### One sketch under two namings -/

section Named

variable (nameOf nameOf' : Mention → String)

mutual

theorem TypeSketch.alike_named :
    ∀ sketch : TypeSketch, (sketch.named nameOf).Alike (sketch.named nameOf')
  | .unknown _ => .unknown
  | .primitive primitive => .primitive primitive
  | .mention _ => .reference _ _
  | .object properties => .object (alike_namedProperties properties)
  | .array item => .array (TypeSketch.alike_named item)

theorem PropertySketch.alike_named : ∀ sketch : PropertySketch,
    List.Forall₂ Property.Alike (sketch.named nameOf).toList (sketch.named nameOf').toList
  | .property name optional type => .cons (.intro name optional (TypeSketch.alike_named type)) .nil
  | .missing _ => .nil

theorem alike_namedProperties : ∀ sketches : List PropertySketch,
    List.Forall₂ Property.Alike (namedProperties nameOf sketches)
      (namedProperties nameOf' sketches)
  | [] => .nil
  | property :: rest =>
    List.rel_append (PropertySketch.alike_named property) (alike_namedProperties rest)

end

variable (p q : String)

mutual

theorem DeclarationSketch.alike_named : ∀ sketch : DeclarationSketch,
    (sketch.named p nameOf).Alike p q (sketch.named q nameOf')
  | .interface stem bases properties => by
    have hbases : (bases.map nameOf).length = (bases.map nameOf').length := by
      rw [List.length_map, List.length_map]
    exact .interface stem hbases (alike_namedProperties nameOf nameOf' properties)
  | .enumeration name members => .enumeration name members
  | .typeAlias name type => .typeAlias name (TypeSketch.alike_named nameOf nameOf' type)
  | .group stem declarations => .group stem (alike_namedDeclarations declarations)

/-- The same sketches with two prefixes and two namings are alike. -/
theorem alike_namedDeclarations : ∀ sketches : List DeclarationSketch,
    List.Forall₂ (Declaration.Alike p q) (namedDeclarations p nameOf sketches)
      (namedDeclarations q nameOf' sketches)
  | [] => .nil
  | declaration :: rest =>
    .cons (DeclarationSketch.alike_named declaration) (alike_namedDeclarations rest)

end

end Named

/-! ### Catalogues do not know the prefix -/

/-- The definitions of an index are those of the scopes, whatever the prefix. -/
theorem definitions_ofScopes (t : ScopeTable) (p : String) :
    (Index.ofScopes t p).entries.map Entry.definition =
      Table.ofEntries (t.scopes.flatMap fun scope => scope.definitions.entries) := by
  rw [Index.ofScopes, Table.map_ofEntries, List.map_flatMap]
  refine congrArg Table.ofEntries (List.flatMap_congr fun scope _ => ?_)
  rw [List.map_map]
  exact List.map_id _

/-- The number of elements is one of definitions. -/
theorem elementCount_eq (index : Index) : index.elementCount =
    (index.entries.map Entry.definition).entries.foldr
      (fun entry total => Index.Entry.elementCount ⟨"", "", entry.2⟩ + total) 0 := by
  rw [Index.elementCount, Table.entries_map, List.foldr_map]
  rfl

theorem catalogue_ofScopes (t : ScopeTable) (p q : String) :
    (Index.ofScopes t p).catalogue = (Index.ofScopes t q).catalogue := by
  have hdefinitions := (definitions_ofScopes t p).trans (definitions_ofScopes t q).symm
  have hget : ∀ name, ((Index.ofScopes t p).get? name).map Entry.definition =
      ((Index.ofScopes t q).get? name).map Entry.definition := by
    intro name
    rw [Index.get?, Index.get?, ← Table.get?_map, ← Table.get?_map, hdefinitions]
  have hcount : (Index.ofScopes t p).elementCount = (Index.ofScopes t q).elementCount := by
    rw [elementCount_eq, elementCount_eq, hdefinitions]
  rw [Index.catalogue, Index.catalogue, hcount]
  exact congrArg (Catalogue.mk · _) (funext hget)

/-! ### Files -/

/-- The options with another interface prefix. -/
abbrev withPrefix (options : Options) (p : String) : Options :=
  { options with interfacePrefix := p }

theorem fileOf_alike (t : ScopeTable) (options : Options) (p q : String) (o : Outline) :
    (fileOf (Index.ofScopes t p) (withPrefix options p) o).1.Alike p q
      (fileOf (Index.ofScopes t q) (withPrefix options q) o).1 := by
  rw [fileOf_eq, fileOf_eq, catalogue_ofScopes t p q]
  exact ⟨rfl, rfl, alike_namedDeclarations _ _ p q _⟩

theorem warnings_fileOf_prefix (t : ScopeTable) (options : Options) (p q : String) (o : Outline) :
    (fileOf (Index.ofScopes t p) (withPrefix options p) o).2 =
      (fileOf (Index.ofScopes t q) (withPrefix options q) o).2 := by
  rw [warnings_fileOf, warnings_fileOf, outlineEvents, outlineEvents, catalogue_ofScopes t p q]

/-- **The prefix changes the names of interfaces only.**  With any two prefixes and otherwise equal
options a table gives the same files by name and in order, with the same warnings; the declarations
of each correspond one to one, and differ in the prefix of interfaces and groups and in the spelling
of references only. -/
theorem generate_alike (t : ScopeTable) (options : Options) (p q : String) :
    List.Forall₂ (SourceFile.Alike p q) (generate (withPrefix options p) t).files
      (generate (withPrefix options q) t).files ∧
    (generate (withPrefix options p) t).warnings =
      (generate (withPrefix options q) t).warnings := by
  constructor
  · rw [generate, generate, List.map_map, List.map_map, List.forall₂_map_left_iff,
      List.forall₂_map_right_iff]
    exact List.forall₂_same.2 fun o _ => fileOf_alike t options p q o
  · rw [generate, generate, List.flatMap_map, List.flatMap_map]
    exact List.flatMap_congr fun o _ => warnings_fileOf_prefix t options p q o

end SchemaTypings.Generation
