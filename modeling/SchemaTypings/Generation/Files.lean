import SchemaTypings.Schema.Placement
import SchemaTypings.Generation.Declarations
import SchemaTypings.Typing.Rendering

/-!
# Generated files

One file for every outline of a schema.  Its imports are grouped by namespace, and namespaces and
identifiers ascend; the warnings of all files follow one another in the order of the files.
-/

namespace SchemaTypings.Generation

open SchemaTypings.Schema SchemaTypings.Typing

/-! ### Imports -/

/-- The import of an identifier in an import clause; an alias stands only where it is needed. -/
def importedName (i : Import) : ImportedName :=
  ⟨i.identifier, if i.localName = i.identifier then none else some i.localName⟩

/-- The imports from a namespace, by ascending identifier. -/
def importsFrom (imports : List Import) (namespaceName : String) : List Import :=
  (imports.filter fun i => i.namespaceName = namespaceName).mergeSort
    fun a b => decide (a.identifier ≤ b.identifier)

/-- The namespaces that are imported from, ascending. -/
def importedNamespaces (imports : List Import) : List String :=
  ascending (imports.map Import.namespaceName)

/-- The import clauses of a file. -/
def importClauses (options : Options) (imports : List Import) : List ImportClause :=
  (importedNamespaces imports).map fun namespaceName =>
    ⟨options.moduleSpecifier namespaceName, (importsFrom imports namespaceName).map importedName⟩

/-! ### Files -/

/-- The declared files of a schema and the warnings met on the way. -/
structure Generated where
  files : List SourceFile
  warnings : List Warning

/-- The resolver for the file of an outline. -/
def resolverFor (index : Index) (options : Options) (o : Outline) : Resolver :=
  ⟨index, o.name, o.localIdentifiers options.interfacePrefix⟩

/-- The file of an outline and its warnings. -/
def fileOf (index : Index) (options : Options) (o : Outline) : SourceFile × List Warning :=
  let (declarations, collected) :=
    (outlineDeclarations (resolverFor index options o) options o).run .none
  ({ fileName := options.fileName o.name
     namespaceName := o.name
     imports := importClauses options collected.imports
     declarations }, collected.warnings)

/-- The files of a schema. -/
def generate (options : Options) (t : ScopeTable) : Generated :=
  let results := (outlines options.sort t).map
    (fileOf (Index.ofScopes t options.interfacePrefix) options)
  ⟨results.map Prod.fst, results.flatMap Prod.snd⟩

/-! ### Texts -/

/-- A file as text. -/
structure RenderedFile where
  fileName : String
  namespaceName : String
  content : String
  deriving DecidableEq, Repr

/-- The files of a schema as texts, and the warnings as texts. -/
structure Output where
  files : List RenderedFile
  warnings : List String
  deriving DecidableEq, Repr

/-- The text of a file. -/
def renderFile (file : SourceFile) : RenderedFile := ⟨file.fileName, file.namespaceName, file.text⟩

/-- The texts of the files. -/
def Generated.render (generated : Generated) : Output :=
  ⟨generated.files.map renderFile, generated.warnings.map Warning.message⟩

/-- The first file of a name. -/
def Output.file? (output : Output) (fileName : String) : Option RenderedFile :=
  output.files.find? fun file => file.fileName = fileName

/-- The texts generated from a compiled schema, or the fault that prevents them. -/
def typings (options : Options) (schema : Json.Value) : Except Fault Output :=
  (ScopeTable.ofSchema schema).map fun t => (generate options t).render

end SchemaTypings.Generation
