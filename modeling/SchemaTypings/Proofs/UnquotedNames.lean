import SchemaTypings.Proofs.Diagnosis
import SchemaTypings.Proofs.ImportNames
import SchemaTypings.Proofs.Inheritance
import SchemaTypings.Proofs.Sanitizing

/-!
# Names written without quotes

A file writes the names that it declares, refers to and imports without quotes.  Each is put
together from the short names of definitions, the names of fields and actions, the names of
namespaces and the interface prefix; `unquotedNames_iff` tells from those whether all the names of
all files are identifiers.
-/

namespace SchemaTypings.Typing

mutual

/-- The names of the interfaces, enumerations and aliases in a declaration, at any depth. -/
def Declaration.declaredNames : Declaration → List String
  | .interface name _ _ => [name]
  | .enumeration name _ => [name]
  | .typeAlias name _ => [name]
  | .group _ declarations => declaredIn declarations

/-- The names of the interfaces, enumerations and aliases in declarations, at any depth. -/
def declaredIn : List Declaration → List String
  | [] => []
  | declaration :: rest => declaration.declaredNames ++ declaredIn rest

end

/-- The names that a file writes without quotes: those that it declares, those that it refers to or
extends, and those that it imports or gives to imports. -/
def SourceFile.unquotedNames (file : SourceFile) : List String :=
  declaredIn file.declarations ++ file.references ++
    (file.imports.flatMap ImportClause.names).flatMap fun imported =>
      [imported.name, imported.localName]

end SchemaTypings.Typing

namespace SchemaTypings.Generation

open SchemaTypings.Json SchemaTypings.Name SchemaTypings.Schema SchemaTypings.Text
  SchemaTypings.Typing

/-! ### Names of sketches -/

mutual

/-- The names of the interfaces, enumerations and aliases in a declaration, at any depth. -/
def DeclarationSketch.declaredNames (interfacePrefix : String) : DeclarationSketch → List String
  | .interface stem _ _ => [interfacePrefix ++ stem]
  | .enumeration name _ => [name]
  | .typeAlias name _ => [name]
  | .group _ declarations => declaredBy interfacePrefix declarations

/-- The names of the interfaces, enumerations and aliases in declarations, at any depth. -/
def declaredBy (interfacePrefix : String) : List DeclarationSketch → List String
  | [] => []
  | declaration :: rest =>
    declaration.declaredNames interfacePrefix ++ declaredBy interfacePrefix rest

end

theorem declaredBy_eq_flatMap (interfacePrefix : String) (declarations : List DeclarationSketch) :
    declaredBy interfacePrefix declarations =
      declarations.flatMap (DeclarationSketch.declaredNames interfacePrefix) := by
  induction declarations with
  | nil => rfl
  | cons declaration rest ih => rw [declaredBy, ih, List.flatMap_cons]

theorem declaredBy_append (interfacePrefix : String) (a b : List DeclarationSketch) :
    declaredBy interfacePrefix (a ++ b) =
      declaredBy interfacePrefix a ++ declaredBy interfacePrefix b := by
  simp only [declaredBy_eq_flatMap, List.flatMap_append]

mutual

theorem DeclarationSketch.declaredNames_named (interfacePrefix : String)
    (nameOf : Mention → String) : ∀ sketch : DeclarationSketch,
      (sketch.named interfacePrefix nameOf).declaredNames = sketch.declaredNames interfacePrefix
  | .interface _ _ _ => rfl
  | .enumeration _ _ => rfl
  | .typeAlias _ _ => rfl
  | .group _ declarations => declaredIn_namedDeclarations interfacePrefix nameOf declarations

/-- The declared names are there before the local names are put in. -/
theorem declaredIn_namedDeclarations (interfacePrefix : String) (nameOf : Mention → String) :
    ∀ sketches : List DeclarationSketch,
      declaredIn (namedDeclarations interfacePrefix nameOf sketches) =
        declaredBy interfacePrefix sketches
  | [] => rfl
  | declaration :: rest => by
    rw [namedDeclarations, declaredIn, declaredBy,
      DeclarationSketch.declaredNames_named interfacePrefix nameOf declaration,
      declaredIn_namedDeclarations interfacePrefix nameOf rest]

end

/-! ### Names that become identifiers -/

/-- The name of a definition becomes an identifier. -/
def Nameable (name : String) : Prop :=
  Fits (short name).toList ∧ Leads (kept (short name).toList)

/-- With the interface prefix in front, which is empty or an identifier itself, the name of a
definition becomes an identifier. -/
def InterfaceNameable (interfacePrefix name : String) : Prop :=
  Fits (short name).toList ∧ (interfacePrefix = "" → Leads (kept (short name).toList))

/-- The names of a definition and of a field together become an identifier. -/
def FieldNameable (owner field : String) : Prop :=
  Fits (short owner).toList ∧ AllParts (capitalize field.toList) ∧
    (Leads (kept (short owner).toList) ∨ kept (short owner).toList = [] ∧ Leads field.toList)

/-- The name of an action, with that of its owner in front if it is bound, becomes an identifier. -/
def ActionNameable (owner : Option String) (name : String) : Prop :=
  Fits (short name).toList ∧ ∀ o ∈ owner, Fits (short o).toList ∧
    (Leads (kept (short o).toList) ∨ kept (short o).toList = [])

/-- The names from which the declarations of a definition are named become identifiers. -/
def DefinitionNameable (index : Index) (interfacePrefix name : String) : Definition → Prop
  | .entity e => InterfaceNameable interfacePrefix name ∧
    (∀ entry ∈ newElements e (index.included e.includes), entry.2.members.isSome = true →
      FieldNameable name entry.1) ∧
    ∀ entry ∈ e.actions.entries, ActionNameable (some name) entry.1
  | .typeAlias a => Nameable name ∧ ∀ entry ∈ elementsOf (.typeAlias a),
    entry.2.members.isSome = true → FieldNameable name entry.1
  | .enumeration _ => Nameable name
  | .action _ => ActionNameable none name

theorem isIdentifier_identifier_iff (name : String) :
    IsIdentifier (identifier name) ↔ Nameable name :=
  isIdentifier_sanitize_iff (short name)

theorem isIdentifier_inlineEnumIdentifier_iff (owner field : String) :
    IsIdentifier (inlineEnumIdentifier owner field) ↔ FieldNameable owner field := by
  rw [inlineEnumIdentifier, identifier, isIdentifier_append_iff, allParts_sanitize_iff,
    leads_sanitize_iff, sanitize_eq_empty_iff, String.toList_ofList, leads_capitalize_iff,
    FieldNameable]

section Prefix

variable {interfacePrefix : String} (hp : interfacePrefix = "" ∨ IsIdentifier interfacePrefix)
include hp

/-- A prefix that is an identifier takes whatever is made of parts. -/
theorem isIdentifier_prefix_append_iff (name : String) : IsIdentifier (interfacePrefix ++ name) ↔
    AllParts name.toList ∧ (interfacePrefix = "" → Leads name.toList) := by
  rcases hp with rfl | hp
  · rw [String.empty_append, isIdentifier_iff_leads]
    simp
  · obtain ⟨hparts, hleads⟩ := (isIdentifier_iff_leads _).1 hp
    rw [isIdentifier_append_iff]
    simp [hparts, hleads, hp.nonempty]

theorem isIdentifier_interfaceIdentifier_iff (name : String) :
    IsIdentifier (interfaceIdentifier interfacePrefix name) ↔
      InterfaceNameable interfacePrefix name := by
  rw [interfaceIdentifier, identifier, isIdentifier_prefix_append_iff hp, allParts_sanitize_iff,
    leads_sanitize_iff, InterfaceNameable]

end Prefix

/-- An identifier with parts behind it is one. -/
theorem isIdentifier_append_parts {name : String} (h : IsIdentifier name) (more : String)
    (hmore : AllParts more.toList) : IsIdentifier (name ++ more) := by
  obtain ⟨hparts, hleads⟩ := (isIdentifier_iff_leads name).1 h
  exact (isIdentifier_append_iff name more).2 ⟨hparts, hmore, Or.inl hleads⟩

theorem isIdentifier_enumeration_iff (kind : ActionKind) (name : String) (owner : Option String) :
    IsIdentifier (ActionNames.of "" kind.label name owner).enumeration ↔
      ActionNameable owner name := by
  have hlabel : AllParts kind.label.toList ∧ Leads kind.label.toList := by cases kind <;> decide
  have hword : AllParts "Actions".toList ∧ Leads "Actions".toList := by decide
  cases owner with
  | none =>
    rw [ActionNames.of, String.empty_append, isIdentifier_append_iff, allParts_sanitize_iff]
    simp [ActionNameable, hlabel]
  | some owner =>
    rw [ActionNames.of, String.append_assoc, String.append_assoc, identifier,
      isIdentifier_append_iff, String.toList_append, String.toList_append, allParts_append,
      allParts_append, leads_append, allParts_sanitize_iff, allParts_sanitize_iff,
      leads_sanitize_iff, sanitize_eq_empty_iff]
    simp only [ActionNameable, hlabel, hword, Option.mem_some_iff, forall_eq', true_and, true_or,
      and_true]
    exact and_left_comm

/-! ### Names of definitions -/

/-- The enumerations inside elements take their names from the fields that have them. -/
theorem isIdentifier_inlineEnums_iff (interfacePrefix owner : String)
    (entries : List (String × Element)) :
    (∀ n ∈ declaredBy interfacePrefix
        ((entries.filterMap (inlineEnumOf owner)).map Catalogue.enumerationSketch),
      IsIdentifier n) ↔
      ∀ entry ∈ entries, entry.2.members.isSome = true → FieldNameable owner entry.1 := by
  induction entries with
  | nil => simp [declaredBy]
  | cons entry rest ih =>
    rw [List.forall_mem_cons, ← ih]
    cases hm : entry.2.members with
    | none => simp [inlineEnumOf, hm]
    | some members =>
      have hname : inlineEnumOf owner entry =
          some (.enumeration (inlineEnumIdentifier owner entry.1)
            (enumMembersOf (isTextType entry.2.type) members)) := by
        rw [inlineEnumOf, hm]
        rfl
      rw [List.filterMap_cons_some hname, List.map_cons, Catalogue.enumerationSketch, declaredBy,
        DeclarationSketch.declaredNames, List.singleton_append, List.forall_mem_cons,
        isIdentifier_inlineEnumIdentifier_iff]
      simp

/-- The names in the declarations of an action are made from that of its enumeration. -/
theorem mem_declaredBy_action (interfacePrefix : String) (k : Catalogue) (name : String)
    (action : Action) (owner : Option String) {n : String}
    (h : n ∈ declaredBy interfacePrefix (k.action name action owner)) :
    let base := (ActionNames.of "" action.kind.label name owner).enumeration
    n = base ∨ n = interfacePrefix ++ (base ++ "Params") ∨ n = base ++ "Return" := by
  intro base
  have hparameters : ∀ n ∈ declaredBy interfacePrefix
      (k.parameterInterface ("" ++ base ++ "Params") action.parameters),
        n = interfacePrefix ++ (base ++ "Params") := by
    rw [Catalogue.parameterInterface, String.empty_append]
    split <;> simp [declaredBy, DeclarationSketch.declaredNames]
  have hresult : ∀ n ∈ declaredBy interfacePrefix
      (k.resultAlias (base ++ "Return") action.result), n = base ++ "Return" := by
    cases action.result <;>
      simp [Catalogue.resultAlias, declaredBy, DeclarationSketch.declaredNames]
  rcases List.mem_cons.1 h with rfl | h
  · exact Or.inl rfl
  · have hmore : n ∈ declaredBy interfacePrefix
        (k.parameterInterface ("" ++ base ++ "Params") action.parameters ++
          k.resultAlias (base ++ "Return") action.result) := h
    rw [declaredBy_append] at hmore
    rcases List.mem_append.1 hmore with hn | hn
    · exact Or.inr (Or.inl (hparameters n hn))
    · exact Or.inr (Or.inr (hresult n hn))

section Prefix

variable {interfacePrefix : String} (hp : interfacePrefix = "" ∨ IsIdentifier interfacePrefix)
include hp

/-- The names in the declarations of an action are identifiers if that of its enumeration is. -/
theorem isIdentifier_action_iff (k : Catalogue) (name : String) (action : Action)
    (owner : Option String) :
    (∀ n ∈ declaredBy interfacePrefix (k.action name action owner), IsIdentifier n) ↔
      ActionNameable owner name := by
  rw [← isIdentifier_enumeration_iff action.kind]
  constructor
  · exact fun h => h _ List.mem_cons_self
  · intro h n hn
    rcases mem_declaredBy_action interfacePrefix k name action owner hn with rfl | rfl | rfl
    · exact h
    · obtain ⟨hparts, hleads⟩ :=
        (isIdentifier_iff_leads _).1 (isIdentifier_append_parts h "Params" (by decide))
      exact (isIdentifier_prefix_append_iff hp _).2 ⟨hparts, fun _ => hleads⟩
    · exact isIdentifier_append_parts h "Return" (by decide)

/-- The group of the actions bound to a definition takes its names from theirs. -/
theorem isIdentifier_actionGroup_iff (k : Catalogue) (owner : String) (actions : Table Action) :
    (∀ n ∈ declaredBy interfacePrefix (k.actionGroup owner actions), IsIdentifier n) ↔
      ∀ entry ∈ actions.entries, ActionNameable (some owner) entry.1 := by
  have hentries : (∀ n ∈ declaredBy interfacePrefix
      (actions.entries.flatMap fun entry => k.action entry.1 entry.2 (some owner)),
        IsIdentifier n) ↔ ∀ entry ∈ actions.entries, ActionNameable (some owner) entry.1 := by
    rw [declaredBy_eq_flatMap, List.flatMap_assoc, List.forall_mem_flatMap]
    simp only [← declaredBy_eq_flatMap, isIdentifier_action_iff hp]
  rw [← hentries, Catalogue.actionGroup]
  by_cases hempty : actions.isEmpty = true
  · rw [if_pos hempty, List.isEmpty_iff.1 hempty]
    rfl
  · rw [if_neg hempty, declaredBy, DeclarationSketch.declaredNames, declaredBy, List.append_nil]

/-- **When the names of a definition's declarations are identifiers.** -/
theorem isIdentifier_definition_iff (index : Index) (separator name : String)
    (definition : Definition) :
    (∀ n ∈ declaredBy interfacePrefix (index.catalogue.definition separator name definition),
      IsIdentifier n) ↔ DefinitionNameable index interfacePrefix name definition := by
  cases definition with
  | entity e =>
    rw [Catalogue.definition, Catalogue.entity, declaredBy_append, List.forall_mem_append,
      isIdentifier_inlineEnums_iff, declaredBy, DeclarationSketch.declaredNames,
      List.singleton_append, List.forall_mem_cons, isIdentifier_actionGroup_iff hp,
      ← interfaceIdentifier, isIdentifier_interfaceIdentifier_iff hp, DefinitionNameable,
      Index.includes_catalogue, newElements_eq]
    exact and_left_comm
  | typeAlias a =>
    have hname : ∀ type, declaredBy interfacePrefix [.typeAlias (identifier name) type] =
        [identifier name] := fun _ => rfl
    have henums : (aliasEnums name a.body).map Catalogue.enumerationSketch =
        ((elementsOf (.typeAlias a)).filterMap (inlineEnumOf name)).map
          Catalogue.enumerationSketch := by
      obtain ⟨type | elements, many⟩ := a <;> rfl
    rw [Catalogue.definition, Catalogue.typeAlias, declaredBy_append, List.forall_mem_append,
      henums, isIdentifier_inlineEnums_iff, hname, List.forall_mem_singleton,
      isIdentifier_identifier_iff]
    exact and_comm
  | enumeration e =>
    rw [Catalogue.definition, enumerationAs, Catalogue.enumerationSketch, DefinitionNameable,
      ← isIdentifier_identifier_iff]
    exact List.forall_mem_singleton
  | action a => exact isIdentifier_action_iff hp _ name a none

/-- An outline takes its names from those of the definitions that it emits. -/
theorem isIdentifier_outline_iff (index : Index) (separator : String) (o : Outline) :
    (∀ n ∈ declaredBy interfacePrefix (index.catalogue.outline separator o), IsIdentifier n) ↔
      ∀ d ∈ o.emission, DefinitionNameable index interfacePrefix d.1 d.2 := by
  have hlists : ∀ n ∈ declaredBy interfacePrefix
      [Catalogue.enumerationSketch (enumerationAs Outline.entityEnumName o.entityEnum),
        Catalogue.enumerationSketch (enumerationAs Outline.sanitizedEnumName o.sanitizedEnum)],
      IsIdentifier n :=
    have hnames : ∀ n ∈ [Outline.entityEnumName, Outline.sanitizedEnumName], IsIdentifier n := by
      simp only [isIdentifier_iff_leads]
      decide
    hnames
  rw [Catalogue.outline, declaredBy_append, List.forall_mem_append, and_iff_left hlists,
    declaredBy_eq_flatMap, List.flatMap_assoc, List.forall_mem_flatMap]
  simp only [← declaredBy_eq_flatMap, isIdentifier_definition_iff hp]

theorem isIdentifier_definitionIdentifier {index : Index} {name : String} {definition : Definition}
    (h : DefinitionNameable index interfacePrefix name definition)
    (hd : definition.isAction = false) :
    IsIdentifier (definitionIdentifier interfacePrefix name definition) := by
  cases definition with
  | entity e => exact (isIdentifier_interfaceIdentifier_iff hp name).2 h.1
  | typeAlias a => exact (isIdentifier_identifier_iff name).2 h.1
  | enumeration e => exact (isIdentifier_identifier_iff name).2 h
  | action a => cases hd

end Prefix

/-! ### Names of imports -/

/-- The name of a namespace becomes an identifier in front of the names imported from it. -/
def Qualifies (namespaceName : String) : Prop :=
  namespaceName = "" ∨ Fits namespaceName.toList ∧ Leads (kept namespaceName.toList)

theorem isIdentifier_qualifier_iff (namespaceName : String) :
    IsIdentifier (Resolver.qualifier namespaceName) ↔ Qualifies namespaceName := by
  have hglobal : IsIdentifier "Global" := (isIdentifier_iff_leads _).2 (by decide)
  rw [Resolver.qualifier, Qualifies]
  split
  · next h => simp [h, hglobal]
  · next h => simp [h, isIdentifier_sanitize_iff]

/-- An import goes by its identifier or by its longer name. -/
theorem Chosen.localName_cases {localNames : List String} {imports : List Import}
    (h : Chosen localNames imports) {i : Import} (hi : i ∈ imports) :
    i.localName = i.identifier ∨ i.localName = longName i := by
  obtain ⟨before, after, hsplit⟩ := List.append_of_mem hi
  rw [h before i after hsplit]
  split
  · exact Or.inr rfl
  · exact Or.inl rfl

/-- The longer name of an import is an identifier if its namespace gives one. -/
theorem isIdentifier_longName_iff {i : Import} (h : IsIdentifier i.identifier)
    (hlong : longName i ≠ i.identifier) :
    IsIdentifier (longName i) ↔ Qualifies i.namespaceName := by
  have hne : Resolver.qualifier i.namespaceName ≠ "" := fun he =>
    hlong (by rw [longName, he, String.empty_append])
  have hparts := ((isIdentifier_iff_leads _).1 h).1
  rw [longName, isIdentifier_append_iff, ← isIdentifier_qualifier_iff, isIdentifier_iff_leads]
  simp [hne, hparts]

/-- The local name of an import whose identifier is one is an identifier, too, unless it is a longer
name made with a namespace that gives none. -/
theorem Chosen.isIdentifier_localName_iff {localNames : List String} {imports : List Import}
    (h : Chosen localNames imports) {i : Import} (hi : i ∈ imports)
    (hid : IsIdentifier i.identifier) : IsIdentifier i.localName ↔
      (i.localName ≠ i.identifier → Qualifies i.namespaceName) := by
  by_cases hsame : i.localName = i.identifier
  · simp [hsame, hid]
  · have hlong := (h.localName_cases hi).resolve_left hsame
    rw [hlong] at hsame ⊢
    rw [isIdentifier_longName_iff hid hsame]
    simp [hsame]

/-- What is collected from events gives identifiers to mentions and imports if what is mentioned has
identifiers and the namespaces of renamed imports do. -/
theorem isIdentifier_collected_iff (r : Resolver) (events : List Event) :
    ((∀ m, .mention m ∈ events → IsIdentifier (r.nameIn (r.after .none events) m)) ∧
      ∀ i ∈ (r.after .none events).imports,
        IsIdentifier i.identifier ∧ IsIdentifier i.localName) ↔
      (∀ m, .mention m ∈ events → IsIdentifier (r.locate m).2) ∧
        ∀ i ∈ (r.after .none events).imports, i.localName ≠ i.identifier →
          Qualifies i.namespaceName := by
  have hchosen : Chosen r.localNames (r.after .none events).imports :=
    Resolver.chosen_after (c := .none) (fun before i after hi => by simp [Collected.none] at hi) _
  constructor
  · rintro ⟨hnames, himports⟩
    refine ⟨fun m hm => ?_, fun i hi =>
      (hchosen.isIdentifier_localName_iff hi (himports i hi).1).1 (himports i hi).2⟩
    rcases Resolver.nameIn_cases (r := r) .none hm with ⟨-, hname⟩ | ⟨-, i, hi, -, hid, -⟩
    · exact hname ▸ hnames m hm
    · exact hid ▸ (himports i hi).1
  · rintro ⟨hmentions, hrenamed⟩
    -- an import has the identifier of something mentioned
    have himports : ∀ i ∈ (r.after .none events).imports,
        IsIdentifier i.identifier ∧ IsIdentifier i.localName := by
      intro i hi
      obtain ⟨m, hm, hlocate, -⟩ :=
        (Resolver.exists_mention_of_mem_after hi).resolve_left List.not_mem_nil
      have hid : IsIdentifier i.identifier := by
        have h := hmentions m hm
        rwa [hlocate] at h
      exact ⟨hid, (hchosen.isIdentifier_localName_iff hi hid).2 (hrenamed i hi)⟩
    refine ⟨fun m hm => ?_, himports⟩
    rcases Resolver.nameIn_cases (r := r) .none hm with ⟨-, hname⟩ | ⟨-, i, hi, -, -, hname⟩
    · exact hname ▸ hmentions m hm
    · exact hname ▸ (himports i hi).2

/-! ### Files -/

/-- The names in the file of an outline are identifiers if those that it declares are, those of
what it mentions, and those of the namespaces of renamed imports. -/
theorem isIdentifier_fileOf_iff (index : Index) (options : Options) (o : Outline) :
    (∀ name ∈ (fileOf index options o).1.unquotedNames, IsIdentifier name) ↔
      (∀ name ∈ declaredBy options.interfacePrefix
        (index.catalogue.outline options.foreignKeySeparator o), IsIdentifier name) ∧
      (∀ m, .mention m ∈ outlineEvents index options o →
        IsIdentifier ((resolverFor index options o).locate m).2) ∧
      ∀ i ∈ (collectedFor index options o).imports, i.localName ≠ i.identifier →
        Qualifies i.namespaceName := by
  have hdeclared : declaredIn (fileOf index options o).1.declarations =
      declaredBy options.interfacePrefix
        (index.catalogue.outline options.foreignKeySeparator o) := by
    rw [fileOf_eq]
    exact declaredIn_namedDeclarations _ _ _
  have himports : (fileOf index options o).1.imports =
      importClauses options (collectedFor index options o).imports := by
    rw [fileOf_eq]
  have hspecifiers (P : ImportedName → Prop) :
      (∀ imported ∈ (importClauses options (collectedFor index options o).imports).flatMap
        ImportClause.names, P imported) ↔
        ∀ i ∈ (collectedFor index options o).imports, P (importedName i) := by
    simp only [(specifiers_perm options _).mem_iff, List.forall_mem_map]
  rw [SourceFile.unquotedNames, hdeclared, himports, references_fileOf, List.forall_mem_append,
    List.forall_mem_append, List.forall_mem_flatMap, hspecifiers, List.forall_mem_map, and_assoc]
  have hpair : ∀ i, (∀ name ∈ [(importedName i).name, (importedName i).localName],
      IsIdentifier name) ↔ IsIdentifier i.identifier ∧ IsIdentifier i.localName := fun i => by
    rw [List.forall_mem_cons, List.forall_mem_singleton, localName_importedName]
    rfl
  simp only [mem_mentionsOf, hpair]
  exact and_congr_right fun _ => isIdentifier_collected_iff _ _

/-- The names of a schema from which unquoted names are made become identifiers. -/
structure NamesFit (options : Options) (t : ScopeTable) : Prop where
  /-- The names of definitions, of their fields with enumerations and of their actions do. -/
  definitions : ∀ name definition, t.definition? name = some definition →
    DefinitionNameable (indexOf options t) options.interfacePrefix name definition
  /-- So do the names of fields whose enumerations are referred to, inherited fields included. -/
  fields : ∀ o ∈ outlines options.sort t, ∀ owner field,
    .mention (.inlineEnum owner field) ∈ outlineEvents (indexOf options t) options o →
      FieldNameable owner field
  /-- So do the names of namespaces from which something is imported under a longer name. -/
  namespaces : ∀ o ∈ outlines options.sort t,
    ∀ i ∈ (collectedFor (indexOf options t) options o).imports, i.localName ≠ i.identifier →
      Qualifies i.namespaceName

/-- **When all unquoted names are identifiers**: in the files generated from an accepted schema they
are exactly if the names of definitions, fields, actions and namespaces become identifiers.  What a
short name with a dot has besides letters and digits is dropped, one without keeps all it has. -/
theorem unquotedNames_iff {schema : Value} {t : ScopeTable}
    (ht : ScopeTable.ofSchema schema = .ok t) (options : Options)
    (hp : options.interfacePrefix = "" ∨ IsIdentifier options.interfacePrefix) :
    (∀ file ∈ (generate options t).files, ∀ name ∈ file.unquotedNames, IsIdentifier name) ↔
      NamesFit options t := by
  obtain ⟨definitions, read, -, -, h⟩ := placed_ofSchema ht
  rw [files_generate, List.forall_mem_map]
  simp only [isIdentifier_fileOf_iff, isIdentifier_outline_iff hp]
  constructor
  · intro hfiles
    refine ⟨fun name definition hd => ?_, fun o ho owner field hm => ?_, fun o ho =>
      (hfiles o ho).2.2⟩
    · obtain ⟨o, ho, hemitted⟩ := (h.exists_emission_iff options.sort name definition).2 hd
      exact (hfiles o ho).1 _ hemitted
    · have hname := (hfiles o ho).2.1 (.inlineEnum owner field) hm
      exact (isIdentifier_inlineEnumIdentifier_iff owner field).1 hname
  · intro hfit o ho
    refine ⟨fun d hd => hfit.definitions d.1 d.2
      ((h.exists_emission_iff options.sort d.1 d.2).1 ⟨o, ho, hd⟩), fun m hm => ?_,
      hfit.namespaces o ho⟩
    cases m with
    | inlineEnum owner field =>
      exact (isIdentifier_inlineEnumIdentifier_iff owner field).2 (hfit.fields o ho owner field hm)
    | definition name =>
      obtain ⟨entry, hentry, ha⟩ := Index.exists_entry_of_isReferable (Catalogue.allKnown_outline _
        (fun d hd => h.definition?_of_mem_emission options ho hd) _ hm)
      obtain ⟨definition, key, hd, ho, rfl⟩ := (h.get?_ofScopes_iff _ _ _).1 hentry
      have hdefined : t.definition? name = some definition := by
        rw [← h.definition_get?_ofScopes options.interfacePrefix]
        exact congrArg (Option.map Entry.definition) hentry
      rw [Resolver.locate_definition (r := resolverFor (indexOf options t) options o) hentry]
      exact isIdentifier_definitionIdentifier hp (hfit.definitions name definition hdefined) ha

/-- A namespace and texts with hyphens in their names. -/
def hyphenatedNames : Value :=
  let text : Value := .object [("type", .string "cds.String")]
  let state : Value :=
    .object [("type", .string "cds.String"), ("enum", .object [("new", .object [])])]
  let action : Value := .object [("kind", .string "action"), ("params", .object [("by", text)])]
  .object [("definitions", .object
    [("my-app.core.Status", .object [("kind", .string "type"), ("type", .string "cds.String")]),
      ("shop.Status", .object [("kind", .string "type"), ("type", .string "my-app.core.Status")]),
      ("shop.my-books.texts", .object [("kind", .string "entity"),
        ("elements", .object [("state", state)]), ("actions", .object [("submit", action)])])])]

/-- The hyphens stand in names with dots, where they are dropped. -/
theorem unquotedNames_iff_hyphenated : ∃ t, ScopeTable.ofSchema hyphenatedNames = .ok t ∧
    IsIdentifier "I" ∧
    (generate { interfacePrefix := "I" } t).files.map SourceFile.unquotedNames =
      [["Status", "Entity", "SanitizedEntity"],
        ["Status", "MyBooksTextsState", "IMyBooksTexts", "MyBooksTextsActionsActionSubmit",
          "IMyBooksTextsActionsActionSubmitParams", "Entity", "SanitizedEntity",
          "MyAppCoreStatus", "MyBooksTextsState", "Status", "MyAppCoreStatus"]] ∧
    NamesFit { interfacePrefix := "I" } t := by
  have hlists : (ScopeTable.ofSchema hyphenatedNames).toOption.map (fun t =>
      (generate { interfacePrefix := "I" } t).files.map SourceFile.unquotedNames) =
      some [["Status", "Entity", "SanitizedEntity"],
        ["Status", "MyBooksTextsState", "IMyBooksTexts", "MyBooksTextsActionsActionSubmit",
          "IMyBooksTextsActionsActionSubmitParams", "Entity", "SanitizedEntity",
          "MyAppCoreStatus", "MyBooksTextsState", "Status", "MyAppCoreStatus"]] := by
    decide +kernel
  obtain ⟨t, ht, hnames⟩ := exists_ok_of_map hlists
  have hprefix : IsIdentifier "I" := by decide
  refine ⟨t, ht, hprefix, hnames, (unquotedNames_iff ht _ (Or.inr hprefix)).1 ?_⟩
  have hall : ∀ names ∈ (generate { interfacePrefix := "I" } t).files.map SourceFile.unquotedNames,
      ∀ name ∈ names, IsIdentifier name := by
    rw [hnames]
    decide +kernel
  exact List.forall_mem_map.1 hall

/-- A type whose name has a space after its only dot. -/
def spacedName : Table Value where
  entries := [("a.my type", .object [("kind", .string "type"), ("type", .string "cds.String")])]
  distinct := by decide

/-- Not all unquoted names are identifiers: the file of `a` declares an alias `My type`, since what
comes after the dot has none and loses nothing. -/
theorem exists_unquotedName_with_space : ∃ t, ScopeTable.ofSchema (schemaOf spacedName) = .ok t ∧
    AcyclicReferences t.definition? ∧
    (generate {} t).files.map SourceFile.unquotedNames =
      [["My type", "Entity", "SanitizedEntity"]] ∧
    ¬ ∀ file ∈ (generate {} t).files, ∀ name ∈ file.unquotedNames, IsIdentifier name := by
  have hlists : (ScopeTable.ofSchema (schemaOf spacedName)).toOption.map (fun t =>
      (generate {} t).files.map SourceFile.unquotedNames) =
      some [["My type", "Entity", "SanitizedEntity"]] := by decide +kernel
  obtain ⟨t, ht, hnames⟩ := exists_ok_of_map hlists
  refine ⟨t, ht, acyclicReferences_of_entries (rawDefinitions_schemaOf spacedName) ht
    (fun _ => 0) (by decide +kernel), hnames, fun hall => ?_⟩
  have hname : IsIdentifier "My type" := by
    have hlisted : ∀ names ∈ (generate {} t).files.map SourceFile.unquotedNames,
        ∀ name ∈ names, IsIdentifier name := List.forall_mem_map.2 hall
    rw [hnames] at hlisted
    exact hlisted _ List.mem_cons_self _ List.mem_cons_self
  revert hname
  decide

end SchemaTypings.Generation
