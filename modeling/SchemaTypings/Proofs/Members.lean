import Mathlib.Data.List.Perm.Basic
import SchemaTypings.Proofs.Diagnosis

/-!
# Names of members

The properties of an interface or object type and the members of an enumeration should have distinct
names.  The names that a schema gives are distinct, being the keys of one table; those made by the
generator, for foreign keys and for the parameters of an action, may meet.
`nodup_memberLists_iff` tells from the definitions of a schema whether they do.
-/

namespace SchemaTypings.Typing

/-! ### Member lists at any depth -/

mutual

/-- The names of the properties of each object type in a type. -/
def TypeExpr.memberLists : TypeExpr → List (List String)
  | .unknown => []
  | .primitive _ => []
  | .reference _ => []
  | .object properties => properties.map Property.name :: propertyMemberLists properties
  | .array item => item.memberLists

/-- The names of the properties of each object type in the type of a property. -/
def Property.memberLists : Property → List (List String)
  | ⟨_, _, type⟩ => type.memberLists

/-- The names of the properties of each object type in the types of properties. -/
def propertyMemberLists : List Property → List (List String)
  | [] => []
  | property :: rest => property.memberLists ++ propertyMemberLists rest

end

mutual

/-- The names of the properties of each interface and object type, and of the members of each
enumeration, in a declaration. -/
def Declaration.memberLists : Declaration → List (List String)
  | .interface _ _ properties => properties.map Property.name :: propertyMemberLists properties
  | .enumeration _ members => [members.map EnumMember.name]
  | .typeAlias _ type => type.memberLists
  | .group _ declarations => declarationMemberLists declarations

/-- The names of properties and members in declarations. -/
def declarationMemberLists : List Declaration → List (List String)
  | [] => []
  | declaration :: rest => declaration.memberLists ++ declarationMemberLists rest

end

/-- The names of properties and members in a file, list by list. -/
def SourceFile.memberLists (file : SourceFile) : List (List String) :=
  declarationMemberLists file.declarations

end SchemaTypings.Typing

namespace SchemaTypings.Generation

open SchemaTypings.Json SchemaTypings.Name SchemaTypings.Schema SchemaTypings.Typing

/-! ### Member lists of sketches -/

/-- The name of a property, unless it is left out. -/
def PropertySketch.name? : PropertySketch → Option String
  | .property name _ _ => some name
  | .missing _ => none

mutual

/-- The names of the properties of each object type in a type. -/
def TypeSketch.memberLists : TypeSketch → List (List String)
  | .unknown _ => []
  | .primitive _ => []
  | .mention _ => []
  | .object properties => properties.filterMap PropertySketch.name? :: sketchMemberLists properties
  | .array item => item.memberLists

/-- The names of the properties of each object type in the type of a property. -/
def PropertySketch.memberLists : PropertySketch → List (List String)
  | .property _ _ type => type.memberLists
  | .missing _ => []

/-- The names of the properties of each object type in the types of properties. -/
def sketchMemberLists : List PropertySketch → List (List String)
  | [] => []
  | property :: rest => property.memberLists ++ sketchMemberLists rest

end

mutual

/-- The names of properties and members in a declaration, list by list. -/
def DeclarationSketch.memberLists : DeclarationSketch → List (List String)
  | .interface _ _ properties =>
    properties.filterMap PropertySketch.name? :: sketchMemberLists properties
  | .enumeration _ members => [members.map EnumMember.name]
  | .typeAlias _ type => type.memberLists
  | .group _ declarations => memberListsOf declarations

/-- The names of properties and members in declarations, list by list. -/
def memberListsOf : List DeclarationSketch → List (List String)
  | [] => []
  | declaration :: rest => declaration.memberLists ++ memberListsOf rest

end

theorem sketchMemberLists_append (a b : List PropertySketch) :
    sketchMemberLists (a ++ b) = sketchMemberLists a ++ sketchMemberLists b := by
  induction a with
  | nil => rfl
  | cons property rest ih => simp only [List.cons_append, sketchMemberLists, ih, List.append_assoc]

theorem memberListsOf_eq_flatMap (declarations : List DeclarationSketch) :
    memberListsOf declarations = declarations.flatMap DeclarationSketch.memberLists := by
  induction declarations with
  | nil => rfl
  | cons declaration rest ih => rw [memberListsOf, ih, List.flatMap_cons]

@[simp] theorem memberLists_arrayIf (type : TypeSketch) (many : Bool) :
    (type.arrayIf many).memberLists = type.memberLists := by
  cases many <;> rfl

/-- The names of properties are there before the local names are put in. -/
theorem names_namedProperties (nameOf : Mention → String) (properties : List PropertySketch) :
    (namedProperties nameOf properties).map Property.name =
      properties.filterMap PropertySketch.name? := by
  induction properties with
  | nil => rfl
  | cons property rest ih =>
    cases property with
    | property name optional type => simp [PropertySketch.name?, ih]
    | missing cause => exact ih

mutual

theorem TypeSketch.memberLists_named (nameOf : Mention → String) :
    ∀ sketch : TypeSketch, (sketch.named nameOf).memberLists = sketch.memberLists
  | .unknown _ => rfl
  | .primitive _ => rfl
  | .mention _ => rfl
  | .object properties => by
    rw [TypeSketch.named, TypeExpr.memberLists, TypeSketch.memberLists, names_namedProperties,
      memberLists_namedProperties nameOf properties]
  | .array item => TypeSketch.memberLists_named nameOf item

theorem PropertySketch.memberLists_named (nameOf : Mention → String) :
    ∀ sketch : PropertySketch,
      propertyMemberLists (sketch.named nameOf).toList = sketch.memberLists
  | .property _ _ type => (List.append_nil _).trans (TypeSketch.memberLists_named nameOf type)
  | .missing _ => rfl

theorem memberLists_namedProperties (nameOf : Mention → String) :
    ∀ sketches : List PropertySketch,
      propertyMemberLists (namedProperties nameOf sketches) = sketchMemberLists sketches
  | [] => rfl
  | property :: rest => by
    have hp := PropertySketch.memberLists_named nameOf property
    have hr := memberLists_namedProperties nameOf rest
    rw [namedProperties, sketchMemberLists, ← hp, ← hr]
    cases property.named nameOf with
    | none => rfl
    | some made => simp [propertyMemberLists]

end

mutual

theorem DeclarationSketch.memberLists_named (interfacePrefix : String) (nameOf : Mention → String) :
    ∀ sketch : DeclarationSketch,
      (sketch.named interfacePrefix nameOf).memberLists = sketch.memberLists
  | .interface _ _ properties => by
    rw [DeclarationSketch.named, Declaration.memberLists, DeclarationSketch.memberLists,
      names_namedProperties, memberLists_namedProperties]
  | .enumeration _ _ => rfl
  | .typeAlias _ type => TypeSketch.memberLists_named nameOf type
  | .group _ declarations => memberLists_namedDeclarations interfacePrefix nameOf declarations

/-- The names of members are there before the local names are put in. -/
theorem memberLists_namedDeclarations (interfacePrefix : String) (nameOf : Mention → String) :
    ∀ sketches : List DeclarationSketch,
      declarationMemberLists (namedDeclarations interfacePrefix nameOf sketches) =
        memberListsOf sketches
  | [] => rfl
  | declaration :: rest => by
    rw [namedDeclarations, declarationMemberLists, memberListsOf,
      DeclarationSketch.memberLists_named interfacePrefix nameOf declaration,
      memberLists_namedDeclarations interfacePrefix nameOf rest]

end

/-! ### Only aliases have object types -/

theorem TypeSketch.Flat.memberLists {type : TypeSketch} (h : type.Flat) : type.memberLists = [] := by
  induction h with
  | unknown => rfl
  | primitive => rfl
  | mention => rfl
  | array _ ih => exact ih

namespace Catalogue

variable (k : Catalogue)

theorem memberLists_keyProperties (field targetName : String) (entity : Entity)
    (separator : String) (paths : List KeyPath) :
    sketchMemberLists (paths.map (k.keyProperty field targetName entity separator)) = [] := by
  induction paths with
  | nil => rfl
  | cons path rest ih =>
    rw [List.map_cons, sketchMemberLists, ih, List.append_nil, keyProperty]
    split
    · rfl
    · exact (k.flat_typeRef _).memberLists

theorem memberLists_foreignKeys (separator field : String) (element : Element) :
    sketchMemberLists (k.foreignKeys separator field element) = [] := by
  rw [foreignKeys]
  split
  · rfl
  · split
    · rfl
    · split
      · rfl
      · exact k.memberLists_keyProperties _ _ _ _ _

/-- No property of an element or of its keys has an object type. -/
theorem memberLists_elementProperties (separator owner : String)
    (entries : List (String × Element)) :
    sketchMemberLists (entries.flatMap (k.elementProperties separator owner)) = [] := by
  induction entries with
  | nil => rfl
  | cons entry rest ih =>
    rw [List.flatMap_cons, sketchMemberLists_append, ih, List.append_nil, elementProperties,
      sketchMemberLists, memberLists_foreignKeys, List.append_nil]
    exact (k.flat_element _ _ _).memberLists

theorem memberLists_parameters (entries : List (String × Operand)) :
    sketchMemberLists (entries.map k.parameter) = [] := by
  induction entries with
  | nil => rfl
  | cons entry rest ih =>
    rw [List.map_cons, sketchMemberLists, ih, List.append_nil, parameter]
    exact ((k.flat_typeRef _).arrayIf _).memberLists

end Catalogue

/-! ### Names of foreign keys -/

namespace Index

/-- The first steps of the keys by which an element refers to one definition with elements, as far
as that has them. -/
def keySteps (index : Index) (element : Element) : List String :=
  if element.many then []
  else match element.target with
    | none => []
    | some target =>
      match index.entity? target with
      | none => []
      | some entity =>
        (element.keys.map KeyPath.first).filter fun step => (entity.elements.get? step).isSome

/-- The names of the properties for the keys of an element. -/
def keyNames (index : Index) (separator : String) (entry : String × Element) : List String :=
  (index.keySteps entry.2).map (Resolver.foreignKeyName entry.1 separator)

/-- The names of the properties of elements, each followed by those of its keys. -/
def propertyNames (index : Index) (separator : String) (entries : List (String × Element)) :
    List String :=
  entries.flatMap fun entry => entry.1 :: index.keyNames separator entry

/-- The properties for the keys of elements are told apart by their names, from each other and from
the elements. -/
structure KeysApart (index : Index) (separator : String) (entries : List (String × Element)) :
    Prop where
  /-- No two keys of an element begin with one step. -/
  steps : ∀ entry ∈ entries, (index.keySteps entry.2).Nodup
  /-- No key is named like an element. -/
  fields : ∀ name ∈ entries.map Prod.fst, ∀ entry ∈ entries,
    name ∉ index.keyNames separator entry
  /-- No key is named like one of another element. -/
  others : entries.Pairwise fun a b =>
    (index.keyNames separator a).Disjoint (index.keyNames separator b)

theorem foreignKeyName_injective (field separator : String) :
    Function.Injective (Resolver.foreignKeyName field separator) := by
  intro a b h
  simpa [Resolver.foreignKeyName, String.append_assoc] using h

variable (index : Index)

/-- The names of properties are distinct exactly if keys are told apart. -/
theorem nodup_propertyNames_iff (separator : String) {entries : List (String × Element)}
    (hnames : (entries.map Prod.fst).Nodup) :
    (index.propertyNames separator entries).Nodup ↔ index.KeysApart separator entries := by
  have hsteps (entry : String × Element) :
      (index.keyNames separator entry).Nodup ↔ (index.keySteps entry.2).Nodup :=
    List.nodup_map_iff (foreignKeyName_injective entry.1 separator)
  rw [propertyNames, ← (List.map_append_flatMap_perm entries _ _).nodup_iff, List.nodup_append,
    List.nodup_flatMap]
  simp only [hsteps]
  constructor
  · rintro ⟨-, ⟨hown, hothers⟩, hfields⟩
    exact ⟨hown, fun name hname entry hentry hkey =>
      hfields name hname name (List.mem_flatMap.2 ⟨entry, hentry, hkey⟩) rfl, hothers⟩
  · rintro ⟨hown, hfields, hothers⟩
    refine ⟨hnames, ⟨hown, hothers⟩, fun name hname key hkey => ?_⟩
    rintro rfl
    obtain ⟨entry, hentry, hkey⟩ := List.mem_flatMap.1 hkey
    exact hfields name hname entry hentry hkey

theorem names_keyProperties (separator field targetName : String) (entity : Entity)
    (paths : List KeyPath) :
    (paths.map (index.catalogue.keyProperty field targetName entity separator)).filterMap
        PropertySketch.name? =
      ((paths.map KeyPath.first).filter fun step => (entity.elements.get? step).isSome).map
        (Resolver.foreignKeyName field separator) := by
  induction paths with
  | nil => rfl
  | cons path rest ih =>
    rw [List.map_cons, List.map_cons, Catalogue.keyProperty, List.filterMap_cons, List.filter_cons]
    cases hg : entity.elements.get? path.first with
    | none => exact ih
    | some element => exact congrArg (_ :: ·) ih

theorem names_foreignKeys (separator : String) (entry : String × Element) :
    (index.catalogue.foreignKeys separator entry.1 entry.2).filterMap PropertySketch.name? =
      index.keyNames separator entry := by
  rw [Catalogue.foreignKeys, keyNames, keySteps]
  cases hmany : entry.2.many with
  | true => rfl
  | false =>
    cases htarget : entry.2.target with
    | none => simp
    | some target =>
      simp only [entity?_catalogue]
      cases hentity : index.entity? target with
      | none => simp
      | some entity =>
        cases hkeys : entry.2.keys with
        | nil => rfl
        | cons path rest => exact index.names_keyProperties separator entry.1 target entity _

/-- The properties sketched for elements are named so. -/
theorem names_elementProperties (separator owner : String) (entries : List (String × Element)) :
    (entries.flatMap (index.catalogue.elementProperties separator owner)).filterMap
      PropertySketch.name? = index.propertyNames separator entries := by
  rw [propertyNames, List.filterMap_flatMap]
  refine List.flatMap_congr fun entry _ => ?_
  rw [Catalogue.elementProperties, List.filterMap_cons]
  exact congrArg (entry.1 :: ·) (index.names_foreignKeys separator entry)

end Index

/-! ### Names of parameters -/

/-- The parameters of an action are told apart by their names as identifiers. -/
def ParametersApart (action : Action) : Prop := (action.parameters.keys.map sanitize).Nodup

/-- The names in the enumeration of an action are distinct exactly if its parameters are told
apart. -/
theorem nodup_actionMembers_iff (shortName : String) (action : Action) :
    ((actionMembers shortName action.parameters.keys).map EnumMember.name).Nodup ↔
      ParametersApart action := by
  have hname : "name" ∉ (action.parameters.keys.map sanitize).map ("param" ++ ·) := by
    intro h
    obtain ⟨parameter, -, hp⟩ := List.mem_map.1 h
    simpa using congrArg (fun s => s.toList.head?) hp
  have hinjective : Function.Injective ("param" ++ · : String → String) := fun a b h => by
    simpa using h
  have hmembers : (actionMembers shortName action.parameters.keys).map EnumMember.name =
      "name" :: (action.parameters.keys.map sanitize).map ("param" ++ ·) := by
    rw [actionMembers, List.map_cons, List.map_map, List.map_map]
    rfl
  rw [hmembers, List.nodup_cons, List.nodup_map_iff hinjective, ParametersApart]
  exact and_iff_right hname

/-! ### Names in a definition -/

namespace Index

variable (index : Index)

/-- The names that the declarations of a definition give to properties and members are told
apart. -/
def MembersApart (separator : String) : Definition → Prop
  | .entity e => index.KeysApart separator (ownElements e (index.included e.includes)) ∧
      ∀ entry ∈ e.actions.entries, ParametersApart entry.2
  | .typeAlias a =>
    match a.body with
    | .type _ => True
    | .structured elements => index.KeysApart separator elements.entries
  | .enumeration _ => True
  | .action a => ParametersApart a

end Index

/-- No name is repeated inside one of the lists. -/
def NoneRepeated (lists : List (List String)) : Prop := ∀ names ∈ lists, names.Nodup

@[simp] theorem noneRepeated_nil : NoneRepeated [] := fun _ h => absurd h List.not_mem_nil

@[simp] theorem noneRepeated_cons (names : List String) (rest : List (List String)) :
    NoneRepeated (names :: rest) ↔ names.Nodup ∧ NoneRepeated rest := List.forall_mem_cons

@[simp] theorem noneRepeated_append (a b : List (List String)) :
    NoneRepeated (a ++ b) ↔ NoneRepeated a ∧ NoneRepeated b := List.forall_mem_append

theorem noneRepeated_flatMap {α : Type} (items : List α) (listsOf : α → List (List String)) :
    NoneRepeated (items.flatMap listsOf) ↔ ∀ a ∈ items, NoneRepeated (listsOf a) := by
  simp only [NoneRepeated, List.mem_flatMap]
  exact ⟨fun h a ha names hn => h names ⟨a, ha, hn⟩, fun h names ⟨a, ha, hn⟩ => h a ha names hn⟩

/-- The members of an enumeration of the schema have distinct names. -/
theorem nodup_enumMembersOf (isText : Bool) (members : EnumMembers) :
    ((enumMembersOf isText members).map EnumMember.name).Nodup := by
  rw [enumMembersOf, List.map_map]
  exact members.distinct

theorem noneRepeated_inlineEnums (owner : String) (entries : List (String × Element)) :
    NoneRepeated (((entries.filterMap (inlineEnumOf owner)).map
      Catalogue.enumerationSketch).flatMap DeclarationSketch.memberLists) := by
  rw [noneRepeated_flatMap]
  intro sketch h
  obtain ⟨declaration, hd, rfl⟩ := List.mem_map.1 h
  obtain ⟨entry, -, he⟩ := List.mem_filterMap.1 hd
  obtain ⟨members, -, rfl⟩ := Option.map_eq_some_iff.1 he
  exact (noneRepeated_cons _ _).2 ⟨nodup_enumMembersOf _ _, noneRepeated_nil⟩

namespace Index

variable (index : Index)

theorem names_parameters (entries : List (String × Operand)) :
    (entries.map index.catalogue.parameter).filterMap PropertySketch.name? =
      entries.map Prod.fst := by
  induction entries with
  | nil => rfl
  | cons entry rest ih => exact congrArg (entry.1 :: ·) ih

theorem noneRepeated_parameterInterface (stem : String) (parameters : Table Operand) :
    NoneRepeated ((index.catalogue.parameterInterface stem parameters).flatMap
      DeclarationSketch.memberLists) := by
  rw [Catalogue.parameterInterface]
  split
  · exact noneRepeated_nil
  · rw [List.flatMap_singleton, DeclarationSketch.memberLists, names_parameters,
      Catalogue.memberLists_parameters]
    exact (noneRepeated_cons _ _).2 ⟨parameters.distinct, noneRepeated_nil⟩

theorem noneRepeated_resultAlias (name : String) (result : Option Operand) :
    NoneRepeated ((index.catalogue.resultAlias name result).flatMap
      DeclarationSketch.memberLists) := by
  cases result with
  | none => exact noneRepeated_nil
  | some operand =>
    have hflat := (index.catalogue.flat_typeRef operand.type).memberLists
    simp [Catalogue.resultAlias, DeclarationSketch.memberLists, hflat]

/-- Only the enumeration of an action can repeat a name. -/
theorem noneRepeated_action_iff (name : String) (action : Action) (owner : Option String) :
    NoneRepeated ((index.catalogue.action name action owner).flatMap
      DeclarationSketch.memberLists) ↔ ParametersApart action := by
  have hparameters := index.noneRepeated_parameterInterface
  have hresult := index.noneRepeated_resultAlias
  simp [Catalogue.action, DeclarationSketch.memberLists, nodup_actionMembers_iff, hparameters,
    hresult]

theorem noneRepeated_actionGroup_iff (owner : String) (actions : Table Action) :
    NoneRepeated ((index.catalogue.actionGroup owner actions).flatMap
      DeclarationSketch.memberLists) ↔ ∀ entry ∈ actions.entries, ParametersApart entry.2 := by
  rw [Catalogue.actionGroup, Table.isEmpty]
  cases hentries : actions.entries with
  | nil => simp
  | cons entry rest =>
    rw [List.isEmpty_cons, if_neg Bool.false_ne_true, List.flatMap_singleton,
      DeclarationSketch.memberLists, memberListsOf_eq_flatMap, List.flatMap_assoc,
      noneRepeated_flatMap]
    simp only [noneRepeated_action_iff]

/-- An entity repeats a name in its interface or in the enumerations of its actions. -/
theorem noneRepeated_entity_iff (separator name : String) (entity : Entity) :
    NoneRepeated ((index.catalogue.entity separator name entity).flatMap
      DeclarationSketch.memberLists) ↔ index.MembersApart separator (.entity entity) := by
  have hnames : ((ownElements entity (index.included entity.includes)).map Prod.fst).Nodup :=
    entity.elements.distinct.sublist (List.filter_sublist.map Prod.fst)
  rw [Catalogue.entity, includes_catalogue, List.flatMap_append, List.flatMap_cons, noneRepeated_append,
    noneRepeated_append, DeclarationSketch.memberLists, names_elementProperties,
    Catalogue.memberLists_elementProperties, noneRepeated_cons,
    index.nodup_propertyNames_iff separator hnames, noneRepeated_actionGroup_iff]
  exact ⟨fun h => ⟨h.2.1.1, h.2.2⟩,
    fun h => ⟨noneRepeated_inlineEnums _ _, ⟨h.1, noneRepeated_nil⟩, h.2⟩⟩

/-- An alias repeats a name in its object type. -/
theorem noneRepeated_typeAlias_iff (separator name : String) (a : Alias) :
    NoneRepeated ((index.catalogue.typeAlias separator name a).flatMap
      DeclarationSketch.memberLists) ↔ index.MembersApart separator (.typeAlias a) := by
  obtain ⟨(_ | typeName) | elements, many⟩ := a
  · simp [Catalogue.typeAlias, Catalogue.aliasType, aliasEnums, DeclarationSketch.memberLists,
      TypeSketch.memberLists, MembersApart]
  · have hflat := (index.catalogue.flat_typeName typeName).memberLists
    simp [Catalogue.typeAlias, Catalogue.aliasType, aliasEnums, DeclarationSketch.memberLists, hflat,
      MembersApart]
  · rw [Catalogue.typeAlias, List.flatMap_append, noneRepeated_append, List.flatMap_singleton,
      DeclarationSketch.memberLists, memberLists_arrayIf, Catalogue.aliasType,
      TypeSketch.memberLists, names_elementProperties, Catalogue.memberLists_elementProperties,
      noneRepeated_cons, index.nodup_propertyNames_iff separator elements.distinct]
    exact ⟨fun h => h.2.1, fun h => ⟨noneRepeated_inlineEnums _ _, h, noneRepeated_nil⟩⟩

theorem noneRepeated_enumeration (name : String) (enumeration : Enumeration) :
    NoneRepeated (Catalogue.enumerationSketch (enumerationAs name enumeration)).memberLists :=
  (noneRepeated_cons _ _).2 ⟨nodup_enumMembersOf _ _, noneRepeated_nil⟩

theorem noneRepeated_definition_iff (separator name : String) (definition : Definition) :
    NoneRepeated ((index.catalogue.definition separator name definition).flatMap
      DeclarationSketch.memberLists) ↔ index.MembersApart separator definition := by
  cases definition with
  | entity e => exact index.noneRepeated_entity_iff separator name e
  | typeAlias a => exact index.noneRepeated_typeAlias_iff separator name a
  | enumeration e =>
    rw [Catalogue.definition, List.flatMap_singleton]
    exact iff_of_true (noneRepeated_enumeration _ e) trivial
  | action a => exact index.noneRepeated_action_iff name a none

/-- The declarations of an outline repeat a name exactly if those of a definition do. -/
theorem noneRepeated_outline_iff (separator : String) (o : Outline) :
    NoneRepeated ((index.catalogue.outline separator o).flatMap DeclarationSketch.memberLists) ↔
      ∀ d ∈ o.emission, index.MembersApart separator d.2 := by
  rw [Catalogue.outline, List.flatMap_append, noneRepeated_append, List.flatMap_assoc,
    noneRepeated_flatMap]
  simp only [noneRepeated_definition_iff, List.flatMap_cons, List.flatMap_nil, List.append_nil,
    noneRepeated_append, noneRepeated_enumeration, and_true]

end Index

/-! ### Names in the files -/

theorem memberLists_fileOf (index : Index) (options : Options) (o : Outline) :
    (fileOf index options o).1.memberLists =
      (index.catalogue.outline options.foreignKeySeparator o).flatMap
        DeclarationSketch.memberLists := by
  rw [fileOf_eq, ← memberListsOf_eq_flatMap]
  exact memberLists_namedDeclarations _ _ _

/-- **The properties and members of all files have distinct names exactly if the definitions tell
them apart.**  Two properties of an interface or object type have one name only if one is the foreign
key of an association, and two members of an enumeration only if they stand for parameters whose
names give one identifier. -/
theorem nodup_memberLists_iff {schema : Value} {t : ScopeTable}
    (ht : ScopeTable.ofSchema schema = .ok t) (options : Options) :
    (∀ file ∈ (generate options t).files, ∀ names ∈ file.memberLists, names.Nodup) ↔
      ∀ name definition, t.definition? name = some definition →
        (indexOf options t).MembersApart options.foreignKeySeparator definition := by
  obtain ⟨definitions, read, -, -, hplaced⟩ := placed_ofSchema ht
  have hfile (o : Outline) : (∀ names ∈ (fileOf (indexOf options t) options o).1.memberLists,
      names.Nodup) ↔ ∀ d ∈ o.emission,
        (indexOf options t).MembersApart options.foreignKeySeparator d.2 := by
    rw [memberLists_fileOf]
    exact Index.noneRepeated_outline_iff _ _ _
  rw [files_generate, List.forall_mem_map]
  simp only [hfile]
  constructor
  · intro h name definition hd
    obtain ⟨o, ho, hmem⟩ := (hplaced.exists_emission_iff options.sort _ _).2 hd
    exact h o ho _ hmem
  · intro h o ho d hd
    exact h d.1 d.2 ((hplaced.exists_emission_iff options.sort _ _).1 ⟨o, ho, hd⟩)

/-- Entities `a.Authors`, and `a.Books` with an association to it by the key `ID`, an action with
parameters of different identifiers, and one more element. -/
def booksWith (element : String) : Table Value where
  entries :=
    let uuid : Value := .object [("type", .string "cds.UUID")]
    [("a.Authors", .object [("kind", .string "entity"),
        ("elements", .object [("ID", uuid)])]),
      ("a.Books", .object [("kind", .string "entity"), ("elements", .object
        [("author", .object [("type", .string "cds.Association"), ("target", .string "a.Authors"),
            ("keys", .array [.object [("ref", .array [.string "ID"])]])]),
          (element, uuid)])]),
      ("a.order", .object [("kind", .string "action"),
        ("params", .object [("book", uuid), ("amount", uuid)])])]
  distinct := (by decide : ["a.Authors", "a.Books", "a.order"].Nodup)

/-- The key of the association is named like no element, and the parameters are told apart. -/
theorem nodup_memberLists_title : ∃ t, ScopeTable.ofSchema (schemaOf (booksWith "title")) = .ok t ∧
    (generate {} t).files.flatMap SourceFile.memberLists =
      [["ID"], ["author", "author_ID", "title"], ["name", "paramBook", "paramAmount"],
        ["book", "amount"], ["Authors", "Books"], ["Authors", "Books"]] ∧
    ∀ name definition, t.definition? name = some definition →
      (indexOf {} t).MembersApart "_" definition := by
  have hlists : (ScopeTable.ofSchema (schemaOf (booksWith "title"))).toOption.map (fun t =>
      (generate {} t).files.flatMap SourceFile.memberLists) =
      some [["ID"], ["author", "author_ID", "title"], ["name", "paramBook", "paramAmount"],
        ["book", "amount"], ["Authors", "Books"], ["Authors", "Books"]] := by decide +kernel
  obtain ⟨t, ht, hlists⟩ := exists_ok_of_map hlists
  have hdistinct : NoneRepeated ((generate {} t).files.flatMap SourceFile.memberLists) := by
    rw [hlists, NoneRepeated]
    decide
  exact ⟨t, ht, hlists, (nodup_memberLists_iff ht {}).1 ((noneRepeated_flatMap _ _).1 hdistinct)⟩

/-- Not all properties of interfaces have distinct names: an element may be named like the foreign
key of another one. -/
theorem exists_property_twice :
    ∃ t, ScopeTable.ofSchema (schemaOf (booksWith "author_ID")) = .ok t ∧
      AcyclicReferences t.definition? ∧ ∃ file ∈ (generate {} t).files, ∃ names ∈ file.memberLists,
        names = ["author", "author_ID", "author_ID"] ∧ ¬ names.Nodup := by
  have hnames : (ScopeTable.ofSchema (schemaOf (booksWith "author_ID"))).toOption.map (fun t =>
      decide (∃ file ∈ (generate {} t).files, ∃ names ∈ file.memberLists,
        names = ["author", "author_ID", "author_ID"] ∧ ¬ names.Nodup)) = some true := by
    decide +kernel
  obtain ⟨t, ht, hfound⟩ := exists_ok_of_map hnames
  -- the entities have no element references at all
  have hacyclic : AcyclicReferences t.definition? := acyclicReferences_of_entries
    (rawDefinitions_schemaOf _) ht (fun _ => 0) (by decide +kernel)
  exact ⟨t, ht, hacyclic, of_decide_eq_true hfound⟩

end SchemaTypings.Generation
