import Mathlib.Order.WellFoundedSet
import SchemaTypings.Proofs.Closure
import SchemaTypings.Proofs.Findings

/-!
# Inherited fields

The interface of a definition extends the interfaces of its bases, which are the included
definitions that have elements, and leaves their elements out.  A base may leave an element to its
own bases in turn; if definitions do not include themselves, it comes to an interface that keeps it.
-/

namespace SchemaTypings.Typing

/-- Whether a declaration is an interface. -/
def Declaration.isInterface : Declaration → Bool
  | interface _ _ _ => true
  | _ => false

/-- The properties of an interface; other declarations have none. -/
def Declaration.properties : Declaration → List Property
  | interface _ _ properties => properties
  | _ => []

end SchemaTypings.Typing

namespace SchemaTypings.Generation

open SchemaTypings.Name SchemaTypings.Schema SchemaTypings.Typing

/-! ### The interface of a definition -/

/-- The elements of a definition that none of its bases has, in order. -/
def newElements (entity : Entity) (bases : List (String × Entity)) : List (String × Element) :=
  entity.elements.entries.filter fun entry =>
    bases.all fun base => !base.2.elements.contains entry.1

/-- The property of an element, as the resolver makes it when it has collected `c`. -/
def propertyIn (r : Resolver) (c : Collected) (owner : String) (entry : String × Element) :
    Property where
  name := entry.1
  optional := entry.2.nullable || entry.2.isNavigation
  type := ((r.element owner entry.1 entry.2).run c).1

/-- The interface of a definition in the file of an outline: it extends the local names of its bases
and has a property for each element that is new, followed by the keys of that element. -/
def interfaceOf (index : Index) (options : Options) (o : Outline) (entry : String × Entity) :
    Declaration :=
  let r := resolverFor index options o
  let c := collectedFor index options o
  let bases := index.included entry.2.includes
  .interface (interfaceIdentifier options.interfacePrefix entry.1)
    (bases.map fun base => r.nameIn c (.definition base.1))
    ((newElements entry.2 bases).flatMap fun element => propertyIn r c entry.1 element ::
      ((r.foreignKeys element.1 element.2 options.foreignKeySeparator).run c).1)

theorem mem_newElements_iff {entity : Entity} {bases : List (String × Entity)}
    {entry : String × Element} : entry ∈ newElements entity bases ↔
      entry ∈ entity.elements.entries ∧ ∀ base ∈ bases, entry.1 ∉ base.2.elements.keys := by
  simp [newElements, ← Table.contains_iff]

theorem newElements_eq (entity : Entity) (bases : List (String × Entity)) :
    newElements entity bases = ownElements entity bases := by
  refine List.filter_congr fun entry _ => ?_
  rw [Bool.eq_iff_iff, List.all_eq_true, Bool.not_eq_true', List.contains_eq_mem,
    decide_eq_false_iff_not, List.mem_flatMap]
  simp [← Table.contains_iff]

/-! ### Sketches of interfaces -/

/-- Whether a sketch is one of an interface. -/
def DeclarationSketch.isInterface : DeclarationSketch → Bool
  | interface _ _ _ => true
  | _ => false

theorem filter_isInterface_named (interfacePrefix : String) (nameOf : Mention → String)
    (sketches : List DeclarationSketch) :
    (namedDeclarations interfacePrefix nameOf sketches).filter Declaration.isInterface =
      (sketches.filter DeclarationSketch.isInterface).map
        (DeclarationSketch.named interfacePrefix nameOf) := by
  rw [namedDeclarations_eq_map, List.filter_map]
  refine congrArg _ (List.filter_congr fun sketch _ => ?_)
  cases sketch <;> rfl

namespace Catalogue

variable (k : Catalogue)

/-- The interface of a definition with elements. -/
def interfaceOf (separator : String) (entry : String × Entity) : DeclarationSketch :=
  let bases := k.includes entry.2.includes
  .interface (identifier entry.1) (bases.map fun base => .definition base.1)
    ((ownElements entry.2 bases).flatMap (k.elementProperties separator entry.1))

theorem filter_isInterface_enumerations (declarations : List Declaration) :
    (declarations.map enumerationSketch).filter DeclarationSketch.isInterface = [] := by
  rw [List.filter_map, List.map_eq_nil_iff, List.filter_eq_nil_iff]
  intro declaration _
  cases declaration <;> exact Bool.false_ne_true

theorem filter_isInterface_entity (separator name : String) (entity : Entity) :
    (k.entity separator name entity).filter DeclarationSketch.isInterface =
      [k.interfaceOf separator (name, entity)] := by
  have hactions :
      (k.actionGroup name entity.actions).filter DeclarationSketch.isInterface = [] := by
    rw [actionGroup]
    split <;> rfl
  rw [Catalogue.entity, List.filter_append, filter_isInterface_enumerations, List.nil_append,
    List.filter_cons_of_pos rfl, hactions]
  rfl

theorem filter_isInterface_typeAlias (separator name : String) (a : Alias) :
    (k.typeAlias separator name a).filter DeclarationSketch.isInterface = [] := by
  rw [typeAlias, List.filter_append, filter_isInterface_enumerations]
  rfl

/-- An outline begins its interfaces with those of its definitions with elements, in order. -/
theorem interfaces_outline (separator : String) (o : Outline) :
    o.entities.map (k.interfaceOf separator) <+:
      (k.outline separator o).filter DeclarationSketch.isInterface := by
  have haliases : (o.aliases.flatMap fun e =>
      (k.typeAlias separator e.1 e.2).filter DeclarationSketch.isInterface) = [] :=
    List.flatMap_eq_nil_iff.2 fun e _ => k.filter_isInterface_typeAlias separator e.1 e.2
  have henumerations : (o.enumerations.flatMap fun e =>
      [enumerationSketch (enumerationAs (identifier e.1) e.2)].filter
        DeclarationSketch.isInterface) = [] :=
    List.flatMap_eq_nil_iff.2 fun _ _ => rfl
  have hentities : (o.entities.flatMap fun e =>
      (k.entity separator e.1 e.2).filter DeclarationSketch.isInterface) =
        o.entities.map (k.interfaceOf separator) := by
    simp only [filter_isInterface_entity, Prod.eta, List.map_eq_flatMap]
  rw [outline, Outline.emission, List.filter_append, List.filter_flatMap]
  simp only [List.flatMap_append, List.flatMap_map, definition, haliases, henumerations, hentities,
    List.nil_append, List.append_assoc]
  exact List.prefix_append _ _

end Catalogue

section Linked

variable {r : Resolver} {c : Collected}

/-- The properties of elements and their keys are what the resolver answers where all that they
mention is linked. -/
theorem namedProperties_eq_of_linked (separator owner : String) (entries : List (String × Element))
    (hl : ∀ m, .mention m ∈ propertyEvents
      (entries.flatMap (r.index.catalogue.elementProperties separator owner)) → r.Linked c m) :
    namedProperties (r.nameIn c)
        (entries.flatMap (r.index.catalogue.elementProperties separator owner)) =
      entries.flatMap fun entry => propertyIn r c owner entry ::
        ((r.foreignKeys entry.1 entry.2 separator).run c).1 := by
  induction entries with
  | nil => rfl
  | cons entry rest ih =>
    rw [List.flatMap_cons, propertyEvents_append, Catalogue.elementProperties,
      propertyEvents_property] at hl
    have htype := (r.draftsType_element owner entry.1 entry.2).run_of_linked
      fun m hm => hl m (List.mem_append_left _ (List.mem_append_left _ hm))
    have hkeys := (r.draftsProperties_foreignKeys entry.1 entry.2 separator).run_of_linked
      fun m hm => hl m (List.mem_append_left _ (List.mem_append_right _ hm))
    rw [List.flatMap_cons, List.flatMap_cons, namedProperties_append, Catalogue.elementProperties,
      namedProperties_property, ← htype, ← hkeys,
      ih fun m hm => hl m (List.mem_append_right _ hm)]
    rfl

end Linked

/-- What the interface of a definition mentions is mentioned in the outline. -/
theorem mem_outlineEvents_of_interface {index : Index} {options : Options} {o : Outline}
    {entry : String × Entity} (hentry : entry ∈ o.entities) {event : Event}
    (he : event ∈ (index.catalogue.interfaceOf options.foreignKeySeparator entry).events) :
    event ∈ outlineEvents index options o := by
  have hsketch := (index.catalogue.interfaces_outline options.foreignKeySeparator o).subset
    (List.mem_map_of_mem hentry)
  rw [outlineEvents, declarationEvents_eq_flatMap]
  exact List.mem_flatMap.2 ⟨_, (List.mem_filter.1 hsketch).1, he⟩

/-- With its local names put in, the sketch of an interface is the interface. -/
theorem named_interfaceOf {index : Index} {options : Options} {o : Outline}
    {entry : String × Entity} (hentry : entry ∈ o.entities) :
    (index.catalogue.interfaceOf options.foreignKeySeparator entry).named options.interfacePrefix
        ((resolverFor index options o).nameIn (collectedFor index options o)) =
      interfaceOf index options o entry := by
  have hproperties := namedProperties_eq_of_linked (r := resolverFor index options o)
    (c := collectedFor index options o) options.foreignKeySeparator entry.1
    (ownElements entry.2 (index.catalogue.includes entry.2.includes)) fun m hm =>
      Resolver.linked_after _ (mem_outlineEvents_of_interface hentry (List.mem_append_right _ hm))
  rw [Catalogue.interfaceOf, DeclarationSketch.named, List.map_map, interfaceOf, newElements_eq,
    ← Index.includes_catalogue]
  exact congrArg _ hproperties

/-- A file begins its interfaces with those of the definitions with elements, in order. -/
theorem interfaces_fileOf (index : Index) (options : Options) (o : Outline) :
    o.entities.map (interfaceOf index options o) <+:
      (fileOf index options o).1.declarations.filter Declaration.isInterface := by
  have hnamed : o.entities.map (interfaceOf index options o) =
      (o.entities.map (index.catalogue.interfaceOf options.foreignKeySeparator)).map
        (DeclarationSketch.named options.interfacePrefix
          ((resolverFor index options o).nameIn (collectedFor index options o))) := by
    rw [List.map_map]
    exact List.map_congr_left fun entry hentry => (named_interfaceOf hentry).symm
  rw [fileOf_eq, hnamed]
  show _ <+: (namedDeclarations _ _ _).filter Declaration.isInterface
  rw [filter_isInterface_named]
  exact (index.catalogue.interfaces_outline _ o).map _

end SchemaTypings.Generation

namespace SchemaTypings.Schema

/-! ### Bases -/

/-- A definition includes another one, and both have elements. -/
def Includes (t : ScopeTable) (name base : String) : Prop :=
  ∃ entity included, t.definition? name = some (.entity entity) ∧ base ∈ entity.includes ∧
    t.definition? base = some (.entity included)

/-- No definition includes itself, directly or through others. -/
def AcyclicIncludes (t : ScopeTable) : Prop :=
  ∀ name, ¬ Relation.TransGen (Includes t) name name

/-- Among finitely many definitions, including is well founded if it runs in no circle. -/
theorem AcyclicIncludes.wellFoundedOn {t : ScopeTable} (h : AcyclicIncludes t)
    (names : List String) : {name | name ∈ names}.WellFoundedOn
      fun base name => Relation.TransGen (Includes t) name base := by
  have hstrict : IsStrictOrder String fun base name => Relation.TransGen (Includes t) name base :=
    { irrefl := h
      trans := fun _ _ _ hab hbc => hbc.trans hab }
  exact (List.finite_toSet names).wellFoundedOn

/-- Including runs in no circle if what is included has a smaller rank. -/
theorem acyclicIncludes_of_rank {t : ScopeTable} (rank : String → Nat)
    (h : ∀ scope ∈ t.scopes, ∀ d ∈ scope.definitions.entries, ∀ entity ∈ d.2.entity?,
      ∀ base ∈ entity.includes, rank base < rank d.1) : AcyclicIncludes t := by
  have hstep : ∀ name base, Includes t name base → rank base < rank name := by
    rintro name base ⟨entity, -, hd, hbase, -⟩
    obtain ⟨scope, hs, hfound⟩ := Option.bind_eq_some_iff.1 hd
    obtain ⟨key, -, hscope⟩ := Option.bind_eq_some_iff.1 hs
    exact h scope (List.mem_of_find?_eq_some hscope) _ (Table.mem_of_find hfound) entity rfl
      base hbase
  exact Generation.not_transGen_self_of_rank rank hstep

namespace Placed

open SchemaTypings.Name SchemaTypings.Generation SchemaTypings.Typing

variable {services : List String} {placed : List (String × Definition)} {t : ScopeTable}

theorem entity?_eq_some_iff (h : Placed services placed t) (options : Options) (name : String)
    (entity : Entity) :
    (indexOf options t).entity? name = some entity ↔
      t.definition? name = some (.entity entity) := by
  rw [h.entity?_ofScopes, Option.bind_eq_some_iff]
  constructor
  · rintro ⟨definition, hd, he⟩
    cases definition with
    | entity e =>
      cases he
      exact hd
    | typeAlias a => cases he
    | enumeration e => cases he
    | action a => cases he
  · exact fun hd => ⟨_, hd, rfl⟩

theorem mem_included_iff (h : Placed services placed t) (options : Options) (names : List String)
    (base : String × Entity) : base ∈ (indexOf options t).included names ↔
      base.1 ∈ names ∧ t.definition? base.1 = some (.entity base.2) := by
  rw [← h.entity?_eq_some_iff options, Index.included, List.mem_filterMap]
  constructor
  · rintro ⟨name, hn, hfound⟩
    obtain ⟨entity, he, rfl⟩ := Option.map_eq_some_iff.1 hfound
    exact ⟨hn, he⟩
  · rintro ⟨hn, he⟩
    exact ⟨base.1, hn, by rw [he]; rfl⟩

/-- The definitions with elements are those of the outlines. -/
theorem mem_entities_iff (h : Placed services placed t) (options : Options) (name : String)
    (entity : Entity) : (∃ o ∈ outlines options.sort t, (name, entity) ∈ o.entities) ↔
      t.definition? name = some (.entity entity) := by
  rw [← h.exists_emission_iff options.sort]
  simp [Outline.emission]

/-- A field of a definition is new in the definition or in one that it comes to by including. -/
theorem exists_newElement (h : Placed services placed t) (hacyclic : AcyclicIncludes t)
    (options : Options) (name : String) (entity : Entity)
    (hd : t.definition? name = some (.entity entity)) {field : String}
    (hfield : field ∈ entity.elements.keys) :
    ∃ base : String × Entity, Relation.ReflTransGen (Includes t) name base.1 ∧
      t.definition? base.1 = some (.entity base.2) ∧ ∃ element,
        (field, element) ∈ newElements base.2 ((indexOf options t).included base.2.includes) := by
  have hname : name ∈ {name | name ∈ placed.map Prod.fst} := by
    have hmem := hd
    rw [h.definition?_eq, Table.find_eq_some_iff h.names_nodup] at hmem
    exact List.mem_map.2 ⟨_, hmem, rfl⟩
  -- by induction on the definition, its bases being the smaller ones
  revert entity
  apply (hacyclic.wellFoundedOn (placed.map Prod.fst)).induction hname
  intro name _ ih entity hd hfield
  by_cases hkept : ∃ base ∈ (indexOf options t).included entity.includes,
      field ∈ base.2.elements.keys
  · obtain ⟨base, hbase, hinherited⟩ := hkept
    obtain ⟨hincluded, hdefined⟩ := (h.mem_included_iff options _ base).1 hbase
    have hstep : Includes t name base.1 := ⟨entity, base.2, hd, hincluded, hdefined⟩
    have hmem := hdefined
    rw [h.definition?_eq, Table.find_eq_some_iff h.names_nodup] at hmem
    obtain ⟨last, hreaches, hlast⟩ := ih base.1 (List.mem_map.2 ⟨_, hmem, rfl⟩) (.single hstep)
      base.2 hdefined hinherited
    exact ⟨last, hreaches.head hstep, hlast⟩
  · obtain ⟨⟨_, element⟩, helement, rfl⟩ := List.mem_map.1 hfield
    refine ⟨(name, entity), .refl, hd, element, mem_newElements_iff.2 ⟨helement, ?_⟩⟩
    exact fun base hbase hinherited => hkept ⟨base, hbase, hinherited⟩

/-- The local name of a base leads to the interface of the base. -/
theorem leadsTo_base (h : Placed services placed t) (options : Options) {o : Outline}
    (hmem : o ∈ outlines options.sort t) {entry base : String × Entity}
    (hentry : entry ∈ o.entities)
    (hbase : base ∈ (indexOf options t).included entry.2.includes) :
    LeadsTo (generate options t).files (fileOf (indexOf options t) options o).1
      ((resolverFor (indexOf options t) options o).nameIn
        (collectedFor (indexOf options t) options o) (.definition base.1))
      (interfaceIdentifier options.interfacePrefix base.1) := by
  have hmention : .mention (.definition base.1) ∈ outlineEvents (indexOf options t) options o := by
    refine mem_outlineEvents_of_interface hentry (List.mem_append_left _ ?_)
    rw [Index.includes_catalogue, List.map_map]
    exact List.mem_map_of_mem hbase
  cases h.means options hmem hmention with
  | definition hfound leads =>
    obtain ⟨definition, key, hd, -, rfl⟩ := (h.get?_ofScopes_iff _ _ _).1 hfound
    have hdefined := ((h.mem_included_iff options _ base).1 hbase).2
    rw [h.definition?_eq, Table.find_eq_some_iff h.names_nodup] at hdefined
    obtain rfl : definition = .entity base.2 :=
      Option.some.inj ((Table.find_of_mem h.names_nodup hd).symm.trans
        (Table.find_of_mem h.names_nodup hdefined))
    exact leads

end Placed

end SchemaTypings.Schema

namespace SchemaTypings.Generation

open SchemaTypings.Json SchemaTypings.Name SchemaTypings.Schema SchemaTypings.Typing

/-! ### Every schema -/

/-- What becomes of the fields of definitions with elements. -/
structure Inheritance (options : Options) (t : ScopeTable) : Prop where
  /-- Every definition with elements is one of an outline. -/
  complete : ∀ name entity, t.definition? name = some (.entity entity) ↔
    ∃ o ∈ outlines options.sort t, (name, entity) ∈ o.entities
  /-- A file begins its interfaces with those of the definitions with elements of its outline, in
  order. -/
  interfaces : List.Forall₂ (fun o file => o.entities.map (interfaceOf (indexOf options t) options o)
    <+: file.declarations.filter Declaration.isInterface)
    (outlines options.sort t) (generate options t).files
  /-- The names that an interface extends lead to the interfaces of the included definitions that
  have elements. -/
  bases : List.Forall₂ (fun o file => ∀ entry ∈ o.entities,
    ∀ base ∈ (indexOf options t).included entry.2.includes,
      LeadsTo (generate options t).files file
        ((resolverFor (indexOf options t) options o).nameIn
          (collectedFor (indexOf options t) options o) (.definition base.1))
        (interfaceIdentifier options.interfacePrefix base.1))
    (outlines options.sort t) (generate options t).files
  /-- If no definition includes itself, every field of a definition has its property in the
  interface of that definition or of one that it comes to by including. -/
  surfaces : AcyclicIncludes t → ∀ name entity, t.definition? name = some (.entity entity) →
    ∀ field ∈ entity.elements.keys, ∃ o ∈ outlines options.sort t, ∃ base ∈ o.entities,
      Relation.ReflTransGen (Includes t) name base.1 ∧ ∃ element,
        (field, element) ∈ base.2.elements.entries ∧
          propertyIn (resolverFor (indexOf options t) options o)
              (collectedFor (indexOf options t) options o) base.1 (field, element) ∈
            (interfaceOf (indexOf options t) options o base).properties

/-- **Inheritance loses no field.**  In the files of an accepted schema the interface of a
definition extends its bases and has the properties of the elements that none of them has, each
followed by its keys; and a field that it leaves to its bases is found at the end of the way. -/
theorem generate_inheritance {schema : Value} {t : ScopeTable}
    (ht : ScopeTable.ofSchema schema = .ok t) (options : Options) : Inheritance options t := by
  obtain ⟨definitions, read, -, -, h⟩ := placed_ofSchema ht
  constructor
  case complete => exact fun name entity => (h.mem_entities_iff options name entity).symm
  case interfaces =>
    rw [files_generate, List.forall₂_map_right_iff]
    exact List.forall₂_same.2 fun o _ => interfaces_fileOf _ _ o
  case bases =>
    have hleads : ∀ o ∈ outlines options.sort t, ∀ entry ∈ o.entities,
        ∀ base ∈ (indexOf options t).included entry.2.includes, _ :=
      fun o ho entry hentry base hbase => h.leadsTo_base options ho hentry hbase
    rw [files_generate, List.forall₂_map_right_iff]
    exact List.forall₂_same.2 (files_generate options t ▸ hleads)
  case surfaces =>
    intro hacyclic name entity hd field hfield
    obtain ⟨base, hreaches, hdefined, element, hnew⟩ :=
      h.exists_newElement hacyclic options name entity hd hfield
    obtain ⟨o, ho, hbase⟩ := (h.mem_entities_iff options base.1 base.2).2 hdefined
    refine ⟨o, ho, base, hbase, hreaches, element, (mem_newElements_iff.1 hnew).1, ?_⟩
    exact List.mem_flatMap.2 ⟨(field, element), hnew, List.mem_cons_self⟩

/-- A definition of one namespace that includes one of another, which includes a third. -/
def threeGenerations : Value :=
  let text : Value := .object [("type", .string "cds.String")]
  let entity (includes : List Value) (elements : Members) : Value := .object
    [("kind", .string "entity"), ("includes", .array includes), ("elements", .object elements)]
  .object [("definitions", .object
    [("b.Customer", entity [.string "a.Named"] [("ID", text), ("name", text),
        ("referee", .object [("type", .string "cds.Association"), ("target", .string "a.Named"),
          ("keys", .array [.object [("ref", .array [.string "ID"])]])])]),
      ("a.Named", entity [.string "a.ID"] [("ID", text), ("name", text)]),
      ("a.ID", entity [] [("ID", text)])])]

/-- `Customer` leaves two fields to `Named`, which leaves one of them to `ID`. -/
theorem generate_inheritance_threeGenerations : ∃ t,
    ScopeTable.ofSchema threeGenerations = .ok t ∧ AcyclicIncludes t ∧
      (generate {} t).files.flatMap (fun file =>
          (file.declarations.filter Declaration.isInterface).map fun d =>
            (d.name, d.references, d.properties.map Property.name)) =
        [("Customer", ["Named", "Named"], ["referee", "referee_ID"]), ("Named", ["ID"], ["name"]),
          ("ID", [], ["ID"])] ∧
      Inheritance {} t := by
  have hlists : (ScopeTable.ofSchema threeGenerations).toOption.map (fun t =>
      (decide (∀ scope ∈ t.scopes, ∀ d ∈ scope.definitions.entries, ∀ entity ∈ d.2.entity?,
        ∀ base ∈ entity.includes, base.length < d.1.length),
      (generate {} t).files.flatMap fun file =>
        (file.declarations.filter Declaration.isInterface).map fun d =>
          (d.name, d.references, d.properties.map Property.name))) =
      some (true, [("Customer", ["Named", "Named"], ["referee", "referee_ID"]),
        ("Named", ["ID"], ["name"]), ("ID", [], ["ID"])]) := by decide +kernel
  obtain ⟨t, ht, hlisted⟩ := exists_ok_of_map hlists
  obtain ⟨hrank, hinterfaces⟩ := Prod.mk.inj hlisted
  exact ⟨t, ht, acyclicIncludes_of_rank String.length (of_decide_eq_true hrank), hinterfaces,
    generate_inheritance ht {}⟩

end SchemaTypings.Generation
