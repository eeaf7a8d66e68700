import SchemaTypings.Proofs.Chains

/-!
# Findings

A generated file asks for a type or a key at many places of the definitions.  What is found there
is told by `Finds`, from the index alone: the rules follow an element reference to the element and
know neither a bound on chains nor imports nor the files.  At every place at most one thing is
found, and if no chain of references runs in a circle, something is.
-/

namespace SchemaTypings.Generation

open SchemaTypings.Schema SchemaTypings.Typing

/-! ### Places that ask for types -/

/-- A place of a definition for which a generated file asks for a type or a key. -/
inductive Asked where
  /-- A type position: that of an alias, a key, a parameter or a result. -/
  | type (type : Option TypeRef)
  /-- The field of a definition that becomes a property. -/
  | element (owner field : String) (element : Element)
  /-- The key of an association that its target does not have. -/
  | missingKey (key field target : String)

namespace Index

/-- What is asked for by the keys of an association to one definition with elements. -/
def askedByKeys (index : Index) (field : String) (element : Element) : List Asked :=
  if element.many then []
  else match element.target with
    | none => []
    | some target =>
      match index.entity? target with
      | none => []
      | some entity => element.keys.map fun path =>
        match entity.elements.get? path.first with
        | none => .missingKey path.first field target
        | some key => .type key.type

/-- What is asked for by a field: its own type, then its keys. -/
def askedByField (index : Index) (owner : String) (entry : String × Element) : List Asked :=
  .element owner entry.1 entry.2 :: index.askedByKeys entry.1 entry.2

/-- What is asked for by an action: its parameters, then its result. -/
def askedByAction (action : Action) : List Asked :=
  action.parameters.entries.map (fun entry => .type entry.2.type) ++
    action.result.toList.map fun operand => .type operand.type

/-- The definitions with elements that a definition includes. -/
def included (index : Index) (names : List String) : List (String × Entity) :=
  names.filterMap fun name => (index.entity? name).map (Prod.mk name)

theorem includes_catalogue (index : Index) (names : List String) :
    index.catalogue.includes names = index.included names := by
  simp only [Catalogue.includes, included, entity?_catalogue]

/-- What is asked for by a definition; inherited fields ask for nothing. -/
def askedBy (index : Index) (name : String) : Definition → List Asked
  | .entity e =>
    (ownElements e (index.included e.includes)).flatMap (index.askedByField name) ++
      e.actions.entries.flatMap fun entry => askedByAction entry.2
  | .typeAlias a =>
    match a.body with
    | .type typeName => [.type (typeName.map TypeRef.named)]
    | .structured elements => elements.entries.flatMap (index.askedByField name)
  | .enumeration _ => []
  | .action a => askedByAction a

/-- Whether a name means a definition that is a type. -/
def Refers (index : Index) (name : String) : Prop :=
  ∃ entry, index.get? name = some entry ∧ entry.definition.isAction = false

end Index

/-- What the files of a table ask for, in the order of generation. -/
def askedFor (options : Options) (t : ScopeTable) : List Asked :=
  (outlines options.sort t).flatMap fun o => o.emission.flatMap fun entry =>
    (Index.ofScopes t options.interfacePrefix).askedBy entry.1 entry.2

/-! ### What is found -/

/-- What is found where a type or a key is asked for. -/
inductive Finding where
  /-- A type. -/
  | resolved
  /-- Nothing, since there is nothing that could be resolved. -/
  | blank
  /-- Nothing, although there is something to resolve. -/
  | failed (cause : Warning)
  /-- No such key. -/
  | skipped (cause : Warning)
  deriving DecidableEq

namespace Finding

/-- The warning that a finding deserves. -/
def warning? : Finding → Option Warning
  | resolved => none
  | blank => none
  | failed cause => some cause
  | skipped cause => some cause

/-- Whether there is no type at all. -/
def isBlank : Finding → Bool
  | blank => true
  | _ => false

/-- Whether there is a type that cannot be resolved. -/
def isFailed : Finding → Bool
  | failed _ => true
  | _ => false

/-- Whether a key is left out. -/
def isSkipped : Finding → Bool
  | skipped _ => true
  | _ => false

/-- There are as many warnings as types that cannot be resolved and keys that are left out. -/
theorem length_warnings (findings : List Finding) : (findings.filterMap warning?).length =
    findings.countP isFailed + findings.countP isSkipped := by
  induction findings with
  | nil => rfl
  | cons finding rest ih =>
    rw [List.countP_cons, List.countP_cons, List.filterMap_cons]
    cases finding <;> simp only [warning?, isFailed, isSkipped, List.length_cons, ih] <;> simp <;>
      omega

end Finding

/-- What is found by the definitions of an index. -/
inductive Finds (index : Index) : Asked → Finding → Prop where
  | noType : Finds index (.type none) .blank
  | primitive {name : String} {primitive : Primitive}
      (mapped : Primitive.ofBuiltin? name = some primitive) :
      Finds index (.type (some (.named name))) .resolved
  | unmapped {name : String} (unmapped : Primitive.ofBuiltin? name = none)
      (builtin : isBuiltin name = true) :
      Finds index (.type (some (.named name))) (.failed (.unmappedBuiltin name))
  | definition {name : String} (unmapped : Primitive.ofBuiltin? name = none)
      (custom : isBuiltin name = false) (refers : index.Refers name) :
      Finds index (.type (some (.named name))) .resolved
  | noDefinition {name : String} (unmapped : Primitive.ofBuiltin? name = none)
      (custom : isBuiltin name = false) (refersNot : ¬ index.Refers name) :
      Finds index (.type (some (.named name))) (.failed (.unresolvedType name))
  | noElement {owner field : String} (missing : index.element? owner field = none) :
      Finds index (.type (some (.element owner field))) (.failed (.unresolvedElement owner field))
  | reference {owner field : String} {element : Element} {finding : Finding}
      (found : index.element? owner field = some element)
      (finds : Finds index (.element owner field element) finding) :
      Finds index (.type (some (.element owner field))) finding
  | members {owner field : String} {element : Element} (members : element.members.isSome = true) :
      Finds index (.element owner field element) .resolved
  | target {owner field name : String} {element : Element}
      (plain : element.members.isSome = false) (target : element.target = some name)
      (refers : index.Refers name) : Finds index (.element owner field element) .resolved
  | badTarget {owner field name : String} {element : Element}
      (plain : element.members.isSome = false) (target : element.target = some name)
      (refersNot : ¬ index.Refers name) :
      Finds index (.element owner field element) (.failed (.unresolvedTarget name))
  | noTarget {owner field : String} {element : Element}
      (plain : element.members.isSome = false) (target : element.target = none)
      (association : element.isAssociationType = true) :
      Finds index (.element owner field element) (.failed (.missingTarget owner field))
  | typed {owner field : String} {element : Element} {finding : Finding}
      (plain : element.members.isSome = false) (target : element.target = none)
      (noAssociation : element.isAssociationType = false)
      (finds : Finds index (.type element.type) finding) :
      Finds index (.element owner field element) finding
  | missingKey (key field target : String) :
      Finds index (.missingKey key field target) (.skipped (.unknownKey key field target))

/-- At every place at most one thing is found. -/
theorem Finds.unique {index : Index} {asked : Asked} {a b : Finding} (ha : Finds index asked a)
    (hb : Finds index asked b) : a = b := by
  induction ha generalizing b with
  | noType => cases hb; rfl
  | primitive => cases hb <;> simp_all
  | unmapped => cases hb <;> simp_all
  | definition => cases hb <;> simp_all
  | noDefinition => cases hb <;> simp_all
  | noElement => cases hb <;> simp_all
  | reference found _ ih =>
    cases hb with
    | noElement missing => rw [found] at missing; cases missing
    | reference found' finds' =>
      rw [found] at found'
      cases found'
      exact ih finds'
  | members => cases hb <;> simp_all
  | target => cases hb <;> simp_all
  | badTarget => cases hb <;> simp_all
  | noTarget => cases hb <;> simp_all
  | typed plain target noAssociation _ ih =>
    cases hb with
    | typed _ _ _ finds' => exact ih finds'
    | members members => rw [plain] at members; cases members
    | target _ target' => rw [target] at target'; cases target'
    | badTarget _ target' => rw [target] at target'; cases target'
    | noTarget _ _ association => rw [noAssociation] at association; cases association
  | missingKey => cases hb; rfl

end SchemaTypings.Generation
