import SchemaTypings.Json.Printer
import SchemaTypings.Generation.Outline
import SchemaTypings.Generation.Resolution
import SchemaTypings.Options

/-!
# Declarations from definitions

Every definition becomes declarations: an alias its alias, after the enumerations written inside
it; an enumeration itself; an entity its inline enumerations, its interface and the group of its
bound actions; an action its enumeration of names, the interface of its parameters if it has any,
and the alias of its result if it has one.
-/

namespace SchemaTypings.Generation

open SchemaTypings.Json SchemaTypings.Name SchemaTypings.Schema SchemaTypings.Typing

/-! ### Enumerations -/

/-- The text of a value in an enumeration: a string as it is, anything else in compact JSON. -/
def valueText : Value → String
  | .string s => s
  | value => value.compact

/-- What a member of an enumeration is set to; values that do not count as set set nothing. -/
def initializerOf (isText : Bool) (value : Option Value) : Option Initializer :=
  match value with
  | none => none
  | some value =>
    if value.isTruthy then
      some (if isText then .text (valueText value) else .literal (valueText value))
    else none

/-- The members of an enumeration. -/
def enumMembersOf (isText : Bool) (members : EnumMembers) : List EnumMember :=
  members.entries.map fun entry => ⟨entry.1, initializerOf isText entry.2⟩

/-- The declaration of an enumeration under a name. -/
def enumerationAs (name : String) (enumeration : Enumeration) : Declaration :=
  .enumeration name (enumMembersOf enumeration.isText enumeration.members)

/-- Whether the type of an element is one of texts. -/
def isTextType (type : Option TypeRef) : Bool :=
  match type with
  | some (.named name) => stringTypes.contains name
  | _ => false

/-- The declaration of the enumeration written inside an element, if there is one. -/
def inlineEnumOf (owner : String) (entry : String × Element) : Option Declaration :=
  entry.2.members.map fun members =>
    .enumeration (inlineEnumIdentifier owner entry.1)
      (enumMembersOf (isTextType entry.2.type) members)

/-! ### Properties -/

/-- The property of an element. -/
def propertyOf (r : Resolver) (owner : String) (entry : String × Element) :
    Resolving Property := do
  let type ← r.element owner entry.1 entry.2
  return ⟨entry.1, entry.2.nullable || entry.2.isNavigation, type⟩

/-- The properties of elements, each followed by its foreign keys. -/
def propertiesOf (r : Resolver) (separator owner : String) :
    List (String × Element) → Resolving (List Property)
  | [] => return []
  | entry :: rest => do
    let property ← propertyOf r owner entry
    let keys ← r.foreignKeys entry.1 entry.2 separator
    let more ← propertiesOf r separator owner rest
    return property :: keys ++ more

/-- The property of a parameter. -/
def parameterOf (r : Resolver) (entry : String × Operand) : Resolving Property := do
  let type ← r.typeRef entry.2.type
  return ⟨entry.1, false, type.arrayIf entry.2.many⟩

/-- The properties of parameters. -/
def parametersOf (r : Resolver) : List (String × Operand) → Resolving (List Property)
  | [] => return []
  | entry :: rest => do
    let property ← parameterOf r entry
    let more ← parametersOf r rest
    return property :: more

/-! ### Actions -/

/-- The members of the enumeration of an action's names. -/
def actionMembers (shortName : String) (parameters : List String) : List EnumMember :=
  ⟨"name", some (.text shortName)⟩ ::
    parameters.map fun parameter => ⟨"param" ++ sanitize parameter, some (.text parameter)⟩

/-- The interface of an action's parameters, if there are any. -/
def parameterInterface (r : Resolver) (name : String) (parameters : Table Operand) :
    Resolving (List Declaration) :=
  if parameters.isEmpty then return []
  else do return [.interface name [] (← parametersOf r parameters.entries)]

/-- The alias of an action's result, if there is one. -/
def resultAlias (r : Resolver) (name : String) (result : Option Operand) :
    Resolving (List Declaration) :=
  match result with
  | none => return []
  | some operand => do
    let type ← r.typeRef operand.type
    return [.typeAlias name (type.arrayIf operand.many)]

/-- The declarations of an action, bound to `owner` if there is one. -/
def actionDeclarations (r : Resolver) (interfacePrefix name : String) (action : Action)
    (owner : Option String) : Resolving (List Declaration) := do
  let names := ActionNames.of interfacePrefix action.kind.label name owner
  let parameters ← parameterInterface r names.parameters action.parameters
  let result ← resultAlias r names.result action.result
  return .enumeration names.enumeration (actionMembers names.short action.parameters.keys) ::
    parameters ++ result

/-- The declarations of the actions bound to an entity. -/
def boundDeclarations (r : Resolver) (interfacePrefix owner : String) :
    List (String × Action) → Resolving (List Declaration)
  | [] => return []
  | entry :: rest => do
    let first ← actionDeclarations r interfacePrefix entry.1 entry.2 (some owner)
    let more ← boundDeclarations r interfacePrefix owner rest
    return first ++ more

/-- The group of the actions bound to an entity, if there are any. -/
def actionGroup (r : Resolver) (interfacePrefix owner : String) (actions : Table Action) :
    Resolving (List Declaration) :=
  if actions.isEmpty then return []
  else do
    let declarations ← boundDeclarations r interfacePrefix owner actions.entries
    return [.group (interfaceIdentifier interfacePrefix owner ++ ".actions") declarations]

/-! ### Entities -/

/-- The included definitions that have elements, with their local names. -/
def resolveIncludes (r : Resolver) : List String → Resolving (List (String × Entity))
  | [] => return []
  | name :: rest => do
    let found ← r.resolveInclude name
    let more ← resolveIncludes r rest
    return found.toList ++ more

/-- The elements of an entity that no included definition has. -/
def ownElements (entity : Entity) (includes : List (String × Entity)) :
    List (String × Element) :=
  let inherited := includes.flatMap fun base => base.2.elements.keys
  entity.elements.entries.filter fun entry => !inherited.contains entry.1

/-- The declarations of an entity. -/
def entityDeclarations (r : Resolver) (options : Options) (name : String) (entity : Entity) :
    Resolving (List Declaration) := do
  let includes ← resolveIncludes r entity.includes
  let own := ownElements entity includes
  let properties ← propertiesOf r options.foreignKeySeparator name own
  let actions ← actionGroup r options.interfacePrefix name entity.actions
  return own.filterMap (inlineEnumOf name) ++
    .interface (interfaceIdentifier options.interfacePrefix name) (includes.map Prod.fst)
      properties :: actions

/-! ### Aliases -/

/-- The type that an alias stands for, before it is made an array. -/
def aliasType (r : Resolver) (separator name : String) : AliasBody → Resolving TypeExpr
  | .type (some typeName) => r.typeName typeName
  | .type none => return .unknown
  | .structured elements => do
    return .object (← propertiesOf r separator name elements.entries)

/-- The enumerations written inside an alias. -/
def aliasEnums (name : String) : AliasBody → List Declaration
  | .type _ => []
  | .structured elements => elements.entries.filterMap (inlineEnumOf name)

/-- The declarations of an alias. -/
def aliasDeclarations (r : Resolver) (options : Options) (name : String) (a : Alias) :
    Resolving (List Declaration) := do
  let type ← aliasType r options.foreignKeySeparator name a.body
  return aliasEnums name a.body ++ [.typeAlias (identifier name) (type.arrayIf a.many)]

/-! ### Definitions -/

/-- The declarations of a definition. -/
def definitionDeclarations (r : Resolver) (options : Options) (name : String) :
    Definition → Resolving (List Declaration)
  | .entity entity => entityDeclarations r options name entity
  | .typeAlias a => aliasDeclarations r options name a
  | .enumeration enumeration => return [enumerationAs (identifier name) enumeration]
  | .action action => actionDeclarations r options.interfacePrefix name action none

/-- The declarations of definitions, in order. -/
def declarationsOf (r : Resolver) (options : Options) :
    List (String × Definition) → Resolving (List Declaration)
  | [] => return []
  | entry :: rest => do
    let first ← definitionDeclarations r options entry.1 entry.2
    let more ← declarationsOf r options rest
    return first ++ more

/-- The declarations of an outline: those of its definitions, then the two enumerations of its
entities. -/
def outlineDeclarations (r : Resolver) (options : Options) (o : Outline) :
    Resolving (List Declaration) := do
  let declarations ← declarationsOf r options o.emission
  return declarations ++ [enumerationAs Outline.entityEnumName o.entityEnum,
    enumerationAs Outline.sanitizedEnumName o.sanitizedEnum]

end SchemaTypings.Generation
