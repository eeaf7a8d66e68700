import SchemaTypings.Table
import SchemaTypings.Json.Number

/-!
# JSON values

A JSON value keeps the members of an object in the order in which they were written, repeated
keys included.  `Value.merged` gives the meaning of repeated keys: a key keeps its first place and
takes its last value.
-/

namespace SchemaTypings.Json

/-- A JSON value as it is written. -/
inductive Value where
  | null
  | bool (value : Bool)
  | number (value : Number)
  | string (value : String)
  | array (items : List Value)
  | object (members : List (String × Value))
  deriving Inhabited, Repr

/-- The members of an object. -/
abbrev Members := List (String × Value)

namespace Value

/-! ### Views -/

/-- The text of a string. -/
def string? : Value → Option String
  | string value => some value
  | _ => none

/-- The members of an object. -/
def members? : Value → Option Members
  | object members => some members
  | _ => none

/-- The items of an array. -/
def items? : Value → Option (List Value)
  | array items => some items
  | _ => none

/-- The value under a key, if the value is an object that has it. -/
def member? (key : String) : Value → Option Value
  | object members => Table.find key members
  | _ => none

/-- Whether a value is something other than `null`. -/
def isPresent : Value → Bool
  | null => false
  | _ => true

/-- Whether a value counts as set: not `null`, `false`, zero or the empty string. -/
def isTruthy : Value → Bool
  | null => false
  | bool value => value
  | number value => !value.isZero
  | string value => value != ""
  | array _ => true
  | object _ => true

/-! ### Repeated keys -/

mutual

/-- The value with every key at its first place and with its last value, at all depths. -/
def merged : Value → Value
  | null => null
  | bool value => bool value
  | number value => number value
  | string value => string value
  | array items => array (mergedItems items)
  | object members => object (Table.ofEntries (mergedMembers members)).entries

/-- The items of an array, each merged. -/
def mergedItems : List Value → List Value
  | [] => []
  | item :: rest => item.merged :: mergedItems rest

/-- The members of an object, each value merged. -/
def mergedMembers : Members → Members
  | [] => []
  | (key, value) :: rest => (key, value.merged) :: mergedMembers rest

end

end Value

/-! ### Members read by key -/

namespace Members

/-- The value under a key. -/
def get? (members : Members) (key : String) : Option Value := Table.find key members

/-- The text under a key, if a string stands there. -/
def text? (members : Members) (key : String) : Option String :=
  (members.get? key).bind Value.string?

/-- The members of the object under a key, if an object stands there. -/
def object? (members : Members) (key : String) : Option Members :=
  (members.get? key).bind Value.members?

/-- The items of the array under a key, if an array stands there. -/
def array? (members : Members) (key : String) : Option (List Value) :=
  (members.get? key).bind Value.items?

/-- Whether a value other than `null` stands under a key. -/
def has (members : Members) (key : String) : Bool :=
  ((members.get? key).map Value.isPresent).getD false

/-- Whether the value under a key counts as set. -/
def isSet (members : Members) (key : String) : Bool :=
  ((members.get? key).map Value.isTruthy).getD false

end Members

end SchemaTypings.Json
