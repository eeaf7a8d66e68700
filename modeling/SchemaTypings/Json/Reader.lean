import SchemaTypings.Json.Token

/-!
# Reading JSON values

The reader takes one token a step.  Arrays and objects that are not yet closed wait on a stack of
frames, whose height is bounded by the given limit; a text is a value when its last step leaves
exactly one finished value and no open frame.
-/

namespace SchemaTypings.Json

/-- An array or object that is still open, its finished parts last first. -/
inductive Frame where
  /-- An array that waits for an item. -/
  | items (done : List Value)
  /-- An object that waits for the value under a key. -/
  | member (done : Members) (key : String)

/-- What the reader has and what must come next. -/
inductive Reader where
  /-- A value must come; `first` right after an opening bracket, where the array may also close. -/
  | awaitValue (pending : List Frame) (first : Bool)
  /-- A key must come; `first` right after an opening brace, where the object may also close. -/
  | awaitKey (done : Members) (pending : List Frame) (first : Bool)
  /-- A colon must come. -/
  | awaitColon (done : Members) (key : String) (pending : List Frame)
  /-- A value is finished; a comma, a closing mark or the end must come. -/
  | finished (value : Value) (pending : List Frame)

namespace Reader

/-- One step: the next token, with at most `limit` arrays and objects open at once. -/
def step (limit : Nat) : Reader → Token → Option Reader
  | awaitValue fs _, .null => some (finished .null fs)
  | awaitValue fs _, .bool b => some (finished (.bool b) fs)
  | awaitValue fs _, .number n => some (finished (.number n) fs)
  | awaitValue fs _, .text s => some (finished (.string s) fs)
  | awaitValue fs _, .openArray =>
    if fs.length < limit then some (awaitValue (.items [] :: fs) true) else none
  | awaitValue fs _, .openObject => if fs.length < limit then some (awaitKey [] fs true) else none
  | awaitValue (.items [] :: fs) true, .closeArray => some (finished (.array []) fs)
  | awaitKey done fs _, .text s => some (awaitColon done s fs)
  | awaitKey [] fs true, .closeObject => some (finished (.object []) fs)
  | awaitColon done k fs, .colon => some (awaitValue (.member done k :: fs) false)
  | finished v (.items done :: fs), .comma => some (awaitValue (.items (v :: done) :: fs) false)
  | finished v (.items done :: fs), .closeArray => some (finished (.array (v :: done).reverse) fs)
  | finished v (.member done k :: fs), .comma => some (awaitKey ((k, v) :: done) fs false)
  | finished v (.member done k :: fs), .closeObject =>
    some (finished (.object ((k, v) :: done).reverse) fs)
  | _, _ => none

/-- Runs the reader over tokens. -/
def run (limit : Nat) (reader : Reader) (tokens : List Token) : Option Reader :=
  tokens.foldlM (step limit) reader

@[simp] theorem run_cons (limit : Nat) (reader : Reader) (token : Token) (tokens : List Token) :
    run limit reader (token :: tokens) =
      (step limit reader token).bind fun next => run limit next tokens := rfl

/-- The finished value, if nothing is left open. -/
def value? : Reader → Option Value
  | finished v [] => some v
  | _ => none

end Reader

/-- The value of a token sequence. -/
def ofTokens? (limit : Nat) (tokens : List Token) : Option Value :=
  (Reader.run limit (.awaitValue [] false) tokens).bind Reader.value?

/-- The value that a text writes, every member as written. -/
def read? (limit : Nat) (text : String) : Option Value := (tokens? text).bind (ofTokens? limit)

/-- The number of nested arrays and objects that schemas and options may have. -/
def nestingLimit : Nat := 127

/-- The value that a text means: at most `nestingLimit` levels, repeated keys merged. -/
def load? (text : String) : Option Value := (read? nestingLimit text).map Value.merged

end SchemaTypings.Json
