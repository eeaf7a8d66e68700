import SchemaTypings.Json.Value

/-!
# Tokens of JSON texts

The lexer is a machine that takes one character a step.  Its modes are: between tokens, inside a
bare word or number, and the stages of a quoted text and of its escapes.  The grammar is strict:
no control character and no lone surrogate inside a text, and blanks are only space, tab, line
feed and carriage return.
-/

namespace SchemaTypings.Json

/-- A token of a JSON text. -/
inductive Token where
  | openArray
  | closeArray
  | openObject
  | closeObject
  | comma
  | colon
  | null
  | bool (value : Bool)
  | number (value : Number)
  | text (value : String)
  deriving DecidableEq, Repr

namespace Token

/-- Whether a character separates tokens and means nothing. -/
def isSpace (c : Char) : Bool := c == ' ' || c == '\t' || c == '\n' || c == '\r'

/-- The token that is a single character. -/
def mark? : Char → Option Token
  | '[' => some openArray
  | ']' => some closeArray
  | '\x7b' => some openObject
  | '\x7d' => some closeObject
  | ',' => some comma
  | ':' => some colon
  | _ => none

/-- The token of an unquoted run of characters: a word or a number. -/
def ofBare? : List Char → Option Token
  | ['n', 'u', 'l', 'l'] => some null
  | ['t', 'r', 'u', 'e'] => some (bool true)
  | ['f', 'a', 'l', 's', 'e'] => some (bool false)
  | lexeme => (Number.ofLexeme? lexeme).map number

end Token

/-- The value of a hexadecimal digit. -/
def hexValue? (c : Char) : Option Nat :=
  if '0' ≤ c ∧ c ≤ '9' then some (c.toNat - '0'.toNat)
  else if 'a' ≤ c ∧ c ≤ 'f' then some (c.toNat - 'a'.toNat + 10)
  else if 'A' ≤ c ∧ c ≤ 'F' then some (c.toNat - 'A'.toNat + 10)
  else none

/-- The character that a letter after a backslash stands for. -/
def escaped? : Char → Option Char
  | '"' => some '"'
  | '\\' => some '\\'
  | '/' => some '/'
  | 'b' => some '\x08'
  | 'f' => some '\x0c'
  | 'n' => some '\n'
  | 'r' => some '\r'
  | 't' => some '\t'
  | _ => none

/-- Whether a code unit is the first half of a surrogate pair. -/
def isHighSurrogate (unit : Nat) : Bool := 0xd800 ≤ unit && unit < 0xdc00

/-- Whether a code unit is the second half of a surrogate pair. -/
def isLowSurrogate (unit : Nat) : Bool := 0xdc00 ≤ unit && unit < 0xe000

/-- Where the lexer stands.  Characters read so far are held last first. -/
inductive Mode where
  /-- Between two tokens. -/
  | between
  /-- Inside a word or a number. -/
  | bare (done : List Char)
  /-- Inside a quoted text. -/
  | text (done : List Char)
  /-- After a backslash. -/
  | escape (done : List Char)
  /-- After `count` hexadecimal digits of a code unit, possibly the second of a pair. -/
  | unit (done : List Char) (high : Option Nat) (count value : Nat)
  /-- After the first unit of a pair: a backslash must follow. -/
  | pairSlash (done : List Char) (high : Nat)
  /-- After that backslash: a `u` must follow. -/
  | pairMark (done : List Char) (high : Nat)
  deriving Repr

/-- The tokens read so far, last first, and the mode. -/
structure Lexer where
  tokens : List Token
  mode : Mode
  deriving Repr

namespace Lexer

/-- A step between two tokens. -/
def stepBetween (tokens : List Token) (c : Char) : Lexer :=
  if Token.isSpace c then ⟨tokens, .between⟩
  else match Token.mark? c with
    | some token => ⟨token :: tokens, .between⟩
    | none => if c = '"' then ⟨tokens, .text []⟩ else ⟨tokens, .bare [c]⟩

/-- Whether a character ends a word or a number. -/
def endsBare (c : Char) : Bool := Token.isSpace c || (Token.mark? c).isSome || c == '"'

/-- The mode after a complete code unit. -/
def afterUnit (done : List Char) (high : Option Nat) (unit : Nat) : Option Mode :=
  match high with
  | none =>
    if isHighSurrogate unit then some (.pairSlash done unit)
    else if isLowSurrogate unit then none
    else some (.text (Char.ofNat unit :: done))
  | some high =>
    if isLowSurrogate unit then
      some (.text (Char.ofNat (0x10000 + (high - 0xd800) * 0x400 + (unit - 0xdc00)) :: done))
    else none

/-- One step: the next character. -/
def step (lexer : Lexer) (c : Char) : Option Lexer :=
  match lexer.mode with
  | .between => some (stepBetween lexer.tokens c)
  | .bare done =>
    if endsBare c then
      (Token.ofBare? done.reverse).map fun token => stepBetween (token :: lexer.tokens) c
    else some ⟨lexer.tokens, .bare (c :: done)⟩
  | .text done =>
    if c = '"' then some ⟨.text (String.ofList done.reverse) :: lexer.tokens, .between⟩
    else if c = '\\' then some ⟨lexer.tokens, .escape done⟩
    else if c.toNat < 0x20 then none
    else some ⟨lexer.tokens, .text (c :: done)⟩
  | .escape done =>
    if c = 'u' then some ⟨lexer.tokens, .unit done none 0 0⟩
    else (escaped? c).map fun e => ⟨lexer.tokens, .text (e :: done)⟩
  | .unit done high count value =>
    (hexValue? c).bind fun digit =>
      let value := 16 * value + digit
      if count = 3 then (afterUnit done high value).map fun mode => ⟨lexer.tokens, mode⟩
      else some ⟨lexer.tokens, .unit done high (count + 1) value⟩
  | .pairSlash done high =>
    if c = '\\' then some ⟨lexer.tokens, .pairMark done high⟩ else none
  | .pairMark done high =>
    if c = 'u' then some ⟨lexer.tokens, .unit done (some high) 0 0⟩ else none

/-- The tokens at the end of the text, unless it ends inside a quoted text. -/
def finish (lexer : Lexer) : Option (List Token) :=
  match lexer.mode with
  | .between => some lexer.tokens.reverse
  | .bare done =>
    (Token.ofBare? done.reverse).map fun token => (token :: lexer.tokens).reverse
  | _ => none

/-- Runs the lexer over a text. -/
def run (lexer : Lexer) (cs : List Char) : Option Lexer := cs.foldlM step lexer

@[simp] theorem run_nil (lexer : Lexer) : lexer.run [] = some lexer := rfl

@[simp] theorem run_cons (lexer : Lexer) (c : Char) (cs : List Char) :
    lexer.run (c :: cs) = (lexer.step c).bind fun next => next.run cs := rfl

theorem run_append (lexer : Lexer) (cs ds : List Char) :
    lexer.run (cs ++ ds) = (lexer.run cs).bind fun next => next.run ds := by
  simp [run, List.foldlM_append]

end Lexer

/-- The tokens of a text. -/
def tokens? (text : String) : Option (List Token) :=
  ((⟨[], .between⟩ : Lexer).run text.toList).bind Lexer.finish

end SchemaTypings.Json
