import SchemaTypings.Json.Value

/-!
# Printing JSON values

Two layouts: the compact one without blanks, and the indented one with two blanks a level, one
item or member a line, and empty containers closed at once.  In both a text escapes the quote, the
backslash and the control characters below the blank, and nothing else.
-/

namespace SchemaTypings.Json

/-- A hexadecimal digit in lower case. -/
def hexDigit (n : Nat) : Char :=
  if n < 10 then Char.ofNat ('0'.toNat + n) else Char.ofNat ('a'.toNat + (n - 10))

/-- How a character is written inside a quoted text. -/
def escape (c : Char) : List Char :=
  if c = '"' then ['\\', '"']
  else if c = '\\' then ['\\', '\\']
  else if c = '\x08' then ['\\', 'b']
  else if c = '\x0c' then ['\\', 'f']
  else if c = '\n' then ['\\', 'n']
  else if c = '\r' then ['\\', 'r']
  else if c = '\t' then ['\\', 't']
  else if c.toNat < 0x20 then
    ['\\', 'u', '0', '0', hexDigit (c.toNat / 16), hexDigit (c.toNat % 16)]
  else [c]

/-- A text in quotes. -/
def quote (s : String) : List Char := '"' :: (s.toList.flatMap escape ++ ['"'])

/-- The word of a truth value. -/
def boolText (b : Bool) : List Char := (if b then "true" else "false").toList

namespace Value

mutual

/-- The compact layout. -/
def compactChars : Value → List Char
  | null => "null".toList
  | bool b => boolText b
  | number n => n.text
  | string s => quote s
  | array [] => ['[', ']']
  | array (item :: rest) => '[' :: (compactChars item ++ compactItems rest)
  | object [] => ['\x7b', '\x7d']
  | object ((key, value) :: rest) =>
    '\x7b' :: (quote key ++ ':' :: compactChars value ++ compactMembers rest)

/-- The items of an array after the first, and the closing bracket. -/
def compactItems : List Value → List Char
  | [] => [']']
  | item :: rest => ',' :: (compactChars item ++ compactItems rest)

/-- The members of an object after the first, and the closing brace. -/
def compactMembers : Members → List Char
  | [] => ['\x7d']
  | (key, value) :: rest =>
    ',' :: (quote key ++ ':' :: compactChars value ++ compactMembers rest)

end

/-- A line break and the indentation of a level. -/
def newline (depth : Nat) : List Char := '\n' :: List.replicate (2 * depth) ' '

mutual

/-- The indented layout of a value that stands at a depth. -/
def indentedChars (depth : Nat) : Value → List Char
  | null => "null".toList
  | bool b => boolText b
  | number n => n.text
  | string s => quote s
  | array [] => ['[', ']']
  | array (item :: rest) =>
    '[' :: (newline (depth + 1) ++ indentedChars (depth + 1) item ++ indentedItems depth rest)
  | object [] => ['\x7b', '\x7d']
  | object ((key, value) :: rest) =>
    '\x7b' :: (newline (depth + 1) ++ quote key ++ ':' :: ' ' ::
      indentedChars (depth + 1) value ++ indentedMembers depth rest)

/-- The items of an array after the first, and the closing bracket. -/
def indentedItems (depth : Nat) : List Value → List Char
  | [] => newline depth ++ [']']
  | item :: rest =>
    ',' :: (newline (depth + 1) ++ indentedChars (depth + 1) item ++ indentedItems depth rest)

/-- The members of an object after the first, and the closing brace. -/
def indentedMembers (depth : Nat) : Members → List Char
  | [] => newline depth ++ ['\x7d']
  | (key, value) :: rest =>
    ',' :: (newline (depth + 1) ++ quote key ++ ':' :: ' ' ::
      indentedChars (depth + 1) value ++ indentedMembers depth rest)

end

/-- The text of a value without blanks. -/
def compact (value : Value) : String := String.ofList value.compactChars

/-- The text of a value with one item or member a line. -/
def indented (value : Value) : String := String.ofList (value.indentedChars 0)

end Value

end SchemaTypings.Json
