import SchemaTypings.Text.Octets

/-!
# Classes of octets

The named classes of characters, which hold ASCII characters only, and the way one class of a word
in brackets, such as `[:alpha:]`, is read.

This belongs to the outer layer, which only runs programs; no result depends on it.
-/

namespace SchemaTypings.Tools

open SchemaTypings.Text

/-- Whether an octet is a lower-case letter. -/
def isLower (c : Char) : Bool := 'a' ≤ c && c ≤ 'z'

/-- Whether an octet is an upper-case letter. -/
def isUpper (c : Char) : Bool := 'A' ≤ c && c ≤ 'Z'

/-- Whether an octet is a letter. -/
def isLetter (c : Char) : Bool := isLower c || isUpper c

/-- Whether an octet is a decimal digit. -/
def isDigit (c : Char) : Bool := '0' ≤ c && c ≤ '9'

/-- Whether an octet is a letter, a digit or an underscore. -/
def isWordOctet (c : Char) : Bool := isLetter c || isDigit c || c == '_'

/-- Whether an octet is a blank of a text: a space, a line end or one of the controls between. -/
def isSpace (c : Char) : Bool := c == ' ' || ('\t' ≤ c && c ≤ '\r')

/-- The lower case of an octet. -/
def lowered (c : Char) : Char := if isUpper c then Char.ofNat (c.toNat + 32) else c

/-- The upper case of an octet. -/
def raised (c : Char) : Char := if isLower c then Char.ofNat (c.toNat - 32) else c

/-- The class of a name. -/
def className? (name : Octets) : Option (Char → Bool) :=
  if name = "alpha".toList then some isLetter
  else if name = "digit".toList then some isDigit
  else if name = "alnum".toList then some fun c => isLetter c || isDigit c
  else if name = "lower".toList then some isLower
  else if name = "upper".toList then some isUpper
  else if name = "space".toList then some isSpace
  else if name = "blank".toList then some fun c => c == ' ' || c == '\t'
  else if name = "cntrl".toList then some fun c => c.toNat < 32 || c.toNat = 127
  else if name = "graph".toList then some fun c => 32 < c.toNat && c.toNat < 127
  else if name = "print".toList then some fun c => 32 ≤ c.toNat && c.toNat < 127
  else if name = "punct".toList then
    some fun c => 32 < c.toNat && c.toNat < 127 && !isLetter c && !isDigit c
  else if name = "xdigit".toList then
    some fun c => isDigit c || ('a' ≤ c && c ≤ 'f') || ('A' ≤ c && c ≤ 'F')
  else none

/-- All octets, in order. -/
def allOctets : Octets := (List.range 256).map Char.ofNat

/-- What stands before a mark and a closing bracket, and what follows them. -/
def untilClose? (mark : Char) : Octets → Option (Octets × Octets)
  | [] => none
  | [_] => none
  | c :: d :: rest =>
    if c = mark ∧ d = ']' then some ([], rest)
    else (untilClose? mark (d :: rest)).map fun found => (c :: found.1, found.2)

end SchemaTypings.Tools
