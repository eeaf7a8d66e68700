import SchemaTypings.Text.Upper

/-!
# Words of a name

A dotted name becomes one identifier word by word: it is cut at every character that is not an
ASCII letter or digit, each piece is cut again where lower case meets upper case, a letter meets a
digit, or a run of capitals ends, and every word is capitalized.  A name without a dot is only
capitalized.
-/

namespace SchemaTypings.Name

open SchemaTypings.Text

/-- The runs of letters and digits between the other characters of a text; a run may be empty. -/
def runs : List Char → List (List Char)
  | [] => [[]]
  | c :: rest =>
    if c.isAlphanum then
      match runs rest with
      | [] => [[c]]
      | run :: more => (c :: run) :: more
    else [] :: runs rest

/-- Whether a new word starts at `current`, given its neighbours. -/
def startsWord (previous current : Char) (next : Option Char) : Bool :=
  (previous.isLower && current.isUpper) || (previous.isAlpha && current.isDigit) ||
    (previous.isDigit && current.isAlpha) ||
    (previous.isUpper && current.isUpper && (next.map Char.isLower).getD false)

/-- The words of a run, which keep their case. -/
def splitWords : List Char → List (List Char)
  | [] => []
  | [c] => [[c]]
  | c :: d :: rest =>
    if startsWord c d rest.head? then [c] :: splitWords (d :: rest)
    else match splitWords (d :: rest) with
      | [] => [[c]]
      | word :: more => (c :: word) :: more

/-- No character of a run is lost or added. -/
theorem flatten_splitWords (cs : List Char) : (splitWords cs).flatten = cs := by
  fun_induction splitWords cs with
  | case1 => rfl
  | case2 => rfl
  | case3 c d rest _ ih => simp [ih]
  | case4 c d rest _ hs ih => rw [hs] at ih; simp at ih
  | case5 c d rest _ word more hs ih =>
    rw [hs] at ih
    simpa using ih

/-- The characters of the identifier of a short name. -/
def sanitizeChars (cs : List Char) : List Char :=
  if cs.contains '.' then ((runs cs).flatMap splitWords).flatMap capitalize else capitalize cs

/-- The identifier of a short name. -/
def sanitize (name : String) : String := String.ofList (sanitizeChars name.toList)

end SchemaTypings.Name
