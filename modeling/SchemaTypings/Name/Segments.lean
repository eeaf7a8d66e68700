import SchemaTypings.Text.Split

/-!
# Qualified names

A qualified name is a sequence of segments joined by dots.  One name encloses another when its
segments are a proper initial part of the other's; the innermost enclosing name is the part before
the last dot, and the short name is the last segment, or the last two when the last is `texts`.
-/

namespace SchemaTypings.Name

/-! ### Segments -/

/-- The segments of a name. -/
def segments (name : String) : List String := (Text.split '.' name.toList).map String.ofList

/-! ### Enclosing names -/

/-- Whether `scope` is a name and `name` continues it after a dot. -/
def encloses (scope name : String) : Bool :=
  scope != "" && (scope.toList ++ ['.']).isPrefixOf name.toList

/-- The characters before the last dot, if there is a dot. -/
def beforeLastDot : List Char → Option (List Char)
  | [] => none
  | c :: rest =>
    match beforeLastDot rest with
    | some before => some (c :: before)
    | none => if c = '.' then some [] else none

/-- The part of a name before its last dot, unless it is empty. -/
def parent? (name : String) : Option String :=
  match beforeLastDot name.toList with
  | none => none
  | some [] => none
  | some (c :: before) => some (String.ofList (c :: before))

/-! ### Short names -/

/-- The last segment of localized texts. -/
def textsSegment : List Char := ['t', 'e', 'x', 't', 's']

/-- The short name of a sequence of segments given last first. -/
def shortOfReversed : List (List Char) → List Char
  | [] => []
  | [last] => last
  | last :: owner :: _ => if last = textsSegment then owner ++ '.' :: last else last

/-- The last segment of a name, or the last two when the last is `texts`. -/
def short (name : String) : String :=
  String.ofList (shortOfReversed (Text.split '.' name.toList).reverse)

end SchemaTypings.Name
