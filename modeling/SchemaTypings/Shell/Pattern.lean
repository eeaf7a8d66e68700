import SchemaTypings.Tools.CharacterClass

/-!
# Patterns of the shell

In a pattern a star stands for any text, a question mark for any character, and brackets for one of
some characters.  What was quoted stands for itself, so a pattern is given as characters that are
marked.

This belongs to the outer layer, which only runs programs; no result depends on it.
-/

namespace SchemaTypings.Shell

open SchemaTypings.Text SchemaTypings.Tools

/-- A character and whether it was quoted. -/
abbrev Marked := Char × Bool

/-- An item of a pattern. -/
inductive PatternItem where
  | char (c : Char)
  | anyText
  | anyChar
  | oneOf (accepts : Char → Bool)

/-- The items between brackets: the set read so far widens until the closing bracket, which is no
item where it comes first. -/
def bracketItems (accepts : Char → Bool) (isFirst : Bool) :
    Nat → List Marked → Option ((Char → Bool) × List Marked)
  | 0, _ => none
  | _, [] => none
  | n + 1, (c, quoted) :: rest =>
    if c = ']' && !quoted && !isFirst then some (accepts, rest)
    else
      let class? := match (c, quoted), rest with
        | ('[', false), (':', _) :: named =>
          let name := (named.map Prod.fst).takeWhile fun d => d != ':' && d != ']'
          match named.drop name.length, className? name with
          | (':', _) :: (']', _) :: after, some inClass => some (inClass, after)
          | _, _ => none
        | _, _ => none
      match class?, rest with
      | some (inClass, after), _ => bracketItems (fun d => accepts d || inClass d) false n after
      | none, ('-', false) :: (high, highQuoted) :: after =>
        if high = ']' && !highQuoted then
          bracketItems (fun d => accepts d || d == c) false n rest
        else bracketItems (fun d => accepts d || (c ≤ d && d ≤ high)) false n after
      | none, _ => bracketItems (fun d => accepts d || d == c) false n rest

/-- The set that follows an opening bracket, and what comes after it. -/
def bracketSet? (text : List Marked) : Option ((Char → Bool) × List Marked) :=
  match text with
  | (c, false) :: rest =>
    if c = '!' then
      (bracketItems (fun _ => false) true (rest.length + 1) rest).map fun found =>
        (fun d => !found.1 d, found.2)
    else bracketItems (fun _ => false) true (text.length + 1) text
  | _ => bracketItems (fun _ => false) true (text.length + 1) text

/-- The items of a pattern. -/
def patternItems : Nat → List Marked → List PatternItem
  | 0, _ => []
  | _, [] => []
  | n + 1, (c, quoted) :: rest =>
    if quoted then .char c :: patternItems n rest
    else if c = '*' then .anyText :: patternItems n rest
    else if c = '?' then .anyChar :: patternItems n rest
    else if c = '[' then
      match bracketSet? rest with
      | some (accepts, after) => .oneOf accepts :: patternItems n after
      | none => .char c :: patternItems n rest
    else .char c :: patternItems n rest

/-- The items of a pattern that is given as marked characters. -/
def itemsOf (text : List Marked) : List PatternItem := patternItems (text.length + 1) text

/-- Whether an item accepts a character. -/
def PatternItem.accepts (d : Char) : PatternItem → Bool
  | .char c => c == d
  | .anyText => true
  | .anyChar => true
  | .oneOf set => set d

/-- Whether a pattern matches a text as a whole. -/
def matchesAll : List PatternItem → Octets → Bool
  | [], text => text.isEmpty
  | .anyText :: items, [] => matchesAll items []
  | .anyText :: items, c :: text =>
    matchesAll items (c :: text) || matchesAll (.anyText :: items) text
  | _ :: _, [] => false
  | item :: items, c :: text => item.accepts c && matchesAll items text
termination_by items text => items.length + text.length

/-- Whether marked characters hold something that is more than itself. -/
def hasWildcard (text : List Marked) : Bool :=
  text.any fun m => !m.2 && (m.1 == '*' || m.1 == '?' || m.1 == '[')

/-- What is left of a text when the shortest or the longest start that a pattern matches is taken
off; the starts are tried by their lengths. -/
def trimStart (items : List PatternItem) (longest : Bool) (text : Octets) : Octets :=
  let lengths := List.range (text.length + 1)
  let tried := if longest then lengths.reverse else lengths
  match tried.find? fun n => matchesAll items (text.take n) with
  | some n => text.drop n
  | none => text

/-- What is left of a text when the shortest or the longest end that a pattern matches is taken
off. -/
def trimEnd (items : List PatternItem) (longest : Bool) (text : Octets) : Octets :=
  let lengths := List.range (text.length + 1)
  let tried := if longest then lengths else lengths.reverse
  match tried.find? fun n => matchesAll items (text.drop n) with
  | some n => text.take n
  | none => text

end SchemaTypings.Shell
