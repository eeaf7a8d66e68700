import Mathlib.Data.List.Basic
import SchemaTypings.Typing.Rendering

/-!
# A reader of generated files

The reader takes the text of a file apart again: it looks at what comes next and never goes back.
`Reads reader text a follow` says that the reader turns the text into the value when something comes
after it that `follow` allows, and leaves that alone.  Every way to build a reader has a lemma of
that form; what the reader makes of generated files is the subject of the module on reading back.
-/

namespace SchemaTypings.Typing

variable {α β : Type}

/-- A reader takes a value off the front of a text, or fails. -/
abbrev Reading := StateT (List Char) Option

namespace Reading

/-! ### Building readers -/

/-- What comes after the given text, if that comes first. -/
def strip? (start : String) (cs : List Char) : Option (List Char) :=
  if start.toList.isPrefixOf cs then some (cs.drop start.toList.length) else none

/-- Takes the given text and nothing else. -/
def expect (text : String) : Reading Unit := fun cs => (strip? text cs).map fun rest => ((), rest)

/-- Goes on in the first way after the given text, and in the second if that does not come next. -/
def ifNext (mark : String) (found missing : Reading α) : Reading α := fun cs =>
  match strip? mark cs with
  | some rest => found.run rest
  | none => missing.run cs

/-- Takes the characters of a class as far as they go. -/
def span (p : Char → Bool) : Reading String := fun cs =>
  some (String.ofList (cs.takeWhile p), cs.dropWhile p)

/-- A reader that has fuel for as many steps as there are characters. -/
def fueled (reader : Nat → Reading α) : Reading α := fun cs => (reader (cs.length + 1)).run cs

/-- Takes items, each after a mark, but no more than `fuel`. -/
def manyWithin (mark : String) (item : Reading α) : Nat → Reading (List α)
  | 0 => failure
  | fuel + 1 =>
    ifNext mark (do
        let first ← item
        let more ← manyWithin mark item fuel
        return first :: more)
      (return [])

/-- Takes items, each after a mark, as far as they go. -/
def many (mark : String) (item : Reading α) : Reading (List α) := fueled (manyWithin mark item)

/-- Takes one or more items with a mark between them. -/
def separated (mark : String) (item : Reading α) : Reading (List α) := do
  let first ← item
  let more ← many mark item
  return first :: more

/-! ### Texts and names -/

/-- The character that an escape stands for. -/
def unescapeChar : Char → Char
  | 'n' => '\n'
  | 'r' => '\r'
  | 't' => '\t'
  | c => c

/-- Takes a text up to the quote that ends it, and undoes its escapes. -/
def unescape : List Char → Option (List Char × List Char)
  | [] => none
  | '"' :: rest => some ([], rest)
  | ['\\'] => none
  | '\\' :: c :: rest => (unescape rest).map fun read => (unescapeChar c :: read.1, read.2)
  | c :: rest => (unescape rest).map fun read => (c :: read.1, read.2)

/-- Takes a quoted text after its first quote. -/
def quotedRest : Reading String := fun cs =>
  (unescape cs).map fun read => (String.ofList read.1, read.2)

/-- Takes an identifier. -/
def word : Reading String := span isIdentifierPart

/-- Takes identifiers joined by dots. -/
def dottedWord : Reading String := span fun c => isIdentifierPart c || c == '.'

/-- Takes the name of a property or of a member. -/
def memberName : Reading String := ifNext "\"" quotedRest word

/-! ### Types -/

/-- The type that a word names. -/
def typeOfWord (name : String) : TypeExpr :=
  match [Primitive.string, .number, .boolean, .date, .buffer].find? fun p => p.word = name with
  | some primitive => .primitive primitive
  | none => if name = "unknown" then .unknown else .reference name

/-- The array types that the brackets after a type make of it. -/
def arrays (type : TypeExpr) : List Char → TypeExpr × List Char
  | '[' :: ']' :: rest => arrays (.array type) rest
  | rest => (type, rest)

/-- Takes the brackets after a type. -/
def brackets (type : TypeExpr) : Reading TypeExpr := fun cs => some (arrays type cs)

/-- Takes a property, given how to take its type. -/
def property (type : Reading TypeExpr) : Reading Property := do
  let name ← memberName
  let optional ← ifNext "?" (return true) (return false)
  expect ": "
  let type ← type
  return ⟨name, optional, type⟩

/-- Takes the properties of an object type after its first brace, given how to take a property. -/
def objectRest (item : Reading Property) : Reading (List Property) :=
  ifNext "\x7d" (return []) do
    expect " "
    let properties ← separated "; " item
    expect " \x7d"
    return properties

/-- Takes a type in which object types are nested less than `fuel` deep. -/
def typeWithin : Nat → Reading TypeExpr
  | 0 => failure
  | fuel + 1 =>
    ifNext "\x7b" (do
        let properties ← objectRest (property (typeWithin fuel))
        brackets (.object properties))
      (do
        let name ← word
        brackets (typeOfWord name))

/-- Takes a type. -/
def type : Reading TypeExpr := fueled typeWithin

/-! ### Declarations -/

/-- Takes a block in braces, given how to take one of its lines. -/
def lines (depth : Nat) (line : Reading α) : Reading (List α) :=
  ifNext " \x7b\x7d\n" (return []) do
    expect " \x7b\n"
    let items ← many (indentation (depth + 1)) line
    expect (indentation depth ++ "\x7d\n")
    return items

/-- Takes the line of a property. -/
def propertyLine : Reading Property := do
  let found ← property type
  expect ";\n"
  return found

/-- Takes a literal and the comma at the end of its line. -/
def literalLine : Reading Initializer := do
  let value ← span (· != '\n')
  expect "\n"
  return .literal (String.ofList value.toList.dropLast)

/-- Takes what a member is set to. -/
def initializer : Reading Initializer :=
  ifNext "\"" (do
      let value ← quotedRest
      expect ",\n"
      return .text value)
    literalLine

/-- Takes the line of a member. -/
def memberLine : Reading EnumMember := do
  let name ← memberName
  let value ← ifNext ",\n" (return none) do
    expect " = "
    let value ← initializer
    return some value
  return ⟨name, value⟩

/-- Takes the names of what an interface extends. -/
def bases : Reading (List String) := ifNext " extends " (separated ", " word) (return [])

/-- Takes the body of a group, given how to take a declaration in it. -/
def body (depth : Nat) (item : Reading Declaration) : Reading (List Declaration) :=
  ifNext (indentation depth ++ "\x7d\n") (return []) do
    let declarations ← separated "\n" item
    expect (indentation depth ++ "\x7d\n")
    return declarations

/-- Takes the rest of a declaration after its keyword, given how to take one at the next depth. -/
def declarationOf (depth : Nat) (inner : Reading Declaration) : String → Reading Declaration
  | "interface" => do
    let name ← word
    let bases ← bases
    let properties ← lines depth propertyLine
    return .interface name bases properties
  | "enum" => do
    let name ← word
    let members ← lines depth memberLine
    return .enumeration name members
  | "type" => do
    let name ← word
    expect " = "
    let type ← type
    expect ";\n"
    return .typeAlias name type
  | "namespace" => do
    let name ← dottedWord
    expect " \x7b\n"
    let declarations ← body depth inner
    return .group name declarations
  | _ => failure

/-- Takes a declaration at a depth in which groups are nested less than `fuel` deep. -/
def declarationWithin : Nat → Nat → Reading Declaration
  | 0, _ => failure
  | fuel + 1, depth => do
    expect (indentation depth ++ "export ")
    let keyword ← word
    expect " "
    declarationOf depth (declarationWithin fuel (depth + 1)) keyword

/-- Takes a declaration. -/
def declaration : Reading Declaration := fueled fun fuel => declarationWithin fuel 0

/-! ### Files -/

/-- Takes an imported name. -/
def importedName : Reading ImportedName := do
  let name ← word
  let localAlias ← ifNext " as " (do return some (← word)) (return none)
  return ⟨name, localAlias⟩

/-- Takes an import clause after its first brace. -/
def importLine : Reading ImportClause := do
  let names ← ifNext " \x7d from \"" (return []) do
    let names ← separated ", " importedName
    expect " \x7d from \""
    return names
  let moduleSpecifier ← quotedRest
  expect ";\n"
  return ⟨moduleSpecifier, names⟩

/-- Takes the import clauses of a file. -/
def imports : Reading (List ImportClause) :=
  ifNext "\nimport \x7b " (separated "import \x7b " importLine) (return [])

/-- Takes a file: its imports and its declarations. -/
def source : Reading (List ImportClause × List Declaration) := do
  expect header
  let imports ← imports
  let declarations ← many "\n" declaration
  return (imports, declarations)

end Reading

/-- The imports and declarations of the text of a file. -/
def readSource? (text : String) : Option (List ImportClause × List Declaration) :=
  match Reading.source.run text.toList with
  | some (found, []) => some found
  | _ => none

/-! ### What readers read -/

/-- The reader turns the text into the value if something comes after it that `follow` allows. -/
def Reads (reader : Reading α) (text : String) (a : α) (follow : List Char → Prop) : Prop :=
  ∀ rest, follow rest → reader.run (text.toList ++ rest) = some (a, rest)

/-- What comes next is no character of the class. -/
def Ends (p : Char → Bool) (rest : List Char) : Prop := ∀ c ∈ rest.head?, p c = false

@[simp] theorem ends_cons {p : Char → Bool} {c : Char} {rest : List Char} :
    Ends p (c :: rest) ↔ p c = false := by
  simp [Ends]

namespace Reads

variable {reader : Reading α} {next : α → Reading β} {text more mark : String} {a : α} {b : β}
  {follow follow' : List Char → Prop}

theorem pure (a : α) : Reads (pure a : Reading α) "" a follow := by
  intro rest _
  rfl

/-- One reader after another reads one text after another. -/
theorem bind (h : Reads reader text a follow') (hn : Reads (next a) more b follow)
    (hf : ∀ rest, follow rest → follow' (more.toList ++ rest)) :
    Reads (reader >>= next) (text ++ more) b follow := by
  intro rest hr
  rw [String.toList_append, List.append_assoc, StateT.run_bind, h _ (hf rest hr)]
  exact hn rest hr

/-- A reader for which it does not matter what comes after its text. -/
theorem andThen (h : Reads reader text a fun _ => True) (hn : Reads (next a) more b follow) :
    Reads (reader >>= next) (text ++ more) b follow :=
  h.bind hn fun _ _ => trivial

theorem map (h : Reads reader text a follow) (f : α → β) :
    Reads (do return f (← reader)) text (f a) follow := by
  intro rest hr
  rw [StateT.run_bind, h rest hr]
  rfl

theorem mono (h : Reads reader text a follow') (hf : ∀ rest, follow rest → follow' rest) :
    Reads reader text a follow := fun rest hr => h rest (hf rest hr)

end Reads

namespace Reading

variable {reader found missing item : Reading α} {text mark : String} {a : α}
  {follow follow' : List Char → Prop}

theorem strip?_append (start : String) (rest : List Char) :
    strip? start (start.toList ++ rest) = some rest := by
  simp [strip?]

theorem strip?_eq_none {start : String} {cs : List Char} (h : ¬ start.toList <+: cs) :
    strip? start cs = none := by
  rw [strip?, if_neg]
  rwa [List.isPrefixOf_iff_prefix]

theorem reads_expect (text : String) : Reads (expect text) text () follow := by
  intro rest _
  show (strip? text _).map _ = _
  rw [strip?_append]
  rfl

theorem reads_ifNext_found (h : Reads found text a follow) :
    Reads (ifNext mark found missing) (mark ++ text) a follow := by
  intro rest hr
  show ifNext mark found missing _ = _
  rw [ifNext, String.toList_append, List.append_assoc, strip?_append]
  exact h rest hr

/-- The mark by itself decides on the value. -/
theorem reads_ifNext_mark (mark : String) (a : α) :
    Reads (ifNext mark (return a) missing) mark a follow := by
  have h : Reads (ifNext mark (return a) missing) (mark ++ "") a follow :=
    reads_ifNext_found (Reads.pure a)
  rwa [String.append_empty] at h

theorem reads_ifNext_missing (h : Reads missing text a follow)
    (hm : ∀ rest, follow rest → ¬ mark.toList <+: text.toList ++ rest) :
    Reads (ifNext mark found missing) text a follow := by
  intro rest hr
  show ifNext mark found missing _ = _
  rw [ifNext, strip?_eq_none (hm rest hr)]
  exact h rest hr

theorem reads_fueled {reader : Nat → Reading α}
    (h : ∀ fuel, text.length < fuel → Reads (reader fuel) text a follow) :
    Reads (fueled reader) text a follow := by
  intro rest hr
  refine h _ ?_ rest hr
  rw [List.length_append, String.length_toList]
  omega

theorem reads_span {p : Char → Bool} {s : String} (h : ∀ c ∈ s.toList, p c = true) :
    Reads (span p) s s (Ends p) := by
  intro rest hr
  have htake : rest.takeWhile p = [] ∧ rest.dropWhile p = rest := by
    cases rest with
    | nil => exact ⟨rfl, rfl⟩
    | cons c rest => simp [hr c rfl]
  show some (_, _) = _
  rw [List.takeWhile_append_of_pos h, List.dropWhile_append_of_pos h, htake.1, htake.2,
    List.append_nil, String.ofList_toList]

/-- Items after their marks are taken up to where no mark comes next. -/
theorem reads_manyWithin {as : List α} {textOf : α → String}
    (hitem : ∀ a ∈ as, Reads item (textOf a) a follow')
    (hmark : ∀ rest, follow' (mark.toList ++ rest)) (hfollow : ∀ rest, follow rest → follow' rest)
    (hend : ∀ rest, follow rest → ¬ mark.toList <+: rest) {fuel : Nat} (hfuel : as.length < fuel) :
    Reads (manyWithin mark item fuel) (String.join (as.map fun a => mark ++ textOf a)) as
      follow := by
  induction as generalizing fuel with
  | nil =>
    obtain ⟨fuel, rfl⟩ : ∃ m, fuel = m + 1 := ⟨fuel - 1, by simp at hfuel; omega⟩
    exact reads_ifNext_missing (Reads.pure []) hend
  | cons a as ih =>
    obtain ⟨hfirst, hothers⟩ := List.forall_mem_cons.1 hitem
    rw [List.length_cons] at hfuel
    obtain ⟨fuel, rfl⟩ : ∃ m, fuel = m + 1 := ⟨fuel - 1, by omega⟩
    -- What comes after the first item is the next mark or the end, and the item allows both.
    have hnext : ∀ rest, follow rest →
        follow' ((String.join (as.map fun a => mark ++ textOf a)).toList ++ rest) := by
      intro rest hr
      cases as with
      | nil => exact hfollow rest hr
      | cons b bs => simpa using hmark _
    have hmore := (ih hothers (by omega : as.length < fuel)).map (a :: ·)
    rw [List.map_cons, String.join_cons, String.append_assoc]
    exact reads_ifNext_found (hfirst.bind hmore hnext)

/-- A text made of as many marks as there are items is at least as long as their number. -/
theorem length_le_of_marks (hmark : mark ≠ "") (as : List α) (textOf : α → String) :
    as.length ≤ (String.join (as.map fun a => mark ++ textOf a)).length := by
  have hpos : 0 < mark.length := Nat.pos_of_ne_zero fun h => hmark (String.length_eq_zero_iff.1 h)
  induction as with
  | nil => exact Nat.zero_le _
  | cons a as ih =>
    rw [List.map_cons, String.join_cons, String.length_append, String.length_append,
      List.length_cons]
    omega

theorem reads_many {as : List α} {textOf : α → String} (hne : mark ≠ "")
    (hitem : ∀ a ∈ as, Reads item (textOf a) a follow')
    (hmark : ∀ rest, follow' (mark.toList ++ rest)) (hfollow : ∀ rest, follow rest → follow' rest)
    (hend : ∀ rest, follow rest → ¬ mark.toList <+: rest) :
    Reads (many mark item) (String.join (as.map fun a => mark ++ textOf a)) as follow :=
  reads_fueled fun _ hfuel => reads_manyWithin hitem hmark hfollow hend
    (Nat.lt_of_le_of_lt (length_le_of_marks hne as textOf) hfuel)

theorem reads_separated {textOf : α → String} {as : List α} (hne : mark ≠ "")
    (hitem : ∀ b ∈ a :: as, Reads item (textOf b) b follow')
    (hmark : ∀ rest, follow' (mark.toList ++ rest)) (hfollow : ∀ rest, follow rest → follow' rest)
    (hend : ∀ rest, follow rest → ¬ mark.toList <+: rest) :
    Reads (separated mark item) (textOf a ++ String.join (as.map fun b => mark ++ textOf b))
      (a :: as) follow := by
  obtain ⟨hfirst, hothers⟩ := List.forall_mem_cons.1 hitem
  refine hfirst.bind ((reads_many hne hothers hmark hfollow hend).map (a :: ·)) fun rest hr => ?_
  cases as with
  | nil => exact hfollow rest hr
  | cons b bs => simpa using hmark _

/-! ### Names and quoted texts -/

/-- The escape of a character is undone. -/
theorem unescape_escapeChar (c : Char) (rest : List Char) :
    unescape (escapeChar c ++ rest) = (unescape rest).map fun read => (c :: read.1, read.2) := by
  unfold escapeChar
  split
  case h_6 hslash hquote _ _ _ =>
    show unescape (c :: rest) = _
    rw [unescape.eq_def]
    split <;> simp_all
  all_goals rfl

theorem unescape_flatMap (cs rest : List Char) :
    unescape (cs.flatMap escapeChar ++ '"' :: rest) = some (cs, rest) := by
  induction cs with
  | nil => rfl
  | cons c cs ih =>
    rw [List.flatMap_cons, List.append_assoc, unescape_escapeChar, ih]
    rfl

theorem reads_quotedRest (s : String) :
    Reads quotedRest (String.ofList (s.toList.flatMap escapeChar) ++ "\"") s follow := by
  intro rest _
  show (unescape _).map _ = _
  rw [String.toList_append, String.toList_ofList, List.append_assoc]
  show (unescape (_ ++ '"' :: rest)).map _ = _
  rw [unescape_flatMap, Option.map_some, String.ofList_toList]

end Reading

end SchemaTypings.Typing
