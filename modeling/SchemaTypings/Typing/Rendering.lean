import SchemaTypings.Typing.Declaration

/-!
# TypeScript text

The text of a generated file: a header, the imports, and the declarations, each after a blank
line.  Property and member names that are not identifiers are written in quotes, as are texts; a
quoted text escapes the quote, the backslash, line feed, carriage return and tab.
-/

namespace SchemaTypings.Typing

/-! ### Quoted texts and names -/

/-- How a character is written inside a quoted text. -/
def escapeChar : Char → List Char
  | '\\' => ['\\', '\\']
  | '"' => ['\\', '"']
  | '\n' => ['\\', 'n']
  | '\r' => ['\\', 'r']
  | '\t' => ['\\', 't']
  | c => [c]

/-- A text in quotes. -/
def quoted (s : String) : String := "\"" ++ String.ofList (s.toList.flatMap escapeChar) ++ "\""

/-- Whether a character may start an identifier that needs no quotes. -/
def isIdentifierStart (c : Char) : Bool := c == '_' || c == '$' || c.isAlpha

/-- Whether a character may stand inside an identifier that needs no quotes. -/
def isIdentifierPart (c : Char) : Bool := c == '_' || c == '$' || c.isAlphanum

/-- Whether a name needs no quotes. -/
def isPlainName (s : String) : Bool :=
  match s.toList with
  | [] => false
  | c :: rest => isIdentifierStart c && rest.all isIdentifierPart

/-- A property or member name. -/
def nameText (s : String) : String := if isPlainName s then s else quoted s

/-! ### Types -/

mutual

/-- The text of a type. -/
def TypeExpr.text : TypeExpr → String
  | .unknown => "unknown"
  | .primitive primitive => primitive.word
  | .reference name => name
  | .object [] => "\x7b\x7d"
  | .object (property :: rest) => "\x7b " ++ property.text ++ textAfter rest
  | .array item => item.text ++ "[]"

/-- The text of a property. -/
def Property.text : Property → String
  | ⟨name, optional, type⟩ => nameText name ++ (if optional then "?" else "") ++ ": " ++ type.text

/-- The properties of an object type after the first, and the closing brace. -/
def textAfter : List Property → String
  | [] => " \x7d"
  | property :: rest => "; " ++ property.text ++ textAfter rest

end

/-! ### Declarations -/

/-- The indentation of a depth. -/
def indentation (depth : Nat) : String := String.ofList (List.replicate (4 * depth) ' ')

/-- A block in braces on lines of their own; without lines the braces close at once. -/
def block (depth : Nat) (lines : List String) : String :=
  if lines.isEmpty then " \x7b\x7d\n"
  else " \x7b\n" ++ String.join (lines.map fun line => indentation (depth + 1) ++ line ++ "\n") ++
    indentation depth ++ "\x7d\n"

/-- The line of an enumeration member. -/
def EnumMember.line (member : EnumMember) : String :=
  match member.initializer with
  | some (.text value) => nameText member.name ++ " = " ++ quoted value ++ ","
  | some (.literal value) => nameText member.name ++ " = " ++ value ++ ","
  | none => nameText member.name ++ ","

/-- The clause that names what an interface extends. -/
def basesText (bases : List String) : String :=
  if bases.isEmpty then "" else " extends " ++ ", ".intercalate bases

mutual

/-- The text of a declaration at a depth. -/
def Declaration.text (depth : Nat) : Declaration → String
  | .interface name bases properties =>
    indentation depth ++ "export interface " ++ name ++ basesText bases ++
      block depth (properties.map fun property => property.text ++ ";")
  | .enumeration name members =>
    indentation depth ++ "export enum " ++ name ++ block depth (members.map EnumMember.line)
  | .typeAlias name type =>
    indentation depth ++ "export type " ++ name ++ " = " ++ type.text ++ ";\n"
  | .group name [] =>
    indentation depth ++ "export namespace " ++ name ++ " \x7b\n" ++ indentation depth ++ "\x7d\n"
  | .group name (declaration :: rest) =>
    indentation depth ++ "export namespace " ++ name ++ " \x7b\n" ++
      declaration.text (depth + 1) ++ separatedText (depth + 1) rest ++
      indentation depth ++ "\x7d\n"

/-- The text of declarations, each after a blank line. -/
def separatedText (depth : Nat) : List Declaration → String
  | [] => ""
  | declaration :: rest => "\n" ++ declaration.text depth ++ separatedText depth rest

end

/-! ### Files -/

/-- The first lines of every file. -/
def header : String :=
  "// Generated by cds2types.\n// WARNING: This file is generated. Do not edit manually.\n"

/-- An imported name in an import clause. -/
def ImportedName.text (imported : ImportedName) : String :=
  match imported.localAlias with
  | some name => imported.name ++ " as " ++ name
  | none => imported.name

/-- The line of an import clause. -/
def ImportClause.line (clause : ImportClause) : String :=
  "import \x7b " ++ ", ".intercalate (clause.names.map ImportedName.text) ++ " \x7d from " ++
    quoted clause.moduleSpecifier ++ ";"

/-- The lines of the imports after a blank line, if there are any. -/
def importsText (imports : List ImportClause) : String :=
  if imports.isEmpty then ""
  else "\n" ++ String.join (imports.map fun clause => clause.line ++ "\n")

/-- The text of a file. -/
def SourceFile.text (file : SourceFile) : String :=
  header ++ importsText file.imports ++ separatedText 0 file.declarations

end SchemaTypings.Typing
