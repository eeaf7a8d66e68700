import SchemaTypings.Shell.Source

/-!
# Words of a script

A word is read up to a blank or a mark.  Inside it quotes protect characters, and a dollar sign or
a grave accent starts what is replaced when the script runs.  What counts as special depends on the
setting: the bare word, a text in quotes, the braces of a parameter, a document, an expression.

This belongs to the outer layer, which only runs programs; no result depends on it.
-/

namespace SchemaTypings.Shell

open SchemaTypings.Text

/-- Where parts are read. -/
inductive Setting where
  /-- A word of a command, or one that only ends a document. -/
  | bare (delimiter : Bool)
  | quoted
  | braces (inQuotes : Bool)
  | document
  /-- An arithmetic expression, with the number of its open parentheses. -/
  | expression (depth : Nat)
  deriving DecidableEq, Repr

namespace Setting

/-- Whether quotes have no meaning of their own, or only the ending one. -/
def isQuoted : Setting → Bool
  | bare _ => false
  | braces inQuotes => inQuotes
  | _ => true

/-- Whether a character ends a setting. -/
def endsAt (c : Char) : Setting → Bool
  | bare _ => " \t\n;&|<>()".toList.contains c
  | quoted => c == '"'
  | braces _ => c == '\x7d'
  | _ => false

/-- Whether a backslash before a character is dropped. -/
def escapes (c : Char) (setting : Setting) : Bool :=
  !setting.isQuoted || c == '\\' || c == '$' || c.toNat == 0x60 ||
    match setting with
    | braces _ => c == '"' || c == '\x7d'
    | document => false
    | _ => c == '"'

end Setting

/-- The grave accent. -/
def graveAccent : Char := '\x60'

/-- The text up to a grave accent, the backslashes taken off that protect characters in it; what has
been read comes last first. -/
def graveText (inQuotes : Bool) : Octets → Octets → Option (Octets × Octets)
  | _, [] => none
  | seen, '\\' :: '\n' :: rest => graveText inQuotes seen rest
  | seen, '\\' :: c :: rest =>
    let protects := c == '\\' || c == '$' || c == graveAccent || inQuotes && c == '"'
    graveText inQuotes (if protects then c :: seen else c :: '\\' :: seen) rest
  | seen, c :: rest =>
    if c = graveAccent then some (seen.reverse, rest) else graveText inQuotes (c :: seen) rest

/-- Takes text up to an apostrophe. -/
def readVerbatim : Reading (List Part) := do
  let s ← get
  let text := s.rest.takeWhile (· != '\'')
  let ends := text.count '\n'
  match s.rest.drop text.length with
  | [] =>
    set { s with rest := [], line := s.line + ends }
    refuse "Unterminated quoted string"
  | _ :: rest =>
    set { s with rest, line := s.line + ends }
    return text.map Part.char

/-- Reads a command that stands in a source of its own. -/
def readApart (source : Octets) (body : Reading Command) : Reading Command := do
  let s ← get
  let inner : Source := { rest := source, next := s.next, limit := s.limit }
  match body.run inner with
  | .error problem => throw problem
  | .ok (command, after) =>
    set { s with documents := after.documents ++ s.documents, next := after.next }
    return command

/-- Reads the commands of a substitution, up to the parenthesis that closes it. -/
def readSubstitution (body closing : Reading Command) : Reading Command := do
  let before ← get
  set { before with awaited := [], again := false }
  let command ← body
  discard closing
  modify fun s => { s with awaited := before.awaited, again := false }
  return command

/-- Whether a parameter has a given sign for a name. -/
def isSpecial (c : Char) : Bool := "!#$*-?@".toList.contains c

/-- The form that a sign after a name asks for, with what comes after it read by a given reader. -/
def readForm (inner : Bool → Reading (List Part)) : Reading Form := do
  let nullToo ← skipIf ':'
  let c ← peek
  let fallback? : Option Fallback := match c with
    | some '-' => some .use
    | some '=' => some .assign
    | some '?' => some .refuse
    | some '+' => some .instead
    | _ => none
  match fallback?, c with
  | some kind, _ =>
    skip
    return .fallback kind nullToo (← inner false)
  | none, some '\x7d' =>
    skip
    return if nullToo then .unknown else .value
  | none, some c =>
    if !nullToo && (c == '%' || c == '#') then
      skip
      let longest ← skipIf c
      return .trim (c == '%') longest (← inner true)
    discard (inner false)
    return .unknown
  | none, none =>
    discard (inner false)
    return .unknown

/-- Reads a parameter in braces, whose opening one has been read. -/
def readBraces (inner : Bool → Reading (List Part)) : Reading Part := do
  let named : Char → Reading Octets := fun c => do
    if startsName c then takeWhile continuesName
    else if c.isDigit then takeWhile Char.isDigit
    else
      skip
      return [c]
  match ← peek with
  | none =>
    discard (inner false)
    return .parameter [] .unknown
  | some '#' =>
    skip
    match ← peek with
    | none =>
      discard (inner false)
      return .parameter [] .unknown
    | some '\x7d' =>
      skip
      return .parameter ['#'] .value
    | some c =>
      if continuesName c then
        let name ← named c
        if ← skipIf '\x7d' then return .parameter name .length
        discard (inner false)
        return .parameter name .unknown
      let before ← get
      skip
      if isSpecial c && (← peek) == some '\x7d' then
        skip
        return .parameter [c] .length
      set before
      return .parameter ['#'] (← readForm inner)
  | some c =>
    if continuesName c || isSpecial c then
      let name ← named c
      return .parameter name (← readForm inner)
    discard (inner false)
    return .parameter [] .unknown

/-- Reads parts up to the end of their setting; the parts read so far come last first.  The commands
of a substitution are read by `body`, and `closing` reads the parenthesis after them. -/
def readParts (body closing : Reading Command) : Nat → Setting → List Part → Reading (List Part)
  | 0, _, _ => refuse "Out of space"
  | n + 1, setting, parts => do
    let inner := readParts body closing n
    let more := fun part => inner setting (part :: parts)
    match ← peek with
    | none =>
      match setting with
      | .quoted | .braces true => refuse "Unterminated quoted string"
      | .braces false => refuse "Missing '\x7d'"
      | .expression _ => refuse "Missing '))'"
      | _ => return parts.reverse
    | some c =>
      if setting.endsAt c then
        if let .bare _ := setting then return parts.reverse
        skip
        return parts.reverse
      skip
      if c = '\\' then
        match ← take? with
        | none => more (.quoted [.char '\\'])
        | some d =>
          if setting.escapes d then more (.quoted [.char d])
          else inner setting (.quoted [.char d] :: .quoted [.char '\\'] :: parts)
      else if c = '\'' && !setting.isQuoted then
        more (.quoted (← readVerbatim))
      else if c = '"' && setting != .document && !(setting matches .expression _) then
        more (.quoted (← inner .quoted []))
      else if c = graveAccent && setting != .bare true then
        let s ← get
        match graveText setting.isQuoted [] s.rest with
        | none => refuse "EOF in backquote substitution"
        | some (text, rest) =>
          let taken := s.rest.take (s.rest.length - rest.length)
          set { s with rest, line := s.line + taken.count '\n' }
          more (.output [← readApart text body])
      else if c = '$' && setting != .bare true then
        match ← peek with
        | some '(' =>
          skip
          if ← skipIf '(' then more (.arithmetic (← inner (.expression 0) []))
          else more (.output [← readSubstitution body closing])
        | some '\x7b' =>
          skip
          more (← readBraces fun bare => inner (.braces (setting.isQuoted && !bare)) [])
        | some d =>
          if startsName d then more (.parameter (← takeWhile continuesName) .value)
          else if d.isDigit || isSpecial d then
            skip
            more (.parameter [d] .value)
          else more (.char c)
        | none => more (.char c)
      else
        match setting with
        | .expression depth =>
          if c = '(' then inner (.expression (depth + 1)) (.char c :: parts)
          else if c = ')' then
            if depth > 0 then inner (.expression (depth - 1)) (.char c :: parts)
            else if ← skipIf ')' then return parts.reverse
            else more (.char c)
          else more (.char c)
        | _ => more (.char c)

end SchemaTypings.Shell
