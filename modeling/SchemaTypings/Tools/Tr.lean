import SchemaTypings.Tools.CharacterClass
import SchemaTypings.Tools.Flags

/-!
# Replacing octets

`tr` reads one or two sets of octets and replaces every octet of the first set by its partner in the
second, deletes octets, or leaves one of a run of equal octets.  A set is written as octets, ranges,
classes and repetitions; a backslash takes the meaning from the octet after it.

This belongs to the outer layer, which only runs programs; no result depends on it.
-/

namespace SchemaTypings.Tools.Tr

open SchemaTypings.Text

/-! ### Sets -/

/-- An element of a set. -/
inductive Item where
  | single (c : Char)
  | range (first last : Char)
  /-- A class with its name. -/
  | named (name : Octets) (class_ : Char → Bool)
  | equivalent (c : Char)
  /-- An octet as many times as it says, or as often as it takes. -/
  | repeated (c : Char) (count : Option Nat)

/-- An octet of a set as it is written, and whether a backslash protects it. -/
structure Mark where
  char : Char
  isProtected : Bool
  deriving DecidableEq, Repr

/-- The value of octal digits. -/
def octalValue (digits : Octets) : Nat := digits.foldl (fun n d => n * 8 + (d.toNat - 48)) 0

/-- Whether an octet is an octal digit. -/
def isOctal (c : Char) : Bool := '0' ≤ c && c ≤ '7'

/-- The octet that a letter after a backslash means. -/
def letterValue (c : Char) : Char :=
  match c with
  | 'a' => '\x07'
  | 'b' => '\x08'
  | 'f' => '\x0c'
  | 'n' => '\n'
  | 'r' => '\r'
  | 't' => '\t'
  | 'v' => '\x0b'
  | c => c

/-- The warning about three octal digits that are more than an octet. -/
def ambiguousOctal (digits : Octets) : Octets :=
  wording "tr: warning: the ambiguous octal escape \\" ++ digits ++
    wording " is being\n\tinterpreted as the 2-byte sequence \\0" ++ digits.take 2 ++
    wording ", " ++ digits.drop 2 ++ ['\n']

/-- The marks of a set as it is written, with the warnings about it.  The number is that of the
octets that an escape has used up already. -/
def marksFrom : Nat → Octets → List Mark × Octets
  | _, [] => ([], [])
  | used + 1, _ :: rest => marksFrom used rest
  | 0, ['\\'] =>
    ([⟨'\\', false⟩],
      wording "tr: warning: an unescaped backslash at end of string is not portable\n")
  | 0, '\\' :: c :: rest =>
    if isOctal c then
      let digits := (c :: rest).take 3 |>.takeWhile isOctal
      let fits := octalValue digits < 256
      let taken := if fits then digits else digits.take 2
      let (marks, warnings) := marksFrom taken.length (c :: rest)
      (⟨Char.ofNat (octalValue taken), true⟩ :: marks,
        (if fits then [] else ambiguousOctal digits) ++ warnings)
    else
      let (marks, warnings) := marksFrom 0 rest
      (⟨letterValue c, true⟩ :: marks, warnings)
  | 0, c :: rest =>
    let (marks, warnings) := marksFrom 0 rest
    (⟨c, false⟩ :: marks, warnings)

/-- The marks of a set as it is written, with the warnings about it. -/
def marksOf (set : Octets) : List Mark × Octets := marksFrom 0 set

/-- What stands before an unprotected mark and a closing bracket, and how many marks that is. -/
def beforeClose? (mark : Char) : List Mark → Option (List Mark)
  | [] => none
  | [_] => none
  | a :: b :: rest =>
    if a = ⟨mark, false⟩ ∧ b = ⟨']', false⟩ then some []
    else (beforeClose? mark (b :: rest)).map (a :: ·)

/-- The value of decimal digits, or of octal ones if the first is a zero. -/
def countValue? (digits : Octets) : Option Nat :=
  if !digits.all isDigit then none
  else if digits.head? = some '0' then
    if digits.all isOctal then some (octalValue digits) else none
  else some (digits.foldl (fun n d => n * 10 + (d.toNat - 48)) 0)

/-- A repetition after its opening bracket: the element and the number of its marks. -/
def repetition? : List Mark → Except Octets (Option (Item × Nat))
  | c :: star :: rest =>
    if star = ⟨'*', false⟩ then
      let digits := rest.takeWhile fun m => !m.isProtected && m.char != ']'
      if rest[digits.length]? = some ⟨']', false⟩ then
        let written := digits.map Mark.char
        match countValue? written with
        | some count =>
          .ok (some (.repeated c.char (if count = 0 then none else some count), digits.length + 3))
        | none =>
          .error (wording "invalid repeat count " ++ cited written ++ wording " in [c*n] construct")
      else .ok none
    else .ok none
  | _ => .ok none

/-- A class or an equivalence after its opening bracket: the element and the number of its marks. -/
def bracketed? : List Mark → Except Octets (Option (Item × Nat))
  | opening :: rest =>
    if opening = ⟨':', false⟩ ∨ opening = ⟨'=', false⟩ then
      match beforeClose? opening.char rest with
      | none => .ok none
      | some inside =>
        let name := inside.map Mark.char
        let orRepetition := fun (problem : Octets) =>
          match repetition? (opening :: rest) with
          | .ok (some found) => .ok (some found)
          | _ => .error problem
        if opening.char = ':' then
          match className? name with
          | some class_ => .ok (some (.named name class_, name.length + 3))
          | none =>
            if name.isEmpty then .error (wording "missing character class name '[::]'")
            else orRepetition (wording "invalid character class " ++ cited name)
        else
          match name with
          | [c] => .ok (some (.equivalent c, 4))
          | [] => .error (wording "missing equivalence class character '[==]'")
          | _ =>
            orRepetition (name ++ wording ": equivalence class operand must be a single character")
    else .ok none
  | [] => .ok none

/-- The element that an opening bracket begins, and the number of marks after the bracket. -/
def afterBracket? (rest : List Mark) : Except Octets (Option (Item × Nat)) :=
  match bracketed? rest with
  | .ok none => repetition? rest
  | found => found

/-- An end of a range in a message. -/
def endpoint (m : Mark) : Octets := if isPrintable m.char then [m.char] else '\\' :: octal m.char

/-- The elements of marks; the number is that of the marks that belong to the element before. -/
def itemsFrom : Nat → List Mark → Except Octets (List Item)
  | _, [] => .ok []
  | used + 1, _ :: rest => itemsFrom used rest
  | 0, [a] => .ok [.single a.char]
  | 0, [a, b] => .ok [.single a.char, .single b.char]
  | 0, a :: b :: c :: rest =>
    let plain :=
      if b = ⟨'-', false⟩ then
        if a.char ≤ c.char then (itemsFrom 2 (b :: c :: rest)).map (Item.range a.char c.char :: ·)
        else .error (wording "range-endpoints of '" ++ endpoint a ++ ['-'] ++ endpoint c ++
          wording "' are in reverse collating sequence order")
      else (itemsFrom 0 (b :: c :: rest)).map (Item.single a.char :: ·)
    if a = ⟨'[', false⟩ then
      match afterBracket? (b :: c :: rest) with
      | .error problem => .error problem
      | .ok (some (item, length)) => (itemsFrom length (b :: c :: rest)).map (item :: ·)
      | .ok none => plain
    else plain

/-- The octets of an element; a repetition without a count has a given one. -/
def Item.octets (fill : Nat) : Item → Octets
  | single c => [c]
  | range first last => allOctets.filter fun c => first ≤ c && c ≤ last
  | named _ class_ => allOctets.filter class_
  | equivalent c => [c]
  | repeated c count => List.replicate (count.getD fill) c

/-- The octets of a set. -/
def octetsOf (fill : Nat) (items : List Item) : Octets := items.flatMap (Item.octets fill)

/-- Whether an element is a repetition without a count. -/
def Item.isOpen : Item → Bool
  | repeated _ none => true
  | _ => false

/-- Whether an element is a class. -/
def Item.isClass : Item → Bool
  | named _ _ => true
  | _ => false

/-- Whether an element is the class of the upper-case or of the lower-case letters. -/
def Item.isCase : Item → Bool
  | named name _ => name == "upper".toList || name == "lower".toList
  | _ => false

/-- Where the elements of a set start that are classes of letters of one case. -/
def caseStarts (fill : Nat) (items : List Item) : List Nat :=
  (items.foldl (fun (found : List Nat × Nat) item =>
    (if item.isCase then found.2 :: found.1 else found.1,
      found.2 + (item.octets fill).length)) ([], 0)).1

/-! ### What is asked for -/

/-- What is asked for beside the sets. -/
structure Wishes where
  complement : Bool
  delete : Bool
  squeeze : Bool
  truncate : Bool
  deriving DecidableEq, Repr

/-- The octets outside a set. -/
def outside (set : Octets) : Octets := allOctets.filter fun c => !set.contains c

/-- The first set made as long as the second one, or the second as long as the first. -/
def matched (wishes : Wishes) (first : Octets) (second : List Item) :
    Except Octets (Octets × Octets) :=
  let plain := (octetsOf 0 second).length
  let octets := octetsOf (first.length - plain) second
  if first.length ≤ octets.length then .ok (first, octets)
  else if wishes.truncate then .ok (first.take octets.length, octets)
  else match octets.getLast?, second.getLast? with
    | some last, some item =>
      if item.isClass then
        .error (wording ("when translating with string1 longer than string2,\n" ++
          "the latter string must not end with a character class"))
      else .ok (first, octets ++ List.replicate (first.length - octets.length) last)
    | _, _ => .error (wording "when not truncating set1, string2 must be non-empty")

/-- The pairs of octets that are replaced and what replaces them. -/
def pairs (wishes : Wishes) (first second : List Item) : Except Octets (Octets × Octets) :=
  let given := octetsOf 0 first
  let source := if wishes.complement then outside given else given
  if (second.filter Item.isOpen).length > 1 then
    .error (wording "only one [c*] repeat construct may appear in string2")
  else if second.any fun item => match item with | .equivalent _ => true | _ => false then
    .error (wording "[=c=] expressions may not appear in string2 when translating")
  else if second.any fun item => item.isClass && !item.isCase then
    .error (wording ("when translating, the only character classes that may appear in\n" ++
      "string2 are 'upper' and 'lower'"))
  else if !wishes.complement && (caseStarts (source.length - (octetsOf 0 second).length) second).any
      fun start => !(caseStarts 0 first).contains start then
    .error (wording "misaligned [:upper:] and/or [:lower:] construct")
  else
    match matched wishes source second with
    | .error problem => .error problem
    | .ok (source, target) =>
      if wishes.complement && first.any Item.isClass && (target.eraseDups.length > 1 ||
          source.length != target.length) then
        .error (wording ("when translating with complemented character classes,\n" ++
          "string2 must map all characters in the domain to one"))
      else .ok (source, target)

/-- The octet that replaces an octet: the last partner that the sets give it, or itself. -/
def partner (c : Char) : Octets → Octets → Char → Char
  | a :: as, b :: bs, found => partner c as bs (if a = c then b else found)
  | _, _, found => found

/-- What replaces every octet, in order. -/
def replacements (source target : Octets) : Array Char :=
  (allOctets.map fun c => partner c source target c).toArray

/-- Octets without those that equal the one before them and are in a set. -/
def squeezed (set : Array Bool) (octets : Octets) : Octets :=
  (octets.foldl (fun (done : Octets) c =>
    if done.head? = some c && (set[c.toNat]?).getD false then done else c :: done) []).reverse

/-- Which octets are in a set. -/
def membership (set : Octets) : Array Bool := (allOctets.map fun c => set.contains c).toArray

/-- The octets in a set that is given as it is or by what it leaves out. -/
def chosen (wishes : Wishes) (items : List Item) : Octets :=
  if wishes.complement then outside (octetsOf 0 items) else octetsOf 0 items

/-- What is done with two sets, the second of which may be missing. -/
def change (wishes : Wishes) (first : List Item) (second : Option (List Item)) :
    Except Octets (Octets → Octets) :=
  if first.any Item.isOpen then
    .error (wording "the [c*] repeat construct may not appear in string1")
  else
    match second with
    | none =>
      let set := membership (chosen wishes first)
      if wishes.delete then .ok fun octets => octets.filter fun c => !(set[c.toNat]?).getD false
      else .ok (squeezed set)
    | some second =>
      if wishes.delete then
        if second.any Item.isOpen then
          .error (wording "the [c*] construct may appear in string2 only when translating")
        else
          let set := membership (chosen wishes first)
          let kept := membership (octetsOf 0 second)
          .ok fun octets => squeezed kept (octets.filter fun c => !(set[c.toNat]?).getD false)
      else
        (pairs wishes first second).map fun (source, target) =>
          let table := replacements source target
          let replaced := fun octets : Octets => octets.map fun c => (table[c.toNat]?).getD c
          if wishes.squeeze then fun octets => squeezed (membership target) (replaced octets)
          else replaced

/-- Complains of the number of sets, if it is wrong. -/
def countProblem? (wishes : Wishes) (sets : List Octets) : Option Octets :=
  let least := if wishes.delete == wishes.squeeze then 2 else 1
  let most := if wishes.delete && !wishes.squeeze then 1 else 2
  match sets with
  | [] => some (wording "missing operand")
  | first :: rest =>
    if sets.length < least then
      some (wording "missing operand after " ++ cited first ++ ['\n'] ++
        wording (if wishes.squeeze then
          "Two strings must be given when both deleting and squeezing repeats."
        else "Two strings must be given when translating."))
    else match sets[most]? with
      | none => none
      | some extra =>
        some (wording "extra operand " ++ cited extra ++
          (if rest.length = 1 then
            wording ("\nOnly one string may be given when deleting without squeezing repeats.")
          else []))

/-- The flags of `tr`. -/
def flags : FlagSet where
  flags := [.of 'c' "complement", .ofLetter 'C', .of 'd' "delete", .of 's' "squeeze-repeats",
    .of 't' "truncate-set1"]
  operandEnds := true

/-- Reads sets, with a complaint that names the tool. -/
def readSet (set : Octets) : Work (Option (List Item)) := do
  let (marks, warnings) := marksOf set
  complain warnings
  match itemsFrom 0 marks with
  | .ok items => return some items
  | .error problem =>
    fail 1 (wording "tr: " ++ problem)
    return none

/-- Does with all of the input what is asked for. -/
def work (wishes : Wishes) (first : List Item) (second : Option (List Item)) : Work Unit :=
  match change wishes first second with
  | .error problem => fail 1 (wording "tr: " ++ problem)
  | .ok f => do emit (f (← takeInput))

/-- Replaces, deletes or squeezes octets. -/
def tr : Tool := fun arguments =>
  withArguments "tr" flags arguments fun given => do
    let has := hasFlag given
    let wishes : Wishes := ⟨has 'c' || has 'C', has 'd', has 's', has 't'⟩
    let sets := operands given
    match countProblem? wishes sets with
    | some problem => failUsage 1 "tr" problem
    | none =>
      match sets with
      | [first] =>
        match ← readSet first with
        | some first => work wishes first none
        | none => return
      | first :: second :: _ =>
        match ← readSet first, ← readSet second with
        | some first, some second => work wishes first (some second)
        | _, _ => return
      | [] => return

end SchemaTypings.Tools.Tr
