import SchemaTypings.Tools.CharacterClass

/-!
# Regular expressions

Regular expressions over octets, with groups, references back to groups and assertions.  Matching
follows every way at once: `Regex.run` lists the places that an expression can lead to from a given
one, the farthest first.  Of all matches that start at a place the longest one counts, and of those
the one whose first parts are longest.

This belongs to the outer layer, which only runs programs; no result depends on it.
-/

namespace SchemaTypings.Tools

open SchemaTypings.Text

/-- A condition on a place between octets. -/
inductive Assertion where
  | textStart
  | textEnd
  /-- At the start of the text or after a line end. -/
  | lineStart
  /-- At the end of the text or before a line end. -/
  | lineEnd
  | wordStart
  | wordEnd
  | wordEdge
  | noWordEdge
  deriving DecidableEq, Repr

/-- A regular expression. -/
inductive Regex where
  | empty
  | char (c : Char)
  /-- An octet of a set. -/
  | oneOf (set : Array Bool)
  | assertion (a : Assertion)
  | seq (first second : Regex)
  | either (first second : Regex)
  | repeated (body : Regex) (least : Nat) (most : Option Nat)
  | group (index : Nat) (body : Regex)
  /-- What a group has matched, again; the flag says whether letters of the two cases are one. -/
  | back (index : Nat) (ignoresCase : Bool)

/-- A way through a text: how far it has come, what is left, the octet before, and the ranges that
groups have matched, the latest first. -/
structure Way where
  position : Nat
  rest : Octets
  before : Option Char
  groups : List (Nat × Nat × Nat)

namespace Way

/-- The way that has not begun. -/
def start (text : Octets) : Way := ⟨0, text, none, []⟩

/-- The way one octet further. -/
def next? (w : Way) : Option (Char × Way) :=
  match w.rest with
  | [] => none
  | c :: rest => some (c, { w with position := w.position + 1, rest, before := some c })

/-- The range that a group has matched. -/
def range? (w : Way) (index : Nat) : Option (Nat × Nat) :=
  (w.groups.find? fun entry => entry.1 == index).map Prod.snd

/-- The way with a group that ends here. -/
def close (w : Way) (index start : Nat) : Way :=
  { w with groups := (index, start, w.position) :: w.groups.filter fun entry => entry.1 != index }

/-- Whether an assertion holds on the way. -/
def satisfies (w : Way) : Assertion → Bool
  | .textStart => w.before.isNone
  | .textEnd => w.rest.isEmpty
  | .lineStart => w.before.isNone || w.before == some '\n'
  | .lineEnd => w.rest.isEmpty || w.rest.head? == some '\n'
  | .wordStart => !inWord w.before && inWord w.rest.head?
  | .wordEnd => inWord w.before && !inWord w.rest.head?
  | .wordEdge => inWord w.before != inWord w.rest.head?
  | .noWordEdge => inWord w.before == inWord w.rest.head?
where
  /-- Whether there is an octet of a word. -/
  inWord (c? : Option Char) : Bool := (c?.map isWordOctet).getD false

/-- The way after given octets, if they come next. -/
def after? (ignoresCase : Bool) (w : Way) : Octets → Option Way
  | [] => some w
  | c :: cs =>
    match w.next? with
    | none => none
    | some (d, next) =>
      if c = d ∨ ignoresCase ∧ lowered c = lowered d then after? ignoresCase next cs else none

/-- The ways through a run of accepted octets, the longest first, put before other ways. -/
def spread (accepts : Char → Bool) (w : Way) (others : List Way) : Octets → List Way
  | [] => w :: others
  | c :: rest =>
    if accepts c then
      let next := { w with position := w.position + 1, rest, before := some c }
      spread accepts next (w :: others) rest
    else w :: others

end Way

/-- The ways that count, the longest first: of those that come to the same place the first one, or,
if the groups matter later on, the first one for every choice of groups. -/
def ordered (byGroups : Bool) (ways : List Way) : List Way :=
  match ways with
  | [] => []
  | [w] => [w]
  | ways =>
    let same := fun v w : Way => v.position == w.position && (!byGroups || v.groups == w.groups)
    ((ways.mergeSort fun v w => v.position ≥ w.position).foldl
      (fun kept w => if kept.any (same w) then kept else w :: kept) []).reverse

/-- The ways after one more step. -/
def stepAll (byGroups : Bool) (step : Way → List Way) (ways : List Way) : List Way :=
  match ways with
  | [w] => step w
  | ways => ordered byGroups (ways.flatMap step)

/-- A step that does not get on, taken once more: the groups stay as they are. -/
def stepOn (step : Way → List Way) (w : Way) : List Way :=
  (step w).map fun v => if v.position = w.position then { v with groups := w.groups } else v

/-- The ways after an exact number of further steps. -/
def exactly (byGroups : Bool) (step : Way → List Way) : Nat → List Way → List Way
  | 0, ways => ways
  | n + 1, ways => exactly byGroups step n (stepAll byGroups (stepOn step) ways)

/-- The ways after up to a number of steps.  A step that does not get on is not followed. -/
def upTo (byGroups : Bool) (step : Way → List Way) : Nat → List Way → List Way → List Way
  | 0, found, _ => ordered byGroups found
  | n + 1, found, latest =>
    let onward := fun w => (step w).filter fun v => v.position > w.position
    let more := (stepAll byGroups onward latest).filter fun v =>
      !found.any fun w => v.position == w.position && (!byGroups || v.groups == w.groups)
    if more.isEmpty then ordered byGroups found else upTo byGroups step n (found ++ more) more

namespace Regex

/-- Whether an expression refers back to a group. -/
def refersBack : Regex → Bool
  | seq first second => refersBack first || refersBack second
  | either first second => refersBack first || refersBack second
  | repeated body _ _ => refersBack body
  | group _ body => refersBack body
  | back _ _ => true
  | _ => false

/-- The octets that an expression of one octet accepts. -/
def acceptsOne? : Regex → Option (Char → Bool)
  | char c => some (· == c)
  | oneOf set => some fun c => (set[c.toNat]?).getD false
  | _ => none

/-- The ways after a repetition of steps. -/
def runRepeated (byGroups : Bool) (step : Way → List Way) (single? : Option (Char → Bool))
    (least : Nat) (most : Option Nat) (w : Way) : List Way :=
  match single?, least, most with
  | some accepts, 0, none => w.spread accepts [] w.rest
  | _, _, _ =>
    let begun := if least = 0 then [w] else exactly byGroups step (least - 1) (step w)
    let more := match most with | some n => n - least | none => w.rest.length + 1
    upTo byGroups step more begun begun

/-- The ways through an expression in a text, the longest first; among those of one length the
preferred one comes first. -/
def run (byGroups : Bool) (text : Octets) : Regex → Way → List Way
  | empty, w => [w]
  | char c, w =>
    match w.next? with
    | some (d, next) => if c = d then [next] else []
    | none => []
  | oneOf set, w =>
    match w.next? with
    | some (d, next) => if (set[d.toNat]?).getD false then [next] else []
    | none => []
  | assertion a, w => if w.satisfies a then [w] else []
  | seq first second, w =>
    match run byGroups text first w with
    | [] => []
    | ways => stepAll byGroups (run byGroups text second) ways
  | either first second, w =>
    ordered byGroups (run byGroups text first w ++ run byGroups text second w)
  | repeated body least most, w =>
    runRepeated byGroups (run byGroups text body) body.acceptsOne? least most w
  | group index body, w => (run byGroups text body w).map fun v => v.close index w.position
  | back index ignoresCase, w =>
    match w.range? index with
    | none => []
    | some (start, stop) =>
      (w.after? ignoresCase ((text.drop start).take (stop - start))).toList

/-- The first octet that every match starts with, if there is only one. -/
def firstOctet? : Regex → Option Char
  | char c => some c
  | seq first _ => firstOctet? first
  | group _ body => firstOctet? body
  | _ => none

/-- The first match on a way through a text: where it starts and the way at its end, the longest
one from there. -/
def searchFrom (try_ : Way → List Way) (hint : Option Char) (w : Way) :
    Octets → Option (Nat × Way)
  | [] => (try_ w).head?.map fun v => (w.position, v)
  | c :: rest =>
    let next : Way := { w with position := w.position + 1, rest, before := some c }
    if (hint.map fun h => h != c).getD false then searchFrom try_ hint next rest
    else
      match try_ w with
      | v :: _ => some (w.position, v)
      | [] => searchFrom try_ hint next rest

/-- The first match in a text at or after a place. -/
def search (r : Regex) (text : Octets) (w : Way) : Option (Nat × Way) :=
  searchFrom (run r.refersBack text r) r.firstOctet? { w with groups := [] } w.rest

/-- Whether an expression matches in a text. -/
def matchesIn (r : Regex) (text : Octets) : Bool := (r.search text (.start text)).isSome

end Regex

end SchemaTypings.Tools
