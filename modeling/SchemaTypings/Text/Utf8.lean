/-!
# Reading UTF-8

A byte sequence is read by a machine that takes one byte a step.  It yields the characters and,
in their places, the malformed parts: a part ends before the first byte that cannot continue it,
and a part cut off by the end of the sequence is incomplete.
-/

namespace SchemaTypings.Text

/-- A sequence of bytes. -/
abbrev Bytes := List UInt8

/-- The bytes of a text. -/
def bytesOf (s : String) : Bytes := s.toUTF8.data.toList

namespace Utf8

/-- What a part of a byte sequence is. -/
inductive Piece where
  /-- A character. -/
  | char (c : Char)
  /-- Bytes that begin no character. -/
  | malformed (length : Nat)
  /-- The beginning of a character at the end of the sequence. -/
  | incomplete
  deriving DecidableEq, Repr

/-- The beginning of a character: its bits, how many bytes were seen and how many are missing, and
the range of the next byte. -/
structure Started where
  bits : Nat
  seen : Nat
  missing : Nat
  low : Nat
  high : Nat
  deriving DecidableEq, Repr

/-- The first byte of a character, or one that begins none. -/
def first (b : Nat) : List Piece × Option Started :=
  if b < 0x80 then ([.char (Char.ofNat b)], none)
  else if b < 0xc2 then ([.malformed 1], none)
  else if b < 0xe0 then ([], some ⟨b - 0xc0, 1, 1, 0x80, 0xbf⟩)
  else if b = 0xe0 then ([], some ⟨0, 1, 2, 0xa0, 0xbf⟩)
  else if b = 0xed then ([], some ⟨0xd, 1, 2, 0x80, 0x9f⟩)
  else if b < 0xf0 then ([], some ⟨b - 0xe0, 1, 2, 0x80, 0xbf⟩)
  else if b = 0xf0 then ([], some ⟨0, 1, 3, 0x90, 0xbf⟩)
  else if b < 0xf4 then ([], some ⟨b - 0xf0, 1, 3, 0x80, 0xbf⟩)
  else if b = 0xf4 then ([], some ⟨4, 1, 3, 0x80, 0x8f⟩)
  else ([.malformed 1], none)

/-- One step: the pieces that a byte completes and the character it leaves begun. -/
def step (started : Option Started) (b : Nat) : List Piece × Option Started :=
  match started with
  | none => first b
  | some s =>
    if s.low ≤ b ∧ b ≤ s.high then
      let bits := s.bits * 64 + (b - 0x80)
      if s.missing = 1 then ([.char (Char.ofNat bits)], none)
      else ([], some ⟨bits, s.seen + 1, s.missing - 1, 0x80, 0xbf⟩)
    else
      let (pieces, next) := first b
      (.malformed s.seen :: pieces, next)

/-- The pieces of a byte sequence, after a character that may have begun. -/
def piecesFrom (started : Option Started) : Bytes → List Piece
  | [] => if started.isSome then [.incomplete] else []
  | b :: rest => (step started b.toNat).1 ++ piecesFrom (step started b.toNat).2 rest

/-- The pieces of a byte sequence. -/
def pieces (bytes : Bytes) : List Piece := piecesFrom none bytes

/-- The character that stands for a piece; malformed ones become the replacement character. -/
def Piece.replaced : Piece → Char
  | char c => c
  | malformed _ => Char.ofNat 0xfffd
  | incomplete => Char.ofNat 0xfffd

/-- The text of a byte sequence, malformed parts replaced. -/
def lossy (bytes : Bytes) : String := String.ofList ((pieces bytes).map Piece.replaced)

/-- Where and how a byte sequence is malformed. -/
inductive Problem where
  | malformed (length index : Nat)
  | incomplete (index : Nat)
  deriving DecidableEq, Repr

/-- The wording of a problem. -/
def Problem.message : Problem → String
  | malformed length index =>
    "invalid utf-8 sequence of " ++ toString length ++ " bytes from index " ++ toString index
  | incomplete index => "incomplete utf-8 byte sequence from index " ++ toString index

/-- The characters of pieces, the first of which stands at an index, or the first problem. -/
def decodePieces (index : Nat) : List Piece → Except Problem (List Char)
  | [] => .ok []
  | .char c :: rest => (decodePieces (index + c.utf8Size) rest).map (c :: ·)
  | .malformed length :: _ => .error (.malformed length index)
  | .incomplete :: _ => .error (.incomplete index)

/-- The text of a byte sequence, or why it is none. -/
def decode (bytes : Bytes) : Except Problem String :=
  (decodePieces 0 (pieces bytes)).map String.ofList

end Utf8

end SchemaTypings.Text
