import SchemaTypings.Text.Utf8

/-!
# Bytes as characters

Programs that work on bytes compare them with characters all the time.  A byte sequence is
therefore also written as octets: characters below 256, each of which stands for the byte of its
number.  Only the outer layer, which runs programs, works on octets.
-/

namespace SchemaTypings.Text

/-- A sequence of bytes, each written as the character of its number. -/
abbrev Octets := List Char

namespace Octets

/-- The octets of a byte sequence. -/
def ofBytes (bytes : Bytes) : Octets := bytes.map fun b => Char.ofNat b.toNat

/-- The bytes of octets. -/
def bytes (octets : Octets) : Bytes := octets.map fun c => c.toNat.toUInt8

/-- The octets of a text in UTF-8. -/
def ofText (s : String) : Octets := ofBytes (bytesOf s)

/-- The text that octets spell in UTF-8, malformed parts replaced. -/
def text (octets : Octets) : String := Utf8.lossy (bytes octets)

end Octets

end SchemaTypings.Text
