import Deadwood.Text.Piece

/-!
# Octets

Texts as octets of UTF-8, and octets as pairs of hexadecimal digits.
-/

namespace Deadwood.Text

/-- The UTF-8 encoding of a text. -/
def octets (s : String) : List UInt8 := s.toList.flatMap String.utf8EncodeChar

/-- The text that the octets are the UTF-8 encoding of, if there is one. -/
def ofOctets? (bytes : List UInt8) : Option String := String.fromUTF8? ⟨bytes.toArray⟩

/-- The lower case digit for a number below sixteen. -/
def lowerHex (n : Nat) : Char := if n < 10 then Char.ofNat (48 + n) else Char.ofNat (87 + n)

/-- The two hexadecimal digits of an octet. -/
def hexPair (b : UInt8) : List Char := [lowerHex (b.toNat / 16), lowerHex (b.toNat % 16)]

/-- The hexadecimal digits of octets. -/
def hex (bytes : List UInt8) : String := String.ofList (bytes.flatMap hexPair)

end Deadwood.Text
