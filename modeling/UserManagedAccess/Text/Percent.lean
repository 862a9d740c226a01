import UserManagedAccess.Text.Utf8

/-! Percent-encoded octets. A percent sign that no two hexadecimal digits follow stands for
itself. -/
namespace UserManagedAccess.Text

namespace Percent

def hexValue? (b : UInt8) : Option UInt8 :=
  if 0x30 ≤ b && b ≤ 0x39 then some (b - 0x30)
  else if 0x41 ≤ b && b ≤ 0x46 then some (b - 0x37)
  else if 0x61 ≤ b && b ≤ 0x66 then some (b - 0x57)
  else none

/-- Digits in upper case. -/
def hexDigit (n : UInt8) : Char :=
  if n < 10 then Char.ofNat (0x30 + n.toNat) else Char.ofNat (0x37 + n.toNat)

/-- The octets that an encoded octet sequence stands for. -/
def decodeBytes : List UInt8 → List UInt8
  | [] => []
  | 0x25 :: h :: l :: rest =>
    match hexValue? h, hexValue? l with
    | some high, some low => (high * 16 + low) :: decodeBytes rest
    | _, _ => 0x25 :: decodeBytes (h :: l :: rest)
  | b :: rest => b :: decodeBytes rest

/-- The text that an encoded text stands for. -/
def decode (s : String) : Except Utf8Error String :=
  Utf8.decode (decodeBytes (Utf8.encode s))

/-- An octet as a percent sign and two digits. -/
def encodeByte (b : UInt8) : List Char :=
  ['%', hexDigit (b / 16), hexDigit (b % 16)]

/-- Encodes the octets of the characters in a class and leaves the others. -/
def encode (escaped : Char → Bool) (cs : List Char) : List Char :=
  cs.flatMap fun c => if escaped c then (String.utf8EncodeChar c).flatMap encodeByte else [c]

end Percent

end UserManagedAccess.Text
