/-! Base 64 with the URL-safe alphabet and without padding. Unused bits of the last symbol must be
zero. -/
namespace UserManagedAccess.Text

/-- Why a text is no base 64 encoding. -/
inductive Base64Error where
  /-- A byte outside the alphabet, or padding at a place where none may stand. -/
  | invalidByte (byte : UInt8) (offset : Nat)
  /-- One symbol is left over; its six bits are no octet. -/
  | danglingSymbol
  /-- The last symbol has bits that belong to no octet. -/
  | trailingBits (byte : UInt8) (offset : Nat)
  /-- Padding stands where it might, but this reader takes none. -/
  | padded
  deriving DecidableEq, Repr

def Base64Error.message : Base64Error → String
  | .invalidByte byte offset => s!"Invalid byte {byte.toNat}, offset {offset}."
  | .danglingSymbol => "Encoded text cannot have a 6-bit remainder."
  | .trailingBits byte offset => s!"Invalid last symbol {byte.toNat}, offset {offset}."
  | .padded => "Invalid padding"

namespace Base64Url

/-- Whether a reader takes padding after the last symbol, a part of it included. -/
inductive Padding where
  | accepted
  | refused
  deriving DecidableEq, Repr

def symbol (n : Nat) : Char :=
  if n < 26 then Char.ofNat (0x41 + n)
  else if n < 52 then Char.ofNat (0x61 + n - 26)
  else if n < 62 then Char.ofNat (0x30 + n - 52)
  else if n = 62 then '-'
  else '_'

def value? (b : UInt8) : Option Nat :=
  let n := b.toNat
  if 0x41 ≤ n && n ≤ 0x5A then some (n - 0x41)
  else if 0x61 ≤ n && n ≤ 0x7A then some (n - 0x61 + 26)
  else if 0x30 ≤ n && n ≤ 0x39 then some (n - 0x30 + 52)
  else if n = 0x2D then some 62
  else if n = 0x5F then some 63
  else none

def encodeChars : List UInt8 → List Char
  | [] => []
  | [a] => [symbol (a.toNat / 4), symbol (a.toNat % 4 * 16)]
  | [a, b] =>
    [symbol (a.toNat / 4), symbol (a.toNat % 4 * 16 + b.toNat / 16), symbol (b.toNat % 16 * 4)]
  | a :: b :: c :: rest =>
    symbol (a.toNat / 4) :: symbol (a.toNat % 4 * 16 + b.toNat / 16) ::
      symbol (b.toNat % 16 * 4 + c.toNat / 64) :: symbol (c.toNat % 64) :: encodeChars rest

def encode (bytes : List UInt8) : String :=
  String.ofList (encodeChars bytes)

def pad : UInt8 := 0x3D

/-- The values of the symbols of an unpadded stretch. -/
def valuesFrom (offset : Nat) : List UInt8 → Except Base64Error (List Nat)
  | [] => .ok []
  | b :: rest =>
    match value? b with
    | none => .error (.invalidByte b offset)
    | some v =>
      match valuesFrom (offset + 1) rest with
      | .error e => .error e
      | .ok vs => .ok (v :: vs)

/-- The values of the last stretch of symbols, which may end in padding: `place` counts from the
start of the stretch, `padAt` is the place of the first padding seen. Padding stands in the second
half of a group of four only, and nothing but padding follows it. -/
def lastValues (offset place : Nat) (padAt : Option Nat) :
    List UInt8 → Except Base64Error (List Nat × Option Nat)
  | [] => .ok ([], padAt)
  | b :: rest =>
    if b == pad then
      if place % 4 < 2 then .error (.invalidByte b (offset + padAt.getD place))
      else lastValues offset (place + 1) (some (padAt.getD place)) rest
    else
      match padAt with
      | some seen => .error (.invalidByte pad (offset + seen))
      | none =>
        match value? b with
        | none => .error (.invalidByte b (offset + place))
        | some v =>
          match lastValues offset (place + 1) padAt rest with
          | .error e => .error e
          | .ok (vs, seen) => .ok (v :: vs, seen)

/-- The octets of symbol values, four to three, and the bits left over. -/
def octets : List Nat → List UInt8 × Nat
  | a :: b :: c :: d :: rest =>
    let (bytes, left) := octets rest
    (UInt8.ofNat (a * 4 + b / 16) :: UInt8.ofNat (b % 16 * 16 + c / 4) ::
      UInt8.ofNat (c % 4 * 64 + d) :: bytes, left)
  | [a, b, c] => ([UInt8.ofNat (a * 4 + b / 16), UInt8.ofNat (b % 16 * 16 + c / 4)], c % 4)
  | [a, b] => ([UInt8.ofNat (a * 4 + b / 16)], b % 16)
  | [a] => ([], a)
  | [] => ([], 0)

/-- Reads an encoding. The last stretch, of up to eight symbols, is the only one that may hold
padding; of a text with a dangling symbol the last byte is looked at first. -/
def decodeBytes (padding : Padding) (input : List UInt8) : Except Base64Error (List UInt8) :=
  if input.length % 4 = 1 then
    match input.getLast? with
    | some b =>
      if b != pad && (value? b).isNone then .error (.invalidByte b (input.length - 1))
      else .error .danglingSymbol
    | none => .error .danglingSymbol
  else
    let start := if input.length = 0 then 0 else (input.length - 1) / 8 * 8
    match valuesFrom 0 (input.take start) with
    | .error e => .error e
    | .ok front =>
      match lastValues start 0 none (input.drop start) with
      | .error e => .error e
      | .ok (back, padAt) =>
        if padAt.isSome && padding == .refused then .error .padded
        else
          let (bytes, left) := octets (front ++ back)
          if left = 0 then .ok bytes
          else
            let offset := start + back.length - 1
            .error (.trailingBits (input.getD offset 0) offset)

def decode (padding : Padding) (s : String) : Except Base64Error (List UInt8) :=
  decodeBytes padding s.toByteArray.toList

end Base64Url

end UserManagedAccess.Text
