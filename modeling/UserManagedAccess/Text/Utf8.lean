/-! Bytes as UTF-8 text. A malformed sequence is reported with its place. -/
namespace UserManagedAccess.Text

/-- Why bytes are no UTF-8 text: `length` bytes that start at `index` belong to no character, or
the bytes end within a character (`length` is `none`). -/
structure Utf8Error where
  index : Nat
  length : Option Nat
  deriving DecidableEq, Repr

def Utf8Error.message : Utf8Error → String
  | ⟨index, some n⟩ => s!"invalid utf-8 sequence of {n} bytes from index {index}"
  | ⟨index, none⟩ => s!"incomplete utf-8 byte sequence from index {index}"

namespace Utf8

/-- How many bytes a character takes, read off its first byte; zero for a byte that starts none. -/
def width (first : UInt8) : Nat :=
  if first < 0x80 then 1
  else if 0xC2 ≤ first && first ≤ 0xDF then 2
  else if 0xE0 ≤ first && first ≤ 0xEF then 3
  else if 0xF0 ≤ first && first ≤ 0xF4 then 4
  else 0

/-- The second byte of a character; the range rules out overlong forms, surrogates and values
beyond the last code point. -/
def isSecond (first second : UInt8) : Bool :=
  if first == 0xE0 then 0xA0 ≤ second && second ≤ 0xBF
  else if first == 0xED then 0x80 ≤ second && second ≤ 0x9F
  else if first == 0xF0 then 0x90 ≤ second && second ≤ 0xBF
  else if first == 0xF4 then 0x80 ≤ second && second ≤ 0x8F
  else 0x80 ≤ second && second ≤ 0xBF

def isTail (b : UInt8) : Bool := 0x80 ≤ b && b ≤ 0xBF

/-- The bits that a first byte of the given width contributes. -/
def head (first : UInt8) : Nat → Nat
  | 2 => first.toNat % 32
  | 3 => first.toNat % 16
  | 4 => first.toNat % 8
  | _ => first.toNat

/-- One more continuation byte. -/
def extend (value : Nat) (b : UInt8) : Nat := value * 64 + b.toNat % 64

/-- The first character of a byte list and the number of bytes it takes, or the length of the
malformed sequence that starts there. -/
def first? : List UInt8 → Except (Option Nat) (Char × Nat)
  | [] => .error none
  | a :: rest =>
    match width a, rest with
    | 1, _ => .ok (Char.ofNat a.toNat, 1)
    | 2, b :: _ =>
      if isTail b then .ok (Char.ofNat (extend (head a 2) b), 2) else .error (some 1)
    | 3, b :: rest =>
      if !isSecond a b then .error (some 1) else
      match rest with
      | [] => .error none
      | c :: _ =>
        if isTail c then .ok (Char.ofNat (extend (extend (head a 3) b) c), 3)
        else .error (some 2)
    | 4, b :: rest =>
      if !isSecond a b then .error (some 1) else
      match rest with
      | [] => .error none
      | c :: rest =>
        if !isTail c then .error (some 2) else
        match rest with
        | [] => .error none
        | d :: _ =>
          if isTail d then .ok (Char.ofNat (extend (extend (extend (head a 4) b) c) d), 4)
          else .error (some 3)
    | 0, _ => .error (some 1)
    | _, _ => .error none

/-- Decodes from a given index on, the first `skipped` bytes left out: they belong to the character
that was read last. -/
def decodeFrom : (skipped index : Nat) → List UInt8 → Except Utf8Error (List Char)
  | _, _, [] => .ok []
  | skipped + 1, index, _ :: rest => decodeFrom skipped index rest
  | 0, index, b :: rest =>
    match first? (b :: rest) with
    | .error length => .error ⟨index, length⟩
    | .ok (c, n) =>
      match decodeFrom (n - 1) (index + n) rest with
      | .error e => .error e
      | .ok cs => .ok (c :: cs)

/-- The text that the bytes spell. -/
def decode (bytes : List UInt8) : Except Utf8Error String :=
  (decodeFrom 0 0 bytes).map String.ofList

/-- The text that the bytes spell, with a replacement character for every malformed sequence. -/
def replaceFrom : (skipped : Nat) → List UInt8 → List Char
  | _, [] => []
  | skipped + 1, _ :: rest => replaceFrom skipped rest
  | 0, b :: rest =>
    match first? (b :: rest) with
    | .ok (c, n) => c :: replaceFrom (n - 1) rest
    | .error (some n) => '\uFFFD' :: replaceFrom (n - 1) rest
    | .error none => ['\uFFFD']

def decodeReplacing (bytes : List UInt8) : String := String.ofList (replaceFrom 0 bytes)

/-- The bytes of a text. -/
def encode (s : String) : List UInt8 :=
  s.toList.flatMap String.utf8EncodeChar

end Utf8

end UserManagedAccess.Text
