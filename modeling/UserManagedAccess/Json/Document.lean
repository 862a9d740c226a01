import UserManagedAccess.Json.Numeral
import UserManagedAccess.Text.Utf8

/-! JSON texts as syntax trees. A tree is made of every text: where the grammar is broken the tree
breaks off, so what a reader met before that place is still known. -/
namespace UserManagedAccess.Json

/-- The syntax tree of a text. Repeated members are kept. `unreadable` is a value that can be passed
over but not read: a numeral beyond the doubles, half a surrogate pair, bytes that are no UTF-8, or
too many levels of nesting. `broken` is a place where the text is not JSON. -/
inductive Document where
  | null
  | bool (b : Bool)
  | number (n : JsonNumber)
  | string (s : String)
  /-- The items; the text breaks off after them unless `closed`. -/
  | array (items : List Document) (closed : Bool)
  /-- The members; a name that can only be passed over is `none`. -/
  | object (members : List (Option String × Document)) (closed : Bool)
  | unreadable
  | broken
  deriving Repr, Inhabited

namespace Document

mutual

/-- Whether the grammar holds all through the tree. -/
def isWhole : Document → Bool
  | .array items closed => closed && areWhole items
  | .object members closed => closed && areWholeMembers members
  | .broken => false
  | _ => true

def areWhole : List Document → Bool
  | [] => true
  | item :: rest => item.isWhole && areWhole rest

def areWholeMembers : List (Option String × Document) → Bool
  | [] => true
  | (_, value) :: rest => value.isWhole && areWholeMembers rest

end

mutual

/-- The tree of a value. -/
def ofJson : Json → Document
  | .null => .null
  | .bool b => .bool b
  | .number n => .number n
  | .string s => .string s
  | .array items => .array (ofItems items) true
  | .object members => .object (ofMembers members) true

def ofItems : List Json → List Document
  | [] => []
  | item :: rest => ofJson item :: ofItems rest

def ofMembers : List (String × Json) → List (Option String × Document)
  | [] => []
  | (name, value) :: rest => (some name, ofJson value) :: ofMembers rest

end

mutual

/-- The value that a tree stands for, if all of it can be read; of members with one name the last
counts. -/
def toJson? : Document → Option Json
  | .null => some .null
  | .bool b => some (.bool b)
  | .number n => some (.number n)
  | .string s => some (.string s)
  | .array items closed => if closed then (toItems? items).map .array else none
  | .object members closed =>
    if closed then (toMembers? members).map Json.ofMembers else none
  | .unreadable => none
  | .broken => none

def toItems? : List Document → Option (List Json)
  | [] => some []
  | item :: rest =>
    match toJson? item, toItems? rest with
    | some value, some values => some (value :: values)
    | _, _ => none

def toMembers? : List (Option String × Document) → Option (List (String × Json))
  | [] => some []
  | (some name, item) :: rest =>
    match toJson? item, toMembers? rest with
    | some value, some values => some ((name, value) :: values)
    | _, _ => none
  | (none, _) :: _ => none

end

/-! ## Reading a text -/

def isSpace (b : UInt8) : Bool := b == 0x20 || b == 0x09 || b == 0x0A || b == 0x0D

def skipSpace (bytes : List UInt8) : List UInt8 := bytes.dropWhile isSpace

/-- Four hexadecimal digits. -/
def hexWord? : List UInt8 → Option (Nat × List UInt8)
  | a :: b :: c :: d :: rest => do
    let a ← hexDigit? a
    let b ← hexDigit? b
    let c ← hexDigit? c
    let d ← hexDigit? d
    some (((a * 16 + b) * 16 + c) * 16 + d, rest)
  | _ => none
where
  hexDigit? (b : UInt8) : Option Nat :=
    if 0x30 ≤ b && b ≤ 0x39 then some (b.toNat - 0x30)
    else if 0x41 ≤ b && b ≤ 0x46 then some (b.toNat - 0x37)
    else if 0x61 ≤ b && b ≤ 0x66 then some (b.toNat - 0x57)
    else none

/-- What one piece of a string stands for. -/
inductive Piece where
  | bytes (bs : List UInt8)
  | high (unit : Nat)
  | low (unit : Nat)
  deriving Repr

def isHigh (unit : Nat) : Bool := 0xD800 ≤ unit && unit < 0xDC00
def isLow (unit : Nat) : Bool := 0xDC00 ≤ unit && unit < 0xE000

/-- The escape after a backslash. -/
def escape? : List UInt8 → Option (Piece × List UInt8)
  | [] => none
  | b :: rest =>
    if b == 0x75 then
      match hexWord? rest with
      | none => none
      | some (unit, rest) =>
        if isHigh unit then some (.high unit, rest)
        else if isLow unit then some (.low unit, rest)
        else some (.bytes (String.utf8EncodeChar (Char.ofNat unit)), rest)
    else
      let plain (c : UInt8) := some (Piece.bytes [c], rest)
      if b == 0x22 || b == 0x5C || b == 0x2F then plain b
      else if b == 0x62 then plain 0x08
      else if b == 0x66 then plain 0x0C
      else if b == 0x6E then plain 0x0A
      else if b == 0x72 then plain 0x0D
      else if b == 0x74 then plain 0x09
      else none

/-- The pieces of a string up to its closing quote, and what follows it. -/
def pieces? : (fuel : Nat) → List UInt8 → Option (List Piece × List UInt8)
  | 0, _ => none
  | _, [] => none
  | fuel + 1, b :: rest =>
    if b == 0x22 then some ([], rest)
    else if b == 0x5C then
      match escape? rest with
      | none => none
      | some (piece, rest) => (pieces? fuel rest).map fun (ps, rest) => (piece :: ps, rest)
    else if b < 0x20 then none
    else (pieces? fuel rest).map fun (ps, rest) => (.bytes [b] :: ps, rest)

/-- The bytes that pieces stand for, unless half a surrogate pair stands alone. -/
def joinPieces? : List Piece → Option (List UInt8)
  | [] => some []
  | .bytes bs :: rest => (joinPieces? rest).map (bs ++ ·)
  | .high h :: .low l :: rest =>
    (joinPieces? rest).map
      (String.utf8EncodeChar (Char.ofNat (0x10000 + (h - 0xD800) * 0x400 + (l - 0xDC00))) ++ ·)
  | .high _ :: _ => none
  | .low _ :: _ => none

/-- The text that pieces stand for, if they stand for one. -/
def textOfPieces? (pieces : List Piece) : Option String :=
  (joinPieces? pieces).bind fun bytes => (Text.Utf8.decode bytes).toOption

/-- A string after its opening quote: its text, if it has one, and what follows. -/
def string? (bytes : List UInt8) : Option (Option String × List UInt8) :=
  (pieces? (bytes.length + 1) bytes).map fun (pieces, rest) => (textOfPieces? pieces, rest)

/-- A fixed word at the front of a text. -/
def word? (word : List UInt8) (bytes : List UInt8) : Option (List UInt8) :=
  if word.isPrefixOf bytes then some (bytes.drop word.length) else none

def nullWord : List UInt8 := [0x6E, 0x75, 0x6C, 0x6C]
def trueWord : List UInt8 := [0x74, 0x72, 0x75, 0x65]
def falseWord : List UInt8 := [0x66, 0x61, 0x6C, 0x73, 0x65]

/-- A value that is neither an array nor an object. -/
def scalar (bytes : List UInt8) : Document × List UInt8 :=
  match bytes with
  | 0x22 :: rest =>
    match string? rest with
    | some (some s, rest) => (.string s, rest)
    | some (none, rest) => (.unreadable, rest)
    | none => (.broken, [])
  | b :: _ =>
    if b == 0x2D || Numeral.isDigit b then
      match Numeral.read? bytes with
      | some (.value n, rest) => (.number n, rest)
      | some (.tooLarge, rest) => (.unreadable, rest)
      | none => (.broken, [])
    else
      match word? nullWord bytes, word? trueWord bytes, word? falseWord bytes with
      | some rest, _, _ => (.null, rest)
      | _, some rest, _ => (.bool true, rest)
      | _, _, some rest => (.bool false, rest)
      | _, _, _ => (.broken, [])
  | [] => (.broken, [])

/-- How many arrays and objects may stand within one another. -/
def maxDepth : Nat := 127

/-- A container that stands too deep can only be passed over, and only if it is whole. -/
def limited (depth : Nat) (container : Document) : Document :=
  if depth < maxDepth then container
  else if container.isWhole then .unreadable
  else .broken

mutual

/-- The value at the front of a text, within `depth` containers, and what follows it. After a broken
value nothing follows. -/
def readValue : (fuel depth : Nat) → List UInt8 → Document × List UInt8
  | 0, _, _ => (.broken, [])
  | fuel + 1, depth, bytes =>
    match skipSpace bytes with
    | 0x5B :: rest =>
      let (items, closed, rest) := readItems fuel (depth + 1) true rest
      (limited depth (.array items closed), rest)
    | 0x7B :: rest =>
      let (members, closed, rest) := readMembers fuel (depth + 1) true rest
      (limited depth (.object members closed), rest)
    | bytes => scalar bytes

/-- The items of an array up to its closing bracket; `first` before the first of them. -/
def readItems : (fuel depth : Nat) → (first : Bool) → List UInt8 →
    List Document × Bool × List UInt8
  | 0, _, _, _ => ([], false, [])
  | fuel + 1, depth, first, bytes =>
    let item (bytes : List UInt8) : List Document × Bool × List UInt8 :=
      match skipSpace bytes with
      | 0x5D :: _ => ([], false, [])
      | bytes =>
        let (value, rest) := readValue fuel depth bytes
        let (values, closed, rest) := readItems fuel depth false rest
        (value :: values, closed, rest)
    match skipSpace bytes with
    | 0x5D :: rest => ([], true, rest)
    | 0x2C :: rest => if first then ([], false, []) else item rest
    | [] => ([], false, [])
    | bytes => if first then item bytes else ([], false, [])

/-- The members of an object up to its closing brace. -/
def readMembers : (fuel depth : Nat) → (first : Bool) → List UInt8 →
    List (Option String × Document) × Bool × List UInt8
  | 0, _, _, _ => ([], false, [])
  | fuel + 1, depth, first, bytes =>
    let member (bytes : List UInt8) : List (Option String × Document) × Bool × List UInt8 :=
      match skipSpace bytes with
      | 0x22 :: rest =>
        match string? rest with
        | none => ([], false, [])
        | some (name, rest) =>
          match skipSpace rest with
          | 0x3A :: rest =>
            let (value, rest) := readValue fuel depth rest
            let (members, closed, rest) := readMembers fuel depth false rest
            ((name, value) :: members, closed, rest)
          | _ => ([(name, .broken)], false, [])
      | _ => ([], false, [])
    match skipSpace bytes with
    | 0x7D :: rest => ([], true, rest)
    | 0x2C :: rest => if first then ([], false, []) else member rest
    | bytes => if first then member bytes else ([], false, [])

end

/-- The value that a text begins with; what follows it is not looked at. -/
def ofPrefix (bytes : List UInt8) : Document :=
  (readValue (2 * bytes.length + 2) 0 bytes).1

/-- The value that a text holds; only blank space may follow it. -/
def ofBytes (bytes : List UInt8) : Document :=
  match readValue (2 * bytes.length + 2) 0 bytes with
  | (value, rest) => if (skipSpace rest).isEmpty then value else .broken

def ofText (text : String) : Document := ofBytes (Text.Utf8.encode text)

end Document

/-- The value that a text holds, if all of it can be read. -/
def ofText? (text : String) : Option Json := (Document.ofText text).toJson?

def ofBytes? (bytes : List UInt8) : Option Json := (Document.ofBytes bytes).toJson?

end UserManagedAccess.Json
