import UserManagedAccess.Json.Basic
import UserManagedAccess.Number.Word

/-! Numbers as JSON texts write them. A whole number that fits 64 bits stays whole. Any other is
formed as a double in two roundings: its digits as far as they fit 64 bits, then the power of
ten. -/
namespace UserManagedAccess.Json

/-- What a numeral stands for; `tooLarge` is beyond the doubles. -/
inductive Numeral where
  | value (n : JsonNumber)
  | tooLarge
  deriving DecidableEq, Repr

namespace Numeral

/-- The double next to a power of ten that has one. -/
def powerOfTen (n : Nat) : Binary64 := Binary64.ofNat (Nat.pow 10 n)

/-- Multiplies by a power of ten. Down from `10 ^ -308` the power is applied in steps. -/
def applyPower (x : Binary64) (exponent : Int) : (fuel : Nat) → Option Binary64
  | 0 => some (Binary64.zero false)
  | fuel + 1 =>
    if exponent.natAbs ≤ 308 then
      if 0 ≤ exponent then
        let y := x.mulMagnitude (powerOfTen exponent.natAbs)
        if y.isFinite then some y else none
      else some (x.divMagnitude (powerOfTen exponent.natAbs))
    else if x.isZero then some x
    else if 0 ≤ exponent then none
    else applyPower (x.divMagnitude (powerOfTen 308)) (exponent + 308) fuel

/-- A number of `significand` times ten to the power `exponent`. Four steps of `10 ^ -308` leave
nothing of a 64-bit significand. -/
def ofParts (negative : Bool) (significand : Nat) (exponent : Int) : Numeral :=
  match applyPower (Binary64.ofNat significand) exponent 5 with
  | none => .tooLarge
  | some x => .value (.real (Binary64.ofMagnitude negative x.magnitude))

def isDigit (b : UInt8) : Bool := 0x30 ≤ b && b ≤ 0x39

def digit (b : UInt8) : Nat := b.toNat - 0x30

/-- Digits taken into a 64-bit significand until one does not fit; the rest of the digits is
counted. Returns the significand, how many digits it took and how many were left. -/
def collect (significand : Nat) : List UInt8 → Nat × Nat × Nat
  | [] => (significand, 0, 0)
  | b :: rest =>
    let next := significand * 10 + digit b
    if Word.high < next then (significand, 0, rest.length + 1)
    else
      let (significand, taken, left) := collect next rest
      (significand, taken + 1, left)

/-- An exponent of this size or more decides the number by itself. -/
def exponentBound : Nat := 0x7FFFFFFF

def natOfDigits (digits : List UInt8) : Nat :=
  digits.foldl (fun n b => n * 10 + digit b) 0

/-- The number written by a sign, the digits before the point, those after it and an exponent.
Digits before the point that do not fit shift the point; digits after it that do not fit are
dropped. -/
def ofDigits (negative : Bool) (whole : List UInt8) (fraction : Option (List UInt8))
    (exponent : Option (Bool × List UInt8)) : Numeral :=
  let (significand, _, shift) := collect 0 whole
  match fraction, exponent with
  | none, none =>
    if shift = 0 then
      if !negative then .value (.whole significand)
      else if significand = 0 || !Word.fitsSigned (-significand) then
        .value (.real (Binary64.ofMagnitude true (Binary64.ofNat significand).magnitude))
      else .value (.whole (-(significand : Int)))
    else ofParts negative significand shift
  | _, _ =>
    let (significand, taken, _) := collect significand (fraction.getD [])
    let point : Int := (shift : Int) - taken
    match exponent with
    | none => ofParts negative significand point
    | some (down, digits) =>
      let size := natOfDigits digits
      if exponentBound < size then
        if significand != 0 && !down then .tooLarge
        else .value (.real (Binary64.zero negative))
      else ofParts negative significand (if down then point - size else point + size)

/-- The digits at the front of a text and what follows them. -/
def span (bytes : List UInt8) : List UInt8 × List UInt8 :=
  (bytes.takeWhile isDigit, bytes.dropWhile isDigit)

/-- The exponent at the front of a text, if one starts there; `none` if it breaks off. -/
def exponent? : List UInt8 → Option (Option (Bool × List UInt8) × List UInt8)
  | b :: rest =>
    if b == 0x65 || b == 0x45 then
      let (down, rest) := match rest with
        | 0x2B :: rest => (false, rest)
        | 0x2D :: rest => (true, rest)
        | rest => (false, rest)
      let (digits, rest) := span rest
      if digits.isEmpty then none else some (some (down, digits), rest)
    else some (none, b :: rest)
  | [] => some (none, [])

/-- The numeral at the front of a text and what follows it. A whole part of several digits does
not start with zero, and a point or an exponent sign is followed by a digit. -/
def read? (bytes : List UInt8) : Option (Numeral × List UInt8) :=
  let (negative, bytes) := match bytes with
    | 0x2D :: rest => (true, rest)
    | bytes => (false, bytes)
  let (whole, rest) := span bytes
  if whole.isEmpty || (whole.head? == some 0x30 && whole.length != 1) then none
  else
    let fraction? := match rest with
      | 0x2E :: rest =>
        let (digits, rest) := span rest
        if digits.isEmpty then none else some (some digits, rest)
      | rest => some (none, rest)
    match fraction? with
    | none => none
    | some (fraction, rest) =>
      match exponent? rest with
      | none => none
      | some (exponent, rest) => some (ofDigits negative whole fraction exponent, rest)

end Numeral

end UserManagedAccess.Json
