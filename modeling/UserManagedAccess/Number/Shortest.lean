import UserManagedAccess.Number.Binary64

/-! The shortest decimal that reads back as a given double. -/
namespace UserManagedAccess

/-- The number `0.d₁d₂…` times ten to the power `point`. -/
structure Decimal where
  digits : List Char
  point : Int
  deriving DecidableEq, Repr

namespace Decimal

/-- Decimal digits, most significant first. -/
def digitsOf (n : Nat) : List Char := Nat.toDigits 10 n

/-- A whole number as text. -/
def ofInt (n : Int) : List Char :=
  if n < 0 then '-' :: digitsOf n.natAbs else digitsOf n.natAbs

/-- Without an exponent, and without a point if no digit would follow it. -/
def positional (d : Decimal) : List Char :=
  if d.point ≤ 0 then '0' :: '.' :: (List.replicate (-d.point).toNat '0' ++ d.digits)
  else
    let whole := d.point.toNat
    if d.digits.length ≤ whole then
      d.digits ++ List.replicate (whole - d.digits.length) '0'
    else d.digits.take whole ++ '.' :: d.digits.drop whole

end Decimal

namespace Binary64

/-- The numbers that round to a positive double lie between `low / den` and `high / den`, its own
value is `mid / den`; the ends belong to the range if `closed`. -/
structure Range where
  low : Nat
  mid : Nat
  high : Nat
  den : Nat
  closed : Bool

/-- Below a power of two the neighbour is nearer than above it. -/
def range (x : Binary64) : Range :=
  let m := x.significand
  let below := if m = fractionSize && fractionSize * 2 ≤ x.magnitude then 1 else 2
  let scale (n : Nat) := if 0 ≤ x.exponent then n * Nat.pow 2 x.exponent.toNat else n
  let den := if 0 ≤ x.exponent then 4 else 4 * Nat.pow 2 (-x.exponent).toNat
  { low := scale (4 * m - below), mid := scale (4 * m), high := scale (4 * m + 2), den,
    closed := m % 2 == 0 }

/-- The least power of ten above a positive fraction. -/
def decimalPoint (num den : Nat) : Int :=
  let below (k : Int) : Bool :=
    if 0 ≤ k then num < den * Nat.pow 10 k.toNat else num * Nat.pow 10 (-k).toNat < den
  let guess : Int := ((num.log2 : Int) - den.log2) * 30103 / 100000 - 1
  if below guess then guess
  else if below (guess + 1) then guess + 1
  else if below (guess + 2) then guess + 2
  else guess + 3

/-- The multiple `n * 10 ^ p` that lies in the range and is next to its middle, if there is one; a
tie goes to the even multiple. -/
def Range.nearest? (r : Range) (p : Int) : Option Nat :=
  -- everything is compared over the common denominator
  let unit := if 0 ≤ p then r.den * Nat.pow 10 p.toNat else r.den
  let lift (n : Nat) := if 0 ≤ p then n else n * Nat.pow 10 (-p).toNat
  let inside (n : Nat) : Bool :=
    if r.closed then lift r.low ≤ n * unit && n * unit ≤ lift r.high
    else lift r.low < n * unit && n * unit < lift r.high
  let n := lift r.mid / unit
  match inside n && n != 0, inside (n + 1) with
  | true, true =>
    let down := lift r.mid - n * unit
    let up := (n + 1) * unit - lift r.mid
    if down < up then some n
    else if up < down then some (n + 1)
    else if n % 2 = 0 then some n else some (n + 1)
  | true, false => some n
  | false, true => some (n + 1)
  | false, false => none

/-- Tries grids of one digit, two digits and so on. -/
def Range.shortest (r : Range) (point : Int) : (digits tries : Nat) → Nat × Int
  | digits, 0 => (r.mid / r.den, digits)
  | digits, tries + 1 =>
    match r.nearest? (point - digits) with
    | some n => (n, point - digits)
    | none => r.shortest point (digits + 1) tries

/-- Drops the zeros at the end of a number and counts them. -/
def stripZeros (n : Nat) : (fuel : Nat) → Nat × Nat
  | 0 => (n, 0)
  | fuel + 1 =>
    if n % 10 = 0 && n != 0 then
      let (rest, count) := stripZeros (n / 10) fuel
      (rest, count + 1)
    else (n, 0)

/-- The shortest decimal that rounds to a finite double other than zero, and of those the one next
to it. -/
def shortest (x : Binary64) : Decimal :=
  let r := x.range
  let (n, power) := r.shortest (decimalPoint r.mid r.den) 1 17
  let (n, zeros) := stripZeros n 20
  let digits := Decimal.digitsOf n
  ⟨digits, digits.length + power + zeros⟩

end Binary64

end UserManagedAccess
