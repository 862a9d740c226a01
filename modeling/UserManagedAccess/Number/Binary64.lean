/-! Double-precision numbers by their bits. All rounding is done in exact natural arithmetic, to the
nearest representable number, a tie going to the even significand. -/
namespace UserManagedAccess

/-- A double: a sign bit, eleven bits of exponent and fifty-two of fraction. -/
structure Binary64 where
  bits : UInt64
  deriving DecidableEq, Repr, Inhabited

namespace Binary64

def signBit : Nat := 0x8000000000000000
def fractionSize : Nat := 0x10000000000000

/-- The bits of positive infinity, one more than those of the greatest finite number. -/
def infinityBits : Nat := 0x7FF * fractionSize

/-- The number with the given sign and the given bits below the sign. -/
def ofMagnitude (negative : Bool) (magnitude : Nat) : Binary64 :=
  ⟨UInt64.ofNat (if negative then signBit + magnitude else magnitude)⟩

def zero (negative : Bool) : Binary64 := ofMagnitude negative 0
def infinity (negative : Bool) : Binary64 := ofMagnitude negative infinityBits
def notANumber : Binary64 := ofMagnitude false (infinityBits + fractionSize / 2)

def isNegative (x : Binary64) : Bool := signBit ≤ x.bits.toNat

/-- The bits below the sign. -/
def magnitude (x : Binary64) : Nat := x.bits.toNat % signBit

def isZero (x : Binary64) : Bool := x.magnitude == 0
def isFinite (x : Binary64) : Bool := x.magnitude < infinityBits
def isInfinite (x : Binary64) : Bool := x.magnitude == infinityBits
def isNaN (x : Binary64) : Bool := infinityBits < x.magnitude

/-- Numeric equality: the two zeros are equal, what is not a number equals nothing. -/
def same (x y : Binary64) : Bool :=
  !x.isNaN && !y.isNaN && (x.bits == y.bits || (x.isZero && y.isZero))

/-- The significand of a finite number. -/
def significand (x : Binary64) : Nat :=
  if x.magnitude < fractionSize then x.magnitude
  else x.magnitude % fractionSize + fractionSize

/-- The power of two that the significand of a finite number is scaled by. -/
def exponent (x : Binary64) : Int :=
  if x.magnitude < fractionSize then -1074
  else (x.magnitude / fractionSize : Nat) - 1075

/-- The absolute value of a finite number as a fraction. -/
def ratio (x : Binary64) : Nat × Nat :=
  if 0 ≤ x.exponent then (x.significand * Nat.pow 2 x.exponent.toNat, 1)
  else (x.significand, Nat.pow 2 (-x.exponent).toNat)

/-- Division to the nearest natural number, a half going to the even neighbour. -/
def divideToEven (num den : Nat) : Nat :=
  let quotient := num / den
  let twice := 2 * (num % den)
  if twice < den then quotient
  else if den < twice then quotient + 1
  else if quotient % 2 = 0 then quotient else quotient + 1

/-- The nearest multiple of a power of two, counted in that power. -/
def scaled (num den : Nat) (exponent : Int) : Nat :=
  if 0 ≤ exponent then divideToEven num (den * Nat.pow 2 exponent.toNat)
  else divideToEven (num * Nat.pow 2 (-exponent).toNat) den

/-- The power of two whose multiples are the doubles next to the fraction. -/
def gridExponent (num den : Nat) : Int :=
  let guess : Int := num.log2 - den.log2 - 52
  let small :=
    if 0 ≤ guess then num < den * Nat.pow 2 guess.toNat * fractionSize
    else num * Nat.pow 2 (-guess).toNat < den * fractionSize
  max (if small then guess - 1 else guess) (-1074)

/-- The double next to a fraction; beyond the greatest finite number it is infinite. -/
def ofRatio (negative : Bool) (num den : Nat) : Binary64 :=
  if num = 0 || den = 0 then zero negative
  else
    let exponent := gridExponent num den
    let bits := (exponent + 1074).toNat * fractionSize + scaled num den exponent
    ofMagnitude negative (min bits infinityBits)

def ofNat (n : Nat) : Binary64 := ofRatio false n 1

/-- The double next to `digits * 10 ^ exponent`. Beyond four hundred places from the point the
answer is known and the power of ten is not formed. -/
def ofDecimal (negative : Bool) (digits : Nat) (exponent : Int) : Binary64 :=
  if digits = 0 then zero negative
  else
    let size : Int := (Nat.toDigits 10 digits).length
    if 400 < size + exponent then infinity negative
    else if size + exponent < -400 then zero negative
    else if 0 ≤ exponent then ofRatio negative (digits * Nat.pow 10 exponent.toNat) 1
    else ofRatio negative digits (Nat.pow 10 (-exponent).toNat)

/-- The double next to a product of absolute values. -/
def mulMagnitude (x y : Binary64) : Binary64 :=
  ofRatio false (x.ratio.1 * y.ratio.1) (x.ratio.2 * y.ratio.2)

/-- The double next to a quotient of absolute values. -/
def divMagnitude (x y : Binary64) : Binary64 :=
  ofRatio false (x.ratio.1 * y.ratio.2) (x.ratio.2 * y.ratio.1)

/-- The whole number next to a finite number, a half going away from zero. -/
def roundHalfAway (x : Binary64) : Int :=
  let (num, den) := x.ratio
  let rounded : Int := (2 * num + den) / (2 * den)
  if x.isNegative then -rounded else rounded

end Binary64

end UserManagedAccess
