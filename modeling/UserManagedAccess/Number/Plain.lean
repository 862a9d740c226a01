import UserManagedAccess.Number.Shortest

/-! Numbers as plain text: whole numbers with an optional sign, and doubles, which are written
without an exponent. -/
namespace UserManagedAccess

namespace Decimal

def digitValue (c : Char) : Nat := c.toNat - '0'.toNat

def valueOf (digits : List Char) : Nat :=
  digits.foldl (fun n c => n * 10 + digitValue c) 0

/-- Digits and nothing else. -/
def nat? (text : List Char) : Option Nat :=
  if !text.isEmpty && text.all Char.isDigit then some (valueOf text) else none

/-- The sign at the front of a text, whether it is a minus, and what follows it. -/
def sign : List Char → Bool × List Char
  | '+' :: rest => (false, rest)
  | '-' :: rest => (true, rest)
  | text => (false, text)

/-- A whole number with an optional sign, within bounds. -/
def int? (low high : Int) (text : List Char) : Option Int :=
  let (negative, digits) := sign text
  match nat? digits with
  | none => none
  | some n =>
    let value : Int := if negative then -n else n
    if low ≤ value && value ≤ high then some value else none

/-- The exponent after a numeral; a numeral that ends has the exponent zero. -/
def exponent? : List Char → Option Int
  | [] => some 0
  | c :: text =>
    if c = 'e' || c = 'E' then
      let (negative, digits) := sign text
      (nat? digits).map fun n => if negative then -(n : Int) else n
    else none

end Decimal

namespace Binary64

/-- A number of digits before the point, digits after it and an exponent. -/
def ofNumeral (negative : Bool) (whole fraction : List Char) (exponent : Int) : Binary64 :=
  ofDecimal negative (Decimal.valueOf (whole ++ fraction)) (exponent - fraction.length)

/-- A numeral with an optional point, at least one digit before or after it, and an optional
exponent. -/
def ofUnsigned? (negative : Bool) (text : List Char) : Option Binary64 :=
  let whole := text.takeWhile Char.isDigit
  let (fraction, rest) := match text.dropWhile Char.isDigit with
    | '.' :: rest => (rest.takeWhile Char.isDigit, rest.dropWhile Char.isDigit)
    | rest => ([], rest)
  if whole.isEmpty && fraction.isEmpty then none
  else (Decimal.exponent? rest).map (ofNumeral negative whole fraction)

/-- Reads a double: a numeral with an optional sign, or one of the words for infinity and for what
is not a number, in any case. -/
def ofText? (text : List Char) : Option Binary64 :=
  let (negative, rest) := Decimal.sign text
  let word := String.ofList (rest.map Char.toLower)
  if word = "inf" || word = "infinity" then some (infinity negative)
  else if word = "nan" then some notANumber
  else ofUnsigned? negative rest

/-- Writes a double with the fewest digits that read back, and without an exponent. -/
def toText (x : Binary64) : String :=
  if x.isNaN then "NaN"
  else
    let size :=
      if x.isInfinite then "inf".toList
      else if x.isZero then ['0']
      else x.shortest.positional
    String.ofList (if x.isNegative then '-' :: size else size)

end Binary64

end UserManagedAccess
