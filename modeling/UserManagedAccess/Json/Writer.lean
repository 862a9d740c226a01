import UserManagedAccess.Json.Basic
import UserManagedAccess.Number.Shortest

/-! JSON values as text, without blank space. -/
namespace UserManagedAccess.Json

/-- A double has at least one digit after its point. Up to sixteen places before the point and five
zeros after it are written out, other sizes take an exponent. -/
def realChars (x : Binary64) : List Char :=
  let sign := if x.isNegative then ['-'] else []
  if x.isZero then sign ++ ['0', '.', '0']
  else
    let d := x.shortest
    if -5 < d.point && d.point ≤ 16 then
      let text := d.positional
      sign ++ if text.contains '.' then text else text ++ ['.', '0']
    else
      let mantissa := match d.digits with
        | [digit] => [digit]
        | digit :: rest => digit :: '.' :: rest
        | [] => []
      sign ++ mantissa ++ 'e' :: Decimal.ofInt (d.point - 1)

def numberChars : JsonNumber → List Char
  | .whole n => Decimal.ofInt n
  | .real x => realChars x

def hexDigit (n : Nat) : Char :=
  if n < 10 then Char.ofNat (0x30 + n) else Char.ofNat (0x57 + n)

/-- Quotes, backslashes and control characters are escaped, all else stands for itself. -/
def escapedChar (c : Char) : List Char :=
  if c = '\x22' then ['\x5C', '\x22']
  else if c = '\x5C' then ['\x5C', '\x5C']
  else if c = '\n' then ['\x5C', 'n']
  else if c = '\r' then ['\x5C', 'r']
  else if c = '\t' then ['\x5C', 't']
  else if c.toNat = 0x08 then ['\x5C', 'b']
  else if c.toNat = 0x0C then ['\x5C', 'f']
  else if c.toNat < 0x20 then
    ['\x5C', 'u', '0', '0', hexDigit (c.toNat / 16), hexDigit (c.toNat % 16)]
  else [c]

def stringChars (s : String) : List Char :=
  '\x22' :: s.toList.flatMap escapedChar ++ ['\x22']

mutual

/-- A value as text. -/
def chars : Json → List Char
  | .null => ['n', 'u', 'l', 'l']
  | .bool true => ['t', 'r', 'u', 'e']
  | .bool false => ['f', 'a', 'l', 's', 'e']
  | .number n => numberChars n
  | .string s => stringChars s
  | .array items => '[' :: itemChars items ++ [']']
  | .object members => '\x7b' :: memberChars members ++ ['\x7d']

def itemChars : List Json → List Char
  | [] => []
  | [item] => chars item
  | item :: rest => chars item ++ ',' :: itemChars rest

def memberChars : List (String × Json) → List Char
  | [] => []
  | [(name, value)] => stringChars name ++ ':' :: chars value
  | (name, value) :: rest => stringChars name ++ ':' :: chars value ++ ',' :: memberChars rest

end

def toText (value : Json) : String := String.ofList (chars value)

end UserManagedAccess.Json
