import UserManagedAccess.Number.Plain
import UserManagedAccess.Number.Word
import UserManagedAccess.Toml.Text

/-! Numbers in TOML: whole numbers of 64 bits, also with the bases two, eight and sixteen, and
doubles. Single underscores may stand between digits. -/
namespace UserManagedAccess.Toml

inductive Number where
  | whole (n : Int)
  | real (x : Binary64)
  deriving DecidableEq, Repr

/-- Whether underscores stand alone and between digits. -/
def isGrouped : List Char → Bool
  | [] => true
  | ['_'] => false
  | '_' :: '_' :: _ => false
  | _ :: rest => isGrouped rest

/-- The digits at the front of a text, without underscores, and what follows them. -/
def numeral? (isDigit : Char → Bool) (text : List Char) : Option (List Char × List Char) :=
  let inside (c : Char) : Bool := isDigit c || c = '_'
  let run := text.takeWhile inside
  if run.isEmpty || run.head? = some '_' || !isGrouped run then none
  else some (run.filter (· ≠ '_'), text.dropWhile inside)

def fits (n : Int) : Option Number :=
  if Word.fitsSigned n then some (.whole n) else none

/-- A whole number after the letter of its base. -/
def based? (base : Nat) (text : List Char) : Option Number :=
  let isDigit (c : Char) : Bool := (hexValue? c).any (· < base)
  match numeral? isDigit text with
  | some (digits, []) =>
    fits (digits.foldl (fun n c => n * base + (hexValue? c).getD 0) 0 : Nat)
  | _ => none

/-- An exponent, and nothing after it. -/
def exponent? : List Char → Option Int
  | [] => some 0
  | c :: rest =>
    if c = 'e' || c = 'E' then
      let (negative, rest) := Decimal.sign rest
      match numeral? Char.isDigit rest with
      | some (digits, []) =>
        let size : Int := Decimal.valueOf digits
        some (if negative then -size else size)
      | _ => none
    else none

/-- A whole number or a double after its sign. The digits before the point have no zero in front,
and a double beyond the greatest is none. -/
def decimal? (negative : Bool) (text : List Char) : Option Number :=
  match numeral? Char.isDigit text with
  | none => none
  | some (whole, rest) =>
    let real (fraction rest : List Char) : Option Number := do
      let x := Binary64.ofNumeral negative whole fraction (← exponent? rest)
      if x.isFinite then some (.real x) else none
    if whole.head? = some '0' && whole.length ≠ 1 then none
    else
      match rest with
      | [] => fits (if negative then -(Decimal.valueOf whole : Int) else Decimal.valueOf whole)
      | '.' :: rest =>
        match numeral? Char.isDigit rest with
        | none => none
        | some (fraction, rest) => real fraction rest
      | rest => real [] rest

/-- A number. A plus may stand before all of it, a base or a minus included. -/
def number? (text : List Char) : Option Number :=
  let text := match text with
    | '+' :: rest => rest
    | text => text
  match text with
  | '0' :: 'x' :: rest => based? 16 rest
  | '0' :: 'o' :: rest => based? 8 rest
  | '0' :: 'b' :: rest => based? 2 rest
  | text =>
    let (negative, size) := match text with
      | '-' :: rest => (true, rest)
      | text => (false, text)
    if size = "inf".toList then some (.real (Binary64.infinity negative))
    else if size = "nan".toList then some (.real Binary64.notANumber)
    else decimal? negative size

end UserManagedAccess.Toml
