import UserManagedAccess.Number.Plain

/-! Dates and times in TOML. They are kept as text in one spelling: a capital `T` between date and
time, and no zeros at the end of a fraction. -/
namespace UserManagedAccess.Toml

/-- So many digits at the front of a text, within bounds. -/
def digits? (size low high : Nat) (text : List Char) : Option (List Char × List Char) :=
  match Decimal.nat? (text.take size) with
  | none => none
  | some n =>
    if (text.take size).length = size && low ≤ n && n ≤ high then
      some (text.take size, text.drop size)
    else none

def char? (c : Char) : List Char → Option (List Char)
  | d :: rest => if d = c then some rest else none
  | [] => none

/-- A date; that its month has so many days is not asked for. -/
def date? (text : List Char) : Option (List Char × List Char) := do
  let (year, rest) ← digits? 4 0 9999 text
  let rest ← char? '-' rest
  let (month, rest) ← digits? 2 1 12 rest
  let rest ← char? '-' rest
  let (day, rest) ← digits? 2 1 31 rest
  return (year ++ '-' :: month ++ '-' :: day, rest)

/-- A fraction of a second down to nanoseconds; further digits are dropped. -/
def fraction? : List Char → Option (List Char × List Char)
  | '.' :: rest =>
    let digits := rest.takeWhile Char.isDigit
    if digits.isEmpty then none
    else
      let kept := ((digits.take 9).reverse.dropWhile (· = '0')).reverse
      some (if kept.isEmpty then [] else '.' :: kept, rest.dropWhile Char.isDigit)
  | rest => some ([], rest)

/-- A time of day; the hour may be 24 and the second 60. -/
def time? (text : List Char) : Option (List Char × List Char) := do
  let (hour, rest) ← digits? 2 0 24 text
  let rest ← char? ':' rest
  let (minute, rest) ← digits? 2 0 59 rest
  let rest ← char? ':' rest
  let (second, rest) ← digits? 2 0 60 rest
  let (fraction, rest) ← fraction? rest
  return (hour ++ ':' :: minute ++ ':' :: second ++ fraction, rest)

/-- The distance from universal time at the end of a text; less than an hour has no minus. -/
def offset? : List Char → Option (List Char)
  | [] => some []
  | c :: rest =>
    if rest.isEmpty && (c = 'Z' || c = 'z') then some ['Z']
    else if c = '+' || c = '-' then do
      let (hours, rest) ← digits? 2 0 99 rest
      let rest ← char? ':' rest
      let (minutes, rest) ← digits? 2 0 99 rest
      if rest.isEmpty then
        some ((if hours = ['0', '0'] then '+' else c) :: hours ++ ':' :: minutes)
      else none
    else none

/-- A date, a time of day, or both and perhaps a distance from universal time. -/
def moment? (text : List Char) : Option (List Char) :=
  match date? text with
  | none =>
    match time? text with
    | some (time, []) => some time
    | _ => none
  | some (date, []) => some date
  | some (date, c :: rest) =>
    if c = 'T' || c = 't' || c = ' ' then do
      let (time, rest) ← time? rest
      return date ++ 'T' :: time ++ (← offset? rest)
    else none

end UserManagedAccess.Toml
