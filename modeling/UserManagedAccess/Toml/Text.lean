/-! Texts in TOML: basic ones with escapes, literal ones without, each also over several lines. A
reader gets what follows the opening quotes and answers the text and what follows it. -/
namespace UserManagedAccess.Toml

/-- Tabs and all characters that are no control characters. -/
def isTextChar (c : Char) : Bool := c = '\t' || (' ' ≤ c && c ≠ '\x7F')

def isBlank (c : Char) : Bool := c = ' ' || c = '\t'

def skipBlanks (text : List Char) : List Char := text.dropWhile isBlank

def hexValue? (c : Char) : Option Nat :=
  if c.isDigit then some (c.toNat - '0'.toNat)
  else if 'a' ≤ c && c ≤ 'f' then some (c.toNat - 'a'.toNat + 10)
  else if 'A' ≤ c && c ≤ 'F' then some (c.toNat - 'A'.toNat + 10)
  else none

/-- The character with a code of so many hexadecimal digits. -/
def codedChar? (size : Nat) (text : List Char) : Option (Char × List Char) :=
  let digits := text.take size
  match digits.mapM hexValue? with
  | none => none
  | some values =>
    let code := values.foldl (fun n d => n * 16 + d) 0
    if digits.length = size && code.isValidChar then some (Char.ofNat code, text.drop size)
    else none

/-- The character that an escape stands for, after its backslash. -/
def escape? : List Char → Option (Char × List Char)
  | '\x22' :: rest => some ('\x22', rest)
  | '\x5C' :: rest => some ('\x5C', rest)
  | 'b' :: rest => some ('\x08', rest)
  | 'f' :: rest => some ('\x0C', rest)
  | 'n' :: rest => some ('\n', rest)
  | 'r' :: rest => some ('\r', rest)
  | 't' :: rest => some ('\t', rest)
  | 'u' :: rest => codedChar? 4 rest
  | 'U' :: rest => codedChar? 8 rest
  | _ => none

/-- What follows a backslash at the end of a line: the next line begins at its first character that
is not blank, and blank lines are passed over. -/
def continuation? (text : List Char) : Option (List Char) :=
  match skipBlanks text with
  | '\n' :: rest => some (rest.dropWhile fun c => isBlank c || c = '\n')
  | _ => none

/-- The rest of a text on one line. -/
def line? (quote : Char) (escapes : Bool) : (fuel : Nat) → List Char →
    Option (List Char × List Char)
  | 0, _ => none
  | _, [] => none
  | fuel + 1, c :: rest =>
    if c = quote then some ([], rest)
    else if escapes && c = '\x5C' then do
      let (c, rest) ← escape? rest
      let (text, rest) ← line? quote escapes fuel rest
      return (c :: text, rest)
    else if isTextChar c then do
      let (text, rest) ← line? quote escapes fuel rest
      return (c :: text, rest)
    else none

/-- The rest of a text over several lines. It ends with three quotes, and one or two more right
before them belong to the text. -/
def lines? (quote : Char) (escapes : Bool) : (fuel : Nat) → List Char →
    Option (List Char × List Char)
  | 0, _ => none
  | _, [] => none
  | fuel + 1, c :: rest =>
    if c = quote && rest.take 2 = [quote, quote] then
      let more := ((rest.drop 2).take 2).takeWhile (· = quote)
      some (more, (rest.drop 2).drop more.length)
    else if escapes && c = '\x5C' then
      match rest with
      | [] => none
      | d :: _ =>
        if isBlank d || d = '\n' then do
          lines? quote escapes fuel (← continuation? rest)
        else do
          let (c, rest) ← escape? rest
          let (text, rest) ← lines? quote escapes fuel rest
          return (c :: text, rest)
    else if c = '\n' || isTextChar c then do
      let (text, rest) ← lines? quote escapes fuel rest
      return (c :: text, rest)
    else none

/-- Whether a character opens a text. -/
def isQuote (c : Char) : Bool := c = '\x22' || c = '\''

/-- A text on one line after its opening quote. -/
def lineText? (quote : Char) (rest : List Char) : Option (String × List Char) :=
  (line? quote (quote = '\x22') (rest.length + 1) rest).map fun (text, rest) =>
    (String.ofList text, rest)

/-- A text after its first quote. A line end right after three quotes does not belong to it. -/
def text? (quote : Char) (rest : List Char) : Option (String × List Char) :=
  if rest.take 2 = [quote, quote] then
    let body := match rest.drop 2 with
      | '\n' :: body => body
      | body => body
    (lines? quote (quote = '\x22') (body.length + 1) body).map fun (text, rest) =>
      (String.ofList text, rest)
  else lineText? quote rest

end UserManagedAccess.Toml
