import UserManagedAccess.Text.Base64Url

/-! PEM: bytes as base 64 text between two labelled lines. -/
namespace UserManagedAccess.Crypto

structure Pem where
  label : String
  content : List UInt8
  deriving DecidableEq, Repr

namespace Pem

def beginMark : List Char := "-----BEGIN ".toList
def endMark : List Char := "-----END ".toList
def dashes : List Char := "-----".toList

/-- The rest of a text after a mark. -/
def after? (mark text : List Char) : Option (List Char) :=
  if mark.isPrefixOf text then some (text.drop mark.length) else none

/-- The part of a text before a mark that it ends in. -/
def before? (mark text : List Char) : Option (List Char) :=
  if mark.isSuffixOf text then some (text.take (text.length - mark.length)) else none

/-- The text from the opening line on; lines of other text may come first. -/
def skipPreamble : (lineStart : Bool) → List Char → Option (List Char)
  | lineStart, text =>
    match text with
    | [] => none
    | c :: rest =>
      if lineStart && beginMark.isPrefixOf text then after? beginMark text
      else if c = '\x00' then none
      else skipPreamble (c == '\n') rest

/-- A label: words of capital letters, digits and other signs, with single spaces between. -/
def label? : (spaced : Bool) → (read : List Char) → List Char → Option (List Char × List Char)
  | _, _, [] => none
  | spaced, read, c :: rest =>
    if c = '-' then some (read.reverse, c :: rest)
    else if c = ' ' then
      if read.isEmpty || spaced then none else label? true (c :: read) rest
    else if 0x21 ≤ c.toNat && c.toNat ≤ 0x7E then label? false (c :: read) rest
    else none

def trimLineStart : List Char → Option (List Char)
  | '\r' :: '\n' :: rest => some rest
  | '\n' :: rest => some rest
  | '\r' :: rest => some rest
  | _ => none

def trimLineEnd (text : List Char) : Option (List Char) :=
  match text.reverse with
  | '\n' :: '\r' :: rest => some rest.reverse
  | '\n' :: rest => some rest.reverse
  | '\r' :: rest => some rest.reverse
  | _ => none

/-- The characters of lines of 64, of which the last may be shorter. -/
def joinLines : (lines : Nat) → List Char → Option (List Char)
  | 0, _ => none
  | lines + 1, text =>
    if text.length ≤ 64 then some text
    else
      match trimLineStart (text.drop 64) with
      | none => none
      | some rest => (joinLines lines rest).map (text.take 64 ++ ·)

/-- The symbol of the URL-safe alphabet for one of the common alphabet. -/
def urlSafe? (c : Char) : Option Char :=
  if c = '+' then some '-'
  else if c = '/' then some '_'
  else if c = '-' || c = '_' then none
  else some c

def decodeBase64? (text : List Char) : Option (List UInt8) :=
  if text.length % 4 ≠ 0 then none
  else
    (text.mapM urlSafe?).bind fun symbols =>
      (Text.Base64Url.decode .accepted (String.ofList symbols)).toOption

def parse? (text : String) : Option Pem := do
  let text ← skipPreamble true text.toList
  let (label, rest) ← label? false [] text
  let body ← after? dashes rest
  let body ← trimLineStart body
  let body := (trimLineEnd body).getD body
  let body ← before? (endMark ++ label ++ dashes) body
  let body ← trimLineEnd body
  let content ← decodeBase64? (← joinLines (body.length + 1) body)
  return ⟨String.ofList label, content⟩

end Pem

end UserManagedAccess.Crypto
