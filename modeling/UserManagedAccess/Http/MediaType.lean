import UserManagedAccess.Text.Blank

/-! Names of media types, and which of them mean JSON. -/
namespace UserManagedAccess.Http

/-- A media type; the suffix is what follows the last plus sign of the subtype. -/
structure MediaType where
  type : List Char
  subtype : List Char
  suffix : Option (List Char)
  deriving DecidableEq, Repr

namespace MediaType

def isAlphanumeric (c : Char) : Bool :=
  ('0' ≤ c && c ≤ '9') || ('a' ≤ c && c ≤ 'z') || ('A' ≤ c && c ≤ 'Z')

def isToken (c : Char) : Bool :=
  isAlphanumeric c || "!#$%&\x27*+-.^_\x60|~".toList.contains c

/-- What may stand in the value of a header. -/
def isHeaderChar (c : Char) : Bool := c.toNat == 0x09 || (0x20 ≤ c.toNat && c.toNat < 0x7F)

mutual

/-- Whether the text after a semicolon is a list of parameters. -/
def areParameters : (fuel : Nat) → List Char → Bool
  | 0, _ => false
  | fuel + 1, text =>
    match text.dropWhile (· == ' ') with
    | [] => true
    | text =>
      let name := text.takeWhile fun c => isToken c && c ≠ '='
      match name, text.drop name.length with
      | _ :: _, '=' :: '\x22' :: rest => isQuoted fuel true rest
      | _ :: _, '=' :: rest =>
        let value := rest.takeWhile isToken
        match value, rest.drop value.length with
        | _, [] => true
        | _ :: _, ';' :: rest => areParameters fuel rest
        | _, _ => false
      | _, _ => false

/-- Whether the text goes on with the rest of a quoted value and further parameters. As the first
character of a value a quote stands for itself. -/
def isQuoted : (fuel : Nat) → (first : Bool) → List Char → Bool
  | 0, _, _ => false
  | fuel + 1, first, text =>
    match text with
    | [] => false
    | c :: rest =>
      if c = '\x22' && !first then
        match rest.dropWhile (· == ' ') with
        | [] => true
        | ';' :: rest => areParameters fuel rest
        | _ => false
      else if c = '\x5C' then
        match rest with
        | [] => false
        | c :: rest => isHeaderChar c && isQuoted fuel false rest
      else isHeaderChar c && isQuoted fuel false rest

end

/-- A subtype and its suffix. -/
def splitSuffix (name : List Char) : List Char × Option (List Char) :=
  let suffix := (name.reverse.takeWhile (· ≠ '+')).reverse
  let front := name.take (name.length - suffix.length - 1)
  if suffix.length = name.length || front.isEmpty then (name, none) else (front, some suffix)

/-- Reads a media type in lower case; its parameters have to make sense. -/
def parse? (text : String) : Option MediaType :=
  let chars := text.toList.map Char.toLower
  let type := chars.takeWhile isToken
  match type, chars.drop type.length with
  | _ :: _, '/' :: rest =>
    let name := rest.takeWhile isToken
    let (subtype, suffix) := splitSuffix name
    match name, rest.drop name.length with
    | _, [] => some ⟨type, subtype, suffix⟩
    | _ :: _, ';' :: parameters =>
      if areParameters (parameters.length + 1) parameters then some ⟨type, subtype, suffix⟩
      else none
    | _, _ => none
  | _, _ => none

def isJson (mediaType : MediaType) : Bool :=
  mediaType.type == "application".toList &&
    (mediaType.subtype == "json".toList || mediaType.suffix == some "json".toList)

/-- Whether a body of the named type is JSON. -/
def namesJson (contentType : Option String) : Bool :=
  ((contentType.bind parse?).map isJson).getD false

/-- Whether a body of the named type is a form. -/
def namesForm (contentType : Option String) : Bool :=
  contentType.any fun name =>
    name.toList.all isHeaderChar &&
      "application/x-www-form-urlencoded".toList.isPrefixOf name.toList

end MediaType

end UserManagedAccess.Http
