import UserManagedAccess.Url.Domain
import UserManagedAccess.Text.Percent

/-! Hosts: names and addresses. -/
namespace UserManagedAccess.Url

namespace Host

def isDigit (c : Char) : Bool := '0' ≤ c && c ≤ '9'

def hexValue? (c : Char) : Option Nat :=
  if isDigit c then some (c.toNat - 0x30)
  else if 'a' ≤ c && c ≤ 'f' then some (c.toNat - 0x57)
  else if 'A' ≤ c && c ≤ 'F' then some (c.toNat - 0x37)
  else none

/-- Digits to a base below seventeen; nothing if one is none. -/
def ofDigits? (base : Nat) (digits : List Char) : Option Nat :=
  digits.foldlM (fun n c =>
    match hexValue? c with
    | some d => if d < base then some (n * base + d) else none
    | none => none) 0

/-- A number in an address: hexadecimal after `0x`, octal after `0`, else decimal. -/
def ipv4Number? : List Char → Option Nat
  | [] => none
  | '0' :: 'x' :: digits => ofDigits? 16 digits
  | '0' :: 'X' :: digits => ofDigits? 16 digits
  | '0' :: d :: digits => ofDigits? 8 (d :: digits)
  | digits => ofDigits? 10 digits

/-- The parts between full stops; one stop at the end opens no part. -/
def ipv4Parts (name : List Char) : List (List Char) :=
  let parts := name.splitOnP (· == '.')
  if parts.getLast? == some [] then parts.dropLast else parts

/-- A name that ends in a number is an address or nothing. -/
def endsInNumber (name : List Char) : Bool :=
  match (ipv4Parts name).getLast? with
  | none => false
  | some last =>
    (!last.isEmpty && last.all isDigit) || (ipv4Number? last).isSome

/-- The last number fills the octets that the others leave. -/
def ipv4? (name : List Char) : Option Nat := do
  let parts := ipv4Parts name
  if 4 < parts.length then none
  let numbers ← parts.mapM ipv4Number?
  let last ← numbers.getLast?
  let front := numbers.dropLast
  if front.any (255 < ·) || Nat.pow 256 (4 - front.length) ≤ last then none
  else
    let high := front.foldl (fun n octet => n * 256 + octet) 0
    some (high * Nat.pow 256 (4 - front.length) + last)

/-- Four decimal octets at the end of an address, as two groups. -/
def embeddedIpv4? (text : List Char) : Option (List Nat) := do
  let parts := text.splitOnP (· == '.')
  if parts.length != 4 then none
  let octets ← parts.mapM fun part => do
    if part.isEmpty || (part.head? == some '0' && part.length != 1) then none
    let n ← ofDigits? 10 part
    if n ≤ 255 then some n else none
  match octets with
  | [a, b, c, d] => some [a * 256 + b, c * 256 + d]
  | _ => none

/-- One to four hexadecimal digits. -/
def group? (text : List Char) : Option Nat :=
  if text.isEmpty || 4 < text.length then none else ofDigits? 16 text

/-- Groups separated by single colons; the last may be written as four octets. -/
def groups? (text : List Char) : Option (List Nat) :=
  if text.isEmpty then some []
  else
    let parts := text.splitOnP (· == ':')
    match parts.getLast? with
    | none => some []
    | some last => do
      let front ← parts.dropLast.mapM group?
      let back ← if last.contains '.' then embeddedIpv4? last else (group? last).map ([·])
      return front ++ back

/-- The text before and after the first two adjacent colons. -/
def splitDoubleColon : List Char → Option (List Char × List Char)
  | ':' :: ':' :: rest => some ([], rest)
  | c :: rest => (splitDoubleColon rest).map fun (before, after) => (c :: before, after)
  | [] => none

/-- Eight groups, a run of zeros among them written as two colons at most once. -/
def ipv6? (text : List Char) : Option (List Nat) := do
  match splitDoubleColon text with
  | none =>
    let groups ← groups? text
    if groups.length = 8 then some groups else none
  | some (before, after) =>
    if before.contains '.' then none
    let front ← groups? before
    let back ← groups? after
    let n := front.length + back.length
    if n < 8 then some (front ++ List.replicate (8 - n) 0 ++ back) else none

def bracketed (text : List Char) : Except UrlError Host :=
  if text.getLast? == some ']' then
    match ipv6? (text.drop 1).dropLast with
    | some groups => .ok (.ipv6 groups)
    | none => .error .invalidIpv6
  else .error .invalidIpv6

/-- The host of a special scheme. -/
def parse [DomainRules] (text : List Char) : Except UrlError Host :=
  if text.head? == some '[' then bracketed text
  else
    match Text.Percent.decode (String.ofList text) with
    | .error _ => .error .invalidDomain
    | .ok decoded =>
      match DomainRules.toAscii? decoded.toList with
      | none => .error .invalidDomain
      | some domain =>
        if domain.isEmpty then .error .emptyHost
        else if endsInNumber domain then
          match ipv4? domain with
          | some address => .ok (.ipv4 address)
          | none => .error .invalidIpv4
        else .ok (.name domain)

def isForbidden (c : Char) : Bool :=
  ['\x00', '\t', '\n', '\r', ' ', '#', '/', ':', '<', '>', '?', '@', '[', '\x5C', ']', '^',
    '|'].contains c

/-- Control characters and all that is not ASCII. -/
def isControl (c : Char) : Bool := c.toNat < 0x20 || 0x7F ≤ c.toNat

/-- The host of another scheme. -/
def parseOpaque (text : List Char) : Except UrlError Host :=
  if text.head? == some '[' then bracketed text
  else if text.any isForbidden then .error .invalidHostCharacter
  else .ok (.name (Text.Percent.encode isControl text))

end Host

end UserManagedAccess.Url
