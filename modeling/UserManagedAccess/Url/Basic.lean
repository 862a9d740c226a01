import UserManagedAccess.Number.Shortest

/-! Absolute URLs in normal form and their text. -/
namespace UserManagedAccess

/-- Why a text is no URL. -/
inductive UrlError where
  | relativeWithoutBase
  | relativeToOpaque
  | emptyHost
  | invalidPort
  | invalidIpv4
  | invalidIpv6
  | invalidHostCharacter
  | invalidDomain
  deriving DecidableEq, Repr

def UrlError.message : UrlError → String
  | .relativeWithoutBase => "relative URL without a base"
  | .relativeToOpaque => "relative URL with a cannot-be-a-base base"
  | .emptyHost => "empty host"
  | .invalidPort => "invalid port number"
  | .invalidIpv4 => "invalid IPv4 address"
  | .invalidIpv6 => "invalid IPv6 address"
  | .invalidHostCharacter => "invalid domain character"
  | .invalidDomain => "invalid international domain name"

namespace Url

/-- How a scheme is read: `file` and the other special schemes know `\` as a slash and always have
a path. -/
inductive SchemeKind where
  | file
  | special
  | plain
  deriving DecidableEq, Repr

def SchemeKind.of (scheme : String) : SchemeKind :=
  if scheme = "file" then .file
  else if ["http", "https", "ws", "wss", "ftp"].contains scheme then .special
  else .plain

def SchemeKind.isSpecial : SchemeKind → Bool
  | .plain => false
  | _ => true

/-- The port that a scheme uses when none is written. -/
def defaultPort (scheme : String) : Option Nat :=
  if scheme = "http" || scheme = "ws" then some 80
  else if scheme = "https" || scheme = "wss" then some 443
  else if scheme = "ftp" then some 21
  else none

inductive Host where
  /-- A name, in its ASCII form for special schemes. -/
  | name (text : List Char)
  | ipv4 (address : Nat)
  /-- Eight groups of sixteen bits. -/
  | ipv6 (groups : List Nat)
  deriving DecidableEq, Repr

structure Authority where
  username : List Char
  password : List Char
  host : Host
  port : Option Nat
  deriving DecidableEq, Repr

inductive Path where
  /-- A path without structure, as in `mailto:someone`. -/
  | verbatim (text : List Char)
  /-- The segments after the slashes that open them; none for an empty path. -/
  | segments (list : List (List Char))
  deriving DecidableEq, Repr

end Url

/-- A URL taken apart; every part is in the form in which it is written. -/
structure Url where
  scheme : List Char
  authority : Option Url.Authority
  path : Url.Path
  query : Option (List Char)
  fragment : Option (List Char)
  deriving DecidableEq, Repr

namespace Url

/-- The place and the length of the longest run of at least two zero groups; of runs of one length
the first counts. -/
def longestZeros (groups : List Nat) : Option (Nat × Nat) :=
  let runAt (i : Nat) : Nat := ((groups.drop i).takeWhile (· == 0)).length
  (List.range groups.length).foldl (fun best i =>
    let n := runAt i
    match best with
    | none => if 2 ≤ n then some (i, n) else none
    | some (_, m) => if m < n then some (i, n) else best) none

def hexGroup (n : Nat) : List Char := Nat.toDigits 16 n

def joinChars (separator : List Char) (parts : List (List Char)) : List Char :=
  separator.intercalate parts

/-- The longest run of zero groups is written as two colons. -/
def ipv6Chars (groups : List Nat) : List Char :=
  match longestZeros groups with
  | none => joinChars [':'] (groups.map hexGroup)
  | some (i, n) =>
    joinChars [':'] ((groups.take i).map hexGroup) ++ [':', ':'] ++
      joinChars [':'] ((groups.drop (i + n)).map hexGroup)

def ipv4Chars (address : Nat) : List Char :=
  joinChars ['.'] ([address / 0x1000000, address / 0x10000 % 256, address / 0x100 % 256,
    address % 256].map Decimal.digitsOf)

def Host.chars : Host → List Char
  | .name text => text
  | .ipv4 address => ipv4Chars address
  | .ipv6 groups => '[' :: ipv6Chars groups ++ [']']

def Authority.chars (a : Authority) : List Char :=
  let password := if a.password.isEmpty then [] else ':' :: a.password
  let credentials :=
    if a.username.isEmpty && a.password.isEmpty then [] else a.username ++ password ++ ['@']
  let port := match a.port with
    | none => []
    | some n => ':' :: Decimal.digitsOf n
  credentials ++ a.host.chars ++ port

def Path.chars : Path → List Char
  | .verbatim text => text
  | .segments list => list.flatMap ('/' :: ·)

/-- A path that starts with two slashes is set off by `/.` where no authority stands before it. -/
def Path.needsDot : Path → Bool
  | .segments ([] :: _ :: _) => true
  | _ => false

def chars (url : Url) : List Char :=
  let authority := match url.authority with
    | some a => '/' :: '/' :: a.chars
    | none => if url.path.needsDot then ['/', '.'] else []
  let query := match url.query with
    | none => []
    | some q => '?' :: q
  let fragment := match url.fragment with
    | none => []
    | some f => '#' :: f
  url.scheme ++ ':' :: authority ++ url.path.chars ++ query ++ fragment

/-- The normal form of the address. -/
def toText (url : Url) : String := String.ofList url.chars

end Url

end UserManagedAccess
