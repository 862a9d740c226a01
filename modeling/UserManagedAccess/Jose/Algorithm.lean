/-! Signature algorithms of signed tokens and the faults of such tokens. -/
namespace UserManagedAccess.Jose

inductive Hash where
  | sha256
  | sha384
  | sha512
  deriving DecidableEq, Repr

/-- How a signature is made: with a shared secret, with an RSA key and one of two paddings, or on a
curve. -/
inductive Family where
  | hmac
  | rsa
  | rsaPss
  | curve
  deriving DecidableEq, Repr

inductive Algorithm where
  | hs256
  | hs384
  | hs512
  | es256
  | es384
  | rs256
  | rs384
  | rs512
  | ps256
  | ps384
  | ps512
  | edDsa
  deriving DecidableEq, Repr, Inhabited

namespace Algorithm

/-- The name that a header or a key gives. -/
def name : Algorithm → String
  | .hs256 => "HS256"
  | .hs384 => "HS384"
  | .hs512 => "HS512"
  | .es256 => "ES256"
  | .es384 => "ES384"
  | .rs256 => "RS256"
  | .rs384 => "RS384"
  | .rs512 => "RS512"
  | .ps256 => "PS256"
  | .ps384 => "PS384"
  | .ps512 => "PS512"
  | .edDsa => "EdDSA"

def all : List Algorithm :=
  [.hs256, .hs384, .hs512, .es256, .es384, .rs256, .rs384, .rs512, .ps256, .ps384, .ps512, .edDsa]

def ofName? (name : String) : Option Algorithm :=
  all.find? (·.name == name)

def family : Algorithm → Family
  | .hs256 | .hs384 | .hs512 => .hmac
  | .rs256 | .rs384 | .rs512 => .rsa
  | .ps256 | .ps384 | .ps512 => .rsaPss
  | .es256 | .es384 | .edDsa => .curve

def hash : Algorithm → Hash
  | .hs256 | .es256 | .rs256 | .ps256 => .sha256
  | .hs384 | .es384 | .rs384 | .ps384 => .sha384
  | .hs512 | .rs512 | .ps512 | .edDsa => .sha512

end Algorithm

end UserManagedAccess.Jose
