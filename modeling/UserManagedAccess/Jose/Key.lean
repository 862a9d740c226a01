import UserManagedAccess.Crypto.Rsa
import UserManagedAccess.Error
import UserManagedAccess.Json.Decoder

/-! Published keys, and the choice of the key that a signature is checked with. -/
namespace UserManagedAccess.Jose

/-- What signatures are checked with. -/
inductive VerificationKey where
  | secret (bytes : List UInt8)
  | rsa (key : Crypto.Rsa.PublicKey)
  deriving DecidableEq, Repr

/-- Whether a key can be used with an algorithm at all. -/
def VerificationKey.fits (key : VerificationKey) (algorithm : Algorithm) : Bool :=
  match key, algorithm.family with
  | .secret _, .hmac => true
  | .rsa _, .rsa => true
  | .rsa _, .rsaPss => true
  | _, _ => false

/-- A published key; its numbers and its secret are base 64 texts. -/
structure Jwk where
  keyType : String
  keyId : Option String
  algorithm : Option String
  usage : Option String
  modulus : Option String
  exponent : Option String
  secret : Option String
  deriving DecidableEq, Repr

namespace Jwk

/-- The published form of an RSA key that tokens are signed with. -/
def ofPublicKey (keyId : String) (key : Crypto.Rsa.PublicKey) : Jwk where
  keyType := "RSA"
  keyId := some keyId
  algorithm := some Algorithm.rs256.name
  usage := some "sig"
  modulus := some (Text.Base64Url.encode key.modulus)
  exponent := some (Text.Base64Url.encode key.exponent)
  secret := none

/-- The type that a key must have for a family of algorithms; there are no keys for curves. -/
def typeFor? : Family → Option String
  | .hmac => some "oct"
  | .rsa | .rsaPss => some "RSA"
  | .curve => none

/-- Whether the key is meant to check signatures made with an algorithm. -/
def supports (key : Jwk) (algorithm : Algorithm) : Bool :=
  typeFor? algorithm.family == some key.keyType &&
    key.algorithm.all (Algorithm.ofName? · == some algorithm) &&
    key.usage.all (· == "sig")

/-- The octets of a key's number; a text with unused bits that are set is no number. -/
def numberBytes (text : String) : Except Error (List UInt8) :=
  (Text.Base64Url.decode .refused text).mapError (.invalidCredential <| .keyNotBase64 ·)

def verificationKey (key : Jwk) : Except Error VerificationKey :=
  if key.keyType = "RSA" then
    match key.modulus, key.exponent with
    | some n, some e => do
      let modulus ← numberBytes n
      let exponent ← numberBytes e
      return .rsa ⟨modulus, exponent⟩
    | _, _ => .error (.invalidCredential .incompleteRsaKey)
  else if key.keyType = "oct" then
    match key.secret with
    | some k =>
      match Text.Base64Url.decode .accepted k with
      | .ok bytes => .ok (.secret bytes)
      | .error cause => .error (.invalidCredential (.secretNotBase64 cause))
    | none => .error (.invalidCredential .missingSecret)
  else .error (.invalidCredential (.unsupportedKeyType key.keyType))

def toJson (key : Jwk) : Json :=
  .ofSome [("kty", some (.string key.keyType)), ("kid", key.keyId.map .string),
    ("alg", key.algorithm.map .string), ("use", key.usage.map .string),
    ("n", key.modulus.map .string), ("e", key.exponent.map .string),
    ("k", key.secret.map .string)]

def decoder : Json.Decoder Jwk :=
  (Jwk.mk <$> .required "kty" .string
    <*> .optional "kid" .string
    <*> .optional "alg" .string
    <*> .optional "use" .string
    <*> .optional "n" .string
    <*> .optional "e" .string
    <*> .optional "k" .string : Json.RecordDecoder Jwk).decode

end Jwk

/-- A published list of keys. -/
structure JwkSet where
  keys : List Jwk
  deriving DecidableEq, Repr

namespace JwkSet

/-- The first key that goes by the given name, if one is given, and supports the algorithm. -/
def find? (set : JwkSet) (keyId : Option String) (algorithm : Algorithm) : Option Jwk :=
  set.keys.find? fun key => keyId.all (key.keyId == some ·) && key.supports algorithm

def matchingKey (set : JwkSet) (keyId : Option String) (algorithm : Algorithm) :
    Except Error VerificationKey :=
  match set.find? keyId algorithm with
  | some key => key.verificationKey
  | none => .error (.invalidCredential (.noKey (keyId.getD "") algorithm))

def toJson (set : JwkSet) : Json := .ofMembers [("keys", .array (set.keys.map Jwk.toJson))]

def decoder : Json.Decoder JwkSet :=
  (JwkSet.mk <$> .required "keys" (.list Jwk.decoder) : Json.RecordDecoder JwkSet).decode

end JwkSet

end UserManagedAccess.Jose
