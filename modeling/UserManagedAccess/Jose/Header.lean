import UserManagedAccess.Error
import UserManagedAccess.Json.Decoder

/-! Headers of signed tokens. A header may hold a key, which nobody trusts: it only has to be one. -/
namespace UserManagedAccess.Jose

/-! ## Keys in headers -/

inductive Curve where
  | p256
  | p384
  | p521
  | ed25519
  deriving DecidableEq, Repr

namespace Curve

def name : Curve → String
  | .p256 => "P-256"
  | .p384 => "P-384"
  | .p521 => "P-521"
  | .ed25519 => "Ed25519"

def ofName? (name : String) : Option Curve :=
  [.p256, .p384, .p521, .ed25519].find? (Curve.name · == name)

end Curve

inductive KeyType where
  | curve
  | rsa
  | octets
  | octetPair
  deriving DecidableEq, Repr

namespace KeyType

def name : KeyType → String
  | .curve => "EC"
  | .rsa => "RSA"
  | .octets => "oct"
  | .octetPair => "OKP"

def ofName? (name : String) : Option KeyType :=
  [.curve, .rsa, .octets, .octetPair].find? (KeyType.name · == name)

end KeyType

/-- The numbers of a key, as texts that are not looked into. -/
inductive KeyMaterial where
  | curve (crv : Curve) (x y : String)
  | rsa (modulus exponent : String)
  | octets (secret : String)
  | octetPair (crv : Curve) (x : String)
  deriving DecidableEq, Repr

open Json

namespace KeyMaterial

def type : KeyMaterial → KeyType
  | .curve .. => .curve
  | .rsa .. => .rsa
  | .octets .. => .octets
  | .octetPair .. => .octetPair

def members (material : KeyMaterial) : List (String × Option Json) :=
  ("kty", some (.string material.type.name)) ::
    match material with
    | .curve crv x y =>
      [("crv", some (.string crv.name)), ("x", some (.string x)), ("y", some (.string y))]
    | .rsa modulus exponent => [("n", some (.string modulus)), ("e", some (.string exponent))]
    | .octets secret => [("k", some (.string secret))]
    | .octetPair crv x => [("crv", some (.string crv.name)), ("x", some (.string x))]

def typeDecoder : RecordDecoder KeyType := id <$> .required "kty" (.word KeyType.ofName?)

/-- The members that a key of a type needs. -/
def decoderOf : KeyType → RecordDecoder KeyMaterial
  | .curve => KeyMaterial.curve <$> .required "crv" (.word Curve.ofName?) <*> .required "x" .string
    <*> .required "y" .string
  | .rsa => KeyMaterial.rsa <$> .required "n" .string <*> .required "e" .string
  | .octets => KeyMaterial.octets <$> .required "k" .string
  | .octetPair => KeyMaterial.octetPair <$> .required "crv" (.word Curve.ofName?)
    <*> .required "x" .string

def decoder : Decoder KeyMaterial := fun d => do
  let type ← typeDecoder.decodeObject d
  (decoderOf type).decodeObject d

end KeyMaterial

/-- The key of a token, as the token itself gives it. -/
structure HeaderKey where
  usage : Option String
  operations : Option (List String)
  algorithm : Option Algorithm
  keyId : Option String
  certificateUrl : Option String
  certificates : Option (List String)
  thumbprint : Option String
  thumbprint256 : Option String
  material : KeyMaterial
  deriving DecidableEq, Repr

namespace HeaderKey

def members (key : HeaderKey) : List (String × Option Json) :=
  [("use", key.usage.map .string), ("key_ops", key.operations.map .strings),
    ("alg", key.algorithm.map fun algorithm => .string algorithm.name),
    ("kid", key.keyId.map .string), ("x5u", key.certificateUrl.map .string),
    ("x5c", key.certificates.map .strings), ("x5t", key.thumbprint.map .string),
    ("x5t#S256", key.thumbprint256.map .string)] ++ key.material.members

def toJson (key : HeaderKey) : Json := .ofSome key.members

def commonDecoder : RecordDecoder (KeyMaterial → HeaderKey) :=
  HeaderKey.mk <$> .nullable "use" .string
    <*> .nullable "key_ops" (.list .string)
    <*> .nullable "alg" (.word Algorithm.ofName?)
    <*> .nullable "kid" .string
    <*> .nullable "x5u" .string
    <*> .nullable "x5c" (.list .string)
    <*> .nullable "x5t" .string
    <*> .nullable "x5t#S256" .string

/-- A key is read whole before its members are looked at. -/
def decoder : Decoder HeaderKey := .buffered fun d => do
  let make ← commonDecoder.decodeObject d
  let material ← KeyMaterial.decoder d
  return make material

end HeaderKey

/-! ## Headers -/

structure Header where
  type : Option String
  algorithm : Algorithm
  contentType : Option String
  keySetUrl : Option String
  key : Option HeaderKey
  keyId : Option String
  certificateUrl : Option String
  certificates : Option (List String)
  thumbprint : Option String
  thumbprint256 : Option String

namespace Header

/-- The header of a token signed by the owner of a key. -/
def signed (algorithm : Algorithm) (keyId : String) : Header :=
  ⟨some "JWT", algorithm, none, none, none, some keyId, none, none, none, none⟩

def toJson (header : Header) : Json :=
  .ofSome [("typ", header.type.map .string), ("alg", some (.string header.algorithm.name)),
    ("cty", header.contentType.map .string), ("jku", header.keySetUrl.map .string),
    ("jwk", header.key.map HeaderKey.toJson), ("kid", header.keyId.map .string),
    ("x5u", header.certificateUrl.map .string), ("x5c", header.certificates.map .strings),
    ("x5t", header.thumbprint.map .string), ("x5t#S256", header.thumbprint256.map .string)]

def decoder : Decoder Header :=
  (Header.mk <$> .nullable "typ" .string
    <*> .required "alg" (.word Algorithm.ofName?)
    <*> .nullable "cty" .string
    <*> .nullable "jku" .string
    <*> .nullable "jwk" HeaderKey.decoder
    <*> .nullable "kid" .string
    <*> .nullable "x5u" .string
    <*> .nullable "x5c" (.list .string)
    <*> .nullable "x5t" .string
    <*> .nullable "x5t#S256" .string : RecordDecoder Header).decode

/-- Reads the first segment of a token. -/
def ofSegment (segment : String) : Except TokenFault Header :=
  match Text.Base64Url.decode .refused segment with
  | .error cause => .error (.notBase64 cause)
  | .ok bytes => (decoder (Document.ofBytes bytes)).mapError fun _ => .notJson

end Header

end UserManagedAccess.Jose
