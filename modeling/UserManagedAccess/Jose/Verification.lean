import UserManagedAccess.Jose.Compact
import UserManagedAccess.Jose.Key
import UserManagedAccess.Jose.RegisteredClaims

/-! The check of a signed token. -/
namespace UserManagedAccess.Jose

/-- What a token has to say besides being signed. -/
structure Expectation where
  issuer : Option String
  audience : Option String
  /-- Claims that must not be missing. -/
  required : List String
  deriving DecidableEq, Repr

/-- The seconds by which clocks may differ. -/
def leeway : Nat := 60

/-- Whether the signature of a token was made with a key. -/
def Compact.isSignedBy (token : Compact) (key : VerificationKey) (algorithm : Algorithm) :
    Except TokenFault Bool :=
  let message := Text.Utf8.encode token.message
  match key, algorithm.family with
  | .secret secret, .hmac =>
    .ok (token.signature == Text.Base64Url.encode (algorithm.hash.mac secret message))
  | .rsa key, .rsa => do
    let signature ← (Text.Base64Url.decode .refused token.signature).mapError .notBase64
    return key.verifyPkcs1 algorithm.hash message signature
  | .rsa key, .rsaPss => do
    let signature ← (Text.Base64Url.decode .refused token.signature).mapError .notBase64
    return key.verifyPss algorithm.hash message signature
  | _, _ => .ok false

namespace RegisteredClaims

/-- A claim that is there has to name what is expected. -/
def names (expected : Option String) (found : Option (List String)) : Bool :=
  expected.all fun wanted => found.all (·.contains wanted)

def check (claims : RegisteredClaims) (expected : Expectation) (now : Nat) :
    Except TokenFault Unit :=
  match expected.required.find? claims.lacks with
  | some name => .error (.missingClaim name)
  | none =>
    if claims.expires.any (· + leeway < now) then .error .expired
    else if claims.notBefore.any (now + leeway < ·) then .error .notYetValid
    else if !names expected.issuer claims.issuers then .error .wrongIssuer
    else if !names expected.audience claims.audiences then .error .wrongAudience
    else .ok ()

end RegisteredClaims

/-- Checks that a token was signed with the key and the algorithm, and that its claims are as
expected at the given time. -/
def check (text : String) (key : VerificationKey) (algorithm : Algorithm)
    (expected : Expectation) (now : Nat) : Except TokenFault Payload := do
  if !key.fits algorithm then throw .wrongAlgorithm
  let some token := Compact.ofText? text | throw .malformed
  let header ← Header.ofSegment token.header
  if header.algorithm ≠ algorithm then throw .wrongAlgorithm
  if !(← token.isSignedBy key algorithm) then throw .badSignature
  let bytes ← (Text.Base64Url.decode .refused token.payload).mapError .notBase64
  let document := Json.Document.ofBytes bytes
  let payload ← (Json.Decoder.keyMap .json document).mapError fun _ => .notJson
  let some claims := RegisteredClaims.ofDocument? document | throw .notJson
  claims.check expected now
  return payload

/-- `check`, its faults as those of a credential. -/
def verify (text : String) (key : VerificationKey) (algorithm : Algorithm)
    (expected : Expectation) (now : Nat) : Except Error Payload :=
  (check text key algorithm expected now).mapError (.invalidCredential <| .rejected ·)

end UserManagedAccess.Jose
