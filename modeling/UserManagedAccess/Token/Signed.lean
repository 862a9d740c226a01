import UserManagedAccess.Jose.Verification
import UserManagedAccess.Token.Basic
import UserManagedAccess.Token.KeyPair
import UserManagedAccess.Verifier.Signed

/-! Access tokens that carry what they grant, signed by the server. -/
namespace UserManagedAccess

/-- Makes signed tokens in the name of an issuer. -/
structure TokenSigner where
  keys : KeyPair
  issuer : String
  /-- The seconds that a token is good for. -/
  lifetime : Int
  deriving DecidableEq, Repr

namespace TokenSigner

/-- The payload of a token made at the given time. -/
def payload (signer : TokenSigner) (now : Nat) (id : String) (token : AccessToken) : Json :=
  .ofSome <|
    [("iss", some (.string signer.issuer)), ("aud", some (.string solidAudience)),
      ("iat", some (.ofNat now)), ("exp", some (.ofInt (now + signer.lifetime))),
      ("jti", some (.string id))] ++ token.members

def header (signer : TokenSigner) : Jose.Header := .signed .rs256 signer.keys.keyId

def mint (signer : TokenSigner) (now : Nat) (id : String) (token : AccessToken) :
    BearerToken :=
  let unsigned : Jose.Compact :=
    ⟨Jose.Compact.segment signer.header.toJson,
      Jose.Compact.segment (signer.payload now id token), ""⟩
  let signature := signer.keys.key.sign .sha256 (Text.Utf8.encode unsigned.message)
  ⟨{ unsigned with signature := Text.Base64Url.encode signature }.toText, bearer⟩

def expectation (signer : TokenSigner) : Jose.Expectation :=
  ⟨some signer.issuer, some solidAudience, []⟩

/-- Reads a token of this signer, if it is still good. -/
def read (signer : TokenSigner) (now : Nat) (text : String) : Except Error AccessToken := do
  let payload ← Jose.verify text signer.keys.verificationKey .rs256 signer.expectation now
  match Json.decodeWith AccessToken.decoder (.ofKeyMap payload) with
  | some token => return token
  | none => throw (.invalidCredential .malformedAccessToken)

end TokenSigner

end UserManagedAccess
