import UserManagedAccess.Crypto.Der
import UserManagedAccess.Jose.Key

/-! The key pair of the server. -/
namespace UserManagedAccess

/-- A private key and the id that its public key is published under. -/
structure KeyPair where
  keyId : String
  key : Crypto.Rsa.PrivateKey
  deriving DecidableEq, Repr

namespace KeyPair

def ofPem (keyId pem : String) : Except Error KeyPair :=
  match Crypto.Rsa.PrivateKey.ofPem? pem with
  | some key => .ok ⟨keyId, key⟩
  | none => .error (.config .invalidPrivateKey)

/-- What signatures of the server are checked with. -/
def verificationKey (keys : KeyPair) : Jose.VerificationKey := .rsa keys.key.publicKey

def publicKey (keys : KeyPair) : Jose.Jwk := .ofPublicKey keys.keyId keys.key.publicKey

/-- The key set that the server publishes. -/
def published (keys : KeyPair) : Jose.JwkSet := ⟨[keys.publicKey]⟩

end KeyPair

end UserManagedAccess
