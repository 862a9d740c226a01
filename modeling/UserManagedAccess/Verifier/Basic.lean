import UserManagedAccess.Credential
import UserManagedAccess.Verifier.SelfAsserted
import UserManagedAccess.Verifier.Signed

/-! Verifiers turn credentials into claims, which they add to the claims that are already held. -/
namespace UserManagedAccess

inductive Verifier where
  | selfAsserted
  | jwt (options : JwtOptions)
  | oidc (trustedIssuers : List String)
  | accessToken
  /-- Asks the verifier for the format of a credential. -/
  | byFormat (verifiers : List (CredentialFormat × Verifier))
  deriving Inhabited

namespace Verifier

/-- A verifier for one format refuses credentials of the others. -/
def expecting {α : Type} (format : CredentialFormat) (credential : Credential)
    (m : Fetching α) : Fetching α :=
  if credential.format = format then m
  else Fetching.ofExcept (.error (.invalidCredential (.wrongFormat credential.format.uri)))

section
variable [Url.DomainRules]

mutual

/-- Adds what a credential proves to the claims held. -/
def verify (now : Nat) : Verifier → Credential → Claims → Fetching Claims
  | .selfAsserted, c, held =>
    expecting .unsecure c (Fetching.ofExcept (SelfAsserted.addClaims c.token held))
  | .jwt options, c, held => expecting .jwt c (options.addClaims c.token now held)
  | .oidc trusted, c, held => expecting .oidc c (IdToken.addClaims trusted c.token now held)
  | .accessToken, c, held => expecting .accessToken c (SourceToken.addClaims c.token now held)
  | .byFormat verifiers, c, held => verifyByFormat now verifiers c held

def verifyByFormat (now : Nat) :
    List (CredentialFormat × Verifier) → Credential → Claims → Fetching Claims
  | [], c, _ => Fetching.ofExcept (.error (.badRequest (.unsupportedFormat c.format.uri)))
  | (format, verifier) :: rest, c, held =>
    if c.format = format then verify now verifier c held else verifyByFormat now rest c held

end

end

/-- Whether there is somebody to ask about credentials of a format. -/
def supports : Verifier → CredentialFormat → Bool
  | .byFormat verifiers, format => verifiers.any (·.1 == format)
  | _, _ => true

/-- Gives a format a verifier; a verifier that it has is replaced. -/
def register (verifiers : List (CredentialFormat × Verifier)) (format : CredentialFormat)
    (verifier : Verifier) : List (CredentialFormat × Verifier) :=
  (format, verifier) :: verifiers.filter (·.1 != format)

end Verifier

end UserManagedAccess
