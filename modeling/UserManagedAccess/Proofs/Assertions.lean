import UserManagedAccess.Proofs.Fetching
import UserManagedAccess.Verifier.Basic

/-! What a credential proves, apart from the claims that are held. Each verifier comes to what is
held with these pushed onto it, one after the other. -/
namespace UserManagedAccess

namespace Fetching
variable {α β : Type}

@[simp] theorem ofExcept_map (f : α → β) (result : Except Error α) :
    ofExcept (result.map f) = f <$> ofExcept result := by
  cases result <;> rfl

end Fetching

theorem Verifier.expecting_map {α β : Type} (format : CredentialFormat) (c : Credential)
    (f : α → β) (m : Fetching α) : expecting format c (f <$> m) = f <$> expecting format c m := by
  rw [expecting, expecting]
  split <;> rfl

/-- A person, and the application if there is one. -/
def identityClaims (webid : String) (client : Option String) : List (String × Json) :=
  (ClaimName.webid, .string webid) ::
    (client.map fun client => (ClaimName.clientId, Json.string client)).toList

namespace SelfAsserted

def assertions (token : String) : Except Error (List (String × Json)) := do
  let (webid, client) ← read token
  return identityClaims webid (client.filter (· ≠ ""))

theorem addClaims_eq (token : String) (held : Claims) :
    addClaims token held = (assertions token).map held.pushAll := by
  rw [addClaims, assertions]
  cases read token with
  | error e => rfl
  | ok identity =>
    obtain ⟨webid, client⟩ := identity
    simp only [bind, Except.bind]
    generalize client.filter (· ≠ "") = client
    cases client <;> rfl

end SelfAsserted

namespace JwtOptions
variable (options : JwtOptions)

/-- The claims that are let through; others are an error or left out. -/
def select : List (String × Json) → Except Error (List (String × Json))
  | [] => .ok []
  | (name, value) :: rest =>
    if options.allowedClaims.contains name then (select rest).map ((name, value) :: ·)
    else if options.errorOnExtraClaims then
      .error (.invalidCredential (.claimNotAllowed name))
    else select rest

/-- Claims that were added before one that is not allowed are lost with the error. -/
theorem addAllowed_eq (entries : List (String × Json)) (held : Claims) :
    options.addAllowed entries held = (options.select entries).map held.pushAll := by
  induction entries generalizing held with
  | nil => rfl
  | cons entry rest ih =>
    rw [addAllowed, select]
    split
    · rw [ih]
      cases options.select rest <;> rfl
    · split
      · rfl
      · exact ih held

end JwtOptions

section
variable [Url.DomainRules]

namespace JwtOptions
variable (options : JwtOptions) (token : String) (now : Nat)

def assertions : Fetching (List (String × Json)) := do
  if options.verify then
    let _ ← (SignedToken.jwt.verifiedPayload token now).mapError (.whileVerifying .jwt)
  let payload ← Jose.readPayload token
  options.select payload.entries

theorem addClaims_eq (held : Claims) :
    options.addClaims token now held = held.pushAll <$> options.assertions token now := by
  have hread (payload : Jose.Payload) : (liftM (options.addAllowed payload.entries held) :
      Fetching Claims) = held.pushAll <$> liftM (options.select payload.entries) := by
    rw [addAllowed_eq]
    exact Fetching.ofExcept_map ..
  rw [addClaims, assertions]
  split <;> simp only [map_bind, hread]

end JwtOptions

namespace IdToken
variable (trusted : List String) (token : String) (now : Nat)

def assertions : Fetching (List (String × Json)) := do
  let (webid, client) ← (read trusted token now).mapError (.whileVerifying .idToken)
  return identityClaims webid client

theorem addClaims_eq (held : Claims) :
    addClaims trusted token now held = held.pushAll <$> assertions trusted token now := by
  rw [addClaims, assertions, map_bind]
  refine bind_congr fun identity => ?_
  obtain ⟨webid, client⟩ := identity
  cases client <;> rfl

end IdToken

namespace SourceToken
variable (token : String) (now : Nat)

def assertions : Fetching (List (String × Json)) := do
  let proofs ← (read token now).mapError (.whileVerifying .accessToken)
  return proofs.map (ClaimName.sourceAccess, ·)

theorem addClaims_eq (held : Claims) :
    addClaims token now held = held.pushAll <$> assertions token now := by
  rw [addClaims, assertions, map_bind]
  refine bind_congr fun proofs => ?_
  rw [map_pure, Claims.pushAll, List.foldl_map]

end SourceToken

namespace Verifier

mutual

/-- What a credential proves: values of claims, in order. -/
def assertions (now : Nat) : Verifier → Credential → Fetching (List (String × Json))
  | .selfAsserted, c =>
    expecting .unsecure c (Fetching.ofExcept (SelfAsserted.assertions c.token))
  | .jwt options, c => expecting .jwt c (options.assertions c.token now)
  | .oidc trusted, c => expecting .oidc c (IdToken.assertions trusted c.token now)
  | .accessToken, c => expecting .accessToken c (SourceToken.assertions c.token now)
  | .byFormat verifiers, c => assertionsByFormat now verifiers c

def assertionsByFormat (now : Nat) :
    List (CredentialFormat × Verifier) → Credential → Fetching (List (String × Json))
  | [], c => Fetching.ofExcept (.error (.badRequest (.unsupportedFormat c.format.uri)))
  | (format, verifier) :: rest, c =>
    if c.format = format then assertions now verifier c else assertionsByFormat now rest c

end

variable (now : Nat) (c : Credential) (held : Claims)

mutual

theorem verify_eq : ∀ verifier : Verifier,
    verifier.verify now c held = held.pushAll <$> verifier.assertions now c
  | .selfAsserted => by
    rw [verify, assertions, SelfAsserted.addClaims_eq, Fetching.ofExcept_map, expecting_map]
  | .jwt options => by
    rw [verify, assertions, JwtOptions.addClaims_eq, expecting_map]
  | .oidc trusted => by
    rw [verify, assertions, IdToken.addClaims_eq, expecting_map]
  | .accessToken => by
    rw [verify, assertions, SourceToken.addClaims_eq, expecting_map]
  | .byFormat verifiers => by
    rw [verify, assertions]
    exact verifyByFormat_eq verifiers

theorem verifyByFormat_eq : ∀ verifiers : List (CredentialFormat × Verifier),
    verifyByFormat now verifiers c held = held.pushAll <$> assertionsByFormat now verifiers c
  | [] => by
    rw [verifyByFormat, assertionsByFormat]
    rfl
  | (format, verifier) :: rest => by
    rw [verifyByFormat, assertionsByFormat, verify_eq verifier, verifyByFormat_eq rest]
    split <;> rfl

end

/-- A verifier asks for the same documents whatever is held. -/
theorem verify_apply (verifier : Verifier) (fetcher : Fetcher) :
    verifier.verify now c held fetcher = ⟨(verifier.assertions now c fetcher).requested,
      (verifier.assertions now c fetcher).result.map held.pushAll⟩ := by
  rw [verify_eq, Fetching.map_apply]

variable {now c held}

/-- What a verifier comes to is what was held, and after it what it has found. -/
theorem verify_eq_ok_iff {v : Verifier} {claims : Claims} {fetcher : Fetcher} :
    (v.verify now c held fetcher).result = .ok claims ↔
      ∃ found, (v.assertions now c fetcher).result = .ok found ∧ claims = held.pushAll found := by
  rw [verify_apply]
  cases (v.assertions now c fetcher).result with
  | error e => simp [Except.map]
  | ok found => simp [Except.map, eq_comm]

end Verifier

end

end UserManagedAccess
