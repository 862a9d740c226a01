import UserManagedAccess.Server.Basic
import UserManagedAccess.Settings.Basic

/-! How settings and files make up a server. -/
namespace UserManagedAccess

inductive StartupError where
  | rulesFileRequired
  | unreadableKey (path : String)
  | failed (error : Error)
  deriving DecidableEq, Repr

def StartupError.message : StartupError → String
  | .rulesFileRequired => "policy.rules_file is required for the rules policy"
  | .unreadableKey path => s!"Cannot read signing key {path}"
  | .failed error => error.message

namespace Server

/-- Reads the key that the settings point to; if they point to none, a key is generated. -/
def loadKeys (settings : TokenSettings) (files : String → FileState)
    (generated : Except Error Crypto.Rsa.PrivateKey) : Except StartupError KeyPair :=
  match settings.signingKey with
  | none => (generated.map (KeyPair.mk settings.keyId)).mapError .failed
  | some path =>
    match files path with
    | .file _ (some pem) => (KeyPair.ofPem settings.keyId pem).mapError .failed
    | _ => .error (.unreadableKey path)

def policyOf (settings : PolicySettings) : Policy :=
  let base : Policy :=
    match settings.kind with
    | .all => .all
    | .namespaced => .namespaced settings.namespaces
    | .rules => .rules
    | .none => .none
  if settings.derivation then .derived base else base

/-- A verifier for every format that is switched on. -/
def verifierOf (settings : VerifierSettings) : Verifier :=
  let entry (enabled : Bool) (format : CredentialFormat) (verifier : Verifier) :
      List (CredentialFormat × Verifier) :=
    if enabled then [(format, verifier)] else []
  let jwt := settings.jwt
  .byFormat <|
    entry settings.unsecure .unsecure .selfAsserted ++
      entry settings.oidc .oidc (.oidc settings.trustedIssuers) ++
      entry settings.accessToken .accessToken .accessToken ++
      entry jwt.enabled .jwt (.jwt ⟨jwt.allowedClaims, jwt.errorOnExtraClaims, jwt.verify⟩)

/-- The server that the settings describe; it decides by striking out requirements. -/
def ofSettings (settings : Settings) (keys : KeyPair) : Server where
  baseUrl := settings.server.address
  policy := policyOf settings.policy
  strategy := .elimination
  verifier := verifierOf settings.verifiers
  keys := keys
  lifetime := settings.tokens.lifetime
  tokenForm := if settings.tokens.keptByServer then .kept else .signed

/-- The state that a server starts in; with the rules policy, the rules are read first. -/
def initialState (settings : PolicySettings) (files : String → FileState) :
    Except StartupError ServerState :=
  match settings.kind with
  | .rules =>
    match settings.rulesFile with
    | none => .error .rulesFileRequired
    | some path =>
      match RulesCache.load path (files path) with
      | .ok cache =>
        .ok { (∅ : ServerState) with rulesFile := files path, rulesCache := some cache }
      | .error e => .error (.failed e)
  | _ => .ok ∅

def start (settings : Settings) (files : String → FileState)
    (generated : Except Error Crypto.Rsa.PrivateKey) :
    Except StartupError (Server × ServerState) := do
  let keys ← loadKeys settings.tokens files generated
  let state ← initialState settings.policy files
  return (ofSettings settings keys, state)

end Server

end UserManagedAccess
