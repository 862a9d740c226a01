import UserManagedAccess.Claim
import UserManagedAccess.Discovery
import UserManagedAccess.Jose.Verification
import UserManagedAccess.Permission

/-! Credentials that an issuer has signed. Whom the issuer is trusted with differs by kind. -/
namespace UserManagedAccess
variable [Url.DomainRules]

/-- The audience of every token between servers and applications. -/
def solidAudience : String := "solid"

namespace SignedToken

/-- Where the issuer of a token publishes its keys. -/
def issuerKeys : SignedToken → String → Fetching Jose.JwkSet
  | .jwt => Discovery.wellKnownKeys
  | .idToken => Discovery.openIdKeys
  | .accessToken => Discovery.umaKeys

def expectation : SignedToken → String → Jose.Expectation
  | .jwt, _ => ⟨none, none, []⟩
  | .idToken, issuer => ⟨some issuer, some solidAudience, ["exp"]⟩
  | .accessToken, issuer => ⟨some issuer, some solidAudience, []⟩

/-- Whether the token has to name its key. -/
def needsKeyId : SignedToken → Bool
  | .jwt => true
  | .idToken | .accessToken => false

/-- The payload of a token that its own issuer has signed. -/
def verifiedPayload (kind : SignedToken) (token : String) (now : Nat) : Fetching Jose.Payload := do
  let payload ← Jose.readPayload token
  match payload.issuer? with
  | none => Fetching.ofExcept (.error (.invalidCredential (.issuerMissing kind)))
  | some issuer =>
    let header ← Jose.readHeader token
    if kind.needsKeyId && header.keyId.isNone then
      Fetching.ofExcept (.error (.invalidCredential .keyIdMissing))
    else
      let keys ← kind.issuerKeys issuer
      let key ← keys.matchingKey header.keyId header.algorithm
      Jose.verify token key header.algorithm (kind.expectation issuer) now

end SignedToken

/-! ## Tokens with claims of any kind -/

structure JwtOptions where
  allowedClaims : List String
  errorOnExtraClaims : Bool
  verify : Bool
  deriving DecidableEq, Repr

namespace JwtOptions

/-- Adds the claims that are let through to those held; others are an error or left out. -/
def addAllowed (options : JwtOptions) : List (String × Json) → Claims → Except Error Claims
  | [], held => .ok held
  | (name, value) :: rest, held =>
    if options.allowedClaims.contains name then addAllowed options rest (held.push name value)
    else if options.errorOnExtraClaims then
      .error (.invalidCredential (.claimNotAllowed name))
    else addAllowed options rest held

def addClaims (options : JwtOptions) (token : String) (now : Nat) (held : Claims) :
    Fetching Claims := do
  if options.verify then
    let _ ← (SignedToken.jwt.verifiedPayload token now).mapError (.whileVerifying .jwt)
  let payload ← Jose.readPayload token
  options.addAllowed payload.entries held

end JwtOptions

/-! ## Identities -/

namespace WebIdProfile

/-- Equality up to slashes at the end. -/
def equalIssuers (a b : String) : Bool := Text.dropTrailing '/' a == Text.dropTrailing '/' b

/-- The nodes of a document in one of the shapes that JSON-LD allows. -/
def nodes : Json → List Json
  | .array nodes => nodes
  | .object members =>
    match (Json.object members).member? "@graph" with
    | some (.array graph) => graph
    | _ => [.object members]
  | _ => []

/-- The names under which a node lists the issuers that speak for it. -/
def issuerNames : List String :=
  ["http://www.w3.org/ns/solid/terms#oidcIssuer", "solid:oidcIssuer", "oidcIssuer"]

/-- An address as a text or as the identifier of an object. -/
def address? : Json → Option String
  | .string address => some address
  | value => value.text? "@id"

/-- The values of a member, which may be a list. -/
def valuesOf : Json → List Json
  | .array values => values
  | value => [value]

/-- The issuers that a document lists for a WebID. -/
def issuers (profile : Json) (webid : String) : List String :=
  let own := (nodes profile).filter (·.text? "@id" == some webid)
  let listed := own.flatMap fun node => issuerNames.filterMap fun name => node.member? name
  (listed.flatMap valuesOf).filterMap address?

/-- The address of the document that describes a WebID. -/
def documentAddress (webid : String) : String :=
  String.ofList (webid.toList.takeWhile (· ≠ '#'))

end WebIdProfile

namespace IdToken

/-- The issuer is one that may speak for everybody, or one that the WebID's own document lists. -/
def checkIssuer (trusted : List String) (webid issuer : String) : Fetching Unit := do
  if trusted.any (WebIdProfile.equalIssuers · issuer) then return
  let profile ← Discovery.document (WebIdProfile.documentAddress webid)
  if (WebIdProfile.issuers profile webid).any (WebIdProfile.equalIssuers · issuer) then return
  Fetching.ofExcept (.error (.invalidCredential (.notAnIssuer issuer webid)))

/-- The application that a token was issued to; only where `client_id` is absent, `azp` counts. -/
def client? (payload : Jose.Payload) : Option String :=
  match payload.get? "client_id" with
  | some value => value.string?
  | none => (payload.get? "azp").bind Json.string?

/-- Whom a token names, if its issuer may speak for them, and the application. -/
def read (trusted : List String) (token : String) (now : Nat) :
    Fetching (String × Option String) := do
  let payload ← SignedToken.idToken.verifiedPayload token now
  match (payload.get? "webid").bind Json.string? with
  | none => Fetching.ofExcept (.error (.invalidCredential .webidMissing))
  | some webid =>
    checkIssuer trusted webid (payload.issuer?.getD "")
    return (webid, client? payload)

def addClaims (trusted : List String) (token : String) (now : Nat) (held : Claims) :
    Fetching Claims := do
  let (webid, client) ← (read trusted token now).mapError (.whileVerifying .idToken)
  let held := held.push ClaimName.webid (.string webid)
  match client with
  | some client => return held.push ClaimName.clientId (.string client)
  | none => return held

end IdToken

/-! ## Tokens of other authorization servers -/

namespace SourceToken

/-- A right to read a derivation handle: the handle, if the permission includes reading it. -/
def handle? (permission : Json) : Option String :=
  let scopes := ((permission.member? "resource_scopes").bind Json.array?).getD []
  if scopes.any (·.string? == some Scope.derivationRead) then permission.text? "resource_id"
  else none

/-- What a permission of an issuer proves. -/
def proof (issuer handle : String) : Json :=
  .ofMembers [("issuer", .string issuer), ("derivation_resource_id", .string handle)]

/-- One permission that is no right to read a handle spoils them all. -/
def proofs (issuer : String) (payload : Jose.Payload) : Except Error (List Json) :=
  match payload.get? "permissions" with
  | some (.array permissions) =>
    match permissions.mapM handle? with
    | some handles => .ok (handles.map (proof issuer))
    | none => .error (.invalidCredential .malformedPermissions)
  | _ => .ok []

/-- What the permissions of a token prove. -/
def read (token : String) (now : Nat) : Fetching (List Json) := do
  let payload ← SignedToken.accessToken.verifiedPayload token now
  proofs (payload.issuer?.getD "") payload

def addClaims (token : String) (now : Nat) (held : Claims) : Fetching Claims := do
  let proofs ← (read token now).mapError (.whileVerifying .accessToken)
  return proofs.foldl (fun held proof => held.push ClaimName.sourceAccess proof) held

end SourceToken

end UserManagedAccess
