import UserManagedAccess.Credential
import UserManagedAccess.Permission
import UserManagedAccess.Requirement

/-! The messages of one round of negotiation. -/
namespace UserManagedAccess

/-- A token and the name of its format, either of which a request may lack. -/
structure ClaimToken where
  token : Option String
  format : Option String
  deriving DecidableEq, Repr

namespace ClaimToken

def toJson (pair : ClaimToken) : Json :=
  .ofMembers [("claim_token", .ofOption .string pair.token),
    ("claim_token_format", .ofOption .string pair.format)]

def decoder : Json.Decoder ClaimToken :=
  (ClaimToken.mk <$> .optional "claim_token" .string
    <*> .optional "claim_token_format" .string : Json.RecordDecoder ClaimToken).decode

/-- Whether the pair says nothing. -/
def isAbsent (pair : ClaimToken) : Bool := pair.token.isNone && pair.format.isNone

/-- The credential that a pair stands for: it has both parts, and the format is known. -/
def credential (pair : ClaimToken) : Except Error Credential :=
  match pair.token, pair.format with
  | none, _ => .error (.badRequest .formatWithoutToken)
  | some _, none => .error (.badRequest .tokenWithoutFormat)
  | some token, some uri =>
    match CredentialFormat.ofUri? uri with
    | some format => .ok ⟨token, format⟩
    | none => .error (.badRequest (.unsupportedFormat uri))

end ClaimToken

/-- A request for a token: it resumes a ticket or asks for permissions, may ask for further scopes
and may push credentials. -/
structure TokenRequest where
  grantType : Option String
  ticket : Option String
  permissions : Option (List Permission)
  scope : Option String
  claimToken : Option String
  claimTokenFormat : Option String
  claimTokens : Option (List ClaimToken)
  deriving DecidableEq, Repr

namespace TokenRequest

def toJson (request : TokenRequest) : Json :=
  .ofMembers [("grant_type", .ofOption .string request.grantType),
    ("ticket", .ofOption .string request.ticket),
    ("permissions", .ofOption Permission.listToJson request.permissions),
    ("scope", .ofOption .string request.scope),
    ("claim_token", .ofOption .string request.claimToken),
    ("claim_token_format", .ofOption .string request.claimTokenFormat),
    ("claim_tokens", .ofOption (fun pairs => .array (pairs.map ClaimToken.toJson))
      request.claimTokens)]

def decoder : Json.Decoder TokenRequest :=
  (TokenRequest.mk <$> .optional "grant_type" .string
    <*> .optional "ticket" .string
    <*> .optional "permissions" Permission.listDecoder
    <*> .optional "scope" .string
    <*> .optional "claim_token" .string
    <*> .optional "claim_token_format" .string
    <*> .optional "claim_tokens" (.list ClaimToken.decoder) : Json.RecordDecoder TokenRequest).decode

/-- Either a ticket that is not blank or permissions that are valid. -/
def validate (request : TokenRequest) : Except Error Unit :=
  match request.ticket, request.permissions with
  | some _, some _ => .error (.badRequest .ticketAndPermissions)
  | none, none => .error (.badRequest .neitherTicketNorPermissions)
  | some ticket, none =>
    if Text.isBlank ticket then .error (.badRequest .blankTicket) else .ok ()
  | none, some permissions => Permission.validateAll permissions

/-- The scopes that are asked for on top of those of the permissions. -/
def scopeWords (request : TokenRequest) : List String :=
  (request.scope.map Text.words).getD []

/-- The pairs that say something, the single one first. -/
def claimTokenPairs (request : TokenRequest) : List ClaimToken :=
  (⟨request.claimToken, request.claimTokenFormat⟩ :: request.claimTokens.getD []).filter
    fun pair => !pair.isAbsent

def credentials (request : TokenRequest) : Except Error (List Credential) :=
  request.claimTokenPairs.mapM ClaimToken.credential

end TokenRequest

/-- A granted token. -/
structure Grant where
  accessToken : String
  tokenType : String
  /-- The resource that stands for reading what will be derived with this token. -/
  derivationResource : Option String
  deriving DecidableEq, Repr

namespace Grant

def toJson (grant : Grant) : Json :=
  .ofSome [("access_token", some (.string grant.accessToken)),
    ("token_type", some (.string grant.tokenType)),
    ("derivation_resource_id", grant.derivationResource.map .string)]

def decoder : Json.Decoder Grant :=
  (Grant.mk <$> .required "access_token" .string
    <*> .required "token_type" .string
    <*> .optional "derivation_resource_id" .string : Json.RecordDecoder Grant).decode

end Grant

/-- The resource at another server that has to be readable. -/
structure SourceDetails where
  issuer : String
  resource : String
  scopes : List String
  deriving DecidableEq, Repr

namespace SourceDetails

def toJson (details : SourceDetails) : Json :=
  .ofMembers [("issuer", .string details.issuer), ("resource_id", .string details.resource),
    ("resource_scopes", .strings details.scopes)]

def decoder : Json.Decoder SourceDetails :=
  (SourceDetails.mk <$> .required "issuer" .string
    <*> .required "resource_id" .string
    <*> .required "resource_scopes" (.list .string) : Json.RecordDecoder SourceDetails).decode

end SourceDetails

/-- A hint at a claim that is still missing. -/
inductive WantedClaim where
  | source (name friendlyName format : String) (details : SourceDetails)
  | claim (format : String)
  deriving DecidableEq, Repr

namespace WantedClaim

/-- The hint at the right to read a derivation handle. -/
def ofSource (issuer derivationId : String) : WantedClaim :=
  .source ClaimName.sourceAccess "Prove access to source" CredentialFormat.accessToken.uri
    ⟨issuer, derivationId, [Scope.derivationRead]⟩

def sourceDetails? : WantedClaim → Option SourceDetails
  | .source _ _ _ details => some details
  | .claim _ => none

def toJson : WantedClaim → Json
  | .source name friendlyName format details =>
    .ofMembers [("name", .string name), ("friendly_name", .string friendlyName),
      ("claim_token_format", .string format), ("details", details.toJson)]
  | .claim format => .ofMembers [("claim_token_format", .string format)]

open Json

def sourceDecoder : Decoder WantedClaim :=
  (WantedClaim.source <$> .required "name" .string
    <*> .required "friendly_name" .string
    <*> .required "claim_token_format" .string
    <*> .required "details" SourceDetails.decoder : RecordDecoder WantedClaim).decodeObject

def claimDecoder : Decoder WantedClaim :=
  (WantedClaim.claim <$> .required "claim_token_format" .string : RecordDecoder _).decodeObject

/-- What does not describe a source is read as the name of a claim. -/
def decoder : Decoder WantedClaim := .buffered fun d =>
  match sourceDecoder d with
  | .ok value => .ok value
  | .error _ => claimDecoder d

end WantedClaim

/-- The answer to a request that has not proven enough: a ticket to go on with and hints. -/
structure Demand where
  ticket : String
  wantedClaims : List WantedClaim
  deriving DecidableEq, Repr

namespace Demand

def toJson (demand : Demand) : Json :=
  .ofMembers [("ticket", .string demand.ticket),
    ("required_claims", .array (demand.wantedClaims.map WantedClaim.toJson))]

def decoder : Json.Decoder Demand :=
  (Demand.mk <$> .required "ticket" .string
    <*> .required "required_claims" (.list WantedClaim.decoder) : Json.RecordDecoder _).decode

end Demand

/-- How a round ends that is no error. -/
inductive Outcome where
  | granted (grant : Grant)
  | needInfo (demand : Demand)
  deriving DecidableEq, Repr

end UserManagedAccess
