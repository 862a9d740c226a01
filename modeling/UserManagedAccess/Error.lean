import UserManagedAccess.Jose.Algorithm
import UserManagedAccess.Text.Base64Url
import UserManagedAccess.Text.Utf8
import UserManagedAccess.Url.Basic

/-! Everything that can go wrong while a request is served, each cause with its wording. That more
information is needed is no error. -/
namespace UserManagedAccess

/-- A request that is not acceptable as it stands. -/
inductive RequestFault where
  | ticketAndPermissions
  | neitherTicketNorPermissions
  | blankTicket
  | unknownTicket
  | noPermissions
  | blankPermissionResource
  | blankPermissionScope
  | formatWithoutToken
  | tokenWithoutFormat
  | unsupportedFormat (uri : String)
  | noResourceScopes
  | blankResourceScope
  | issuerNotUrl (issuer : String) (cause : UrlError)
  | blankDerivationId
  | bodyNotJson
  | bodyOfOtherShape
  | other (text : String)
  deriving DecidableEq, Repr

def RequestFault.message : RequestFault → String
  | .ticketAndPermissions =>
    "A token request must carry either a ticket or permissions, not both."
  | .neitherTicketNorPermissions =>
    "A token request without existing ticket should include requested permissions."
  | .blankTicket => "The provided ticket is empty."
  | .unknownTicket => "The provided ticket is not valid."
  | .noPermissions => "At least one permission is required."
  | .blankPermissionResource => "Permission has an empty 'resource_id'."
  | .blankPermissionScope => "Permission has an empty scope."
  | .formatWithoutToken =>
    "Request with a \"claim_token_format\" must contain a \"claim_token\"."
  | .tokenWithoutFormat =>
    "Request with a \"claim_token\" must contain a \"claim_token_format\"."
  | .unsupportedFormat uri => s!"Unsupported claim token format '{uri}'."
  | .noResourceScopes => "'resource_scopes' must not be empty."
  | .blankResourceScope => "'resource_scopes' contains an empty scope."
  | .issuerNotUrl issuer cause =>
    s!"Derivation issuer <{issuer}> is not a URL: {cause.message}"
  | .blankDerivationId => "Derivation relation without 'derivation_resource_id'."
  | .bodyNotJson => "Failed to parse the request body as JSON"
  | .bodyOfOtherShape => "Failed to deserialize the JSON body into the target type"
  | .other text => text

/-- A document that cannot be had from another server. -/
inductive FetchFault where
  | notUrl (text : String) (cause : UrlError)
  | noDocument (url : String)
  | noKeySetAddress (url : String)
  | notKeySet (url : String)
  | noKeysBelow (issuer : String) (cause : UrlError)
  | other (text : String)
  deriving DecidableEq, Repr

def FetchFault.message : FetchFault → String
  | .notUrl text cause => s!"<{text}> is not a URL: {cause.message}"
  | .noDocument url => s!"{url}: no pinned document"
  | .noKeySetAddress url => s!"{url}: no 'jwks_uri'"
  | .notKeySet url => s!"{url}: not a key set"
  | .noKeysBelow issuer cause => s!"{issuer}: {cause.message}"
  | .other text => text

/-- What the check of a signed token ends with. -/
inductive TokenFault where
  | malformed
  | badSignature
  | wrongAlgorithm
  | notBase64 (cause : Text.Base64Error)
  | notJson
  | missingClaim (name : String)
  | expired
  | notYetValid
  | wrongIssuer
  | wrongAudience
  deriving DecidableEq, Repr

def TokenFault.message : TokenFault → String
  | .malformed => "InvalidToken"
  | .badSignature => "InvalidSignature"
  | .wrongAlgorithm => "InvalidAlgorithm"
  | .notBase64 cause => s!"Base64 error: {cause.message}"
  | .notJson => "JSON error"
  | .missingClaim claim => s!"Missing required claim: {claim}"
  | .expired => "ExpiredSignature"
  | .notYetValid => "ImmatureSignature"
  | .wrongIssuer => "InvalidIssuer"
  | .wrongAudience => "InvalidAudience"

/-- The kinds of signed tokens that are accepted as credentials. -/
inductive SignedToken where
  | jwt
  | idToken
  | accessToken
  deriving DecidableEq, Repr

def SignedToken.title : SignedToken → String
  | .jwt => "JWT"
  | .idToken => "OIDC ID Token"
  | .accessToken => "Access Token"

def SignedToken.issuerMissing : SignedToken → String
  | .jwt => "JWT should contain 'iss' claim."
  | .idToken => "ID token missing issuer."
  | .accessToken => "Access Token missing issuer."

/-- A credential, token or key that proves nothing. -/
inductive CredentialFault where
  | wrongFormat (uri : String)
  | tooManyParts
  | partNotText (cause : Text.Utf8Error)
  | blankIdentifier
  | notCompact
  | payloadNotBase64 (cause : Text.Base64Error)
  | payloadNotJson
  | payloadNotObject
  | invalidHeader (cause : TokenFault)
  | rejected (cause : TokenFault)
  | issuerMissing (token : SignedToken)
  | keyIdMissing
  | claimNotAllowed (name : String)
  | webidMissing
  | notAnIssuer (issuer webid : String)
  | malformedPermissions
  | noKey (keyId : String) (algorithm : Jose.Algorithm)
  | incompleteRsaKey
  | missingSecret
  | keyNotBase64 (cause : Text.Base64Error)
  | secretNotBase64 (cause : Text.Base64Error)
  | unsupportedKeyType (keyType : String)
  | malformedAccessToken
  | unreachable (cause : FetchFault)
  | whileVerifying (token : SignedToken) (cause : CredentialFault)
  | other (text : String)
  deriving DecidableEq, Repr

def CredentialFault.message : CredentialFault → String
  | .wrongFormat uri => s!"Token format '{uri}' does not match this processor's format."
  | .tooManyParts => "Invalid token format, only one ':' is expected."
  | .partNotText cause => s!"Token part is not valid UTF-8: {cause.message}"
  | .blankIdentifier => "Token carries an empty identifier."
  | .notCompact => "Token is not a compact JWT."
  | .payloadNotBase64 cause => s!"JWT payload is not base64url: {cause.message}"
  | .payloadNotJson => "JWT payload is not JSON"
  | .payloadNotObject => "JWT payload is not a JSON object."
  | .invalidHeader cause => s!"Invalid JWT header: {cause.message}"
  | .rejected cause => s!"JWT verification failed: {cause.message}"
  | .issuerMissing token => token.issuerMissing
  | .keyIdMissing => "JWT should contain 'kid' header."
  | .claimNotAllowed claim => s!"Claim '{claim}' not allowed."
  | .webidMissing => "missing 'webid' claim."
  | .notAnIssuer issuer webid => s!"<{issuer}> is not an OIDC issuer of <{webid}>."
  | .malformedPermissions => "Invalid RPT: 'permissions' array invalid."
  | .noKey keyId algorithm => s!"No key found for kid '{keyId}' and alg '{algorithm.name}'."
  | .incompleteRsaKey => "RSA key is missing 'n' or 'e'."
  | .missingSecret => "Symmetric key is missing 'k'."
  | .keyNotBase64 cause => (TokenFault.notBase64 cause).message
  | .secretNotBase64 cause => cause.message
  | .unsupportedKeyType keyType => s!"Unsupported key type '{keyType}'."
  | .malformedAccessToken => "Malformed access token"
  | .unreachable cause => cause.message
  | .whileVerifying token cause => s!"Error verifying {token.title}: {cause.message}"
  | .other text => text

inductive MissingFault where
  | resource (id : String)
  | token
  | other (text : String)
  deriving DecidableEq, Repr

def MissingFault.message : MissingFault → String
  | .resource id => s!"Resource {id} is not registered."
  | .token => "Token not found."
  | .other text => text

/-- Settings, rules or keys that the server cannot work with. -/
inductive ConfigFault where
  | unreadable (path : String)
  | notFile (path : String)
  | invalidRules (path : String)
  | invalidPrivateKey
  | invalidSettings
  | other (text : String)
  deriving DecidableEq, Repr

def ConfigFault.message : ConfigFault → String
  | .unreadable path => s!"{path} cannot be read"
  | .notFile path => s!"{path} does not resolve to a file"
  | .invalidRules path => s!"{path} holds invalid rules"
  | .invalidPrivateKey => "Invalid RSA private key"
  | .invalidSettings => "invalid settings"
  | .other text => text

inductive Error where
  | badRequest (fault : RequestFault)
  | invalidCredential (fault : CredentialFault)
  | forbidden
  | notFound (fault : MissingFault)
  | storage (text : String)
  | fetch (fault : FetchFault)
  | token (text : String)
  | config (fault : ConfigFault)
  deriving DecidableEq, Repr

namespace Error

def message : Error → String
  | .badRequest fault => s!"bad request: {fault.message}"
  | .invalidCredential fault => s!"invalid credential: {fault.message}"
  | .forbidden => "access denied"
  | .notFound fault => s!"not found: {fault.message}"
  | .storage text => s!"storage failure: {text}"
  | .fetch fault => s!"fetch failed: {fault.message}"
  | .token text => s!"token error: {text}"
  | .config fault => s!"configuration error: {fault.message}"

/-- Whether the client can do something about it. -/
def isClientError : Error → Bool
  | .badRequest _ | .invalidCredential _ | .forbidden | .notFound _ => true
  | _ => false

/-- The error of a credential whose check ran into another error. -/
def whileVerifying (token : SignedToken) : Error → Error
  | .invalidCredential fault => .invalidCredential (.whileVerifying token fault)
  | .fetch fault => .invalidCredential (.whileVerifying token (.unreachable fault))
  | error => .invalidCredential (.whileVerifying token (.other error.message))

end Error

end UserManagedAccess
