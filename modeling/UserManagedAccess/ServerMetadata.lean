import UserManagedAccess.Credential
import UserManagedAccess.Jose.Algorithm
import UserManagedAccess.Text.Blank

/-! The discovery document: where the endpoints of a server are, and what it supports. -/
namespace UserManagedAccess

structure ServerMetadata where
  issuer : String
  keys : String
  token : String
  permission : String
  introspection : String
  resourceRegistration : String
  grantTypes : List String
  profiles : List String
  responseTypes : List String
  signingAlgorithms : List String
  dpopAlgorithms : List String
  deriving DecidableEq, Repr

namespace ServerMetadata

/-- The document of a server; slashes at the end of its address are left out. -/
def ofBaseUrl (baseUrl : String) : ServerMetadata :=
  let base := Text.dropTrailing '/' baseUrl
  { issuer := base
    keys := base ++ "/keys"
    token := base ++ "/token"
    permission := base ++ "/ticket"
    introspection := base ++ "/introspect"
    resourceRegistration := base ++ "/resources"
    grantTypes := ["urn:ietf:params:oauth:grant-type:uma-ticket"]
    profiles := [CredentialFormat.oidc.uri]
    responseTypes := ["token"]
    signingAlgorithms := [Jose.Algorithm.rs256.name]
    dpopAlgorithms := ["ES256", "ES384", "PS256", "PS384", "RS256", "RS384"] }

def toJson (c : ServerMetadata) : Json :=
  .ofMembers [("issuer", .string c.issuer), ("jwks_uri", .string c.keys),
    ("token_endpoint", .string c.token), ("permission_endpoint", .string c.permission),
    ("introspection_endpoint", .string c.introspection),
    ("resource_registration_endpoint", .string c.resourceRegistration),
    ("grant_types_supported", .strings c.grantTypes),
    ("uma_profiles_supported", .strings c.profiles),
    ("response_types_supported", .strings c.responseTypes),
    ("token_endpoint_auth_signing_alg_values_supported", .strings c.signingAlgorithms),
    ("dpop_signing_alg_values_supported", .strings c.dpopAlgorithms)]

def decoder : Json.Decoder ServerMetadata :=
  (ServerMetadata.mk <$> .required "issuer" .string
    <*> .required "jwks_uri" .string
    <*> .required "token_endpoint" .string
    <*> .required "permission_endpoint" .string
    <*> .required "introspection_endpoint" .string
    <*> .required "resource_registration_endpoint" .string
    <*> .required "grant_types_supported" (.list .string)
    <*> .required "uma_profiles_supported" (.list .string)
    <*> .required "response_types_supported" (.list .string)
    <*> .required "token_endpoint_auth_signing_alg_values_supported" (.list .string)
    <*> .required "dpop_signing_alg_values_supported" (.list .string) :
    Json.RecordDecoder ServerMetadata).decode

end ServerMetadata

end UserManagedAccess
