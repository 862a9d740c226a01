import UserManagedAccess.Json.Decoder

/-! Credentials: a token together with the format that tells who can make sense of it. -/
namespace UserManagedAccess

inductive CredentialFormat where
  /-- A self-asserted identity. -/
  | unsecure
  | jwt
  | oidc
  /-- A token of another authorization server. -/
  | accessToken
  deriving DecidableEq, Repr

namespace CredentialFormat

def uri : CredentialFormat → String
  | .unsecure => "urn:solidlab:uma:claims:formats:webid"
  | .jwt => "urn:solidlab:uma:claims:formats:jwt"
  | .oidc => "http://openid.net/specs/openid-connect-core-1_0.html#IDToken"
  | .accessToken => "urn:ietf:params:oauth:token-type:access_token"

def all : List CredentialFormat := [.unsecure, .jwt, .oidc, .accessToken]

def ofUri? (uri : String) : Option CredentialFormat :=
  all.find? (·.uri == uri)

def toJson (format : CredentialFormat) : Json := .string format.uri

def decoder : Json.Decoder CredentialFormat := .word ofUri?

end CredentialFormat

structure Credential where
  token : String
  format : CredentialFormat
  deriving DecidableEq, Repr

namespace Credential

def toJson (c : Credential) : Json :=
  .ofMembers [("token", .string c.token), ("format", c.format.toJson)]

def decoder : Json.Decoder Credential :=
  (Credential.mk <$> .required "token" .string
    <*> .required "format" CredentialFormat.decoder : Json.RecordDecoder Credential).decode

end Credential

end UserManagedAccess
