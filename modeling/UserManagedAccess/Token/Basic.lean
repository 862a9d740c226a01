import UserManagedAccess.Permission

/-! Access tokens: what they grant, and the text that a requester is given. -/
namespace UserManagedAccess

def bearer : String := "Bearer"

/-- What a token stands for. Whether it is active is said only where it is looked into. -/
structure AccessToken where
  permissions : List Permission
  contract : Option Json
  active : Option Bool

namespace AccessToken

/-- A token that grants permissions and nothing else. -/
def ofPermissions (permissions : List Permission) : AccessToken := ⟨permissions, none, none⟩

def members (token : AccessToken) : List (String × Option Json) :=
  [("permissions", some (Permission.listToJson token.permissions)), ("contract", token.contract),
    ("active", token.active.map .bool)]

def toJson (token : AccessToken) : Json := .ofSome token.members

def decoder : Json.Decoder AccessToken :=
  (AccessToken.mk <$> .required "permissions" Permission.listDecoder
    <*> .optional "contract" .json
    <*> .optional "active" .bool : Json.RecordDecoder AccessToken).decode

end AccessToken

/-- The text of a token, which is good for whoever holds it. -/
structure BearerToken where
  token : String
  tokenType : String
  deriving DecidableEq, Repr

namespace BearerToken

def toJson (token : BearerToken) : Json :=
  .ofMembers [("token", .string token.token), ("token_type", .string token.tokenType)]

def decoder : Json.Decoder BearerToken :=
  (BearerToken.mk <$> .required "token" .string
    <*> .required "token_type" .string : Json.RecordDecoder BearerToken).decode

end BearerToken

/-- A token that the server keeps, known to others by its id alone. -/
structure KeptToken where
  token : AccessToken
  expiresAt : Int

end UserManagedAccess
