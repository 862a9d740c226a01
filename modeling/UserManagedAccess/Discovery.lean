import UserManagedAccess.Fetching
import UserManagedAccess.Jose.Key
import UserManagedAccess.Text.Blank
import UserManagedAccess.Url.Parser

/-! Where issuers publish their keys. -/
namespace UserManagedAccess.Discovery
variable [Url.DomainRules]

def readUrl (text : String) : Except Error Url :=
  (Url.parse text).mapError fun cause => .fetch (.notUrl text cause)

/-- Any document, by its address. -/
def document (url : String) : Fetching Json := do
  let url ← readUrl url
  Fetching.ask url.toText

def readKeySet (url : Url) (document : Json) : Except Error Jose.JwkSet :=
  match Json.decodeWith Jose.JwkSet.decoder document with
  | some set => .ok set
  | none => .error (.fetch (.notKeySet url.toText))

def keySet (url : Url) : Fetching Jose.JwkSet := do
  let document ← Fetching.ask url.toText
  readKeySet url document

/-- A well-known address of an issuer. -/
def wellKnown (issuer name : String) : Except Error Url :=
  readUrl (Text.dropTrailing '/' issuer ++ "/.well-known/" ++ name)

/-- The keys at the well-known address itself. -/
def wellKnownKeys (issuer : String) : Fetching Jose.JwkSet := do
  let url ← wellKnown issuer "jwks.json"
  keySet url

/-- The keys that the OpenID configuration of an issuer points to. -/
def openIdKeys (issuer : String) : Fetching Jose.JwkSet := do
  let url ← wellKnown issuer "openid-configuration"
  let configuration ← Fetching.ask url.toText
  match configuration.text? "jwks_uri" with
  | none => Fetching.ofExcept (.error (.fetch (.noKeySetAddress url.toText)))
  | some address =>
    let url ← readUrl address
    keySet url

/-- The address of the keys of an authorization server: `keys` below its own address. -/
def umaKeysUrl (issuer : String) : Except Error Url := do
  let base ← readUrl (if issuer.toList.getLast? = some '/' then issuer else issuer ++ "/")
  (base.sibling "keys".toList).mapError fun cause => .fetch (.noKeysBelow issuer cause)

def umaKeys (issuer : String) : Fetching Jose.JwkSet := do
  let url ← umaKeysUrl issuer
  keySet url

end UserManagedAccess.Discovery
