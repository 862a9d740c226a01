import UserManagedAccess.Json.Decoder
import UserManagedAccess.Number.Word
import UserManagedAccess.Text.Blank

/-! What a server can be set up with. Every setting has a default. -/
namespace UserManagedAccess

inductive PolicyChoice where
  | all
  | namespaced
  | rules
  | none
  deriving DecidableEq, Repr

namespace PolicyChoice

def word : PolicyChoice → String
  | .all => "all"
  | .namespaced => "namespaced"
  | .rules => "rules"
  | .none => "none"

def ofWord? (word : String) : Option PolicyChoice :=
  [all, namespaced, rules, none].find? (·.word == word)

end PolicyChoice

structure ServerSettings where
  host : String := "127.0.0.1"
  port : Nat := 4000
  baseUrl : Option String := none
  deriving DecidableEq, Repr, Inhabited

structure PolicySettings where
  kind : PolicyChoice := .namespaced
  namespaces : List String := []
  rulesFile : Option String := none
  derivation : Bool := true
  deriving DecidableEq, Repr

structure JwtSettings where
  enabled : Bool := false
  allowedClaims : List String := []
  errorOnExtraClaims : Bool := false
  verify : Bool := true
  deriving DecidableEq, Repr

structure VerifierSettings where
  unsecure : Bool := false
  oidc : Bool := true
  trustedIssuers : List String := []
  accessToken : Bool := true
  jwt : JwtSettings := {}
  deriving DecidableEq, Repr

structure TokenSettings where
  keptByServer : Bool := false
  lifetime : Int := 1800
  signingKey : Option String := none
  keyId : String := "uma-as"
  deriving DecidableEq, Repr

structure Settings where
  server : ServerSettings := {}
  policy : PolicySettings := {}
  verifiers : VerifierSettings := {}
  tokens : TokenSettings := {}
  deriving DecidableEq, Repr

/-- The address of the server: the one that is set, without slashes at the end, or else one made of
host and port. -/
def ServerSettings.address (s : ServerSettings) : String :=
  match s.baseUrl with
  | some url => Text.dropTrailing '/' url
  | none => s!"http://{s.host}:{s.port}/uma"

/-! ## As JSON -/

open Json RecordDecoder

namespace ServerSettings

def toJson (s : ServerSettings) : Json :=
  .ofMembers [("host", .string s.host), ("port", .ofNat s.port),
    ("base_url", .ofOption .string s.baseUrl)]

def port16 : Decoder Nat := fun d => (Decoder.whole 0 65535 d).map Int.toNat

def decoder : Decoder ServerSettings :=
  (ServerSettings.mk <$> withDefault "host" .string "127.0.0.1"
    <*> withDefault "port" port16 4000
    <*> optional "base_url" .string : RecordDecoder ServerSettings).decode

end ServerSettings

namespace PolicySettings

def toJson (s : PolicySettings) : Json :=
  .ofMembers [("kind", .string s.kind.word), ("namespaces", .strings s.namespaces),
    ("rules_file", .ofOption .string s.rulesFile), ("derivation", .bool s.derivation)]

def decoder : Decoder PolicySettings :=
  (PolicySettings.mk <$> withDefault "kind" (.word PolicyChoice.ofWord?) .namespaced
    <*> withDefault "namespaces" (.list .string) []
    <*> optional "rules_file" .string
    <*> withDefault "derivation" .bool true : RecordDecoder PolicySettings).decode

end PolicySettings

namespace JwtSettings

def toJson (s : JwtSettings) : Json :=
  .ofMembers [("enabled", .bool s.enabled), ("allowed_claims", .strings s.allowedClaims),
    ("error_on_extra_claims", .bool s.errorOnExtraClaims), ("verify", .bool s.verify)]

def decoder : Decoder JwtSettings :=
  (JwtSettings.mk <$> withDefault "enabled" .bool false
    <*> withDefault "allowed_claims" (.list .string) []
    <*> withDefault "error_on_extra_claims" .bool false
    <*> withDefault "verify" .bool true : RecordDecoder JwtSettings).decode

end JwtSettings

namespace VerifierSettings

def toJson (s : VerifierSettings) : Json :=
  .ofMembers [("unsecure", .bool s.unsecure), ("oidc", .bool s.oidc),
    ("oidc_trusted_issuers", .strings s.trustedIssuers), ("access_token", .bool s.accessToken),
    ("jwt", s.jwt.toJson)]

def decoder : Decoder VerifierSettings :=
  (VerifierSettings.mk <$> withDefault "unsecure" .bool false
    <*> withDefault "oidc" .bool true
    <*> withDefault "oidc_trusted_issuers" (.list .string) []
    <*> withDefault "access_token" .bool true
    <*> withDefault "jwt" JwtSettings.decoder {} : RecordDecoder VerifierSettings).decode

end VerifierSettings

namespace TokenSettings

def toJson (s : TokenSettings) : Json :=
  .ofMembers [("opaque", .bool s.keptByServer), ("ttl_secs", .ofInt s.lifetime),
    ("signing_key", .ofOption .string s.signingKey), ("key_id", .string s.keyId)]

def decoder : Decoder TokenSettings :=
  (TokenSettings.mk <$> withDefault "opaque" .bool false
    <*> withDefault "ttl_secs" (.whole Word.signedLow Word.signedHigh) 1800
    <*> optional "signing_key" .string
    <*> withDefault "key_id" .string "uma-as" : RecordDecoder TokenSettings).decode

end TokenSettings

namespace Settings

def toJson (s : Settings) : Json :=
  .ofMembers [("server", s.server.toJson), ("policy", s.policy.toJson),
    ("verifiers", s.verifiers.toJson), ("tokens", s.tokens.toJson)]

def decoder : Decoder Settings :=
  (Settings.mk <$> withDefault "server" ServerSettings.decoder {}
    <*> withDefault "policy" PolicySettings.decoder {}
    <*> withDefault "verifiers" VerifierSettings.decoder {}
    <*> withDefault "tokens" TokenSettings.decoder {} : RecordDecoder Settings).decode

end Settings

end UserManagedAccess
