import UserManagedAccess.Number.Word
import UserManagedAccess.Settings.Basic
import UserManagedAccess.Settings.Tree

/-! Typed settings from a tree. Values are converted between kinds where that makes sense: the word
`on` is a truth value, a number is a text. -/
namespace UserManagedAccess

namespace SettingTree

/-- The truth value that a word stands for, in any case. -/
def truthOfWord? (word : String) : Option Bool :=
  let word := String.ofList (word.toList.map Char.toLower)
  if ["true", "on", "yes"].contains word then some true
  else if ["false", "off", "no"].contains word then some false
  else none

def toBool? : SettingTree → Option Bool
  | .bool b => some b
  | .whole n => some (n != 0)
  | .real x => some (!x.isZero)
  | .text s => if s = "1" then some true else if s = "0" then some false else truthOfWord? s
  | _ => none

/-- A truth value as a number. -/
def ofTruth (b : Bool) : Int := if b then 1 else 0

/-- The whole number next to a double, or the bound that it is beyond. -/
def clamped (low high : Int) (x : Binary64) : Int :=
  if x.isNaN then 0 else max low (min high x.roundHalfAway)

/-- A whole number of 64 bits with a sign. -/
def toSigned? : SettingTree → Option Int
  | .bool b => some (ofTruth b)
  | .whole n => some n
  | .real x => some (clamped Word.signedLow Word.signedHigh x)
  | .text s =>
    ((truthOfWord? s).map ofTruth) <|> Decimal.int? Word.signedLow Word.signedHigh s.toList
  | _ => none

/-- A whole number of 64 bits without a sign; a text has no minus, not even before zero. -/
def toUnsigned? : SettingTree → Option Nat
  | .bool b => some (ofTruth b).toNat
  | .whole n => if 0 ≤ n then some n.toNat else none
  | .real x => some (clamped 0 Word.high x).toNat
  | .text s =>
    if s.toList.head? = some '-' then none
    else
      (((truthOfWord? s).map ofTruth) <|> Decimal.int? 0 Word.high s.toList).map Int.toNat
  | _ => none

/-- A port: of a greater number the last sixteen bits count. -/
def toPort? (tree : SettingTree) : Option Nat := tree.toUnsigned?.map (· % 0x10000)

def toText? : SettingTree → Option String
  | .bool b => some (if b then "true" else "false")
  | .whole n => some (String.ofList (Decimal.ofInt n))
  | .real x => some x.toText
  | .text s => some s
  | _ => none

def toTexts? : SettingTree → Option (List String)
  | .list items => items.mapM toText?
  | _ => none

/-- A word, or a table with the word as its one name. -/
def toPolicyChoice? : SettingTree → Option PolicyChoice
  | .text s => PolicyChoice.ofWord? s
  | .table [(name, _)] => PolicyChoice.ofWord? name
  | _ => none

/-- A setting that may be absent. -/
def optional {α : Type} (convert : SettingTree → Option α) : SettingTree → Option (Option α)
  | .absent => some none
  | tree => (convert tree).map some

/-- The settings of a section: by name in a table, or in their order in a list. -/
def lookup? (place : Nat) (name : String) : SettingTree → Option (Option SettingTree)
  | .table entries => some (KeyMap.findEntry name entries)
  | .list items => some items[place]?
  | _ => none

/-- Reads a setting of a section; one that is not there has its default. -/
def setting {α : Type} (section_ : SettingTree) (place : Nat) (name : String)
    (convert : SettingTree → Option α) (default : α) : Option α :=
  match section_.lookup? place name with
  | none => none
  | some none => some default
  | some (some tree) => convert tree

def toServerSettings? (tree : SettingTree) : Option ServerSettings := do
  let preset : ServerSettings := {}
  return {
    host := ← tree.setting 0 "host" toText? preset.host
    port := ← tree.setting 1 "port" toPort? preset.port
    baseUrl := ← tree.setting 2 "base_url" (optional toText?) preset.baseUrl }

def toPolicySettings? (tree : SettingTree) : Option PolicySettings := do
  let preset : PolicySettings := {}
  return {
    kind := ← tree.setting 0 "kind" toPolicyChoice? preset.kind
    namespaces := ← tree.setting 1 "namespaces" toTexts? preset.namespaces
    rulesFile := ← tree.setting 2 "rules_file" (optional toText?) preset.rulesFile
    derivation := ← tree.setting 3 "derivation" toBool? preset.derivation }

def toJwtSettings? (tree : SettingTree) : Option JwtSettings := do
  let preset : JwtSettings := {}
  return {
    enabled := ← tree.setting 0 "enabled" toBool? preset.enabled
    allowedClaims := ← tree.setting 1 "allowed_claims" toTexts? preset.allowedClaims
    errorOnExtraClaims :=
      ← tree.setting 2 "error_on_extra_claims" toBool? preset.errorOnExtraClaims
    verify := ← tree.setting 3 "verify" toBool? preset.verify }

def toVerifierSettings? (tree : SettingTree) : Option VerifierSettings := do
  let preset : VerifierSettings := {}
  return {
    unsecure := ← tree.setting 0 "unsecure" toBool? preset.unsecure
    oidc := ← tree.setting 1 "oidc" toBool? preset.oidc
    trustedIssuers := ← tree.setting 2 "oidc_trusted_issuers" toTexts? preset.trustedIssuers
    accessToken := ← tree.setting 3 "access_token" toBool? preset.accessToken
    jwt := ← tree.setting 4 "jwt" toJwtSettings? preset.jwt }

def toTokenSettings? (tree : SettingTree) : Option TokenSettings := do
  let preset : TokenSettings := {}
  return {
    keptByServer := ← tree.setting 0 "opaque" toBool? preset.keptByServer
    lifetime := ← tree.setting 1 "ttl_secs" toSigned? preset.lifetime
    signingKey := ← tree.setting 2 "signing_key" (optional toText?) preset.signingKey
    keyId := ← tree.setting 3 "key_id" toText? preset.keyId }

def toSettings? (tree : SettingTree) : Option Settings := do
  let preset : Settings := {}
  return {
    server := ← tree.setting 0 "server" toServerSettings? preset.server
    policy := ← tree.setting 1 "policy" toPolicySettings? preset.policy
    verifiers := ← tree.setting 2 "verifiers" toVerifierSettings? preset.verifiers
    tokens := ← tree.setting 3 "tokens" toTokenSettings? preset.tokens }

end SettingTree

end UserManagedAccess
