import UserManagedAccess.Proofs.KeyAddress
import UserManagedAccess.Proofs.MintedTokens
import UserManagedAccess.Server.Api
import UserManagedAccess.Server.Startup

/-! The address of a server, under which it issues tokens and publishes its keys. The published
address of the keys is made by writing a name behind the issuer, and other servers come to it by
reading the issuer as a URL and stepping to a neighbour; both end at one address. -/
namespace UserManagedAccess

/-! ## Slashes at the end -/

namespace Text

theorem getLast?_dropTrailing (c : Char) (s : String) :
    (dropTrailing c s).toList.getLast? ≠ some c := by
  rw [dropTrailing, String.toList_ofList, List.getLast?_reverse]
  intro hhead
  have hkept := List.head?_dropWhile_not (· == c) s.toList.reverse
  rw [hhead] at hkept
  simp at hkept

theorem dropTrailing_of_getLast?_ne {c : Char} {s : String} (h : s.toList.getLast? ≠ some c) :
    dropTrailing c s = s := by
  have hkept : s.toList.reverse.dropWhile (· == c) = s.toList.reverse := by
    rw [← List.head?_reverse] at h
    cases hchars : s.toList.reverse with
    | nil => rfl
    | cons last front =>
      rw [hchars, List.head?_cons, ne_eq, Option.some.injEq] at h
      exact List.dropWhile_cons_of_neg (by simpa using h)
  rw [dropTrailing, hkept, List.reverse_reverse, String.ofList_toList]

end Text

namespace ServerSettings

theorem getLast?_address (settings : ServerSettings) :
    settings.address.toList.getLast? ≠ some '/' := by
  rw [address]
  split
  · exact Text.getLast?_dropTrailing '/' _
  · simp [toString, List.getLast?_cons, List.getLast?_append]

end ServerSettings

/-! ## The keys of an issuer -/

namespace Url

private theorem isName_keys : IsName "keys".toList where
  visible := by simp
  segment := by decide
  double := by decide
  single := by decide

private theorem append_keys (text : String) :
    text ++ "/" ++ .ofList "keys".toList = text ++ "/keys" := by
  rw [String.ofList_toList, String.append_assoc]
  rfl

end Url

namespace Discovery
variable [Url.DomainRules]

theorem requested_umaKeys (issuer : String) (fetcher : Fetcher) :
    (umaKeys issuer fetcher).requested =
      ((umaKeysUrl issuer).toOption.map Url.toText).toList := by
  rw [umaKeys]
  cases umaKeysUrl issuer with
  | error e => rfl
  | ok url =>
    rw [Fetching.requested_bind_of_ok fetcher (Fetching.result_liftM fetcher (.ok url)),
      Fetching.requested_liftM, keySet, Fetching.requested_ask_bind]
    rfl

section
variable {issuer : String} {url : Url} (hparse : Url.parse issuer = .ok url)
  (hscheme : url.scheme = "http".toList ∨ url.scheme = "https".toList)
  (hquery : url.query = none) (hfragment : url.fragment = none)
include hparse hscheme hquery hfragment

/-- Whoever looks for the keys of an issuer comes to the address that is written behind it. -/
theorem toOption_umaKeysUrl (hslash : issuer.toList.getLast? ≠ some '/') :
    (umaKeysUrl issuer).toOption = (Url.parse (issuer ++ "/keys")).toOption := by
  obtain ⟨authority, front, -, hbelow⟩ :=
    Url.exists_parse_append_slash hparse hscheme hquery hfragment
  have hbase := hbelow [] Url.isName_nil
  have hkeys := hbelow "keys".toList Url.isName_keys
  rw [String.ofList_nil, String.append_empty] at hbase
  rw [Url.append_keys] at hkeys
  rw [umaKeysUrl, if_neg hslash, readUrl, hbase, hkeys]
  cases authority with
  | error e => rfl
  | ok a => simp [Except.map, Except.mapError, Except.toOption, bind, Except.bind, Url.sibling]

theorem exists_parse_keys_error_iff :
    (∃ e, Url.parse (issuer ++ "/keys") = .error e) ↔ Url.HidesBlanks issuer := by
  obtain ⟨authority, front, herror, hbelow⟩ :=
    Url.exists_parse_append_slash hparse hscheme hquery hfragment
  rw [← herror, ← Url.append_keys, hbelow _ Url.isName_keys]
  cases authority <;> simp [Except.map]

end

end Discovery

/-! ## The server -/

namespace Server

theorem issuer_metadata_ofSettings (settings : Settings) (keys : KeyPair) :
    (ofSettings settings keys).metadata.issuer = settings.server.address :=
  Text.dropTrailing_of_getLast?_ne settings.server.getLast?_address

section
variable [Url.DomainRules]

/-- The tokens of a server name the issuer of its discovery document, its keys are published right
below that issuer, and there other servers ask for them: what they ask for is the normal form of the
published address. Only if the address of the server hides blanks is the published address none, and
then they ask for nothing. -/
theorem issuer_and_keys_agree (settings : Settings) (keys : KeyPair) {url : Url}
    (hparse : Url.parse settings.server.address = .ok url)
    (hscheme : url.scheme = "http".toList ∨ url.scheme = "https".toList)
    (hquery : url.query = none) (hfragment : url.fragment = none) :
    let server := ofSettings settings keys
    (∀ now id token, ∃ signature,
      (server.signer.mint now id token).token = (Jose.Compact.carrying server.signer.header.toJson
          (server.signer.payload now id token) signature).toText ∧
        (server.signer.payload now id token).text? "iss" = some server.metadata.issuer) ∧
    server.metadata.keys = server.metadata.issuer ++ "/keys" ∧
    (¬ Url.HidesBlanks settings.server.address →
      ∃ published, Url.parse server.metadata.keys = .ok published ∧
        ∀ fetcher, (Discovery.umaKeys server.metadata.issuer fetcher).requested =
          [published.toText]) ∧
    (Url.HidesBlanks settings.server.address →
      (∃ e, Url.parse server.metadata.keys = .error e) ∧
        ∀ fetcher, (Discovery.umaKeys server.metadata.issuer fetcher).requested = []) := by
  intro server
  have hissuer : server.metadata.issuer = settings.server.address :=
    issuer_metadata_ofSettings settings keys
  have hkeys : server.metadata.keys = settings.server.address ++ "/keys" := by
    rw [← hissuer]
    rfl
  have hrequested (fetcher : Fetcher) :
      (Discovery.umaKeys server.metadata.issuer fetcher).requested =
        ((Url.parse server.metadata.keys).toOption.map Url.toText).toList := by
    rw [Discovery.requested_umaKeys, hissuer, hkeys, Discovery.toOption_umaKeysUrl hparse hscheme
      hquery hfragment settings.server.getLast?_address]
  have herror : (∃ e, Url.parse server.metadata.keys = .error e) ↔
      Url.HidesBlanks settings.server.address := by
    rw [hkeys]
    exact Discovery.exists_parse_keys_error_iff hparse hscheme hquery hfragment
  refine ⟨fun now id token => ⟨server.signer.signature now id token, ?_, ?_⟩, rfl,
    fun hshown => ?_, fun hhides => ⟨herror.mpr hhides, fun fetcher => ?_⟩⟩
  · rw [TokenSigner.payload_eq]
    exact TokenSigner.mint_token server.signer now id token
  · rw [hissuer, Json.text?, TokenSigner.payload,
      Json.member?_ofSome (by simp [AccessToken.members])]
    rfl
  · cases hpublished : Url.parse server.metadata.keys with
    | error e => exact absurd (herror.mp ⟨e, hpublished⟩) hshown
    | ok published =>
      refine ⟨published, rfl, fun fetcher => ?_⟩
      rw [hrequested, hpublished]
      rfl
  · obtain ⟨e, he⟩ := herror.mpr hhides
    rw [hrequested, he]
    rfl

end

/-- An address with capital letters, letters beyond ASCII, the default port, dots and slashes at the
end. -/
def sampleAddress : Settings :=
  { server := { baseUrl := some "HTTPS://Bücher.example:443/x/../ü///" } }

def sampleUrl : Url where
  scheme := "https".toList
  authority := some ⟨[], [], .name "xn--bcher-kva.example".toList, none⟩
  path := .segments ["%C3%BC".toList]
  query := none
  fragment := none

theorem not_hidesBlanks_sampleAddress : ¬ Url.HidesBlanks sampleAddress.server.address :=
  fun h => h.blanks (by decide +kernel)

theorem sample_issuer_and_keys_agree :
    Url.parse sampleAddress.server.address = .ok sampleUrl ∧
      ∀ keys fetcher, (Discovery.umaKeys (ofSettings sampleAddress keys).metadata.issuer
        fetcher).requested = ["https://xn--bcher-kva.example/%C3%BC/keys"] := by
  have hparse : Url.parse sampleAddress.server.address = .ok sampleUrl :=
    eq_ok_of_toOption (by decide +kernel)
  have hpublished (keys : KeyPair) :
      (Url.parse (ofSettings sampleAddress keys).metadata.keys).toOption.map Url.toText =
        some "https://xn--bcher-kva.example/%C3%BC/keys" := by
    change (Url.parse (ServerMetadata.ofBaseUrl sampleAddress.server.address).keys).toOption.map
      Url.toText = _
    decide +kernel
  refine ⟨hparse, fun keys fetcher => ?_⟩
  obtain ⟨-, -, hasked, -⟩ := issuer_and_keys_agree sampleAddress keys hparse (.inr rfl) rfl rfl
  obtain ⟨published, hkeys, hrequested⟩ := hasked not_hidesBlanks_sampleAddress
  have htext := hpublished keys
  rw [hkeys] at htext
  rw [hrequested, Option.some.inj htext]

/-- An address with a space behind its host. -/
def blankAddress : Settings := { server := { baseUrl := some "https://as.example " } }

/-- The address is a web address like any other, but the address of the keys is none, and nobody is
asked for them. -/
theorem blankAddress_hides_keys :
    (Url.parse blankAddress.server.address).toOption =
        some ⟨"https".toList, some ⟨[], [], .name "as.example".toList, none⟩, .segments [[]], none,
          none⟩ ∧
      ∀ keys, (ofSettings blankAddress keys).metadata.keys = "https://as.example /keys" ∧
        (¬ ∃ published, Url.parse (ofSettings blankAddress keys).metadata.keys = .ok published) ∧
        ∀ fetcher, (Discovery.umaKeys (ofSettings blankAddress keys).metadata.issuer
          fetcher).requested = [] := by
  have haddress : blankAddress.server.address = "https://as.example " := by decide +kernel
  have hpublished : (Url.parse ("https://as.example " ++ "/keys")).toOption = none := by
    decide +kernel
  have hurl : (Discovery.umaKeysUrl "https://as.example ").toOption = none := by decide +kernel
  refine ⟨by decide +kernel, fun keys => ?_⟩
  have hissuer : (ofSettings blankAddress keys).metadata.issuer = "https://as.example " := by
    rw [issuer_metadata_ofSettings, haddress]
  have hkeys : (ofSettings blankAddress keys).metadata.keys = "https://as.example " ++ "/keys" := by
    rw [← hissuer]
    rfl
  refine ⟨hkeys, ?_, fun fetcher => ?_⟩
  · rintro ⟨published, hread⟩
    rw [hkeys] at hread
    rw [hread] at hpublished
    cases hpublished
  · rw [hissuer, Discovery.requested_umaKeys, hurl]
    rfl

end Server

end UserManagedAccess
