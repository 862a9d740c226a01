import UserManagedAccess.Proofs.Audience
import UserManagedAccess.Proofs.WebIdProfiles

/-! Whom an identity is taken from. The issuer that a token names has signed it, and may speak for
the WebID: because it may speak for everybody, or because the document of the WebID says so. -/
namespace UserManagedAccess

namespace IdToken

/-- The OpenID configuration of the issuer points to a set with the key. -/
def PublishesKey [Url.DomainRules] (fetcher : Fetcher) (issuer : String)
    (key : Jose.VerificationKey) : Prop :=
  ∃ configurationUrl configuration address url document keys jwk,
    Discovery.wellKnown issuer "openid-configuration" = .ok configurationUrl ∧
    fetcher configurationUrl.toText = .ok configuration ∧
    configuration.member? "jwks_uri" = some (.string address) ∧
    Discovery.readUrl address = .ok url ∧ fetcher url.toText = .ok document ∧
    Discovery.readKeySet url document = .ok keys ∧
    jwk ∈ keys.keys ∧ jwk.verificationKey = .ok key

/-- The token was issued to the application: it names it as its client, or it names no client and
has the application for its authorized party. -/
def IssuedTo (payload : Jose.Payload) (client : String) : Prop :=
  payload.get? "client_id" = some (.string client) ∨
    payload.get? "client_id" = none ∧ payload.get? "azp" = some (.string client)

section
variable [Url.DomainRules]

/-- The payload of the token identifies the bearer by the WebID; it is signed by an issuer that may
do so, and has not expired. -/
structure Attests (trusted : List String) (token : String) (now : Nat) (fetcher : Fetcher)
    (payload : Jose.Payload) (issuer webid : String) : Prop where
  issuer_eq : payload.get? "iss" = some (.string issuer)
  issuer_ne : issuer ≠ ""
  webid_eq : payload.get? "webid" = some (.string webid)
  expires : ∃ time, payload.expiry? = some time ∧ now ≤ time + 60
  signed : ∃ key header, PublishesKey fetcher issuer key ∧ Jose.readHeader token = .ok header ∧
    SourceToken.SignedWith token key ∧
    Jose.verify token key header.algorithm ⟨some issuer, some solidAudience, ["exp"]⟩ now =
      .ok payload
  entitled : (∃ known ∈ trusted, WebIdProfile.SameUpToSlashes known issuer) ∨
    WebIdProfile.Lists fetcher webid issuer

end

theorem client?_eq_some_iff {payload : Jose.Payload} {client : String} :
    client? payload = some client ↔ IssuedTo payload client := by
  rw [client?, IssuedTo]
  cases payload.get? "client_id" with
  | some value => simp [Json.string?_eq_some_iff]
  | none => simp [Option.bind_eq_some_iff, Json.string?_eq_some_iff]

variable {fetcher : Fetcher} {payload : Jose.Payload} {issuer webid : String}

theorem publishesKey_of_matchingKey [Url.DomainRules] {keys : Jose.JwkSet} {keyId : Option String}
    {algorithm : Jose.Algorithm} {key : Jose.VerificationKey}
    (hkeys : (Discovery.openIdKeys issuer fetcher).result = .ok keys)
    (hkey : keys.matchingKey keyId algorithm = .ok key) : PublishesKey fetcher issuer key := by
  rw [Discovery.openIdKeys] at hkeys
  obtain ⟨configurationUrl, hconfigurationUrl, hkeys⟩ :=
    (Fetching.result_bind_eq_ok fetcher).mp hkeys
  obtain ⟨configuration, hconfiguration, hkeys⟩ := (Fetching.result_bind_eq_ok fetcher).mp hkeys
  rw [Fetching.result_liftM] at hconfigurationUrl
  rw [Fetching.result_ask] at hconfiguration
  cases haddress : configuration.text? "jwks_uri" with
  | none => simp [haddress] at hkeys
  | some address =>
    simp only [haddress] at hkeys
    obtain ⟨url, hurl, hkeys⟩ := (Fetching.result_bind_eq_ok fetcher).mp hkeys
    rw [Fetching.result_liftM] at hurl
    obtain ⟨document, hdocument, hkeys⟩ := Discovery.exists_document_of_keySet hkeys
    obtain ⟨jwk, hjwk, hkey⟩ := Jose.JwkSet.exists_mem_of_matchingKey hkey
    exact ⟨configurationUrl, configuration, address, url, document, keys, jwk, hconfigurationUrl,
      hconfiguration, Json.text?_eq_some_iff.mp haddress, hurl, hdocument, hkeys, hjwk, hkey⟩

/-- The issuer that is asked about is the one whose keys the token was checked with. -/
theorem attests_of_verifiedPayload [Url.DomainRules] {trusted : List String} {token : String}
    {now : Nat}
    (hpayload : (SignedToken.idToken.verifiedPayload token now fetcher).result = .ok payload)
    (hwebid : payload.get? "webid" = some (.string webid))
    (hentitled : (checkIssuer trusted webid (payload.issuer?.getD "") fetcher).result = .ok ()) :
    ∃ issuer, Attests trusted token now fetcher payload issuer webid := by
  obtain ⟨issuer, header, keys, key, -, hissuer, hheader, hkeys, hkey, hcheck⟩ :=
    SignedToken.verifiedPayload_eq_ok hpayload
  rw [hissuer, Option.getD_some] at hentitled
  have hnamed : issuer ≠ "" := by
    rw [Jose.Payload.issuer?, Option.filter_eq_some_iff] at hissuer
    simpa using hissuer.2
  obtain ⟨compact, _, _, _, hcompact, -, -, hfits, hsigned, -⟩ := Jose.check_eq_ok hcheck
  have hverified : Jose.verify token key header.algorithm
      ⟨some issuer, some solidAudience, ["exp"]⟩ now = .ok payload := by
    rw [Jose.verify]
    exact mapError_eq_ok.mpr hcheck
  have hattests : Attests trusted token now fetcher payload issuer webid :=
    { issuer_eq := Jose.Payload.get?_iss hissuer
      issuer_ne := hnamed
      webid_eq := hwebid
      expires := Jose.exists_expiry_of_check hcheck (List.mem_singleton_self "exp")
      signed := ⟨key, header, publishesKey_of_matchingKey hkeys hkey, hheader,
        ⟨compact, header, hcompact, hheader, hfits, hsigned⟩, hverified⟩
      entitled := WebIdProfile.entitled_of_checkIssuer hentitled }
  exact ⟨issuer, hattests⟩

end IdToken

namespace Verifier
variable {now : Nat} {c : Credential} {fetcher : Fetcher} {held claims : Claims}

/-- An identity that is taken comes from an issuer that may speak for it. What is added to the
claims held is the WebID, once, and at most one application; nothing under other names. -/
theorem accepted_identity_attested [Url.DomainRules] {trusted : List String}
    (h : ((oidc trusted).verify now c held fetcher).result = .ok claims) :
    ∃ payload issuer webid, IdToken.Attests trusted c.token now fetcher payload issuer webid ∧
      ∃ client : Option String, (∀ name, client = some name ↔ IdToken.IssuedTo payload name) ∧
        claims.values ClaimName.webid = held.values ClaimName.webid ++ [.string webid] ∧
        claims.values ClaimName.clientId =
          held.values ClaimName.clientId ++ (client.map Json.string).toList ∧
        ∀ name, name ≠ ClaimName.webid → name ≠ ClaimName.clientId →
          claims.values name = held.values name := by
  obtain ⟨found, hfound, rfl⟩ := verify_eq_ok_iff.mp h
  rw [assertions] at hfound
  obtain ⟨payload, webid, hpayload, hwebid, hentitled, rfl⟩ :=
    IdToken.assertions_eq_ok_iff.mp (expecting_eq_ok hfound).2
  obtain ⟨issuer, hattests⟩ := IdToken.attests_of_verifiedPayload hpayload hwebid hentitled
  have hdistinct : ClaimName.webid ≠ ClaimName.clientId := by decide
  refine ⟨payload, issuer, webid, hattests, IdToken.client? payload,
    fun name => IdToken.client?_eq_some_iff, ?_, ?_, fun name hother hother' => ?_⟩ <;>
  rw [Claims.values_pushAll]
  · cases IdToken.client? payload <;> simp [hdistinct.symm]
  · cases IdToken.client? payload <;> simp [hdistinct]
  · cases IdToken.client? payload <;> simp [hother.symm, hother'.symm]

/-- The issuer of `sampleIdToken` publishes its secret, and the document of Alice lists it. -/
def sampleProfile : Fetcher :=
  let key := Json.ofMembers [("kty", .string "oct"), ("k", .string "aw")]
  let alice := Json.ofMembers [("@id", .string "https://alice/#me"),
    ("solid:oidcIssuer", .array [.ofMembers [("@id", .string "https://idp/")]])]
  .pinned <| .ofList
    [("https://idp/.well-known/openid-configuration",
        .ofMembers [("jwks_uri", .string "https://idp/jwks")]),
      ("https://idp/jwks", .ofMembers [("keys", .array [key])]),
      ("https://alice/", .ofMembers [("@graph", .array [alice])])]

/-- Without an issuer that may speak for everybody, Alice is identified by the one that her document
lists. -/
theorem sample_identity_attested :
    let c : Credential := ⟨sampleIdToken, .oidc⟩
    ∃ claims issuer webid, ((oidc []).verify 1000 c ∅ sampleProfile).result = .ok claims ∧
      WebIdProfile.Lists sampleProfile webid issuer ∧
      claims.values ClaimName.webid = [.string webid] := by
  intro c
  obtain ⟨claims, _, hclaims, -⟩ :=
    verify_sampleIdToken [] ∅ sampleProfile (by decide +kernel) (by decide +kernel)
  obtain ⟨_, issuer, webid, hattests, _, -, hwebid, -⟩ := accepted_identity_attested hclaims
  rcases hattests.entitled with ⟨_, hknown, -⟩ | hlists
  · cases hknown
  · exact ⟨claims, issuer, webid, hclaims, hlists, hwebid⟩

end Verifier

end UserManagedAccess
