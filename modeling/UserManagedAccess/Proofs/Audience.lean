import UserManagedAccess.Proofs.RegisteredClaims
import UserManagedAccess.Proofs.SourceProvenance
import UserManagedAccess.Proofs.VerifierContract

/-! Whom a signed token is for. A check compares the audience of a token with the one it expects if
the token names one; a token that names nobody, or whose audience is of another kind than expected,
is for everybody. -/
namespace UserManagedAccess

namespace Json

theorem mapM_string?_eq_some_iff {items : List Json} {texts : List String} :
    items.mapM string? = some texts ↔ items = texts.map .string := by
  induction items generalizing texts with
  | nil => cases texts <;> simp
  | cons item rest ih =>
    simp only [List.mapM_cons, Option.pure_def, Option.bind_eq_bind, Option.bind_eq_some_iff,
      Option.some.injEq, string?_eq_some_iff, ih]
    constructor
    · rintro ⟨text, rfl, others, rfl, rfl⟩
      rfl
    · intro h
      cases texts with
      | nil => simp at h
      | cons text others =>
        obtain ⟨rfl, rfl⟩ := List.cons.inj h
        exact ⟨text, rfl, others, rfl, rfl⟩

theorem texts?_eq_some_iff {value : Json} {texts : List String} :
    value.texts? = some texts ↔
      (∃ text, value = .string text ∧ texts = [text]) ∨ value = .strings texts := by
  cases value <;> simp [texts?, strings, mapM_string?_eq_some_iff, eq_comm]

end Json

namespace Jose

namespace Payload

/-- The audience is the name or a list of names with it. -/
def AddressedTo (payload : Payload) (name : String) : Prop :=
  payload.get? "aud" = some (.string name) ∨
    ∃ names, payload.get? "aud" = some (.strings names) ∧ name ∈ names

theorem addressedTo_iff {payload : Payload} {name : String} :
    payload.AddressedTo name ↔ ∃ names, payload.audience? = some names ∧ name ∈ names := by
  simp only [AddressedTo, audience?, Option.bind_eq_some_iff, Json.texts?_eq_some_iff]
  constructor
  · rintro (h | ⟨names, h, hmem⟩)
    · exact ⟨[name], ⟨_, h, .inl ⟨name, rfl, rfl⟩⟩, List.mem_singleton_self name⟩
    · exact ⟨names, ⟨_, h, .inr rfl⟩, hmem⟩
  · rintro ⟨names, ⟨value, h, ⟨text, rfl, rfl⟩ | rfl⟩, hmem⟩
    · cases List.mem_singleton.mp hmem
      exact .inl h
    · exact .inr ⟨names, h, hmem⟩

end Payload

namespace RegisteredClaims

/-- Claims that pass are those that would pass without an audience, and that name the audience if
they name any. -/
theorem check_eq_ok_iff_audience {claims : RegisteredClaims} {expected : Expectation} {now : Nat} :
    claims.check expected now = .ok () ↔
      claims.check { expected with audience := none } now = .ok () ∧
        names expected.audience claims.audiences = true := by
  simp only [check]
  split
  · simp
  · split
    · simp
    · split
      · simp
      · split
        · simp
        · cases names expected.audience claims.audiences <;> simp [names]

theorem names_eq_true_iff {expected : Option String} {found : Option (List String)} :
    names expected found = true ↔
      ∀ wanted listed, expected = some wanted → found = some listed → wanted ∈ listed := by
  cases expected <;> cases found <;> simp [names]

end RegisteredClaims

variable {text : String} {key : VerificationKey} {algorithm : Algorithm} {expected : Expectation}
  {now : Nat} {payload : Payload}

/-- Nothing else than what `check_eq_ok` lists is asked of a token. -/
theorem check_eq_ok_of {token : Compact} {header : Header} {bytes : List UInt8}
    {claims : RegisteredClaims} (htoken : Compact.ofText? text = some token)
    (hheader : Header.ofSegment token.header = .ok header)
    (halgorithm : header.algorithm = algorithm)
    (hfits : key.fits algorithm = true) (hsigned : token.isSignedBy key algorithm = .ok true)
    (hbytes : Text.Base64Url.decode .refused token.payload = .ok bytes)
    (hpayload : Json.Decoder.keyMap .json (Json.Document.ofBytes bytes) = .ok payload)
    (hclaims : RegisteredClaims.ofDocument? (Json.Document.ofBytes bytes) = some claims)
    (hcheck : claims.check expected now = .ok ()) :
    check text key algorithm expected now = .ok payload := by
  simp [check, hfits, htoken, hheader, halgorithm, hsigned, mapError_eq_ok.mpr hbytes,
    mapError_eq_ok.mpr hpayload, hclaims, hcheck, bind, Except.bind, pure, Except.pure]

/-- A check that expects an audience lets through what it would without, but for the tokens that
name others and not the one expected. -/
theorem check_eq_ok_iff_audience :
    check text key algorithm expected now = .ok payload ↔
      check text key algorithm { expected with audience := none } now = .ok payload ∧
        ∀ wanted names, expected.audience = some wanted → payload.audience? = some names →
          wanted ∈ names := by
  constructor
  · intro h
    obtain ⟨token, header, bytes, claims, htoken, hheader, halgorithm, hfits, hsigned, hbytes,
      hpayload, hclaims, hcheck⟩ := check_eq_ok h
    obtain ⟨hothers, hnames⟩ := RegisteredClaims.check_eq_ok_iff_audience.mp hcheck
    rw [RegisteredClaims.audiences_eq_audience? hpayload hclaims,
      RegisteredClaims.names_eq_true_iff] at hnames
    exact ⟨check_eq_ok_of htoken hheader halgorithm hfits hsigned hbytes hpayload hclaims hothers,
      hnames⟩
  · rintro ⟨h, hnames⟩
    obtain ⟨token, header, bytes, claims, htoken, hheader, halgorithm, hfits, hsigned, hbytes,
      hpayload, hclaims, hothers⟩ := check_eq_ok h
    refine check_eq_ok_of htoken hheader halgorithm hfits hsigned hbytes hpayload hclaims ?_
    rw [RegisteredClaims.check_eq_ok_iff_audience,
      RegisteredClaims.audiences_eq_audience? hpayload hclaims, RegisteredClaims.names_eq_true_iff]
    exact ⟨hothers, hnames⟩

/-- A token that was checked for an audience is addressed to it exactly if it names any. -/
theorem addressedTo_iff_of_check {audience : String}
    (h : check text key algorithm expected now = .ok payload)
    (hexpected : expected.audience = some audience) :
    payload.AddressedTo audience ↔ payload.audience?.isSome = true := by
  obtain ⟨-, hnames⟩ := check_eq_ok_iff_audience.mp h
  rw [Payload.addressedTo_iff, Option.isSome_iff_exists]
  constructor
  · rintro ⟨names, hpayload, -⟩
    exact ⟨names, hpayload⟩
  · rintro ⟨names, hpayload⟩
    exact ⟨names, hpayload, hnames audience names hexpected hpayload⟩

end Jose

/-! ## Who checks for an audience -/

theorem SignedToken.addressedTo_iff_of_verifiedPayload [Url.DomainRules] {kind : SignedToken}
    (hkind : kind = .idToken ∨ kind = .accessToken) {token : String} {now : Nat} {fetcher : Fetcher}
    {payload : Jose.Payload}
    (h : (kind.verifiedPayload token now fetcher).result = .ok payload) :
    payload.AddressedTo solidAudience ↔ payload.audience?.isSome = true := by
  obtain ⟨issuer, header, keys, key, -, -, -, -, -, hcheck⟩ := verifiedPayload_eq_ok h
  refine Jose.addressedTo_iff_of_check hcheck ?_
  rcases hkind with rfl | rfl <;> rfl

theorem TokenSigner.exists_verified_of_read {signer : TokenSigner} {now : Nat} {text : String}
    {token : AccessToken} (h : signer.read now text = .ok token) :
    ∃ payload, Jose.check text signer.keys.verificationKey .rs256 signer.expectation now =
      .ok payload := by
  obtain ⟨payload, hpayload, -⟩ := exists_of_bind_eq_ok h
  exact ⟨payload, mapError_eq_ok.mp hpayload⟩

namespace Verifier
variable {now : Nat} {fetcher : Fetcher} {c : Credential} {held claims : Claims}

/-- A check for an audience refuses what it would take without one only if the token names others.
So of the tokens that are taken as identities, as tokens of other servers, or as the server's own,
those that name an audience are for `solid`, and those that name none are taken all the same. -/
theorem addressed_iff_audience_named [Url.DomainRules] (now : Nat) (fetcher : Fetcher) :
    (∀ text key algorithm (expected : Jose.Expectation) payload,
      Jose.check text key algorithm expected now = .ok payload ↔
        Jose.check text key algorithm { expected with audience := none } now = .ok payload ∧
          ∀ wanted names, expected.audience = some wanted → payload.audience? = some names →
            wanted ∈ names) ∧
    (∀ trusted c held claims,
      ((oidc trusted).verify now c held fetcher).result = .ok claims →
        ∃ payload, (SignedToken.idToken.verifiedPayload c.token now fetcher).result = .ok payload ∧
          (payload.AddressedTo solidAudience ↔ payload.audience?.isSome = true)) ∧
    (∀ c held claims, (accessToken.verify now c held fetcher).result = .ok claims →
      ∃ payload,
        (SignedToken.accessToken.verifiedPayload c.token now fetcher).result = .ok payload ∧
          (payload.AddressedTo solidAudience ↔ payload.audience?.isSome = true)) ∧
    ∀ (signer : TokenSigner) text token, signer.read now text = .ok token →
      ∃ payload, Jose.check text signer.keys.verificationKey .rs256 signer.expectation now =
          .ok payload ∧
        (payload.AddressedTo solidAudience ↔ payload.audience?.isSome = true) := by
  refine ⟨fun _ _ _ _ _ => Jose.check_eq_ok_iff_audience, fun trusted c held claims h => ?_,
    fun c held claims h => ?_, fun signer text token h => ?_⟩
  · obtain ⟨found, hfound, -⟩ := verify_eq_ok_iff.mp h
    rw [assertions] at hfound
    obtain ⟨payload, _, hpayload, -⟩ :=
      IdToken.assertions_eq_ok_iff.mp (expecting_eq_ok hfound).2
    exact ⟨payload, hpayload, SignedToken.addressedTo_iff_of_verifiedPayload (.inl rfl) hpayload⟩
  · obtain ⟨found, hfound, -⟩ := verify_eq_ok_iff.mp h
    rw [assertions] at hfound
    obtain ⟨payload, _, hpayload, -⟩ :=
      SourceToken.exists_proofs_of_assertions (expecting_eq_ok hfound).2
    exact ⟨payload, hpayload, SignedToken.addressedTo_iff_of_verifiedPayload (.inr rfl) hpayload⟩
  · obtain ⟨payload, hpayload⟩ := TokenSigner.exists_verified_of_read h
    exact ⟨payload, hpayload, Jose.addressedTo_iff_of_check hpayload rfl⟩

/-- The issuer `https://up` addresses a token to `app` and `solid`; signed with the secret `k`. -/
def sampleAddressedToken : String :=
  "eyJhbGciOiJIUzI1NiJ9." ++
    "eyJpc3MiOiJodHRwczovL3VwIiwiYXVkIjpbImFwcCIsInNvbGlkIl19." ++
    "OML77w5sf9Wsj9IaCDA023V86aSMu6NxvGkHOEZ2RfA"

/-- A token that names its audience is taken, and it is for `solid`. -/
theorem sample_addressed_token :
    let c : Credential := ⟨sampleAddressedToken, .accessToken⟩
    (∃ claims, (accessToken.verify 1000 c ∅ Server.sampleFetcher).result = .ok claims) ∧
      ∃ payload,
        (SignedToken.accessToken.verifiedPayload c.token 1000 Server.sampleFetcher).result =
          .ok payload ∧ payload.AddressedTo solidAudience := by
  intro c
  have htaken : (accessToken.verify 1000 c ∅ Server.sampleFetcher).result.isOk = true := by
    decide +kernel
  have hnamed : (Jose.readPayload c.token).toOption.all (·.audience?.isSome) = true := by
    decide +kernel
  obtain ⟨claims, hclaims⟩ := exists_ok_of_isOk htaken
  obtain ⟨payload, hpayload, haddressed⟩ :=
    (addressed_iff_audience_named 1000 Server.sampleFetcher).2.2.1 c ∅ claims hclaims
  obtain ⟨_, _, _, _, hshown, -⟩ := SignedToken.verifiedPayload_eq_ok hpayload
  rw [hshown] at hnamed
  exact ⟨⟨claims, hclaims⟩, payload, hpayload, haddressed.mpr hnamed⟩

/-- The issuer `https://idp` identifies Alice and names no audience; signed with the secret `k`. -/
def sampleIdToken : String :=
  "eyJhbGciOiJIUzI1NiJ9." ++
    "eyJpc3MiOiJodHRwczovL2lkcCIsImV4cCI6NDEwMjQ0NDgwMCwid2ViaWQiOiJodHRwczovL2FsaWNlLyNtZSJ9." ++
    "-UtsxOaTtQO_fFlyyEdQAM8sHy1SQoxQQdXTSSNb4bw"

/-- That issuer publishes its secret. -/
def sampleProvider : Fetcher :=
  let key := Json.ofMembers [("kty", .string "oct"), ("k", .string "aw")]
  .pinned <| .ofList
    [("https://idp/.well-known/openid-configuration",
        .ofMembers [("jwks_uri", .string "https://idp/jwks")]),
      ("https://idp/jwks", .ofMembers [("keys", .array [key])])]

/-- Whoever finds that secret, and lets the issuer speak for Alice, takes the token. -/
theorem verify_sampleIdToken [Url.DomainRules] (trusted : List String) (held : Claims)
    (fetcher : Fetcher) (hkey : ((Discovery.openIdKeys "https://idp" fetcher).result.toOption.bind
      (·.matchingKey none .hs256 |>.toOption)) = some (.secret [0x6B]))
    (hentitled : (IdToken.checkIssuer trusted "https://alice/#me" "https://idp"
      fetcher).result.toOption = some ()) :
    ∃ claims payload,
      ((oidc trusted).verify 1000 ⟨sampleIdToken, .oidc⟩ held fetcher).result = .ok claims ∧
      (SignedToken.idToken.verifiedPayload sampleIdToken 1000 fetcher).result = .ok payload ∧
      payload.get? "aud" = none := by
  have hheaders : (Jose.readHeader sampleIdToken).toOption.any (fun header =>
      header.keyId == none && header.algorithm == .hs256) = true := by
    decide +kernel
  have hchecks : (Jose.check sampleIdToken (.secret [0x6B]) .hs256
      (SignedToken.idToken.expectation "https://idp") 1000).toOption.any (fun payload =>
        payload.issuer? == some "https://idp" && (payload.get? "aud").isNone &&
          (payload.get? "webid").bind Json.string? == some "https://alice/#me") = true := by
    decide +kernel
  obtain ⟨header, hheader, hheaders⟩ := (Option.any_eq_true _ _).mp hheaders
  obtain ⟨payload, hcheck, hchecks⟩ := (Option.any_eq_true _ _).mp hchecks
  obtain ⟨keys, hkeys, hkey⟩ := Option.bind_eq_some_iff.mp hkey
  simp only [Bool.and_eq_true, beq_iff_eq, Option.isNone_iff_eq_none, Option.bind_eq_some_iff,
    Json.string?_eq_some_iff, exists_eq_right] at hheaders hchecks
  obtain ⟨hkeyId, halgorithm⟩ := hheaders
  obtain ⟨⟨hissuer, haudience⟩, hwebid⟩ := hchecks
  have hpayload : (SignedToken.idToken.verifiedPayload sampleIdToken 1000 fetcher).result =
      .ok payload := by
    refine SignedToken.verifiedPayload_of_check hissuer (eq_ok_of_toOption hheader) rfl
      (eq_ok_of_toOption hkeys) ?_ (eq_ok_of_toOption (halgorithm ▸ hcheck))
    rw [hkeyId, halgorithm]
    exact eq_ok_of_toOption hkey
  have hspeaks : (IdToken.checkIssuer trusted "https://alice/#me" (payload.issuer?.getD "")
      fetcher).result = .ok () := by
    rw [hissuer]
    exact eq_ok_of_toOption hentitled
  obtain ⟨found, hfound⟩ : ∃ found,
      ((oidc trusted).assertions 1000 ⟨sampleIdToken, .oidc⟩ fetcher).result = .ok found := by
    rw [assertions, expecting, if_pos rfl]
    exact ⟨_, IdToken.assertions_eq_ok_iff.mpr ⟨payload, _, hpayload, hwebid, hspeaks, rfl⟩⟩
  exact ⟨_, payload, verify_eq_ok_iff.mpr ⟨found, hfound, rfl⟩, hpayload, haudience⟩

/-- Such a token is taken as an identity, though it is addressed to nobody. -/
theorem sample_unaddressed_token :
    let c : Credential := ⟨sampleIdToken, .oidc⟩
    (∃ claims, ((oidc ["https://idp"]).verify 1000 c ∅ sampleProvider).result = .ok claims) ∧
      ∃ payload,
        (SignedToken.idToken.verifiedPayload c.token 1000 sampleProvider).result = .ok payload ∧
          ¬ payload.AddressedTo solidAudience := by
  intro c
  obtain ⟨claims, payload, hclaims, hpayload, hnone⟩ :=
    verify_sampleIdToken ["https://idp"] ∅ sampleProvider (by decide +kernel) (by decide +kernel)
  exact ⟨⟨claims, hclaims⟩, payload, hpayload, by simp [Jose.Payload.AddressedTo, hnone]⟩

end Verifier

end UserManagedAccess
