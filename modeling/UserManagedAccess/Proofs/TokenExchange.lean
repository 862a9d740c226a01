import UserManagedAccess.Proofs.DerivationHandles
import UserManagedAccess.Proofs.Elimination
import UserManagedAccess.Proofs.KeyAddress
import UserManagedAccess.Proofs.MintedTokens
import UserManagedAccess.Proofs.SourceProvenance

/-! Tokens of one server at another: what a server mints is understood by every server that finds its
published key. -/
namespace UserManagedAccess

theorem KeyPair.matchingKey_published (keys : KeyPair) :
    keys.published.matchingKey (some keys.keyId) .rs256 = .ok keys.verificationKey := by
  have hsupports : keys.publicKey.supports .rs256 = true := by
    rw [publicKey, Jose.Jwk.supports]
    rfl
  have hnamed : (keys.publicKey.keyId == some keys.keyId) = true := by
    simp [publicKey, Jose.Jwk.ofPublicKey]
  have hfind : keys.published.find? (some keys.keyId) .rs256 = some keys.publicKey := by
    rw [published, Jose.JwkSet.find?, List.find?_cons, Option.all_some, hnamed, hsupports]
    rfl
  rw [Jose.JwkSet.matchingKey, hfind]
  simp only [publicKey, Jose.Jwk.ofPublicKey, Jose.Jwk.verificationKey, Jose.Jwk.numberBytes,
    Text.Base64Url.decode_encode]
  rfl

namespace Permission

theorem member?_toJson (p : Permission) :
    p.toJson.member? "resource_id" = p.resource.map .string ∧
      p.toJson.member? "resource_scopes" = p.scopes.map .strings := by
  rw [toJson, Json.member?_ofSome (by simp), Json.member?_ofSome (by simp)]
  exact ⟨rfl, rfl⟩

/-- The permission is one for reading what a derivation handle stands for. -/
def IsReading (p : Permission) : Prop := p.resource.isSome = true ∧ p.Lists Scope.derivationRead

end Permission

theorem Claims.values_pushAll_map (held : Claims) (name k : String) (values : List Json) :
    (held.pushAll (values.map (name, ·))).values k =
      held.values k ++ if k = name then values else [] := by
  rw [values_pushAll, List.filter_map]
  by_cases hk : k = name
  · subst hk
    simp [Function.comp_def]
  · simp [Function.comp_def, hk, Ne.symm hk]

/-! ## What the permissions of a token prove -/

namespace SourceToken

theorem grantsReading_toJson_iff {p : Permission} {handle : String} :
    GrantsReading p.toJson handle ↔ p.resource = some handle ∧ p.Lists Scope.derivationRead := by
  obtain ⟨hresource, hscopes⟩ := p.member?_toJson
  rw [GrantsReading, hresource, hscopes, Permission.Lists]
  refine and_congr (by simp) ?_
  cases p.scopes with
  | none => simp
  | some scopes => simp [Json.strings]

theorem mapM_handle?_toJson_iff {ps : List Permission} {handles : List String} :
    (ps.map Permission.toJson).mapM handle? = some handles ↔
      ps.map (·.resource) = handles.map some ∧ ∀ p ∈ ps, p.Lists Scope.derivationRead := by
  induction ps generalizing handles with
  | nil => cases handles <;> simp
  | cons p ps ih =>
    simp only [List.map_cons, List.mapM_cons, Option.pure_def, Option.bind_eq_bind,
      Option.bind_eq_some_iff, handle?_eq_some_iff, grantsReading_toJson_iff, ih,
      Option.some.injEq, List.forall_mem_cons]
    constructor
    · rintro ⟨handle, ⟨hresource, hlists⟩, others, ⟨hothers, hall⟩, rfl⟩
      exact ⟨by rw [List.map_cons, hresource, hothers], hlists, hall⟩
    · rintro ⟨hresources, hlists, hall⟩
      cases handles with
      | nil => cases hresources
      | cons handle others =>
        obtain ⟨hresource, hothers⟩ := List.cons.inj hresources
        exact ⟨handle, ⟨hresource, hlists⟩, others, ⟨hothers, hall⟩, rfl⟩

theorem isMetBy_proof_iff {issuer handle i d : String} :
    (Condition.sourceAccess i d).isMetBy (proof issuer handle) = true ↔
      i = issuer ∧ d = handle := by
  have hissuer : (proof issuer handle).text? "issuer" = some issuer := by
    rw [proof, Json.text?, Json.member?_ofMembers (by simp)]
    rfl
  have hhandle : (proof issuer handle).text? "derivation_resource_id" = some handle := by
    rw [proof, Json.text?, Json.member?_ofMembers (by simp)]
    rfl
  simp only [Condition.isMetBy, hissuer, hhandle, Bool.and_eq_true, beq_iff_eq, Option.some.injEq]
  exact and_congr eq_comm eq_comm

end SourceToken

/-! ## Where the keys are found -/

namespace Discovery
variable {issuer : String} {url : Url} {fetcher : Fetcher}

theorem result_umaKeys [Url.DomainRules] (hurl : umaKeysUrl issuer = .ok url) {keys : Jose.JwkSet}
    (hserved : fetcher url.toText = .ok keys.toJson) :
    (umaKeys issuer fetcher).result = .ok keys := by
  have hread : readKeySet url keys.toJson = .ok keys := by
    rw [readKeySet, Json.decodeWith, Jose.JwkSet.decoder_toJson]
    rfl
  simp only [umaKeys, keySet, Fetching.result_bind_eq_ok, Fetching.result_liftM,
    Fetching.result_ask]
  exact ⟨url, hurl, keys.toJson, hserved, hread⟩

end Discovery

/-! ## The exchange -/

namespace TokenSigner
variable {signer : TokenSigner} {minted now : Nat} {id : String} {permissions : List Permission}
  {url : Url} {fetcher : Fetcher}

private theorem issuer_ne_empty [Url.DomainRules]
    (h : Discovery.umaKeysUrl signer.issuer = .ok url) :
    signer.issuer ≠ "" := by
  intro hempty
  rw [hempty] at h
  cases h

theorem issuer?_claims {token : AccessToken} (h : signer.issuer ≠ "") :
    (signer.claims minted id token).issuer? = some signer.issuer := by
  have hiss : (signer.claims minted id token).get? "iss" = some (.string signer.issuer) :=
    get?_claims "iss"
  simp [Jose.Payload.issuer?, hiss, Json.string?, h]

/-- What the permissions of a token prove, if all of them are for reading derivations. -/
theorem proofs_claims_iff (h : signer.issuer ≠ "") {values : List Json} :
    SourceToken.proofs ((signer.claims minted id (.ofPermissions permissions)).issuer?.getD "")
        (signer.claims minted id (.ofPermissions permissions)) = .ok values ↔
      ∃ handles : List String, permissions.map (·.resource) = handles.map some ∧
        (∀ p ∈ permissions, p.Lists Scope.derivationRead) ∧
        values = handles.map (SourceToken.proof signer.issuer) := by
  have hpermissions : (signer.claims minted id (.ofPermissions permissions)).get? "permissions" =
      some (Permission.listToJson permissions) := get?_claims "permissions"
  rw [issuer?_claims h, Option.getD_some, SourceToken.proofs, hpermissions]
  simp only [Permission.listToJson]
  cases hread : (permissions.map Permission.toJson).mapM SourceToken.handle? with
  | none =>
    refine iff_of_false (by simp) ?_
    rintro ⟨handles, hresources, hlists, -⟩
    rw [SourceToken.mapM_handle?_toJson_iff.mpr ⟨hresources, hlists⟩] at hread
    cases hread
  | some handles =>
    simp only [Except.ok.injEq]
    constructor
    · rintro rfl
      obtain ⟨hresources, hlists⟩ := SourceToken.mapM_handle?_toJson_iff.mp hread
      exact ⟨handles, hresources, hlists, rfl⟩
    · rintro ⟨handles', hresources, hlists, rfl⟩
      rw [SourceToken.mapM_handle?_toJson_iff.mpr ⟨hresources, hlists⟩] at hread
      cases hread
      rfl

section
variable [Url.DomainRules] (hkey : signer.keys.key.SignaturesVerify .sha256)
  (hminted : signer.Mints minted)
  (hnow : now ≤ minted + signer.lifetime + Jose.leeway)
  (hurl : Discovery.umaKeysUrl signer.issuer = .ok url)
  (hserved : fetcher url.toText = .ok signer.keys.published.toJson)
include hkey hminted hnow hurl hserved

private theorem result_verifiedPayload_mint {token : AccessToken} (htoken : token.IsWritable) :
    (SignedToken.accessToken.verifiedPayload (signer.mint minted id token).token now
      fetcher).result = .ok (signer.claims minted id token) := by
  have hissuer : (signer.claims minted id token).issuer? = some signer.issuer :=
    issuer?_claims (issuer_ne_empty hurl)
  have hheader : Jose.readHeader (signer.mint minted id token).token = .ok signer.header :=
    readHeader_mint signer minted id token
  have hcheck : Jose.check (signer.mint minted id token).token signer.keys.verificationKey .rs256
      signer.expectation now = .ok (signer.claims minted id token) := by
    rw [check_mint hminted hkey htoken.isReadAs, if_neg (by omega)]
  -- the text itself would be unfolded on the way
  generalize (signer.mint minted id token).token = text at hheader hcheck
  exact SignedToken.verifiedPayload_of_check hissuer hheader rfl
    (Discovery.result_umaKeys hurl hserved) signer.keys.matchingKey_published hcheck

private theorem result_assertions_mint_iff {found : List (String × Json)} :
    (SourceToken.assertions (signer.mint minted id (.ofPermissions permissions)).token now
        fetcher).result = .ok found ↔
      ∃ handles : List String, permissions.map (·.resource) = handles.map some ∧
        (∀ p ∈ permissions, p.Lists Scope.derivationRead) ∧
        found = (handles.map (SourceToken.proof signer.issuer)).map (ClaimName.sourceAccess, ·) := by
  have hpayload : (SignedToken.accessToken.verifiedPayload
      (signer.mint minted id (.ofPermissions permissions)).token now fetcher).result =
        .ok (signer.claims minted id (.ofPermissions permissions)) :=
    result_verifiedPayload_mint hkey hminted hnow hurl hserved
      (AccessToken.isWritable_of_contract_eq_none rfl)
  simp only [SourceToken.assertions, SourceToken.read, Fetching.result_bind_eq_ok,
    Fetching.result_mapError_eq_ok, hpayload, Fetching.result_liftM, Fetching.result_pure,
    Except.ok.injEq, exists_eq_left', proofs_claims_iff (issuer_ne_empty hurl)]
  constructor
  · rintro ⟨values, ⟨handles, hresources, hlists, rfl⟩, rfl⟩
    exact ⟨handles, hresources, hlists, rfl⟩
  · rintro ⟨handles, hresources, hlists, rfl⟩
    exact ⟨_, ⟨handles, hresources, hlists, rfl⟩, rfl⟩

private theorem result_verify_mint_iff {held claims : Claims} :
    (Verifier.accessToken.verify now
        ⟨(signer.mint minted id (.ofPermissions permissions)).token, .accessToken⟩ held
        fetcher).result = .ok claims ↔
      ∃ handles : List String, permissions.map (·.resource) = handles.map some ∧
        (∀ p ∈ permissions, p.Lists Scope.derivationRead) ∧
        claims = held.pushAll
          ((handles.map (SourceToken.proof signer.issuer)).map (ClaimName.sourceAccess, ·)) := by
  simp only [Verifier.verify_eq_ok_iff, Verifier.assertions, Verifier.expecting, ↓reduceIte,
    result_assertions_mint_iff hkey hminted hnow hurl hserved]
  constructor
  · rintro ⟨found, ⟨handles, hresources, hlists, rfl⟩, rfl⟩
    exact ⟨handles, hresources, hlists, rfl⟩
  · rintro ⟨handles, hresources, hlists, rfl⟩
    exact ⟨_, ⟨handles, hresources, hlists, rfl⟩, rfl⟩

end

private theorem exists_handles_iff :
    (∃ handles : List String, permissions.map (·.resource) = handles.map some ∧
      ∀ p ∈ permissions, p.Lists Scope.derivationRead) ↔ ∀ p ∈ permissions, p.IsReading := by
  constructor
  · rintro ⟨handles, hresources, hlists⟩ p hp
    have hmem : p.resource ∈ handles.map some := hresources ▸ List.mem_map_of_mem hp
    obtain ⟨handle, -, hhandle⟩ := List.mem_map.mp hmem
    exact ⟨Option.isSome_iff_exists.mpr ⟨handle, hhandle.symm⟩, hlists p hp⟩
  · intro h
    refine ⟨permissions.map fun p => p.resource.getD "", ?_, fun p hp => (h p hp).2⟩
    rw [List.map_map]
    refine List.map_congr_left fun p hp => ?_
    obtain ⟨resource, hresource⟩ := Option.isSome_iff_exists.mp (h p hp).1
    simp [hresource]

/-- A token that one server mints is understood by every other that finds the published key where it
looks for it, as long as the token is good. It is accepted exactly if all its permissions are for
reading derivations, and then it proves the right to read each of them, in order, and nothing else.
Whoever signs as a plain web address has a place where others look for the key. -/
theorem verify_mint [Url.DomainRules] (permissions : List Permission) (id : String) (held : Claims)
    (hkey : signer.keys.key.SignaturesVerify .sha256) (hminted : signer.Mints minted)
    (hnow : now ≤ minted + signer.lifetime + Jose.leeway) :
    (Url.IsPlainAddress signer.issuer → ∃ url, Discovery.umaKeysUrl signer.issuer = .ok url) ∧
    ∀ (url : Url) (fetcher : Fetcher), Discovery.umaKeysUrl signer.issuer = .ok url →
      fetcher url.toText = .ok signer.keys.published.toJson →
      let token := (signer.mint minted id (.ofPermissions permissions)).token
      let result := (Verifier.accessToken.verify now ⟨token, .accessToken⟩ held fetcher).result
      ((∃ claims, result = .ok claims) ↔ ∀ p ∈ permissions, p.IsReading) ∧
      (∀ claims, result = .ok claims →
        ∃ handles : List String, permissions.map (·.resource) = handles.map some ∧
          ∀ name, claims.values name = held.values name ++
            if name = ClaimName.sourceAccess then handles.map (SourceToken.proof signer.issuer)
            else []) ∧
      ∀ handle i d,
        (Condition.sourceAccess i d).isMetBy (SourceToken.proof signer.issuer handle) = true ↔
          i = signer.issuer ∧ d = handle := by
  refine ⟨Discovery.exists_umaKeysUrl, fun url fetcher hurl hserved => ?_⟩
  intro token result
  have hresult (claims : Claims) : result = .ok claims ↔
      ∃ handles : List String, permissions.map (·.resource) = handles.map some ∧
        (∀ p ∈ permissions, p.Lists Scope.derivationRead) ∧
        claims = held.pushAll
          ((handles.map (SourceToken.proof signer.issuer)).map (ClaimName.sourceAccess, ·)) :=
    result_verify_mint_iff hkey hminted hnow hurl hserved
  refine ⟨?_, ?_, fun handle i d => SourceToken.isMetBy_proof_iff⟩
  · rw [← exists_handles_iff]
    constructor
    · rintro ⟨claims, hclaims⟩
      obtain ⟨handles, hresources, hlists, -⟩ := (hresult claims).mp hclaims
      exact ⟨handles, hresources, hlists⟩
    · rintro ⟨handles, hresources, hlists⟩
      exact ⟨_, (hresult _).mpr ⟨handles, hresources, hlists, rfl⟩⟩
  · intro claims hclaims
    obtain ⟨handles, hresources, -, rfl⟩ := (hresult claims).mp hclaims
    exact ⟨handles, hresources, fun name => Claims.values_pushAll_map held _ name _⟩

/-- The server `https://up`, which signs with the sample key. -/
def sample : TokenSigner := ⟨⟨"K1", Crypto.Rsa.sampleKey⟩, "https://up", 300⟩

theorem sample_mints : sample.Mints 1000 := ⟨by decide, by decide⟩

/-- A server that finds the key of `https://up` takes its token for the right to read `D1`. -/
theorem sample_verify_mint :
    let permissions := [⟨some "D1", some [Scope.derivationRead]⟩]
    let token := (sample.mint 1000 "T1" (.ofPermissions permissions)).token
    let fetcher := Fetcher.pinned (.ofList [("https://up/keys", sample.keys.published.toJson)])
    sample.keys.key.SignaturesVerify .sha256 ∧ sample.Mints 1000 ∧
      ∃ claims,
        (Verifier.accessToken.verify 1300 ⟨token, .accessToken⟩ ∅ fetcher).result = .ok claims ∧
          claims.values ClaimName.sourceAccess = [SourceToken.proof "https://up" "D1"] := by
  intro permissions token fetcher
  have hkey : sample.keys.key.SignaturesVerify .sha256 :=
    Crypto.Rsa.signaturesVerify_sampleKey .sha256
  have haddress : (Discovery.umaKeysUrl sample.issuer).toOption.map Url.toText =
      some "https://up/keys" := by
    decide +kernel
  obtain ⟨url, hurl, htext⟩ := Option.map_eq_some_iff.mp haddress
  have hurl : Discovery.umaKeysUrl sample.issuer = .ok url := by
    cases hfound : Discovery.umaKeysUrl sample.issuer with
    | error e =>
      rw [hfound] at hurl
      cases hurl
    | ok found =>
      rw [hfound] at hurl
      cases hurl
      rfl
  have hserved : fetcher url.toText = .ok sample.keys.published.toJson := by
    rw [htext]
    rfl
  obtain ⟨haccepted, hadded, -⟩ := (verify_mint permissions "T1" ∅ hkey sample_mints
    (by decide : ((1300 : Nat) : Int) ≤ ((1000 : Nat) : Int) + sample.lifetime + Jose.leeway)).2 url
    fetcher hurl hserved
  obtain ⟨claims, hclaims⟩ := haccepted.mpr (by
    rintro p hp
    cases List.mem_singleton.mp hp
    exact ⟨rfl, List.mem_singleton_self _⟩)
  obtain ⟨handles, hresources, hvalues⟩ := hadded claims hclaims
  have hhandles : handles = ["D1"] :=
    (List.map_inj_right fun _ _ => Option.some.inj).mp hresources.symm
  refine ⟨hkey, sample_mints, claims, hclaims, ?_⟩
  rw [hvalues, hhandles]
  rfl

end TokenSigner

end UserManagedAccess
