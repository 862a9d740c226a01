import UserManagedAccess.Proofs.MintedTokens
import UserManagedAccess.Proofs.SourceProvenance
import UserManagedAccess.Proofs.VerifierContract

/-! What is let through of a signed token is what was signed. A token is read twice, once to find
out whose keys to ask for and once under the check of its signature, by readers that differ in where
they cut it and in what they take for base 64; on a token that passes the check they agree. -/
namespace UserManagedAccess

/-- While a payload is verified, nothing is asked for but the keys of the issuer that it names. -/
theorem SignedToken.requested_verifiedPayload [Url.DomainRules] {kind : SignedToken}
    {token : String} {now : Nat} {fetcher : Fetcher} {payload : Jose.Payload} {issuer : String}
    (h : (kind.verifiedPayload token now fetcher).result = .ok payload)
    (hissuer : payload.issuer? = some issuer) :
    (kind.verifiedPayload token now fetcher).requested =
      (kind.issuerKeys issuer fetcher).requested := by
  rw [verifiedPayload] at h ⊢
  obtain ⟨shown, hshown, h⟩ := (Fetching.result_bind_eq_ok fetcher).mp h
  rw [Fetching.requested_bind_of_ok fetcher hshown, Fetching.requested_liftM, List.nil_append]
  cases hnamed : shown.issuer? with
  | none => simp [hnamed] at h
  | some named =>
    simp only [hnamed] at h ⊢
    obtain ⟨header, hheader, h⟩ := (Fetching.result_bind_eq_ok fetcher).mp h
    rw [Fetching.requested_bind_of_ok fetcher hheader, Fetching.requested_liftM, List.nil_append]
    split at h
    · cases h
    · next hkeyId =>
      rw [if_neg hkeyId]
      obtain ⟨keys, hkeys, h⟩ := (Fetching.result_bind_eq_ok fetcher).mp h
      obtain ⟨key, hkey, hverify⟩ := (Fetching.result_bind_eq_ok fetcher).mp h
      rw [Fetching.requested_bind_of_ok fetcher hkeys, Fetching.requested_bind_of_ok fetcher hkey,
        Fetching.requested_liftM, Fetching.requested_liftM, List.append_nil, List.append_nil]
      -- the payload that named the issuer is the one that was verified
      cases Jose.eq_of_readPayload_of_check hshown (mapError_eq_ok.mp hverify)
      cases hissuer.symm.trans hnamed
      rfl

/-- The keys at the well-known address are all that is asked for. -/
theorem Discovery.exists_wellKnown_of_wellKnownKeys [Url.DomainRules] {issuer : String}
    {fetcher : Fetcher} {keys : Jose.JwkSet}
    (h : (wellKnownKeys issuer fetcher).result = .ok keys) :
    ∃ url, wellKnown issuer "jwks.json" = .ok url ∧
      (wellKnownKeys issuer fetcher).requested = [url.toText] := by
  rw [wellKnownKeys] at h ⊢
  obtain ⟨url, hurl, h⟩ := (Fetching.result_bind_eq_ok fetcher).mp h
  rw [Fetching.requested_bind_of_ok fetcher hurl, Fetching.requested_liftM]
  rw [keySet] at h ⊢
  obtain ⟨document, hdocument, -⟩ := (Fetching.result_bind_eq_ok fetcher).mp h
  rw [Fetching.requested_bind_of_ok fetcher hdocument, Fetching.requested_ask,
    Fetching.requested_liftM]
  rw [Fetching.result_liftM] at hurl
  exact ⟨url, hurl, rfl⟩

namespace JwtOptions
variable {options : JwtOptions} {token : String} {now : Nat} {fetcher : Fetcher}
  {found : List (String × Json)}

/-- A token that has to be verified is asked about as far as that takes, and then what is let
through is selected from the payload that was verified. -/
theorem exists_verifiedPayload [Url.DomainRules] (hverify : options.verify = true)
    (h : (options.assertions token now fetcher).result = .ok found) :
    ∃ payload, (SignedToken.jwt.verifiedPayload token now fetcher).result = .ok payload ∧
      options.select payload.entries = .ok found ∧
      (options.assertions token now fetcher).requested =
        (SignedToken.jwt.verifiedPayload token now fetcher).requested := by
  simp only [assertions, hverify, ↓reduceIte] at h ⊢
  obtain ⟨payload, hpayload, h⟩ := (Fetching.result_bind_eq_ok fetcher).mp h
  obtain ⟨shown, hshown, h⟩ := (Fetching.result_bind_eq_ok fetcher).mp h
  rw [Fetching.requested_bind_of_ok fetcher hpayload, Fetching.requested_bind_of_ok fetcher hshown]
  rw [Fetching.result_mapError_eq_ok] at hpayload
  obtain ⟨_, _, _, _, hshown', -⟩ := SignedToken.verifiedPayload_eq_ok hpayload
  cases hshown.symm.trans hshown'
  exact ⟨payload, hpayload, h, by simp⟩

theorem assertions_of_verifiedPayload [Url.DomainRules] {payload : Jose.Payload}
    (hpayload : (SignedToken.jwt.verifiedPayload token now fetcher).result = .ok payload)
    (hselect : options.select payload.entries = .ok found) :
    (options.assertions token now fetcher).result = .ok found := by
  obtain ⟨_, _, _, _, hshown, -⟩ := SignedToken.verifiedPayload_eq_ok hpayload
  rw [assertions]
  cases options.verify with
  | false =>
    simp only [Bool.false_eq_true, ↓reduceIte, Fetching.result_bind_eq_ok, Fetching.result_liftM]
    exact ⟨payload, hshown, hselect⟩
  | true =>
    simp only [↓reduceIte, Fetching.result_bind_eq_ok, Fetching.result_mapError_eq_ok,
      Fetching.result_liftM]
    exact ⟨payload, hpayload, payload, hshown, hselect⟩

/-- Of a payload each claim that is allowed is let through once. -/
theorem values_pushAll_select {payload : Jose.Payload}
    (h : options.select payload.entries = .ok found) (held : Claims) (name : String) :
    (held.pushAll found).values name = held.values name ++
      if options.allowedClaims.contains name then (payload.get? name).toList else [] := by
  obtain ⟨rfl, -⟩ := select_eq_ok_iff.mp h
  have hmembers : payload.entries.filter (·.1 == name) =
      ((payload.get? name).map (name, ·)).toList :=
    KeyMap.filter_key_eq (KeyMap.nodup_keys payload.sorted) name
  have hown : (payload.entries.filter (options.allowedClaims.contains ·.1)).filter (·.1 == name) =
      (payload.entries.filter (·.1 == name)).filter (options.allowedClaims.contains ·.1) := by
    simp only [List.filter_filter, Bool.and_comm]
  rw [Claims.values_pushAll, hown, hmembers]
  cases payload.get? name with
  | none => simp
  | some value => by_cases hallowed : name ∈ options.allowedClaims <;> simp [hallowed]

end JwtOptions

namespace Verifier

/-- Whatever the text, the key, the algorithm and what is expected, and at any time: what the check
of a signed token comes to is what the token shows without a check. So whatever credential is taken
by a verifier of tokens with claims of any kind that has to check them: its payload was checked
against its signature, with a key from the set that is published by the issuer the payload names,
and nothing but that set was asked for. To what was held, under each name that is allowed, the
member of the payload is added, once, and nothing is added under others; and if other members are an
error, there are none. -/
theorem accepted_claims_signed [Url.DomainRules] (now : Nat) :
    (∀ text key algorithm expected payload,
      Jose.verify text key algorithm expected now = .ok payload →
        Jose.readPayload text = .ok payload) ∧
    ∀ (options : JwtOptions) (c : Credential) (held claims : Claims) (fetcher : Fetcher),
      options.verify = true →
      ((jwt options).verify now c held fetcher).result = .ok claims →
        ∃ payload issuer url header keys key,
          payload.get? "iss" = some (.string issuer) ∧
          Discovery.wellKnown issuer "jwks.json" = .ok url ∧
          ((jwt options).verify now c held fetcher).requested = [url.toText] ∧
          (Discovery.wellKnownKeys issuer fetcher).result = .ok keys ∧
          Jose.readHeader c.token = .ok header ∧
          keys.matchingKey header.keyId header.algorithm = .ok key ∧
          Jose.verify c.token key header.algorithm ⟨none, none, []⟩ now = .ok payload ∧
          (∀ name, claims.values name = held.values name ++
            if options.allowedClaims.contains name then (payload.get? name).toList else []) ∧
          (options.errorOnExtraClaims = true →
            ∀ name value, payload.get? name = some value → name ∈ options.allowedClaims) := by
  refine ⟨fun text key algorithm expected payload h =>
    Jose.readPayload_of_check (mapError_eq_ok.mp h), ?_⟩
  intro options c held claims fetcher hverify h
  obtain ⟨found, hfound, rfl⟩ := verify_eq_ok_iff.mp h
  rw [verify_apply]
  rw [assertions] at hfound ⊢
  obtain ⟨hformat, hfound⟩ := expecting_eq_ok hfound
  rw [expecting, if_pos hformat]
  obtain ⟨payload, hpayload, hselect, hrequested⟩ :=
    JwtOptions.exists_verifiedPayload hverify hfound
  obtain ⟨issuer, header, keys, key, -, hissuer, hheader, hkeys, hkey, hcheck⟩ :=
    SignedToken.verifiedPayload_eq_ok hpayload
  have hverified : Jose.verify c.token key header.algorithm ⟨none, none, []⟩ now = .ok payload := by
    rw [Jose.verify]
    exact mapError_eq_ok.mpr hcheck
  have hrequested' := SignedToken.requested_verifiedPayload hpayload hissuer
  rw [SignedToken.issuerKeys] at hkeys hrequested'
  obtain ⟨url, hurl, hasked⟩ := Discovery.exists_wellKnown_of_wellKnownKeys hkeys
  refine ⟨payload, issuer, url, header, keys, key, Jose.Payload.get?_iss hissuer, hurl, ?_, hkeys,
    hheader, hkey, hverified, JwtOptions.values_pushAll_select hselect held,
    fun hstrict name value hvalue => ?_⟩
  · exact (hrequested.trans hrequested').trans hasked
  · have hmem := KeyMap.get?_eq_some_iff_mem.mp hvalue
    exact List.contains_iff_mem.mp ((JwtOptions.select_eq_ok_iff.mp hselect).2 hstrict _ hmem)

/-- The issuer `https://up` vouches for a role. -/
def sampleRole : Jose.Payload := .ofList [("iss", .string "https://up"), ("role", .string "nurse")]

/-- It signs that with the secret `k`, which is its key `1`. -/
def sampleRoleToken : String :=
  (Jose.Compact.underSecret [0x6B] (.signed .hs256 "1") sampleRole).toText

/-- It publishes its secret at the well-known address. -/
def sampleIssuer : Fetcher :=
  let key := Json.ofMembers [("kty", .string "oct"), ("kid", .string "1"), ("k", .string "aw")]
  .pinned (.ofList [("https://up/.well-known/jwks.json", .ofMembers [("keys", .array [key])])])

theorem verify_sampleRoleToken :
    ∃ claims, ((jwt ⟨["role"], false, true⟩).verify 1000 ⟨sampleRoleToken, .jwt⟩ ∅
      sampleIssuer).result = .ok claims := by
  have hwritable : (Json.ofKeyMap sampleRole).WellFormed Json.Document.maxDepth := by
    rw [Json.ofKeyMap, sampleRole, KeyMap.entries_ofList]
    exact Json.wellFormed_ofMembers (by simp [Json.wellFormed_string])
  have hclaims : Jose.RegisteredClaims.ofDocument?
      (Json.Document.ofJson (.ofKeyMap sampleRole)) =
        some ⟨none, none, none, some ["https://up"], none⟩ := by
    decide +kernel
  have hcheck : Jose.check sampleRoleToken (.secret [0x6B]) .hs256 ⟨none, none, []⟩ 1000 =
      .ok sampleRole :=
    Jose.check_underSecret hwritable rfl hclaims _ _
  have hheader : Jose.readHeader sampleRoleToken = .ok (.signed .hs256 "1") :=
    Jose.readHeader_carrying _ _ _
  have hkey : ((Discovery.wellKnownKeys "https://up" sampleIssuer).result.toOption.bind
      (·.matchingKey (some "1") .hs256 |>.toOption)) = some (.secret [0x6B]) := by
    decide +kernel
  obtain ⟨keys, hkeys, hkey⟩ := Option.bind_eq_some_iff.mp hkey
  have hpayload : (SignedToken.jwt.verifiedPayload sampleRoleToken 1000 sampleIssuer).result =
      .ok sampleRole :=
    SignedToken.verifiedPayload_of_check (by decide +kernel) hheader rfl (eq_ok_of_toOption hkeys)
      (eq_ok_of_toOption hkey) hcheck
  have hfound : ((jwt ⟨["role"], false, true⟩).assertions 1000 ⟨sampleRoleToken, .jwt⟩
      sampleIssuer).result = .ok [("role", .string "nurse")] := by
    rw [assertions, expecting, if_pos rfl]
    exact JwtOptions.assertions_of_verifiedPayload hpayload rfl
  exact ⟨_, verify_eq_ok_iff.mpr ⟨_, hfound, rfl⟩⟩

/-- Of such a token the role is let through, as it was signed, and the name of the issuer is not. -/
theorem sample_claims_signed :
    let verifier := jwt ⟨["role"], false, true⟩
    let c : Credential := ⟨sampleRoleToken, .jwt⟩
    ∃ claims payload, (verifier.verify 1000 c ∅ sampleIssuer).result = .ok claims ∧
      Jose.readPayload c.token = .ok payload ∧ payload.get? "iss" ≠ none ∧
      claims.values "role" = (payload.get? "role").toList ∧ claims.values "iss" = [] := by
  intro verifier c
  obtain ⟨claims, hclaims⟩ := verify_sampleRoleToken
  obtain ⟨payload, issuer, _, _, _, _, hissuer, -, -, -, -, -, hverified, hvalues, -⟩ :=
    (accepted_claims_signed 1000).2 ⟨["role"], false, true⟩ c ∅ claims sampleIssuer rfl hclaims
  refine ⟨claims, payload, hclaims, (accepted_claims_signed 1000).1 _ _ _ _ _ hverified, ?_,
    hvalues "role", hvalues "iss"⟩
  simp [hissuer]

end Verifier

end UserManagedAccess
