import UserManagedAccess.Proofs.Grants
import UserManagedAccess.Proofs.SignedTokens
import UserManagedAccess.Server.Startup

/-! The right to read a derivation is never taken from anywhere but a token that the server in
question has signed, unless tokens with claims of any kind are let through under its name. -/
namespace UserManagedAccess

/-! ## Verifiers that leave a claim name alone -/

namespace Verifier

mutual

/-- How tokens with claims of any kind are let through, wherever they are. -/
def jwtOptions : Verifier → List JwtOptions
  | .jwt options => [options]
  | .byFormat verifiers => jwtOptionsOf verifiers
  | _ => []

def jwtOptionsOf : List (CredentialFormat × Verifier) → List JwtOptions
  | [] => []
  | (_, verifier) :: rest => verifier.jwtOptions ++ jwtOptionsOf rest

end

/-- Tokens with claims of any kind are not let through under the name. -/
def Withholds (verifier : Verifier) (name : String) : Prop :=
  ∀ options ∈ verifier.jwtOptions, options.allowedClaims.contains name = false

theorem expecting_eq_ok {α : Type} {format : CredentialFormat} {m : Fetching α} {a : α}
    {c : Credential} {fetcher : Fetcher} (h : (expecting format c m fetcher).result = .ok a) :
    c.format = format ∧ (m fetcher).result = .ok a := by
  rw [expecting] at h
  split at h
  · next hformat => exact ⟨hformat, h⟩
  · cases h

section
variable [Url.DomainRules]

/-- What is found, one of the verifiers for a single format has found, and it was its format. -/
inductive FoundBy (now : Nat) (fetcher : Fetcher) (c : Credential) (found : List (String × Json))
    (options : List JwtOptions) : Prop where
  | selfAsserted (format_eq : c.format = .unsecure)
      (result_eq : SelfAsserted.assertions c.token = .ok found)
  | jwt (format_eq : c.format = .jwt) (own : JwtOptions) (mem : own ∈ options)
      (result_eq : (own.assertions c.token now fetcher).result = .ok found)
  | oidc (format_eq : c.format = .oidc) (trusted : List String)
      (result_eq : (IdToken.assertions trusted c.token now fetcher).result = .ok found)
  | accessToken (format_eq : c.format = .accessToken)
      (result_eq : (SourceToken.assertions c.token now fetcher).result = .ok found)

variable {now : Nat} {fetcher : Fetcher} {c : Credential} {found : List (String × Json)}

theorem FoundBy.mono {options more : List JwtOptions} (h : FoundBy now fetcher c found options)
    (hsub : ∀ own ∈ options, own ∈ more) : FoundBy now fetcher c found more := by
  cases h with
  | selfAsserted hformat hresult => exact .selfAsserted hformat hresult
  | jwt hformat own hmem hresult => exact .jwt hformat own (hsub own hmem) hresult
  | oidc hformat trusted hresult => exact .oidc hformat trusted hresult
  | accessToken hformat hresult => exact .accessToken hformat hresult

mutual

theorem foundBy_of_assertions : ∀ verifier : Verifier,
    (assertions now verifier c fetcher).result = .ok found →
      FoundBy now fetcher c found verifier.jwtOptions
  | .selfAsserted => fun h => by
    rw [assertions] at h
    obtain ⟨hformat, hresult⟩ := expecting_eq_ok h
    exact .selfAsserted hformat hresult
  | .jwt options => fun h => by
    rw [assertions] at h
    obtain ⟨hformat, hresult⟩ := expecting_eq_ok h
    exact .jwt hformat options (by simp [jwtOptions]) hresult
  | .oidc trusted => fun h => by
    rw [assertions] at h
    obtain ⟨hformat, hresult⟩ := expecting_eq_ok h
    exact .oidc hformat trusted hresult
  | .accessToken => fun h => by
    rw [assertions] at h
    obtain ⟨hformat, hresult⟩ := expecting_eq_ok h
    exact .accessToken hformat hresult
  | .byFormat verifiers => fun h => by
    rw [assertions] at h
    rw [jwtOptions]
    exact foundBy_of_assertionsByFormat verifiers h

theorem foundBy_of_assertionsByFormat : ∀ verifiers : List (CredentialFormat × Verifier),
    (assertionsByFormat now verifiers c fetcher).result = .ok found →
      FoundBy now fetcher c found (jwtOptionsOf verifiers)
  | [] => fun h => by
    rw [assertionsByFormat] at h
    cases h
  | (format, verifier) :: rest => fun h => by
    rw [assertionsByFormat] at h
    rw [jwtOptionsOf]
    split at h
    · exact (foundBy_of_assertions verifier h).mono fun _ => List.mem_append_left _
    · exact (foundBy_of_assertionsByFormat rest h).mono fun _ => List.mem_append_right _

end

end

end Verifier

/-- A server that is set up with tokens of that kind switched off, or without the name among the
claims that are let through, leaves it alone. -/
theorem Server.withholds_verifierOf {settings : VerifierSettings} {name : String}
    (h : settings.jwt.enabled = false ∨ settings.jwt.allowedClaims.contains name = false) :
    (verifierOf settings).Withholds name := by
  cases hu : settings.unsecure <;> cases ho : settings.oidc <;> cases ha : settings.accessToken <;>
    cases hj : settings.jwt.enabled <;>
      simp_all [verifierOf, Verifier.Withholds, Verifier.jwtOptions, Verifier.jwtOptionsOf]

/-! ## What tokens of other servers prove -/

namespace SourceToken

/-- The permission is one for reading the derivation that goes by the handle. -/
def GrantsReading (permission : Json) (handle : String) : Prop :=
  permission.member? "resource_id" = some (.string handle) ∧
    ∃ scopes, permission.member? "resource_scopes" = some (.array scopes) ∧
      .string Scope.derivationRead ∈ scopes

private theorem handle?_of_scopes {permission : Json} {scopes : List Json}
    (h : permission.member? "resource_scopes" = some (.array scopes)) :
    handle? permission = if scopes.any (·.string? == some Scope.derivationRead) then
      permission.text? "resource_id" else none := by
  rw [handle?, h]
  rfl

theorem handle?_eq_some_iff {permission : Json} {handle : String} :
    handle? permission = some handle ↔ GrantsReading permission handle := by
  rw [GrantsReading, ← Json.text?_eq_some_iff]
  by_cases hscopes : ∃ scopes, permission.member? "resource_scopes" = some (.array scopes)
  · obtain ⟨scopes, hscopes⟩ := hscopes
    rw [handle?_of_scopes hscopes]
    have hread : (scopes.any (·.string? == some Scope.derivationRead)) = true ↔
        .string Scope.derivationRead ∈ scopes := by
      simp [Json.string?_eq_some_iff]
    split
    · next h => simp [hscopes, hread.mp h]
    · next h => simp [hscopes, mt hread.mpr h]
  · -- no list at all is an empty one
    have hnone : ((permission.member? "resource_scopes").bind Json.array?).getD [] = [] := by
      cases hmember : permission.member? "resource_scopes" with
      | none => rfl
      | some value =>
        cases value <;> first | rfl | exact absurd ⟨_, hmember⟩ hscopes
    rw [handle?, hnone]
    simp only [List.any_nil, Bool.false_eq_true, ↓reduceIte, reduceCtorEq, false_iff, not_and]
    rintro - ⟨scopes, hmember, -⟩
    exact hscopes ⟨scopes, hmember⟩

/-- What a token of another server proves: all permissions in it are for reading derivations, and
each of them yields a proof. -/
theorem proofs_eq_ok {issuer : String} {payload : Jose.Payload} {values permissions : List Json}
    (h : proofs issuer payload = .ok values)
    (hpermissions : payload.get? "permissions" = some (.array permissions)) :
    (∀ p ∈ permissions, ∃ handle, GrantsReading p handle) ∧
      ∀ value ∈ values, ∃ handle, value = proof issuer handle ∧
        ∃ p ∈ permissions, GrantsReading p handle := by
  simp only [proofs, hpermissions] at h
  split at h
  · next handles hhandles =>
    cases h
    obtain ⟨-, hall, hcame⟩ := of_mapM_eq_some hhandles
    simp only [handle?_eq_some_iff] at hall hcame
    refine ⟨fun p hp => (hall p hp).imp fun _ => And.right, fun value hvalue => ?_⟩
    obtain ⟨handle, hhandle, rfl⟩ := List.mem_map.mp hvalue
    exact ⟨handle, rfl, hcame handle hhandle⟩
  · cases h

/-- Without a list of permissions nothing is proven. -/
theorem proofs_eq_nil {issuer : String} {payload : Jose.Payload} {values : List Json}
    (h : proofs issuer payload = .ok values)
    (hnone : ∀ permissions, payload.get? "permissions" ≠ some (.array permissions)) :
    values = [] := by
  rw [proofs] at h
  split at h
  · next permissions hpermissions => exact absurd hpermissions (hnone permissions)
  · cases h
    rfl

section
variable [Url.DomainRules]

/-- The issuer publishes the key at the address of its keys. -/
def PublishesKey (fetcher : Fetcher) (issuer : String) (key : Jose.VerificationKey) : Prop :=
  ∃ url document keys jwk, Discovery.umaKeysUrl issuer = .ok url ∧
    fetcher url.toText = .ok document ∧ Discovery.readKeySet url document = .ok keys ∧
    jwk ∈ keys.keys ∧ jwk.verificationKey = .ok key

/-- The signature was made with the key and the algorithm that the header names. -/
def SignedWith (token : String) (key : Jose.VerificationKey) : Prop :=
  ∃ compact header, Jose.Compact.ofText? token = some compact ∧
    Jose.readHeader token = .ok header ∧ key.fits header.algorithm = true ∧
    compact.isSignedBy key header.algorithm = .ok true

/-- A token of the issuer that lists permissions for reading derivations, and nothing else. -/
structure Certifies (fetcher : Fetcher) (token issuer : String) (permissions : List Json) :
    Prop where
  payload : ∃ payload, Jose.readPayload token = .ok payload ∧
    payload.get? "iss" = some (.string issuer) ∧
    payload.get? "permissions" = some (.array permissions)
  signed : ∃ key, PublishesKey fetcher issuer key ∧ SignedWith token key
  readings : ∀ p ∈ permissions, ∃ handle, GrantsReading p handle

variable {token : String} {now : Nat} {fetcher : Fetcher}

private theorem publishesKey_of_matchingKey {issuer : String} {keys : Jose.JwkSet}
    {keyId : Option String} {algorithm : Jose.Algorithm} {key : Jose.VerificationKey}
    (hkeys : (Discovery.umaKeys issuer fetcher).result = .ok keys)
    (hkey : keys.matchingKey keyId algorithm = .ok key) : PublishesKey fetcher issuer key := by
  obtain ⟨url, hurl, hkeys⟩ := (Fetching.result_bind_eq_ok fetcher).mp hkeys
  rw [Fetching.result_liftM] at hurl
  obtain ⟨document, hdocument, hkeys⟩ := Discovery.exists_document_of_keySet hkeys
  obtain ⟨jwk, hjwk, hkey⟩ := Jose.JwkSet.exists_mem_of_matchingKey hkey
  exact ⟨url, document, keys, jwk, hurl, hdocument, hkeys, hjwk, hkey⟩

theorem exists_proofs_of_assertions {found : List (String × Json)}
    (h : (assertions token now fetcher).result = .ok found) :
    ∃ payload values,
      (SignedToken.accessToken.verifiedPayload token now fetcher).result = .ok payload ∧
      proofs (payload.issuer?.getD "") payload = .ok values ∧
      found = values.map (ClaimName.sourceAccess, ·) := by
  rw [assertions, Fetching.result_bind_eq_ok] at h
  obtain ⟨values, hread, hfound⟩ := h
  rw [Fetching.result_mapError_eq_ok, read, Fetching.result_bind_eq_ok] at hread
  obtain ⟨payload, hpayload, hvalues⟩ := hread
  exact ⟨payload, values, hpayload, hvalues, (Except.ok.inj hfound).symm⟩

/-- What is found in a token is backed by it: whoever reads it finds the same issuer, who has signed
it, and the permissions, all of them for reading derivations. -/
theorem certifies_of_assertions {found : List (String × Json)}
    (h : (assertions token now fetcher).result = .ok found) {name : String} {value : Json}
    (hmem : (name, value) ∈ found) :
    ∃ issuer handle, value = proof issuer handle ∧ ∃ permissions,
      Certifies fetcher token issuer permissions ∧ ∃ p ∈ permissions, GrantsReading p handle := by
  obtain ⟨payload, values, hpayload, hvalues, rfl⟩ := exists_proofs_of_assertions h
  obtain ⟨issuer, header, keys, key, hshown, hissuer, hheader, hkeys, hkey, hcheck⟩ :=
    SignedToken.verifiedPayload_eq_ok hpayload
  obtain ⟨_, hvalue, heq⟩ := List.mem_map.mp hmem
  cases heq
  rw [hissuer, Option.getD_some] at hvalues
  by_cases hlist : ∃ permissions, payload.get? "permissions" = some (.array permissions)
  · obtain ⟨permissions, hpermissions⟩ := hlist
    obtain ⟨hall, hcame⟩ := proofs_eq_ok hvalues hpermissions
    obtain ⟨handle, rfl, hgrants⟩ := hcame value hvalue
    obtain ⟨compact, _, _, _, hcompact, -, -, hfits, hsigned, -⟩ := Jose.check_eq_ok hcheck
    have hcertifies : Certifies fetcher token issuer permissions :=
      { payload := ⟨payload, hshown, Jose.Payload.get?_iss hissuer, hpermissions⟩
        signed := ⟨key, publishesKey_of_matchingKey hkeys hkey,
          compact, header, hcompact, hheader, hfits, hsigned⟩
        readings := hall }
    exact ⟨issuer, handle, rfl, permissions, hcertifies, hgrants⟩
  · have hnil := proofs_eq_nil hvalues fun permissions hpermissions =>
      hlist ⟨permissions, hpermissions⟩
    rw [hnil] at hvalue
    cases hvalue

/-- One permission that is not for reading a derivation spoils the whole token. -/
theorem readings_of_assertions {found : List (String × Json)}
    (h : (assertions token now fetcher).result = .ok found) {payload : Jose.Payload}
    (hshown : Jose.readPayload token = .ok payload) {permissions : List Json}
    (hpermissions : payload.get? "permissions" = some (.array permissions)) :
    ∀ p ∈ permissions, ∃ handle, GrantsReading p handle := by
  obtain ⟨verified, values, hverified, hvalues, -⟩ := exists_proofs_of_assertions h
  obtain ⟨_, _, _, _, hshown', -⟩ := SignedToken.verifiedPayload_eq_ok hverified
  cases hshown.symm.trans hshown'
  exact (proofs_eq_ok hvalues hpermissions).1

end

end SourceToken

/-! ## What other credentials prove -/

section
variable {found : List (String × Json)} {name : String} {value : Json}

private theorem name_of_mem_identityClaims {webid : String} {client : Option String}
    (hmem : (name, value) ∈ identityClaims webid client) :
    name = ClaimName.webid ∨ name = ClaimName.clientId := by
  rcases List.mem_cons.mp hmem with heq | hmem
  · exact .inl (congrArg Prod.fst heq)
  · rw [Option.mem_toList, Option.map_eq_some_iff] at hmem
    obtain ⟨client, -, heq⟩ := hmem
    exact .inr (congrArg Prod.fst heq).symm

private theorem SelfAsserted.name_of_mem {token : String}
    (h : SelfAsserted.assertions token = .ok found) (hmem : (name, value) ∈ found) :
    name = ClaimName.webid ∨ name = ClaimName.clientId := by
  rw [SelfAsserted.assertions] at h
  obtain ⟨identity, -, h⟩ := exists_of_bind_eq_ok h
  cases h
  exact name_of_mem_identityClaims hmem

private theorem IdToken.name_of_mem [Url.DomainRules] {trusted : List String} {token : String}
    {now : Nat} {fetcher : Fetcher}
    (h : (IdToken.assertions trusted token now fetcher).result = .ok found)
    (hmem : (name, value) ∈ found) : name = ClaimName.webid ∨ name = ClaimName.clientId := by
  rw [IdToken.assertions, Fetching.result_bind_eq_ok] at h
  obtain ⟨identity, -, h⟩ := h
  cases h
  exact name_of_mem_identityClaims hmem

private theorem JwtOptions.allowed_of_mem [Url.DomainRules] {options : JwtOptions} {token : String}
    {now : Nat} {fetcher : Fetcher} (h : (options.assertions token now fetcher).result = .ok found)
    (hmem : (name, value) ∈ found) : options.allowedClaims.contains name = true := by
  have hselect : ∃ payload : Jose.Payload, options.select payload.entries = .ok found := by
    rw [JwtOptions.assertions] at h
    cases hverify : options.verify <;>
      simp only [hverify, Bool.false_eq_true, ↓reduceIte, Fetching.result_bind_eq_ok,
        Fetching.result_liftM] at h
    · obtain ⟨payload, -, h⟩ := h
      exact ⟨payload, h⟩
    · obtain ⟨_, -, payload, -, h⟩ := h
      exact ⟨payload, h⟩
  obtain ⟨payload, hselect⟩ := hselect
  rw [(JwtOptions.select_eq_ok_iff.mp hselect).1] at hmem
  exact (List.mem_filter.mp hmem).2

end

/-! ## Where proofs of access to sources come from -/

/-- The value is what a token proves that was pushed in the chain, and whose issuer certifies the
right to read the derivation. -/
def Chain.Backs [Url.DomainRules] (chain : Chain) (value : Json) : Prop :=
  ∃ issuer handle, value = SourceToken.proof issuer handle ∧
    ∃ p ∈ chain.pushed, p.credential.format = .accessToken ∧ ∃ permissions,
      SourceToken.Certifies p.around.fetcher p.credential.token issuer permissions ∧
      ∃ permission ∈ permissions, SourceToken.GrantsReading permission handle

namespace Server
variable {server : Server} {chain : Chain}

section
variable [Url.DomainRules]

private theorem verified_eq_ok {around : Surroundings} {credential : Credential} {found : Claims}
    (h : server.verified around credential = .ok found) :
    ∃ assertions, found = (∅ : Claims).pushAll assertions ∧ Verifier.FoundBy around.now
      around.fetcher credential assertions server.verifier.jwtOptions := by
  rw [verified, Verifier.verify_apply] at h
  obtain ⟨assertions, hassertions, hfound⟩ := exists_of_map_eq_ok h
  exact ⟨assertions, hfound, Verifier.foundBy_of_assertions _ hassertions⟩

/-- No other credential proves access to a source. -/
theorem backs_of_proves (hwithholds : server.verifier.Withholds ClaimName.sourceAccess)
    {value : Json} (h : server.Proves chain ClaimName.sourceAccess value) : chain.Backs value := by
  obtain ⟨p, hp, found, hverified, hvalue⟩ := h
  obtain ⟨assertions, rfl, hfound⟩ := verified_eq_ok hverified
  have hmem := Claims.mem_values_pushAll_empty.mp hvalue
  have hother : ¬ (ClaimName.sourceAccess = ClaimName.webid ∨
      ClaimName.sourceAccess = ClaimName.clientId) := by decide
  cases hfound with
  | selfAsserted _ hresult => exact absurd (SelfAsserted.name_of_mem hresult hmem) hother
  | oidc _ trusted hresult => exact absurd (IdToken.name_of_mem hresult hmem) hother
  | jwt _ options hoptions hresult =>
    have hallowed := JwtOptions.allowed_of_mem hresult hmem
    rw [hwithholds options hoptions] at hallowed
    cases hallowed
  | accessToken hformat hresult =>
    obtain ⟨issuer, handle, hvalue, hcertifies⟩ :=
      SourceToken.certifies_of_assertions hresult hmem
    exact ⟨issuer, handle, hvalue, p, hp, hformat, hcertifies⟩

/-- A token of another server is refused if one of its permissions is not for reading a derivation,
whoever verifies it. -/
theorem verified_ne_ok_of_spoiled {around : Surroundings} {credential : Credential}
    (hformat : credential.format = .accessToken) {payload : Jose.Payload}
    (hpayload : Jose.readPayload credential.token = .ok payload) {permissions : List Json}
    (hpermissions : payload.get? "permissions" = some (.array permissions)) {spoiling : Json}
    (hspoiling : spoiling ∈ permissions)
    (hnone : ∀ handle, ¬ SourceToken.GrantsReading spoiling handle) (found : Claims) :
    server.verified around credential ≠ .ok found := by
  intro hverified
  obtain ⟨assertions, -, hfound⟩ := verified_eq_ok hverified
  cases hfound with
  | selfAsserted hother => exact nomatch hformat.symm.trans hother
  | jwt hother => exact nomatch hformat.symm.trans hother
  | oidc hother => exact nomatch hformat.symm.trans hother
  | accessToken _ hresult =>
    obtain ⟨handle, hgrants⟩ :=
      SourceToken.readings_of_assertions hresult hpayload hpermissions spoiling hspoiling
    exact hnone handle hgrants

/-- In every history of a server that withholds the name from tokens with claims of any kind: all
proofs of access to sources that a ticket holds, in store or when a round decides on it, are backed
by tokens that were pushed in its chain. A token with one permission of another kind proves nothing
at all. -/
theorem source_access_backed (server : Server)
    (hwithholds : server.verifier.Withholds ClaimName.sourceAccess) {start : ServerState}
    (hstart : start.IsInitial) (commands : List Command) :
    let past := server.history start commands
    (∀ id ticket, past.state.tickets.get? id = some ticket →
      ∃ chain, chainOf? past.events id = some chain ∧
        ∀ value ∈ ticket.provided.values ClaimName.sourceAccess, chain.Backs value) ∧
    (∀ around request ticket, server.weighed around past.state request = .ok ticket →
      ∃ chain, request.chain? (chainOf? past.events) around past.state = some chain ∧
        ∀ value ∈ ticket.provided.values ClaimName.sourceAccess, chain.Backs value) ∧
    ∀ around credential payload permissions, credential.format = .accessToken →
      Jose.readPayload credential.token = .ok payload →
      payload.get? "permissions" = some (.array permissions) →
      (∃ p ∈ permissions, ∀ handle, ¬ SourceToken.GrantsReading p handle) →
      ∀ found, server.verified around credential ≠ .ok found := by
  intro past
  have htraced := server.traced_history hstart commands
  have hbacks {ticket : Ticket} {chain : Chain} (h : server.Follows ticket chain) :
      ∀ value ∈ ticket.provided.values ClaimName.sourceAccess, chain.Backs value :=
    fun value hvalue => backs_of_proves hwithholds ((h.mem_provided _ value).mp hvalue)
  refine ⟨fun id ticket hid => ?_, fun around request ticket hweighed => ?_, ?_⟩
  · obtain ⟨chain, hchain, hfollows⟩ := htraced id ticket hid
    exact ⟨chain, hchain, hbacks hfollows⟩
  · obtain ⟨chain, hchain, hfollows⟩ := follows_weighed htraced hweighed
    exact ⟨chain, hchain, hbacks hfollows⟩
  · rintro around credential payload permissions hformat hpayload hpermissions ⟨p, hp, hnone⟩ found
    exact verified_ne_ok_of_spoiled hformat hpayload hpermissions hp hnone found

end

/-- Takes tokens of other servers, and from tokens with claims of any kind only a role. -/
def sampleSettings : VerifierSettings :=
  { jwt := { enabled := true, allowedClaims := ["role"] } }

/-- The issuer `https://up` permits to read the derivation `D1`; signed with the secret `k`. -/
def sampleToken : String :=
  "eyJhbGciOiJIUzI1NiJ9." ++
    "eyJpc3MiOiJodHRwczovL3VwIiwicGVybWlzc2lvbnMiOlt7InJlc291cmNlX2lkIjoiRDEiLCJy" ++
    "ZXNvdXJjZV9zY29wZXMiOlsidXJuOmtub3dzOnVtYTpzY29wZXM6ZGVyaXZhdGlvbi1yZWFkIl19XX0." ++
    "grMDzjSWJAXmy01Umh4ZMZqkTkqbJHs4OaLmJ_p8Mss"

/-- That issuer publishes its secret. -/
def sampleFetcher : Fetcher :=
  let key := Json.ofMembers [("kty", .string "oct"), ("k", .string "aw")]
  .pinned (.ofList [("https://up/keys", .ofMembers [("keys", .array [key])])])

/-- Pushed in a first round, which goes on to ask for an identity, the token backs what the ticket
holds. -/
theorem sample_source_access_backed :
    let server := { sample (.namespaced []) with verifier := verifierOf sampleSettings }
    let request := { sampleAsk [⟨some "R1", some ["read"]⟩] none with
      claimToken := some sampleToken, claimTokenFormat := some CredentialFormat.accessToken.uri }
    let past := server.history ∅ [.negotiate ⟨1000, sampleFetcher⟩ request]
    server.verifier.Withholds ClaimName.sourceAccess ∧ (∅ : ServerState).IsInitial ∧
      ∃ chain value, chainOf? past.events (sampleId 0) = some chain ∧ chain.Backs value ∧
        value.text? "derivation_resource_id" = some "D1" := by
  intro server request past
  have hwithholds : server.verifier.Withholds ClaimName.sourceAccess :=
    withholds_verifierOf (.inr (by decide))
  have hinitial : (∅ : ServerState).IsInitial := ⟨rfl, rfl, rfl⟩
  have hstored : ((past.state.tickets.get? (sampleId 0)).any fun ticket =>
      (ticket.provided.values ClaimName.sourceAccess).any
        (·.text? "derivation_resource_id" == some "D1")) = true := by
    decide +kernel
  obtain ⟨ticket, hticket, hvalues⟩ := Option.any_eq_true _ _ |>.mp hstored
  obtain ⟨value, hvalue, htext⟩ := List.any_eq_true.mp hvalues
  obtain ⟨chain, hchain, hbacks⟩ :=
    (source_access_backed server hwithholds hinitial _).1 _ _ hticket
  exact ⟨hwithholds, hinitial, chain, value, hchain, hbacks value hvalue, by simpa using htext⟩

end Server

end UserManagedAccess
