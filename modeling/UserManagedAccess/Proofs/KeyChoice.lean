import UserManagedAccess.Proofs.Audience
import UserManagedAccess.Proofs.Records
import UserManagedAccess.Proofs.SignedClaims

/-! Which key a signature is checked with. The header of a token is written by whoever sends it, and
the keys by whoever the token names; neither can have a key used with an algorithm of another family,
or one that is published for something else. -/
namespace UserManagedAccess

namespace Json.RecordDecoder
variable {α β : Type} {name : String} {decoder : Decoder α}

/-- A record of one field that has to be there is read from the member of that name, or from an
array of one item. -/
theorem decode_required_eq_ok {make : α → β} {v : Json} {b : β}
    (h : (make <$> required name decoder).decode (Document.ofJson v) = .ok b) :
    ∃ w a, (v.member? name = some w ∨ v = .array [w]) ∧ decoder (Document.ofJson w) = .ok a ∧
      b = make a := by
  have hbuild {held : Option Json}
      (hb : (make <$> required name decoder).build [held.map Document.ofJson] = .ok b) :
      ∃ w a, held = some w ∧ decoder (Document.ofJson w) = .ok a ∧ b = make a := by
    obtain ⟨_, a, hmake, ha, rfl⟩ := build_seq_eq_ok hb
    cases hmake
    obtain ⟨w, hw, ha⟩ := build_required_eq_ok ha
    exact ⟨w, a, hw, ha, rfl⟩
  cases v with
  | object members =>
    obtain ⟨w, a, hw, ha, rfl⟩ := hbuild (build_of_decode_object [name] ⟨rfl, by simp⟩ h)
    exact ⟨w, a, .inl hw, ha, rfl⟩
  | array items =>
    obtain ⟨hlength, hb⟩ := build_of_decode_array h
    obtain ⟨w, a, hw, ha, rfl⟩ := hbuild hb
    cases items with
    | nil => cases hw
    | cons first rest =>
      cases hw
      have hnone : rest.length = 0 := Nat.le_zero.mp (Nat.pred_le_pred hlength)
      exact ⟨w, a, .inr (by rw [List.length_eq_zero_iff.mp hnone]), ha, rfl⟩
  | _ => cases h

end Json.RecordDecoder

namespace Jose

namespace Algorithm

theorem ofName?_eq_some_iff {text : String} {algorithm : Algorithm} :
    ofName? text = some algorithm ↔ text = algorithm.name := by
  rw [ofName?]
  constructor
  · intro h
    have hname := List.find?_some h
    exact (beq_iff_eq.mp hname).symm
  · rintro rfl
    cases algorithm <;> decide

end Algorithm

/-- A published key is meant for signatures made with an algorithm: it goes by the name that is
asked for, if any is, its type is that of the family, and it is not published for another algorithm
or another use. -/
structure Jwk.MeantFor (key : Jwk) (keyId : Option String) (algorithm : Algorithm) : Prop where
  keyId : keyId = none ∨ key.keyId = keyId
  keyType : key.keyType = "oct" ∧ algorithm ∈ [.hs256, .hs384, .hs512] ∨
    key.keyType = "RSA" ∧ algorithm ∈ [.rs256, .rs384, .rs512, .ps256, .ps384, .ps512]
  algorithm : key.algorithm = none ∨ key.algorithm = some algorithm.name
  usage : key.usage = none ∨ key.usage = some "sig"

namespace Jwk
variable {key : Jwk} {keyId : Option String} {algorithm : Algorithm}

private theorem typeFor?_eq_some_iff {type : String} :
    typeFor? algorithm.family = some type ↔
      type = "oct" ∧ algorithm ∈ [.hs256, .hs384, .hs512] ∨
        type = "RSA" ∧ algorithm ∈ [.rs256, .rs384, .rs512, .ps256, .ps384, .ps512] := by
  cases algorithm <;> simp [Algorithm.family, typeFor?, eq_comm]

theorem supports_eq_true_iff : key.supports algorithm = true ↔ key.MeantFor none algorithm := by
  have halgorithm : (key.algorithm.all fun text => Algorithm.ofName? text == some algorithm) = true ↔
      key.algorithm = none ∨ key.algorithm = some algorithm.name := by
    cases key.algorithm <;> simp [Algorithm.ofName?_eq_some_iff]
  have husage : key.usage.all (· == "sig") = true ↔
      key.usage = none ∨ key.usage = some "sig" := by
    cases key.usage <;> simp
  rw [supports, Bool.and_eq_true, Bool.and_eq_true, beq_iff_eq, typeFor?_eq_some_iff, halgorithm,
    husage]
  constructor
  · rintro ⟨⟨htype, halgorithm⟩, husage⟩
    exact ⟨.inl rfl, htype, halgorithm, husage⟩
  · rintro ⟨-, htype, halgorithm, husage⟩
    exact ⟨⟨htype, halgorithm⟩, husage⟩

theorem meantFor_iff :
    key.MeantFor keyId algorithm ↔
      (keyId = none ∨ key.keyId = keyId) ∧ key.supports algorithm = true := by
  rw [supports_eq_true_iff]
  constructor
  · rintro ⟨hkeyId, htype, halgorithm, husage⟩
    exact ⟨hkeyId, .inl rfl, htype, halgorithm, husage⟩
  · rintro ⟨hkeyId, -, htype, halgorithm, husage⟩
    exact ⟨hkeyId, htype, halgorithm, husage⟩

/-- There are no keys for curves, and a public key of RSA is no secret. -/
theorem MeantFor.not_confused (h : key.MeantFor keyId algorithm) :
    algorithm ∉ [.es256, .es384, .edDsa] ∧
      (key.keyType = "RSA" → algorithm ∉ [.hs256, .hs384, .hs512]) := by
  rcases h.keyType with ⟨htype, halgorithm⟩ | ⟨htype, halgorithm⟩ <;> rw [htype] <;>
    cases algorithm <;> simp at halgorithm ⊢

end Jwk

namespace JwkSet

/-- Of the keys that are meant for the signatures, the one that is published first. -/
def Chooses (set : JwkSet) (keyId : Option String) (algorithm : Algorithm) (key : Jwk) : Prop :=
  ∃ before after, set.keys = before ++ key :: after ∧ key.MeantFor keyId algorithm ∧
    ∀ other ∈ before, ¬ other.MeantFor keyId algorithm

theorem Chooses.meantFor {set : JwkSet} {keyId : Option String} {algorithm : Algorithm} {key : Jwk}
    (h : set.Chooses keyId algorithm key) : key.MeantFor keyId algorithm := by
  obtain ⟨_, _, -, hmeant, -⟩ := h
  exact hmeant

theorem find?_eq_some_iff {set : JwkSet} {keyId : Option String} {algorithm : Algorithm}
    {key : Jwk} : set.find? keyId algorithm = some key ↔ set.Chooses keyId algorithm key := by
  have hmeant (k : Jwk) : (keyId.all (k.keyId == some ·) && k.supports algorithm) = true ↔
      k.MeantFor keyId algorithm := by
    rw [Jwk.meantFor_iff, Bool.and_eq_true]
    cases keyId <;> simp
  rw [find?, List.find?_eq_some_iff_append, Chooses]
  constructor
  · rintro ⟨hkey, before, after, hkeys, hbefore⟩
    refine ⟨before, after, hkeys, (hmeant key).mp hkey, fun other hother hmeans => ?_⟩
    have hpassed := hbefore other hother
    rw [(hmeant other).mpr hmeans] at hpassed
    cases hpassed
  · rintro ⟨before, after, hkeys, hkey, hbefore⟩
    refine ⟨(hmeant key).mpr hkey, before, after, hkeys, fun other hother => ?_⟩
    rw [Bool.not_eq_true', ← Bool.not_eq_true, hmeant]
    exact hbefore other hother

end JwkSet

/-- The keys of a set are those that a document lists, in its order. -/
def JwkSet.ReadFrom (set : JwkSet) (document : Json) : Prop :=
  ∃ values, (document.member? "keys" = some (.array values) ∨ document = .array [.array values]) ∧
    values.map (Json.decodeWith Jwk.decoder) = set.keys.map some

theorem JwkSet.readFrom_of_readKeySet {set : JwkSet} {url : Url} {document : Json}
    (h : Discovery.readKeySet url document = .ok set) : set.ReadFrom document := by
  have hset : JwkSet.decoder (Json.Document.ofJson document) = .ok set := by
    rw [Discovery.readKeySet] at h
    split at h
    · next hread =>
      cases h
      exact toOption_eq_some_iff.mp hread
    · cases h
  obtain ⟨listed, keys, hlisted, hkeys, rfl⟩ := Json.RecordDecoder.decode_required_eq_ok hset
  cases listed with
  | array values => exact ⟨values, by simpa using hlisted, Json.Decoder.items_eq_ok_iff.mp hkeys⟩
  | _ => cases hkeys

/-- The modulus and the exponent of an RSA key are published as base 64 texts without padding. -/
def Jwk.HoldsRsa (key : Jwk) (owner : Crypto.Rsa.PublicKey) : Prop :=
  ∃ n e, key.modulus = some n ∧ key.exponent = some e ∧
    Text.Base64Url.decode .refused n = .ok owner.modulus ∧
    Text.Base64Url.decode .refused e = .ok owner.exponent

/-- The signature of a token was made for its header and payload with what a published key holds:
with its secret, or by the owner of its numbers. -/
def Compact.SignedUnder (token : Compact) (key : Jwk) (algorithm : Algorithm) : Prop :=
  let message := Text.Utf8.encode (token.header ++ "." ++ token.payload)
  match algorithm.family with
  | .hmac =>
    ∃ text secret, key.secret = some text ∧ Text.Base64Url.decode .accepted text = .ok secret ∧
      token.signature = Text.Base64Url.encode (algorithm.hash.mac secret message)
  | .rsa =>
    ∃ owner signature, key.HoldsRsa owner ∧
      Text.Base64Url.decode .refused token.signature = .ok signature ∧
      owner.verifyPkcs1 algorithm.hash message signature = true
  | .rsaPss =>
    ∃ owner signature, key.HoldsRsa owner ∧
      Text.Base64Url.decode .refused token.signature = .ok signature ∧
      owner.verifyPss algorithm.hash message signature = true
  | .curve => False

namespace Jwk
variable {key : Jwk}

theorem exists_secret_of_verificationKey {secret : List UInt8}
    (h : key.verificationKey = .ok (.secret secret)) :
    ∃ text, key.secret = some text ∧ Text.Base64Url.decode .accepted text = .ok secret := by
  rw [verificationKey] at h
  split at h
  · split at h
    · obtain ⟨_, _, h⟩ := exists_of_bind_eq_ok h
      obtain ⟨_, _, h⟩ := exists_of_bind_eq_ok h
      cases h
    · cases h
  · split at h
    · split at h
      · next text htext =>
        split at h
        · next bytes hbytes =>
          cases h
          exact ⟨text, htext, hbytes⟩
        · cases h
      · cases h
    · cases h

theorem holdsRsa_of_verificationKey {owner : Crypto.Rsa.PublicKey}
    (h : key.verificationKey = .ok (.rsa owner)) : key.HoldsRsa owner := by
  rw [verificationKey] at h
  split at h
  · split at h
    · next n e hn he =>
      obtain ⟨modulus, hmodulus, h⟩ := exists_of_bind_eq_ok h
      obtain ⟨exponent, hexponent, h⟩ := exists_of_bind_eq_ok h
      cases h
      exact ⟨n, e, hn, he, mapError_eq_ok.mp hmodulus, mapError_eq_ok.mp hexponent⟩
    · cases h
  · split at h
    · split at h
      · split at h
        · cases h
        · cases h
      · cases h
    · cases h

end Jwk

/-- What a check has compared is what the published key holds. -/
theorem Compact.signedUnder_of_isSignedBy {token : Compact} {published : Jwk}
    {key : VerificationKey} {algorithm : Algorithm} (hkey : published.verificationKey = .ok key)
    (h : token.isSignedBy key algorithm = .ok true) : token.SignedUnder published algorithm := by
  rw [SignedUnder]
  cases key with
  | secret secret =>
    cases hfamily : algorithm.family with
    | hmac =>
      obtain ⟨text, htext, hsecret⟩ := Jwk.exists_secret_of_verificationKey hkey
      simp only [isSignedBy, hfamily, Except.ok.injEq, beq_iff_eq] at h
      exact ⟨text, secret, htext, hsecret, h⟩
    | _ => simp [isSignedBy, hfamily] at h
  | rsa owner =>
    have howner := Jwk.holdsRsa_of_verificationKey hkey
    cases hfamily : algorithm.family with
    | rsa =>
      simp only [isSignedBy, hfamily] at h
      obtain ⟨signature, hsignature, h⟩ := exists_of_bind_eq_ok h
      exact ⟨owner, signature, howner, mapError_eq_ok.mp hsignature, Except.ok.inj h⟩
    | rsaPss =>
      simp only [isSignedBy, hfamily] at h
      obtain ⟨signature, hsignature, h⟩ := exists_of_bind_eq_ok h
      exact ⟨owner, signature, howner, mapError_eq_ok.mp hsignature, Except.ok.inj h⟩
    | _ => simp [isSignedBy, hfamily] at h

theorem JwkSet.exists_chosen_of_matchingKey {set : JwkSet} {keyId : Option String}
    {algorithm : Algorithm} {key : VerificationKey}
    (h : set.matchingKey keyId algorithm = .ok key) :
    ∃ published, set.Chooses keyId algorithm published ∧ published.verificationKey = .ok key := by
  rw [matchingKey] at h
  split at h
  · next published hfind => exact ⟨published, find?_eq_some_iff.mp hfind, h⟩
  · cases h

end Jose

/-! ## Tokens that are taken -/

namespace SignedToken
variable {kind : SignedToken} {token : String} {now : Nat} {fetcher : Fetcher}

theorem exists_keyId_of_verifiedPayload [Url.DomainRules] {payload : Jose.Payload}
    {header : Jose.Header} (hneeds : kind.needsKeyId = true)
    (h : (kind.verifiedPayload token now fetcher).result = .ok payload)
    (hheader : Jose.readHeader token = .ok header) : ∃ keyId, header.keyId = some keyId := by
  rw [verifiedPayload] at h
  obtain ⟨shown, -, h⟩ := (Fetching.result_bind_eq_ok fetcher).mp h
  cases hissuer : shown.issuer? with
  | none => simp [hissuer] at h
  | some issuer =>
    simp only [hissuer] at h
    obtain ⟨found, hfound, h⟩ := (Fetching.result_bind_eq_ok fetcher).mp h
    cases hheader.symm.trans hfound
    cases hkeyId : header.keyId with
    | none => simp [hneeds, hkeyId] at h
    | some keyId => exact ⟨keyId, rfl⟩

/-- The document that is asked for last lists the keys. -/
private theorem exists_document_of_keySet {url : Url} {keys : Jose.JwkSet}
    (h : (Discovery.keySet url fetcher).result = .ok keys) :
    (Discovery.keySet url fetcher).requested = [url.toText] ∧
      ∃ document, fetcher url.toText = .ok document ∧ keys.ReadFrom document := by
  obtain ⟨document, hdocument, hkeys⟩ := Discovery.exists_document_of_keySet h
  have hasked : (Fetching.ask url.toText fetcher).result = .ok document := by
    rw [Fetching.result_ask, hdocument]
  refine ⟨?_, document, hdocument, Jose.JwkSet.readFrom_of_readKeySet hkeys⟩
  rw [Discovery.keySet, Fetching.requested_bind_of_ok fetcher hasked]
  rfl

theorem exists_document_of_issuerKeys [Url.DomainRules] {issuer : String} {keys : Jose.JwkSet}
    (h : (kind.issuerKeys issuer fetcher).result = .ok keys) :
    ∃ url document, (kind.issuerKeys issuer fetcher).requested.getLast? = some url ∧
      fetcher url = .ok document ∧ keys.ReadFrom document := by
  -- whichever way the address is found, the set itself is the last document
  have hlast {α : Type} {m : Fetching α} {f : α → Fetching Jose.JwkSet} {a : α} {url : Url}
      (ha : (m fetcher).result = .ok a) (hf : f a = Discovery.keySet url)
      (hkeys : (f a fetcher).result = .ok keys) :
      ∃ address document, ((m >>= f) fetcher).requested.getLast? = some address ∧
        fetcher address = .ok document ∧ keys.ReadFrom document := by
    rw [hf] at hkeys
    obtain ⟨hrequested, document, hdocument, hread⟩ := exists_document_of_keySet hkeys
    refine ⟨url.toText, document, ?_, hdocument, hread⟩
    rw [Fetching.requested_bind_of_ok fetcher ha, hf, hrequested, List.getLast?_concat]
  cases kind with
  | jwt =>
    obtain ⟨url, hurl, hkeys⟩ := (Fetching.result_bind_eq_ok fetcher).mp h
    exact hlast hurl rfl hkeys
  | accessToken =>
    obtain ⟨url, hurl, hkeys⟩ := (Fetching.result_bind_eq_ok fetcher).mp h
    exact hlast hurl rfl hkeys
  | idToken =>
    rw [issuerKeys, Discovery.openIdKeys] at h ⊢
    obtain ⟨configurationUrl, hconfigurationUrl, h⟩ := (Fetching.result_bind_eq_ok fetcher).mp h
    rw [Fetching.requested_bind_of_ok fetcher hconfigurationUrl]
    obtain ⟨configuration, hconfiguration, h⟩ := (Fetching.result_bind_eq_ok fetcher).mp h
    rw [Fetching.requested_bind_of_ok fetcher hconfiguration]
    cases haddress : configuration.text? "jwks_uri" with
    | none => simp [haddress] at h
    | some address =>
      simp only [haddress] at h ⊢
      obtain ⟨url, hurl, hkeys⟩ := (Fetching.result_bind_eq_ok fetcher).mp h
      obtain ⟨found, document, hfound, hdocument, hread⟩ := hlast hurl rfl hkeys
      refine ⟨found, document, ?_, hdocument, hread⟩
      rw [List.getLast?_append, List.getLast?_append, hfound]
      rfl

end SignedToken

namespace Verifier
variable {now : Nat} {c : Credential} {fetcher : Fetcher} {held claims : Claims}

/-- The verifiers that check signatures, with the kind of token that they take. -/
inductive ChecksSignatures : Verifier → SignedToken → Prop where
  | jwt {options : JwtOptions} (verifies : options.verify = true) :
    ChecksSignatures (.jwt options) .jwt
  | oidc (trusted : List String) : ChecksSignatures (.oidc trusted) .idToken
  | accessToken : ChecksSignatures .accessToken .accessToken

theorem ChecksSignatures.exists_verifiedPayload [Url.DomainRules] {v : Verifier}
    {kind : SignedToken} (hv : v.ChecksSignatures kind)
    (h : (v.verify now c held fetcher).result = .ok claims) :
    ∃ payload, (kind.verifiedPayload c.token now fetcher).result = .ok payload := by
  obtain ⟨found, hfound, -⟩ := verify_eq_ok_iff.mp h
  cases hv with
  | jwt hverifies =>
    rw [assertions] at hfound
    obtain ⟨payload, hpayload, -⟩ :=
      JwtOptions.exists_verifiedPayload hverifies (expecting_eq_ok hfound).2
    exact ⟨payload, hpayload⟩
  | oidc trusted =>
    rw [assertions] at hfound
    obtain ⟨payload, _, hpayload, -⟩ :=
      IdToken.assertions_eq_ok_iff.mp (expecting_eq_ok hfound).2
    exact ⟨payload, hpayload⟩
  | accessToken =>
    rw [assertions] at hfound
    obtain ⟨payload, _, hpayload, -⟩ :=
      SourceToken.exists_proofs_of_assertions (expecting_eq_ok hfound).2
    exact ⟨payload, hpayload⟩

/-- Whatever stands in the header of a token and in the keys that are published: a token that is
taken is signed, for its header and its payload, under the first of the keys that its issuer
publishes for the header's key name and algorithm. That algorithm is not one on curves, and a key of
RSA is no secret. -/
theorem accepted_key_first_meant [Url.DomainRules] {v : Verifier} {kind : SignedToken}
    (hv : v.ChecksSignatures kind) (h : (v.verify now c held fetcher).result = .ok claims) :
    ∃ (token : Jose.Compact) (header : Jose.Header) (issuer url : String) (document : Json)
        (keys : Jose.JwkSet) (key : Jose.Jwk),
      Text.parts (· == '.') c.token = [token.header, token.payload, token.signature] ∧
      Jose.Header.ofSegment token.header = .ok header ∧
      (∃ payload, Jose.readPayload c.token = .ok payload ∧
        payload.get? "iss" = some (.string issuer)) ∧
      (kind.issuerKeys issuer fetcher).result = .ok keys ∧
      (kind.issuerKeys issuer fetcher).requested.getLast? = some url ∧
      fetcher url = .ok document ∧ keys.ReadFrom document ∧
      keys.Chooses header.keyId header.algorithm key ∧
      token.SignedUnder key header.algorithm ∧
      (kind = .jwt → ∃ keyId, header.keyId = some keyId) ∧
      header.algorithm ∉ [.es256, .es384, .edDsa] ∧
      (key.keyType = "RSA" → header.algorithm ∉ [.hs256, .hs384, .hs512]) := by
  obtain ⟨payload, hpayload⟩ := hv.exists_verifiedPayload h
  obtain ⟨issuer, header, keys, key, hshown, hissuer, hheader, hkeys, hkey, hcheck⟩ :=
    SignedToken.verifiedPayload_eq_ok hpayload
  obtain ⟨url, document, hurl, hdocument, hread⟩ :=
    SignedToken.exists_document_of_issuerKeys hkeys
  obtain ⟨published, hchosen, hpublished⟩ := Jose.JwkSet.exists_chosen_of_matchingKey hkey
  obtain ⟨token, _, _, _, htoken, hsegment, -, -, hsigned, -⟩ := Jose.check_eq_ok hcheck
  have hread' : Jose.Header.ofSegment token.header = .ok header := by
    rw [Jose.readHeader, htoken] at hheader
    exact mapError_eq_ok.mp hheader
  have hparts := Jose.Compact.parts_of_ofText? htoken (Jose.Header.dot_not_mem_of_ofSegment hread')
  exact ⟨token, header, issuer, url, document, keys, published, hparts, hread',
    ⟨payload, hshown, Jose.Payload.get?_iss hissuer⟩, hkeys, hurl, hdocument, hread, hchosen,
    Jose.Compact.signedUnder_of_isSignedBy hpublished hsigned, fun hkind =>
      SignedToken.exists_keyId_of_verifiedPayload (hkind ▸ rfl) hpayload hheader,
    hchosen.meantFor.not_confused⟩

/-- The issuer of `sampleIdToken` publishes its secret too, after a public key of RSA, a secret for
another algorithm and one for encryption. -/
def sampleKeySet : Fetcher :=
  let keys := [
    Json.ofMembers [("kty", .string "RSA"), ("n", .string "AQAB"), ("e", .string "AQAB")],
    .ofMembers [("kty", .string "oct"), ("alg", .string "HS512"), ("k", .string "AA")],
    .ofMembers [("kty", .string "oct"), ("use", .string "enc"), ("k", .string "AA")],
    .ofMembers [("kty", .string "oct"), ("alg", .string "HS256"), ("k", .string "aw")]]
  .pinned <| .ofList
    [("https://idp/.well-known/openid-configuration",
        .ofMembers [("jwks_uri", .string "https://idp/jwks")]),
      ("https://idp/jwks", .ofMembers [("keys", .array keys)])]

/-- A token that names no key is checked with the first key that is meant for its algorithm. -/
theorem sample_key_first_meant :
    let c : Credential := ⟨sampleIdToken, .oidc⟩
    ∃ claims, ((oidc ["https://idp"]).verify 1000 c ∅ sampleKeySet).result = .ok claims ∧
      ∃ (token : Jose.Compact) (header : Jose.Header) (keys : Jose.JwkSet) (key : Jose.Jwk),
        Jose.Header.ofSegment token.header = .ok header ∧
        keys.Chooses header.keyId header.algorithm key ∧ token.SignedUnder key header.algorithm := by
  intro c
  obtain ⟨claims, -, hclaims, -⟩ :=
    verify_sampleIdToken ["https://idp"] ∅ sampleKeySet (by decide +kernel) (by decide +kernel)
  obtain ⟨token, header, _, _, _, keys, key, -, hheader, -, -, -, -, -, hchosen, hsigned, -⟩ :=
    accepted_key_first_meant (.oidc ["https://idp"]) hclaims
  exact ⟨claims, hclaims, token, header, keys, key, hheader, hchosen, hsigned⟩

end Verifier

end UserManagedAccess
