import UserManagedAccess.Proofs.Encodings
import UserManagedAccess.Proofs.Messages
import UserManagedAccess.Proofs.Rereading
import UserManagedAccess.Proofs.RsaSignatures
import UserManagedAccess.Proofs.SignedTokens
import UserManagedAccess.Proofs.TokenText
import UserManagedAccess.Token.Signed

/-! Signed tokens from the side of the signer: what was minted is read back, by the signer itself
and by whoever has its key, as long as it is good; and so is what was signed with a shared secret.
-/
namespace UserManagedAccess

namespace Jose

namespace Compact
open Text.Base64Url (encode encodeChars dot_not_mem_encodeChars)

theorem parts_toText (header payload signature : List UInt8) :
    Text.parts (· == '.') (⟨encode header, encode payload, encode signature⟩ : Compact).toText =
      [encode header, encode payload, encode signature] := by
  refine Text.parts_of_toList_eq ?_ (dot_not_mem_encodeChars header)
    (dot_not_mem_encodeChars payload) (dot_not_mem_encodeChars signature)
  simp [toText, message, encode]

/-- The token with the given header, payload and signature. -/
def carrying (header payload : Json) (signature : List UInt8) : Compact :=
  ⟨segment header, segment payload, encode signature⟩

theorem ofText?_carrying (header payload : Json) (signature : List UInt8) :
    ofText? (carrying header payload signature).toText =
      some (carrying header payload signature) :=
  ofText?_of_parts_eq (parts_toText _ _ signature)

end Compact

/-- A header that is written into a token is read back. -/
theorem Header.ofSegment_segment (header : Header) :
    ofSegment (Compact.segment header.toJson) = .ok header := by
  have hwellFormed : header.toJson.WellFormed Json.Document.maxDepth :=
    header.wellFormed_toJson.mono (by decide)
  rw [ofSegment, Compact.segment, Text.Base64Url.decode_encode]
  simp only [hwellFormed.ofBytes_toText, decoder_toJson]
  rfl

/-- The token that is signed with a secret, by an algorithm that the header names. -/
def Compact.underSecret (secret : List UInt8) (header : Header) (payload : Payload) : Compact :=
  let unsigned := carrying header.toJson (.ofKeyMap payload) []
  carrying header.toJson (.ofKeyMap payload)
    (header.algorithm.hash.mac secret (Text.Utf8.encode unsigned.message))

theorem Compact.isSignedBy_underSecret {secret : List UInt8} {header : Header} {payload : Payload}
    (hfamily : header.algorithm.family = .hmac) :
    (underSecret secret header payload).isSignedBy (.secret secret) header.algorithm =
      .ok true := by
  simp only [isSignedBy, hfamily, underSecret, carrying, message, beq_self_eq_true]

/-- A payload whose text is read as another payload: the numbers in it may change. -/
structure Payload.IsReadAs (payload found : Payload) : Prop where
  reread : (Json.ofKeyMap payload).reread? = some (.ofKeyMap found)
  ordered : (Json.ofKeyMap payload).IsOrdered
  height : (Json.ofKeyMap payload).height ≤ Json.Document.maxDepth

theorem Payload.isReadAs_self {payload : Payload}
    (h : (Json.ofKeyMap payload).WellFormed Json.Document.maxDepth) :
    Payload.IsReadAs payload payload :=
  ⟨Json.reread?_eq_self_iff.mpr h.readable, h.ordered, h.height⟩

theorem readHeader_carrying (header : Header) (v : Json) (signature : List UInt8) :
    readHeader (Compact.carrying header.toJson v signature).toText = .ok header := by
  rw [readHeader, Compact.ofText?_carrying]
  simp only [Compact.carrying, Header.ofSegment_segment]
  rfl

section
variable {header : Header} {payload found : Payload} {signature : List UInt8}

section
variable {key : VerificationKey} (hfits : key.fits header.algorithm = true)
  (hsigned : (Compact.carrying header.toJson (.ofKeyMap payload) signature).isSignedBy key
    header.algorithm = .ok true)
include hfits hsigned

/-- The check of a token comes down to its payload once the signature is good. -/
private theorem check_carrying_eq (expected : Expectation) (now : Nat) :
    check (Compact.carrying header.toJson (.ofKeyMap payload) signature).toText key
        header.algorithm expected now =
      let document := Json.Document.ofBytes (Text.Utf8.encode (Json.ofKeyMap payload).toText)
      match Json.Decoder.keyMap .json document, RegisteredClaims.ofDocument? document with
      | .ok found, some claims => (claims.check expected now).map fun () => found
      | _, _ => .error .notJson := by
  have hheader : Header.ofSegment
      (Compact.carrying header.toJson (.ofKeyMap payload) signature).header = .ok header :=
    Header.ofSegment_segment header
  have hbytes : Text.Base64Url.decode .refused
      (Compact.carrying header.toJson (.ofKeyMap payload) signature).payload =
        .ok (Text.Utf8.encode (Json.ofKeyMap payload).toText) :=
    Text.Base64Url.decode_encode _ _
  rw [check, Compact.ofText?_carrying]
  simp only [hfits, hheader, hsigned, hbytes, bind, Except.bind, Except.mapError, pure, Except.pure,
    ne_eq, not_true_eq_false, Bool.not_true, Bool.false_eq_true, ↓reduceIte]
  generalize Json.Document.ofBytes (Text.Utf8.encode (Json.ofKeyMap payload).toText) = document
  cases Json.Decoder.keyMap .json document with
  | error e => rfl
  | ok found =>
    cases RegisteredClaims.ofDocument? document with
    | none => rfl
    | some claims => cases claims.check expected now <;> rfl

/-- The check of a token comes down to its claims if its payload can be read. -/
theorem check_carrying {claims : RegisteredClaims} (hpayload : Payload.IsReadAs payload found)
    (hclaims : RegisteredClaims.ofDocument? (Json.Document.ofJson (.ofKeyMap found)) = some claims)
    (expected : Expectation) (now : Nat) :
    check (Compact.carrying header.toJson (.ofKeyMap payload) signature).toText key
      header.algorithm expected now = (claims.check expected now).map fun () => found := by
  have hdocument : Json.Document.ofBytes (Text.Utf8.encode (Json.ofKeyMap payload).toText) =
      .ofJson (.ofKeyMap found) := by
    rw [Json.Document.ofBytes_toText_eq_seen,
      Json.Document.seen_of_reread? hpayload.reread ((Nat.zero_add _).trans_le hpayload.height)]
  have hread := Json.Decoder.keyMap_ofKeyMap
    (Json.isOrdered_of_reread? hpayload.reread hpayload.ordered)
  rw [check_carrying_eq hfits hsigned]
  simp only [hdocument, hread, hclaims]

/-- A payload that cannot be read is found to be no JSON. -/
theorem check_carrying_of_unread (hpayload : Json.ofText? (Json.ofKeyMap payload).toText = none)
    (expected : Expectation) (now : Nat) :
    check (Compact.carrying header.toJson (.ofKeyMap payload) signature).toText key
      header.algorithm expected now = .error .notJson := by
  rw [check_carrying_eq hfits hsigned]
  obtain ⟨e, hread⟩ := Json.Decoder.exists_keyMap_eq_error hpayload
  simp only [hread]

end

variable (hpayload : (Json.ofKeyMap payload).WellFormed Json.Document.maxDepth)
include hpayload

theorem check_underSecret {secret : List UInt8} {claims : RegisteredClaims}
    (hfamily : header.algorithm.family = .hmac)
    (hclaims : RegisteredClaims.ofDocument? (Json.Document.ofJson (.ofKeyMap payload)) =
      some claims) (expected : Expectation) (now : Nat) :
    check (Compact.underSecret secret header payload).toText (.secret secret) header.algorithm
      expected now = (claims.check expected now).map fun () => payload :=
  check_carrying (by simp [VerificationKey.fits, hfamily])
    (Compact.isSignedBy_underSecret hfamily) (Payload.isReadAs_self hpayload) hclaims expected now

end

namespace RegisteredClaims
open Json

private theorem valuesOf_ofMembers (name : String) (members : List (String × Json)) :
    valuesOf name (Document.ofMembers members) =
      (members.filter (·.1 == name)).map (Document.ofJson ·.2) := by
  induction members with
  | nil => rfl
  | cons member rest ih =>
    obtain ⟨own, value⟩ := member
    by_cases hname : own = name
    · simp [valuesOf, Document.ofMembers, hname, ← ih]
    · simp [valuesOf, Document.ofMembers, hname, ← ih]

private theorem valuesOf_entries (name : String) (payload : Payload) :
    valuesOf name (Document.ofMembers payload.entries) =
      ((payload.get? name).map Document.ofJson).toList := by
  rw [valuesOf_ofMembers, KeyMap.filter_key_eq (KeyMap.nodup_keys payload.sorted), KeyMap.get?]
  cases KeyMap.findEntry name payload.entries <;> rfl

private theorem single?_eq_none {payload : Payload} {name : String}
    (h : payload.get? name = none) (loses : Document → Bool) :
    single? loses name (Document.ofMembers payload.entries) = some none := by
  rw [single?, valuesOf_entries, h]
  rfl

private theorem single?_eq_some {payload : Payload} {name : String} {v : Json}
    (h : payload.get? name = some v) {loses : Document → Bool}
    (hloses : loses (Document.ofJson v) = false) :
    single? loses name (Document.ofMembers payload.entries) = some (some (Document.ofJson v)) := by
  rw [single?, valuesOf_entries, h]
  simp only [Option.map_some, Option.toList_some, hloses, Bool.false_eq_true, ↓reduceIte]

/-- The registered claims of a payload that says when it ends, and by whom and for whom it is. An
end before the year 1970 counts as none. -/
theorem ofDocument?_of_get? {payload : Payload} {ends : Int} {issuer audience : String}
    (hexp : payload.get? "exp" = some (.ofInt ends)) (hnbf : payload.get? "nbf" = none)
    (hsub : payload.get? "sub" = none) (hiss : payload.get? "iss" = some (.string issuer))
    (haud : payload.get? "aud" = some (.string audience)) :
    ofDocument? (Document.ofJson (.ofKeyMap payload)) =
      some ⟨if 0 ≤ ends then some ends.toNat else none, none, none, some [issuer],
        some [audience]⟩ := by
  rw [ofKeyMap, Document.ofJson, ofDocument?, single?_eq_some hexp rfl, single?_eq_none hnbf,
    single?_eq_none hsub, single?_eq_some hiss rfl, single?_eq_some haud rfl]
  rfl

end RegisteredClaims

end Jose

/-! ## Tokens of a signer -/

/-- A token that is read as another one from its text, with a contract in which numbers may change.
In a payload the contract stands one level down. -/
structure AccessToken.IsReadAs (token found : AccessToken) : Prop where
  permissions : found.permissions = token.permissions
  contract : Option.Rel (fun v w => v.reread? = some w) token.contract found.contract
  active : found.active = token.active
  ordered : ∀ v, token.contract = some v → v.IsOrdered
  height : ∀ v, token.contract = some v → v.height < Json.Document.maxDepth

theorem AccessToken.isReadAs_self {token : AccessToken}
    (h : ∀ v, token.contract = some v → v.WellFormed (Json.Document.maxDepth - 1)) :
    token.IsReadAs token where
  permissions := rfl
  contract := by
    cases hcontract : token.contract with
    | none => exact .none
    | some v => exact .some (Json.reread?_eq_self_iff.mpr (h v hcontract).readable)
  active := rfl
  ordered v hv := (h v hv).ordered
  height v hv := Nat.lt_of_le_of_lt (h v hv).height (by decide)

namespace AccessToken.IsReadAs
variable {token found : AccessToken}

theorem members (h : token.IsReadAs found) :
    Json.AreMembersReread token.members found.members := by
  have hpermissions := (Permission.wellFormed_listToJson token.permissions).readable
  refine .cons ⟨rfl, ?_⟩ (.cons ⟨rfl, h.contract⟩ (.cons ⟨rfl, ?_⟩ .nil))
  · rw [h.permissions]
    exact .some (Json.reread?_eq_self_iff.mpr hpermissions)
  · rw [h.active]
    cases token.active with
    | none => exact .none
    | some b => exact .some rfl

theorem of_mem_members (h : token.IsReadAs found) :
    ∀ member ∈ token.members, ∀ v, member.2 = some v →
      v.IsOrdered ∧ v.height ≤ Json.Document.maxDepth - 1 := by
  have hpermissions := Permission.wellFormed_listToJson token.permissions
  simp only [AccessToken.members, List.forall_mem_cons, Option.some.injEq, forall_eq',
    List.not_mem_nil, false_implies, implies_true, and_true]
  refine ⟨⟨hpermissions.ordered, hpermissions.height.trans (by decide)⟩, fun v hv => ?_,
    fun v hv => ?_⟩
  · exact ⟨h.ordered v hv, Nat.le_pred_of_lt (h.height v hv)⟩
  · obtain ⟨b, -, rfl⟩ := Option.map_eq_some_iff.mp hv
    exact ⟨trivial, Nat.zero_le _⟩

theorem isOrdered_found (h : token.IsReadAs found) {w : Json} (hw : found.contract = some w) :
    w.IsOrdered := by
  have hcontract := h.contract
  rw [hw] at hcontract
  cases hheld : token.contract with
  | none =>
    rw [hheld] at hcontract
    cases hcontract
  | some v =>
    rw [hheld] at hcontract
    cases hcontract with
    | some hread => exact Json.isOrdered_of_reread? hread (h.ordered v hheld)

end AccessToken.IsReadAs

/-- A token whose contract, if there is one, is read as it is written. `null` is read as no
contract. -/
def AccessToken.IsWritable (token : AccessToken) : Prop :=
  ∀ v, token.contract = some v → v ≠ .null ∧ v.WellFormed (Json.Document.maxDepth - 1)

theorem AccessToken.IsWritable.isReadAs {token : AccessToken} (h : token.IsWritable) :
    token.IsReadAs token :=
  isReadAs_self fun v hv => (h v hv).2

theorem AccessToken.isWritable_of_contract_eq_none {token : AccessToken}
    (h : token.contract = none) : token.IsWritable := by
  intro v hv
  rw [h] at hv
  cases hv

namespace TokenSigner
open Jose (Compact RegisteredClaims Expectation)

variable {signer : TokenSigner} {minted now : Nat} {id : String} {token found : AccessToken}

/-- The claims in the payload of a token. -/
def claims (signer : TokenSigner) (minted : Nat) (id : String) (token : AccessToken) :
    Jose.Payload :=
  Json.mapOfSome <|
    [("iss", some (.string signer.issuer)), ("aud", some (.string solidAudience)),
      ("iat", some (.ofNat minted)), ("exp", some (.ofInt (minted + signer.lifetime))),
      ("jti", some (.string id))] ++ token.members

/-- The times in a token are within 64 bits. -/
structure Mints (signer : TokenSigner) (minted : Nat) : Prop where
  issued : minted ≤ Word.high
  ends : Word.fitsSigned (minted + signer.lifetime) = true

theorem Mints.bounds (h : signer.Mints minted) :
    Word.signedLow ≤ minted + signer.lifetime ∧ minted + signer.lifetime ≤ Word.high := by
  have hends := h.ends
  simp only [Word.fitsSigned, Bool.and_eq_true, decide_eq_true_eq] at hends
  exact ⟨hends.1, hends.2.trans (by decide)⟩

theorem payload_eq (signer : TokenSigner) (minted : Nat) (id : String) (token : AccessToken) :
    signer.payload minted id token = .ofKeyMap (signer.claims minted id token) :=
  Json.ofSome_eq_ofKeyMap _

theorem get?_claims (name : String) :
    (signer.claims minted id token).get? name =
      (KeyMap.findEntry name
        ([("iss", some (.string signer.issuer)), ("aud", some (.string solidAudience)),
          ("iat", some (.ofNat minted)), ("exp", some (.ofInt (minted + signer.lifetime))),
          ("jti", some (.string id))] ++ token.members)).join :=
  Json.get?_mapOfSome (by simp [AccessToken.members]) name

/-- The members of a payload besides those of the token. -/
private def registered (signer : TokenSigner) (minted : Nat) (id : String) :
    List (String × Option Json) :=
  [("iss", some (.string signer.issuer)), ("aud", some (.string solidAudience)),
    ("iat", some (.ofNat minted)), ("exp", some (.ofInt (minted + signer.lifetime))),
    ("jti", some (.string id))]

private theorem ofKeyMap_claims (signer : TokenSigner) (minted : Nat) (id : String)
    (token : AccessToken) :
    Json.ofKeyMap (signer.claims minted id token) =
      .ofSome (signer.registered minted id ++ token.members) :=
  (Json.ofSome_eq_ofKeyMap _).symm

private theorem wellFormed_registered (id : String) (h : signer.Mints minted) :
    ∀ member ∈ signer.registered minted id, ∀ v, member.2 = some v → v.WellFormed 3 := by
  obtain ⟨hlow, hhigh⟩ := h.bounds
  have hissued := h.issued
  have hissuedLow : Word.signedLow ≤ minted := by
    rw [Word.signedLow]
    omega
  simp only [registered, List.forall_mem_cons, Option.some.injEq, forall_eq', List.not_mem_nil,
    false_implies, implies_true, and_true]
  exact ⟨Json.wellFormed_string _, Json.wellFormed_string _,
    Json.wellFormed_ofInt hissuedLow (Int.ofNat_le.mpr hissued), Json.wellFormed_ofInt hlow hhigh,
    Json.wellFormed_string _⟩

/-- The payload of a token is read as that of the token that it is read as. -/
theorem isReadAs_claims (h : signer.Mints minted) (htoken : token.IsReadAs found) :
    Jose.Payload.IsReadAs (signer.claims minted id token) (signer.claims minted id found) := by
  have hregistered := wellFormed_registered id h
  have hmembers : ∀ member ∈ signer.registered minted id ++ token.members, ∀ v,
      member.2 = some v → v.IsOrdered ∧ v.height ≤ Json.Document.maxDepth - 1 := by
    intro member hmember v hv
    rcases List.mem_append.mp hmember with hmember | hmember
    · have hv := hregistered member hmember v hv
      exact ⟨hv.ordered, hv.height.trans (by decide)⟩
    · exact htoken.of_mem_members member hmember v hv
  refine ⟨?_, ?_, ?_⟩ <;> rw [ofKeyMap_claims]
  · rw [ofKeyMap_claims]
    exact Json.reread?_ofSome
      (List.rel_append (Json.areMembersReread_self hregistered) htoken.members)
  · exact Json.isOrdered_ofSome fun member hmember v hv => (hmembers member hmember v hv).1
  · exact Json.height_ofSome_le fun member hmember v hv => (hmembers member hmember v hv).2

theorem ofDocument?_claims :
    RegisteredClaims.ofDocument?
        (Json.Document.ofJson (.ofKeyMap (signer.claims minted id token))) =
      some ⟨if 0 ≤ minted + signer.lifetime then some (minted + signer.lifetime).toNat else none,
        none, none, some [signer.issuer], some [solidAudience]⟩ :=
  RegisteredClaims.ofDocument?_of_get? (get?_claims "exp") (get?_claims "nbf") (get?_claims "sub")
    (get?_claims "iss") (get?_claims "aud")

/-- The signature of a token. -/
def signature (signer : TokenSigner) (minted : Nat) (id : String) (token : AccessToken) :
    List UInt8 :=
  signer.keys.key.sign .sha256 <| Text.Utf8.encode <|
    Compact.segment signer.header.toJson ++ "." ++
      Compact.segment (.ofKeyMap (signer.claims minted id token))

theorem mint_token (signer : TokenSigner) (minted : Nat) (id : String) (token : AccessToken) :
    (signer.mint minted id token).token =
      (Compact.carrying signer.header.toJson (.ofKeyMap (signer.claims minted id token))
        (signer.signature minted id token)).toText := by
  rw [signature, ← payload_eq]
  rfl

theorem isSignedBy_signature (hkey : signer.keys.key.SignaturesVerify .sha256) :
    (Compact.carrying signer.header.toJson (.ofKeyMap (signer.claims minted id token))
      (signer.signature minted id token)).isSignedBy signer.keys.verificationKey .rs256 =
        .ok true := by
  have hverify := hkey (Text.Utf8.encode <| Compact.segment signer.header.toJson ++ "." ++
    Compact.segment (.ofKeyMap (signer.claims minted id token)))
  simp only [Compact.isSignedBy, Compact.carrying, Compact.message, KeyPair.verificationKey,
    Jose.Algorithm.family, Text.Base64Url.decode_encode, signature, Jose.Algorithm.hash, hverify,
    bind, Except.bind, Except.mapError]
  rfl

/-! ### Reading a minted token -/

theorem readHeader_mint (signer : TokenSigner) (minted : Nat) (id : String) (token : AccessToken) :
    Jose.readHeader (signer.mint minted id token).token = .ok signer.header := by
  rw [mint_token]
  exact Jose.readHeader_carrying _ _ _

section
variable (hminted : signer.Mints minted) (hkey : signer.keys.key.SignaturesVerify .sha256)
include hminted hkey

/-- Whoever checks a minted token with the key of its signer finds it good until it has ended. -/
theorem check_mint (htoken : token.IsReadAs found) (now : Nat) :
    Jose.check (signer.mint minted id token).token signer.keys.verificationKey .rs256
        signer.expectation now =
      if 0 ≤ minted + signer.lifetime ∧ minted + signer.lifetime + Jose.leeway < now then
        .error .expired
      else .ok (signer.claims minted id found) := by
  rw [mint_token]
  refine (Jose.check_carrying rfl (isSignedBy_signature hkey)
    (isReadAs_claims hminted htoken) ofDocument?_claims signer.expectation now).trans ?_
  by_cases hends : 0 ≤ minted + signer.lifetime
  · have hexpired : (minted + signer.lifetime).toNat + Jose.leeway < now ↔
        minted + signer.lifetime + Jose.leeway < now := by omega
    simp only [RegisteredClaims.check, RegisteredClaims.names, expectation, List.find?_nil,
      hends, ↓reduceIte, Option.any_some, Option.any_none, Option.all_some, decide_eq_true_eq,
      hexpired, true_and]
    split <;> simp [Except.map]
  · simp [RegisteredClaims.check, RegisteredClaims.names, expectation, hends, Except.map]

/-- The signer reads what it has minted until it has ended. -/
theorem read_mint_of_isReadAs (htoken : token.IsReadAs found) (now : Nat) :
    signer.read now (signer.mint minted id token).token =
      if 0 ≤ minted + signer.lifetime ∧ minted + signer.lifetime + Jose.leeway < now then
        .error (.invalidCredential (.rejected .expired))
      else .ok found.asRead := by
  have hdecode : Json.decodeWith AccessToken.decoder (.ofKeyMap (signer.claims minted id found)) =
      some found.asRead := by
    rw [claims, ← Json.ofSome_eq_ofKeyMap, Json.decodeWith, AccessToken.decoder_ofSome]
    · rfl
    · simp [AccessToken.members]
    · simp [AccessToken.members, KeyMap.findEntry]
    · exact fun v hv => htoken.isOrdered_found hv
  rw [read, Jose.verify, check_mint hminted hkey htoken]
  split
  · rfl
  · simp only [Except.mapError, bind, Except.bind, hdecode]
    rfl

theorem read_mint (htoken : token.IsWritable) (now : Nat) :
    signer.read now (signer.mint minted id token).token =
      if 0 ≤ minted + signer.lifetime ∧ minted + signer.lifetime + Jose.leeway < now then
        .error (.invalidCredential (.rejected .expired))
      else .ok token := by
  have hnull : token.contract ≠ some .null := fun hcontract => (htoken .null hcontract).1 rfl
  rw [read_mint_of_isReadAs hminted hkey htoken.isReadAs,
    AccessToken.asRead_of_contract_ne_null hnull]

end

/-- A payload whose contract stands too deep in it is not read at all. -/
theorem read_mint_of_deep (hkey : signer.keys.key.SignaturesVerify .sha256) {v : Json}
    (hcontract : token.contract = some v) (hdeep : Json.Document.maxDepth ≤ v.height)
    (now : Nat) :
    signer.read now (signer.mint minted id token).token =
      .error (.invalidCredential (.rejected .notJson)) := by
  have hunread : Json.ofText? (Json.ofKeyMap (signer.claims minted id token)).toText = none := by
    have hfound : (signer.claims minted id token).get? "contract" = some v := by
      rw [get?_claims, ← hcontract]
      rfl
    have hlt := Json.height_lt_of_get? hfound
    exact Json.ofText?_toText_of_deep (hdeep.trans_lt hlt)
  have hcheck : Jose.check (signer.mint minted id token).token signer.keys.verificationKey .rs256
      signer.expectation now = .error .notJson := by
    rw [mint_token]
    exact Jose.check_carrying_of_unread rfl
      (isSignedBy_signature hkey) hunread signer.expectation now
  rw [read, Jose.verify, hcheck]
  rfl

end TokenSigner

end UserManagedAccess
