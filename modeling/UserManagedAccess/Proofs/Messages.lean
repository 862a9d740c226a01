import UserManagedAccess.Jose.Header
import UserManagedAccess.Jose.Key
import UserManagedAccess.Proofs.Records
import UserManagedAccess.Token.Basic

/-! The records that pass between servers are read as they were written. -/
namespace UserManagedAccess

open Json Json.RecordDecoder

/-! ## Permissions and tokens -/

namespace Permission

theorem decoder_toJson (p : Permission) : decoder (Document.ofJson p.toJson) = .ok p := by
  obtain ⟨resource, scopes⟩ := p
  refine decode_ofSome ["resource_id", "resource_scopes"] ⟨rfl, by decide⟩ (by simp) ?_
  refine Finds.seq (Finds.map Permission.mk ?_) ?_
  · exact finds_optional_string rfl
  · exact finds_optional rfl fun ss _ => ⟨nofun, Decoder.list_strings ss⟩

theorem listDecoder_listToJson (ps : List Permission) :
    listDecoder (Document.ofJson (listToJson ps)) = .ok ps :=
  Decoder.list_ofJson fun p _ => decoder_toJson p

theorem wellFormed_toJson (p : Permission) : p.toJson.WellFormed 2 := by
  refine wellFormed_ofSome ?_
  simp only [List.forall_mem_cons, List.not_mem_nil, false_implies, implies_true, and_true]
  refine ⟨fun v hv => ?_, fun v hv => ?_⟩
  · obtain ⟨s, -, rfl⟩ := Option.map_eq_some_iff.mp hv
    exact wellFormed_string s
  · obtain ⟨ss, -, rfl⟩ := Option.map_eq_some_iff.mp hv
    exact wellFormed_strings ss

theorem wellFormed_listToJson (ps : List Permission) : (listToJson ps).WellFormed 3 := by
  refine wellFormed_array fun item hitem => ?_
  obtain ⟨p, -, rfl⟩ := List.mem_map.mp hitem
  exact wellFormed_toJson p

end Permission

namespace AccessToken

/-- The token as it is read: a contract that is `null` stands for no contract. -/
def asRead (token : AccessToken) : AccessToken :=
  match token.contract with
  | some .null => { token with contract := none }
  | _ => token

theorem asRead_of_contract_ne_null {token : AccessToken} (h : token.contract ≠ some .null) :
    token.asRead = token := by
  rw [asRead]
  split
  · next hnull => exact absurd hnull h
  · rfl

/-- A token is read from every object that holds its members, whatever else the object holds. -/
theorem decoder_ofSome {members : List (String × Option Json)} {token : AccessToken}
    (hdistinct : (members.map (·.1)).Nodup)
    (hmembers : ∀ member ∈ token.members, (KeyMap.findEntry member.1 members).join = member.2)
    (hcontract : ∀ v, token.contract = some v → v.IsOrdered) :
    decoder (Document.ofJson (.ofSome members)) = .ok token.asRead := by
  obtain ⟨permissions, contract, active⟩ := token
  simp only [AccessToken.members, List.forall_mem_cons, List.not_mem_nil, false_implies,
    implies_true, and_true] at hmembers
  obtain ⟨hpermissions, hcontractFound, hactive⟩ := hmembers
  have hasRead : (mk permissions contract active).asRead =
      ⟨permissions, (mk permissions contract active).asRead.contract, active⟩ := by
    rw [asRead]
    split <;> rfl
  rw [hasRead]
  refine decode_ofSome ["permissions", "contract", "active"] ⟨rfl, by decide⟩ hdistinct ?_
  refine Finds.seq (Finds.seq (Finds.map AccessToken.mk ?_) ?_) ?_
  · exact finds_required hpermissions (Permission.listDecoder_listToJson permissions)
  · by_cases hnull : contract = some .null
    · subst hnull
      exact finds_optional_null hcontractFound
    · rw [asRead_of_contract_ne_null hnull]
      have hfound : (KeyMap.findEntry "contract" members).join = contract.map id := by
        rwa [Option.map_id]
      refine finds_optional hfound fun v hv => ⟨?_, Decoder.json_ofJson (hcontract v hv)⟩
      rintro rfl
      exact hnull hv
  · exact finds_optional hactive fun b _ => ⟨nofun, rfl⟩

end AccessToken

/-! ## Keys and headers -/

namespace Jose

theorem Jwk.decoder_toJson (key : Jwk) : decoder (Document.ofJson key.toJson) = .ok key := by
  obtain ⟨keyType, keyId, algorithm, usage, modulus, exponent, secret⟩ := key
  refine decode_ofSome ["kty", "kid", "alg", "use", "n", "e", "k"] ⟨rfl, by decide⟩ (by simp) ?_
  exact ((((((Finds.map Jwk.mk (finds_required rfl rfl)).seq (finds_optional_string rfl)).seq
    (finds_optional_string rfl)).seq (finds_optional_string rfl)).seq
      (finds_optional_string rfl)).seq (finds_optional_string rfl)).seq (finds_optional_string rfl)

theorem JwkSet.decoder_toJson (set : JwkSet) :
    decoder (Document.ofJson set.toJson) = .ok set := by
  obtain ⟨keys⟩ := set
  refine decode_ofMembers ["keys"] ⟨rfl, by decide⟩ (by simp) ?_
  exact Finds.map JwkSet.mk
    (finds_required rfl (Decoder.list_ofJson fun key _ => Jwk.decoder_toJson key))

private theorem word_name (algorithm : Algorithm) :
    Decoder.word Algorithm.ofName? (Document.ofJson (.string algorithm.name)) = .ok algorithm := by
  cases algorithm <;> rfl

private theorem finds_nullable_texts {look : String → Option Json} {name : String}
    {value : Option (List String)} (h : look name = value.map .strings) :
    (nullable name (.list Decoder.string)).Finds look value :=
  finds_nullable h fun ss _ => ⟨nofun, Decoder.list_strings ss⟩

private theorem finds_nullable_text {look : String → Option Json} {name : String}
    {value : Option String} (h : look name = value.map .string) :
    (nullable name Decoder.string).Finds look value := finds_nullable h fun _ _ => ⟨nofun, rfl⟩

section
variable {levels : Nat}

private theorem wellFormed_text {value : Option String} :
    ∀ v, value.map Json.string = some v → v.WellFormed levels := by
  intro v hv
  obtain ⟨s, -, rfl⟩ := Option.map_eq_some_iff.mp hv
  exact wellFormed_string s

private theorem wellFormed_texts {value : Option (List String)} :
    ∀ v, value.map Json.strings = some v → v.WellFormed (levels + 1) := by
  intro v hv
  obtain ⟨ss, -, rfl⟩ := Option.map_eq_some_iff.mp hv
  exact wellFormed_strings ss

private theorem wellFormed_some_string {s : String} :
    ∀ v, some (Json.string s) = some v → v.WellFormed levels := by
  rintro v ⟨⟩
  exact wellFormed_string s

end

namespace KeyMaterial

private theorem word_curve (crv : Curve) :
    Decoder.word Curve.ofName? (Document.ofJson (.string crv.name)) = .ok crv := by
  cases crv <;> rfl

private theorem word_type (type : KeyType) :
    Decoder.word KeyType.ofName? (Document.ofJson (.string type.name)) = .ok type := by
  cases type <;> rfl

theorem wellFormed_of_mem_members (material : KeyMaterial) :
    ∀ member ∈ material.members, ∀ v, member.2 = some v → v.WellFormed 1 := by
  cases material <;>
    simp only [members, List.forall_mem_cons, List.not_mem_nil, false_implies, implies_true,
      and_true] <;>
    exact ⟨wellFormed_some_string, by simp [wellFormed_string]⟩

end KeyMaterial

namespace HeaderKey

theorem wellFormed_toJson (key : HeaderKey) : key.toJson.WellFormed 2 := by
  have hcommon : ∀ member ∈ key.members.take 8, ∀ v, member.2 = some v → v.WellFormed 1 := by
    have halgorithm : ∀ v, (key.algorithm.map fun algorithm => Json.string algorithm.name) =
        some v → v.WellFormed 1 := by
      intro v hv
      obtain ⟨algorithm, -, rfl⟩ := Option.map_eq_some_iff.mp hv
      exact wellFormed_string _
    simp only [members, List.cons_append, List.take_succ_cons, List.take_zero,
      List.forall_mem_cons, List.not_mem_nil, false_implies, implies_true, and_true]
    exact ⟨wellFormed_text, wellFormed_texts, halgorithm, wellFormed_text, wellFormed_text,
      wellFormed_texts, wellFormed_text, wellFormed_text⟩
  refine wellFormed_ofSome fun member hmember => ?_
  rw [← List.take_append_drop 8 key.members] at hmember
  rcases List.mem_append.mp hmember with hmember | hmember
  · exact hcommon member hmember
  · exact key.material.wellFormed_of_mem_members member hmember

private theorem nodup_members (key : HeaderKey) : (key.members.map (·.1)).Nodup := by
  obtain ⟨_, _, _, _, _, _, _, _, material⟩ := key
  cases material <;> simp [members, KeyMaterial.members]

private theorem commonDecoder_toJson (key : HeaderKey) :
    commonDecoder.decodeObject (Document.ofJson key.toJson) =
      .ok fun material => { key with material } := by
  have hnames : commonDecoder.HasNames
      ["use", "key_ops", "alg", "kid", "x5u", "x5c", "x5t", "x5t#S256"] := ⟨rfl, by decide⟩
  refine decode_ofSome _ hnames key.nodup_members ?_
  have halgorithm {look : String → Option Json}
      (h : look "alg" = key.algorithm.map fun algorithm => .string algorithm.name) :
      (nullable "alg" (Decoder.word Algorithm.ofName?)).Finds look key.algorithm :=
    finds_nullable h fun algorithm _ => ⟨nofun, word_name algorithm⟩
  exact (((((((Finds.map HeaderKey.mk (finds_nullable_text rfl)).seq (finds_nullable_texts rfl)).seq
    (halgorithm rfl)).seq (finds_nullable_text rfl)).seq (finds_nullable_text rfl)).seq
    (finds_nullable_texts rfl)).seq (finds_nullable_text rfl)).seq (finds_nullable_text rfl)

private theorem materialDecoder_toJson (key : HeaderKey) :
    KeyMaterial.decoder (Document.ofJson key.toJson) = .ok key.material := by
  have hdistinct := key.nodup_members
  have htype : KeyMaterial.typeDecoder.decodeObject (Document.ofJson key.toJson) =
      .ok key.material.type := by
    refine decode_ofSome ["kty"] ⟨rfl, by decide⟩ hdistinct ?_
    exact Finds.map id (finds_required rfl (KeyMaterial.word_type _))
  rw [KeyMaterial.decoder, htype]
  obtain ⟨_, _, _, _, _, _, _, _, material⟩ := key
  cases material with
  | curve crv x y =>
    refine decode_ofSome ["crv", "x", "y"] ⟨rfl, by decide⟩ hdistinct ?_
    exact ((Finds.map KeyMaterial.curve (finds_required rfl (KeyMaterial.word_curve crv))).seq
      (finds_required rfl rfl)).seq (finds_required rfl rfl)
  | rsa modulus exponent =>
    refine decode_ofSome ["n", "e"] ⟨rfl, by decide⟩ hdistinct ?_
    exact (Finds.map KeyMaterial.rsa (finds_required rfl rfl)).seq (finds_required rfl rfl)
  | octets secret =>
    refine decode_ofSome ["k"] ⟨rfl, by decide⟩ hdistinct ?_
    exact Finds.map KeyMaterial.octets (finds_required rfl rfl)
  | octetPair crv x =>
    refine decode_ofSome ["crv", "x"] ⟨rfl, by decide⟩ hdistinct ?_
    exact (Finds.map KeyMaterial.octetPair
      (finds_required rfl (KeyMaterial.word_curve crv))).seq (finds_required rfl rfl)

theorem decoder_toJson (key : HeaderKey) :
    decoder (Document.ofJson key.toJson) = .ok key := by
  rw [decoder, Decoder.buffered, Decoder.json_ofJson key.wellFormed_toJson.ordered]
  simp only [key.commonDecoder_toJson, key.materialDecoder_toJson, bind, Except.bind]
  rfl

end HeaderKey

namespace Header

theorem wellFormed_toJson (header : Header) : header.toJson.WellFormed 3 := by
  have hkey : ∀ v, header.key.map HeaderKey.toJson = some v → v.WellFormed 2 := by
    intro v hv
    obtain ⟨key, -, rfl⟩ := Option.map_eq_some_iff.mp hv
    exact key.wellFormed_toJson
  refine wellFormed_ofSome ?_
  simp only [List.forall_mem_cons, List.not_mem_nil, false_implies, implies_true, and_true]
  exact ⟨wellFormed_text, wellFormed_some_string, wellFormed_text, wellFormed_text, hkey,
    wellFormed_text, wellFormed_text, wellFormed_texts, wellFormed_text, wellFormed_text⟩

theorem decoder_toJson (header : Header) :
    decoder (Document.ofJson header.toJson) = .ok header := by
  obtain ⟨type, algorithm, contentType, keySetUrl, key, keyId, certificateUrl, certificates,
    thumbprint, thumbprint256⟩ := header
  refine decode_ofSome ["typ", "alg", "cty", "jku", "jwk", "kid", "x5u", "x5c", "x5t", "x5t#S256"]
    ⟨rfl, by decide⟩ (by simp) ?_
  have hkey {look : String → Option Json} (h : look "jwk" = key.map HeaderKey.toJson) :
      (nullable "jwk" HeaderKey.decoder).Finds look key :=
    finds_nullable h fun key _ => ⟨nofun, HeaderKey.decoder_toJson key⟩
  exact (((((((((Finds.map Header.mk (finds_nullable_text rfl)).seq
    (finds_required rfl (word_name algorithm))).seq (finds_nullable_text rfl)).seq
    (finds_nullable_text rfl)).seq (hkey rfl)).seq (finds_nullable_text rfl)).seq
    (finds_nullable_text rfl)).seq (finds_nullable_texts rfl)).seq (finds_nullable_text rfl)).seq
    (finds_nullable_text rfl)

end Header

end Jose

end UserManagedAccess
