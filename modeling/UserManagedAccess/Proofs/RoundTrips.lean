import UserManagedAccess.Proofs.TokenExchange

/-! A signed token gives back what went into it. On the way it passes through JSON twice: as the
members of a payload, where `null` is the same as nothing, and as a text, which is read only down to
a certain level. -/
namespace UserManagedAccess

/-! ## Towers -/

namespace Json

/-- Arrays within one another, so many of them, around nothing. -/
def tower : Nat → Json
  | 0 => .null
  | levels + 1 => .array [tower levels]

theorem wellFormed_tower (levels : Nat) : (tower levels).WellFormed levels := by
  induction levels with
  | zero => exact ⟨trivial, trivial, Nat.le_refl _⟩
  | succ levels ih => exact wellFormed_array fun item hitem => List.mem_singleton.mp hitem ▸ ih

theorem height_tower (levels : Nat) : (tower levels).height = levels := by
  induction levels with
  | zero => rfl
  | succ levels ih => rw [tower, height, itemsHeight, itemsHeight, ih, Nat.max_zero]

end Json

namespace TokenSigner
variable {signer : TokenSigner} {minted now : Nat} {id : String} {token : AccessToken}

/-- As long as it is good, a token comes back exactly as it was made, unless its contract is `null`,
or is so tall that it is read by itself but not within a payload. A contract that is `null` comes
back as none, and a token with a contract that is too tall is refused. -/
theorem reads_own_token_iff (hkey : signer.keys.key.SignaturesVerify .sha256)
    (hminted : signer.Mints minted) (hnow : now ≤ minted + signer.lifetime + Jose.leeway)
    (hcontract : ∀ v, token.contract = some v → Json.ofText? v.toText = some v) :
    let found := signer.read now (signer.mint minted id token).token
    (found = .ok token ↔
      ∀ v, token.contract = some v → v ≠ .null ∧ v.height < Json.Document.maxDepth) ∧
    (token.contract = some .null → found = .ok { token with contract := none }) ∧
    ∀ v, token.contract = some v → Json.Document.maxDepth ≤ v.height →
      found = .error (.invalidCredential (.rejected .notJson)) := by
  intro found
  have hread (hheight : ∀ v, token.contract = some v → v.height < Json.Document.maxDepth) :
      found = .ok token.asRead := by
    have htoken : token.IsReadAs token := AccessToken.isReadAs_self fun v hv =>
      have hv' := Json.ofText?_toText_eq_some_iff.mp (hcontract v hv)
      ⟨hv'.readable, hv'.ordered, Nat.le_pred_of_lt (hheight v hv)⟩
    exact (read_mint_of_isReadAs hminted hkey htoken now).trans (if_neg (by omega))
  have hdeep (v : Json) (hv : token.contract = some v)
      (hheight : Json.Document.maxDepth ≤ v.height) :
      found = .error (.invalidCredential (.rejected .notJson)) :=
    read_mint_of_deep hkey hv hheight now
  have hnull (hv : token.contract = some .null) :
      found = .ok { token with contract := none } := by
    rw [hread fun v hv' => ?_, AccessToken.asRead, hv]
    cases hv.symm.trans hv'
    decide
  refine ⟨⟨fun hsame v hv => ⟨?_, ?_⟩, fun h => ?_⟩, hnull, hdeep⟩
  · rintro rfl
    have htoken := Except.ok.inj (hsame.symm.trans (hnull hv))
    rw [htoken] at hv
    cases hv
  · refine Nat.lt_of_not_le fun hheight => ?_
    cases hsame.symm.trans (hdeep v hv hheight)
  · rw [hread fun v hv => (h v hv).2]
    exact congrArg Except.ok
      (AccessToken.asRead_of_contract_ne_null fun hv => (h .null hv).1 rfl)

/-- Two tokens that do not come back: their contracts are `null`, and a tower that is read from its
own text. -/
theorem contracts_lost_in_transit :
    let null : AccessToken := ⟨[], some .null, none⟩
    let tall : AccessToken := ⟨[], some (.tower 127), none⟩
    sample.issuer ≠ "" ∧ sample.keys.key.SignaturesVerify .sha256 ∧ sample.Mints 1000 ∧
      Json.ofText? Json.null.toText = some .null ∧
      Json.ofText? (Json.tower 127).toText = some (.tower 127) ∧
      sample.read 1000 (sample.mint 1000 "T1" null).token ≠ .ok null ∧
      sample.read 1000 (sample.mint 1000 "T1" tall).token ≠ .ok tall := by
  intro null tall
  have hkey : sample.keys.key.SignaturesVerify .sha256 :=
    Crypto.Rsa.signaturesVerify_sampleKey .sha256
  have hnull : null.IsReadAs null := AccessToken.isReadAs_self fun v hv => by
    cases hv
    exact ⟨trivial, trivial, Nat.zero_le _⟩
  refine ⟨by decide, hkey, sample_mints, rfl,
    Json.ofText?_toText_eq_some_iff.mpr (Json.wellFormed_tower 127), fun hread => ?_,
    fun hread => ?_⟩
  · rw [read_mint_of_isReadAs sample_mints hkey hnull, if_neg (by decide)] at hread
    cases congrArg AccessToken.contract (Except.ok.inj hread)
  · rw [read_mint_of_deep hkey rfl (Json.height_tower 127).ge] at hread
    cases hread

/-- A token with all there is to a token comes back to the server that made it. -/
theorem sample_reads_own_token :
    let contract := Json.ofMembers [("purpose", .string "care"), ("until", .ofInt 5)]
    let token : AccessToken :=
      ⟨[⟨none, none⟩, ⟨some "D1", some []⟩, ⟨none, some ["read"]⟩], some contract, some true⟩
    sample.keys.key.SignaturesVerify .sha256 ∧ sample.Mints 1000 ∧
      Json.ofText? contract.toText = some contract ∧
      sample.read 1300 (sample.mint 1000 "T1" token).token = .ok token := by
  intro contract token
  have hkey : sample.keys.key.SignaturesVerify .sha256 :=
    Crypto.Rsa.signaturesVerify_sampleKey .sha256
  have hwell : contract.WellFormed 1 := by
    refine Json.wellFormed_ofMembers fun member hmember => ?_
    simp only [List.mem_cons, List.not_mem_nil, or_false] at hmember
    rcases hmember with rfl | rfl
    · exact Json.wellFormed_string _
    · exact Json.wellFormed_ofInt (by decide) (by decide)
  have htext : Json.ofText? contract.toText = some contract :=
    Json.ofText?_toText_eq_some_iff.mpr (hwell.mono (by decide))
  refine ⟨hkey, sample_mints, htext, ?_⟩
  refine (reads_own_token_iff hkey sample_mints (by decide) fun v hv => ?_).1.mpr fun v hv => ?_
  · cases hv
    exact htext
  · cases hv
    exact ⟨nofun, Nat.lt_of_le_of_lt hwell.height (by decide)⟩

end TokenSigner

end UserManagedAccess
