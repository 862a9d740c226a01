import UserManagedAccess.Proofs.Encodings
import UserManagedAccess.Proofs.TextParts
import UserManagedAccess.Proofs.VerifierContract

/-! Identities that are taken at their word. Whichever way a WebID and a client are percent-encoded,
exactly these are read off the token; and a text is taken exactly if it has one part or two, both of
them texts when decoded, and the first not blank. -/
namespace UserManagedAccess

namespace Text

namespace Percent
open Utf8 (bytes bytes_append bytes_cons bytes_cons_ascii)

/-! ## Percent-encodings -/

/-- The character is a hexadecimal digit with the value, in either case. -/
def IsHexDigit (n : Nat) (c : Char) : Prop :=
  c = Nat.digitChar n ∨ c = (Nat.digitChar n).toUpper

/-- Each octet is written as a percent sign and two hexadecimal digits. -/
inductive Triplets : List UInt8 → List Char → Prop where
  | nil : Triplets [] []
  | cons {octet : UInt8} {octets : List UInt8} {high low : Char} {written : List Char} :
    IsHexDigit (octet.toNat / 16) high → IsHexDigit (octet.toNat % 16) low →
      Triplets octets written → Triplets (octet :: octets) ('%' :: high :: low :: written)

/-- Each character is written as itself, unless it is a percent sign or a colon, or as its octets. -/
inductive Encodes : List Char → List Char → Prop where
  | nil : Encodes [] []
  | itself {c : Char} {cs written : List Char} :
    c ≠ '%' → c ≠ ':' → Encodes cs written → Encodes (c :: cs) (c :: written)
  | octets {c : Char} {cs front written : List Char} :
    Triplets (String.utf8EncodeChar c) front → Encodes cs written →
      Encodes (c :: cs) (front ++ written)

private theorem isHexDigit_spec {n : Nat} (hn : n < 16) {c : Char} (h : IsHexDigit n c) :
    c.toNat < 0x80 ∧ c ≠ ':' ∧ hexValue? (.ofNat c.toNat) = some (.ofNat n) := by
  rcases h with rfl | rfl
  · revert n
    decide
  · revert n
    decide

private theorem decodeBytes_triplet {octet high low : UInt8}
    (hhigh : hexValue? high = some (.ofNat (octet.toNat / 16)))
    (hlow : hexValue? low = some (.ofNat (octet.toNat % 16))) (rest : List UInt8) :
    decodeBytes (0x25 :: high :: low :: rest) = octet :: decodeBytes rest := by
  have hvalue : UInt8.ofNat (octet.toNat / 16) * 16 + UInt8.ofNat (octet.toNat % 16) = octet := by
    have hoctet := octet.toNat_lt
    rw [← UInt8.toNat_inj]
    simp only [UInt8.toNat_add, UInt8.toNat_mul, UInt8.toNat_ofNat', UInt8.reduceToNat]
    omega
  simp only [decodeBytes, hhigh, hlow, hvalue]

private theorem Triplets.decodeBytes_append {octets : List UInt8} {written : List Char}
    (h : Triplets octets written) (rest : List UInt8) :
    decodeBytes (bytes written ++ rest) = octets ++ decodeBytes rest := by
  induction h with
  | nil => rfl
  | @cons octet _ _ _ _ hhigh hlow _ ih =>
    have hoctet := octet.toNat_lt
    obtain ⟨hascii, -, hvalue⟩ := isHexDigit_spec (by omega) hhigh
    obtain ⟨hascii', -, hvalue'⟩ := isHexDigit_spec (by omega) hlow
    rw [bytes_cons_ascii (by decide), bytes_cons_ascii hascii, bytes_cons_ascii hascii']
    exact (decodeBytes_triplet hvalue hvalue' _).trans (congrArg (octet :: ·) ih)

/-- Octets that are no percent signs stand for themselves. -/
private theorem decodeBytes_append {front : List UInt8} (h : 0x25 ∉ front) (rest : List UInt8) :
    decodeBytes (front ++ rest) = front ++ decodeBytes rest := by
  induction front with
  | nil => rfl
  | cons b front ih =>
    obtain ⟨hb, hfront⟩ := not_or.mp (mt List.mem_cons.mpr h)
    rw [List.cons_append, decodeBytes, ih hfront]
    · rfl
    · intro _ _ _ heq
      exact absurd heq.symm hb

private theorem percent_not_mem_utf8EncodeChar {c : Char} (h : c ≠ '%') :
    0x25 ∉ String.utf8EncodeChar c := by
  intro hmem
  rcases Utf8.toNat_of_mem_utf8EncodeChar hmem with hwide | hsame
  · exact absurd hwide (by decide)
  · exact h (Char.ext (UInt32.toNat_inj.mp hsame.symm))

namespace Encodes
variable {cs written : List Char}

/-- Every encoding is decoded to what it encodes. -/
theorem decodeBytes_bytes (h : Encodes cs written) : decodeBytes (bytes written) = bytes cs := by
  induction h with
  | nil => rfl
  | itself hpercent _ _ ih =>
    rw [bytes_cons, bytes_cons, decodeBytes_append (percent_not_mem_utf8EncodeChar hpercent), ih]
  | octets hfront _ ih => rw [bytes_append, hfront.decodeBytes_append, ih, bytes_cons]

private theorem colon_not_mem_of_triplets {octets : List UInt8} (h : Triplets octets written) :
    ':' ∉ written := by
  induction h with
  | nil => exact List.not_mem_nil
  | @cons octet _ _ _ _ hhigh hlow _ ih =>
    have hoctet := octet.toNat_lt
    have hne := (isHexDigit_spec (by omega) hhigh).2.1
    have hne' := (isHexDigit_spec (by omega) hlow).2.1
    simp [Ne.symm hne, Ne.symm hne', ih]

theorem colon_not_mem (h : Encodes cs written) : ':' ∉ written := by
  induction h with
  | nil => exact List.not_mem_nil
  | itself _ hcolon _ ih => simp [Ne.symm hcolon, ih]
  | octets hfront _ ih => simp [colon_not_mem_of_triplets hfront, ih]

end Encodes

/-- The octets that the written text stands for are those of the text. -/
def Spells (written text : String) : Prop := decodeBytes (Utf8.encode written) = Utf8.encode text

theorem decode_eq_ok_iff {written text : String} :
    decode written = .ok text ↔ Spells written text :=
  Utf8.decode_eq_ok_iff

theorem Spells.unique {written text other : String} (h : Spells written text)
    (hother : Spells written other) : text = other :=
  Utf8.encode_injective (h.symm.trans hother)

theorem Encodes.spells {cs written : List Char} (h : Encodes cs written) :
    Spells (.ofList written) (.ofList cs) := by
  rw [Spells, Utf8.encode_ofList, Utf8.encode_ofList, h.decodeBytes_bytes]

end Percent

end Text

namespace SelfAsserted
open Text.Percent (Encodes Spells)

/-! ## What a token says -/

theorem readPart_eq_ok_iff {part text : String} : readPart part = .ok text ↔ Spells part text := by
  rw [readPart, mapError_eq_ok, Text.Percent.decode_eq_ok_iff]

theorem identity_eq_ok_iff {part webid : String} :
    identity part = .ok webid ↔ Spells part webid ∧ Text.isBlank webid = false := by
  rw [← readPart_eq_ok_iff]
  constructor
  · intro h
    obtain ⟨found, hfound, h⟩ := exists_of_bind_eq_ok h
    cases hblank : Text.isBlank found with
    | true => simp [hblank, bind, Except.bind, throw, throwThe, MonadExceptOf.throw] at h
    | false =>
      simp only [hblank, Bool.false_eq_true, ↓reduceIte] at h
      cases h
      exact ⟨hfound, hblank⟩
  · rintro ⟨hfound, hblank⟩
    rw [identity, hfound]
    simp only [bind, Except.bind, hblank, Bool.false_eq_true, ↓reduceIte]
    rfl

section
variable {token first second : String} {found : String × Option String}

theorem read_of_one_part (h : Text.parts (· == ':') token = [first]) :
    read token = .ok found ↔
      ∃ webid, Spells first webid ∧ Text.isBlank webid = false ∧ found = (webid, none) := by
  simp only [← and_assoc, ← identity_eq_ok_iff, read, h]
  cases identity first with
  | error e => simp [bind, Except.bind]
  | ok webid => simp [bind, Except.bind, pure, Except.pure, eq_comm]

theorem read_of_two_parts (h : Text.parts (· == ':') token = [first, second]) :
    read token = .ok found ↔
      ∃ webid client, Spells first webid ∧ Text.isBlank webid = false ∧ Spells second client ∧
        found = (webid, some client) := by
  simp only [← and_assoc, ← identity_eq_ok_iff, read, h]
  simp only [← readPart_eq_ok_iff]
  cases identity first with
  | error e => simp [bind, Except.bind]
  | ok webid =>
    cases readPart second with
    | error e => simp [bind, Except.bind]
    | ok client => simp [bind, Except.bind, pure, Except.pure, eq_comm, and_assoc]

end

/-- A text is taken exactly if it has at most one colon, its parts are texts when they are decoded,
and the first of them is not blank. -/
theorem exists_read_iff {token : String} :
    (∃ found, read token = .ok found) ↔
      token.toList.count ':' ≤ 1 ∧
        (∀ part ∈ Text.parts (· == ':') token, ∃ text, Spells part text) ∧
        ∀ first ∈ (Text.parts (· == ':') token).head?, ∀ webid, Spells first webid →
          Text.isBlank webid = false := by
  have hlength := Text.length_parts (· == ':') token
  rw [← List.count_eq_countP] at hlength
  -- a token has one part, two, or too many
  match hparts : Text.parts (· == ':') token with
  | [] =>
    rw [hparts] at hlength
    cases hlength
  | [first] =>
    rw [hparts, List.length_singleton] at hlength
    have hcount : token.toList.count ':' ≤ 1 := by omega
    simp only [read_of_one_part hparts, hcount, true_and, List.forall_mem_singleton,
      List.head?_cons, Option.mem_def, Option.some.injEq, forall_eq']
    constructor
    · rintro ⟨_, webid, hspells, hvisible, -⟩
      exact ⟨⟨webid, hspells⟩, fun other hother => hspells.unique hother ▸ hvisible⟩
    · rintro ⟨⟨webid, hspells⟩, hvisible⟩
      exact ⟨_, webid, hspells, hvisible webid hspells, rfl⟩
  | [first, second] =>
    rw [hparts] at hlength
    have hcount : token.toList.count ':' ≤ 1 := by
      simp only [List.length_cons, List.length_nil] at hlength
      omega
    simp only [read_of_two_parts hparts, hcount, true_and, List.forall_mem_cons,
      List.head?_cons, Option.mem_def, Option.some.injEq, forall_eq']
    constructor
    · rintro ⟨_, webid, client, hspells, hvisible, hclient, -⟩
      exact ⟨⟨⟨webid, hspells⟩, ⟨client, hclient⟩, nofun⟩,
        fun other hother => hspells.unique hother ▸ hvisible⟩
    · rintro ⟨⟨⟨webid, hspells⟩, ⟨client, hclient⟩, -⟩, hvisible⟩
      exact ⟨_, webid, client, hspells, hvisible webid hspells, hclient, rfl⟩
  | _ :: _ :: _ :: _ =>
    rw [hparts] at hlength
    have hcount : ¬ token.toList.count ':' ≤ 1 := by
      simp only [List.length_cons] at hlength
      omega
    refine iff_of_false ?_ fun h => hcount h.1
    rintro ⟨found, hfound⟩
    rw [read, hparts] at hfound
    cases hfound

theorem read_of_encodes {webid written : List Char} (h : Encodes webid written)
    (hvisible : Text.isBlank (.ofList webid) = false) :
    read (.ofList written) = .ok (.ofList webid, none) :=
  (read_of_one_part (Text.parts_of_not_mem h.colon_not_mem)).mpr
    ⟨_, h.spells, hvisible, rfl⟩

theorem read_of_encodes_both {webid written client written' : List Char}
    (h : Encodes webid written) (hvisible : Text.isBlank (.ofList webid) = false)
    (hclient : Encodes client written') :
    read (.ofList (written ++ ':' :: written')) =
      .ok (.ofList webid, some (.ofList client)) := by
  have hparts := Text.parts_append_cons h.colon_not_mem written'
  rw [Text.parts_of_not_mem hclient.colon_not_mem] at hparts
  exact (read_of_two_parts hparts).mpr ⟨_, _, h.spells, hvisible, hclient.spells, rfl⟩

/-! ## What is added to the claims held -/

section
variable {token : String}

theorem addClaims_of_read {webid : String} {client : Option String}
    (h : read token = .ok (webid, client)) (held : Claims) :
    addClaims token held =
      .ok (held.pushAll (identityClaims webid (client.filter (· ≠ "")))) := by
  rw [addClaims_eq, assertions, h]
  rfl

theorem exists_addClaims_iff (held : Claims) :
    (∃ claims, addClaims token held = .ok claims) ↔ ∃ found, read token = .ok found := by
  rw [addClaims_eq, assertions]
  cases read token with
  | error e => simp [bind, Except.bind, Except.map]
  | ok found => simp [bind, Except.bind, Except.map, pure, Except.pure]

end

end SelfAsserted

namespace Verifier
open Text.Percent (Encodes Spells)

private theorem verify_selfAsserted [Url.DomainRules] {token : String} {now : Nat} {held : Claims}
    {fetcher : Fetcher} :
    (selfAsserted.verify now ⟨token, .unsecure⟩ held fetcher).result =
      SelfAsserted.addClaims token held := by
  rw [verify, expecting, if_pos rfl, Fetching.result_ofExcept]

/-- Whichever way a WebID that is not blank is encoded, with or without a client behind a colon, the
verifier adds exactly the WebID and, unless it is empty, exactly the client. Of all texts it takes
those with at most one colon whose parts are texts when they are decoded, the first of them not
blank; with any other it finds fault. -/
theorem self_asserted_exact [Url.DomainRules] (now : Nat) (held : Claims) (fetcher : Fetcher) :
    let verified (token : String) :=
      (selfAsserted.verify now ⟨token, .unsecure⟩ held fetcher).result
    (∀ webid written, Encodes webid written → Text.isBlank (.ofList webid) = false →
      let named := held.push ClaimName.webid (.string (.ofList webid))
      verified (.ofList written) = .ok named ∧
        ∀ client written', Encodes client written' →
          verified (.ofList (written ++ ':' :: written')) =
            .ok (if client = [] then named
              else named.push ClaimName.clientId (.string (.ofList client)))) ∧
    ∀ token,
      let parts := Text.parts (· == ':') token
      ((∃ claims, verified token = .ok claims) ↔
        token.toList.count ':' ≤ 1 ∧ (∀ part ∈ parts, ∃ text, Spells part text) ∧
          ∀ first ∈ parts.head?, ∀ webid, Spells first webid → Text.isBlank webid = false) ∧
      ∀ e, verified token = .error e → e.IsInvalidCredential := by
  intro verified
  refine ⟨fun webid written hwebid hvisible => ?_, fun token => ⟨?_, ?_⟩⟩
  · intro named
    refine ⟨?_, fun client written' hclient => ?_⟩
    · exact verify_selfAsserted.trans
        (SelfAsserted.addClaims_of_read (SelfAsserted.read_of_encodes hwebid hvisible) held)
    · have hread := SelfAsserted.read_of_encodes_both hwebid hvisible hclient
      simp only [verified, verify_selfAsserted, SelfAsserted.addClaims_of_read hread held]
      by_cases hempty : client = [] <;>
        simp [hempty, identityClaims, Claims.pushAll, Option.filter, named]
  · simp only [verified, verify_selfAsserted, ← SelfAsserted.exists_read_iff]
    exact SelfAsserted.exists_addClaims_iff held
  · have hleaf : selfAsserted.IsLeaf := trivial
    exact failsWith_verify_of_isLeaf hleaf held fetcher

/-- A character outside ASCII, a percent sign and a colon are written as their octets, in digits of
either case. -/
theorem sample_self_asserted :
    let webid := ['é', '%', 'm']
    let written := "%c3%A9%25m".toList
    let token := String.ofList (written ++ ':' :: "%3a".toList)
    Encodes webid written ∧ Text.isBlank (.ofList webid) = false ∧
      Encodes [':'] "%3a".toList ∧
      (selfAsserted.verify 0 ⟨token, .unsecure⟩ ∅ (.pinned ∅)).result =
        .ok (((∅ : Claims).push ClaimName.webid (.string "é%m")).push ClaimName.clientId
          (.string ":")) := by
  intro webid written token
  have haccent : Text.Percent.Triplets (String.utf8EncodeChar 'é') "%c3%A9".toList :=
    .cons (.inl rfl) (.inl rfl) (.cons (.inr rfl) (.inl rfl) .nil)
  have hpercent : Text.Percent.Triplets (String.utf8EncodeChar '%') "%25".toList :=
    .cons (.inl rfl) (.inl rfl) .nil
  have hcolon : Text.Percent.Triplets (String.utf8EncodeChar ':') "%3a".toList :=
    .cons (.inl rfl) (.inl rfl) .nil
  have hwebid : Encodes webid written :=
    .octets haccent (.octets hpercent (.itself (by decide) (by decide) .nil))
  have hclient : Encodes [':'] "%3a".toList := .octets hcolon .nil
  have hvisible : Text.isBlank (.ofList webid) = false := by decide
  exact ⟨hwebid, hvisible, hclient,
    ((self_asserted_exact 0 ∅ (.pinned ∅)).1 webid written hwebid hvisible).2 [':'] _ hclient⟩

end Verifier

end UserManagedAccess
