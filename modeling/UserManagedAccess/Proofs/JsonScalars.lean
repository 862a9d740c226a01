import UserManagedAccess.Json.Document
import UserManagedAccess.Proofs.Encodings
import UserManagedAccess.Proofs.JsonText

/-! The text of a JSON string is read as the string, whatever follows it. -/
namespace UserManagedAccess.Json

open Text.Utf8 (bytes bytes_append bytes_cons bytes_cons_ascii)

namespace Document

/-! ## Strings -/

/-- With fuel for its bytes, the rest of a string is read as pieces. -/
private def ReadsAs (input : List UInt8) (pieces : List Piece) (rest : List UInt8) : Prop :=
  ∀ fuel, input.length < fuel → pieces? fuel input = some (pieces, rest)

private theorem readsAs_quote (rest : List UInt8) : ReadsAs (0x22 :: rest) [] rest := by
  intro fuel hfuel
  cases fuel with
  | zero => simp at hfuel
  | succ fuel => rfl

private theorem ReadsAs.plain {input rest : List UInt8} {pieces : List Piece}
    (h : ReadsAs input pieces rest) {b : UInt8} (hquote : (b == 0x22) = false)
    (hescape : (b == 0x5C) = false) (hcontrol : ¬b < 0x20) :
    ReadsAs (b :: input) (.bytes [b] :: pieces) rest := by
  intro fuel hfuel
  cases fuel with
  | zero => simp at hfuel
  | succ fuel =>
    have hinput := h fuel (by simpa using hfuel)
    simp only [pieces?, hquote, hescape, hcontrol, hinput, Bool.false_eq_true, ↓reduceIte,
      Option.map_some]

private theorem ReadsAs.escape {input after rest : List UInt8} {piece : Piece}
    {pieces : List Piece} (h : ReadsAs after pieces rest)
    (hescape : escape? input = some (piece, after)) (hshorter : after.length ≤ input.length) :
    ReadsAs (0x5C :: input) (piece :: pieces) rest := by
  intro fuel hfuel
  cases fuel with
  | zero => simp at hfuel
  | succ fuel =>
    have hfuel' : after.length < fuel := by
      rw [List.length_cons] at hfuel
      omega
    have hafter := h fuel hfuel'
    simp [pieces?, hescape, hafter]

/-- Bytes that need no escape stand for themselves. -/
private theorem ReadsAs.plainAll {input rest : List UInt8} {pieces : List Piece}
    (h : ReadsAs input pieces rest) {bs : List UInt8}
    (hplain : ∀ b ∈ bs, 0x20 ≤ b.toNat ∧ b.toNat ≠ 0x22 ∧ b.toNat ≠ 0x5C) :
    ReadsAs (bs ++ input) (bs.map (.bytes [·]) ++ pieces) rest := by
  induction bs with
  | nil => exact h
  | cons b bs ih =>
    obtain ⟨⟨hlow, hquote, hescape⟩, hbs⟩ := List.forall_mem_cons.mp hplain
    refine (ih hbs).plain ?_ ?_ ?_
    · exact beq_false_of_ne fun heq => hquote (by rw [heq]; rfl)
    · exact beq_false_of_ne fun heq => hescape (by rw [heq]; rfl)
    · rw [UInt8.lt_iff_toNat_lt]
      simp only [UInt8.reduceToNat]
      omega

private theorem joinPieces?_plainAll (bs : List UInt8) (pieces : List Piece) :
    joinPieces? (bs.map (.bytes [·]) ++ pieces) = (joinPieces? pieces).map (bs ++ ·) := by
  induction bs with
  | nil => cases h : joinPieces? pieces <;> simp [h]
  | cons b bs ih =>
    simp only [List.map_cons, List.cons_append, joinPieces?, ih, Option.map_map]
    rfl

/-- A character whose bytes need no escape. -/
private theorem plain_of_toNat {c : Char} (hlow : 0x20 ≤ c.toNat) (hquote : c.toNat ≠ 0x22)
    (hescape : c.toNat ≠ 0x5C) :
    ∀ b ∈ String.utf8EncodeChar c, 0x20 ≤ b.toNat ∧ b.toNat ≠ 0x22 ∧ b.toNat ≠ 0x5C := by
  have hbyte (n : Nat) : (UInt8.ofNat n).toNat = n % 256 := by simp
  have hval : c.val.toNat = c.toNat := rfl
  simp only [String.utf8EncodeChar, hval]
  split
  · simp only [List.forall_mem_cons, List.not_mem_nil, false_implies, implies_true, and_true, hbyte]
    omega
  split
  · simp only [List.forall_mem_cons, List.not_mem_nil, false_implies, implies_true, and_true, hbyte]
    omega
  split
  · simp only [List.forall_mem_cons, List.not_mem_nil, false_implies, implies_true, and_true, hbyte]
    omega
  · simp only [List.forall_mem_cons, List.not_mem_nil, false_implies, implies_true, and_true, hbyte]
    omega

private theorem escape?_control {n : Nat} (h : n < 0x20) (rest : List UInt8) :
    escape? (bytes ['u', '0', '0', hexDigit (n / 16), hexDigit (n % 16)] ++ rest) =
      some (.bytes (String.utf8EncodeChar (Char.ofNat n)), rest) := by
  have hbytes : ∀ n : Fin 0x20, bytes ['u', '0', '0', hexDigit (n.val / 16), hexDigit (n.val % 16)] =
      [0x75, 0x30, 0x30, UInt8.ofNat (hexDigit (n.val / 16)).toNat,
        UInt8.ofNat (hexDigit (n.val % 16)).toNat] := by decide
  have hdigits : ∀ n : Fin 0x20,
      hexWord?.hexDigit? (UInt8.ofNat (hexDigit (n.val / 16)).toNat) = some (n.val / 16) ∧
        hexWord?.hexDigit? (UInt8.ofNat (hexDigit (n.val % 16)).toNat) = some (n.val % 16) := by
    decide
  have hzero : hexWord?.hexDigit? 0x30 = some 0 := rfl
  have hunit : ∀ n : Fin 0x20, isHigh n.val = false ∧ isLow n.val = false := by decide
  have hvalue : ((0 * 16 + 0) * 16 + n / 16) * 16 + n % 16 = n := by omega
  obtain ⟨hfirst, hsecond⟩ := hdigits ⟨n, h⟩
  obtain ⟨hhigh, hlow⟩ := hunit ⟨n, h⟩
  have hword : hexWord? (0x30 :: 0x30 :: UInt8.ofNat (hexDigit (n / 16)).toNat ::
      UInt8.ofNat (hexDigit (n % 16)).toNat :: rest) = some (n, rest) := by
    simp only [hexWord?, hzero, hfirst, hsecond, Option.bind_eq_bind, Option.bind_some, hvalue]
  rw [hbytes ⟨n, h⟩]
  simp only [List.cons_append, List.nil_append, escape?, BEq.rfl, ↓reduceIte, hword, hhigh, hlow,
    Bool.false_eq_true]

/-- An escaped character is read as pieces that stand for it. -/
private theorem ReadsAs.escapedChar {input rest : List UInt8} {pieces : List Piece}
    (h : ReadsAs input pieces rest) (c : Char) :
    ∃ pieces', ReadsAs (bytes (escapedChar c) ++ input) pieces' rest ∧
      joinPieces? pieces' = (joinPieces? pieces).map (String.utf8EncodeChar c ++ ·) := by
  have hchar {n : Nat} (hn : c.toNat = n) : c = Char.ofNat n := by
    rw [← hn, Char.ofNat_toNat]
  have hshort {escaped : UInt8} {bs : List UInt8}
      (hescape : escape? (escaped :: input) = some (.bytes bs, input))
      (hbs : bs = String.utf8EncodeChar c) :
      ∃ pieces', ReadsAs (0x5C :: escaped :: input) pieces' rest ∧
        joinPieces? pieces' = (joinPieces? pieces).map (String.utf8EncodeChar c ++ ·) :=
    ⟨_, h.escape hescape (Nat.le_succ _), by rw [joinPieces?, hbs]⟩
  rw [Json.escapedChar]
  split
  · next hc => exact hshort rfl (by rw [hc]; rfl)
  split
  · next hc => exact hshort rfl (by rw [hc]; rfl)
  split
  · next hc => exact hshort rfl (by rw [hc]; rfl)
  split
  · next hc => exact hshort rfl (by rw [hc]; rfl)
  split
  · next hc => exact hshort rfl (by rw [hc]; rfl)
  split
  · next hc => exact hshort rfl (by rw [hchar hc]; rfl)
  split
  · next hc => exact hshort rfl (by rw [hchar hc]; rfl)
  split
  · next hc =>
    have hescape := escape?_control hc input
    rw [Char.ofNat_toNat] at hescape
    have hshorter (front : List UInt8) : input.length ≤ (front ++ input).length := by
      rw [List.length_append]
      exact Nat.le_add_left _ _
    exact ⟨_, h.escape hescape (hshorter _), by rw [joinPieces?]⟩
  · next hquote hbackslash _ _ _ _ _ hlow =>
    have hplain := plain_of_toNat (c := c) (by omega)
      (fun hn => hquote (hchar hn)) (fun hn => hbackslash (hchar hn))
    have hbytes : bytes [c] = String.utf8EncodeChar c := List.append_nil _
    rw [hbytes]
    exact ⟨_, h.plainAll hplain, joinPieces?_plainAll _ _⟩

private theorem readsAs_escaped (cs : List Char) (rest : List UInt8) :
    ∃ pieces, ReadsAs (bytes (cs.flatMap escapedChar) ++ 0x22 :: rest) pieces rest ∧
      joinPieces? pieces = some (bytes cs) := by
  induction cs with
  | nil => exact ⟨[], readsAs_quote rest, rfl⟩
  | cons c cs ih =>
    obtain ⟨pieces, hreads, hjoin⟩ := ih
    obtain ⟨pieces', hreads', hjoin'⟩ := hreads.escapedChar c
    refine ⟨pieces', ?_, ?_⟩
    · rwa [List.flatMap_cons, bytes_append, List.append_assoc]
    · rw [hjoin', hjoin, Option.map_some, bytes_cons]

/-- What stands after the opening quote of a string is read as the string. -/
theorem string?_escaped (s : String) (rest : List UInt8) :
    string? (bytes (s.toList.flatMap escapedChar) ++ 0x22 :: rest) = some (some s, rest) := by
  obtain ⟨pieces, hreads, hjoin⟩ := readsAs_escaped s.toList rest
  have htext : textOfPieces? pieces = some s := by
    rw [textOfPieces?, hjoin, Option.bind_some, Text.Utf8.decode_bytes, String.ofList_toList]
    rfl
  rw [string?, hreads _ (Nat.lt_succ_self _)]
  simp only [Option.map_some, htext]

theorem bytes_stringChars (s : String) (rest : List UInt8) :
    bytes (stringChars s) ++ rest =
      0x22 :: (bytes (s.toList.flatMap escapedChar) ++ 0x22 :: rest) := by
  have hquote : bytes ['\x22'] = [0x22] := rfl
  rw [stringChars, List.cons_append, bytes_cons_ascii (by decide), bytes_append, hquote,
    List.cons_append, List.append_assoc]
  rfl

theorem scalar_stringChars (s : String) (rest : List UInt8) :
    scalar (bytes (stringChars s) ++ rest) = (.string s, rest) := by
  rw [bytes_stringChars]
  simp only [scalar, string?_escaped]

end Document

end UserManagedAccess.Json
