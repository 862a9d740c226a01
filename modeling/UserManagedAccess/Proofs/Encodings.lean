import UserManagedAccess.Text.Base64Url
import UserManagedAccess.Text.Utf8

/-! Texts as bytes and bytes as texts: what was encoded is decoded to the same. -/
namespace UserManagedAccess.Text

/-! ## UTF-8 -/

namespace Utf8

/-- The bytes of characters. -/
def bytes (cs : List Char) : List UInt8 := cs.flatMap String.utf8EncodeChar

@[simp] theorem bytes_nil : bytes [] = [] := rfl

@[simp] theorem bytes_append (cs ds : List Char) : bytes (cs ++ ds) = bytes cs ++ bytes ds :=
  List.flatMap_append

theorem bytes_cons (c : Char) (cs : List Char) :
    bytes (c :: cs) = String.utf8EncodeChar c ++ bytes cs := rfl

theorem bytes_cons_ascii {c : Char} (h : c.toNat < 0x80) (cs : List Char) :
    bytes (c :: cs) = UInt8.ofNat c.toNat :: bytes cs := by
  have hle : c.val.toNat ≤ 127 := Nat.le_of_lt_succ h
  simp only [bytes_cons, String.utf8EncodeChar, hle, ↓reduceIte]
  rfl

/-- The octets of a character are all outside ASCII, or the character is its only octet. -/
theorem toNat_of_mem_utf8EncodeChar {b : UInt8} {c : Char}
    (h : b ∈ String.utf8EncodeChar c) : 0x80 ≤ b.toNat ∨ b.toNat = c.toNat := by
  change _ ∨ b.toNat = c.val.toNat
  simp only [String.utf8EncodeChar] at h
  generalize c.val.toNat = value at h
  split at h
  · simp only [List.mem_singleton] at h
    simp only [h, UInt8.toNat_ofNat']
    omega
  · left
    split at h
    · simp only [List.mem_cons, List.not_mem_nil, or_false] at h
      rcases h with rfl | rfl <;> simp only [UInt8.toNat_ofNat'] <;> omega
    · split at h
      · simp only [List.mem_cons, List.not_mem_nil, or_false] at h
        rcases h with rfl | rfl | rfl <;> simp only [UInt8.toNat_ofNat'] <;> omega
      · simp only [List.mem_cons, List.not_mem_nil, or_false] at h
        rcases h with rfl | rfl | rfl | rfl <;> simp only [UInt8.toNat_ofNat'] <;> omega

theorem length_le_length_bytes (cs : List Char) : cs.length ≤ (bytes cs).length := by
  induction cs with
  | nil => exact Nat.le_refl 0
  | cons c cs ih =>
    have hc := c.utf8Size_pos
    rw [bytes_cons, List.length_append, String.length_utf8EncodeChar, List.length_cons]
    omega

theorem encode_ofList (cs : List Char) : encode (String.ofList cs) = bytes cs := by
  rw [encode, String.toList_ofList, bytes]

private theorem toNat_ofNat {n : Nat} (h : n < 256) : (UInt8.ofNat n).toNat = n := by
  simp [Nat.mod_eq_of_lt h]

/-- The code point of a character is none of a surrogate. -/
private theorem toNat_cases (c : Char) :
    c.toNat < 0xD800 ∨ 0xDFFF < c.toNat ∧ c.toNat < 0x110000 := c.valid

private theorem first?_one {v : Nat} (h : v < 0x80) (rest : List UInt8) :
    first? (UInt8.ofNat v :: rest) = .ok (Char.ofNat v, 1) := by
  have ha := toNat_ofNat (n := v) (by omega)
  have hwidth : width (.ofNat v) = 1 := by
    simp only [width, UInt8.lt_iff_toNat_lt, ha, UInt8.reduceToNat]
    rw [if_pos h]
  simp only [first?, hwidth, ha]

private theorem isTail_ofNat (n : Nat) : isTail (.ofNat (n % 64 + 128)) = true := by
  have hb := toNat_ofNat (n := n % 64 + 128) (by omega)
  simp only [isTail, UInt8.le_iff_toNat_le, hb, UInt8.reduceToNat, Bool.and_eq_true,
    decide_eq_true_eq]
  omega

private theorem extend_ofNat (value n : Nat) :
    extend value (.ofNat (n % 64 + 128)) = value * 64 + n % 64 := by
  have hb := toNat_ofNat (n := n % 64 + 128) (by omega)
  simp only [extend, hb]
  omega

private theorem first?_two {v : Nat} (hlow : 0x80 ≤ v) (hhigh : v < 0x800) (rest : List UInt8) :
    first? (.ofNat (v / 64 % 32 + 192) :: .ofNat (v % 64 + 128) :: rest) =
      .ok (Char.ofNat v, 2) := by
  have ha := toNat_ofNat (n := v / 64 % 32 + 192) (by omega)
  have hwidth : width (.ofNat (v / 64 % 32 + 192)) = 2 := by
    simp only [width, UInt8.lt_iff_toNat_lt, UInt8.le_iff_toNat_le, ha, UInt8.reduceToNat,
      Bool.and_eq_true, decide_eq_true_eq]
    rw [if_neg (by omega), if_pos (by omega)]
  have hvalue : (v / 64 % 32 + 192) % 32 * 64 + v % 64 = v := by omega
  simp only [first?, hwidth, isTail_ofNat, ↓reduceIte, extend_ofNat, head, ha, hvalue]

private theorem isSecond_of_range {a b : UInt8} (hlow : 0x80 ≤ b.toNat) (hhigh : b.toNat ≤ 0xBF)
    (hE0 : a.toNat = 0xE0 → 0xA0 ≤ b.toNat) (hED : a.toNat = 0xED → b.toNat ≤ 0x9F)
    (hF0 : a.toNat = 0xF0 → 0x90 ≤ b.toNat) (hF4 : a.toNat = 0xF4 → b.toNat ≤ 0x8F) :
    isSecond a b = true := by
  simp only [isSecond, beq_iff_eq, UInt8.le_iff_toNat_le, ← UInt8.toNat_inj, UInt8.reduceToNat]
  split
  · next h => simp [hE0 h, hhigh]
  split
  · next h => simp [hED h, hlow]
  split
  · next h => simp [hF0 h, hhigh]
  split
  · next h => simp [hF4 h, hlow]
  · simp [hlow, hhigh]

private theorem first?_three {v : Nat} (hlow : 0x800 ≤ v) (hhigh : v < 0x10000)
    (hscalar : v < 0xD800 ∨ 0xDFFF < v) (rest : List UInt8) :
    first? (.ofNat (v / 4096 % 16 + 224) :: .ofNat (v / 64 % 64 + 128) ::
      .ofNat (v % 64 + 128) :: rest) = .ok (Char.ofNat v, 3) := by
  have ha := toNat_ofNat (n := v / 4096 % 16 + 224) (by omega)
  have hb := toNat_ofNat (n := v / 64 % 64 + 128) (by omega)
  have hwidth : width (.ofNat (v / 4096 % 16 + 224)) = 3 := by
    simp only [width, UInt8.lt_iff_toNat_lt, UInt8.le_iff_toNat_le, ha, UInt8.reduceToNat,
      Bool.and_eq_true, decide_eq_true_eq]
    rw [if_neg (by omega), if_neg (by omega), if_pos (by omega)]
  have hsecond : isSecond (.ofNat (v / 4096 % 16 + 224)) (.ofNat (v / 64 % 64 + 128)) = true := by
    apply isSecond_of_range <;> simp only [ha, hb] <;> omega
  have hvalue : ((v / 4096 % 16 + 224) % 16 * 64 + v / 64 % 64) * 64 + v % 64 = v := by omega
  simp only [first?, hwidth, hsecond, Bool.not_true, Bool.false_eq_true, isTail_ofNat, ↓reduceIte,
    extend_ofNat, head, ha, hvalue]

private theorem first?_four {v : Nat} (hlow : 0x10000 ≤ v) (hhigh : v < 0x110000)
    (rest : List UInt8) :
    first? (.ofNat (v / 262144 % 8 + 240) :: .ofNat (v / 4096 % 64 + 128) ::
      .ofNat (v / 64 % 64 + 128) :: .ofNat (v % 64 + 128) :: rest) = .ok (Char.ofNat v, 4) := by
  have ha := toNat_ofNat (n := v / 262144 % 8 + 240) (by omega)
  have hb := toNat_ofNat (n := v / 4096 % 64 + 128) (by omega)
  have hwidth : width (.ofNat (v / 262144 % 8 + 240)) = 4 := by
    simp only [width, UInt8.lt_iff_toNat_lt, UInt8.le_iff_toNat_le, ha, UInt8.reduceToNat,
      Bool.and_eq_true, decide_eq_true_eq]
    rw [if_neg (by omega), if_neg (by omega), if_neg (by omega), if_pos (by omega)]
  have hsecond :
      isSecond (.ofNat (v / 262144 % 8 + 240)) (.ofNat (v / 4096 % 64 + 128)) = true := by
    apply isSecond_of_range <;> simp only [ha, hb] <;> omega
  have hvalue : (((v / 262144 % 8 + 240) % 8 * 64 + v / 4096 % 64) * 64 + v / 64 % 64) * 64 +
      v % 64 = v := by omega
  simp only [first?, hwidth, hsecond, Bool.not_true, Bool.false_eq_true, isTail_ofNat, ↓reduceIte,
    extend_ofNat, head, ha, hvalue]

/-- The first character of a text is read off its bytes. -/
theorem first?_encoded (c : Char) (rest : List UInt8) :
    first? (String.utf8EncodeChar c ++ rest) =
      .ok (c, (String.utf8EncodeChar c).length) := by
  have hscalar := toNat_cases c
  have hc : Char.ofNat c.val.toNat = c := Char.ofNat_toNat c
  simp only [Char.toNat] at hscalar
  simp only [String.utf8EncodeChar]
  split
  · next h =>
    have hread := first?_one (v := c.val.toNat) (by omega) rest
    rwa [hc] at hread
  split
  · have hread := first?_two (v := c.val.toNat) (by omega) (by omega) rest
    rwa [hc] at hread
  split
  · have hread := first?_three (v := c.val.toNat) (by omega) (by omega) (by omega) rest
    rwa [hc] at hread
  · have hread := first?_four (v := c.val.toNat) (by omega) (by omega) rest
    rwa [hc] at hread

private theorem decodeFrom_skipped (skipped : List UInt8) (index : Nat) (rest : List UInt8) :
    decodeFrom skipped.length index (skipped ++ rest) = decodeFrom 0 index rest := by
  induction skipped with
  | nil => rfl
  | cons b skipped ih =>
    rw [List.length_cons, List.cons_append, decodeFrom]
    exact ih

private theorem decodeFrom_bytes (cs : List Char) (index : Nat) :
    decodeFrom 0 index (bytes cs) = .ok cs := by
  induction cs generalizing index with
  | nil => rfl
  | cons c rest ih =>
    have hread := first?_encoded c (bytes rest)
    have hlength : (String.utf8EncodeChar c).length ≠ 0 := by
      simp [String.length_utf8EncodeChar, Nat.ne_of_gt c.utf8Size_pos]
    rw [bytes_cons]
    cases hbytes : String.utf8EncodeChar c with
    | nil => simp [hbytes] at hlength
    | cons b tail =>
      rw [hbytes] at hread
      simp only [List.cons_append] at hread ⊢
      rw [decodeFrom, hread]
      simp only [List.length_cons, Nat.add_sub_cancel, decodeFrom_skipped, ih]

theorem decode_bytes (cs : List Char) : decode (bytes cs) = .ok (String.ofList cs) := by
  rw [decode, decodeFrom_bytes]
  rfl

theorem decode_encode (s : String) : decode (encode s) = .ok s := by
  have hread := decode_bytes s.toList
  rwa [String.ofList_toList] at hread

theorem encode_injective : Function.Injective encode := by
  intro s t h
  have hread := decode_encode s
  rw [h, decode_encode t] at hread
  exact (Except.ok.inj hread).symm

/-! ### What is read as a text -/

private theorem toNat_val {v : Nat} (h : v < 0xD800 ∨ 0xDFFF < v ∧ v < 0x110000) :
    (Char.ofNat v).val.toNat = v := by
  have hvalid : v.isValidChar := h
  rw [Char.ofNat, dif_pos hvalid]
  rfl

private theorem ofNat_eq {n : Nat} {b : UInt8} (h : n = b.toNat) : UInt8.ofNat n = b := by
  rw [h, UInt8.ofNat_toNat]

private theorem toNat_of_isTail {b : UInt8} (h : isTail b = true) :
    0x80 ≤ b.toNat ∧ b.toNat ≤ 0xBF := by
  simpa [isTail, UInt8.le_iff_toNat_le] using h

private theorem toNat_of_isSecond {a b : UInt8} (h : isSecond a b = true) :
    (0x80 ≤ b.toNat ∧ b.toNat ≤ 0xBF) ∧ (a.toNat = 0xE0 → 0xA0 ≤ b.toNat) ∧
      (a.toNat = 0xED → b.toNat ≤ 0x9F) ∧ (a.toNat = 0xF0 → 0x90 ≤ b.toNat) ∧
      (a.toNat = 0xF4 → b.toNat ≤ 0x8F) := by
  simp only [isSecond, beq_iff_eq, UInt8.le_iff_toNat_le, ← UInt8.toNat_inj, UInt8.reduceToNat]
    at h
  split at h
  · simp only [Bool.and_eq_true, decide_eq_true_eq] at h
    omega
  split at h
  · simp only [Bool.and_eq_true, decide_eq_true_eq] at h
    omega
  split at h
  · simp only [Bool.and_eq_true, decide_eq_true_eq] at h
    omega
  split at h
  all_goals
    simp only [Bool.and_eq_true, decide_eq_true_eq] at h
    omega

/-- The first byte of a character, by the number of bytes that the character takes. -/
private theorem toNat_of_width {a : UInt8} :
    (width a = 1 → a.toNat < 0x80) ∧ (width a = 2 → 0xC2 ≤ a.toNat ∧ a.toNat ≤ 0xDF) ∧
      (width a = 3 → 0xE0 ≤ a.toNat ∧ a.toNat ≤ 0xEF) ∧
      (width a = 4 → 0xF0 ≤ a.toNat ∧ a.toNat ≤ 0xF4) := by
  simp only [width, UInt8.lt_iff_toNat_lt, UInt8.le_iff_toNat_le, UInt8.reduceToNat,
    Bool.and_eq_true, decide_eq_true_eq]
  grind

section
variable {a b c d : UInt8}

private theorem encodeChar_one (ha : a.toNat < 0x80) :
    String.utf8EncodeChar (Char.ofNat a.toNat) = [a] := by
  simp only [String.utf8EncodeChar, toNat_val (v := a.toNat) (by omega)]
  rw [if_pos (by omega), UInt8.ofNat_toNat]

private theorem encodeChar_two (ha : 0xC2 ≤ a.toNat ∧ a.toNat ≤ 0xDF) (hb : isTail b = true) :
    String.utf8EncodeChar (Char.ofNat (extend (head a 2) b)) = [a, b] := by
  have hb := toNat_of_isTail hb
  simp only [extend, head]
  rw [String.utf8EncodeChar]
  simp only [toNat_val (v := a.toNat % 32 * 64 + b.toNat % 64) (by omega)]
  rw [if_neg (by omega), if_pos (by omega), ofNat_eq (b := a) (by omega),
    ofNat_eq (b := b) (by omega)]

private theorem encodeChar_three (ha : 0xE0 ≤ a.toNat ∧ a.toNat ≤ 0xEF)
    (hb : isSecond a b = true) (hc : isTail c = true) :
    String.utf8EncodeChar (Char.ofNat (extend (extend (head a 3) b) c)) = [a, b, c] := by
  obtain ⟨hb, hE0, hED, -⟩ := toNat_of_isSecond hb
  have hc := toNat_of_isTail hc
  simp only [extend, head]
  rw [String.utf8EncodeChar]
  simp only [toNat_val (v := (a.toNat % 16 * 64 + b.toNat % 64) * 64 + c.toNat % 64) (by omega)]
  rw [if_neg (by omega), if_neg (by omega), if_pos (by omega), ofNat_eq (b := a) (by omega),
    ofNat_eq (b := b) (by omega), ofNat_eq (b := c) (by omega)]

private theorem encodeChar_four (ha : 0xF0 ≤ a.toNat ∧ a.toNat ≤ 0xF4)
    (hb : isSecond a b = true) (hc : isTail c = true) (hd : isTail d = true) :
    String.utf8EncodeChar (Char.ofNat (extend (extend (extend (head a 4) b) c) d)) =
      [a, b, c, d] := by
  obtain ⟨hb, -, -, hF0, hF4⟩ := toNat_of_isSecond hb
  have hc := toNat_of_isTail hc
  have hd := toNat_of_isTail hd
  simp only [extend, head]
  rw [String.utf8EncodeChar]
  simp only [toNat_val (v := ((a.toNat % 8 * 64 + b.toNat % 64) * 64 + c.toNat % 64) * 64 +
    d.toNat % 64) (by omega)]
  rw [if_neg (by omega), if_neg (by omega), if_neg (by omega), ofNat_eq (b := a) (by omega),
    ofNat_eq (b := b) (by omega), ofNat_eq (b := c) (by omega), ofNat_eq (b := d) (by omega)]

end

/-- What is read as a character are the bytes of the character. -/
theorem encodeChar_of_first? {input : List UInt8} {c : Char} {n : Nat}
    (h : first? input = .ok (c, n)) :
    ∃ rest, input = String.utf8EncodeChar c ++ rest ∧ n = (String.utf8EncodeChar c).length := by
  cases input with
  | nil => cases h
  | cons a rest =>
    obtain ⟨hone, htwo, hthree, hfour⟩ := toNat_of_width (a := a)
    simp only [first?] at h
    split at h
    · next hwidth =>
      cases h
      rw [encodeChar_one (hone hwidth)]
      exact ⟨_, rfl, rfl⟩
    · next b tail hwidth =>
      split at h
      · next hb =>
        cases h
        rw [encodeChar_two (htwo hwidth) hb]
        exact ⟨tail, rfl, rfl⟩
      · cases h
    · next b tail hwidth =>
      split at h
      · cases h
      · next hb =>
        rw [Bool.not_eq_true', Bool.not_eq_false] at hb
        split at h
        · cases h
        · next c tail =>
          split at h
          · next hc =>
            cases h
            rw [encodeChar_three (hthree hwidth) hb hc]
            exact ⟨tail, rfl, rfl⟩
          · cases h
    · next b tail hwidth =>
      split at h
      · cases h
      · next hb =>
        rw [Bool.not_eq_true', Bool.not_eq_false] at hb
        split at h
        · cases h
        · next c tail =>
          split at h
          · cases h
          · next hc =>
            rw [Bool.not_eq_true', Bool.not_eq_false] at hc
            split at h
            · cases h
            · next d tail =>
              split at h
              · next hd =>
                cases h
                rw [encodeChar_four (hfour hwidth) hb hc hd]
                exact ⟨tail, rfl, rfl⟩
              · cases h
    · cases h
    · cases h

private theorem eq_bytes_of_decodeFrom {input : List UInt8} {cs : List Char} {skipped index : Nat}
    (h : decodeFrom skipped index input = .ok cs) : input.drop skipped = bytes cs := by
  induction skipped, index, input using decodeFrom.induct generalizing cs with
  | case1 =>
    cases h
    simp
  | case2 skipped index b rest ih =>
    rw [decodeFrom] at h
    exact ih h
  | case3 index b rest length hread =>
    rw [decodeFrom, hread] at h
    cases h
  | case4 index b rest c n hread e hrest ih =>
    rw [decodeFrom, hread] at h
    simp only [hrest] at h
    cases h
  | case5 index b rest c n hread cs' hrest ih =>
    rw [decodeFrom, hread] at h
    simp only [hrest] at h
    cases h
    obtain ⟨tail, hinput, rfl⟩ := encodeChar_of_first? hread
    have hlength : (String.utf8EncodeChar c).length = (String.utf8EncodeChar c).length - 1 + 1 := by
      have hsize := c.utf8Size_pos
      rw [String.length_utf8EncodeChar]
      omega
    have hdrop : (String.utf8EncodeChar c ++ tail).drop (String.utf8EncodeChar c).length = tail :=
      List.drop_left
    rw [← hinput, hlength, List.drop_succ_cons, ih hrest] at hdrop
    rw [List.drop_zero, hinput, bytes_cons, hdrop]

/-- A text is read off exactly its own bytes. -/
theorem decode_eq_ok_iff {input : List UInt8} {s : String} :
    decode input = .ok s ↔ input = encode s := by
  constructor
  · intro h
    rw [decode] at h
    cases hread : decodeFrom 0 0 input with
    | error e =>
      rw [hread] at h
      cases h
    | ok cs =>
      rw [hread] at h
      cases h
      rw [encode_ofList]
      exact eq_bytes_of_decodeFrom hread
  · rintro rfl
    exact decode_encode s

end Utf8

/-! ## Base 64 -/

private theorem toList_loop (bytes : ByteArray) (i : Nat) (front : List UInt8) :
    ByteArray.toList.loop bytes i front = front.reverse ++ bytes.data.toList.drop i := by
  fun_induction ByteArray.toList.loop bytes i front with
  | case1 i front hlt ih =>
    have hlength : i < bytes.data.toList.length := by simpa using hlt
    have hget : bytes.get! i = bytes.data.toList[i] := by
      cases bytes
      simpa [ByteArray.get!] using getElem!_pos _ i hlt
    rw [ih, List.drop_eq_getElem_cons hlength, hget]
    simp
  | case2 i front hlt =>
    rw [List.drop_eq_nil_of_le (by simpa using Nat.le_of_not_lt hlt)]
    simp

private theorem toList_toByteArray (cs : List Char) :
    (String.ofList cs).toByteArray.toList = Utf8.bytes cs := by
  rw [String.toByteArray_ofList, ByteArray.toList, toList_loop]
  change [].reverse ++ (Utf8.bytes cs).toByteArray.data.toList.drop 0 = _
  simp

namespace Base64Url

/-- The values of the symbols that bytes are encoded with. -/
private def sextets : List UInt8 → List Nat
  | [] => []
  | [a] => [a.toNat / 4, a.toNat % 4 * 16]
  | [a, b] => [a.toNat / 4, a.toNat % 4 * 16 + b.toNat / 16, b.toNat % 16 * 4]
  | a :: b :: c :: rest =>
    a.toNat / 4 :: (a.toNat % 4 * 16 + b.toNat / 16) :: (b.toNat % 16 * 4 + c.toNat / 64) ::
      c.toNat % 64 :: sextets rest

private theorem encodeChars_eq (bytes : List UInt8) :
    encodeChars bytes = (sextets bytes).map symbol := by
  induction bytes using encodeChars.induct with
  | case1 => rfl
  | case2 a => rfl
  | case3 a b => rfl
  | case4 a b c rest ih => simp only [encodeChars, sextets, List.map_cons, ih]

private theorem lt_of_mem_sextets {bytes : List UInt8} : ∀ v ∈ sextets bytes, v < 64 := by
  induction bytes using encodeChars.induct with
  | case1 => simp [sextets]
  | case2 a =>
    have ha := a.toNat_lt
    simp only [sextets, List.forall_mem_cons]
    exact ⟨by omega, by omega, by simp⟩
  | case3 a b =>
    have ha := a.toNat_lt
    have hb := b.toNat_lt
    simp only [sextets, List.forall_mem_cons]
    exact ⟨by omega, by omega, by omega, by simp⟩
  | case4 a b c rest ih =>
    have ha := a.toNat_lt
    have hb := b.toNat_lt
    have hc := c.toNat_lt
    simp only [sextets, List.forall_mem_cons]
    exact ⟨by omega, by omega, by omega, by omega, ih⟩

private theorem length_sextets (bytes : List UInt8) : (sextets bytes).length % 4 ≠ 1 := by
  induction bytes using encodeChars.induct with
  | case1 | case2 | case3 => simp [sextets]
  | case4 a b c rest ih =>
    simp only [sextets, List.length_cons]
    omega

/-- Six bits of four symbols are eight bits of three bytes. -/
private theorem octets_sextets (bytes : List UInt8) : octets (sextets bytes) = (bytes, 0) := by
  have hbyte {n : Nat} {b : UInt8} (h : n = b.toNat) : UInt8.ofNat n = b := by
    rw [h, UInt8.ofNat_toNat]
  induction bytes using encodeChars.induct with
  | case1 => rfl
  | case2 a =>
    have ha := a.toNat_lt
    simp only [sextets, octets, Prod.mk.injEq, List.cons.injEq, and_true]
    exact ⟨hbyte (by omega), by omega⟩
  | case3 a b =>
    have ha := a.toNat_lt
    have hb := b.toNat_lt
    simp only [sextets, octets, Prod.mk.injEq, List.cons.injEq, and_true]
    exact ⟨⟨hbyte (by omega), hbyte (by omega)⟩, by omega⟩
  | case4 a b c rest ih =>
    have ha := a.toNat_lt
    have hb := b.toNat_lt
    have hc := c.toNat_lt
    simp only [sextets, octets, ih, Prod.mk.injEq, List.cons.injEq, and_true]
    exact ⟨hbyte (by omega), hbyte (by omega), hbyte (by omega)⟩

private def symbolByte (v : Nat) : UInt8 := UInt8.ofNat (symbol v).toNat

private theorem symbolByte_spec {v : Nat} (h : v < 64) :
    String.utf8EncodeChar (symbol v) = [symbolByte v] ∧ value? (symbolByte v) = some v ∧
      (symbolByte v == pad) = false := by
  have all : ∀ v : Fin 64, String.utf8EncodeChar (symbol v) = [symbolByte v] ∧
      value? (symbolByte v) = some v.val ∧ (symbolByte v == pad) = false := by decide
  exact all ⟨v, h⟩

private theorem valuesFrom_symbolBytes {vs : List Nat} (h : ∀ v ∈ vs, v < 64) (offset : Nat) :
    valuesFrom offset (vs.map symbolByte) = .ok vs := by
  induction vs generalizing offset with
  | nil => rfl
  | cons v rest ih =>
    obtain ⟨hv, hrest⟩ := List.forall_mem_cons.mp h
    obtain ⟨-, hvalue, -⟩ := symbolByte_spec hv
    simp only [List.map_cons, valuesFrom, hvalue, ih hrest]

private theorem lastValues_symbolBytes {vs : List Nat} (h : ∀ v ∈ vs, v < 64)
    (offset place : Nat) : lastValues offset place none (vs.map symbolByte) = .ok (vs, none) := by
  induction vs generalizing place with
  | nil => rfl
  | cons v rest ih =>
    obtain ⟨hv, hrest⟩ := List.forall_mem_cons.mp h
    obtain ⟨-, hvalue, hpad⟩ := symbolByte_spec hv
    simp only [List.map_cons, lastValues, hpad, hvalue, ih hrest, Bool.false_eq_true, ↓reduceIte]

/-- What was encoded is read back, whether padding would be taken or not. -/
theorem decode_encode (padding : Padding) (bytes : List UInt8) :
    decode padding (encode bytes) = .ok bytes := by
  have hbytes : (encode bytes).toByteArray.toList = (sextets bytes).map symbolByte := by
    rw [encode, toList_toByteArray, encodeChars_eq, Utf8.bytes, List.flatMap_map,
      List.map_eq_flatMap, List.flatMap_def, List.flatMap_def]
    exact congrArg List.flatten (List.map_congr_left fun v hv =>
      (symbolByte_spec (lt_of_mem_sextets v hv)).1)
  have hlength := length_sextets bytes
  rw [decode, hbytes, decodeBytes, List.length_map, if_neg hlength]
  generalize hstart : (if (sextets bytes).length = 0 then 0
    else ((sextets bytes).length - 1) / 8 * 8) = start
  have hfront : ∀ v ∈ (sextets bytes).take start, v < 64 :=
    fun v hv => lt_of_mem_sextets v (List.mem_of_mem_take hv)
  have hback : ∀ v ∈ (sextets bytes).drop start, v < 64 :=
    fun v hv => lt_of_mem_sextets v (List.mem_of_mem_drop hv)
  simp only [← List.map_take, ← List.map_drop, valuesFrom_symbolBytes hfront,
    lastValues_symbolBytes hback, List.take_append_drop, octets_sextets, Option.isSome_none,
    Bool.false_and, Bool.false_eq_true, ↓reduceIte]

theorem encode_injective : Function.Injective encode := by
  intro xs ys h
  have hread := decode_encode .refused xs
  rw [h, decode_encode .refused ys] at hread
  exact (Except.ok.inj hread).symm

theorem dot_not_mem_encodeChars (bytes : List UInt8) : '.' ∉ encodeChars bytes := by
  have all : ∀ v : Fin 64, symbol v ≠ '.' := by decide
  rw [encodeChars_eq, List.mem_map]
  rintro ⟨v, hv, hdot⟩
  exact all ⟨v, lt_of_mem_sextets v hv⟩ hdot

/-! What can be read at all is made of symbols and padding. -/

private theorem isSome_of_valuesFrom {input : List UInt8} {vs : List Nat} {offset : Nat}
    (h : valuesFrom offset input = .ok vs) : ∀ b ∈ input, (value? b).isSome = true := by
  induction input generalizing offset vs with
  | nil => exact fun b hb => absurd hb List.not_mem_nil
  | cons b rest ih =>
    rw [valuesFrom] at h
    split at h
    · cases h
    · next v hv =>
      split at h
      · cases h
      · next others hothers => exact List.forall_mem_cons.mpr ⟨by rw [hv]; rfl, ih hothers⟩

private theorem isSome_of_lastValues {input : List UInt8} {found : List Nat × Option Nat}
    {offset place : Nat} {padAt : Option Nat} (h : lastValues offset place padAt input = .ok found) :
    ∀ b ∈ input, b = pad ∨ (value? b).isSome = true := by
  induction input generalizing place padAt found with
  | nil => exact fun b hb => absurd hb List.not_mem_nil
  | cons b rest ih =>
    unfold lastValues at h
    split at h
    · next hpad =>
      split at h
      · cases h
      · exact List.forall_mem_cons.mpr ⟨.inl (beq_iff_eq.mp hpad), ih h⟩
    · split at h
      · cases h
      · split at h
        · cases h
        · next v hv =>
          split at h
          · cases h
          · next others seen hothers =>
            exact List.forall_mem_cons.mpr ⟨.inr (by rw [hv]; rfl), ih hothers⟩

private theorem isSome_of_decodeBytes {padding : Padding} {input bytes : List UInt8}
    (h : decodeBytes padding input = .ok bytes) :
    ∀ b ∈ input, b = pad ∨ (value? b).isSome = true := by
  rw [decodeBytes] at h
  split at h
  · split at h
    · split at h <;> cases h
    · cases h
  · simp only at h
    generalize (if input.length = 0 then 0 else (input.length - 1) / 8 * 8) = start at h
    split at h
    · cases h
    · next front hfront =>
      split at h
      · cases h
      · next back padAt hback =>
        intro b hb
        rw [← List.take_append_drop start input, List.mem_append] at hb
        exact hb.elim (fun hb => .inr (isSome_of_valuesFrom hfront b hb))
          (isSome_of_lastValues hback b)

/-- A text with a dot is no encoding. -/
theorem dot_not_mem_of_decode {padding : Padding} {text : String} {bytes : List UInt8}
    (h : decode padding text = .ok bytes) : '.' ∉ text.toList := by
  intro hdot
  have hbytes : text.toByteArray.toList = Utf8.bytes text.toList := by
    rw [← toList_toByteArray, String.ofList_toList]
  rw [decode, hbytes] at h
  have hbyte : (0x2E : UInt8) ∈ Utf8.bytes text.toList :=
    List.mem_flatMap.mpr ⟨'.', hdot, by decide⟩
  rcases isSome_of_decodeBytes h _ hbyte with hpad | hvalue
  · exact absurd hpad (by decide)
  · exact absurd hvalue (by decide)

end Base64Url

end UserManagedAccess.Text
