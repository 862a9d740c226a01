import UserManagedAccess.Proofs.Encodings
import UserManagedAccess.Proofs.Fetching
import UserManagedAccess.Url.Parser

/-! Authorities that end in a space or a control character: there are none. Neither a port nor a host
holds such a character, not even a percent-encoded one. -/
namespace UserManagedAccess

/-- The last character is a space or a control character. -/
def EndsInBlank (cs : List Char) : Prop := ∃ c, cs.getLast? = some c ∧ c.toNat ≤ 0x20

namespace EndsInBlank

theorem exists_mem {cs : List Char} (h : EndsInBlank cs) : ∃ c ∈ cs, c.toNat ≤ 0x20 := by
  obtain ⟨c, hlast, hblank⟩ := h
  exact ⟨c, List.mem_of_getLast? hlast, hblank⟩

/-- The blank stands behind every character that is visible. -/
theorem of_append_cons {front back : List Char} {mark : Char} (hmark : 0x20 < mark.toNat)
    (h : EndsInBlank (front ++ mark :: back)) : EndsInBlank back := by
  obtain ⟨c, hlast, hblank⟩ := h
  rw [List.getLast?_append, List.getLast?_cons, Option.some_or, Option.some.injEq] at hlast
  cases hback : back.getLast? with
  | none =>
    rw [hback, Option.getD_none] at hlast
    exact absurd hblank (Nat.not_le.mpr (hlast ▸ hmark))
  | some d =>
    rw [hback, Option.getD_some] at hlast
    exact ⟨d, hback, hlast ▸ hblank⟩

end EndsInBlank

/-! ## Octets -/

namespace Text

/-- An octet that is no percent sign and no digit is not part of an encoded one. -/
private theorem Percent.mem_decodeBytes {b : UInt8} (hsign : b ≠ 0x25) (hdigit : hexValue? b = none)
    {input : List UInt8} (h : b ∈ input) : b ∈ decodeBytes input := by
  fun_induction decodeBytes input with
  | case1 => exact h
  | case2 digit digit' rest high low hlow hhigh ih =>
    simp only [List.mem_cons] at h
    rcases h with rfl | rfl | rfl | h
    · exact absurd rfl hsign
    · exact nomatch hdigit.symm.trans hhigh
    · exact nomatch hdigit.symm.trans hlow
    · exact List.mem_cons_of_mem _ (ih h)
  | case3 digit digit' rest _ ih => exact List.mem_cons.mpr ((List.mem_cons.mp h).imp id ih)
  | case4 first rest _ ih => exact List.mem_cons.mpr ((List.mem_cons.mp h).imp id ih)

/-- A blank is still there when the text around it is decoded. -/
theorem Percent.exists_blank_of_decode {cs : List Char} (h : ∃ c ∈ cs, c.toNat ≤ 0x20)
    {text : String} (hdecode : decode (.ofList cs) = .ok text) :
    ∃ c ∈ text.toList, c.toNat ≤ 0x20 := by
  obtain ⟨c, hc, hblank⟩ := h
  have hoctets : decodeBytes (Utf8.bytes cs) = Utf8.bytes text.toList := by
    rw [decode, Utf8.encode_ofList, Utf8.decode_eq_ok_iff] at hdecode
    exact hdecode
  have hwritten : UInt8.ofNat c.toNat ∈ String.utf8EncodeChar c := by
    rw [← List.append_nil (String.utf8EncodeChar c), ← Utf8.bytes_nil, ← Utf8.bytes_cons,
      Utf8.bytes_cons_ascii (by omega)]
    exact List.mem_cons_self
  have hvalue : (UInt8.ofNat c.toNat).toNat = c.toNat := by
    rw [UInt8.toNat_ofNat']
    omega
  have hmem : UInt8.ofNat c.toNat ∈ Utf8.bytes text.toList := by
    rw [← hoctets]
    refine mem_decodeBytes ?_ ?_ (List.mem_flatMap.mpr ⟨c, hc, hwritten⟩)
    · rw [ne_eq, ← UInt8.toNat_inj, hvalue]
      change c.toNat ≠ 0x25
      omega
    · simp only [hexValue?, UInt8.le_iff_toNat_le, hvalue, UInt8.reduceToNat, Bool.and_eq_true,
        decide_eq_true_eq]
      rw [if_neg (by omega), if_neg (by omega), if_neg (by omega)]
  obtain ⟨d, hd, hoctet⟩ := List.mem_flatMap.mp hmem
  have hrange := Utf8.toNat_of_mem_utf8EncodeChar hoctet
  exact ⟨d, hd, by omega⟩

end Text

/-! ## Authorities -/

namespace Url
variable {text : List Char}

/-- What stands behind the last `@` ends as the whole text does. -/
private theorem endsInBlank_of_splitLastAt (h : EndsInBlank text) {user host : List Char}
    (hsplit : splitLastAt text = some (user, host)) : EndsInBlank host := by
  obtain ⟨c, hlast, hblank⟩ := h
  have hother : (c != '@') = true := bne_iff_ne.mpr fun heq => by simp [heq] at hblank
  rw [splitLastAt] at hsplit
  split at hsplit
  · cases hsplit
    rw [← List.head?_reverse, List.head?_eq_some_iff] at hlast
    obtain ⟨rest, hrest⟩ := hlast
    exact ⟨c, by simp [hrest, hother], hblank⟩
  · cases hsplit

private theorem splitHost_cases (inside : Bool) (text : List Char) :
    splitHost inside text = (text, []) ∨
      ∃ host digits, splitHost inside text = (host, ':' :: digits) ∧
        text = host ++ ':' :: digits := by
  induction text generalizing inside with
  | nil => exact .inl rfl
  | cons c rest ih =>
    rw [splitHost]
    split
    · next hcolon =>
      have hc : c = ':' := by simp_all
      exact .inr ⟨[], rest, by rw [hc], by rw [hc, List.nil_append]⟩
    · dsimp only
      rcases ih (if c == '[' then true else if c == ']' then false else inside) with
        hnone | ⟨host, digits, hsplit, htext⟩
      · rw [hnone]
        exact .inl rfl
      · rw [hsplit]
        exact .inr ⟨c :: host, digits, rfl, congrArg (c :: ·) htext⟩

/-- A blank is no digit. -/
private theorem exists_parsePort_error (scheme : String) {digits : List Char}
    (h : EndsInBlank digits) : ∃ e, parsePort scheme digits = .error e := by
  obtain ⟨c, hmem, hblank⟩ := h.exists_mem
  have hdigit : Host.isDigit c = false := by
    rw [Host.isDigit, Bool.and_eq_false_iff]
    refine .inl (decide_eq_false fun hle => ?_)
    have hvalue : 0x30 ≤ c.toNat := hle
    omega
  have hall : digits.all Host.isDigit = false := List.all_eq_false.mpr ⟨c, hmem, by simp [hdigit]⟩
  exact ⟨.invalidPort, by rw [parsePort, hall]; rfl⟩

variable [DomainRules]

private theorem Host.exists_parse_error (h : EndsInBlank text) :
    ∃ e, Host.parse text = .error e := by
  rw [Host.parse]
  split
  · obtain ⟨c, hlast, hblank⟩ := h
    have hopen : (text.getLast? == some ']') = false := by
      rw [hlast]
      exact beq_eq_false_iff_ne.mpr fun heq => by simp [Option.some.inj heq] at hblank
    exact ⟨.invalidIpv6, by rw [bracketed, hopen]; rfl⟩
  · split
    · exact ⟨_, rfl⟩
    · next decoded hdecode =>
      rw [DomainRules.toAscii?_of_blank (Text.Percent.exists_blank_of_decode h.exists_mem hdecode)]
      exact ⟨_, rfl⟩

/-- A blank at the end is one of the port if there is a port, and one of the host otherwise. -/
theorem exists_parseAuthority_error (scheme : String) (h : EndsInBlank text) :
    ∃ e, parseAuthority scheme .special text = .error e := by
  cases hresult : parseAuthority scheme .special text with
  | error e => exact ⟨e, rfl⟩
  | ok a =>
    rw [parseAuthority] at hresult
    split at hresult
    next user rest hparts =>
    have hends : EndsInBlank rest := by
      cases hsplit : splitLastAt text with
      | none =>
        rw [hsplit] at hparts
        cases hparts
        exact h
      | some parts =>
        rw [hsplit] at hparts
        cases hparts
        exact endsInBlank_of_splitLastAt h hsplit
    have hread : ∃ host port, Host.parse (splitHost false rest).1 = .ok host ∧
        parsePort scheme ((splitHost false rest).2.drop 1) = .ok port := by
      generalize splitHost false rest = split at hresult
      obtain ⟨hostText, portText⟩ := split
      dsimp only [SchemeKind.isSpecial] at hresult
      split at hresult
      · cases hresult
      · obtain ⟨host, hhost, hresult⟩ := exists_of_bind_eq_ok hresult
        obtain ⟨port, hport, -⟩ := exists_of_bind_eq_ok hresult
        exact ⟨host, port, hhost, hport⟩
    obtain ⟨host, port, hhost, hport⟩ := hread
    rcases splitHost_cases false rest with hnone | ⟨front, digits, hsplit, htext⟩
    · obtain ⟨e, he⟩ := Host.exists_parse_error hends
      rw [hnone, he] at hhost
      cases hhost
    · have hdigits : EndsInBlank digits := .of_append_cons (by decide) (htext ▸ hends)
      obtain ⟨e, he⟩ := exists_parsePort_error scheme hdigits
      rw [hsplit, List.drop_one, List.tail_cons, he] at hport
      cases hport

end Url

end UserManagedAccess
