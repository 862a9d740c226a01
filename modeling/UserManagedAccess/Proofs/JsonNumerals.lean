import UserManagedAccess.Json.Document
import UserManagedAccess.Proofs.Digits
import UserManagedAccess.Proofs.Encodings
import UserManagedAccess.Proofs.JsonText

/-! The text that is written for a number is a numeral, which is read as a whole, whatever follows
it. What it is read as need not be the number. -/
namespace UserManagedAccess

/-! ## Shortest decimals -/

namespace Binary64

theorem stripZeros_ne_zero {n : Nat} (h : n ≠ 0) (fuel : Nat) : (stripZeros n fuel).1 ≠ 0 := by
  induction fuel generalizing n with
  | zero => exact h
  | succ fuel ih =>
    rw [stripZeros]
    split
    · next hzero =>
      simp only [Bool.and_eq_true, decide_eq_true_eq] at hzero
      exact ih (by omega)
    · exact h

private theorem eq_or_eq_of_pick {c d e : Prop} [Decidable c] [Decidable d] [Decidable e]
    {m m' n : Nat}
    (h : (if c then some m else if d then some m' else if e then some m else some m') = some n) :
    n = m ∨ n = m' := by
  by_cases hc : c <;> by_cases hd : d <;> by_cases he : e <;> simp_all

theorem Range.nearest?_ne_zero {r : Range} {p : Int} {n : Nat} (h : r.nearest? p = some n) :
    n ≠ 0 := by
  simp only [nearest?] at h
  generalize (if 0 ≤ p then r.mid else r.mid * Nat.pow 10 (-p).toNat) /
    (if 0 ≤ p then r.den * Nat.pow 10 p.toNat else r.den) = below at h
  split at h
  · next hbelow _ =>
    simp only [Bool.and_eq_true, bne_iff_ne] at hbelow
    have hne := hbelow.2
    rcases eq_or_eq_of_pick h with rfl | rfl <;> omega
  · next hbelow _ =>
    simp only [Bool.and_eq_true, bne_iff_ne] at hbelow
    cases h
    exact hbelow.2
  · cases h
    omega
  · cases h

/-- Zero is found on no grid, and otherwise only after all of them were tried. -/
theorem Range.shortest_eq (r : Range) (point : Int) (digits tries : Nat) :
    (r.shortest point digits tries).1 ≠ 0 ∨
      (r.shortest point digits tries).2 = (digits + tries : Nat) := by
  induction tries generalizing digits with
  | zero => exact .inr rfl
  | succ tries ih =>
    rw [shortest]
    split
    · next n hnearest => exact .inl (nearest?_ne_zero hnearest)
    · have hnext := ih (digits + 1)
      rwa [Nat.add_right_comm] at hnext

/-- The digits of a shortest decimal are those of a number, which is not zero unless it counts more
than sixteen places. -/
theorem exists_digits_shortest (x : Binary64) :
    ∃ n, x.shortest.digits = Nat.toDigits 10 n ∧ (n ≠ 0 ∨ 16 < x.shortest.point) := by
  have hfound := x.range.shortest_eq (decimalPoint x.range.mid x.range.den) 1 17
  rw [shortest]
  simp only
  generalize x.range.shortest (decimalPoint x.range.mid x.range.den) 1 17 = found at hfound ⊢
  obtain ⟨n, power⟩ := found
  refine ⟨(stripZeros n 20).1, rfl, ?_⟩
  rcases hfound with hne | hpower
  · exact .inl (stripZeros_ne_zero hne 20)
  · right
    simp only at hpower ⊢
    omega

end Binary64

namespace Json

open Text.Utf8 (bytes bytes_append bytes_cons_ascii)

/-- No numeral goes on with what follows. -/
def EndsNumeral (rest : List UInt8) : Prop :=
  ∀ b tail, rest = b :: tail → Numeral.isDigit b = false ∧ b ≠ 0x2E ∧ b ≠ 0x65 ∧ b ≠ 0x45

namespace Numeral

private def digitByte (c : Char) : UInt8 := UInt8.ofNat c.toNat

private theorem digitByte_spec {c : Char} (h : c.isDigit = true) :
    bytes [c] = [digitByte c] ∧ isDigit (digitByte c) = true ∧
      digit (digitByte c) = c.toNat - '0'.toNat ∧ (digitByte c).toNat = c.toNat := by
  obtain ⟨hlow, hhigh⟩ : 48 ≤ c.toNat ∧ c.toNat ≤ 57 := by
    simpa [Char.isDigit, UInt32.le_iff_toNat_le] using h
  have hbyte : (digitByte c).toNat = c.toNat := by
    simp only [digitByte, UInt8.toNat_ofNat']
    omega
  refine ⟨bytes_cons_ascii (by omega) [], ?_, ?_, hbyte⟩
  · simp [isDigit, UInt8.le_iff_toNat_le, hbyte, hlow, hhigh]
  · simp [digit, hbyte]

private theorem digitByte_ne {c : Char} (h : c.isDigit = true) {b : UInt8}
    (hb : isDigit b = false) : digitByte c ≠ b := by
  rintro rfl
  rw [(digitByte_spec h).2.1] at hb
  cases hb

private theorem bytes_digits {cs : List Char} (h : ∀ c ∈ cs, c.isDigit = true) :
    bytes cs = cs.map digitByte := by
  induction cs with
  | nil => rfl
  | cons c cs ih =>
    obtain ⟨hc, hcs⟩ := List.forall_mem_cons.mp h
    have hfirst := (digitByte_spec hc).1
    rw [List.map_cons, ← ih hcs, ← List.singleton_append, bytes_append, hfirst]
    rfl

/-- No digit stands at the front. -/
private def StartsNoDigit (rest : List UInt8) : Prop :=
  ∀ b tail, rest = b :: tail → isDigit b = false

private theorem span_digits {cs : List Char} (h : ∀ c ∈ cs, c.isDigit = true)
    {rest : List UInt8} (hrest : StartsNoDigit rest) :
    span (cs.map digitByte ++ rest) = (cs.map digitByte, rest) := by
  have hdigits : ∀ b ∈ cs.map digitByte, isDigit b = true := by
    intro b hb
    obtain ⟨c, hc, rfl⟩ := List.mem_map.mp hb
    exact (digitByte_spec (h c hc)).2.1
  have hend : rest.takeWhile isDigit = [] ∧ rest.dropWhile isDigit = rest := by
    cases rest with
    | nil => exact ⟨rfl, rfl⟩
    | cons b tail => simp [hrest b tail rfl]
  rw [span, List.takeWhile_append_of_pos hdigits, List.dropWhile_append_of_pos hdigits, hend.1,
    hend.2, List.append_nil]

private theorem le_ofDigitChars (cs : List Char) (start : Nat) :
    start ≤ Nat.ofDigitChars 10 cs start := by
  induction cs generalizing start with
  | nil => exact Nat.le_refl start
  | cons c cs ih =>
    have hnext := ih (10 * start + (c.toNat - '0'.toNat))
    change _ ≤ Nat.ofDigitChars 10 cs (10 * start + (c.toNat - '0'.toNat))
    omega

/-- Digits are taken in as long as their number fits. -/
private theorem collect_digits {cs : List Char} (h : ∀ c ∈ cs, c.isDigit = true) (start : Nat)
    (hfits : Nat.ofDigitChars 10 cs start ≤ Word.high) :
    collect start (cs.map digitByte) = (Nat.ofDigitChars 10 cs start, cs.length, 0) := by
  induction cs generalizing start with
  | nil => rfl
  | cons c cs ih =>
    obtain ⟨hc, hcs⟩ := List.forall_mem_cons.mp h
    obtain ⟨-, -, hdigit, -⟩ := digitByte_spec hc
    have hnext : start * 10 + digit (digitByte c) = 10 * start + (c.toNat - '0'.toNat) := by
      rw [hdigit, Nat.mul_comm]
    change Nat.ofDigitChars 10 cs (10 * start + (c.toNat - '0'.toNat)) ≤ Word.high at hfits
    have hfits' := Nat.le_trans (le_ofDigitChars cs _) hfits
    simp only [List.map_cons, collect, hnext, Nat.not_lt.mpr hfits', ↓reduceIte,
      ih hcs _ hfits, List.length_cons]
    rfl

/-! ### The parts of a numeral -/

/-- Digits, and at least one. -/
structure AreDigits (cs : List Char) : Prop where
  ne_nil : cs ≠ []
  isDigit : ∀ c ∈ cs, c.isDigit = true

namespace AreDigits
variable {cs : List Char}

theorem toDigits (n : Nat) : AreDigits (Nat.toDigits 10 n) :=
  ⟨Nat.toDigits_ne_nil, Decimal.isDigit_toDigits n⟩

theorem single {c : Char} (h : c.isDigit = true) : AreDigits [c] :=
  ⟨List.cons_ne_nil c [], by simpa using h⟩

theorem append_zeros (h : AreDigits cs) (n : Nat) : AreDigits (cs ++ List.replicate n '0') where
  ne_nil := by simp [h.ne_nil]
  isDigit c hc := by
    rcases List.mem_append.mp hc with hc | hc
    · exact h.isDigit c hc
    · rw [(List.mem_replicate.mp hc).2]
      rfl

theorem zeros_append (h : AreDigits cs) (n : Nat) : AreDigits (List.replicate n '0' ++ cs) where
  ne_nil := by simp [h.ne_nil]
  isDigit c hc := (h.append_zeros n).isDigit c
    (List.mem_append.mpr (List.mem_append.mp hc).symm)

theorem take (h : AreDigits cs) {n : Nat} (hn : 0 < n) : AreDigits (cs.take n) where
  ne_nil := by simp [h.ne_nil, Nat.ne_of_gt hn]
  isDigit c hc := h.isDigit c (List.mem_of_mem_take hc)

theorem drop (h : AreDigits cs) {n : Nat} (hn : n < cs.length) : AreDigits (cs.drop n) where
  ne_nil := by simpa using hn
  isDigit c hc := h.isDigit c (List.mem_of_mem_drop hc)

theorem point_not_mem (h : AreDigits cs) : '.' ∉ cs :=
  fun hmem => absurd (h.isDigit _ hmem) (by decide)

end AreDigits

/-- A numeral: maybe a sign, digits, and maybe digits after a point and an exponent. -/
structure Parts where
  negative : Bool
  whole : List Char
  fraction : Option (List Char)
  exponent : Option (Bool × List Char)

namespace Parts

def fractionChars : Option (List Char) → List Char
  | none => []
  | some digits => '.' :: digits

def exponentChars : Option (Bool × List Char) → List Char
  | none => []
  | some (down, digits) => 'e' :: ((if down then ['-'] else []) ++ digits)

def chars (p : Parts) : List Char :=
  (if p.negative then ['-'] else []) ++ p.whole ++ fractionChars p.fraction ++
    exponentChars p.exponent

/-- There is a digit wherever one has to be, and zeros do not lead other digits. -/
structure Valid (p : Parts) : Prop where
  whole : AreDigits p.whole
  leading : p.whole.head? = some '0' → p.whole.length = 1
  fraction : ∀ digits, p.fraction = some digits → AreDigits digits
  exponent : ∀ e, p.exponent = some e → AreDigits e.2

/-- What a numeral is read as. -/
def value (p : Parts) : Numeral :=
  ofDigits p.negative (p.whole.map digitByte) (p.fraction.map (·.map digitByte))
    (p.exponent.map fun e => (e.1, e.2.map digitByte))

end Parts

/-! ### Reading the parts -/

private theorem startsNoDigit_cons {b : UInt8} (h : isDigit b = false) (rest : List UInt8) :
    StartsNoDigit (b :: rest) := by
  rintro _ _ ⟨⟩
  exact h

private theorem startsNoDigit_of_ends {rest : List UInt8} (h : EndsNumeral rest) :
    StartsNoDigit rest :=
  fun b tail heq => (h b tail heq).1

/-- The sign at the front of an exponent. -/
private def exponentSign : List UInt8 → Bool × List UInt8
  | 0x2B :: rest => (false, rest)
  | 0x2D :: rest => (true, rest)
  | rest => (false, rest)

private theorem exponentSign_of_ne {b : UInt8} (hplus : b ≠ 0x2B) (hminus : b ≠ 0x2D)
    (tail : List UInt8) : exponentSign (b :: tail) = (false, b :: tail) := by
  rw [exponentSign]
  · rintro _ ⟨⟩
    exact hplus rfl
  · rintro _ ⟨⟩
    exact hminus rfl

private theorem exponent?_sign (input : List UInt8) :
    exponent? (0x65 :: input) =
      let (digits, rest) := span (exponentSign input).2
      if digits.isEmpty then none else some (some ((exponentSign input).1, digits), rest) :=
  rfl

private theorem exponent?_chars {e : Option (Bool × List Char)}
    (he : ∀ parts, e = some parts → AreDigits parts.2)
    {rest : List UInt8} (hrest : EndsNumeral rest) :
    exponent? (bytes (Parts.exponentChars e) ++ rest) =
      some (e.map fun parts => (parts.1, parts.2.map digitByte), rest) := by
  cases e with
  | none =>
    cases rest with
    | nil => rfl
    | cons b tail =>
      obtain ⟨-, -, he, hE⟩ := hrest b tail rfl
      simp [Parts.exponentChars, exponent?, he, hE]
  | some parts =>
    obtain ⟨down, digits⟩ := parts
    obtain ⟨hne, hdigits⟩ := he _ rfl
    have hspan := span_digits hdigits (startsNoDigit_of_ends hrest)
    rw [Parts.exponentChars, bytes_cons_ascii (by decide), bytes_append, bytes_digits hdigits,
      List.cons_append, List.append_assoc]
    have hsign : exponentSign (bytes (if down then ['-'] else []) ++
        (digits.map digitByte ++ rest)) = (down, digits.map digitByte ++ rest) := by
      cases down with
      | true => rfl
      | false =>
        cases digits with
        | nil => exact absurd rfl hne
        | cons c cs =>
          have hc := hdigits c List.mem_cons_self
          exact exponentSign_of_ne (digitByte_ne hc rfl) (digitByte_ne hc rfl) _
    refine (exponent?_sign _).trans ?_
    rw [hsign]
    simp [hspan, hne]

/-- What follows the digits after a point: no digit and no second point. -/
private theorem exponentChars_ends (e : Option (Bool × List Char)) {rest : List UInt8}
    (hrest : EndsNumeral rest) :
    ∀ b tail, bytes (Parts.exponentChars e) ++ rest = b :: tail → isDigit b = false ∧ b ≠ 0x2E := by
  cases e with
  | none => exact fun b tail heq => ⟨(hrest b tail heq).1, (hrest b tail heq).2.1⟩
  | some parts =>
    rw [Parts.exponentChars, bytes_cons_ascii (by decide)]
    rintro _ _ ⟨⟩
    decide

/-- The digits after a point, if there is one. -/
private def fraction? : List UInt8 → Option (Option (List UInt8) × List UInt8)
  | 0x2E :: rest =>
    let (digits, rest) := span rest
    if digits.isEmpty then none else some (some digits, rest)
  | rest => some (none, rest)

private theorem fraction?_chars {f : Option (List Char)}
    (hf : ∀ digits, f = some digits → AreDigits digits)
    {rest : List UInt8} (hrest : ∀ b tail, rest = b :: tail → isDigit b = false ∧ b ≠ 0x2E) :
    fraction? (bytes (Parts.fractionChars f) ++ rest) =
      some (f.map (·.map digitByte), rest) := by
  cases f with
  | none =>
    change fraction? rest = some (none, rest)
    rw [fraction?]
    rintro _ rfl
    exact (hrest _ _ rfl).2 rfl
  | some digits =>
    obtain ⟨hne, hdigits⟩ := hf _ rfl
    have hspan := span_digits hdigits fun b tail heq => (hrest b tail heq).1
    rw [Parts.fractionChars, bytes_cons_ascii (by decide), bytes_digits hdigits, List.cons_append]
    change (if (span (digits.map digitByte ++ rest)).1.isEmpty then none
      else some (some (span (digits.map digitByte ++ rest)).1,
        (span (digits.map digitByte ++ rest)).2)) = _
    simp [hspan, hne]

/-- A numeral after its sign. -/
private def unsigned? (negative : Bool) (input : List UInt8) : Option (Numeral × List UInt8) :=
  let (whole, rest) := span input
  if whole.isEmpty || (whole.head? == some 0x30 && whole.length != 1) then none
  else
    match fraction? rest with
    | none => none
    | some (fraction, rest) =>
      match exponent? rest with
      | none => none
      | some (exponent, rest) => some (ofDigits negative whole fraction exponent, rest)

private theorem read?_minus (input : List UInt8) : read? (0x2D :: input) = unsigned? true input :=
  rfl

private theorem read?_of_ne {b : UInt8} (h : b ≠ 0x2D) (input : List UInt8) :
    read? (b :: input) = unsigned? false (b :: input) := by
  rw [read?]
  · rfl
  · rintro _ ⟨⟩
    exact h rfl

namespace Parts
variable {p : Parts} {rest : List UInt8}

/-- The zero that leads a numeral stands alone before the point. -/
private theorem Valid.leads (hp : p.Valid) :
    ((p.whole.map digitByte).head? == some 0x30 && (p.whole.map digitByte).length != 1) =
      false := by
  cases hwhole : p.whole with
  | nil => rfl
  | cons c cs =>
    by_cases hc : c = '0'
    · have hlength := hp.leading (by rw [hwhole, hc]; rfl)
      have hcs : cs = [] := by simpa [hwhole] using hlength
      simp [hcs]
    · have hbyte : digitByte c ≠ 0x30 := by
        intro heq
        have hdigit := hp.whole.isDigit c (hwhole ▸ List.mem_cons_self)
        have htoNat : c.toNat = 0x30 := by
          rw [← (digitByte_spec hdigit).2.2.2, heq]
          rfl
        exact hc (by rw [← Char.ofNat_toNat c, htoNat])
      simp [hbyte]

private theorem Valid.unsigned? (hp : p.Valid) (hrest : EndsNumeral rest) :
    unsigned? p.negative (p.whole.map digitByte ++
      (bytes (fractionChars p.fraction) ++ (bytes (exponentChars p.exponent) ++ rest))) =
        some (p.value, rest) := by
  have hexponent := exponent?_chars hp.exponent hrest
  have hends := exponentChars_ends p.exponent hrest
  have hfraction := fraction?_chars hp.fraction hends
  have hspan : span (p.whole.map digitByte ++ (bytes (fractionChars p.fraction) ++
      (bytes (exponentChars p.exponent) ++ rest))) =
        (p.whole.map digitByte, bytes (fractionChars p.fraction) ++
          (bytes (exponentChars p.exponent) ++ rest)) := by
    refine span_digits hp.whole.isDigit ?_
    cases p.fraction with
    | none => exact fun b tail heq => (hends b tail heq).1
    | some digits =>
      rw [fractionChars, bytes_cons_ascii (by decide)]
      exact startsNoDigit_cons rfl _
  have hwhole : (p.whole.map digitByte).isEmpty = false := by simp [hp.whole.ne_nil]
  simp only [Numeral.unsigned?, hspan, hwhole, hp.leads, hfraction, hexponent, Bool.or_self,
    Bool.false_eq_true, ↓reduceIte]
  rfl

/-- A numeral is read as a whole off the front of a text. -/
theorem Valid.read?_chars (hp : p.Valid) (hrest : EndsNumeral rest) :
    read? (bytes p.chars ++ rest) = some (p.value, rest) := by
  have hread := hp.unsigned? hrest
  rw [chars, bytes_append, bytes_append, bytes_append, bytes_digits hp.whole.isDigit]
  simp only [List.append_assoc]
  cases hnegative : p.negative with
  | true =>
    rw [hnegative] at hread
    exact (read?_minus _).trans hread
  | false =>
    rw [hnegative] at hread
    cases hwhole : p.whole with
    | nil => exact absurd hwhole hp.whole.ne_nil
    | cons c cs =>
      have hc := hp.whole.isDigit c (hwhole ▸ List.mem_cons_self)
      rw [hwhole] at hread
      exact (read?_of_ne (digitByte_ne hc rfl) _).trans hread

end Parts

/-! ### Numbers as numerals -/

section
variable {n : Nat} (h : n ≤ Word.high)
include h

private theorem collect_toDigits :
    collect 0 ((Nat.toDigits 10 n).map digitByte) = (n, (Nat.toDigits 10 n).length, 0) := by
  have hvalue : Nat.ofDigitChars 10 (Nat.toDigits 10 n) 0 = n := Nat.ofDigitChars_ten_toDigits
  have hcollect := collect_digits (Decimal.isDigit_toDigits n) 0 (by rwa [hvalue])
  rwa [hvalue] at hcollect

private theorem ofDigits_unsigned :
    ofDigits false ((Nat.toDigits 10 n).map digitByte) none none = .value (.whole n) := by
  simp only [ofDigits, collect_toDigits h]
  rfl

private theorem ofDigits_negative (hne : n ≠ 0) (hfits : Word.fitsSigned (-n) = true) :
    ofDigits true ((Nat.toDigits 10 n).map digitByte) none none = .value (.whole (-n)) := by
  simp [ofDigits, collect_toDigits h, hne, hfits]

end

/-- The parts of the numeral for a whole number. -/
private def wholeParts (n : Int) : Parts := ⟨n < 0, Nat.toDigits 10 n.natAbs, none, none⟩

private theorem chars_wholeParts (n : Int) : (wholeParts n).chars = Decimal.ofInt n := by
  rw [Parts.chars, Decimal.ofInt, Decimal.digitsOf]
  by_cases hnegative : n < 0 <;>
    simp [wholeParts, hnegative, Parts.fractionChars, Parts.exponentChars]

private theorem leading_toDigits {n : Nat} (h : (Nat.toDigits 10 n).head? = some '0') :
    (Nat.toDigits 10 n).length = 1 := by
  rcases Nat.eq_zero_or_pos n with rfl | hpos
  · rfl
  · exact absurd h (Decimal.head?_toDigits hpos)

private theorem valid_wholeParts (n : Int) : (wholeParts n).Valid where
  whole := .toDigits _
  leading := leading_toDigits
  fraction := nofun
  exponent := nofun

section
variable {digits : List Char} {point : Int}

/-- Digits at the front of which a zero stands only if there are more than sixteen places before
the point. -/
private structure AreShortest (digits : List Char) (point : Int) : Prop extends
    AreDigits digits where
  leads : digits.head? ≠ some '0' ∨ 16 < point

private theorem areShortest (x : Binary64) : AreShortest x.shortest.digits x.shortest.point := by
  obtain ⟨n, hdigits, hn⟩ := x.exists_digits_shortest
  refine ⟨?_, hn.imp (fun hne => ?_) id⟩ <;> rw [hdigits]
  · exact .toDigits n
  · exact Decimal.head?_toDigits (Nat.pos_of_ne_zero hne)

/-- A number below one, as a numeral without an exponent. -/
private theorem parts_below_one (h : AreShortest digits point) (negative : Bool) (zeros : Nat) :
    (⟨negative, ['0'], some (List.replicate zeros '0' ++ digits), none⟩ : Parts).Valid where
  whole := .single rfl
  leading _ := rfl
  fraction := by
    rintro _ ⟨⟩
    exact h.zeros_append zeros
  exponent := nofun

private theorem parts_filled (h : AreShortest digits point) (hpoint : point ≤ 16) (negative : Bool)
    (zeros : Nat) :
    (⟨negative, digits ++ List.replicate zeros '0', some ['0'], none⟩ : Parts).Valid where
  whole := h.append_zeros zeros
  leading hhead := by
    have hlead := h.leads.resolve_right (by omega)
    cases digits with
    | nil => exact absurd rfl h.ne_nil
    | cons c cs => exact absurd hhead hlead
  fraction := by
    rintro _ ⟨⟩
    exact .single rfl
  exponent := nofun

private theorem parts_split (h : AreShortest digits point) (hpoint : point ≤ 16) (negative : Bool)
    (whole : Nat) (hpos : 0 < whole) (hlt : whole < digits.length) :
    (⟨negative, digits.take whole, some (digits.drop whole), none⟩ : Parts).Valid where
  whole := h.take hpos
  leading hhead := by
    rw [List.head?_take, if_neg (by omega)] at hhead
    exact absurd hhead (h.leads.resolve_right (by omega))
  fraction := by
    rintro _ ⟨⟩
    exact h.drop hlt
  exponent := nofun

private theorem parts_scientific {digit : Char} {rest : List Char}
    (h : AreShortest (digit :: rest) point) (negative : Bool) (exponent : Int) :
    (⟨negative, [digit], if rest = [] then none else some rest,
      some (exponent < 0, Nat.toDigits 10 exponent.natAbs)⟩ : Parts).Valid where
  whole := .single (h.isDigit digit List.mem_cons_self)
  leading _ := rfl
  fraction := by
    intro found hfound
    split at hfound
    · cases hfound
    · next hne =>
      cases hfound
      exact ⟨hne, fun c hc => h.isDigit c (List.mem_cons_of_mem _ hc)⟩
  exponent := by
    rintro _ ⟨⟩
    exact .toDigits _

/-- The text of a decimal without an exponent, with a digit after its point. -/
private theorem exists_parts_positional {text : List Char} (h : AreShortest digits point)
    (hpoint : point ≤ 16) (htext : (⟨digits, point⟩ : Decimal).positional = text)
    (negative : Bool) :
    ∃ p : Parts, p.Valid ∧ p.chars = (if negative then ['-'] else []) ++
      if text.contains '.' then text else text ++ ['.', '0'] := by
  rw [Decimal.positional] at htext
  by_cases hpos : point ≤ 0
  · simp only [hpos, ↓reduceIte] at htext
    subst htext
    refine ⟨_, parts_below_one h negative (-point).toNat, ?_⟩
    simp [Parts.chars, Parts.fractionChars, Parts.exponentChars]
  · simp only [hpos, ↓reduceIte] at htext
    by_cases hwhole : digits.length ≤ point.toNat
    · simp only [hwhole, ↓reduceIte] at htext
      have hfree : '.' ∉ text := by
        rw [← htext]
        simp [h.point_not_mem]
      refine ⟨_, parts_filled h hpoint negative (point.toNat - digits.length), ?_⟩
      have hplain : (if text.contains '.' then text else text ++ ['.', '0']) = text ++ ['.', '0'] :=
        if_neg (by simpa using hfree)
      rw [hplain, ← htext]
      simp [Parts.chars, Parts.fractionChars, Parts.exponentChars]
    · simp only [hwhole, ↓reduceIte] at htext
      subst htext
      refine ⟨_, parts_split h hpoint negative point.toNat (by omega) (by omega), ?_⟩
      simp [Parts.chars, Parts.fractionChars, Parts.exponentChars]

/-- A point after the first digit, if another digit follows. -/
private def mantissa : List Char → List Char
  | [digit] => [digit]
  | digit :: rest => digit :: '.' :: rest
  | [] => []

/-- The text of a decimal with an exponent. -/
private theorem exists_parts_scientific (h : AreShortest digits point) (negative : Bool) :
    ∃ p : Parts, p.Valid ∧ p.chars =
      (if negative then ['-'] else []) ++ mantissa digits ++ 'e' :: Decimal.ofInt (point - 1) := by
  cases digits with
  | nil => exact absurd rfl h.ne_nil
  | cons digit rest =>
    refine ⟨_, parts_scientific h negative (point - 1), ?_⟩
    have hexponent : Decimal.ofInt (point - 1) =
        (if point - 1 < 0 then ['-'] else []) ++ Nat.toDigits 10 (point - 1).natAbs := by
      rw [Decimal.ofInt, Decimal.digitsOf]
      split <;> rfl
    rw [hexponent]
    cases rest <;> simp [Parts.chars, Parts.fractionChars, Parts.exponentChars, mantissa]

end

private theorem exists_parts_real (x : Binary64) :
    ∃ p : Parts, p.Valid ∧ p.chars = realChars x := by
  rw [realChars]
  have h := areShortest x
  cases hzero : x.isZero with
  | true =>
    refine ⟨⟨x.isNegative, ['0'], some ['0'], none⟩, ?_, ?_⟩
    · refine ⟨.single rfl, fun _ => rfl, ?_, nofun⟩
      rintro _ ⟨⟩
      exact .single rfl
    · simp [Parts.chars, Parts.fractionChars, Parts.exponentChars]
  | false =>
    simp only [Bool.false_eq_true, ↓reduceIte]
    split
    · next hplain =>
      simp only [Bool.and_eq_true, decide_eq_true_eq] at hplain
      exact exists_parts_positional h hplain.2 rfl x.isNegative
    · exact exists_parts_scientific h x.isNegative

theorem exists_parts (n : JsonNumber) : ∃ p : Parts, p.Valid ∧ p.chars = numberChars n := by
  cases n with
  | whole n => exact ⟨wholeParts n, valid_wholeParts n, chars_wholeParts n⟩
  | real x => exact exists_parts_real x

/-! ### What is written for a number -/

/-- What the text that is written for a number is read as. -/
def written (n : JsonNumber) : Numeral :=
  ((read? (bytes (numberChars n))).map Prod.fst).getD .tooLarge

/-- The text of a number is read as a whole, whatever follows it. -/
theorem read?_numberChars (n : JsonNumber) (rest : List UInt8) (hrest : EndsNumeral rest) :
    read? (bytes (numberChars n) ++ rest) = some (written n, rest) := by
  obtain ⟨p, hp, hchars⟩ := exists_parts n
  have halone : read? (bytes (numberChars n)) = some (p.value, []) := by
    rw [← hchars, ← List.append_nil (bytes p.chars)]
    exact hp.read?_chars nofun
  rw [written, halone, ← hchars, hp.read?_chars hrest]
  rfl

/-- The numeral that is written for a number is read as this number. -/
def ReadsBack (n : JsonNumber) : Prop :=
  ∀ rest, EndsNumeral rest → read? (bytes (numberChars n) ++ rest) = some (.value n, rest)

theorem readsBack_iff {n : JsonNumber} : ReadsBack n ↔ written n = .value n := by
  constructor
  · intro h
    have hread := (read?_numberChars n [] nofun).symm.trans (h [] nofun)
    exact congrArg Prod.fst (Option.some.inj hread)
  · intro h rest hrest
    rw [read?_numberChars n rest hrest, h]

/-- Whole numbers of up to 64 bits are read as they are written. -/
theorem readsBack_whole {n : Int} (hlow : Word.signedLow ≤ n) (hhigh : n ≤ Word.high) :
    ReadsBack (.whole n) := by
  intro rest hrest
  have hmagnitude : n.natAbs ≤ Word.high := by
    simp only [Word.signedLow, Word.high] at hlow hhigh ⊢
    omega
  rw [numberChars, ← chars_wholeParts, (valid_wholeParts n).read?_chars hrest, Parts.value]
  simp only [wholeParts, Option.map_none]
  by_cases hnegative : n < 0
  · have hvalue : -(n.natAbs : Int) = n := by omega
    have hfits : Word.fitsSigned n = true := by
      have hhigh' : n ≤ Word.signedHigh := by
        rw [Word.signedHigh]
        omega
      simp [Word.fitsSigned, hlow, hhigh']
    rw [decide_eq_true hnegative, ofDigits_negative hmagnitude (by omega) (by rwa [hvalue]), hvalue]
  · have hvalue : (n.natAbs : Int) = n := by omega
    rw [decide_eq_false hnegative, ofDigits_unsigned hmagnitude, hvalue]

end Numeral

end Json

end UserManagedAccess
