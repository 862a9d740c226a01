import UserManagedAccess.Number.Plain

/-! Whole numbers as text. A number can be written in many ways, with a plus or with zeros in front;
one of them is the usual one. -/
namespace UserManagedAccess.Decimal

/-- Only zero is written with a zero in front. -/
theorem head?_toDigits {n : Nat} (h : 0 < n) : (Nat.toDigits 10 n).head? ≠ some '0' := by
  induction n using Nat.strongRecOn with
  | ind n ih =>
    have hdigit : ∀ d : Fin 10, 0 < d.val → d.val.digitChar ≠ '0' := by decide
    rcases Nat.lt_or_ge n 10 with hlt | hge
    · rw [Nat.toDigits_of_lt_base hlt]
      exact fun heq => hdigit ⟨n, hlt⟩ h (Option.some.inj heq)
    · have hfront := ih (n / 10) (by omega) (by omega)
      rw [Nat.toDigits_of_base_le (by omega) hge]
      cases hdigits : Nat.toDigits 10 (n / 10) with
      | nil => exact absurd hdigits Nat.toDigits_ne_nil
      | cons c cs => rwa [hdigits] at hfront

theorem isDigit_toDigits (n : Nat) : ∀ c ∈ Nat.toDigits 10 n, c.isDigit = true :=
  fun _ hc => Nat.isDigit_of_mem_toDigits (by omega) (by omega) hc

/-! ## Digits that are written again -/

theorem digitChar_digitValue {c : Char} (h : c.isDigit = true) :
    digitValue c < 10 ∧ (digitValue c).digitChar = c := by
  have hbounds := Char.isDigit_iff_toNat.mp h
  have hlt : digitValue c < 10 := by
    simp only [digitValue] at hbounds ⊢
    have : '9'.toNat = 57 ∧ '0'.toNat = 48 := by decide
    omega
  refine ⟨hlt, Char.toNat_inj.mp ?_⟩
  rw [Nat.toNat_digitChar_of_lt_ten hlt]
  simp only [digitValue] at hbounds ⊢
  have : '0'.toNat = 48 := by decide
  omega

/-- Digits after a number that is not zero are kept. -/
theorem toDigits_foldl {digits : List Char} (hdigits : ∀ c ∈ digits, c.isDigit = true) {n : Nat}
    (hn : 0 < n) : Nat.toDigits 10 (digits.foldl (fun n c => n * 10 + digitValue c) n) =
      Nat.toDigits 10 n ++ digits := by
  induction digits generalizing n with
  | nil => simp
  | cons c cs ih =>
    obtain ⟨hc, hcs⟩ := List.forall_mem_cons.mp hdigits
    obtain ⟨hlt, hchar⟩ := digitChar_digitValue hc
    calc
      _ = Nat.toDigits 10 (n * 10 + digitValue c) ++ cs := ih hcs (by omega)
      _ = (Nat.toDigits 10 n ++ Nat.toDigits 10 (digitValue c)) ++ cs := by
        rw [Nat.toDigits_append_toDigits (by omega) hn hlt, Nat.mul_comm]
      _ = Nat.toDigits 10 n ++ c :: cs := by
        rw [Nat.toDigits_of_lt_base hlt, hchar, List.append_assoc, List.singleton_append]

theorem valueOf_cons_pos {c : Char} {cs : List Char} (hdigits : ∀ d ∈ c :: cs, d.isDigit = true)
    (hfront : c ≠ '0') : 0 < valueOf (c :: cs) ∧ Nat.toDigits 10 (valueOf (c :: cs)) = c :: cs := by
  obtain ⟨hc, hcs⟩ := List.forall_mem_cons.mp hdigits
  obtain ⟨hlt, hchar⟩ := digitChar_digitValue hc
  have hpos : 0 < digitValue c := by
    refine Nat.pos_of_ne_zero fun hzero => hfront ?_
    rw [hzero] at hchar
    exact hchar.symm
  have hvalue : valueOf (c :: cs) = cs.foldl (fun n c => n * 10 + digitValue c) (digitValue c) := by
    simp [valueOf]
  have hwritten : Nat.toDigits 10 (valueOf (c :: cs)) = c :: cs := by
    rw [hvalue, toDigits_foldl hcs hpos, Nat.toDigits_of_lt_base hlt, hchar,
      List.singleton_append]
  refine ⟨Nat.pos_of_ne_zero fun hzero => ?_, hwritten⟩
  rw [hzero] at hwritten
  exact hfront (List.cons.inj hwritten).1.symm

/-- Digits are written again as they were if there is no zero in front of others. -/
theorem toDigits_valueOf_iff {digits : List Char} (hne : digits ≠ [])
    (hdigits : ∀ c ∈ digits, c.isDigit = true) :
    Nat.toDigits 10 (valueOf digits) = digits ↔ (digits.head? = some '0' → digits = ['0']) := by
  cases digits with
  | nil => exact absurd rfl hne
  | cons c cs =>
    by_cases hfront : c = '0'
    · subst hfront
      refine ⟨fun h _ => ?_, fun h => by rw [h rfl]; rfl⟩
      rcases Nat.eq_zero_or_pos (valueOf ('0' :: cs)) with hzero | hpos
      · rw [← h, hzero]
        rfl
      · exact absurd (congrArg List.head? h) (head?_toDigits hpos)
    · exact iff_of_true (valueOf_cons_pos hdigits hfront).2
        fun h => absurd (Option.some.inj h) hfront

/-! ## Numbers that are written again -/

/-- The usual way to write a number: without a plus, without zeros in front, and zero without a
minus. -/
def IsPlain : List Char → Prop
  | '+' :: _ => False
  | '-' :: digits => digits.head? ≠ some '0'
  | text => text.head? = some '0' → text = ['0']

theorem nat?_eq_some_iff {text : List Char} {n : Nat} : nat? text = some n ↔
    text ≠ [] ∧ (∀ c ∈ text, c.isDigit = true) ∧ valueOf text = n := by
  simp [nat?, and_assoc]

/-- The size of a number is written after its sign. -/
theorem int?_eq_some_iff {low high n : Int} {text : List Char} : int? low high text = some n ↔
    ∃ size, nat? (sign text).2 = some size ∧ n = (if (sign text).1 then -(size : Int) else size) ∧
      low ≤ n ∧ n ≤ high := by
  rw [int?]
  dsimp only
  cases nat? (sign text).2 with
  | none => simp
  | some size =>
    simp only [Option.ite_none_right_eq_some, Bool.and_eq_true, decide_eq_true_eq,
      Option.some.injEq, exists_eq_left']
    constructor
    · rintro ⟨hbounds, rfl⟩
      exact ⟨rfl, hbounds⟩
    · rintro ⟨rfl, hbounds⟩
      exact ⟨hbounds, rfl⟩

/-- The text of a number, whatever its size. -/
def Writes (text : List Char) (n : Int) : Prop := int? n n text = some n

theorem Writes.int?_eq {low high n : Int} {text : List Char} (h : Writes text n) (hlow : low ≤ n)
    (hhigh : n ≤ high) : int? low high text = some n := by
  obtain ⟨size, hsize, hn, -⟩ := int?_eq_some_iff.mp h
  exact int?_eq_some_iff.mpr ⟨size, hsize, hn, hlow, hhigh⟩

theorem ofInt_natCast (n : Nat) : ofInt n = Nat.toDigits 10 n := by
  rw [ofInt, if_neg (by omega)]
  rfl

theorem ofInt_neg {n : Nat} (h : 0 < n) : ofInt (-n) = '-' :: Nat.toDigits 10 n := by
  rw [ofInt, if_pos (by omega), Int.natAbs_neg]
  rfl

/-- A number that is read is written again as it was just if it was written the usual way. -/
theorem ofInt_eq_iff_isPlain {low high n : Int} {text : List Char}
    (h : int? low high text = some n) : ofInt n = text ↔ IsPlain text := by
  obtain ⟨size, hsize, rfl, -⟩ := int?_eq_some_iff.mp h
  obtain ⟨hne, hdigits, rfl⟩ := nat?_eq_some_iff.mp hsize
  fun_cases IsPlain text with
  | case1 digits =>
    refine iff_of_false (fun hsame => ?_) id
    change ofInt (valueOf digits) = '+' :: digits at hsame
    rw [ofInt_natCast] at hsame
    have hplus := isDigit_toDigits (valueOf digits) '+' (hsame ▸ List.mem_cons_self)
    exact absurd hplus (by decide)
  | case2 digits =>
    change digits ≠ [] at hne
    change ∀ c ∈ digits, c.isDigit = true at hdigits
    change ofInt (-(valueOf digits : Int)) = '-' :: digits ↔ digits.head? ≠ some '0'
    cases digits with
    | nil => exact absurd rfl hne
    | cons c cs =>
      by_cases hfront : c = '0'
      · subst hfront
        refine iff_of_false (fun hsame => ?_) fun h => h rfl
        rcases Nat.eq_zero_or_pos (valueOf ('0' :: cs)) with hzero | hpos
        · rw [hzero] at hsame
          exact absurd hsame (by simp [ofInt, digitsOf])
        · rw [ofInt_neg hpos] at hsame
          exact head?_toDigits hpos (congrArg List.head? (List.cons.inj hsame).2)
      · obtain ⟨hpos, hwritten⟩ := valueOf_cons_pos hdigits hfront
        exact iff_of_true (by rw [ofInt_neg hpos, hwritten]) fun h => hfront (Option.some.inj h)
  | case3 text hplus hminus =>
    have hsign : sign text = (false, text) := by
      unfold sign
      split
      · exact absurd rfl (hplus _)
      · exact absurd rfl (hminus _)
      · rfl
    rw [hsign] at hne hdigits ⊢
    change ofInt (valueOf text) = text ↔ _
    rw [ofInt_natCast]
    exact toDigits_valueOf_iff hne hdigits

end UserManagedAccess.Decimal
