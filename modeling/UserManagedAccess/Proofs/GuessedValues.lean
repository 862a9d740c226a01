import Mathlib.Data.List.TakeWhile
import UserManagedAccess.Proofs.Digits
import UserManagedAccess.Settings.Conversion
import UserManagedAccess.Settings.Source

/-! Values that are guessed from the texts of variables, and the texts that are made of them again.
A text is lost on the way if it looks like a number or a truth value and is not the usual way to
write it. -/
namespace UserManagedAccess

/-! ## Characters of numbers and words -/

/-- A character that a number or a truth value may be written with. -/
def isNumeric (c : Char) : Bool := c.isAlphanum || c = '+' || c = '-' || c = '.'

theorem isNumeric_of_isDigit {c : Char} (h : c.isDigit = true) : isNumeric c = true := by
  simp [isNumeric, Char.isAlphanum, h]

theorem toLower_of_isDigit {c : Char} (h : c.isDigit = true) : c.toLower = c := by
  have hbound : c.toNat ≤ '9'.toNat := (Char.isDigit_iff_toNat.mp h).2
  refine dif_neg ?_
  rintro ⟨hlow, -⟩
  exact absurd (Nat.le_trans hlow hbound) (by decide)

/-- The small letters tell that a word has no other characters. -/
theorem isNumeric_of_lowered {text : List Char} {word : String}
    (hword : word.toList.all Char.isAlphanum = true)
    (h : String.ofList (text.map Char.toLower) = word) : ∀ c ∈ text, isNumeric c = true := by
  intro c hc
  have hlow : c.toLower.isAlphanum = true := by
    refine List.all_eq_true.mp hword _ ?_
    rw [← h, String.toList_ofList]
    exact List.mem_map_of_mem hc
  by_cases hupper : c.isUpper = true
  · have halpha : c.isAlpha = true := Bool.or_eq_true_iff.mpr (.inl hupper)
    simp [isNumeric, Char.isAlphanum, halpha]
  · have hsame : c.toLower = c := dif_neg fun h => hupper (decide_eq_true h)
    rw [hsame] at hlow
    simp [isNumeric, hlow]

/-- A text with a digit in it is no word. -/
theorem lowered_ne_of_isDigit {text : List Char} {c : Char} (hc : c ∈ text)
    (hdigit : c.isDigit = true) {word : String} (hword : word.toList.any Char.isDigit = false) :
    String.ofList (text.map Char.toLower) ≠ word := by
  rintro rfl
  have hmem : c ∈ text.map Char.toLower := toLower_of_isDigit hdigit ▸ List.mem_map_of_mem hc
  rw [String.toList_ofList, List.any_eq_false] at hword
  exact hword c hmem hdigit

namespace Decimal

theorem mem_of_mem_sign {text : List Char} {c : Char} (h : c ∈ (sign text).2) : c ∈ text := by
  unfold sign at h
  split at h
  · exact List.mem_cons_of_mem _ h
  · exact List.mem_cons_of_mem _ h
  · exact h

theorem exists_isDigit_of_writes {text : List Char} {n : Int} (h : Writes text n) :
    ∃ c ∈ text, c.isDigit = true := by
  obtain ⟨size, hsize, -⟩ := int?_eq_some_iff.mp h
  obtain ⟨hne, hdigits, -⟩ := nat?_eq_some_iff.mp hsize
  obtain ⟨c, hc⟩ := List.exists_mem_of_ne_nil _ hne
  exact ⟨c, mem_of_mem_sign hc, hdigits c hc⟩

/-- The number of a text does not depend on the bounds that it is read within. -/
theorem eq_of_writes {text : List Char} {low high m n : Int} (h : Writes text n)
    (h' : int? low high text = some m) : m = n := by
  obtain ⟨size, hsize, rfl, -⟩ := int?_eq_some_iff.mp h
  obtain ⟨size', hsize', rfl, -⟩ := int?_eq_some_iff.mp h'
  rw [hsize] at hsize'
  cases hsize'
  rfl

theorem mem_sign {text : List Char} {c : Char} (h : c ∈ text) :
    isNumeric c = true ∨ c ∈ (sign text).2 := by
  unfold sign
  split
  · rcases List.mem_cons.mp h with rfl | h
    · exact .inl (by decide)
    · exact .inr h
  · rcases List.mem_cons.mp h with rfl | h
    · exact .inl (by decide)
    · exact .inr h
  · exact .inr h

theorem isNumeric_of_nat? {text : List Char} {n : Nat} (h : nat? text = some n) :
    ∀ c ∈ text, isNumeric c = true :=
  fun c hc => isNumeric_of_isDigit ((nat?_eq_some_iff.mp h).2.1 c hc)

theorem isNumeric_of_int? {low high n : Int} {text : List Char} (h : int? low high text = some n) :
    ∀ c ∈ text, isNumeric c = true := by
  obtain ⟨size, hsize, -⟩ := int?_eq_some_iff.mp h
  exact fun c hc => (mem_sign hc).elim id (isNumeric_of_nat? hsize c)

theorem isNumeric_of_exponent? {text : List Char} {n : Int} (h : exponent? text = some n) :
    ∀ c ∈ text, isNumeric c = true := by
  unfold exponent? at h
  split at h
  · simp
  · next first rest =>
    split at h
    · next hletter =>
      obtain ⟨_, hsize, -⟩ := Option.map_eq_some_iff.mp h
      obtain ⟨size, hsize, -⟩ := Option.bind_eq_some_iff.mp hsize
      have hrest : ∀ c ∈ rest, isNumeric c = true :=
        fun c hc => (mem_sign hc).elim id (isNumeric_of_nat? hsize c)
      refine List.forall_mem_cons.mpr ⟨?_, hrest⟩
      simp only [Bool.or_eq_true, decide_eq_true_eq] at hletter
      rcases hletter with rfl | rfl <;> decide
    · cases h

end Decimal

namespace Binary64

private theorem isNumeric_or_mem_dropWhile {text : List Char} {c : Char} (h : c ∈ text) :
    isNumeric c = true ∨ c ∈ text.dropWhile Char.isDigit := by
  have hsplit : text.takeWhile Char.isDigit ++ text.dropWhile Char.isDigit = text :=
    List.takeWhile_append_dropWhile
  rw [← hsplit, List.mem_append] at h
  exact h.imp (fun hc => isNumeric_of_isDigit (List.mem_takeWhile_imp hc)) id

theorem isNumeric_of_ofUnsigned? {negative : Bool} {text : List Char} {x : Binary64}
    (h : ofUnsigned? negative text = some x) : ∀ c ∈ text, isNumeric c = true := by
  have hafter : ∀ c ∈ text.dropWhile Char.isDigit, isNumeric c = true := by
    simp only [ofUnsigned?] at h
    split at h
    · next rest hpoint =>
      obtain ⟨n, hn, -⟩ := Option.map_eq_some_iff.mp (Option.ite_none_left_eq_some.mp h).2
      rw [hpoint]
      refine List.forall_mem_cons.mpr ⟨by decide, fun c hc => ?_⟩
      exact (isNumeric_or_mem_dropWhile hc).elim id (Decimal.isNumeric_of_exponent? hn c)
    · obtain ⟨n, hn, -⟩ := Option.map_eq_some_iff.mp (Option.ite_none_left_eq_some.mp h).2
      exact Decimal.isNumeric_of_exponent? hn
  exact fun c hc => (isNumeric_or_mem_dropWhile hc).elim id (hafter c)

theorem isNumeric_of_ofText? {text : List Char} {x : Binary64} (h : ofText? text = some x) :
    ∀ c ∈ text, isNumeric c = true := by
  have hunsigned : ∀ c ∈ (Decimal.sign text).2, isNumeric c = true := by
    simp only [ofText?] at h
    split at h
    · next hword =>
      simp only [Bool.or_eq_true, decide_eq_true_eq] at hword
      rcases hword with hword | hword
      · exact isNumeric_of_lowered (by decide) hword
      · exact isNumeric_of_lowered (by decide) hword
    · split at h
      · next hword => exact isNumeric_of_lowered (by decide) hword
      · exact isNumeric_of_ofUnsigned? h
  exact fun c hc => (Decimal.mem_sign hc).elim id (hunsigned c)

theorem ofUnsigned?_of_isDigit (negative : Bool) {digits : List Char} (hne : digits ≠ [])
    (hdigits : ∀ c ∈ digits, c.isDigit = true) :
    ofUnsigned? negative digits = some (ofNumeral negative digits [] 0) := by
  have htake : digits.takeWhile Char.isDigit = digits := List.takeWhile_eq_self_iff.mpr hdigits
  have hdrop : digits.dropWhile Char.isDigit = [] := List.dropWhile_eq_nil_iff.mpr hdigits
  rw [ofUnsigned?, htake, hdrop]
  dsimp only
  rw [if_neg (by simpa using hne), Decimal.exponent?, Option.map_some]

/-- A whole number is a double as well. -/
theorem exists_ofText?_of_writes {text : List Char} {n : Int} (h : Decimal.Writes text n) :
    ∃ x, ofText? text = some x := by
  obtain ⟨size, hsize, -⟩ := Decimal.int?_eq_some_iff.mp h
  obtain ⟨hne, hdigits, -⟩ := Decimal.nat?_eq_some_iff.mp hsize
  obtain ⟨c, hc⟩ := List.exists_mem_of_ne_nil _ hne
  have hword {word : String} (hword : word.toList.any Char.isDigit = false) :=
    lowered_ne_of_isDigit hc (hdigits c hc) hword
  refine ⟨ofNumeral (Decimal.sign text).1 (Decimal.sign text).2 [] 0, ?_⟩
  rw [← ofUnsigned?_of_isDigit _ hne hdigits, ofText?]
  dsimp only
  rw [if_neg, if_neg]
  · simpa using hword (by decide)
  · simp only [Bool.or_eq_true, decide_eq_true_eq, not_or]
    exact ⟨hword (by decide), hword (by decide)⟩

end Binary64

/-! ## What is guessed -/

namespace SettingTree

/-- A value for a whole number; one of more than sixty-four bits is given as a double. -/
def StandsFor (tree : SettingTree) (n : Int) : Prop :=
  tree = .whole n ∨ Word.fitsSigned n = false ∧ ∃ x, tree = .real x

end SettingTree

namespace EnvironmentVariable
variable {text : String}

/-- What is guessed from a text, and what it was about the text. -/
theorem value_cases (text : String) :
    (∃ b : Bool, value text = .bool b ∧
      String.ofList (text.toList.map Char.toLower) = if b then "true" else "false") ∨
    (∃ n, value text = .whole n ∧
      Decimal.int? Word.signedLow Word.signedHigh text.toList = some n) ∨
    (∃ x, value text = .real x ∧ Binary64.ofText? text.toList = some x) ∨
    value text = .text text := by
  rw [value]
  split
  · next hword => exact .inl ⟨true, rfl, hword⟩
  · split
    · next hword => exact .inl ⟨false, rfl, hword⟩
    · refine .inr ?_
      cases hwhole : Decimal.int? Word.signedLow Word.signedHigh text.toList with
      | some n => exact .inl ⟨n, rfl, rfl⟩
      | none =>
        cases hreal : Binary64.ofText? text.toList with
        | some x => exact .inr (.inl ⟨x, rfl, rfl⟩)
        | none => exact .inr (.inr rfl)

/-- Nothing is guessed from a text with a character that no number has, such as a slash. -/
theorem value_of_not_isNumeric {c : Char} (hc : c ∈ text.toList) (hother : isNumeric c = false) :
    value text = .text text := by
  have hnot {p : Prop} (h : p → ∀ c ∈ text.toList, isNumeric c = true) : ¬ p :=
    fun hp => absurd (h hp c hc) (by simp [hother])
  rcases value_cases text with ⟨b, -, hword⟩ | ⟨n, -, hwhole⟩ | ⟨x, -, hreal⟩ | htext
  · refine absurd hword (hnot fun hword => isNumeric_of_lowered ?_ hword)
    cases b <;> decide
  · exact absurd hwhole (hnot Decimal.isNumeric_of_int?)
  · exact absurd hreal (hnot Binary64.isNumeric_of_ofText?)
  · exact htext

/-- A text that stays the same when it is guessed what it means and that is written as a text again:
a truth value in small letters, a whole number without a plus or needless zeros, a double in its
shortest form, or anything else. -/
structure IsKept (text : String) : Prop where
  truth : ∀ b, value text = .bool b → text = "true" ∨ text = "false"
  whole : ∀ n, value text = .whole n → Decimal.IsPlain text.toList
  real : ∀ x, value text = .real x → x.toText = text

/-- What is guessed can be written as a text. -/
theorem exists_toText?_value (text : String) : ∃ written, (value text).toText? = some written := by
  rcases value_cases text with ⟨b, h, -⟩ | ⟨n, h, -⟩ | ⟨x, h, -⟩ | h <;> rw [h] <;> exact ⟨_, rfl⟩

theorem value_ne_absent (text : String) : value text ≠ .absent := by
  intro habsent
  obtain ⟨_, hwritten⟩ := exists_toText?_value text
  rw [habsent] at hwritten
  cases hwritten

theorem toText?_value_iff (text : String) :
    (value text).toText? = some text ↔ IsKept text := by
  rcases value_cases text with ⟨b, h, hword⟩ | ⟨n, h, hwhole⟩ | ⟨x, h, -⟩ | h
  · have hkept : IsKept text ↔ text = "true" ∨ text = "false" :=
      ⟨fun hk => hk.truth b h, fun hs => ⟨fun _ _ => hs, by simp [h], by simp [h]⟩⟩
    rw [hkept, h, SettingTree.toText?, Option.some.injEq]
    constructor
    · rintro rfl
      cases b
      · exact .inr rfl
      · exact .inl rfl
    · rintro (rfl | rfl) <;> cases b
      · exact absurd hword (by decide)
      · rfl
      · rfl
      · exact absurd hword (by decide)
  · have hkept : IsKept text ↔ Decimal.IsPlain text.toList :=
      ⟨fun hk => hk.whole n h, fun hs => ⟨by simp [h], fun _ _ => hs, by simp [h]⟩⟩
    rw [hkept, h, SettingTree.toText?, Option.some.injEq, ← Decimal.ofInt_eq_iff_isPlain hwhole,
      ← String.toList_inj, String.toList_ofList]
  · have hkept : IsKept text ↔ x.toText = text :=
      ⟨fun hk => hk.real x h, fun hs => ⟨by simp [h], by simp [h], by simp [h, hs]⟩⟩
    rw [hkept, h, SettingTree.toText?, Option.some.injEq]
  · rw [h]
    exact iff_of_true rfl ⟨by simp [h], by simp [h], by simp [h]⟩

theorem isKept_of_not_isNumeric {c : Char} (hc : c ∈ text.toList) (hother : isNumeric c = false) :
    IsKept text := by
  rw [← toText?_value_iff, value_of_not_isNumeric hc hother]
  rfl

/-! ## Whole numbers -/

/-- A number is guessed from its text. -/
theorem standsFor_value {n : Int} (h : Decimal.Writes text.toList n) :
    (value text).StandsFor n := by
  obtain ⟨c, hc, hdigit⟩ := Decimal.exists_isDigit_of_writes h
  rw [value, if_neg (lowered_ne_of_isDigit hc hdigit (by decide)),
    if_neg (lowered_ne_of_isDigit hc hdigit (by decide))]
  cases hwhole : Decimal.int? Word.signedLow Word.signedHigh text.toList with
  | some m =>
    rw [Decimal.eq_of_writes h hwhole]
    exact .inl rfl
  | none =>
    obtain ⟨x, hx⟩ := Binary64.exists_ofText?_of_writes h
    rw [hx]
    refine .inr ⟨?_, x, rfl⟩
    refine Bool.eq_false_iff.mpr fun hfits => ?_
    obtain ⟨hlow, hhigh⟩ := Bool.and_eq_true_iff.mp hfits
    rw [h.int?_eq (of_decide_eq_true hlow) (of_decide_eq_true hhigh)] at hwhole
    cases hwhole

end EnvironmentVariable

end UserManagedAccess
