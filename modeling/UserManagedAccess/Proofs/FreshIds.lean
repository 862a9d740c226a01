import UserManagedAccess.Proofs.KeyMap
import UserManagedAccess.Proofs.TextParts
import UserManagedAccess.Server.State

/-! Ids of one source do not repeat: the number of an id can be read off its digits. -/
namespace UserManagedAccess.IdSupply

private def digitValue (c : Char) : Nat :=
  if c.toNat < 0x61 then c.toNat - 0x30 else c.toNat - 0x57

private def valueOf (digits : List Char) : Nat :=
  digits.foldl (fun value c => value * 16 + digitValue c) 0

private theorem valueOf_append (front : List Char) (c : Char) :
    valueOf (front ++ [c]) = valueOf front * 16 + digitValue c := by
  simp [valueOf]

private theorem digitValue_digitChar {d : Nat} (h : d < 16) : digitValue d.digitChar = d := by
  have all : ∀ d : Fin 16, digitValue d.val.digitChar = d.val := by decide
  exact all ⟨d, h⟩

private theorem valueOf_toDigits (n : Nat) : valueOf (Nat.toDigits 16 n) = n := by
  induction n using Nat.strongRecOn with
  | ind n ih =>
    rcases Nat.lt_or_ge n 16 with hlt | hge
    · rw [Nat.toDigits_of_lt_base hlt]
      simpa [valueOf] using digitValue_digitChar hlt
    · rw [Nat.toDigits_of_base_le (by omega) hge, valueOf_append,
        ih (n / 16) (Nat.div_lt_self (by omega) (by omega)),
        digitValue_digitChar (Nat.mod_lt n (by omega))]
      omega

private theorem valueOf_zeros (k : Nat) (digits : List Char) :
    valueOf (List.replicate k '0' ++ digits) = valueOf digits := by
  induction k with
  | zero => rfl
  | succ k ih => exact ih

private theorem valueOf_group (width n : Nat) : valueOf (group width n) = n := by
  rw [group, valueOf_zeros, valueOf_toDigits]

private theorem dash_not_mem_toDigits (n : Nat) : '-' ∉ Nat.toDigits 16 n := by
  have all : ∀ d : Fin 16, '-' ≠ d.val.digitChar := by decide
  induction n using Nat.strongRecOn with
  | ind n ih =>
    rcases Nat.lt_or_ge n 16 with hlt | hge
    · rw [Nat.toDigits_of_lt_base hlt, List.mem_singleton]
      exact all ⟨n, hlt⟩
    · rw [Nat.toDigits_of_base_le (by omega) hge, List.mem_append, List.mem_singleton, not_or]
      exact ⟨ih (n / 16) (Nat.div_lt_self (by omega) (by omega)),
        all ⟨n % 16, Nat.mod_lt n (by omega)⟩⟩

private theorem dash_not_mem_group (width n : Nat) : '-' ∉ group width n := by
  rw [group, List.mem_append, not_or]
  refine ⟨fun h => ?_, dash_not_mem_toDigits n⟩
  cases (List.mem_replicate.mp h).2

/-- Sources of different origin share no ids. -/
theorem origin_eq_of_idOf_eq {origin origin' m n : Nat} (h : idOf origin m = idOf origin' n) :
    origin = origin' := by
  have hchars := congrArg String.toList h
  simp only [idOf, String.toList_ofList, List.append_assoc] at hchars
  have hgroup : group 8 origin = group 8 origin' :=
    Text.eq_of_append_cons '-' (dash_not_mem_group 8 origin) (dash_not_mem_group 8 origin') hchars
  rw [← valueOf_group 8 origin, hgroup, valueOf_group]

theorem idOf_injective (origin : Nat) : Function.Injective (idOf origin) := by
  intro m n h
  have hchars := congrArg String.toList h
  simp only [idOf, String.toList_ofList] at hchars
  have hgroup := List.append_cancel_left hchars
  rw [← valueOf_group 12 m, hgroup, valueOf_group]

/-- The source has handed out the id. -/
def HasIssued (supply : IdSupply) (id : String) : Prop :=
  ∃ n < supply.used, id = idOf supply.origin n

/-- The next id is one that nobody has. -/
theorem not_hasIssued_next (supply : IdSupply) : ¬ supply.HasIssued supply.next.1 := by
  rintro ⟨n, hn, heq⟩
  have := idOf_injective supply.origin heq
  omega

theorem hasIssued_next_iff (supply : IdSupply) (id : String) :
    supply.next.2.HasIssued id ↔ supply.HasIssued id ∨ id = supply.next.1 := by
  constructor
  · rintro ⟨n, hn, rfl⟩
    rcases Nat.lt_succ_iff_lt_or_eq.mp hn with hn | rfl
    · exact .inl ⟨n, hn, rfl⟩
    · exact .inr rfl
  · rintro (⟨n, hn, rfl⟩ | rfl)
    · exact ⟨n, Nat.lt_succ_of_lt hn, rfl⟩
    · exact ⟨supply.used, Nat.lt_succ_self _, rfl⟩

theorem HasIssued.next {supply : IdSupply} {id : String} (h : supply.HasIssued id) :
    supply.next.2.HasIssued id :=
  (hasIssued_next_iff supply id).mpr (.inl h)

theorem hasIssued_next_self (supply : IdSupply) : supply.next.2.HasIssued supply.next.1 :=
  (hasIssued_next_iff supply _).mpr (.inr rfl)

/-- Whatever a map holds, it holds under an id that was handed out. -/
def HasIssuedKeys {α : Type} (supply : IdSupply) (map : KeyMap α) : Prop :=
  ∀ id value, map.get? id = some value → supply.HasIssued id

namespace HasIssuedKeys
variable {α : Type} {supply : IdSupply} {map : KeyMap α}

theorem empty (supply : IdSupply) : supply.HasIssuedKeys (∅ : KeyMap α) :=
  fun _ _ h => nomatch h

theorem erase (h : supply.HasIssuedKeys map) (id : String) :
    supply.HasIssuedKeys (map.erase id) := by
  intro k value hk
  rw [KeyMap.get?_erase] at hk
  split at hk
  · cases hk
  · exact h k value hk

theorem next (h : supply.HasIssuedKeys map) : supply.next.2.HasIssuedKeys map :=
  fun id value hid => (h id value hid).next

theorem insert_next (h : supply.HasIssuedKeys map) (value : α) :
    supply.next.2.HasIssuedKeys (map.insert supply.next.1 value) := by
  intro id value' hid
  rw [KeyMap.get?_insert] at hid
  split at hid
  · next heq => exact heq ▸ hasIssued_next_self supply
  · exact (h id value' hid).next

/-- An id that was not handed out is free. -/
theorem get?_eq_none (h : supply.HasIssuedKeys map) {id : String} (hid : ¬ supply.HasIssued id) :
    map.get? id = none := by
  cases hget : map.get? id with
  | none => rfl
  | some value => exact absurd (h id value hget) hid

theorem get?_next_eq_none (h : supply.HasIssuedKeys map) : map.get? supply.next.1 = none :=
  h.get?_eq_none (not_hasIssued_next supply)

end HasIssuedKeys

end UserManagedAccess.IdSupply
