import UserManagedAccess.Proofs.Rereading

/-! What holds of everything that is read, from whatever text or value it was read. -/
namespace UserManagedAccess.Json

namespace Decoder
variable {α : Type} {decoder : Decoder α} {P : α → Prop}

/-- All that is read has the property. -/
def Yields (decoder : Decoder α) (P : α → Prop) : Prop := ∀ d a, decoder d = .ok a → P a

theorem yields_true (decoder : Decoder α) : decoder.Yields fun _ => True := fun _ _ _ => trivial

theorem yields_json : json.Yields IsOrdered :=
  fun _ _ h => Document.isOrdered_of_toJson? (json_eq_ok h)

theorem Yields.items (h : decoder.Yields P) {ds : List Document} {closed : Bool} {values : List α}
    (hvalues : items decoder ds closed = .ok values) : ∀ value ∈ values, P value := by
  induction ds generalizing values with
  | nil =>
    cases closed <;> cases hvalues
    exact nofun
  | cons d ds ih =>
    obtain ⟨value, hvalue, hvalues⟩ := exists_of_bind_eq_ok hvalues
    obtain ⟨rest, hrest, hvalues⟩ := exists_of_bind_eq_ok hvalues
    cases hvalues
    exact List.forall_mem_cons.mpr ⟨h d value hvalue, ih hrest⟩

theorem Yields.list (h : decoder.Yields P) :
    (list decoder).Yields fun values => ∀ value ∈ values, P value := by
  intro d values hvalues
  cases d with
  | array ds closed => exact h.items hvalues
  | _ => cases hvalues

private theorem Yields.entries (h : decoder.Yields P) {members : List (Option String × Document)}
    {closed : Bool} {found : List (String × α)}
    (hfound : entries decoder members closed = .ok found) : ∀ entry ∈ found, P entry.2 := by
  induction members generalizing found with
  | nil =>
    cases closed <;> cases hfound
    exact nofun
  | cons member members ih =>
    obtain ⟨_ | name, d⟩ := member
    · cases hfound
    · obtain ⟨value, hvalue, hfound⟩ := exists_of_bind_eq_ok hfound
      obtain ⟨rest, hrest, hfound⟩ := exists_of_bind_eq_ok hfound
      cases hfound
      exact List.forall_mem_cons.mpr ⟨h d value hvalue, ih hrest⟩

theorem Yields.keyMap (h : decoder.Yields P) :
    (keyMap decoder).Yields fun map => ∀ entry ∈ map.entries, P entry.2 := by
  intro d map hmap entry hentry
  obtain ⟨members, closed, found, rfl, hfound, rfl⟩ := keyMap_eq_ok hmap
  rw [KeyMap.entries_ofList] at hentry
  exact h.entries hfound entry (KeyMap.mem_of_mem_sortEntries hentry)

end Decoder

namespace RecordDecoder
variable {α β : Type} {P : α → Prop} {Q : β → Prop}

/-- All that is made of what was found has the property. -/
def Yields (record : RecordDecoder α) (P : α → Prop) : Prop :=
  ∀ found a, record.build found = .ok a → P a

theorem Yields.seq {f : RecordDecoder (α → β)} {x : RecordDecoder α}
    (hf : f.Yields fun make => ∀ a, P a → Q (make a)) (hx : x.Yields P) : (f <*> x).Yields Q := by
  intro found b hb
  obtain ⟨make, a, hmake, ha, rfl⟩ := build_seq_eq_ok hb
  exact hf _ make hmake a (hx _ a ha)

theorem Yields.map {x : RecordDecoder α} {make : α → β} (hx : x.Yields P)
    (hmake : ∀ a, P a → Q (make a)) : (make <$> x).Yields Q := by
  refine Yields.seq (fun found f hf => ?_) hx
  cases hf
  exact hmake

section
variable {name : String} {decoder : Decoder α}

private theorem yields_field {names : List String} {missing : Option α} {optional : Bool}
    (h : decoder.Yields P) (hmissing : ∀ a, missing = some a → P a) :
    (field names decoder missing optional).Yields P := by
  intro found a ha
  simp only [field] at ha
  split at ha
  · next d _ => exact h d a ha
  · cases missing with
    | none => cases ha
    | some value =>
      cases ha
      exact hmissing a rfl

theorem yields_required (h : decoder.Yields P) : (required name decoder).Yields P :=
  yields_field h nofun

theorem yields_withDefault (h : decoder.Yields P) {default : α} (hdefault : P default) :
    (withDefault name decoder default).Yields P := by
  refine yields_field h fun a ha => ?_
  cases ha
  exact hdefault

end

/-- Whether it is read from an object or from an array, a record is made of what was found. -/
theorem Yields.decode {record : RecordDecoder α} (h : record.Yields P) : record.decode.Yields P := by
  intro d a ha
  cases d with
  | object members closed =>
    obtain ⟨found, -, ha⟩ := exists_of_bind_eq_ok ha
    exact h found a ha
  | array items closed =>
    obtain ⟨found, -, ha⟩ := exists_of_bind_eq_ok ha
    exact h found a ha
  | _ => cases ha

end RecordDecoder

end UserManagedAccess.Json
