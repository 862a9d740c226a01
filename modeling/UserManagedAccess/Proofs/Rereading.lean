import Mathlib.Data.List.Forall2
import UserManagedAccess.Proofs.Fetching
import UserManagedAccess.Proofs.Records

/-! Which values come back from their own text: those with readable numbers, with members in order,
and without too many levels. -/
namespace UserManagedAccess.Json

/-! ## Values that are read -/

namespace Document

mutual

/-- The members of what is read stand in order, however they stood in the text. -/
theorem isOrdered_of_toJson? : ∀ {d : Document} {v : Json}, d.toJson? = some v → v.IsOrdered
  | .null, _, h => by
    cases h
    trivial
  | .bool _, _, h => by
    cases h
    trivial
  | .number _, _, h => by
    cases h
    trivial
  | .string _, _, h => by
    cases h
    trivial
  | .array items closed, v, h => by
    rw [toJson?] at h
    split at h
    · obtain ⟨values, hvalues, rfl⟩ := Option.map_eq_some_iff.mp h
      exact areOrdered_of_toItems? hvalues
    · cases h
  | .object members closed, v, h => by
    rw [toJson?] at h
    split at h
    · obtain ⟨values, hvalues, rfl⟩ := Option.map_eq_some_iff.mp h
      have hordered := areOrderedMembers_iff.mp (areOrdered_of_toMembers? hvalues)
      exact ⟨KeyMap.pairwise_sortEntries values, areOrderedMembers_iff.mpr fun member hmember =>
        hordered member (KeyMap.mem_of_mem_sortEntries hmember)⟩
    · cases h
  | .unreadable, _, h => by cases h
  | .broken, _, h => by cases h

theorem areOrdered_of_toItems? : ∀ {items : List Document} {values : List Json},
    toItems? items = some values → AreOrdered values
  | [], _, h => by
    cases h
    trivial
  | item :: rest, values, h => by
    rw [toItems?] at h
    split at h
    · next hitem hrest =>
      cases h
      exact ⟨isOrdered_of_toJson? hitem, areOrdered_of_toItems? hrest⟩
    · cases h

theorem areOrdered_of_toMembers? : ∀ {members : List (Option String × Document)}
    {values : List (String × Json)}, toMembers? members = some values → AreOrderedMembers values
  | [], _, h => by
    cases h
    trivial
  | (some name, item) :: rest, values, h => by
    rw [toMembers?] at h
    split at h
    · next hitem hrest =>
      cases h
      exact ⟨isOrdered_of_toJson? hitem, areOrdered_of_toMembers? hrest⟩
    · cases h
  | (none, _) :: _, _, h => by cases h

end

private theorem toJson?_limited {depth : Nat} {d : Document} {v : Json}
    (h : (limited depth d).toJson? = some v) : depth < maxDepth ∧ d.toJson? = some v := by
  rw [limited] at h
  split at h
  · next hdepth => exact ⟨hdepth, h⟩
  · split at h <;> cases h

mutual

/-- If a value can be read from its text, then so can its numbers, and it is not too tall. -/
theorem reread?_of_toJson?_seen : ∀ {v w : Json} {depth : Nat}, depth ≤ maxDepth →
    (seen depth v).toJson? = some w → (reread? v).isSome = true ∧ depth + v.height ≤ maxDepth
  | .null, _, _, hdepth, _ => ⟨rfl, hdepth⟩
  | .bool _, _, _, hdepth, _ => ⟨rfl, hdepth⟩
  | .string _, _, _, hdepth, _ => ⟨rfl, hdepth⟩
  | .number n, _, _, hdepth, h => by
    rw [seen] at h
    rw [reread?]
    cases hwritten : Numeral.written n with
    | value found => exact ⟨rfl, hdepth⟩
    | tooLarge =>
      rw [hwritten] at h
      cases h
  | .array items, _, depth, _, h => by
    obtain ⟨hlt, h⟩ := toJson?_limited h
    obtain ⟨values, hvalues, -⟩ := Option.map_eq_some_iff.mp h
    obtain ⟨hread, hheight⟩ := rereadItems?_of_toItems?_seen (Nat.succ_le_of_lt hlt) hvalues
    rw [reread?, Option.isSome_map, height]
    exact ⟨hread, by omega⟩
  | .object members, _, depth, _, h => by
    obtain ⟨hlt, h⟩ := toJson?_limited h
    obtain ⟨values, hvalues, -⟩ := Option.map_eq_some_iff.mp h
    obtain ⟨hread, hheight⟩ := rereadMembers?_of_toMembers?_seen (Nat.succ_le_of_lt hlt) hvalues
    rw [reread?, Option.isSome_map, height]
    exact ⟨hread, by omega⟩

theorem rereadItems?_of_toItems?_seen : ∀ {items values : List Json} {depth : Nat},
    depth ≤ maxDepth → toItems? (seenItems depth items) = some values →
      (rereadItems? items).isSome = true ∧ depth + itemsHeight items ≤ maxDepth
  | [], _, _, hdepth, _ => ⟨rfl, hdepth⟩
  | item :: rest, values, depth, hdepth, h => by
    rw [seenItems, toItems?] at h
    split at h
    · next hitem hrest =>
      obtain ⟨hread, hheight⟩ := reread?_of_toJson?_seen hdepth hitem
      obtain ⟨hreads, hheights⟩ := rereadItems?_of_toItems?_seen hdepth hrest
      obtain ⟨found, hfound⟩ := Option.isSome_iff_exists.mp hread
      obtain ⟨others, hothers⟩ := Option.isSome_iff_exists.mp hreads
      rw [rereadItems?, hfound, hothers, itemsHeight]
      exact ⟨rfl, by omega⟩
    · cases h

theorem rereadMembers?_of_toMembers?_seen : ∀ {members values : List (String × Json)} {depth : Nat},
    depth ≤ maxDepth → toMembers? (seenMembers depth members) = some values →
      (rereadMembers? members).isSome = true ∧ depth + membersHeight members ≤ maxDepth
  | [], _, _, hdepth, _ => ⟨rfl, hdepth⟩
  | (name, value) :: rest, values, depth, hdepth, h => by
    rw [seenMembers, toMembers?] at h
    split at h
    · next hitem hrest =>
      obtain ⟨hread, hheight⟩ := reread?_of_toJson?_seen hdepth hitem
      obtain ⟨hreads, hheights⟩ := rereadMembers?_of_toMembers?_seen hdepth hrest
      obtain ⟨found, hfound⟩ := Option.isSome_iff_exists.mp hread
      obtain ⟨others, hothers⟩ := Option.isSome_iff_exists.mp hreads
      rw [rereadMembers?, hfound, hothers, membersHeight]
      exact ⟨rfl, by omega⟩
    · cases h

end

end Document

namespace Decoder

private theorem toMembers?_of_entries {members : List (Option String × Document)} {closed : Bool}
    {found : List (String × Json)} (h : entries json members closed = .ok found) :
    closed = true ∧ Document.toMembers? members = some found := by
  induction members generalizing found with
  | nil =>
    rw [entries] at h
    split at h <;> cases h
    exact ⟨‹_›, rfl⟩
  | cons member rest ih =>
    obtain ⟨_ | name, value⟩ := member
    · cases h
    · rw [entries] at h
      obtain ⟨v, hvalue, h⟩ := exists_of_bind_eq_ok h
      obtain ⟨others, hrest, h⟩ := exists_of_bind_eq_ok h
      cases h
      obtain ⟨hclosed, hothers⟩ := ih hrest
      exact ⟨hclosed, by rw [Document.toMembers?, json_eq_ok hvalue, hothers]⟩

/-- No object is read from a text that holds no value. -/
theorem exists_keyMap_eq_error {text : String} (h : ofText? text = none) :
    ∃ e, keyMap json (Document.ofBytes (Text.Utf8.encode text)) = .error e := by
  rw [ofText?, Document.ofText] at h
  generalize Document.ofBytes (Text.Utf8.encode text) = d at h
  cases hread : keyMap json d with
  | error e => exact ⟨e, rfl⟩
  | ok map =>
    obtain ⟨members, closed, found, rfl, hfound, -⟩ := keyMap_eq_ok hread
    obtain ⟨rfl, hmembers⟩ := toMembers?_of_entries hfound
    rw [Document.toJson?, if_pos rfl, hmembers] at h
    cases h

end Decoder

/-! ## Order -/

/-- The two have the same names, and what is found under each of them is read as the other. -/
def AreReread (members found : List (String × Json)) : Prop :=
  List.Forall₂ (fun a b => a.1 = b.1 ∧ a.2.reread? = some b.2) members found

theorem rereadMembers?_eq_some_iff {members found : List (String × Json)} :
    rereadMembers? members = some found ↔ AreReread members found := by
  induction members generalizing found with
  | nil => simp [rereadMembers?, AreReread, eq_comm]
  | cons member rest ih =>
    obtain ⟨name, value⟩ := member
    rw [rereadMembers?, AreReread, List.forall₂_cons_left_iff]
    constructor
    · intro h
      split at h
      · next value' others hvalue hrest =>
        cases h
        exact ⟨(name, value'), others, ⟨rfl, hvalue⟩, ih.mp hrest, rfl⟩
      · cases h
    · rintro ⟨⟨_, value'⟩, others, ⟨rfl, hvalue⟩, hothers, rfl⟩
      simp only at hvalue
      rw [hvalue, ih.mpr hothers]

theorem AreReread.map_fst_eq {members found : List (String × Json)} (h : AreReread members found) :
    members.map (·.1) = found.map (·.1) := by
  induction h with
  | nil => rfl
  | cons hhead _ ih => rw [List.map_cons, List.map_cons, hhead.1, ih]

mutual

/-- Numbers change nothing about the order. -/
theorem isOrdered_of_reread? : ∀ {v w : Json}, reread? v = some w → v.IsOrdered → w.IsOrdered
  | .null, _, h, _ => by
    cases h
    trivial
  | .bool _, _, h, _ => by
    cases h
    trivial
  | .string _, _, h, _ => by
    cases h
    trivial
  | .number n, _, h, _ => by
    rw [reread?] at h
    split at h <;> cases h
    trivial
  | .array items, _, h, hordered => by
    obtain ⟨found, hfound, rfl⟩ := Option.map_eq_some_iff.mp h
    exact areOrdered_of_rereadItems? hfound hordered
  | .object members, _, h, ⟨hsorted, hordered⟩ => by
    obtain ⟨found, hfound, rfl⟩ := Option.map_eq_some_iff.mp h
    have hnames := (rereadMembers?_eq_some_iff.mp hfound).map_fst_eq
    refine ⟨?_, areOrderedMembers_of_rereadMembers? hfound hordered⟩
    rw [← List.pairwise_map (f := Prod.fst) (R := (· < ·))] at hsorted ⊢
    rwa [← hnames]

theorem areOrdered_of_rereadItems? : ∀ {items found : List Json},
    rereadItems? items = some found → AreOrdered items → AreOrdered found
  | [], _, h, _ => by
    cases h
    trivial
  | item :: rest, found, h, ⟨hitem, hrest⟩ => by
    rw [rereadItems?] at h
    split at h
    · next hfound hothers =>
      cases h
      exact ⟨isOrdered_of_reread? hfound hitem, areOrdered_of_rereadItems? hothers hrest⟩
    · cases h

theorem areOrderedMembers_of_rereadMembers? : ∀ {members found : List (String × Json)},
    rereadMembers? members = some found → AreOrderedMembers members → AreOrderedMembers found
  | [], _, h, _ => by
    cases h
    trivial
  | (name, value) :: rest, found, h, ⟨hvalue, hrest⟩ => by
    rw [rereadMembers?] at h
    split at h
    · next hfound hothers =>
      cases h
      exact ⟨isOrdered_of_reread? hfound hvalue, areOrderedMembers_of_rereadMembers? hothers hrest⟩
    · cases h

end

/-! ## The text of a value -/

theorem ofText?_toText_of_deep {v : Json} (h : Document.maxDepth < v.height) :
    ofText? v.toText = none := by
  rw [ofText?, Document.ofText, Document.ofBytes_toText_eq_seen]
  refine Option.eq_none_iff_forall_ne_some.mpr fun found hfound => ?_
  have hdepth := (Document.reread?_of_toJson?_seen (Nat.zero_le _) hfound).2
  omega

/-- A value whose members stand in order is read from its text with its numbers as they are read,
unless it stands too deep. -/
theorem ofText?_toText {v : Json} (h : v.IsOrdered) :
    ofText? v.toText = if v.height ≤ Document.maxDepth then v.reread? else none := by
  split
  · next hheight =>
    rw [ofText?, Document.ofText, Document.ofBytes_toText_eq_seen]
    cases hread : v.reread? with
    | some found =>
      rw [Document.seen_of_reread? hread (by omega),
        Document.toJson?_ofJson (isOrdered_of_reread? hread h)]
    | none =>
      refine Option.eq_none_iff_forall_ne_some.mpr fun found hfound => ?_
      have hread' := (Document.reread?_of_toJson?_seen (Nat.zero_le _) hfound).1
      rw [hread] at hread'
      cases hread'
  · next hheight => exact ofText?_toText_of_deep (Nat.lt_of_not_le hheight)

/-- A value comes back from its text exactly if its numbers are read as they are written, its
members stand in order, and it does not stand too deep. -/
theorem ofText?_toText_eq_some_iff {v : Json} :
    ofText? v.toText = some v ↔ v.WellFormed Document.maxDepth := by
  constructor
  · intro h
    have hordered : v.IsOrdered := Document.isOrdered_of_toJson? h
    rw [ofText?_toText hordered] at h
    split at h
    · next hheight => exact ⟨reread?_eq_self_iff.mp h, hordered, hheight⟩
    · cases h
  · intro h
    rw [ofText?_toText h.ordered, if_pos h.height, reread?_eq_self_iff.mpr h.readable]

/-! ## Objects -/

theorem membersHeight_le_iff {members : List (String × Json)} {levels : Nat} :
    membersHeight members ≤ levels ↔ ∀ member ∈ members, member.2.height ≤ levels := by
  induction members with
  | nil => simp [membersHeight]
  | cons member rest ih =>
    obtain ⟨name, value⟩ := member
    rw [membersHeight, Nat.max_le, ih, List.forall_mem_cons]

/-- What an object holds stands lower than the object. -/
theorem height_lt_of_get? {map : KeyMap Json} {name : String} {v : Json}
    (h : map.get? name = some v) : v.height < (Json.ofKeyMap map).height := by
  have hmem := KeyMap.get?_eq_some_iff_mem.mp h
  rw [ofKeyMap, height]
  exact Nat.lt_succ_of_le (membersHeight_le_iff.mp (Nat.le_refl _) _ hmem)

/-- The two have the same names, and what the one holds under each of them is read as what the other
holds there. -/
def AreMembersReread (members found : List (String × Option Json)) : Prop :=
  List.Forall₂ (fun a b => a.1 = b.1 ∧ Option.Rel (fun v w => v.reread? = some w) a.2 b.2) members
    found

section
variable {members found : List (String × Option Json)}

theorem areMembersReread_self {levels : Nat}
    (h : ∀ member ∈ members, ∀ v, member.2 = some v → v.WellFormed levels) :
    AreMembersReread members members := by
  refine List.forall₂_same.mpr fun member hmember => ⟨rfl, ?_⟩
  cases hheld : member.2 with
  | none => exact .none
  | some v => exact .some (reread?_eq_self_iff.mpr (h member hmember v hheld).readable)

private theorem mem_of_mem_ofSome {member : String × Json}
    (h : member ∈ KeyMap.sortEntries (members.filterMap fun m => m.2.map (m.1, ·))) :
    ∃ source ∈ members, source.2 = some member.2 := by
  obtain ⟨source, hsource, heq⟩ := List.mem_filterMap.mp (KeyMap.mem_of_mem_sortEntries h)
  obtain ⟨value, hvalue, rfl⟩ := Option.map_eq_some_iff.mp heq
  exact ⟨source, hsource, hvalue⟩

theorem isOrdered_ofSome (h : ∀ member ∈ members, ∀ v, member.2 = some v → v.IsOrdered) :
    (Json.ofSome members).IsOrdered := by
  refine ⟨KeyMap.pairwise_sortEntries _, areOrderedMembers_iff.mpr fun member hmember => ?_⟩
  obtain ⟨source, hsource, hvalue⟩ := mem_of_mem_ofSome hmember
  exact h source hsource _ hvalue

theorem height_ofSome_le {levels : Nat}
    (h : ∀ member ∈ members, ∀ v, member.2 = some v → v.height ≤ levels) :
    (Json.ofSome members).height ≤ levels + 1 := by
  refine Nat.succ_le_succ (membersHeight_le_iff.mpr fun member hmember => ?_)
  obtain ⟨source, hsource, hvalue⟩ := mem_of_mem_ofSome hmember
  exact h source hsource _ hvalue

private theorem AreReread.insertEntry {members found : List (String × Json)}
    (h : AreReread members found) {v w : Json} (hv : v.reread? = some w) (name : String) :
    AreReread (KeyMap.insertEntry name v members) (KeyMap.insertEntry name w found) := by
  induction h with
  | nil => exact .cons ⟨rfl, hv⟩ .nil
  | @cons a b _ _ hhead hrest ih =>
    obtain ⟨k, _⟩ := a
    obtain ⟨_, _⟩ := b
    obtain ⟨rfl, hvalue⟩ := hhead
    simp only [KeyMap.insertEntry]
    split
    · exact .cons ⟨rfl, hv⟩ (.cons ⟨rfl, hvalue⟩ hrest)
    · split
      · exact .cons ⟨rfl, hv⟩ hrest
      · exact .cons ⟨rfl, hvalue⟩ ih

theorem AreReread.sortEntries {members found : List (String × Json)}
    (h : AreReread members found) :
    AreReread (KeyMap.sortEntries members) (KeyMap.sortEntries found) := by
  refine List.rel_foldl (P := AreReread) ?_ .nil h
  rintro sorted sorted' hsorted ⟨name, v⟩ ⟨_, w⟩ ⟨rfl, hv⟩
  exact hsorted.insertEntry hv name

/-- An object is read with what it holds as that is read. -/
theorem reread?_ofSome (h : AreMembersReread members found) :
    (Json.ofSome members).reread? = some (.ofSome found) := by
  have hpresent : AreReread (members.filterMap fun m => m.2.map (m.1, ·))
      (found.filterMap fun m => m.2.map (m.1, ·)) := by
    induction h with
    | nil => exact .nil
    | @cons a b _ _ hhead _ ih =>
      obtain ⟨name, v⟩ := a
      obtain ⟨_, w⟩ := b
      obtain ⟨rfl, hvalue⟩ := hhead
      cases hvalue with
      | none => exact ih
      | some hread => exact .cons ⟨rfl, hread⟩ ih
  rw [ofSome, ofMembers, reread?, rereadMembers?_eq_some_iff.mpr hpresent.sortEntries]
  rfl

end

end UserManagedAccess.Json
