import UserManagedAccess.Json.Decoder
import UserManagedAccess.Proofs.Fetching
import UserManagedAccess.Proofs.JsonReading
import UserManagedAccess.Proofs.KeyMap

/-! Values and records that are read as they were written. -/
namespace UserManagedAccess.Json

/-! ## Values -/

mutual

/-- The members of every object within the value stand in order. -/
def IsOrdered : Json → Prop
  | .array items => AreOrdered items
  | .object members => members.Pairwise (fun a b => a.1 < b.1) ∧ AreOrderedMembers members
  | _ => True

def AreOrdered : List Json → Prop
  | [] => True
  | item :: rest => IsOrdered item ∧ AreOrdered rest

def AreOrderedMembers : List (String × Json) → Prop
  | [] => True
  | (_, value) :: rest => IsOrdered value ∧ AreOrderedMembers rest

end

theorem areOrdered_iff {items : List Json} : AreOrdered items ↔ ∀ item ∈ items, item.IsOrdered := by
  induction items with
  | nil => simp [AreOrdered]
  | cons item rest ih => simp [AreOrdered, ih]

theorem areOrderedMembers_iff {members : List (String × Json)} :
    AreOrderedMembers members ↔ ∀ member ∈ members, member.2.IsOrdered := by
  induction members with
  | nil => simp [AreOrderedMembers]
  | cons member rest ih =>
    obtain ⟨name, value⟩ := member
    simp [AreOrderedMembers, ih]

namespace Document

mutual

/-- The tree of a value stands for the value. -/
theorem toJson?_ofJson : ∀ {v : Json}, v.IsOrdered → (ofJson v).toJson? = some v
  | .null, _ => rfl
  | .bool _, _ => rfl
  | .number _, _ => rfl
  | .string _, _ => rfl
  | .array items, h => by
    simp only [ofJson, toJson?, ↓reduceIte, toItems?_ofItems h, Option.map_some]
  | .object members, ⟨hsorted, h⟩ => by
    simp only [ofJson, toJson?, ↓reduceIte, toMembers?_ofMembers h, Option.map_some,
      Json.ofMembers, KeyMap.sortEntries_of_pairwise hsorted]

theorem toItems?_ofItems : ∀ {items : List Json}, AreOrdered items →
    toItems? (ofItems items) = some items
  | [], _ => rfl
  | item :: rest, ⟨hitem, hrest⟩ => by
    simp only [ofItems, toItems?, toJson?_ofJson hitem, toItems?_ofItems hrest]

theorem toMembers?_ofMembers : ∀ {members : List (String × Json)}, AreOrderedMembers members →
    toMembers? (ofMembers members) = some members
  | [], _ => rfl
  | (name, value) :: rest, ⟨hvalue, hrest⟩ => by
    simp only [ofMembers, toMembers?, toJson?_ofJson hvalue, toMembers?_ofMembers hrest]

end

mutual

/-- A value can be passed over. -/
theorem isWhole_ofJson : ∀ v : Json, (ofJson v).isWhole = true
  | .null => rfl
  | .bool _ => rfl
  | .number _ => rfl
  | .string _ => rfl
  | .array items => by simp only [ofJson, isWhole, areWhole_ofItems items, Bool.and_self]
  | .object members => by
    simp only [ofJson, isWhole, areWholeMembers_ofMembers members, Bool.and_self]

theorem areWhole_ofItems : ∀ items : List Json, areWhole (ofItems items) = true
  | [] => rfl
  | item :: rest => by
    simp only [ofItems, areWhole, isWhole_ofJson item, areWhole_ofItems rest, Bool.and_self]

theorem areWholeMembers_ofMembers : ∀ members : List (String × Json),
    areWholeMembers (ofMembers members) = true
  | [] => rfl
  | (_, value) :: rest => by
    simp only [ofMembers, areWholeMembers, isWhole_ofJson value, areWholeMembers_ofMembers rest,
      Bool.and_self]

end

end Document

/-- Values that are read as they are written, with at most so many arrays and objects within one
another. -/
structure WellFormed (levels : Nat) (v : Json) : Prop where
  readable : v.IsReadable
  ordered : v.IsOrdered
  height : v.height ≤ levels

theorem WellFormed.mono {levels levels' : Nat} {v : Json} (h : v.WellFormed levels)
    (hle : levels ≤ levels') : v.WellFormed levels' :=
  ⟨h.readable, h.ordered, Nat.le_trans h.height hle⟩

section
variable {levels : Nat}

theorem wellFormed_string (s : String) : WellFormed levels (.string s) :=
  ⟨trivial, trivial, Nat.zero_le _⟩

theorem wellFormed_ofInt {n : Int} (hlow : Word.signedLow ≤ n) (hhigh : n ≤ Word.high) :
    WellFormed levels (.ofInt n) :=
  ⟨Numeral.readsBack_whole hlow hhigh, trivial, Nat.zero_le _⟩

theorem wellFormed_array {items : List Json} (h : ∀ item ∈ items, WellFormed levels item) :
    WellFormed (levels + 1) (.array items) := by
  have hitems : AreReadable items ∧ AreOrdered items ∧ itemsHeight items ≤ levels := by
    induction items with
    | nil => exact ⟨trivial, trivial, Nat.zero_le _⟩
    | cons item rest ih =>
      obtain ⟨hitem, hrest⟩ := List.forall_mem_cons.mp h
      obtain ⟨hreadable, hordered, hheight⟩ := ih hrest
      exact ⟨⟨hitem.readable, hreadable⟩, ⟨hitem.ordered, hordered⟩,
        Nat.max_le.mpr ⟨hitem.height, hheight⟩⟩
  exact ⟨hitems.1, hitems.2.1, Nat.succ_le_succ hitems.2.2⟩

theorem wellFormed_object {members : List (String × Json)}
    (hsorted : members.Pairwise (fun a b => a.1 < b.1))
    (h : ∀ member ∈ members, WellFormed levels member.2) :
    WellFormed (levels + 1) (.object members) := by
  have hmembers : AreReadableMembers members ∧ AreOrderedMembers members ∧
      membersHeight members ≤ levels := by
    clear hsorted
    induction members with
    | nil => exact ⟨trivial, trivial, Nat.zero_le _⟩
    | cons member rest ih =>
      obtain ⟨hmember, hrest⟩ := List.forall_mem_cons.mp h
      obtain ⟨hreadable, hordered, hheight⟩ := ih hrest
      exact ⟨⟨hmember.readable, hreadable⟩, ⟨hmember.ordered, hordered⟩,
        Nat.max_le.mpr ⟨hmember.height, hheight⟩⟩
  exact ⟨hmembers.1, ⟨hsorted, hmembers.2.1⟩, Nat.succ_le_succ hmembers.2.2⟩

theorem wellFormed_ofMembers {members : List (String × Json)}
    (h : ∀ member ∈ members, WellFormed levels member.2) :
    WellFormed (levels + 1) (.ofMembers members) :=
  wellFormed_object (KeyMap.pairwise_sortEntries members)
    fun member hmember => h member (KeyMap.mem_of_mem_sortEntries hmember)

theorem wellFormed_ofSome {members : List (String × Option Json)}
    (h : ∀ member ∈ members, ∀ value, member.2 = some value → WellFormed levels value) :
    WellFormed (levels + 1) (.ofSome members) := by
  refine wellFormed_ofMembers fun member hmember => ?_
  obtain ⟨source, hsource, heq⟩ := List.mem_filterMap.mp hmember
  obtain ⟨value, hvalue, rfl⟩ := Option.map_eq_some_iff.mp heq
  exact h source hsource value hvalue

theorem wellFormed_strings (ss : List String) : WellFormed (levels + 1) (.strings ss) := by
  refine wellFormed_array fun item hitem => ?_
  obtain ⟨s, -, rfl⟩ := List.mem_map.mp hitem
  exact wellFormed_string s

end

/-- The text of a value is read as a tree that stands for the value. -/
theorem WellFormed.ofBytes_toText {v : Json} (h : v.WellFormed Document.maxDepth) :
    Document.ofBytes (Text.Utf8.encode v.toText) = Document.ofJson v :=
  Document.ofBytes_toText h.readable h.height

/-! ## Members that may hold nothing -/

private def present (members : List (String × Option Json)) : List (String × Json) :=
  members.filterMap fun member => member.2.map (member.1, ·)

private theorem nodup_present {members : List (String × Option Json)}
    (h : (members.map (·.1)).Nodup) : ((present members).map (·.1)).Nodup := by
  refine h.sublist ?_
  clear h
  induction members with
  | nil => exact .slnil
  | cons member rest ih =>
    obtain ⟨name, held⟩ := member
    cases held with
    | none => exact ih.cons name
    | some value => exact ih.cons_cons name

private theorem findEntry_present {members : List (String × Option Json)}
    (h : (members.map (·.1)).Nodup) (name : String) :
    KeyMap.findEntry name (present members) = (KeyMap.findEntry name members).join := by
  induction members with
  | nil => rfl
  | cons member rest ih =>
    obtain ⟨other, held⟩ := member
    obtain ⟨hother, hrest⟩ := List.nodup_cons.mp h
    have hnext := ih hrest
    cases held with
    | some value =>
      change KeyMap.findEntry name ((other, value) :: present rest) = _
      rw [KeyMap.findEntry, KeyMap.findEntry, hnext]
      split <;> rfl
    | none =>
      change KeyMap.findEntry name (present rest) = _
      rw [KeyMap.findEntry, hnext]
      split
      · next heq =>
        subst heq
        cases hfound : KeyMap.findEntry name rest with
        | none => rfl
        | some held => exact absurd (List.mem_map_of_mem (KeyMap.mem_of_findEntry hfound)) hother
      · rfl

/-- The map from the names of the members that hold something. -/
def mapOfSome (members : List (String × Option Json)) : KeyMap Json := .ofList (present members)

theorem ofSome_eq_ofKeyMap (members : List (String × Option Json)) :
    Json.ofSome members = .ofKeyMap (mapOfSome members) := by
  rw [ofKeyMap, mapOfSome, KeyMap.entries_ofList]
  rfl

theorem get?_mapOfSome {members : List (String × Option Json)} (h : (members.map (·.1)).Nodup)
    (name : String) : (mapOfSome members).get? name = (KeyMap.findEntry name members).join := by
  rw [← findEntry_present h, ← KeyMap.findEntry_sortEntries (nodup_present h),
    ← KeyMap.entries_ofList]
  rfl

/-- What an object holds under a name, if no name is given to it twice. -/
theorem member?_ofMembers {members : List (String × Json)} (h : (members.map (·.1)).Nodup)
    (name : String) : (Json.ofMembers members).member? name = KeyMap.findEntry name members :=
  KeyMap.findEntry_sortEntries h name

theorem member?_ofSome {members : List (String × Option Json)} (h : (members.map (·.1)).Nodup)
    (name : String) :
    (Json.ofSome members).member? name = (KeyMap.findEntry name members).join := by
  rw [ofSome_eq_ofKeyMap, ← get?_mapOfSome h]
  rfl

/-! ## Decoders -/

namespace Decoder
variable {α : Type}

theorem json_ofJson {v : Json} (h : v.IsOrdered) : json (Document.ofJson v) = .ok v := by
  rw [json, Document.toJson?_ofJson h]

theorem json_eq_ok {d : Document} {value : Json} (h : json d = .ok value) :
    d.toJson? = some value := by
  rw [json] at h
  split at h
  · next v hv =>
    cases h
    exact hv
  · cases h

theorem keyMap_eq_ok {α : Type} {decoder : Decoder α} {d : Document} {map : KeyMap α}
    (h : keyMap decoder d = .ok map) :
    ∃ members closed found, d = .object members closed ∧
      entries decoder members closed = .ok found ∧ map = KeyMap.ofList found := by
  cases d with
  | object members closed =>
    rw [keyMap] at h
    cases hentries : entries decoder members closed with
    | error e =>
      rw [hentries] at h
      cases h
    | ok found =>
      rw [hentries] at h
      cases h
      exact ⟨members, closed, found, rfl, hentries, rfl⟩
  | _ => cases h

theorem items_eq_ok_iff {decoder : Decoder α} {values : List Json} {found : List α} :
    items decoder (Document.ofItems values) true = .ok found ↔
      values.map (decodeWith decoder) = found.map some := by
  induction values generalizing found with
  | nil => cases found <;> simp [Document.ofItems, items]
  | cons value rest ih =>
    rw [Document.ofItems, items, List.map_cons]
    constructor
    · intro h
      obtain ⟨first, hfirst, h⟩ := exists_of_bind_eq_ok h
      obtain ⟨others, hothers, h⟩ := exists_of_bind_eq_ok h
      cases h
      rw [List.map_cons, ih.mp hothers, decodeWith, hfirst]
      rfl
    · intro h
      cases found with
      | nil => cases h
      | cons first others =>
        obtain ⟨hfirst, hothers⟩ := List.cons.inj h
        rw [toOption_eq_some_iff.mp hfirst, ih.mpr hothers]
        rfl

private theorem items_ofItems {decoder : Decoder α} {encode : α → Json} {values : List α}
    (h : ∀ value ∈ values, decoder (Document.ofJson (encode value)) = .ok value) :
    items decoder (Document.ofItems (values.map encode)) true = .ok values := by
  induction values with
  | nil => rfl
  | cons value rest ih =>
    obtain ⟨hvalue, hrest⟩ := List.forall_mem_cons.mp h
    rw [List.map_cons, Document.ofItems, items, hvalue, ih hrest]
    rfl

theorem list_ofJson {decoder : Decoder α} {encode : α → Json} {values : List α}
    (h : ∀ value ∈ values, decoder (Document.ofJson (encode value)) = .ok value) :
    list decoder (Document.ofJson (.array (values.map encode))) = .ok values :=
  items_ofItems h

theorem list_strings (ss : List String) :
    list string (Document.ofJson (.strings ss)) = .ok ss :=
  list_ofJson fun _ _ => rfl

theorem list_json {values : List Json} (h : ∀ value ∈ values, value.IsOrdered) :
    list json (Document.ofJson (.array values)) = .ok values := by
  have hread : list json (Document.ofJson (.array (values.map id))) = .ok values :=
    list_ofJson fun value hvalue => json_ofJson (h value hvalue)
  rwa [List.map_id] at hread

theorem option_ofJson {decoder : Decoder α} {v : Json} {value : α} (hnull : v ≠ .null)
    (hvalue : decoder (Document.ofJson v) = .ok value) :
    option decoder (Document.ofJson v) = .ok (some value) := by
  rw [option, hvalue]
  · rfl
  · intro heq
    cases v with
    | null => exact hnull rfl
    | _ => cases heq

private theorem entries_ofMembers {decoder : Decoder α} {encode : α → Json}
    {entries : List (String × α)}
    (h : ∀ entry ∈ entries, decoder (Document.ofJson (encode entry.2)) = .ok entry.2) :
    Decoder.entries decoder (Document.ofMembers (entries.map fun entry => (entry.1, encode entry.2)))
      true = .ok entries := by
  induction entries with
  | nil => rfl
  | cons entry rest ih =>
    obtain ⟨hentry, hrest⟩ := List.forall_mem_cons.mp h
    rw [List.map_cons, Document.ofMembers, Decoder.entries, hentry, ih hrest]
    rfl

/-- A map is read if each of its values is. -/
theorem keyMap_ofJson {decoder : Decoder α} {encode : α → Json} {map : KeyMap α}
    (h : ∀ entry ∈ map.entries, decoder (Document.ofJson (encode entry.2)) = .ok entry.2) :
    keyMap decoder (Document.ofJson (.ofKeyMap (map.filterMap fun _ value => some (encode value)))) =
      .ok map := by
  have hentries : (map.filterMap fun _ value => some (encode value)).entries =
      map.entries.map fun entry => (entry.1, encode entry.2) := by
    simp [KeyMap.filterMap, List.filterMap_eq_map']
  rw [ofKeyMap, Document.ofJson, keyMap, hentries, entries_ofMembers h]
  exact congrArg Except.ok (KeyMap.ofList_entries map)

theorem keyMap_ofKeyMap {map : KeyMap Json} (h : (Json.ofKeyMap map).IsOrdered) :
    keyMap json (Document.ofJson (.ofKeyMap map)) = .ok map := by
  have hread : keyMap json (Document.ofJson (.ofKeyMap (map.filterMap fun _ v => some (id v)))) =
      .ok map :=
    keyMap_ofJson fun entry hentry => json_ofJson (areOrderedMembers_iff.mp h.2 entry hentry)
  have hsame : (map.filterMap fun _ v => some (id v)) = map := by simp [KeyMap.filterMap]
  rwa [hsame] at hread

end Decoder

/-! ## Records -/

/-- The tree that is found for a field, given the values found under names. -/
def Field.found (look : String → Option Json) (field : Field) : Option Document :=
  (field.names.findSome? look).map Document.ofJson

namespace RecordDecoder
variable {α β : Type}

/-- No name belongs to two fields. -/
def AreSeparate (fields : List Field) : Prop :=
  fields.Pairwise fun a b => ∀ name ∈ a.names, name ∉ b.names

/-- What the fields hold once a member has been put where it belongs. -/
private def placed (name : String) (value : Document) (slots : Field → Option Document)
    (field : Field) : Option Document :=
  if field.names.contains name then some value else slots field

private theorem place_of_separate {fields : List Field} (hfields : AreSeparate fields)
    {name : String} {value : Document} {slots : Field → Option Document}
    (hfree : ∀ field ∈ fields, name ∈ field.names →
      slots field = none ∧ field.check value = .ok ()) :
    place name value fields (fields.map slots) =
      .ok (if fields.any (·.names.contains name) then some (fields.map (placed name value slots))
        else none) := by
  induction fields with
  | nil => rfl
  | cons field fields ih =>
    obtain ⟨hfield, hfields⟩ := List.pairwise_cons.mp hfields
    obtain ⟨hhead, hrest⟩ := List.forall_mem_cons.mp hfree
    by_cases hname : name ∈ field.names
    · obtain ⟨hslot, hcheck⟩ := hhead hname
      have hothers : ∀ other ∈ fields, slots other = placed name value slots other := by
        intro other hother
        simp [placed, hfield other hother name hname]
      have hplaced : placed name value slots field = some value := by simp [placed, hname]
      simp [place, hname, hslot, hcheck, hplaced, List.map_congr_left hothers]
    · have hkept : placed name value slots field = slots field := by simp [placed, hname]
      simp only [List.map_cons, List.any_cons, place, List.contains_iff_mem, hname, ↓reduceIte,
        ih hfields hrest, hkept]
      cases hany : fields.any (·.names.contains name) <;> simp [hname]

/-- No two members of an object belong to one field. -/
def AreApart (fields : List Field) (members : List (String × Json)) : Prop :=
  members.Pairwise fun a b => ∀ field ∈ fields, a.1 ∈ field.names → b.1 ∉ field.names

private theorem found_eq_none {field : Field} {members : List (String × Json)}
    (h : ∀ member ∈ members, member.1 ∉ field.names) :
    field.found (KeyMap.findEntry · members) = none := by
  rw [Field.found, Option.map_eq_none_iff, List.findSome?_eq_none_iff]
  intro name hname
  cases hfound : KeyMap.findEntry name members with
  | none => rfl
  | some value => exact absurd hname (h _ (KeyMap.mem_of_findEntry hfound))

private theorem found_cons_of_mem {field : Field} {name : String} (value : Json)
    {rest : List (String × Json)} (hname : name ∈ field.names)
    (hrest : ∀ member ∈ rest, member.1 ∉ field.names) :
    field.found (KeyMap.findEntry · ((name, value) :: rest)) = some (Document.ofJson value) := by
  rw [Field.found]
  cases hfound : field.names.findSome? (KeyMap.findEntry · ((name, value) :: rest)) with
  | none =>
    rw [List.findSome?_eq_none_iff] at hfound
    simpa [KeyMap.findEntry] using hfound name hname
  | some found =>
    obtain ⟨other, hother, hvalue⟩ := List.exists_of_findSome?_eq_some hfound
    rcases List.mem_cons.mp (KeyMap.mem_of_findEntry hvalue) with heq | hmem
    · cases heq
      rfl
    · exact absurd hother (hrest _ hmem)

private theorem findSome?_congr {names : List String} {f g : String → Option β}
    (h : ∀ name ∈ names, f name = g name) : names.findSome? f = names.findSome? g := by
  induction names with
  | nil => rfl
  | cons name names ih =>
    obtain ⟨hname, hnames⟩ := List.forall_mem_cons.mp h
    rw [List.findSome?_cons, List.findSome?_cons, hname, ih hnames]

private theorem found_cons_of_not_mem {field : Field} {name : String} (value : Json)
    (rest : List (String × Json)) (hname : name ∉ field.names) :
    field.found (KeyMap.findEntry · ((name, value) :: rest)) =
      field.found (KeyMap.findEntry · rest) := by
  have hsame : ∀ other ∈ field.names, KeyMap.findEntry other ((name, value) :: rest) =
      KeyMap.findEntry other rest := by
    intro other hother
    have hne : other ≠ name := fun heq => hname (heq ▸ hother)
    rw [KeyMap.findEntry, if_neg hne]
  rw [Field.found, Field.found, findSome?_congr hsame]

/-- A member is put with its field, or passed over if it has none. -/
private theorem collect_cons {fields : List Field} (hfields : AreSeparate fields) {name : String}
    {value : Json} (rest : List (String × Json)) {slots : Field → Option Document}
    (hfree : ∀ field ∈ fields, name ∈ field.names →
      slots field = none ∧ field.check (Document.ofJson value) = .ok ()) :
    collect fields (fields.map slots) (Document.ofMembers ((name, value) :: rest)) true =
      collect fields (fields.map (placed name (Document.ofJson value) slots))
        (Document.ofMembers rest) true := by
  rw [Document.ofMembers, collect, place_of_separate hfields hfree]
  cases hany : fields.any (·.names.contains name) with
  | true => rfl
  | false =>
    have hsame : fields.map (placed name (Document.ofJson value) slots) = fields.map slots := by
      refine List.map_congr_left fun field hfield => if_neg ?_
      exact List.any_eq_false.mp hany field hfield
    have hskip : Decoder.skip (Document.ofJson value) = .ok () := by
      rw [Decoder.skip, Document.isWhole_ofJson, if_pos rfl]
    simp only [Bool.false_eq_true, ↓reduceIte, hskip, hsame]

/-- Each member ends up with its field, and members that belong to no field are passed over. -/
private theorem collect_ofMembers {fields : List Field} (hfields : AreSeparate fields)
    {members : List (String × Json)} (hmembers : AreApart fields members)
    {slots : Field → Option Document}
    (hfree : ∀ field ∈ fields, ∀ member ∈ members, member.1 ∈ field.names →
      slots field = none ∧ field.check (Document.ofJson member.2) = .ok ()) :
    collect fields (fields.map slots) (Document.ofMembers members) true =
      .ok (fields.map fun field =>
        (field.found (KeyMap.findEntry · members)).or (slots field)) := by
  induction members generalizing slots with
  | nil =>
    have hnone (field : Field) : field.found (KeyMap.findEntry · []) = none :=
      found_eq_none nofun
    simp [Document.ofMembers, collect, hnone]
  | cons member rest ih =>
    obtain ⟨name, value⟩ := member
    obtain ⟨happart, hrest⟩ := List.pairwise_cons.mp hmembers
    have hplaced : ∀ field ∈ fields, ∀ member ∈ rest, member.1 ∈ field.names →
        placed name (Document.ofJson value) slots field = none ∧
          field.check (Document.ofJson member.2) = .ok () := by
      intro field hfield member hmember hname
      have hother : name ∉ field.names := fun h => happart member hmember field hfield h hname
      obtain ⟨hslot, hcheck⟩ := hfree field hfield member (List.mem_cons_of_mem _ hmember) hname
      exact ⟨by simp [placed, hother, hslot], hcheck⟩
    rw [collect_cons hfields rest fun field hfield =>
      hfree field hfield (name, value) List.mem_cons_self, ih hrest hplaced]
    refine congrArg Except.ok (List.map_congr_left fun field hfield => ?_)
    by_cases hname : name ∈ field.names
    · have hothers : ∀ other ∈ rest, other.1 ∉ field.names :=
        fun other hother => happart other hother field hfield hname
      rw [found_eq_none hothers, found_cons_of_mem value hname hothers]
      simp [placed, hname]
    · rw [found_cons_of_not_mem value rest hname]
      simp [placed, hname]

private theorem free_of_place {fields : List Field} (hfields : AreSeparate fields) {name : String}
    {value : Document} {slots : Field → Option Document}
    {placed? : Option (List (Option Document))}
    (h : place name value fields (fields.map slots) = .ok placed?) :
    ∀ field ∈ fields, name ∈ field.names → slots field = none ∧ field.check value = .ok () := by
  induction fields generalizing placed? with
  | nil => exact nofun
  | cons field fields ih =>
    obtain ⟨hfield, hfields⟩ := List.pairwise_cons.mp hfields
    rw [List.map_cons, place] at h
    by_cases hname : name ∈ field.names
    · have hothers : ∀ other ∈ fields, name ∈ other.names →
          slots other = none ∧ other.check value = .ok () :=
        fun other hother hmem => absurd hmem (hfield other hother name hname)
      rw [if_pos (List.contains_iff_mem.mpr hname)] at h
      refine List.forall_mem_cons.mpr ⟨fun _ => ?_, hothers⟩
      cases hslot : slots field with
      | some held => simp [hslot] at h
      | none =>
        cases hcheck : field.check value with
        | error e => simp [hslot, hcheck] at h
        | ok u => exact ⟨rfl, rfl⟩
    · rw [if_neg fun h => hname (List.contains_iff_mem.mp h)] at h
      cases hrest : place name value fields (fields.map slots) with
      | error e => simp [hrest] at h
      | ok out => exact List.forall_mem_cons.mpr ⟨fun hmem => absurd hmem hname, ih hfields hrest⟩

/-- What the fields hold in the end was given to them once. -/
private theorem apart_of_collect {fields : List Field} (hfields : AreSeparate fields)
    {members : List (String × Json)} {slots : Field → Option Document}
    {found : List (Option Document)}
    (h : collect fields (fields.map slots) (Document.ofMembers members) true = .ok found) :
    AreApart fields members ∧ ∀ field ∈ fields, ∀ member ∈ members, member.1 ∈ field.names →
      slots field = none ∧ field.check (Document.ofJson member.2) = .ok () := by
  induction members generalizing slots with
  | nil => exact ⟨.nil, fun _ _ => nofun⟩
  | cons member rest ih =>
    obtain ⟨name, value⟩ := member
    have hfree : ∀ field ∈ fields, name ∈ field.names →
        slots field = none ∧ field.check (Document.ofJson value) = .ok () := by
      cases hplace : place name (Document.ofJson value) fields (fields.map slots) with
      | error e =>
        rw [Document.ofMembers, collect, hplace] at h
        cases h
      | ok out => exact free_of_place hfields hplace
    rw [collect_cons hfields rest hfree] at h
    obtain ⟨happart, hrest⟩ := ih h
    refine ⟨List.pairwise_cons.mpr ⟨fun other hother field hfield hname hmem => ?_, happart⟩,
      fun field hfield => List.forall_mem_cons.mpr ⟨hfree field hfield, fun other hother hmem => ?_⟩⟩
    · obtain ⟨hslot, -⟩ := hrest field hfield other hother hmem
      simp [placed, hname] at hslot
    · obtain ⟨hslot, hcheck⟩ := hrest field hfield other hother hmem
      by_cases hname : name ∈ field.names
      · simp [placed, hname] at hslot
      · exact ⟨by simpa [placed, hname] using hslot, hcheck⟩

/-- The fields go by these names, each by one of its own. -/
def HasNames (record : RecordDecoder α) (names : List String) : Prop :=
  record.fields.map (·.names) = names.map ([·]) ∧ names.Nodup

section
variable {record : RecordDecoder α} {names : List String}

private theorem HasNames.separate (h : record.HasNames names) : AreSeparate record.fields := by
  obtain ⟨hnames, hdistinct⟩ := h
  have hpairs : (record.fields.map (·.names)).Pairwise fun a b => ∀ name ∈ a, name ∉ b := by
    rw [hnames, List.pairwise_map]
    refine hdistinct.imp fun hne name ha hb => hne ?_
    rw [← List.mem_singleton.mp ha, ← List.mem_singleton.mp hb]
  exact List.pairwise_map.mp hpairs

private theorem HasNames.eq_of_mem (h : record.HasNames names) {field : Field}
    (hfield : field ∈ record.fields) {a b : String} (ha : a ∈ field.names)
    (hb : b ∈ field.names) : a = b := by
  have hnames : field.names ∈ names.map ([·]) := h.1 ▸ List.mem_map_of_mem hfield
  obtain ⟨name, -, hname⟩ := List.mem_map.mp hnames
  rw [← hname] at ha hb
  rw [List.mem_singleton.mp ha, List.mem_singleton.mp hb]

end

/-- The values found under names are those of a record. -/
structure Finds (record : RecordDecoder α) (look : String → Option Json) (value : α) : Prop where
  checks : ∀ field ∈ record.fields, ∀ name ∈ field.names, ∀ v, look name = some v →
    field.check (Document.ofJson v) = .ok ()
  builds : record.build (record.fields.map (·.found look)) = .ok value

section
variable {look : String → Option Json}

theorem finds_pure (value : α) : (pure value : RecordDecoder α).Finds look value :=
  ⟨nofun, rfl⟩

theorem Finds.seq {f : RecordDecoder (α → β)} {x : RecordDecoder α} {make : α → β} {value : α}
    (hf : f.Finds look make) (hx : x.Finds look value) : (f <*> x).Finds look (make value) := by
  refine ⟨fun field hfield => ?_, ?_⟩
  · rcases List.mem_append.mp hfield with hfield | hfield
    · exact hf.checks field hfield
    · exact hx.checks field hfield
  · have hlength : f.fields.length = (f.fields.map (·.found look)).length := by simp
    change RecordDecoder.build (RecordDecoder.seq f x) ((f.fields ++ x.fields).map _) = _
    simp only [RecordDecoder.seq, List.map_append, hlength, List.take_left, List.drop_left,
      hf.builds, hx.builds]
    rfl

theorem Finds.map {x : RecordDecoder α} (make : α → β) {value : α} (hx : x.Finds look value) :
    (make <$> x).Finds look (make value) :=
  (finds_pure make).seq hx

variable {name : String} {decoder : Decoder α}

private theorem finds_field {missing : Option α} {optional : Bool} {value : α}
    (hvalue : ∀ v, look name = some v → decoder (Document.ofJson v) = .ok value)
    (hmissing : look name = none → missing = some value) :
    (field [name] decoder missing optional).Finds look value := by
  refine ⟨?_, ?_⟩
  · simp only [field, List.forall_mem_singleton]
    intro v hv
    rw [hvalue v hv]
    rfl
  · cases hlook : look name with
    | none => simp [field, Field.found, hlook, hmissing hlook]
    | some v => simp [field, Field.found, hlook, hvalue v hlook]

theorem finds_required {v : Json} {value : α} (hlook : look name = some v)
    (hvalue : decoder (Document.ofJson v) = .ok value) :
    (required name decoder).Finds look value := by
  refine finds_field (fun w hw => ?_) fun hnone => ?_
  · cases hlook.symm.trans hw
    exact hvalue
  · cases hlook.symm.trans hnone

section
variable {encode : α → Json} {value : Option α} (hlook : look name = value.map encode)
  (hvalue : ∀ a, value = some a →
    encode a ≠ .null ∧ decoder (Document.ofJson (encode a)) = .ok a)
include hlook hvalue

private theorem finds_option (optional : Bool) :
    (field [name] (Decoder.option decoder) (some none) optional).Finds look value := by
  refine finds_field (fun v hv => ?_) fun hnone => ?_
  · obtain ⟨a, rfl, rfl⟩ := Option.map_eq_some_iff.mp (hlook.symm.trans hv)
    obtain ⟨hnull, hread⟩ := hvalue a rfl
    exact Decoder.option_ofJson hnull hread
  · rw [Option.map_eq_none_iff.mp (hlook.symm.trans hnone)]

theorem finds_optional : (optional name decoder).Finds look value := finds_option hlook hvalue true

theorem finds_nullable : (nullable name decoder).Finds look value := finds_option hlook hvalue false

end

/-- `null` is found as nothing. -/
theorem finds_optional_null (hlook : look name = some .null) :
    (optional name decoder).Finds look none := by
  refine finds_field (fun v hv => ?_) fun _ => rfl
  cases hlook.symm.trans hv
  rfl

/-- A value that may be missing is found where it was written, with `null` for nothing. -/
theorem finds_optional_ofOption {encode : α → Json} {value : Option α}
    (hlook : look name = some (.ofOption encode value))
    (hvalue : ∀ a, value = some a →
      encode a ≠ .null ∧ decoder (Document.ofJson (encode a)) = .ok a) :
    (optional name decoder).Finds look value := by
  cases value with
  | none => exact finds_optional_null hlook
  | some a => exact finds_optional hlook hvalue

theorem finds_optional_string {value : Option String} (hlook : look name = value.map .string) :
    (optional name Decoder.string).Finds look value :=
  finds_optional hlook fun _ _ => ⟨nofun, rfl⟩

theorem finds_optional_ofOption_string {value : Option String}
    (hlook : look name = some (.ofOption .string value)) :
    (optional name Decoder.string).Finds look value :=
  finds_optional_ofOption hlook fun _ _ => ⟨nofun, rfl⟩

theorem finds_withDefault {default : α} {v : Json} {value : α} (hlook : look name = some v)
    (hvalue : decoder (Document.ofJson v) = .ok value) :
    (withDefault name decoder default).Finds look value := by
  refine finds_field (fun w hw => ?_) fun hnone => ?_
  · cases hlook.symm.trans hw
    exact hvalue
  · cases hlook.symm.trans hnone

end

/-! ### Objects -/

section
variable {record : RecordDecoder α} (names : List String) (hnames : record.HasNames names)
  {value : α}
include hnames

private theorem collect_object {members : List (String × Json)}
    (hsorted : members.Pairwise (fun a b => a.1 < b.1))
    (h : record.Finds (KeyMap.findEntry · members) value) :
    collect record.fields (record.fields.map fun _ => none) (Document.ofMembers members) true =
      .ok (record.fields.map (·.found (KeyMap.findEntry · members))) := by
  have hapart : AreApart record.fields members := by
    refine hsorted.imp fun {a b} hlt field hfield ha hb => ?_
    have heq := hnames.eq_of_mem hfield ha hb
    exact String.lt_irrefl _ (heq ▸ hlt)
  have hfree : ∀ field ∈ record.fields, ∀ member ∈ members, member.1 ∈ field.names →
      (none : Option Document) = none ∧ field.check (Document.ofJson member.2) = .ok () :=
    fun field hfield member hmember hname =>
      ⟨rfl, h.checks field hfield member.1 hname member.2 (KeyMap.findEntry_of_mem hsorted hmember)⟩
  simpa using collect_ofMembers hnames.separate hapart hfree

theorem decode_object {members : List (String × Json)}
    (hsorted : members.Pairwise (fun a b => a.1 < b.1))
    (h : record.Finds (KeyMap.findEntry · members) value) :
    record.decode (Document.ofJson (.object members)) = .ok value := by
  rw [Document.ofJson, decode, collect_object names hnames hsorted h]
  exact h.builds

theorem decode_ofMembers {members : List (String × Json)} (hdistinct : (members.map (·.1)).Nodup)
    (h : record.Finds (KeyMap.findEntry · members) value) :
    record.decode (Document.ofJson (.ofMembers members)) = .ok value := by
  refine decode_object names hnames (KeyMap.pairwise_sortEntries members) ?_
  simpa only [KeyMap.findEntry_sortEntries hdistinct] using h

theorem decode_ofSome {members : List (String × Option Json)}
    (hdistinct : (members.map (·.1)).Nodup)
    (h : record.Finds (fun name => (KeyMap.findEntry name members).join) value) :
    record.decode (Document.ofJson (.ofSome members)) = .ok value := by
  change record.decode (Document.ofJson (.ofMembers (present members))) = _
  refine decode_ofMembers names hnames (nodup_present hdistinct) ?_
  simpa only [findEntry_present hdistinct] using h

end

/-! ### Records that have been read -/

section
variable {record : RecordDecoder α} {value : α}

/-- A record that is read from an object was made of what the object holds under its names. -/
theorem build_of_decode_object (names : List String) (hnames : record.HasNames names)
    {members : List (String × Json)}
    (h : record.decode (Document.ofJson (.object members)) = .ok value) :
    record.build (names.map fun name => (KeyMap.findEntry name members).map Document.ofJson) =
      .ok value := by
  obtain ⟨found, hfound, hbuild⟩ := exists_of_bind_eq_ok h
  obtain ⟨happart, hfree⟩ := apart_of_collect hnames.separate hfound
  rw [collect_ofMembers hnames.separate happart hfree] at hfound
  cases hfound
  have hfields : record.fields.map (·.found (KeyMap.findEntry · members)) =
      (record.fields.map (·.names)).map fun names =>
        (names.findSome? (KeyMap.findEntry · members)).map Document.ofJson := by
    rw [List.map_map]
    rfl
  simpa [hfields, hnames.1, Function.comp_def] using hbuild

private theorem align_eq_ok {fields : List Field} {items : List Json}
    {found : List (Option Document)}
    (h : align fields (Document.ofItems items) true = .ok found) :
    items.length ≤ fields.length ∧
      found = (List.range fields.length).map fun i => items[i]?.map Document.ofJson := by
  induction fields generalizing items found with
  | nil =>
    cases items with
    | nil =>
      cases h
      exact ⟨Nat.le_refl _, rfl⟩
    | cons item rest => cases h
  | cons field fields ih =>
    rw [List.length_cons, List.range_succ_eq_map, List.map_cons, List.map_map]
    cases items with
    | nil =>
      rw [Document.ofItems, align] at h
      cases hoptional : field.optional with
      | false => simp [hoptional] at h
      | true =>
        simp only [hoptional, Bool.not_true, Bool.false_eq_true, ↓reduceIte] at h
        obtain ⟨rest, hrest, rfl⟩ := exists_of_map_eq_ok h
        obtain ⟨-, rfl⟩ := @ih [] rest hrest
        exact ⟨Nat.zero_le _, rfl⟩
    | cons item rest =>
      rw [Document.ofItems, align] at h
      cases hcheck : field.check (Document.ofJson item) with
      | error e => simp [hcheck] at h
      | ok u =>
        rw [hcheck] at h
        obtain ⟨found, hfound, rfl⟩ := exists_of_map_eq_ok h
        obtain ⟨hlength, rfl⟩ := ih hfound
        exact ⟨Nat.succ_le_succ hlength, rfl⟩

/-- A record that is read from an array was made of its items in their order; there are no others. -/
theorem build_of_decode_array {items : List Json}
    (h : record.decode (Document.ofJson (.array items)) = .ok value) :
    items.length ≤ record.fields.length ∧
      record.build ((List.range record.fields.length).map fun i =>
        items[i]?.map Document.ofJson) = .ok value := by
  obtain ⟨found, hfound, hbuild⟩ := exists_of_bind_eq_ok h
  obtain ⟨hlength, rfl⟩ := align_eq_ok hfound
  exact ⟨hlength, hbuild⟩

end

theorem build_seq_eq_ok {f : RecordDecoder (α → β)} {x : RecordDecoder α}
    {found : List (Option Document)} {b : β} (h : (f <*> x).build found = .ok b) :
    ∃ make a, f.build (found.take f.fields.length) = .ok make ∧
      x.build (found.drop f.fields.length) = .ok a ∧ b = make a := by
  obtain ⟨make, hmake, h⟩ := exists_of_bind_eq_ok h
  obtain ⟨a, ha, h⟩ := exists_of_bind_eq_ok h
  cases h
  exact ⟨make, a, hmake, ha, rfl⟩

section
variable {name : String} {decoder : Decoder α} {held : Option Json}
  {others : List (Option Document)}

theorem build_required_eq_ok {value : α}
    (h : (required name decoder).build (held.map Document.ofJson :: others) = .ok value) :
    ∃ v, held = some v ∧ decoder (Document.ofJson v) = .ok value := by
  cases held with
  | none => cases h
  | some v => exact ⟨v, rfl, h⟩

/-- What may be missing is missing, `null`, or read. -/
theorem build_optional_eq_ok {value : Option α}
    (h : (optional name decoder).build (held.map Document.ofJson :: others) = .ok value) :
    value = none ∧ (held = none ∨ held = some .null) ∨
      ∃ v a, held = some v ∧ decoder (Document.ofJson v) = .ok a ∧ value = some a := by
  cases held with
  | none =>
    cases h
    exact .inl ⟨rfl, .inl rfl⟩
  | some v =>
    change Decoder.option decoder (Document.ofJson v) = .ok value at h
    cases v with
    | null =>
      cases h
      exact .inl ⟨rfl, .inr rfl⟩
    | _ =>
      obtain ⟨a, ha, rfl⟩ := exists_of_map_eq_ok h
      exact .inr ⟨_, a, rfl, ha, rfl⟩

end

end RecordDecoder

end UserManagedAccess.Json
