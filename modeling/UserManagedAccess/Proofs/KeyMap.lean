import UserManagedAccess.KeyMap

/-! Finite maps seen through their look-ups: what each operation does to the value found under a
key, and that look-ups tell two maps apart. -/
namespace UserManagedAccess.KeyMap
variable {α β : Type}

theorem insertEntry_nil (key : String) (value : α) : insertEntry key value [] = [(key, value)] :=
  rfl

theorem insertEntry_of_lt {key k : String} (h : key < k) (value v : α)
    (rest : List (String × α)) :
    insertEntry key value ((k, v) :: rest) = (key, value) :: (k, v) :: rest := by
  rw [insertEntry, if_pos h]

theorem findEntry_insertEntry (key : String) (value : α) (k : String)
    (entries : List (String × α)) :
    findEntry k (insertEntry key value entries) =
      if k = key then some value else findEntry k entries := by
  induction entries with
  | nil => simp [insertEntry, findEntry]
  | cons head rest ih =>
    obtain ⟨k₀, v₀⟩ := head
    simp only [insertEntry]
    split
    · simp [findEntry]
    · split
      · next heq => subst heq; by_cases hk : k = key <;> simp [findEntry, hk]
      · next hne =>
        by_cases hk : k = k₀
        · subst hk; simp [findEntry, Ne.symm hne]
        · simp [findEntry, hk, ih]

/-- Entries that are chosen by their keys are found as before. -/
theorem findEntry_filter (q : String → Bool) (k : String) (entries : List (String × α)) :
    findEntry k (entries.filter fun entry => q entry.1) =
      if q k = true then findEntry k entries else none := by
  induction entries with
  | nil => simp [findEntry]
  | cons head rest ih =>
    obtain ⟨k₀, v₀⟩ := head
    by_cases hkeep : q k₀ = true
    · simp only [List.filter_cons, hkeep, ↓reduceIte, findEntry, ih]
      by_cases hk : k = k₀
      · subst hk; simp [hkeep]
      · simp [hk]
    · simp only [List.filter_cons, hkeep, Bool.false_eq_true, ↓reduceIte, ih, findEntry]
      by_cases hk : k = k₀
      · subst hk; simp [hkeep]
      · simp [hk]

theorem mem_of_findEntry {key : String} {value : α} {entries : List (String × α)}
    (h : findEntry key entries = some value) : (key, value) ∈ entries := by
  induction entries with
  | nil => cases h
  | cons head rest ih =>
    simp only [findEntry] at h
    split at h
    · next heq =>
      cases h
      subst heq
      exact List.mem_cons_self
    · exact List.mem_cons_of_mem _ (ih h)

theorem findEntry_of_mem {key : String} {value : α} {entries : List (String × α)}
    (hs : entries.Pairwise (fun a b => a.1 < b.1)) (h : (key, value) ∈ entries) :
    findEntry key entries = some value := by
  induction entries with
  | nil => cases h
  | cons head rest ih =>
    obtain ⟨hhead, hrest⟩ := List.pairwise_cons.mp hs
    rcases List.mem_cons.mp h with rfl | h
    · simp [findEntry]
    · have hlt := hhead _ h
      have hne : key ≠ head.1 := fun heq => String.lt_irrefl _ (heq ▸ hlt)
      simp only [findEntry, hne, ↓reduceIte]
      exact ih hrest h

@[simp] theorem get?_empty (key : String) : (∅ : KeyMap α).get? key = none := rfl

theorem get?_insert (map : KeyMap α) (key : String) (value : α) (k : String) :
    (map.insert key value).get? k = if k = key then some value else map.get? k :=
  findEntry_insertEntry key value k map.entries

@[simp] theorem get?_insert_self (map : KeyMap α) (key : String) (value : α) :
    (map.insert key value).get? key = some value := by
  simp [get?_insert]

theorem get?_insert_of_ne (map : KeyMap α) {key k : String} (value : α) (h : k ≠ key) :
    (map.insert key value).get? k = map.get? k := by
  simp [get?_insert, h]

theorem get?_erase (map : KeyMap α) (key k : String) :
    (map.erase key).get? k = if k = key then none else map.get? k := by
  have hfound : (map.erase key).get? k = _ := findEntry_filter (· != key) k map.entries
  rw [hfound]
  by_cases hk : k = key <;> simp [hk, get?]

theorem get?_eq_some_iff_mem {map : KeyMap α} {key : String} {value : α} :
    map.get? key = some value ↔ (key, value) ∈ map.entries :=
  ⟨mem_of_findEntry, findEntry_of_mem map.sorted⟩

@[simp] theorem contains_eq (map : KeyMap α) (key : String) :
    map.contains key = (map.get? key).isSome := rfl

theorem get?_filterMap (f : String → α → Option β) (map : KeyMap α) (key : String) :
    (map.filterMap f).get? key = (map.get? key).bind (f key) := by
  apply Option.ext
  intro value
  rw [get?_eq_some_iff_mem]
  simp only [filterMap, List.mem_filterMap, Option.map_eq_some_iff, Option.bind_eq_some_iff,
    get?_eq_some_iff_mem]
  constructor
  · rintro ⟨⟨k, v⟩, hmem, w, hw, heq⟩
    cases heq
    exact ⟨v, hmem, hw⟩
  · rintro ⟨v, hmem, hv⟩
    exact ⟨(key, v), hmem, value, hv, rfl⟩

/-- Maps with the same look-ups are equal: the order of the entries leaves no choice. -/
theorem ext_get? {a b : KeyMap α} (h : ∀ key, a.get? key = b.get? key) : a = b := by
  have hmem : ∀ entry, entry ∈ a.entries ↔ entry ∈ b.entries := by
    rintro ⟨key, value⟩
    rw [← get?_eq_some_iff_mem, ← get?_eq_some_iff_mem, h key]
  have distinct (c : KeyMap α) : c.entries.Nodup := by
    refine c.sorted.imp ?_
    rintro x y hlt rfl
    exact String.lt_irrefl _ hlt
  have hperm := (List.perm_ext_iff_of_nodup (distinct a) (distinct b)).mpr hmem
  obtain ⟨entries, sorted⟩ := a
  obtain ⟨entries', sorted'⟩ := b
  have heq : entries = entries' := by
    refine hperm.eq_of_pairwise (fun x y _ _ hxy hyx => ?_) sorted sorted'
    exact absurd (String.lt_trans hxy hyx) (String.lt_irrefl _)
  subst heq
  rfl

private theorem get?_foldl_insert (entries : List (String × α)) (map : KeyMap α) (key : String) :
    (entries.foldl (fun map entry => map.insert entry.1 entry.2) map).get? key =
      ((entries.filter (·.1 == key)).getLast?.map (·.2)).or (map.get? key) := by
  induction entries generalizing map with
  | nil => rfl
  | cons entry rest ih =>
    rw [List.foldl_cons, ih, get?_insert]
    by_cases hkey : key = entry.1
    · subst hkey
      cases hrest : (rest.filter (·.1 == entry.1)).getLast? <;> simp [List.getLast?_cons, hrest]
    · have hother : (entry.1 == key) = false := beq_false_of_ne (Ne.symm hkey)
      simp [hkey, hother]

/-- Of entries with one key the last is found. -/
theorem get?_ofList (entries : List (String × α)) (key : String) :
    (ofList entries).get? key = (entries.filter (·.1 == key)).getLast?.map (·.2) := by
  rw [ofList, get?_foldl_insert, get?_empty, Option.or_none]

/-! ## Entries in order -/

private theorem entries_foldl_insert (entries : List (String × α)) (map : KeyMap α) :
    (entries.foldl (fun map entry => map.insert entry.1 entry.2) map).entries =
      entries.foldl (fun sorted entry => insertEntry entry.1 entry.2 sorted) map.entries := by
  induction entries generalizing map with
  | nil => rfl
  | cons entry rest ih =>
    rw [List.foldl_cons, List.foldl_cons, ih]
    rfl

theorem entries_ofList (entries : List (String × α)) :
    (ofList entries).entries = sortEntries entries :=
  entries_foldl_insert entries ∅

theorem pairwise_sortEntries (entries : List (String × α)) :
    (sortEntries entries).Pairwise (fun a b => a.1 < b.1) := by
  rw [← entries_ofList]
  exact (ofList entries).sorted

/-- No key stands in two entries. -/
theorem nodup_keys {entries : List (String × α)} (h : entries.Pairwise (fun a b => a.1 < b.1)) :
    (entries.map (·.1)).Nodup := by
  refine List.pairwise_map.mpr (h.imp ?_)
  intro a b hlt heq
  exact String.lt_irrefl _ (heq ▸ hlt)

/-- Without repeated keys there is one entry with a key at most, the one that is found. -/
theorem filter_key_eq {entries : List (String × α)} (h : (entries.map (·.1)).Nodup)
    (key : String) :
    entries.filter (·.1 == key) = ((findEntry key entries).map (key, ·)).toList := by
  induction entries with
  | nil => rfl
  | cons entry rest ih =>
    obtain ⟨k, value⟩ := entry
    obtain ⟨hentry, hrest⟩ := List.nodup_cons.mp h
    by_cases hkey : key = k
    · subst hkey
      have hother : rest.filter (·.1 == key) = [] := by
        refine List.filter_eq_nil_iff.mpr fun other hother heq => hentry ?_
        exact List.mem_map.mpr ⟨other, hother, beq_iff_eq.mp heq⟩
      simp [findEntry, hother]
    · have hother : (k == key) = false := beq_false_of_ne (Ne.symm hkey)
      simp [findEntry, hkey, hother, ih hrest]

private theorem findEntry_eq_getLast? {entries : List (String × α)}
    (h : (entries.map (·.1)).Nodup) (key : String) :
    findEntry key entries = (entries.filter (·.1 == key)).getLast?.map (·.2) := by
  rw [filter_key_eq h]
  cases findEntry key entries <;> rfl

theorem findEntry_sortEntries {entries : List (String × α)} (h : (entries.map (·.1)).Nodup)
    (key : String) : findEntry key (sortEntries entries) = findEntry key entries := by
  rw [findEntry_eq_getLast? h, ← get?_ofList, ← entries_ofList]
  rfl

/-- Entries that stand in order stay as they are. -/
theorem sortEntries_of_pairwise {entries : List (String × α)}
    (h : entries.Pairwise (fun a b => a.1 < b.1)) : sortEntries entries = entries := by
  have hsame : ofList entries = ⟨entries, h⟩ := by
    refine ext_get? fun key => ?_
    rw [get?_ofList, ← findEntry_eq_getLast? (nodup_keys h)]
    rfl
  rw [← entries_ofList, hsame]

/-- A map is made of its entries. -/
theorem ofList_entries (map : KeyMap α) : ofList map.entries = map := by
  refine ext_get? fun key => ?_
  change findEntry key (ofList map.entries).entries = findEntry key map.entries
  rw [entries_ofList, sortEntries_of_pairwise map.sorted]

theorem mem_of_mem_sortEntries {entries : List (String × α)} {entry : String × α}
    (h : entry ∈ sortEntries entries) : entry ∈ entries := by
  have hfound := findEntry_of_mem (pairwise_sortEntries entries) h
  rw [← entries_ofList] at hfound
  change (ofList entries).get? entry.1 = some entry.2 at hfound
  rw [get?_ofList] at hfound
  obtain ⟨found, hlast, hvalue⟩ := Option.map_eq_some_iff.mp hfound
  obtain ⟨hmem, hkey⟩ := List.mem_filter.mp (List.mem_of_getLast? hlast)
  have heq : found = entry := Prod.ext (beq_iff_eq.mp hkey) hvalue
  exact heq ▸ hmem

end UserManagedAccess.KeyMap
