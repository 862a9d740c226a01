/-! Finite maps with text keys. The entries stand in strictly increasing key order, so two maps
with the same entries are equal. -/
namespace UserManagedAccess

namespace KeyMap
variable {α β : Type}

/-- Puts an entry at its place; an entry with the same key is replaced. -/
def insertEntry (key : String) (value : α) : List (String × α) → List (String × α)
  | [] => [(key, value)]
  | (k, v) :: rest =>
    if key < k then (key, value) :: (k, v) :: rest
    else if key = k then (key, value) :: rest
    else (k, v) :: insertEntry key value rest

/-- The value at the first entry with the key. -/
def findEntry (key : String) : List (String × α) → Option α
  | [] => none
  | (k, v) :: rest => if key = k then some v else findEntry key rest

/-- Entries in increasing key order; of entries with one key the last counts. -/
def sortEntries (entries : List (String × α)) : List (String × α) :=
  entries.foldl (fun sorted entry => insertEntry entry.1 entry.2 sorted) []

theorem fst_of_mem_insertEntry {key : String} {value : α} {entries : List (String × α)}
    {entry : String × α} (h : entry ∈ insertEntry key value entries) :
    entry = (key, value) ∨ entry ∈ entries := by
  induction entries with
  | nil => simpa [insertEntry] using h
  | cons head rest ih =>
    simp only [insertEntry] at h
    split at h
    · simpa using h
    · split at h
      · rcases List.mem_cons.mp h with h | h
        · exact .inl h
        · exact .inr (List.mem_cons_of_mem _ h)
      · rcases List.mem_cons.mp h with h | h
        · exact .inr (h ▸ List.mem_cons_self)
        · exact (ih h).imp id (List.mem_cons_of_mem _)

theorem pairwise_insertEntry (key : String) (value : α) {entries : List (String × α)}
    (h : entries.Pairwise (fun a b => a.1 < b.1)) :
    (insertEntry key value entries).Pairwise (fun a b => a.1 < b.1) := by
  induction entries with
  | nil => simp [insertEntry]
  | cons head rest ih =>
    obtain ⟨hhead, hrest⟩ := List.pairwise_cons.mp h
    simp only [insertEntry]
    split
    · next hlt =>
      refine List.pairwise_cons.mpr ⟨fun entry hentry => ?_, h⟩
      rcases List.mem_cons.mp hentry with rfl | hentry
      · exact hlt
      · exact String.lt_trans hlt (hhead entry hentry)
    · split
      · next heq =>
        subst heq
        exact List.pairwise_cons.mpr ⟨hhead, hrest⟩
      · next hge hne =>
        refine List.pairwise_cons.mpr ⟨fun entry hentry => ?_, ih hrest⟩
        rcases fst_of_mem_insertEntry hentry with rfl | hentry
        · grind
        · exact hhead entry hentry

end KeyMap

/-- A finite map from texts, its entries in strictly increasing key order. -/
structure KeyMap (α : Type) where
  entries : List (String × α)
  sorted : entries.Pairwise (fun a b => a.1 < b.1)
  deriving DecidableEq

namespace KeyMap
variable {α β : Type}

protected def empty : KeyMap α := ⟨[], .nil⟩

instance : EmptyCollection (KeyMap α) := ⟨KeyMap.empty⟩
instance : Inhabited (KeyMap α) := ⟨∅⟩

def get? (map : KeyMap α) (key : String) : Option α :=
  findEntry key map.entries

def contains (map : KeyMap α) (key : String) : Bool :=
  (map.get? key).isSome

def insert (map : KeyMap α) (key : String) (value : α) : KeyMap α :=
  ⟨insertEntry key value map.entries, pairwise_insertEntry key value map.sorted⟩

def erase (map : KeyMap α) (key : String) : KeyMap α :=
  ⟨map.entries.filter (fun entry => entry.1 != key), map.sorted.filter _⟩

def keys (map : KeyMap α) : List String := map.entries.map (·.1)

def values (map : KeyMap α) : List α := map.entries.map (·.2)

def size (map : KeyMap α) : Nat := map.entries.length

def isEmpty (map : KeyMap α) : Bool := map.entries.isEmpty

/-- Of entries with one key the last counts. -/
def ofList (entries : List (String × α)) : KeyMap α :=
  entries.foldl (fun map entry => map.insert entry.1 entry.2) ∅

/-- Maps each value together with its key; entries mapped to `none` are dropped. -/
def filterMap (f : String → α → Option β) (map : KeyMap α) : KeyMap β where
  entries := map.entries.filterMap fun entry => (f entry.1 entry.2).map (entry.1, ·)
  sorted := by
    rw [List.pairwise_filterMap]
    refine map.sorted.imp fun {a b} hab c hc d hd => ?_
    obtain ⟨_, _, rfl⟩ := Option.map_eq_some_iff.mp hc
    obtain ⟨_, _, rfl⟩ := Option.map_eq_some_iff.mp hd
    exact hab

end KeyMap

end UserManagedAccess
