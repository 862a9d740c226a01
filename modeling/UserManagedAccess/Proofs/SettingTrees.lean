import UserManagedAccess.Proofs.KeyMap
import UserManagedAccess.Settings.Loading

/-! Where a value ends up in a tree of settings. A value that is laid over a place is found there
afterwards, and what is laid over other places leaves it there or puts something inside of it. -/
namespace UserManagedAccess

namespace SettingTree

/-- The value at a place in tables within one another. -/
def find? : (place : List String) → SettingTree → Option SettingTree
  | [], tree => some tree
  | name :: place, tree => (KeyMap.findEntry name tree.entries).bind (find? place)

/-- A table or a list, which no setting that is one value is made from. -/
def isCompound : SettingTree → Bool
  | .table _ | .list _ => true
  | _ => false

theorem overlay_of_not_isCompound {value : SettingTree} (h : value.isCompound = false)
    (old : SettingTree) : overlay value old = value := by
  cases value <;> first | rfl | cases h

end SettingTree

namespace SettingStep

/-- A path that does not lead to the place or to a table around it, and makes no list of such a
table. -/
def Spares : (path : List SettingStep) → (place : List String) → Prop
  | [], _ => False
  | _ :: _, [] => True
  | .key name :: path, name' :: place => name = name' → Spares path place
  | .index _ :: _, _ :: _ => False

end SettingStep

namespace SettingTree
variable {place : List String} {tree value x : SettingTree}

theorem find?_cons_eq_some {name : String} : tree.find? (name :: place) = some x ↔
    ∃ below, KeyMap.findEntry name tree.entries = some below ∧ below.find? place = some x :=
  Option.bind_eq_some_iff

theorem findEntry_put_key (key : String) (path : List SettingStep) (value tree : SettingTree)
    (name : String) : KeyMap.findEntry name (put (.key key :: path) value tree).entries =
      if name = key then some (put path value ((KeyMap.findEntry key tree.entries).getD .absent))
      else KeyMap.findEntry name tree.entries :=
  KeyMap.findEntry_insertEntry ..

/-- What is laid over a place is found there. -/
theorem find?_put_self (place : List String) (tree : SettingTree)
    (hvalue : value.isCompound = false) :
    (put (place.map .key) value tree).find? place = some value := by
  induction place generalizing tree with
  | nil => exact congrArg some (overlay_of_not_isCompound hvalue tree)
  | cons name place ih =>
    rw [List.map_cons, find?, findEntry_put_key, if_pos rfl, Option.bind_some, ih]

/-- What is laid over a path into a value makes a table or a list of it, or does nothing. -/
theorem put_cons (step : SettingStep) (path : List SettingStep) (value old : SettingTree) :
    put (step :: path) value old = old ∨ (put (step :: path) value old).isCompound = true := by
  cases step with
  | key name => exact .inr rfl
  | index i =>
    rw [put]
    dsimp only
    generalize (if i < 0 then (old.items.length : Int) + i else i) = position
    by_cases hbefore : position < 0
    · exact .inl (if_pos hbefore)
    · exact .inr (by rw [if_neg hbefore]; rfl)

/-- Values that are laid elsewhere leave the value at a place, or something in its stead that no
single value is made from. -/
theorem exists_find?_put {path : List SettingStep} (value : SettingTree)
    (hpath : SettingStep.Spares path place) (hfound : tree.find? place = some x) :
    ∃ y, (put path value tree).find? place = some y ∧ (y = x ∨ y.isCompound = true) := by
  induction place generalizing path tree with
  | nil =>
    cases path with
    | nil => exact hpath.elim
    | cons step path =>
      cases hfound
      exact ⟨_, rfl, put_cons step path value x⟩
  | cons name place ih =>
    obtain ⟨below, hbelow, hinside⟩ := find?_cons_eq_some.mp hfound
    match path, hpath with
    | .key key :: path, hpath =>
      simp only [find?_cons_eq_some, findEntry_put_key]
      by_cases hkey : key = name
      · subst hkey
        obtain ⟨y, hy, hkept⟩ := ih (hpath rfl) hinside
        exact ⟨y, ⟨_, by rw [if_pos rfl, hbelow, Option.getD_some], hy⟩, hkept⟩
      · exact ⟨x, ⟨below, by rw [if_neg (Ne.symm hkey), hbelow], hinside⟩, .inl rfl⟩

/-- The same for all entries of a source. -/
theorem exists_find?_putAll {entries : List (String × SettingTree)}
    (hentries : ∀ entry ∈ entries, SettingStep.Spares (SettingStep.pathOf entry.1.toList) place)
    (hfound : tree.find? place = some x) :
    ∃ y, (putAll entries tree).find? place = some y ∧ (y = x ∨ y.isCompound = true) := by
  induction entries generalizing tree x with
  | nil => exact ⟨x, hfound, .inl rfl⟩
  | cons entry rest ih =>
    obtain ⟨hentry, hrest⟩ := List.forall_mem_cons.mp hentries
    obtain ⟨y, hy, hkept⟩ := exists_find?_put entry.2 hentry hfound
    obtain ⟨z, hz, hkept'⟩ := ih hrest hy
    refine ⟨z, hz, ?_⟩
    rcases hkept' with rfl | hcompound
    · exact hkept
    · exact .inr hcompound

end SettingTree

end UserManagedAccess
