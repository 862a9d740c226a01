import UserManagedAccess.Proofs.SettingTrees

/-! Variables of the environment in the tree of settings: the value of a variable is found at the
place that its name writes, unless the section that it belongs to is made a list by others. -/
namespace UserManagedAccess

/-! ## Paths as text -/

namespace SettingStep

/-- A word that may stand in a path. -/
def IsName (name : String) : Prop := name ≠ "" ∧ name.toList.all isNameChar = true

instance (name : String) : Decidable (IsName name) := inferInstanceAs (Decidable (_ ∧ _))

theorem name?_append {name : String} (h : IsName name) (rest : List Char)
    (hrest : ∀ c tail, rest = c :: tail → isNameChar c = false) :
    name? (name.toList ++ rest) = some (name, rest) := by
  have hall := List.all_eq_true.mp h.2
  have hend : rest.takeWhile isNameChar = [] ∧ rest.dropWhile isNameChar = rest := by
    cases rest with
    | nil => exact ⟨rfl, rfl⟩
    | cons c tail => simp [hrest c tail rfl]
  rw [name?, List.takeWhile_append_of_pos hall, List.dropWhile_append_of_pos hall, hend.1, hend.2,
    List.append_nil]
  simp [h.1]

theorem append_of_name? {text rest : List Char} {name : String}
    (h : name? text = some (name, rest)) : text = name.toList ++ rest := by
  simp only [name?] at h
  split at h
  · cases h
  · cases h
    rw [String.toList_ofList, List.takeWhile_append_dropWhile]

/-- The path of a setting in a section. -/
theorem pathOf_dotted {table name : String} (htable : IsName table) (hname : IsName name) :
    pathOf (table ++ "." ++ name).toList = [.key table, .key name] := by
  have htext : (table ++ "." ++ name).toList = table.toList ++ '.' :: name.toList := by simp
  have hfront : name? (table.toList ++ '.' :: name.toList) = some (table, '.' :: name.toList) := by
    refine name?_append htable _ fun c tail h => ?_
    cases h
    rfl
  have hback : name? name.toList = some (name, []) := by
    simpa using name?_append hname [] (by simp)
  rw [htext]
  simp [pathOf, hfront, steps?, hback]

theorem pathOf_cases (text : List Char) :
    (∃ name rest path, name? text = some (name, rest) ∧
      steps? (rest.length + 1) rest = some path ∧ pathOf text = .key name :: path) ∨
      pathOf text = [.key (.ofList text)] := by
  cases hname : name? text with
  | none => exact .inr (by simp [pathOf, hname])
  | some found =>
    obtain ⟨name, rest⟩ := found
    cases hsteps : steps? (rest.length + 1) rest with
    | none => exact .inr (by simp [pathOf, hname, hsteps])
    | some path => exact .inl ⟨name, rest, path, rfl, hsteps, by simp [pathOf, hname, hsteps]⟩

/-- The steps from table to table are read off the text. -/
theorem eq_flatMap_of_steps? {fuel : Nat} {text : List Char} {names : List String}
    (h : steps? fuel text = some (names.map .key)) :
    text = names.flatMap fun name => '.' :: name.toList := by
  fun_induction steps? fuel text generalizing names with
  | case1 => cases h
  | case2 =>
    cases names with
    | nil => rfl
    | cons name names => cases h
  | case3 => cases h
  | case4 fuel rest name rest' hname ih =>
    obtain ⟨path, hpath, hnames⟩ := Option.map_eq_some_iff.mp h
    cases names with
    | nil => cases hnames
    | cons name' names =>
      cases hnames
      rw [append_of_name? hname, ih hpath]
      rfl
  | case5 => cases h
  | case6 fuel rest i rest' hindex ih =>
    obtain ⟨path, -, hnames⟩ := Option.map_eq_some_iff.mp h
    cases names <;> cases hnames
  | case7 => cases h

theorem eq_of_pathOf {text : List Char} {name : String} (names : List String)
    (h : pathOf text = .key name :: names.map .key) :
    text = name.toList ++ names.flatMap fun name => '.' :: name.toList := by
  rcases pathOf_cases text with ⟨name', rest, path, hname, hsteps, hpath⟩ | hpath
  · rw [hpath] at h
    cases h
    rw [append_of_name? hname, eq_flatMap_of_steps? hsteps]
  · rw [hpath] at h
    cases names with
    | nil =>
      cases h
      simp
    | cons name' names => cases h

/-- A path that does not lead to a setting, to its section or to a place in a list leaves the setting
where it is. -/
theorem spares_pathOf {text : List Char} {table name : String} (htable : text ≠ table.toList)
    (hname : text ≠ table.toList ++ '.' :: name.toList)
    (hindex : ∀ i path, pathOf text ≠ .key table :: .index i :: path) :
    Spares (pathOf text) [table, name] := by
  have hfirst : ∃ key path, pathOf text = .key key :: path := by
    rcases pathOf_cases text with ⟨key, _, path, -, -, hpath⟩ | hpath
    · exact ⟨key, path, hpath⟩
    · exact ⟨_, [], hpath⟩
  obtain ⟨key, path, hpath⟩ := hfirst
  rw [hpath]
  rintro rfl
  match path, hpath with
  | [], hpath => exact htable (by simpa using eq_of_pathOf [] hpath)
  | .index i :: path, hpath => exact hindex i path hpath
  | .key key' :: path, hpath =>
    rintro rfl
    cases path with
    | nil => exact hname (by simpa using eq_of_pathOf [key'] hpath)
    | cons step path => trivial

end SettingStep

/-! ## Values of variables -/

namespace EnvironmentVariable
variable {environment : List (String × String)} {table name text : String}

/-- The text that an environment has for a setting; of several variables for it the last counts. -/
def given? (environment : List (String × String)) (name : String) : Option String :=
  ((environment.filter fun entry => setting? entry.1 = some name).getLast?).map (·.2)

/-- Some variable is for a setting by its number in the section. -/
def Indexes (environment : List (String × String)) (table : String) : Prop :=
  ∃ entry ∈ environment, ∃ name i path, setting? entry.1 = some name ∧
    SettingStep.pathOf name.toList = .key table :: .index i :: path

/-- No variable leads to a place, or to a table around it, or makes a list of such a table. -/
def Spares (environment : List (String × String)) (place : List String) : Prop :=
  ∀ entry ∈ environment, ∀ name, setting? entry.1 = some name →
    SettingStep.Spares (SettingStep.pathOf name.toList) place

theorem findEntry_entries (environment : List (String × String)) (name : String) :
    KeyMap.findEntry name (entries environment) = (given? environment name).map value := by
  have hmatching : (environment.filterMap fun (entry : String × String) =>
      (setting? entry.1).map (·, value entry.2)).filter (·.1 == name) =
        (environment.filter fun entry => setting? entry.1 = some name).map
          fun entry => (name, value entry.2) := by
    induction environment with
    | nil => rfl
    | cons entry rest ih =>
      cases hsetting : setting? entry.1 with
      | none => simp [hsetting, ih]
      | some name' => by_cases hname : name' = name <;> simp [hsetting, hname, ih]
  rw [entries, ← KeyMap.entries_ofList]
  change (KeyMap.ofList _).get? name = _
  rw [KeyMap.get?_ofList, hmatching, List.getLast?_map, given?, Option.map_map, Option.map_map]
  rfl

theorem exists_mem_of_mem_entries {entry : String × SettingTree}
    (h : entry ∈ entries environment) :
    ∃ entry' ∈ environment, setting? entry'.1 = some entry.1 := by
  obtain ⟨entry', hmem, heq⟩ := List.mem_filterMap.mp (KeyMap.mem_of_mem_sortEntries h)
  obtain ⟨name, hname, rfl⟩ := Option.map_eq_some_iff.mp heq
  exact ⟨entry', hmem, hname⟩

/-- Variables that spare a place leave what is there. -/
theorem exists_find?_of_spares {place : List String} {tree x : SettingTree}
    (h : Spares environment place) (hfound : tree.find? place = some x) :
    ∃ y, (SettingTree.putAll (entries environment) tree).find? place = some y ∧
      (y = x ∨ y.isCompound = true) := by
  refine SettingTree.exists_find?_putAll (fun entry hentry => ?_) hfound
  obtain ⟨entry', hmem, hname⟩ := exists_mem_of_mem_entries hentry
  exact h entry' hmem entry.1 hname

/-- No table or list is made from a text. -/
theorem isCompound_value (text : String) : (value text).isCompound = false := by
  simp only [value]
  repeat' split
  all_goals rfl

private theorem lt_dotted (table name : String) : table < table ++ "." ++ name := by
  rw [String.lt_iff, String.toList_append, String.toList_append, List.append_assoc]
  calc
    table.toList = table.toList ++ [] := (List.append_nil _).symm
    _ < table.toList ++ (".".toList ++ name.toList) := List.append_left_lt (List.nil_lt_cons _ _)

/-- What a variable gives for a setting of a section is found in the section, whatever was there
before and whatever the other variables are, as long as none makes a list of the section. -/
theorem exists_find?_of_given (htable : SettingStep.IsName table) (hname : SettingStep.IsName name)
    (hgiven : given? environment (table ++ "." ++ name) = some text)
    (hindex : ¬ Indexes environment table) (tree : SettingTree) :
    ∃ y, (SettingTree.putAll (entries environment) tree).find? [table, name] = some y ∧
      (y = value text ∨ y.isCompound = true) := by
  have hfound := findEntry_entries environment (table ++ "." ++ name)
  rw [hgiven, Option.map_some] at hfound
  obtain ⟨before, after, hsplit⟩ := List.append_of_mem (KeyMap.mem_of_findEntry hfound)
  have hsorted := KeyMap.pairwise_sortEntries (environment.filterMap fun (entry : String × String) =>
    (setting? entry.1).map (·, value entry.2))
  change (entries environment).Pairwise _ at hsorted
  rw [hsplit, List.pairwise_append, List.pairwise_cons] at hsorted
  obtain ⟨-, ⟨hafter, -⟩, -⟩ := hsorted
  -- the names after this one are greater, so none of them is that of the section
  have hspares : ∀ entry ∈ after,
      SettingStep.Spares (SettingStep.pathOf entry.1.toList) [table, name] := by
    intro entry hentry
    have hlt := hafter entry hentry
    refine SettingStep.spares_pathOf (fun heq => ?_) (fun heq => ?_) fun i path hpath => ?_
    · rw [String.toList_inj.mp heq] at hlt
      exact String.lt_irrefl _ (String.lt_trans hlt (lt_dotted table name))
    · have heq' : entry.1 = table ++ "." ++ name := by
        apply String.toList_inj.mp
        simpa using heq
      rw [heq'] at hlt
      exact String.lt_irrefl _ hlt
    · have hmem : entry ∈ entries environment := by simp [hsplit, hentry]
      obtain ⟨entry', hmem', hsetting⟩ := exists_mem_of_mem_entries hmem
      exact hindex ⟨entry', hmem', entry.1, i, path, hsetting, hpath⟩
  have hpath : SettingStep.pathOf (table ++ "." ++ name).toList = [table, name].map .key :=
    SettingStep.pathOf_dotted htable hname
  rw [hsplit, SettingTree.putAll, List.foldl_append, List.foldl_cons, hpath]
  exact SettingTree.exists_find?_putAll hspares
    (SettingTree.find?_put_self [table, name] _ (isCompound_value text))

end EnvironmentVariable

end UserManagedAccess
