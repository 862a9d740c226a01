import UserManagedAccess.Text.Blank

/-! Texts that are cut at characters of a class: no part has such a character in it. -/
namespace UserManagedAccess.Text

private theorem forall_mem_splitOnP {α : Type} (separates : α → Bool) (xs : List α) :
    ∀ part ∈ xs.splitOnP separates, ∀ x ∈ part, separates x = false := by
  induction xs with
  | nil => simp
  | cons x xs ih =>
    rw [List.splitOnP_cons_eq_if_modifyHead]
    split
    · simpa using ih
    · next hx =>
      cases hparts : xs.splitOnP separates with
      | nil => simp
      | cons first rest =>
        rw [hparts] at ih
        simp only [List.modifyHead_cons, List.forall_mem_cons]
        refine ⟨⟨by simpa using hx, ih first List.mem_cons_self⟩, fun part hpart => ?_⟩
        exact ih part (List.mem_cons_of_mem _ hpart)

theorem forall_mem_parts (separates : Char → Bool) (s : String) :
    ∀ part ∈ parts separates s, ∀ c ∈ part.toList, separates c = false := by
  intro part hpart
  obtain ⟨chars, hchars, rfl⟩ := List.mem_map.mp hpart
  rw [String.toList_ofList]
  exact forall_mem_splitOnP separates s.toList chars hchars

private theorem length_splitOnP {α : Type} (separates : α → Bool) (xs : List α) :
    (xs.splitOnP separates).length = xs.countP separates + 1 := by
  induction xs with
  | nil => rfl
  | cons x xs ih =>
    rw [List.splitOnP_cons_eq_if_modifyHead, List.countP_cons]
    split
    · rw [List.length_cons, ih]
    · rw [List.length_modifyHead, ih, Nat.add_zero]

/-- There is one part more than there are separators. -/
theorem length_parts (separates : Char → Bool) (s : String) :
    (parts separates s).length = s.toList.countP separates + 1 := by
  rw [parts, List.length_map, length_splitOnP]

section
variable {separator : Char} {cs : List Char}

theorem parts_of_not_mem (h : separator ∉ cs) :
    parts (· == separator) (.ofList cs) = [.ofList cs] := by
  rw [parts, String.toList_ofList, List.splitOnP_eq_singleton]
  · rfl
  · intro c hc
    exact beq_false_of_ne fun heq => h (heq ▸ hc)

/-- The first separator ends the first part. -/
theorem parts_append_cons (h : separator ∉ cs) (rest : List Char) :
    parts (· == separator) (.ofList (cs ++ separator :: rest)) =
      .ofList cs :: parts (· == separator) (.ofList rest) := by
  have hfirst := parts_of_not_mem h
  have hcut : (cs ++ separator :: rest).splitOnP (· == separator) =
      cs.splitOnP (· == separator) ++ rest.splitOnP (· == separator) :=
    List.splitOnP_append_cons _ _ (beq_self_eq_true separator)
  simp only [parts, String.toList_ofList] at hfirst ⊢
  rw [hcut, List.map_append, hfirst]
  rfl

end

/-- A word has a character, and none of its characters is blank. -/
theorem isBlank_of_mem_words {s word : String} (h : word ∈ words s) : isBlank word = false := by
  obtain ⟨hpart, hne⟩ := List.mem_filter.mp h
  have hvisible := forall_mem_parts isBlankChar s word hpart
  cases hchars : word.toList with
  | nil => simp [String.toList_eq_nil_iff.mp hchars] at hne
  | cons c rest => simp [isBlank, hchars, hvisible c (by simp [hchars])]

/-- What stands before a separator can be told from the whole. -/
theorem eq_of_append_cons (separator : Char) {xs ys rest rest' : List Char}
    (hx : separator ∉ xs) (hy : separator ∉ ys)
    (h : xs ++ separator :: rest = ys ++ separator :: rest') : xs = ys := by
  induction xs generalizing ys with
  | nil =>
    cases ys with
    | nil => rfl
    | cons y ys =>
      simp only [List.nil_append, List.cons_append, List.cons.injEq] at h
      exact absurd (h.1 ▸ List.mem_cons_self) hy
  | cons x xs ih =>
    cases ys with
    | nil =>
      simp only [List.nil_append, List.cons_append, List.cons.injEq] at h
      exact absurd (h.1 ▸ List.mem_cons_self) hx
    | cons y ys =>
      simp only [List.cons_append, List.cons.injEq, List.mem_cons, not_or] at h hx hy
      rw [h.1, ih hx.2 hy.2 h.2]

end UserManagedAccess.Text
