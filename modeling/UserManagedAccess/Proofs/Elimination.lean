import UserManagedAccess.Proofs.KeyMap
import UserManagedAccess.Requirement

/-! Elimination is an action of claims on requirements: striking out in several rounds comes to the
same as striking out once with all the claims together. -/
namespace UserManagedAccess

namespace Claims

@[simp] theorem values_empty (name : String) : (∅ : Claims).values name = [] := rfl

theorem values_extend (c : Claims) (name : String) (values : List Json) (k : String) :
    (c.extend name values).values k =
      if k = name then c.values name ++ values else c.values k := by
  by_cases hk : k = name
  · subst hk; simp [Claims.values, extend]
  · simp [Claims.values, extend, KeyMap.get?_insert_of_ne _ _ hk, hk]

theorem values_pushAll (c : Claims) (found : List (String × Json)) (k : String) :
    (c.pushAll found).values k = c.values k ++ (found.filter (·.1 == k)).map (·.2) := by
  induction found generalizing c with
  | nil => simp [pushAll]
  | cons head rest ih =>
    change ((c.push head.1 head.2).pushAll rest).values k = _
    rw [ih, push, values_extend]
    by_cases hk : k = head.1
    · subst hk; simp
    · simp [hk, Ne.symm hk]

theorem mem_values_pushAll_empty {found : List (String × Json)} {k : String} {value : Json} :
    value ∈ ((∅ : Claims).pushAll found).values k ↔ (k, value) ∈ found := by
  simp [values_pushAll]

private theorem get?_foldl_extend {entries : List (String × List Json)}
    (hs : entries.Pairwise (fun a b => a.1 < b.1)) (c : Claims) (k : String) :
    (entries.foldl (fun c entry => c.extend entry.1 entry.2) c).claims.get? k =
      match KeyMap.findEntry k entries with
      | some values => some (c.values k ++ values)
      | none => c.claims.get? k := by
  induction entries generalizing c with
  | nil => rfl
  | cons head rest ih =>
    obtain ⟨hhead, hrest⟩ := List.pairwise_cons.mp hs
    rw [List.foldl_cons, ih hrest, values_extend, KeyMap.findEntry]
    by_cases hk : k = head.1
    · -- the keys increase, so the rest says nothing under this one
      have hnone : KeyMap.findEntry head.1 rest = none := by
        cases hfind : KeyMap.findEntry head.1 rest with
        | none => rfl
        | some vs => exact absurd (hhead _ (KeyMap.mem_of_findEntry hfind)) (String.lt_irrefl _)
      subst hk
      simp [hnone, extend]
    · simp [hk, extend, KeyMap.get?_insert_of_ne]

/-- Merging appends under the names that the other claims have, and leaves the others alone. -/
theorem get?_merge (c d : Claims) (k : String) :
    (c.merge d).claims.get? k =
      match d.claims.get? k with
      | some values => some (c.values k ++ values)
      | none => c.claims.get? k :=
  get?_foldl_extend d.claims.sorted c k

/-- Merging appends the values of the other claims, name by name. -/
@[simp] theorem values_merge (c d : Claims) (k : String) :
    (c.merge d).values k = c.values k ++ d.values k := by
  simp only [Claims.values, get?_merge]
  cases d.claims.get? k <;> simp

theorem isEmpty_iff {c : Claims} : c.isEmpty = true ↔ ∀ name, c.values name = [] := by
  simp only [isEmpty, KeyMap.values, List.all_map, List.all_eq_true, Function.comp_apply,
    List.isEmpty_iff]
  constructor
  · intro h name
    cases hget : c.claims.get? name with
    | none => simp [Claims.values, hget]
    | some vs => simpa [Claims.values, hget] using h _ (KeyMap.get?_eq_some_iff_mem.mp hget)
  · rintro h ⟨name, vs⟩ hmem
    simpa [Claims.values, KeyMap.get?_eq_some_iff_mem.mpr hmem] using h name

/-- The values of several sets of claims that are merged one after the other. -/
theorem values_foldl_merge (sets : List Claims) (c : Claims) (k : String) :
    (sets.foldl Claims.merge c).values k = c.values k ++ sets.flatMap (·.values k) := by
  induction sets generalizing c with
  | nil => simp
  | cons d rest ih => simp [ih]

end Claims

namespace Requirements

/-- No claim name stands without a condition. -/
def Tidy (r : Requirements) : Prop := ∀ entry ∈ r.claims.entries, entry.2 ≠ []

/-- Every condition under every claim name is met by a value held under that name. -/
def MetBy (r : Requirements) (claims : Claims) : Prop :=
  ∀ name, ∀ p ∈ r.conditions name, p.isMetByAny (claims.values name) = true

@[simp] theorem conditions_empty (name : String) : (∅ : Requirements).conditions name = [] := rfl

theorem tidy_empty : (∅ : Requirements).Tidy := fun _ h => absurd h List.not_mem_nil

theorem conditions_ne_nil {r : Requirements} (hr : r.Tidy) {name : String}
    {listed : List Condition} (h : r.claims.get? name = some listed) : listed ≠ [] :=
  hr _ (KeyMap.get?_eq_some_iff_mem.mp h)

/-- Tidy requirements are told apart by their conditions. -/
theorem ext_conditions {r s : Requirements} (hr : r.Tidy) (hs : s.Tidy)
    (h : ∀ name, r.conditions name = s.conditions name) : r = s := by
  have hclaims : r.claims = s.claims := by
    apply KeyMap.ext_get?
    intro name
    have hn := h name
    simp only [conditions] at hn
    cases hr' : r.claims.get? name with
    | none =>
      cases hs' : s.claims.get? name with
      | none => rfl
      | some listed => simp [hr', hs', (conditions_ne_nil hs hs').symm] at hn
    | some listed =>
      cases hs' : s.claims.get? name with
      | none => simp [hr', hs', conditions_ne_nil hr hr'] at hn
      | some listed' => simpa [hr', hs'] using hn
  cases r
  cases s
  exact congrArg Requirements.mk hclaims

theorem isEmpty_iff {r : Requirements} (hr : r.Tidy) :
    r.isEmpty = true ↔ ∀ name, r.conditions name = [] := by
  simp only [isEmpty, KeyMap.isEmpty, List.isEmpty_iff]
  constructor
  · intro h name
    simp [conditions, KeyMap.get?, h, KeyMap.findEntry]
  · intro h
    rw [List.eq_nil_iff_forall_not_mem]
    rintro ⟨name, listed⟩ hmem
    have hget := KeyMap.get?_eq_some_iff_mem.mpr hmem
    exact conditions_ne_nil hr hget (by simpa [conditions, hget] using h name)

/-! ## Adding conditions -/

theorem conditions_require (r : Requirements) (claim : String) (p : Condition) (name : String) :
    (r.require claim p).conditions name =
      if name = claim then
        if (r.conditions claim).any (·.same p) then r.conditions claim
        else r.conditions claim ++ [p]
      else r.conditions name := by
  by_cases hn : name = claim
  · subst hn; simp [require, conditions]
  · simp [require, conditions, KeyMap.get?_insert_of_ne _ _ hn, hn]

theorem mem_conditions_require {r : Requirements} {claim name : String} {p q : Condition}
    (hp : ∀ listed, listed.same p = true → listed = p) :
    q ∈ (r.require claim p).conditions name ↔
      q ∈ r.conditions name ∨ name = claim ∧ q = p := by
  rw [conditions_require]
  by_cases hn : name = claim
  · subst hn
    simp only [↓reduceIte, true_and]
    split
    · next hany =>
      -- the condition is listed already
      obtain ⟨listed, hmem, hsame⟩ := List.any_eq_true.mp hany
      cases hp listed hsame
      exact ⟨.inl, fun h => h.elim id fun heq => heq ▸ hmem⟩
    · simp
  · simp [hn]

theorem tidy_require {r : Requirements} (hr : r.Tidy) (claim : String) (p : Condition) :
    (r.require claim p).Tidy := by
  rintro ⟨name, listed⟩ hmem
  have hget := KeyMap.get?_eq_some_iff_mem.mpr hmem
  simp only [require, KeyMap.get?_insert] at hget
  split at hget
  · split at hget
    · next hany =>
      obtain ⟨q, hq, -⟩ := List.any_eq_true.mp hany
      cases hget
      exact List.ne_nil_of_mem hq
    · cases hget
      simp
  · exact conditions_ne_nil hr hget

theorem tidy_single (claim : String) (p : Condition) : (single claim p).Tidy :=
  tidy_require tidy_empty claim p

/-! ## Striking conditions out -/

theorem conditions_eliminate (r : Requirements) (c : Claims) (name : String) :
    (r.eliminate c).conditions name =
      (r.conditions name).filter fun p => !p.isMetByAny (c.values name) := by
  simp only [conditions, eliminate, KeyMap.get?_filterMap]
  cases r.claims.get? name with
  | none => rfl
  | some listed =>
    simp only [Option.bind_some, Option.getD_some]
    split
    · next hempty => simp [List.isEmpty_iff.mp hempty]
    · rfl

theorem tidy_eliminate (r : Requirements) (c : Claims) : (r.eliminate c).Tidy := by
  rintro ⟨name, listed⟩ hmem
  have hget := KeyMap.get?_eq_some_iff_mem.mpr hmem
  simp only [eliminate, KeyMap.get?_filterMap, Option.bind_eq_some_iff] at hget
  obtain ⟨_, -, hunmet⟩ := hget
  split at hunmet
  · cases hunmet
  · next hne =>
    cases hunmet
    simpa using hne

theorem isMetByAny_append (p : Condition) (vs ws : List Json) :
    p.isMetByAny (vs ++ ws) = (p.isMetByAny vs || p.isMetByAny ws) := by
  simp [Condition.isMetByAny]

theorem eliminate_empty {r : Requirements} (hr : r.Tidy) : r.eliminate ∅ = r := by
  refine ext_conditions (tidy_eliminate r ∅) hr fun name => ?_
  simp [conditions_eliminate, Condition.isMetByAny]

/-- Elimination looks at claims only for which conditions they meet. -/
theorem eliminate_congr (r : Requirements) {c d : Claims}
    (h : ∀ name (p : Condition), p.isMetByAny (c.values name) = p.isMetByAny (d.values name)) :
    r.eliminate c = r.eliminate d := by
  refine ext_conditions (tidy_eliminate r c) (tidy_eliminate r d) fun name => ?_
  simp [conditions_eliminate, h]

/-- Striking out twice is striking out once with the claims of both times. -/
theorem eliminate_eliminate (r : Requirements) (c d : Claims) :
    (r.eliminate c).eliminate d = r.eliminate (c.merge d) := by
  refine ext_conditions (tidy_eliminate _ d) (tidy_eliminate r _) fun name => ?_
  simp only [conditions_eliminate, List.filter_filter, Claims.values_merge, isMetByAny_append]
  congr 1
  funext p
  cases p.isMetByAny (c.values name) <;> simp

/-- Claims that were used before do no more when they are used again. -/
theorem eliminate_eliminate_merge (r : Requirements) (c d : Claims) :
    (r.eliminate c).eliminate (c.merge d) = r.eliminate (c.merge d) := by
  rw [eliminate_eliminate]
  apply eliminate_congr
  intro name p
  simp only [Claims.values_merge, isMetByAny_append]
  cases p.isMetByAny (c.values name) <;> simp

/-- In which order the claims of two rounds came makes no difference. -/
theorem eliminate_merge_comm (r : Requirements) (c d : Claims) :
    r.eliminate (c.merge d) = r.eliminate (d.merge c) := by
  apply eliminate_congr
  intro name p
  simp only [Claims.values_merge, isMetByAny_append, Bool.or_comm]

theorem eliminate_self (r : Requirements) (c : Claims) :
    (r.eliminate c).eliminate c = r.eliminate c := by
  rw [eliminate_eliminate]
  apply eliminate_congr
  intro name p
  simp only [Claims.values_merge, isMetByAny_append, Bool.or_self]

theorem conditions_ne_nil_of_mem_names {r : Requirements} (hr : r.Tidy) {name : String}
    (h : name ∈ r.names) : r.conditions name ≠ [] := by
  obtain ⟨⟨_, listed⟩, hmem, rfl⟩ := List.mem_map.mp h
  have hget := KeyMap.get?_eq_some_iff_mem.mpr hmem
  simpa [conditions, hget] using hr _ hmem

/-- Nothing is left exactly when everything is met. -/
theorem isEmpty_eliminate_iff (r : Requirements) (c : Claims) :
    (r.eliminate c).isEmpty = true ↔ r.MetBy c := by
  rw [isEmpty_iff (tidy_eliminate r c)]
  simp only [conditions_eliminate, List.filter_eq_nil_iff, Bool.not_eq_true', Bool.not_eq_false,
    MetBy]

/-- Elimination is an action of claims: rounds add up, and neither their order nor a round that is
made again matters. Under each name the conditions stay that no value meets, in their order; nothing
stays exactly when everything is met, and no name stays without a condition, not even one that had
none before. -/
theorem eliminate_acts (r : Requirements) (c d : Claims) :
    (r.eliminate c).eliminate d = r.eliminate (c.merge d) ∧
      (r.eliminate d).eliminate c = r.eliminate (c.merge d) ∧
      (r.eliminate c).eliminate c = r.eliminate c ∧
      (∀ name p, p ∈ (r.eliminate c).conditions name ↔
        p ∈ r.conditions name ∧ ∀ value ∈ c.values name, p.isMetBy value = false) ∧
      (∀ name, (r.eliminate c).conditions name =
        (r.conditions name).filter fun p => ∀ value ∈ c.values name, p.isMetBy value = false) ∧
      ((r.eliminate c).isEmpty = true ↔
        ∀ name, ∀ p ∈ r.conditions name, ∃ value ∈ c.values name, p.isMetBy value = true) ∧
      ∀ name ∈ (r.eliminate c).names, (r.eliminate c).conditions name ≠ [] := by
  have hkept (name : String) : (r.eliminate c).conditions name =
      (r.conditions name).filter fun p => ∀ value ∈ c.values name, p.isMetBy value = false := by
    rw [conditions_eliminate]
    refine List.filter_congr fun p _ => Bool.eq_iff_iff.mpr ?_
    simp [Condition.isMetByAny]
  refine ⟨eliminate_eliminate r c d, ?_, eliminate_self r c, fun name p => ?_, hkept, ?_,
    fun name => conditions_ne_nil_of_mem_names (tidy_eliminate r c)⟩
  · rw [eliminate_eliminate, eliminate_merge_comm]
  · rw [hkept, List.mem_filter, decide_eq_true_iff]
  · rw [isEmpty_eliminate_iff]
    simp only [MetBy, Condition.isMetByAny, List.any_eq_true]

/-- Of two handles one is proven first and then the person; a name without conditions goes at
once. -/
theorem sample_eliminate_acts :
    let r : Requirements := ⟨.ofList [("clientid", []),
      ("source", [.sourceAccess "https://a/" "D1", .sourceAccess "https://b/" "D2"]),
      ("webid", [.any])]⟩
    let c := (∅ : Claims).push "source"
      (.ofMembers [("issuer", .string "https://a/"), ("derivation_resource_id", .string "D1")])
    let d := (∅ : Claims).push "webid" (.string "alice")
    (r.eliminate c).names = ["source", "webid"] ∧ (r.eliminate c).conditions "source" ≠ [] ∧
      (r.eliminate (c.merge d)).names = ["source"] ∧
      (r.eliminate d).eliminate c = r.eliminate (c.merge d) := by
  intro r c d
  have hnames : (r.eliminate c).names = ["source", "webid"] := by decide +kernel
  obtain ⟨-, hcommutes, -, -, -, -, hkept⟩ := eliminate_acts r c d
  exact ⟨hnames, hkept "source" (by simp [hnames]), by decide +kernel, hcommutes⟩

end Requirements

end UserManagedAccess
