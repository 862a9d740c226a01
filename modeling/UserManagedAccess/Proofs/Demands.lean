import UserManagedAccess.Proofs.Consultation
import UserManagedAccess.Proofs.Elimination

/-! What policies ask for: all or nothing, and no claim name without a condition. -/
namespace UserManagedAccess

/-- Results that are found all together are found one by one, and there are as many. -/
theorem of_mapM_eq_some {α β : Type} {f : α → Option β} {as : List α} {bs : List β}
    (h : as.mapM f = some bs) :
    bs.length = as.length ∧ (∀ a ∈ as, ∃ b ∈ bs, f a = some b) ∧
      ∀ b ∈ bs, ∃ a ∈ as, f a = some b := by
  induction as generalizing bs with
  | nil =>
    cases h
    simp
  | cons a as ih =>
    simp only [List.mapM_cons, Option.pure_def, Option.bind_eq_bind, Option.bind_eq_some_iff,
      Option.some.injEq] at h
    obtain ⟨b, hb, bs, hrest, rfl⟩ := h
    obtain ⟨hlength, hfound, hcame⟩ := ih hrest
    refine ⟨by simp [hlength],
      List.forall_mem_cons.mpr ⟨⟨b, List.mem_cons_self, hb⟩, fun a' ha' => ?_⟩,
      List.forall_mem_cons.mpr ⟨⟨a, List.mem_cons_self, hb⟩, fun b' hb' => ?_⟩⟩
    · obtain ⟨b', hb', hfound'⟩ := hfound a' ha'
      exact ⟨b', List.mem_cons_of_mem _ hb', hfound'⟩
    · obtain ⟨a', ha', hb'⟩ := hcame b' hb'
      exact ⟨a', List.mem_cons_of_mem _ ha', hb'⟩

/-- Results are found all together if they are found one by one. -/
theorem exists_mapM_eq_some_iff {α β : Type} {f : α → Option β} {as : List α} :
    (∃ bs, as.mapM f = some bs) ↔ ∀ a ∈ as, ∃ b, f a = some b := by
  induction as with
  | nil => simp
  | cons a as ih =>
    rw [List.forall_mem_cons, ← ih]
    simp only [List.mapM_cons, Option.pure_def, Option.bind_eq_bind, Option.bind_eq_some_iff,
      Option.some.injEq]
    constructor
    · rintro ⟨_, b, hb, bs, hbs, -⟩
      exact ⟨⟨b, hb⟩, bs, hbs⟩
    · rintro ⟨⟨b, hb⟩, bs, hbs⟩
      exact ⟨b :: bs, b, hb, bs, hbs, rfl⟩

namespace RuleTable

theorem tidy_of_requirements? {table : RuleTable} {p : Permission} {r : Requirements}
    (h : table.requirements? p = some r) : r.Tidy := by
  simp only [requirements?, Option.pure_def, Option.bind_eq_bind, Option.bind_eq_some_iff] at h
  obtain ⟨resource, -, principals, -, scopes, -, h⟩ := h
  split at h
  · cases h
    exact Requirements.tidy_empty
  · split at h
    · cases h
    · cases h
      exact Requirements.tidy_single _ _

end RuleTable

theorem Resource.mem_sources_iff {d : Resource} {source : Source} :
    source ∈ d.sources ↔
      ∃ relations, d.relations = some relations ∧ source ∈ relations.derivedFrom := by
  rw [sources]
  cases d.relations <;> simp

/-- The resource that a permission names is registered and was derived from the source. -/
def ServerState.HasSource (s : ServerState) (p : Permission) (source : Source) : Prop :=
  ∃ id description relations, p.resource = some id ∧ s.resources.get? id = some description ∧
    description.relations = some relations ∧ source ∈ relations.derivedFrom

namespace Policy

theorem demands_namespaced (namespaces : List String) (s : ServerState)
    (permissions : List Permission) :
    (namespaced namespaces).demands s permissions =
      if permissions.all (inNamespaces namespaces) then
        permissions.map fun _ => .single ClaimName.webid .any
      else [] := by
  simp only [demands, credentials]
  split <;> rfl

/-- Rules ask for one thing for each permission, or, of a list with one that cannot be granted, for
nothing at all. -/
theorem demands_rules (s : ServerState) (permissions : List Permission) :
    rules.demands s permissions =
      (permissions.mapM s.rulesInForce.requirements?).getD [] := by
  change s.rulesInForce.credentials permissions .none = _
  rw [RuleTable.credentials]
  cases permissions.mapM s.rulesInForce.requirements? <;> rfl

/-- The requirements of a permission with those of its sources. -/
def withSources (s : ServerState) (p : Permission) (r : Requirements) : Requirements :=
  match p.resource with
  | .none => r
  | some id => requireSources r (s.resources.get? id)

/-- The requirements of permissions, each with those of its sources. -/
def withAllSources (s : ServerState) (permissions : List Permission)
    (required : List Requirements) : List Requirements :=
  addSources s.snapshot permissions required

theorem withAllSources_nil_left (s : ServerState) (required : List Requirements) :
    withAllSources s [] required = required := by
  cases required <;> rfl

theorem withAllSources_cons (s : ServerState) (p : Permission) (ps : List Permission)
    (r : Requirements) (rs : List Requirements) :
    withAllSources s (p :: ps) (r :: rs) = withSources s p r :: withAllSources s ps rs := by
  simp only [withAllSources, addSources, withSources]
  cases p.resource <;> rfl

theorem length_withAllSources (s : ServerState) (permissions : List Permission)
    (required : List Requirements) :
    (withAllSources s permissions required).length = required.length := by
  induction permissions generalizing required with
  | nil => rw [withAllSources_nil_left]
  | cons p ps ih =>
    cases required with
    | nil => rfl
    | cons r rs =>
      rw [withAllSources_cons]
      exact congrArg (· + 1) (ih rs)

theorem tidy_requireSources {r : Requirements} (hr : r.Tidy) (found : Option Resource) :
    (requireSources r found).Tidy := by
  suffices h : ∀ sources : List Source, (sources.foldl (fun r s =>
      r.require ClaimName.sourceAccess (sourceRequirement s)) r).Tidy from h _
  intro sources
  induction sources generalizing r with
  | nil => exact hr
  | cons source rest ih => exact ih (Requirements.tidy_require hr _ _)

private theorem eq_of_same_sourceRequirement {source : Source} {p : Condition}
    (h : p.same (sourceRequirement source) = true) : p = sourceRequirement source := by
  cases p <;> simp_all [sourceRequirement, Condition.same]

theorem mem_conditions_requireSources {r : Requirements} {found : Option Resource} {name : String}
    {p : Condition} :
    p ∈ (requireSources r found).conditions name ↔
      p ∈ r.conditions name ∨ name = ClaimName.sourceAccess ∧
        ∃ source ∈ (found.map Resource.sources).getD [], p = sourceRequirement source := by
  rw [requireSources]
  induction (found.map Resource.sources).getD [] generalizing r with
  | nil => simp
  | cons source rest ih =>
    rw [List.foldl_cons, ih,
      Requirements.mem_conditions_require fun _ => eq_of_same_sourceRequirement]
    simp only [List.mem_cons, exists_eq_or_imp, and_or_left]
    rw [or_assoc]

/-- Each permission is asked for its sources, as long as there is something to add them to. -/
theorem exists_withSources_mem {s : ServerState} {permissions : List Permission}
    {required : List Requirements} (hlength : required.length = permissions.length)
    {p : Permission} (hp : p ∈ permissions) :
    ∃ r ∈ required, withSources s p r ∈ withAllSources s permissions required := by
  induction permissions generalizing required with
  | nil => cases hp
  | cons q qs ih =>
    cases required with
    | nil => cases hlength
    | cons r rs =>
      rw [withAllSources_cons]
      rcases List.mem_cons.mp hp with rfl | hp
      · exact ⟨r, List.mem_cons_self, List.mem_cons_self⟩
      · obtain ⟨r', hr', hmem⟩ := ih (Nat.succ.inj hlength) hp
        exact ⟨r', List.mem_cons_of_mem _ hr', List.mem_cons_of_mem _ hmem⟩

/-- A permission is asked for what it was asked for before, and for the right to read each source of
the resource that it names. -/
theorem mem_conditions_withSources {s : ServerState} {p : Permission} {r : Requirements}
    {name : String} {c : Condition} :
    c ∈ (withSources s p r).conditions name ↔
      c ∈ r.conditions name ∨ name = ClaimName.sourceAccess ∧
        ∃ source, s.HasSource p source ∧ c = sourceRequirement source := by
  rw [withSources]
  cases hresource : p.resource with
  | none => simp [ServerState.HasSource, hresource]
  | some id =>
    simp only [mem_conditions_requireSources]
    cases hfound : s.resources.get? id <;>
      simp [ServerState.HasSource, hresource, hfound, Resource.mem_sources_iff]

theorem metBy_withSources_iff {s : ServerState} {p : Permission} {r : Requirements}
    {claims : Claims} :
    (withSources s p r).MetBy claims ↔
      r.MetBy claims ∧ ∀ source, s.HasSource p source →
        (sourceRequirement source).isMetByAny (claims.values ClaimName.sourceAccess) = true := by
  constructor
  · intro h
    refine ⟨fun name c hc => h name c (mem_conditions_withSources.mpr (.inl hc)),
      fun source hsource => h _ _ (mem_conditions_withSources.mpr (.inr ⟨rfl, source, hsource, rfl⟩))⟩
  · rintro ⟨hinner, hsources⟩ name c hc
    rcases mem_conditions_withSources.mp hc with hc | ⟨rfl, source, hsource, rfl⟩
    · exact hinner name c hc
    · exact hsources source hsource

/-- All that is asked for permissions with their sources is met exactly if what was asked for before
is, and the right to read every source. -/
theorem metBy_withAllSources_iff {s : ServerState} {permissions : List Permission}
    {required : List Requirements} {claims : Claims}
    (hlength : required.length = permissions.length) :
    (∀ r ∈ withAllSources s permissions required, r.MetBy claims) ↔
      (∀ r ∈ required, r.MetBy claims) ∧ ∀ p ∈ permissions, ∀ source, s.HasSource p source →
        (sourceRequirement source).isMetByAny (claims.values ClaimName.sourceAccess) = true := by
  induction permissions generalizing required with
  | nil =>
    cases List.length_eq_zero_iff.mp hlength
    simp [withAllSources_nil_left]
  | cons p ps ih =>
    cases required with
    | nil => cases hlength
    | cons r rs =>
      simp only [withAllSources_cons, List.forall_mem_cons, metBy_withSources_iff,
        ih (Nat.succ.inj hlength)]
      exact and_and_and_comm

/-- Requirements beyond the last permission stay as they are. -/
theorem getElem?_withAllSources (s : ServerState) (permissions : List Permission)
    (required : List Requirements) (i : Nat) :
    (withAllSources s permissions required)[i]? =
      required[i]?.map fun r => (permissions[i]?.map (withSources s · r)).getD r := by
  induction permissions generalizing required i with
  | nil => simp [withAllSources_nil_left]
  | cons p ps ih =>
    cases required with
    | nil => rfl
    | cons r rs =>
      rw [withAllSources_cons]
      cases i with
      | zero => rfl
      | succ i => exact ih rs i

private theorem tidy_withAllSources (s : ServerState) (permissions : List Permission)
    (required : List Requirements) (h : ∀ r ∈ required, r.Tidy) :
    ∀ r ∈ withAllSources s permissions required, r.Tidy := by
  induction permissions generalizing required with
  | nil => rwa [withAllSources_nil_left]
  | cons p ps ih =>
    cases required with
    | nil => exact h
    | cons r rs =>
      rw [withAllSources_cons]
      intro r' hr'
      rcases List.mem_cons.mp hr' with rfl | hr'
      · have hr := h r List.mem_cons_self
        rw [withSources]
        split
        · exact hr
        · exact tidy_requireSources hr _
      · exact ih rs (fun r hr => h r (List.mem_cons_of_mem _ hr)) r' hr'

theorem demands_derived (inner : Policy) (s : ServerState) (permissions : List Permission) :
    (derived inner).demands s permissions =
      withAllSources s permissions (inner.demands s permissions) := rfl

/-- A policy asks for one thing for each permission or refuses them all. -/
theorem demands_length_eq_or_eq_nil (policy : Policy) (s : ServerState)
    (permissions : List Permission) :
    (policy.demands s permissions).length = permissions.length ∨
      policy.demands s permissions = [] := by
  induction policy with
  | all => exact .inl (List.length_map _)
  | none => exact .inr rfl
  | namespaced namespaces =>
    rw [demands_namespaced]
    split
    · exact .inl (List.length_map _)
    · exact .inr rfl
  | rules =>
    rw [demands_rules]
    cases hfound : permissions.mapM s.rulesInForce.requirements? with
    | none => exact .inr rfl
    | some required => exact .inl (of_mapM_eq_some hfound).1
  | derived inner ih =>
    rw [demands_derived]
    rcases ih with h | h
    · exact .inl ((length_withAllSources s permissions _).trans h)
    · exact .inr (List.length_eq_zero_iff.mp ((length_withAllSources s permissions _).trans
        (List.length_eq_zero_iff.mpr h)))

theorem tidy_demands (policy : Policy) (s : ServerState) (permissions : List Permission) :
    ∀ r ∈ policy.demands s permissions, r.Tidy := by
  induction policy with
  | all =>
    intro r hr
    obtain ⟨_, -, rfl⟩ := List.mem_map.mp hr
    exact Requirements.tidy_empty
  | none => exact fun r hr => absurd hr List.not_mem_nil
  | namespaced namespaces =>
    rw [demands_namespaced]
    intro r hr
    split at hr
    · obtain ⟨_, -, rfl⟩ := List.mem_map.mp hr
      exact Requirements.tidy_single _ _
    · cases hr
  | rules =>
    rw [demands_rules]
    intro r hr
    cases hfound : permissions.mapM s.rulesInForce.requirements? with
    | none => simp [hfound] at hr
    | some required =>
      simp only [hfound, Option.getD_some] at hr
      obtain ⟨p, -, hrequired⟩ := (of_mapM_eq_some hfound).2.2 r hr
      exact RuleTable.tidy_of_requirements? hrequired
  | derived inner ih =>
    rw [demands_derived]
    exact tidy_withAllSources s permissions _ ih

end Policy

end UserManagedAccess
