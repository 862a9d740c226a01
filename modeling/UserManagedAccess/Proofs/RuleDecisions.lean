import UserManagedAccess.Proofs.Entitlements

/-! What rules grant, where requirements are struck out: a permission is open to everybody, or an
identity was proven that qualifies for it. -/
namespace UserManagedAccess

namespace Requirements

theorem metBy_empty (claims : Claims) : (∅ : Requirements).MetBy claims :=
  fun _ _ hp => absurd hp List.not_mem_nil

theorem metBy_single_iff {claim : String} {p : Condition} {claims : Claims} :
    (single claim p).MetBy claims ↔ p.isMetByAny (claims.values claim) = true := by
  constructor
  · intro h
    exact h claim p (by rw [conditions_single]; exact List.mem_singleton_self p)
  · intro h name q hq
    simp only [single, conditions_require, conditions_empty, List.any_nil, Bool.false_eq_true,
      ↓reduceIte, List.nil_append] at hq
    split at hq
    · next hname =>
      subst hname
      exact List.mem_singleton.mp hq ▸ h
    · cases hq

end Requirements

namespace RuleTable
variable {table : RuleTable} {p : Permission}

/-- The entry for the resource that a permission names. -/
def listed? (table : RuleTable) (p : Permission) : Option (KeyMap (List String)) :=
  p.resource.bind table.resources.get?

/-- The permission names a resource with an entry and lists its scopes, and all of them are open to
everybody. -/
def IsOpen (table : RuleTable) (p : Permission) : Prop :=
  ∃ principals scopes, table.listed? p = some principals ∧ p.scopes = some scopes ∧
    ∀ scope ∈ scopes, scope ∈ scopesFor principals everyone

/-- The permission names a resource with an entry and lists its scopes, and somebody on that entry,
other than everybody, may use each of them, alone or as everybody may. -/
def Qualifies (table : RuleTable) (p : Permission) (principal : String) : Prop :=
  principal ≠ everyone ∧
    ∃ principals scopes own, table.listed? p = some principals ∧ p.scopes = some scopes ∧
      principals.get? principal = some own ∧
      ∀ scope ∈ scopes, scope ∈ own ∨ scope ∈ scopesFor principals everyone

theorem mem_qualified_iff {principals : KeyMap (List String)} {scopes : List String}
    {principal : String} :
    principal ∈ qualified principals scopes ↔
      principal ≠ everyone ∧ ∃ own, principals.get? principal = some own ∧
        ∀ scope ∈ scopes, scope ∈ own ∨ scope ∈ scopesFor principals everyone := by
  simp only [qualified, List.mem_map, List.mem_filter, List.all_eq_true, Bool.or_eq_true,
    List.contains_iff_mem, decide_eq_true_eq, Prod.exists, KeyMap.get?_eq_some_iff_mem]
  constructor
  · rintro ⟨_, own, ⟨⟨hentry, hother⟩, hmay⟩, rfl⟩
    exact ⟨hother, own, hentry, hmay⟩
  · rintro ⟨hother, own, hentry, hmay⟩
    exact ⟨principal, own, ⟨⟨hentry, hother⟩, hmay⟩, rfl⟩

/-- What rules ask for a permission: nothing, one of the identities that qualify, or it cannot be
granted. -/
inductive Asks (table : RuleTable) (p : Permission) : Option Requirements → Prop
  | nothing (isOpen : table.IsOpen p) : Asks table p (some ∅)
  | identity (names : List String) (closed : ¬ table.IsOpen p) (nonempty : names ≠ [])
      (mem_iff : ∀ name, name ∈ names ↔ table.Qualifies p name) :
      Asks table p (some (.single ClaimName.webid (.oneOf (names.map .string))))
  | impossible (closed : ¬ table.IsOpen p) (nobody : ∀ name, ¬ table.Qualifies p name) :
      Asks table p none

theorem requirements?_eq {principals : KeyMap (List String)} {scopes : List String}
    (hentry : table.listed? p = some principals) (hscopes : p.scopes = some scopes) :
    table.requirements? p =
      if scopes.all (scopesFor principals everyone).contains then some ∅
      else match qualified principals scopes with
        | [] => none
        | names => some (.single ClaimName.webid (.oneOf (names.map .string))) := by
  obtain ⟨resource, hresource, hprincipals⟩ := Option.bind_eq_some_iff.mp hentry
  simp only [requirements?, hresource, hprincipals, hscopes, Option.bind_eq_bind, Option.bind_some]
  rfl

/-- Without an entry for its resource, or without a list of scopes, a permission is asked nothing
for and cannot be granted. -/
theorem asks_of_not_listed
    (h : ∀ principals scopes, table.listed? p = some principals → p.scopes ≠ some scopes) :
    table.Asks p (table.requirements? p) := by
  have hnone : table.requirements? p = none := by
    rw [Option.eq_none_iff_forall_not_mem]
    intro r hr
    simp only [requirements?, Option.bind_eq_bind, Option.mem_def, Option.bind_eq_some_iff] at hr
    obtain ⟨resource, hresource, principals, hprincipals, scopes, hscopes, -⟩ := hr
    exact h principals scopes (Option.bind_eq_some_iff.mpr ⟨resource, hresource, hprincipals⟩)
      hscopes
  rw [hnone]
  refine .impossible ?_ ?_
  · rintro ⟨principals, scopes, hentry, hscopes, -⟩
    exact h principals scopes hentry hscopes
  · rintro name ⟨-, principals, scopes, own, hentry, hscopes, -⟩
    exact h principals scopes hentry hscopes

theorem isOpen_iff {principals : KeyMap (List String)} {scopes : List String}
    (hentry : table.listed? p = some principals) (hscopes : p.scopes = some scopes) :
    table.IsOpen p ↔ scopes.all (scopesFor principals everyone).contains = true := by
  simp [IsOpen, hentry, hscopes]

theorem qualifies_iff {principals : KeyMap (List String)} {scopes : List String}
    (hentry : table.listed? p = some principals) (hscopes : p.scopes = some scopes)
    {principal : String} :
    table.Qualifies p principal ↔ principal ∈ qualified principals scopes := by
  simp [mem_qualified_iff, Qualifies, hentry, hscopes]

theorem asks_requirements? (table : RuleTable) (p : Permission) :
    table.Asks p (table.requirements? p) := by
  by_cases hlisted : ∃ principals scopes, table.listed? p = some principals ∧
      p.scopes = some scopes
  · obtain ⟨principals, scopes, hentry, hscopes⟩ := hlisted
    rw [requirements?_eq hentry hscopes]
    split
    · next hopen => exact .nothing ((isOpen_iff hentry hscopes).mpr hopen)
    · next hclosed =>
      rw [← isOpen_iff hentry hscopes] at hclosed
      split
      · next hnobody =>
        exact .impossible hclosed fun name hname =>
          absurd ((qualifies_iff hentry hscopes).mp hname) (hnobody ▸ List.not_mem_nil)
      · next hsomebody =>
        exact .identity _ hclosed hsomebody fun _ => (qualifies_iff hentry hscopes).symm
  · refine asks_of_not_listed fun principals scopes hentry hscopes => ?_
    exact hlisted ⟨principals, scopes, hentry, hscopes⟩

theorem isMetByAny_oneOf_iff {names : List String} {values : List Json} :
    (Condition.oneOf (names.map .string)).isMetByAny values = true ↔
      ∃ name ∈ names, .string name ∈ values := by
  refine ⟨exists_mem_of_isMetByAny_oneOf, ?_⟩
  rintro ⟨name, hname, hvalue⟩
  refine List.any_eq_true.mpr ⟨_, hvalue, List.any_eq_true.mpr ⟨_, List.mem_map_of_mem hname, ?_⟩⟩
  simp [Json.same]

/-- Claims meet what rules ask for a permission if it is open, or they hold an identity that
qualifies. -/
theorem exists_metBy_iff {claims : Claims} :
    (∃ r, table.requirements? p = some r ∧ r.MetBy claims) ↔
      table.IsOpen p ∨
        ∃ webid, .string webid ∈ claims.values ClaimName.webid ∧ table.Qualifies p webid := by
  have hasks := table.asks_requirements? p
  generalize table.requirements? p = asked at hasks
  cases hasks with
  | nothing isOpen => exact iff_of_true ⟨∅, rfl, Requirements.metBy_empty claims⟩ (.inl isOpen)
  | identity names closed nonempty mem_iff =>
    simp only [Option.some.injEq, exists_eq_left', Requirements.metBy_single_iff,
      isMetByAny_oneOf_iff, mem_iff, closed, false_or]
    exact exists_congr fun _ => and_comm
  | impossible closed nobody => simp [closed, nobody]

theorem withinQuery_iff {required : List Requirements} {query : Requirements} :
    withinQuery required (some query) = true ↔
      ∀ r ∈ required, ∀ name ∈ r.names, name ∈ query.names := by
  simp [withinQuery]

/-- A query leaves what rules ask for as it is, or takes away all of it. -/
theorem credentials_some (table : RuleTable) (permissions : List Permission)
    (query : Requirements) :
    table.credentials permissions (some query) =
      if withinQuery (table.credentials permissions none) (some query) then
        table.credentials permissions none
      else [] := by
  rw [credentials, credentials]
  cases permissions.mapM table.requirements? with
  | none => rfl
  | some required => simp [withinQuery]

end RuleTable

namespace Policy

/-- Whatever the rules, the permissions and the claims: where requirements are struck out, a ticket
for the permissions that has taken in the claims is granted exactly if every permission names a
resource with an entry, lists its scopes, and is either open to everybody, or some identity that was
proven, as a text, qualifies for it. And asked under a query, the rules demand what they demand
without one if all claim names in that are names of the query, and nothing, which is a denial,
otherwise. -/
theorem rules_grant_iff_open_or_qualified (s : ServerState) (permissions : List Permission)
    (claims : Claims) :
    let table := s.rulesInForce
    let demanded := fun query =>
      ((rules.credentials Program.policyData permissions query).run s).1
    (((Strategy.elimination.decides rules permissions claims).run s).1 = true ↔
        ∀ p ∈ permissions, table.IsOpen p ∨
          ∃ webid, .string webid ∈ claims.values ClaimName.webid ∧ table.Qualifies p webid) ∧
      ∀ query : Requirements,
        ((∀ r ∈ demanded .none, ∀ name ∈ r.names, name ∈ query.names) →
            demanded (some query) = demanded .none) ∧
          ((∃ r ∈ demanded .none, ∃ name ∈ r.names, name ∉ query.names) →
            demanded (some query) = []) := by
  intro table demanded
  have hdemanded (query : Option Requirements) :
      demanded query = table.credentials permissions query :=
    ((rules.reads_credentials s.snapshot permissions query).consults rfl).1
  refine ⟨?_, fun query => ?_⟩
  · rw [Strategy.elimination_decides_iff, satisfiedBy_rules_iff]
    exact forall₂_congr fun p _ => RuleTable.exists_metBy_iff
  · rw [hdemanded, hdemanded, RuleTable.credentials_some]
    refine ⟨fun h => if_pos (RuleTable.withinQuery_iff.mpr h), ?_⟩
    rintro ⟨r, hr, name, hname, hother⟩
    exact if_neg fun h => hother (RuleTable.withinQuery_iff.mp h r hr name hname)

/-- Reading is open to everybody and writing is for one person, who is granted both. Asked for under
a query, this needs an identity in the query. -/
theorem sample_rules_grant :
    let permissions := [⟨some "R1", some ["read", "write"]⟩]
    let demanded := fun query =>
      ((rules.credentials Program.policyData permissions query).run Strategy.sampleRules).1
    ((Strategy.elimination.decides rules permissions
        (Strategy.sampleWebid (.string "bob"))).run Strategy.sampleRules).1 = true ∧
      (∀ r ∈ demanded .none, ∀ name ∈ r.names,
        name ∈ (Requirements.single ClaimName.webid .any).names) ∧
      demanded (some (.single ClaimName.webid .any)) = demanded .none ∧
      (∃ r ∈ demanded .none, ∃ name ∈ r.names, name ∉ (∅ : Requirements).names) ∧
      demanded (some ∅) = [] := by
  intro permissions demanded
  obtain ⟨hgrants, hquery⟩ := rules_grant_iff_open_or_qualified Strategy.sampleRules permissions
    (Strategy.sampleWebid (.string "bob"))
  have hwithin : ∀ r ∈ demanded .none, ∀ name ∈ r.names,
      name ∈ (Requirements.single ClaimName.webid .any).names := by decide +kernel
  have hbeyond : ∃ r ∈ demanded .none, ∃ name ∈ r.names, name ∉ (∅ : Requirements).names := by
    decide +kernel
  have hqualifies : Strategy.sampleRules.rulesInForce.Qualifies
      ⟨some "R1", some ["read", "write"]⟩ "bob" := by
    refine ⟨by decide, _, _, _, rfl, rfl, rfl, ?_⟩
    decide +kernel
  refine ⟨hgrants.mpr fun p hp => ?_, hwithin, (hquery _).1 hwithin, hbeyond,
    (hquery ∅).2 hbeyond⟩
  rw [List.mem_singleton.mp hp]
  exact .inr ⟨"bob", List.mem_singleton_self _, hqualifies⟩

end Policy

end UserManagedAccess
