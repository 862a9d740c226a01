import UserManagedAccess.Proofs.AccessRights
import UserManagedAccess.Proofs.RequestFlaws
import UserManagedAccess.Proofs.SignedTokens

/-! A policy answers twice: which claims have to be proven for permissions, and which permissions
follow from claims. Who has proven what the first answer asks for is entitled by the second as well,
but for an identity that is no text and for a permission with an empty list of scopes. -/
namespace UserManagedAccess

namespace Strategy

theorem areCovered_iff {requested granted : List Permission} :
    areCovered requested granted = true ↔
      requested ≠ [] ∧ ∀ p ∈ requested, ∃ g ∈ granted, g.covers p = true := by
  simp [areCovered]

/-- What is granted as it was asked for is covered. -/
theorem areCovered_self {permissions : List Permission} (hne : permissions ≠ []) :
    areCovered permissions permissions = true :=
  areCovered_iff.mpr ⟨hne, fun p hp => ⟨p, hp, p.covers_refl⟩⟩

end Strategy

theorem Requirements.conditions_single (claim : String) (p : Condition) :
    (single claim p).conditions claim = [p] := by
  simp [single, conditions_require]

/-! ## Rules -/

namespace RuleTable
variable {table : RuleTable} {claims : Claims} {p : Permission}

theorem mem_increasing {text : String} {texts : List String} :
    text ∈ increasing texts ↔ text ∈ texts := by
  have hget : ((KeyMap.ofList (texts.map (·, ()))).get? text).isSome = true ↔ text ∈ texts := by
    rw [KeyMap.get?_ofList]
    simp [List.filter_map, Function.comp_def]
  rw [increasing, KeyMap.keys, List.mem_map, ← hget, Option.isSome_iff_exists]
  constructor
  · rintro ⟨entry, hmem, rfl⟩
    exact ⟨entry.2, KeyMap.get?_eq_some_iff_mem.mpr hmem⟩
  · rintro ⟨value, hvalue⟩
    exact ⟨_, KeyMap.get?_eq_some_iff_mem.mp hvalue, rfl⟩

theorem mem_webids {webid : String} :
    webid ∈ webids claims ↔ .string webid ∈ claims.values ClaimName.webid := by
  simp [webids, List.mem_filterMap, Json.string?_eq_some_iff]

theorem exists_mem_of_isMetByAny_oneOf {names : List String} {values : List Json}
    (h : (Condition.oneOf (names.map .string)).isMetByAny values = true) :
    ∃ name ∈ names, .string name ∈ values := by
  obtain ⟨value, hvalue, hmet⟩ := List.any_eq_true.mp h
  obtain ⟨_, hname, hsame⟩ := List.any_eq_true.mp hmet
  obtain ⟨name, hmem, rfl⟩ := List.mem_map.mp hname
  cases value with
  | string s =>
    have heq : name = s := by simpa [Json.same] using hsame
    exact ⟨name, hmem, heq ▸ hvalue⟩
  | null | bool | number | array | object => simp [Json.same] at hsame

/-- Who may use all of the scopes has each of them for himself, or it is open to everybody. -/
theorem mem_scopesFor_of_mem_qualified {principals : KeyMap (List String)} {scopes : List String}
    {name : String} (h : name ∈ qualified principals scopes) {scope : String}
    (hscope : scope ∈ scopes) :
    scope ∈ scopesFor principals name ∨ scope ∈ scopesFor principals everyone := by
  simp only [qualified, List.mem_map, List.mem_filter, List.all_eq_true, Bool.or_eq_true,
    List.contains_iff_mem] at h
  obtain ⟨⟨name, own⟩, ⟨⟨hentry, -⟩, hmay⟩, rfl⟩ := h
  have hown : scopesFor principals name = own := by
    rw [scopesFor, KeyMap.get?_eq_some_iff_mem.mpr hentry, Option.getD_some]
  exact hown ▸ hmay scope hscope

/-- A permission whose requirements are met names its resource and its scopes, all of which are open
to everybody or to an identity that was proven. -/
theorem allowed_of_metBy {r : Requirements} (h : table.requirements? p = some r)
    (hmet : r.MetBy claims) :
    ∃ resource principals scopes, p = ⟨some resource, some scopes⟩ ∧
      table.resources.get? resource = some principals ∧
      ∀ scope ∈ scopes, scope ∈ allowed principals (webids claims) := by
  obtain ⟨resource, scopes⟩ := p
  simp only [requirements?, Option.pure_def, Option.bind_eq_bind, Option.bind_eq_some_iff] at h
  obtain ⟨resource, rfl, principals, hprincipals, scopes, rfl, h⟩ := h
  refine ⟨resource, principals, scopes, rfl, hprincipals, fun scope hscope => ?_⟩
  rw [allowed, List.mem_append, List.mem_flatMap]
  split at h
  · next hopen =>
    exact .inl (List.contains_iff_mem.mp (List.all_eq_true.mp hopen scope hscope))
  · split at h
    · cases h
    · cases h
      have hlisted := List.mem_singleton_self (Condition.oneOf
        ((qualified principals scopes).map .string))
      rw [← Requirements.conditions_single ClaimName.webid] at hlisted
      obtain ⟨name, hname, hproven⟩ := exists_mem_of_isMetByAny_oneOf (hmet _ _ hlisted)
      exact (mem_scopesFor_of_mem_qualified hname hscope).elim
        (fun hown => .inr ⟨name, mem_webids.mpr hproven, hown⟩) .inl

/-- Of a permission whose requirements are met, all scopes are granted, but none of none. -/
theorem restrict?_of_metBy {r : Requirements} (h : table.requirements? p = some r)
    (hmet : r.MetBy claims) :
    ∃ resource scopes, p = ⟨some resource, some scopes⟩ ∧
      table.restrict? (webids claims) p =
        if scopes = [] then none else some ⟨some resource, some (increasing scopes)⟩ := by
  obtain ⟨resource, principals, scopes, rfl, hprincipals, hallowed⟩ := allowed_of_metBy h hmet
  refine ⟨resource, scopes, rfl, ?_⟩
  have hall : scopes.filter (allowed principals (webids claims)).contains = scopes :=
    List.filter_eq_self.mpr fun scope hscope => List.contains_iff_mem.mpr (hallowed scope hscope)
  have hempty : increasing scopes = [] ↔ scopes = [] := by
    simp only [List.eq_nil_iff_forall_not_mem, mem_increasing]
  simp only [restrict?, Option.bind_eq_bind, Option.bind_some, hprincipals, hall]
  split
  · next hnone => rw [if_pos (hempty.mp hnone)]
  · next hsome => rw [if_neg (fun hnone => hsome (hempty.mpr hnone))]

end RuleTable

/-! ## Two answers -/

namespace Policy

/-- What claims entitle to in a state; without a query, everything is asked for. -/
def granted (policy : Policy) (s : ServerState) (claims : Claims)
    (query : Option (List Permission)) : List Permission :=
  policy.permissions s.snapshot claims query

/-- What claims entitle to of the permissions that are asked for. -/
def entitlements (policy : Policy) (s : ServerState) (claims : Claims)
    (permissions : List Permission) : List Permission :=
  policy.permissions s.snapshot claims (some permissions)

/-- The policy asks for something for each permission, and all of it is met. -/
structure SatisfiedBy (policy : Policy) (s : ServerState) (permissions : List Permission)
    (claims : Claims) : Prop where
  length_eq : (policy.demands s permissions).length = permissions.length
  metBy : ∀ r ∈ policy.demands s permissions, r.MetBy claims

/-- Where both answers agree on who is entitled. -/
def Agrees : Policy → Claims → List Permission → Prop
  | .all, _, _ => True
  | .none, _, _ => True
  | .namespaced _, claims, _ => ∃ webid, .string webid ∈ claims.values ClaimName.webid
  | .rules, _, permissions =>
    ∀ p ∈ permissions, p.scopes = some [] →
      ∃ q ∈ permissions, q.resource = p.resource ∧ q.scopes ≠ some []
  | .derived inner, claims, permissions => inner.Agrees claims permissions

variable {s : ServerState} {permissions : List Permission} {claims : Claims}

theorem granted_namespaced (namespaces : List String) (query : Option (List Permission)) :
    (namespaced namespaces).granted s claims query =
      if (claims.firstText? ClaimName.webid).isNone then []
      else (query.getD [.everything]).filter (inNamespaces namespaces) := by
  simp only [granted, Policy.permissions]
  split <;> rfl

theorem entitlements_namespaced (namespaces : List String) :
    (namespaced namespaces).entitlements s claims permissions =
      if (claims.firstText? ClaimName.webid).isNone then []
      else permissions.filter (inNamespaces namespaces) :=
  granted_namespaced namespaces (some permissions)

/-- Of claims, a policy looks at the values alone. -/
theorem entitlements_congr (policy : Policy) {c d : Claims}
    (h : ∀ name, c.values name = d.values name) :
    policy.entitlements s c permissions = policy.entitlements s d permissions := by
  induction policy with
  | all => rfl
  | none => rfl
  | namespaced namespaces =>
    have hfirst : c.firstText? ClaimName.webid = d.firstText? ClaimName.webid := by
      rw [Claims.firstText?, h, Claims.firstText?]
    rw [entitlements_namespaced, hfirst, entitlements_namespaced]
  | rules =>
    change s.rulesInForce.permissions c (some permissions) =
      s.rulesInForce.permissions d (some permissions)
    simp only [RuleTable.permissions, RuleTable.webids, h]
  | derived inner ih => exact ih

/-- One text among the values makes an identity. -/
theorem firstText?_isSome_iff {name : String} :
    (claims.firstText? name).isSome = true ↔ ∃ text, .string text ∈ claims.values name := by
  simp only [Claims.firstText?, List.isSome_findSome?, List.any_eq_true, Option.isSome_iff_exists,
    Json.string?_eq_some_iff]
  exact ⟨fun ⟨_, hvalue, text, heq⟩ => ⟨text, heq ▸ hvalue⟩, fun ⟨text, h⟩ => ⟨_, h, text, rfl⟩⟩

private theorem areCovered_namespaced_iff {namespaces : List String} (hne : permissions ≠ [])
    (h : (namespaced namespaces).SatisfiedBy s permissions claims) :
    Strategy.areCovered permissions ((namespaced namespaces).entitlements s claims permissions) =
      true ↔ ∃ webid, .string webid ∈ claims.values ClaimName.webid := by
  -- one permission outside would have left nothing asked for, which is a denial
  have hinside : permissions.all (inNamespaces namespaces) = true := by
    have hlength := h.length_eq
    rw [demands_namespaced] at hlength
    split at hlength
    · assumption
    · exact absurd (List.length_eq_zero_iff.mp hlength.symm) hne
  have hfilter : permissions.filter (inNamespaces namespaces) = permissions :=
    List.filter_eq_self.mpr (List.all_eq_true.mp hinside)
  rw [entitlements_namespaced, hfilter, ← firstText?_isSome_iff]
  cases claims.firstText? ClaimName.webid with
  | none =>
    refine iff_of_false (fun hcovered => ?_) (by simp)
    obtain ⟨p, hp⟩ := List.exists_mem_of_ne_nil permissions hne
    obtain ⟨_, hnone, -⟩ := (Strategy.areCovered_iff.mp hcovered).2 p hp
    exact absurd hnone List.not_mem_nil
  | some webid => exact iff_of_true (Strategy.areCovered_self hne) rfl

/-- Claims satisfy rules if something is asked for each permission, and they meet all of it. -/
theorem satisfiedBy_rules_iff :
    rules.SatisfiedBy s permissions claims ↔
      ∀ p ∈ permissions, ∃ r, s.rulesInForce.requirements? p = some r ∧ r.MetBy claims := by
  constructor
  · rintro ⟨hlength, hmet⟩ p hp
    rw [demands_rules] at hlength hmet
    cases hfound : permissions.mapM s.rulesInForce.requirements? with
    | none =>
      rw [hfound] at hlength
      exact absurd (List.length_eq_zero_iff.mp hlength.symm) (List.ne_nil_of_mem hp)
    | some required =>
      rw [hfound] at hmet
      obtain ⟨r, hr, hrequired⟩ := (of_mapM_eq_some hfound).2.1 p hp
      exact ⟨r, hrequired, hmet r hr⟩
  · intro h
    obtain ⟨required, hfound⟩ :=
      exists_mapM_eq_some_iff.mpr fun p hp => (h p hp).imp fun _ => And.left
    obtain ⟨hlength, -, hcame⟩ := of_mapM_eq_some hfound
    constructor <;> rw [demands_rules, hfound, Option.getD_some]
    · exact hlength
    · intro r hr
      obtain ⟨p, hp, hrequired⟩ := hcame r hr
      obtain ⟨r', hrequired', hmet⟩ := h p hp
      cases hrequired.symm.trans hrequired'
      exact hmet

/-- Rules entitle to every permission for which what they ask is met, but for those with an empty
list of scopes. -/
theorem restrict?_of_satisfiedBy (h : rules.SatisfiedBy s permissions claims) {p : Permission}
    (hp : p ∈ permissions) :
    ∃ resource scopes, p = ⟨some resource, some scopes⟩ ∧
      s.rulesInForce.restrict? (RuleTable.webids claims) p =
        if scopes = [] then .none
        else some ⟨some resource, some (RuleTable.increasing scopes)⟩ := by
  obtain ⟨r, hrequired, hmet⟩ := satisfiedBy_rules_iff.mp h p hp
  exact RuleTable.restrict?_of_metBy hrequired hmet

/-- A permission with an empty list of scopes is covered by what is granted of another for the same
resource. -/
private theorem areCovered_rules_iff (hne : permissions ≠ [])
    (h : rules.SatisfiedBy s permissions claims) :
    Strategy.areCovered permissions (rules.entitlements s claims permissions) = true ↔
      ∀ p ∈ permissions, p.scopes = some [] →
        ∃ q ∈ permissions, q.resource = p.resource ∧ q.scopes ≠ some [] := by
  change Strategy.areCovered permissions
    (permissions.filterMap (s.rulesInForce.restrict? (RuleTable.webids claims))) = true ↔ _
  rw [Strategy.areCovered_iff]
  simp only [hne, ne_eq, not_false_eq_true, true_and, List.mem_filterMap]
  constructor
  · intro hcovered p hp hnone
    obtain ⟨g, ⟨q, hq, hgrant⟩, hcovers⟩ := hcovered p hp
    obtain ⟨resource, scopes, rfl, hrestricted⟩ := restrict?_of_satisfiedBy h hq
    obtain ⟨resource', scopes', rfl, -⟩ := restrict?_of_satisfiedBy h hp
    rw [hrestricted] at hgrant
    split at hgrant
    · cases hgrant
    · next hscopes =>
      cases hgrant
      have hsame := (Permission.covers_iff.mp hcovers).1 resource rfl
      exact ⟨_, hq, hsame.symm, by simpa using hscopes⟩
  · intro hothers p hp
    obtain ⟨resource, scopes, rfl, hrestricted⟩ := restrict?_of_satisfiedBy h hp
    by_cases hscopes : scopes = []
    · -- nothing is granted of this one, so it takes another to cover it
      subst hscopes
      obtain ⟨q, hq, hresource, hsome⟩ := hothers _ hp rfl
      obtain ⟨resource', scopes', rfl, hrestricted'⟩ := restrict?_of_satisfiedBy h hq
      rw [if_neg fun hnone => hsome (congrArg some hnone)] at hrestricted'
      exact ⟨_, ⟨_, hq, hrestricted'⟩, Permission.covers_iff.mpr
        ⟨fun _ hid => hresource.symm.trans hid, fun _ _ => ⟨[], rfl, by simp⟩⟩⟩
    · rw [if_neg hscopes] at hrestricted
      refine ⟨_, ⟨_, hp, hrestricted⟩, Permission.covers_iff.mpr ⟨fun _ hid => hid, ?_⟩⟩
      intro listed hlisted
      cases hlisted
      exact ⟨scopes, rfl, fun _ => RuleTable.mem_increasing.mpr⟩

/-- Claims satisfy a policy with the sources of derived resources added if they satisfy the inner one
and prove the sources. -/
theorem satisfiedBy_derived_iff {inner : Policy} :
    (derived inner).SatisfiedBy s permissions claims ↔
      inner.SatisfiedBy s permissions claims ∧
        ∀ p ∈ permissions, ∀ source, s.HasSource p source →
          (sourceRequirement source).isMetByAny (claims.values ClaimName.sourceAccess) = true := by
  constructor
  · rintro ⟨hlength, hmet⟩
    rw [demands_derived] at hlength hmet
    rw [length_withAllSources] at hlength
    obtain ⟨hinner, hsources⟩ := (metBy_withAllSources_iff hlength).mp hmet
    exact ⟨⟨hlength, hinner⟩, hsources⟩
  · rintro ⟨⟨hlength, hinner⟩, hsources⟩
    constructor <;> rw [demands_derived]
    · exact (length_withAllSources s permissions _).trans hlength
    · exact (metBy_withAllSources_iff hlength).mpr ⟨hinner, hsources⟩

/-- Of permissions for which all that is asked for is proven, the claims entitle to all exactly
where both answers agree. -/
theorem areCovered_entitlements_iff (policy : Policy) (hne : permissions ≠ [])
    (h : policy.SatisfiedBy s permissions claims) :
    Strategy.areCovered permissions (policy.entitlements s claims permissions) = true ↔
      policy.Agrees claims permissions := by
  induction policy with
  | all => exact iff_of_true (Strategy.areCovered_self hne) trivial
  | none => exact absurd (List.length_eq_zero_iff.mp h.length_eq.symm) hne
  | namespaced namespaces => exact areCovered_namespaced_iff hne h
  | rules => exact areCovered_rules_iff hne h
  | derived inner ih => exact ih (satisfiedBy_derived_iff.mp h).1

end Policy

/-! ## Two strategies -/

namespace Strategy

/-- Whether a ticket for permissions is granted once it has taken in claims. -/
def decides (strategy : Strategy) (policy : Policy) (permissions : List Permission)
    (claims : Claims) : Program Bool := do
  let ticket ← newTicket Program.policyData policy permissions
  strategy.resolves Program.policyData policy (strategy.absorb ticket claims)

variable (policy : Policy) (permissions : List Permission) (claims : Claims) (s : ServerState)

/-- What is decided depends on what the policy finds in the state. -/
theorem run_decides (strategy : Strategy) :
    ((strategy.decides policy permissions claims).run s).1 =
      strategy.resolves s.snapshot policy
        (strategy.absorb ⟨permissions, policy.demands s permissions, ∅⟩ claims) := by
  obtain ⟨hticket, hs⟩ := consults_newTicket policy permissions s
  rw [decides, Program.run_bind, hticket, (consults_resolves strategy policy _ _).1,
    hs.snapshot_eq]

/-- A ticket on which nothing was struck out yet is settled by claims that meet all that it asks
for, which is something for each permission. -/
theorem isSettled_absorb_iff {required : List Requirements} :
    (elimination.absorb ⟨permissions, required, ∅⟩ claims).isSettled = true ↔
      required.length = permissions.length ∧ ∀ r ∈ required, r.MetBy claims := by
  have hvalues (name : String) : ((∅ : Claims).merge claims).values name = claims.values name := by
    simp
  simp only [Ticket.isSettled, absorb, Bool.and_eq_true, beq_iff_eq, List.length_map, List.all_map,
    List.all_eq_true, Function.comp_apply, Requirements.isEmpty_eliminate_iff, Requirements.MetBy,
    hvalues]

theorem elimination_decides_iff :
    ((Strategy.elimination.decides policy permissions claims).run s).1 = true ↔
      policy.SatisfiedBy s permissions claims := by
  rw [run_decides]
  exact (isSettled_absorb_iff permissions claims).trans
    ⟨fun h => ⟨h.1, h.2⟩, fun h => ⟨h.length_eq, h.metBy⟩⟩

theorem immediate_decides_eq :
    ((Strategy.immediate.decides policy permissions claims).run s).1 =
      areCovered permissions (policy.entitlements s ((∅ : Claims).merge claims) permissions) := by
  rw [run_decides]
  rfl

/-- Whatever the policy, for valid permissions: once claims meet all that is asked for, so that a
ticket for the permissions is granted where requirements are struck out, it is granted as well where
the policy is asked what the claims entitle to, exactly where both answers agree. They do under
every policy but two. One that wants an identity takes any value for one, and entitles by a text
only; and rules ask nothing of a permission with an empty list of scopes, and entitle to it only
along with another of the same resource. -/
theorem immediate_iff_agrees (hvalid : Permission.validateAll permissions = .ok ())
    (hmet : ((Strategy.elimination.decides policy permissions claims).run s).1 = true) :
    ((Strategy.immediate.decides policy permissions claims).run s).1 = true ↔
      policy.Agrees claims permissions := by
  have hsatisfied := (elimination_decides_iff policy permissions claims s).mp hmet
  have hne := (Permission.validateAll_eq_ok_iff.mp hvalid).1
  have hsame : policy.entitlements s ((∅ : Claims).merge claims) permissions =
      policy.entitlements s claims permissions := policy.entitlements_congr fun name => by simp
  rw [immediate_decides_eq, hsame]
  exact Policy.areCovered_entitlements_iff policy hne hsatisfied

/-- Everybody may read, and one person may write as well. -/
def sampleRules : ServerState :=
  { (∅ : ServerState) with
    rulesCache := some
      ⟨⟨.ofList [("R1", .ofList [("*", ["read"]), ("bob", ["write"])])]⟩, ⟨0, 0⟩, 0⟩ }

def sampleWebid (value : Json) : Claims := (∅ : Claims).push ClaimName.webid value

/-- That person is granted reading and writing either way. -/
theorem sample_answers_agree :
    let permissions := [⟨some "R1", some ["read", "write"]⟩, ⟨some "R1", some []⟩]
    Permission.validateAll permissions = .ok () ∧
      ((Strategy.elimination.decides (.derived .rules) permissions
        (sampleWebid (.string "bob"))).run sampleRules).1 = true ∧
      ((Strategy.immediate.decides (.derived .rules) permissions
        (sampleWebid (.string "bob"))).run sampleRules).1 = true := by
  refine ⟨rfl, rfl, (immediate_iff_agrees (.derived .rules) _ _ _ rfl rfl).mpr ?_⟩
  intro p hp _
  refine ⟨_, List.mem_cons_self, ?_, by decide⟩
  rcases List.mem_cons.mp hp with rfl | hp
  · rfl
  · rw [List.mem_singleton.mp hp]

/-- Reading with no scopes is granted outright where requirements are struck out, and refused where
the rules are asked; so it goes with a number in the place of an identity. -/
theorem sample_answers_differ :
    let nothing := [(⟨some "R1", some []⟩ : Permission)]
    let reading := [(⟨some "R1", some ["read"]⟩ : Permission)]
    Permission.validateAll nothing = .ok () ∧
      ((Strategy.elimination.decides .rules nothing ∅).run sampleRules).1 = true ∧
      ((Strategy.immediate.decides .rules nothing ∅).run sampleRules).1 = false ∧
      Permission.validateAll reading = .ok () ∧
      ((Strategy.elimination.decides (.namespaced []) reading
        (sampleWebid (.ofNat 42))).run ∅).1 = true ∧
      ((Strategy.immediate.decides (.namespaced []) reading
        (sampleWebid (.ofNat 42))).run ∅).1 = false :=
  ⟨rfl, rfl, rfl, rfl, rfl, rfl⟩

end Strategy

end UserManagedAccess
