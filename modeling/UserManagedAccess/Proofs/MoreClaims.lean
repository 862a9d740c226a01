import UserManagedAccess.Proofs.RuleDecisions

/-! Claims only help. Whatever is granted to somebody who has proven some claims is granted to
somebody who has proven more, and nothing is granted that was not asked for. -/
namespace UserManagedAccess

namespace Permission

theorem everything_covers (p : Permission) : everything.covers p = true := rfl

theorem covers_of_same_resource {p q : Permission} (hresource : p.resource = q.resource)
    {scopes : List String} (hscopes : q.scopes = some scopes)
    (h : ∀ listed, p.scopes = some listed → ∀ scope ∈ scopes, scope ∈ listed) :
    p.covers q = true :=
  covers_iff.mpr ⟨fun _ hid => hresource ▸ hid, fun listed hlisted => ⟨_, hscopes, h listed hlisted⟩⟩

end Permission

namespace Claims
variable {c d e : Claims}

/-- Every value that is held is held, under the same name, among the others. -/
def Within (c d : Claims) : Prop := ∀ name, ∀ value ∈ c.values name, value ∈ d.values name

theorem within_merge_left (c d : Claims) : c.Within (c.merge d) := by
  intro name value hvalue
  rw [values_merge]
  exact List.mem_append_left _ hvalue

theorem within_merge_right (c d : Claims) : c.Within (d.merge c) := by
  intro name value hvalue
  rw [values_merge]
  exact List.mem_append_right _ hvalue

theorem Within.merge (h : c.Within d) (e : Claims) : (e.merge c).Within (e.merge d) := by
  intro name value hvalue
  rw [values_merge, List.mem_append] at hvalue ⊢
  exact hvalue.imp id (h name value)

end Claims

theorem Requirements.MetBy.mono {r : Requirements} {c d : Claims} (h : r.MetBy c)
    (hmore : c.Within d) : r.MetBy d := by
  intro name p hp
  obtain ⟨value, hvalue, hmet⟩ := List.any_eq_true.mp (h name p hp)
  exact List.any_eq_true.mpr ⟨value, hmore name value hvalue, hmet⟩

/-! ## Entitlements -/

namespace RuleTable
variable {table : RuleTable} {webids webids' : List String} {p : Permission}

/-- A scope that was asked for of a resource, and that is open to everybody or belongs to one of the
identities. -/
def Usable (table : RuleTable) (webids : List String) (p : Permission) (scope : String) : Prop :=
  (∃ principals, table.listed? p = some principals ∧ scope ∈ allowed principals webids) ∧
    ∀ requested, p.scopes = some requested → scope ∈ requested

theorem Usable.mono {scope : String} (h : table.Usable webids p scope)
    (hmore : ∀ webid ∈ webids, webid ∈ webids') : table.Usable webids' p scope := by
  obtain ⟨⟨principals, hentry, hallowed⟩, hasked⟩ := h
  refine ⟨⟨principals, hentry, ?_⟩, hasked⟩
  rw [allowed, List.mem_append, List.mem_flatMap] at hallowed ⊢
  refine hallowed.imp id ?_
  rintro ⟨webid, hwebid, hscope⟩
  exact ⟨webid, hmore webid hwebid, hscope⟩

/-- What is granted of a permission: the scopes that may be used, if there is one. -/
inductive Restricts (table : RuleTable) (webids : List String) (p : Permission) :
    Option Permission → Prop
  | nothing (unusable : ∀ scope, ¬ table.Usable webids p scope) : Restricts table webids p none
  | granted (scopes : List String) (nonempty : scopes ≠ [])
      (mem_iff : ∀ scope, scope ∈ scopes ↔ table.Usable webids p scope) :
      Restricts table webids p (some ⟨p.resource, some scopes⟩)

/-- The scopes that may be used, of those that were asked for if they were listed. -/
private def usableScopes (principals : KeyMap (List String)) (webids : List String)
    (asked : Option (List String)) : List String :=
  match asked with
  | some requested => requested.filter (allowed principals webids).contains
  | none => allowed principals webids

private theorem restrict?_eq {principals : KeyMap (List String)}
    (hentry : table.listed? p = some principals) :
    table.restrict? webids p =
      match increasing (usableScopes principals webids p.scopes) with
      | [] => none
      | scopes => some ⟨p.resource, some scopes⟩ := by
  obtain ⟨resource, hresource, hprincipals⟩ := Option.bind_eq_some_iff.mp hentry
  simp only [restrict?, hresource, Option.bind_eq_bind, Option.bind_some, hprincipals]
  rfl

private theorem mem_usableScopes_iff {principals : KeyMap (List String)}
    (hentry : table.listed? p = some principals) {scope : String} :
    scope ∈ usableScopes principals webids p.scopes ↔ table.Usable webids p scope := by
  cases hscopes : p.scopes <;> simp [usableScopes, Usable, hentry, hscopes, and_comm]

theorem restricts_restrict? (table : RuleTable) (webids : List String) (p : Permission) :
    table.Restricts webids p (table.restrict? webids p) := by
  cases hentry : table.listed? p with
  | none =>
    have hnone : table.restrict? webids p = none := by
      cases hresource : p.resource with
      | none => simp [restrict?, hresource]
      | some resource =>
        have hunknown : table.resources.get? resource = none := by
          simpa [listed?, hresource] using hentry
        simp [restrict?, hresource, hunknown]
    rw [hnone]
    refine .nothing ?_
    rintro scope ⟨⟨_, hfound, -⟩, -⟩
    cases hentry.symm.trans hfound
  | some principals =>
    rw [restrict?_eq hentry]
    split
    · next hnone =>
      refine .nothing fun scope hscope => ?_
      have hmem := mem_increasing.mpr ((mem_usableScopes_iff hentry).mpr hscope)
      exact absurd hmem (hnone ▸ List.not_mem_nil)
    · next hsome =>
      exact .granted _ hsome fun scope =>
        mem_increasing.trans (mem_usableScopes_iff hentry)

/-- Nothing is granted that was not asked for. -/
theorem covers_of_restrict?_eq_some {g : Permission} (h : table.restrict? webids p = some g) :
    p.covers g = true := by
  have hrestricts := table.restricts_restrict? webids p
  rw [h] at hrestricts
  cases hrestricts with
  | granted scopes nonempty mem_iff =>
    refine Permission.covers_of_same_resource rfl rfl fun listed hlisted scope hscope => ?_
    exact ((mem_iff scope).mp hscope).2 listed hlisted

/-- With more identities, as much is granted or more. -/
theorem exists_restrict?_covers {g : Permission} (h : table.restrict? webids p = some g)
    (hmore : ∀ webid ∈ webids, webid ∈ webids') :
    ∃ g', table.restrict? webids' p = some g' ∧ g'.covers g = true := by
  have hless := table.restricts_restrict? webids p
  have hgrants := table.restricts_restrict? webids' p
  rw [h] at hless
  cases hless with
  | granted scopes nonempty mem_iff =>
    have husable : ∀ scope ∈ scopes, table.Usable webids' p scope :=
      fun scope hscope => ((mem_iff scope).mp hscope).mono hmore
    generalize table.restrict? webids' p = granted at hgrants ⊢
    cases hgrants with
    | nothing unusable =>
      obtain ⟨scope, hscope⟩ := List.exists_mem_of_ne_nil scopes nonempty
      exact absurd (husable scope hscope) (unusable scope)
    | granted scopes' nonempty' mem_iff' =>
      refine ⟨_, rfl, Permission.covers_of_same_resource rfl rfl ?_⟩
      rintro _ ⟨⟩ scope hscope
      exact (mem_iff' scope).mpr (husable scope hscope)

end RuleTable

namespace Policy
variable {s : ServerState} {c d : Claims} {query : Option (List Permission)}

theorem run_permissions (policy : Policy) (s : ServerState) (claims : Claims)
    (query : Option (List Permission)) :
    ((policy.permissions Program.policyData claims query).run s).1 =
      policy.granted s claims query :=
  ((policy.reads_permissions s.snapshot claims query).consults rfl).1

/-- Whatever claims entitle to is part of what was asked for. -/
theorem exists_covers_of_mem_granted (policy : Policy) {g : Permission}
    (h : g ∈ policy.granted s c query) :
    ∃ q ∈ query.getD [.everything], q.covers g = true := by
  cases query with
  | none => exact ⟨_, List.mem_singleton_self _, g.everything_covers⟩
  | some asked =>
    induction policy with
    | all => exact ⟨g, h, g.covers_refl⟩
    | none => cases h
    | namespaced namespaces =>
      rw [granted_namespaced] at h
      split at h
      · cases h
      · exact ⟨g, (List.mem_filter.mp h).1, g.covers_refl⟩
    | rules =>
      obtain ⟨q, hq, hgranted⟩ := List.mem_filterMap.mp h
      exact ⟨q, hq, RuleTable.covers_of_restrict?_eq_some hgranted⟩
    | derived inner ih => exact ih h

/-- What fewer claims entitle to, more claims entitle to as well. -/
theorem exists_mem_granted_covers (policy : Policy) (hmore : c.Within d) {g : Permission}
    (h : g ∈ policy.granted s c query) :
    ∃ g' ∈ policy.granted s d query, g'.covers g = true := by
  induction policy with
  | all => exact ⟨g, h, g.covers_refl⟩
  | none => cases h
  | namespaced namespaces =>
    rw [granted_namespaced] at h ⊢
    split at h
    · cases h
    · next hidentity =>
      rw [Bool.not_eq_true, Option.isNone_eq_false_iff, firstText?_isSome_iff] at hidentity
      obtain ⟨webid, hwebid⟩ := hidentity
      have hstill : (d.firstText? ClaimName.webid).isNone = false :=
        Option.isNone_eq_false_iff.mpr (firstText?_isSome_iff.mpr ⟨webid, hmore _ _ hwebid⟩)
      rw [hstill, if_neg Bool.false_ne_true]
      exact ⟨g, h, g.covers_refl⟩
  | rules =>
    obtain ⟨q, hq, hgranted⟩ := List.mem_filterMap.mp h
    obtain ⟨g', hgranted', hcovers⟩ := RuleTable.exists_restrict?_covers hgranted
      fun webid hwebid => RuleTable.mem_webids.mpr (hmore _ _ (RuleTable.mem_webids.mp hwebid))
    exact ⟨g', List.mem_filterMap.mpr ⟨q, hq, hgranted'⟩, hcovers⟩
  | derived inner ih => exact ih h

end Policy

/-! ## Tickets -/

namespace Strategy

/-- What a ticket is resolved to: its permissions, if they are granted. -/
def resolution (strategy : Strategy) (policy : Policy) (ticket : Ticket) :
    Program (Option (List Permission)) := do
  if ← strategy.resolves Program.policyData policy ticket then return some ticket.permissions
  else return none

/-- A ticket once it holds the claims. -/
def holding (strategy : Strategy) (ticket : Ticket) (provided : Claims) : Ticket :=
  match strategy with
  | .elimination => ⟨ticket.permissions, ticket.required.map (·.eliminate provided), provided⟩
  | .immediate => { ticket with provided }

variable {strategy : Strategy} {policy : Policy} {s : ServerState} {ticket : Ticket}
  {c d : Claims}

theorem absorb_eq (strategy : Strategy) (ticket : Ticket) (claims : Claims) :
    strategy.absorb ticket claims = strategy.holding ticket (ticket.provided.merge claims) := by
  cases strategy <;> rfl

/-- Claims that are taken in one after the other are held together. -/
theorem absorb_absorb (strategy : Strategy) (ticket : Ticket) (c d : Claims) :
    strategy.absorb (strategy.absorb ticket c) d =
      strategy.holding ticket ((ticket.provided.merge c).merge d) := by
  cases strategy with
  | elimination =>
    simp only [absorb, holding, List.map_map, Function.comp_def,
      Requirements.eliminate_eliminate_merge]
  | immediate => rfl

theorem permissions_holding (strategy : Strategy) (ticket : Ticket) (provided : Claims) :
    (strategy.holding ticket provided).permissions = ticket.permissions := by
  cases strategy <;> rfl

theorem run_resolution_eq_some_iff {permissions : List Permission} :
    ((strategy.resolution policy ticket).run s).1 = some permissions ↔
      strategy.resolves s.snapshot policy ticket = true ∧ ticket.permissions = permissions := by
  rw [resolution, Program.run_bind, (consults_resolves strategy policy ticket s).1]
  cases hresolves : strategy.resolves s.snapshot policy ticket with
  | true => simp [Program.run_pure]
  | false => simp [Program.run_pure]

theorem isSettled_holding_iff {provided : Claims} :
    (elimination.holding ticket provided).isSettled = true ↔
      ticket.required.length = ticket.permissions.length ∧
        ∀ r ∈ ticket.required, r.MetBy provided := by
  simp only [Ticket.isSettled, holding, Bool.and_eq_true, beq_iff_eq, List.length_map,
    List.all_map, List.all_eq_true, Function.comp_apply, Requirements.isEmpty_eliminate_iff]

/-- A ticket that is granted with some claims is granted with more of them. -/
theorem resolves_mono (hmore : c.Within d)
    (h : strategy.resolves s.snapshot policy (strategy.holding ticket c) = true) :
    strategy.resolves s.snapshot policy (strategy.holding ticket d) = true := by
  cases strategy with
  | elimination =>
    obtain ⟨hlength, hmet⟩ := isSettled_holding_iff.mp h
    exact isSettled_holding_iff.mpr ⟨hlength, fun r hr => (hmet r hr).mono hmore⟩
  | immediate =>
    obtain ⟨hne, hcovered⟩ := areCovered_iff.mp h
    refine areCovered_iff.mpr ⟨hne, fun p hp => ?_⟩
    obtain ⟨g, hg, hcovers⟩ := hcovered p hp
    obtain ⟨g', hg', hcovers'⟩ := policy.exists_mem_granted_covers hmore hg
    exact ⟨g', hg', Permission.covers_trans hcovers' hcovers⟩

theorem resolution_mono (hmore : c.Within d) {permissions : List Permission}
    (h : ((strategy.resolution policy (strategy.holding ticket c)).run s).1 = some permissions) :
    ((strategy.resolution policy (strategy.holding ticket d)).run s).1 = some permissions := by
  rw [run_resolution_eq_some_iff, permissions_holding] at h ⊢
  exact h.imp (resolves_mono hmore) id

/-- Whatever the strategy, the policy and the ticket: if the ticket is granted once it has taken in
some claims, the same is granted if other claims are merged with them in either order, or are taken
in afterwards. And whatever is asked for, the claims entitle to nothing that is not part of it, and
to nothing that they would not entitle to along with the others. -/
theorem more_claims_keep_grants (strategy : Strategy) (policy : Policy) (s : ServerState)
    (ticket : Ticket) (c d : Claims) :
    (∀ permissions,
        ((strategy.resolution policy (strategy.absorb ticket c)).run s).1 = some permissions →
          ((strategy.resolution policy (strategy.absorb ticket (c.merge d))).run s).1 =
              some permissions ∧
            ((strategy.resolution policy (strategy.absorb ticket (d.merge c))).run s).1 =
              some permissions ∧
            ((strategy.resolution policy (strategy.absorb (strategy.absorb ticket c) d)).run s).1 =
              some permissions) ∧
      ∀ query : Option (List Permission),
        let granted := fun claims =>
          ((policy.permissions Program.policyData claims query).run s).1
        ∀ g ∈ granted c, (∃ q ∈ query.getD [.everything], q.covers g = true) ∧
          (∃ g' ∈ granted (c.merge d), g'.covers g = true) ∧
          ∃ g' ∈ granted (d.merge c), g'.covers g = true := by
  refine ⟨fun permissions h => ?_, fun query => ?_⟩
  · rw [absorb_eq] at h
    rw [absorb_eq, absorb_eq, absorb_absorb]
    exact ⟨resolution_mono ((c.within_merge_left d).merge _) h,
      resolution_mono ((c.within_merge_right d).merge _) h,
      resolution_mono (Claims.within_merge_left _ d) h⟩
  · simp only [Policy.run_permissions]
    intro g hg
    exact ⟨policy.exists_covers_of_mem_granted hg,
      policy.exists_mem_granted_covers (c.within_merge_left d) hg,
      policy.exists_mem_granted_covers (c.within_merge_right d) hg⟩

/-- The person who may write is still granted when somebody else's identity stands before theirs. -/
theorem sample_more_claims :
    let permissions := [⟨some "R1", some ["read", "write"]⟩]
    let ticket := ((newTicket Program.policyData .rules permissions).run sampleRules).1
    let theirs := sampleWebid (.string "bob")
    let other := sampleWebid (.string "alice")
    let resolved := fun ticket => ((immediate.resolution .rules ticket).run sampleRules).1
    let granted := fun claims =>
      ((Policy.rules.permissions Program.policyData claims (some permissions)).run sampleRules).1
    resolved (immediate.absorb ticket theirs) = some permissions ∧
      resolved (immediate.absorb ticket (other.merge theirs)) = some permissions ∧
      granted theirs = permissions ∧
      ∃ g ∈ granted (other.merge theirs), g.covers ⟨some "R1", some ["read", "write"]⟩ = true := by
  intro permissions ticket theirs other resolved granted
  obtain ⟨hkept, hentitled⟩ := more_claims_keep_grants .immediate .rules sampleRules ticket theirs
    other
  have hresolved : resolved (immediate.absorb ticket theirs) = some permissions := by
    decide +kernel
  have hgranted : granted theirs = permissions := rfl
  have hmem : ⟨some "R1", some ["read", "write"]⟩ ∈ granted theirs :=
    hgranted ▸ List.mem_singleton_self _
  exact ⟨hresolved, (hkept _ hresolved).2.1, hgranted, (hentitled (some permissions) _ hmem).2.2⟩

end Strategy

end UserManagedAccess
