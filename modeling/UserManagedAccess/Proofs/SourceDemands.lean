import UserManagedAccess.Proofs.Entitlements

/-! What a policy gains when the sources of derived resources are added to it: the right to read
each of them has to be proven as well. Nothing that the inner policy asks for gets lost, and what it
denies stays denied; it may be any policy at all, also one that is not of this library. -/
namespace UserManagedAccess

/-- The right to read the source was proven: its issuer and its handle are named exactly. -/
def Claims.ProvesSource (claims : Claims) (source : Source) : Prop :=
  ∃ value ∈ claims.values ClaimName.sourceAccess,
    value.member? "issuer" = some (.string source.issuer) ∧
      value.member? "derivation_resource_id" = some (.string source.derivationId)

/-- Of every permission that names a registered resource, all sources of the resource were proven.
-/
def ServerState.SourcesProven (s : ServerState) (permissions : List Permission)
    (claims : Claims) : Prop :=
  ∀ p ∈ permissions, ∀ source, s.HasSource p source → claims.ProvesSource source

namespace Policy
variable {s : ServerState} {permissions : List Permission} {claims : Claims}

theorem isMetByAny_sourceRequirement_iff {source : Source} :
    (sourceRequirement source).isMetByAny (claims.values ClaimName.sourceAccess) = true ↔
      claims.ProvesSource source := by
  simp only [Condition.isMetByAny, sourceRequirement, Condition.isMetBy, Claims.ProvesSource,
    List.any_eq_true, Bool.and_eq_true, beq_iff_eq, Json.text?_eq_some_iff]

theorem run_addSources (s : ServerState) (permissions : List Permission)
    (required : List Requirements) :
    ((addSources Program.policyData permissions required).run s).1 =
      withAllSources s permissions required :=
  ((reads_addSources s.snapshot permissions required).consults rfl).1

theorem run_credentials (policy : Policy) (s : ServerState) (permissions : List Permission)
    (query : Option Requirements) :
    ((policy.credentials Program.policyData permissions query).run s).1 =
      policy.credentials s.snapshot permissions query :=
  ((policy.reads_credentials s.snapshot permissions query).consults rfl).1

/-- Whatever the registered resources, the permissions and the claims, and whatever is required of
the permissions so far, by a policy of any kind: with the sources of derived resources added there
are as many requirements as before, and each asks under each name for what it asked for before, and
for the right to read the sources of its permission. So a ticket for the permissions that has taken
in the claims is granted exactly if it is without the sources, and the claims prove every source of
every resource that is named. For the policies of this library it is the same, and a query changes
nothing about it. -/
theorem derived_grants_iff_sources_proven (s : ServerState) (permissions : List Permission)
    (claims : Claims) :
    (∀ required : List Requirements,
      let extended := ((addSources Program.policyData permissions required).run s).1
      let settled := fun required =>
        (Strategy.elimination.absorb ⟨permissions, required, ∅⟩ claims).isSettled = true
      extended.length = required.length ∧
        (∀ (i : Nat) r, required[i]? = some r → ∃ r', extended[i]? = some r' ∧
          ∀ name c, c ∈ r'.conditions name ↔ c ∈ r.conditions name ∨
            name = ClaimName.sourceAccess ∧ ∃ p source, permissions[i]? = some p ∧
              s.HasSource p source ∧ c = sourceRequirement source) ∧
        (settled extended ↔ settled required ∧ s.SourcesProven permissions claims)) ∧
    ∀ inner : Policy,
      (∀ query : Option Requirements,
        ((derived inner).credentials Program.policyData permissions query |>.run s).1.length =
          (inner.credentials Program.policyData permissions query |>.run s).1.length) ∧
      (((Strategy.elimination.decides (derived inner) permissions claims).run s).1 = true ↔
        ((Strategy.elimination.decides inner permissions claims).run s).1 = true ∧
          s.SourcesProven permissions claims) := by
  refine ⟨fun required => ?_, fun inner => ⟨fun query => ?_, ?_⟩⟩
  · intro extended settled
    have hextended : extended = withAllSources s permissions required :=
      run_addSources s permissions required
    have hlength : extended.length = required.length :=
      hextended ▸ length_withAllSources s permissions required
    refine ⟨hlength, fun i r hr => ?_, ?_⟩
    · have hat := getElem?_withAllSources s permissions required i
      rw [hr, ← hextended] at hat
      refine ⟨_, hat, fun name c => ?_⟩
      cases hp : permissions[i]? with
      | none => simp
      | some p => simp [mem_conditions_withSources]
    · simp only [settled, Strategy.isSettled_absorb_iff, hlength]
      rw [and_assoc]
      refine and_congr_right fun hall => ?_
      rw [hextended, metBy_withAllSources_iff hall]
      simp only [isMetByAny_sourceRequirement_iff, ServerState.SourcesProven]
  · rw [run_credentials, run_credentials]
    exact length_withAllSources s permissions _
  · rw [Strategy.elimination_decides_iff, Strategy.elimination_decides_iff,
      satisfiedBy_derived_iff]
    simp only [isMetByAny_sourceRequirement_iff, ServerState.SourcesProven]

end Policy

end UserManagedAccess
