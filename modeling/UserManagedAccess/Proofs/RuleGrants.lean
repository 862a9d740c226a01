import Mathlib.Data.List.Sort
import UserManagedAccess.Proofs.MoreClaims

/-! What rules grant of the permissions that are asked for: of each exactly the scopes that were
asked for and that everybody or a proven identity may use, in order and each once. A permission
without such a scope is left out. -/
namespace UserManagedAccess

namespace RuleTable
variable {table : RuleTable} {claims : Claims} {p : Permission}

/-- The scope is one of those that were asked for, if they were listed, and the entry of the
resource has it for everybody or for an identity that was proven, as a text. -/
def Offers (table : RuleTable) (claims : Claims) (p : Permission) (scope : String) : Prop :=
  (∀ requested, p.scopes = some requested → scope ∈ requested) ∧
    ∃ principals, table.listed? p = some principals ∧
      (scope ∈ scopesFor principals everyone ∨
        ∃ webid, .string webid ∈ claims.values ClaimName.webid ∧
          scope ∈ scopesFor principals webid)

/-- What permissions are answered with, in their order: one that has scopes to offer with all of
these, in increasing order, and one that has none with nothing. -/
inductive Awards (table : RuleTable) (claims : Claims) :
    List Permission → List Permission → Prop
  | nil : Awards table claims [] []
  | dropped {p : Permission} {asked granted : List Permission}
      (useless : ∀ scope, ¬ table.Offers claims p scope)
      (rest : Awards table claims asked granted) : Awards table claims (p :: asked) granted
  | kept {p : Permission} {asked granted : List Permission} {scopes : List String}
      (useful : ∃ scope, table.Offers claims p scope)
      (increasing : scopes.Pairwise (· < ·))
      (mem_iff : ∀ scope, scope ∈ scopes ↔ table.Offers claims p scope)
      (rest : Awards table claims asked granted) :
      Awards table claims (p :: asked) (⟨p.resource, some scopes⟩ :: granted)

theorem Awards.unique {asked granted granted' : List Permission}
    (h : table.Awards claims asked granted) (h' : table.Awards claims asked granted') :
    granted = granted' := by
  induction h generalizing granted' with
  | nil =>
    cases h'
    rfl
  | dropped useless _ ih =>
    cases h' with
    | dropped _ rest => exact ih rest
    | kept useful => exact absurd useful.choose_spec (useless _)
  | kept useful increasing mem_iff _ ih =>
    cases h' with
    | dropped useless => exact absurd useful.choose_spec (useless _)
    | kept _ increasing' mem_iff' rest =>
      -- scopes in increasing order are known by which they are
      rw [ih rest, increasing.eq_of_mem_iff increasing' fun scope =>
        (mem_iff scope).trans (mem_iff' scope).symm]

theorem offers_iff_usable {scope : String} :
    table.Offers claims p scope ↔ table.Usable (webids claims) p scope := by
  simp only [Offers, Usable, allowed, List.mem_append, List.mem_flatMap, mem_webids]
  exact and_comm

theorem pairwise_increasing (texts : List String) : (increasing texts).Pairwise (· < ·) :=
  List.pairwise_map.mpr (KeyMap.ofList (texts.map (·, ()))).sorted

theorem pairwise_of_restrict?_eq_some {webids scopes : List String} {resource : Option String}
    (h : table.restrict? webids p = some ⟨resource, some scopes⟩) :
    scopes.Pairwise (· < ·) := by
  simp only [restrict?, Option.bind_eq_bind, Option.bind_eq_some_iff] at h
  obtain ⟨_, -, _, -, h⟩ := h
  split at h
  · cases h
  · cases h
    exact pairwise_increasing _

/-- Permissions are answered one by one, each by what is left of it. -/
theorem awards_filterMap (table : RuleTable) (claims : Claims) (asked : List Permission) :
    table.Awards claims asked (asked.filterMap (table.restrict? (webids claims))) := by
  induction asked with
  | nil => exact .nil
  | cons p rest ih =>
    have hp := table.restricts_restrict? (webids claims) p
    cases hgranted : table.restrict? (webids claims) p with
    | none =>
      rw [hgranted] at hp
      rw [List.filterMap_cons_none hgranted]
      cases hp with
      | nothing unusable =>
        exact .dropped (fun scope => mt offers_iff_usable.mp (unusable scope)) ih
    | some g =>
      rw [hgranted] at hp
      rw [List.filterMap_cons_some hgranted]
      cases hp with
      | granted scopes nonempty mem_iff =>
        have hoffers (scope : String) : scope ∈ scopes ↔ table.Offers claims p scope :=
          (mem_iff scope).trans offers_iff_usable.symm
        obtain ⟨scope, hscope⟩ := List.exists_mem_of_ne_nil scopes nonempty
        exact .kept ⟨scope, (hoffers scope).mp hscope⟩ (pairwise_of_restrict?_eq_some hgranted)
          hoffers ih

end RuleTable

namespace Policy

/-- Whatever the rules and the claims: what rules grant of the permissions of a query, or, without a
query, of every resource that has an entry, is one permission for each that has a scope to offer, in
their order, for the same resource and with exactly the scopes that it has to offer; and nothing
else. -/
theorem rules_permissions_eq_iff_awards (s : ServerState) (claims : Claims)
    (query : Option (List Permission)) (granted : List Permission) :
    let table := s.rulesInForce
    let asked := query.getD (table.resources.keys.map fun resource => ⟨some resource, .none⟩)
    ((rules.permissions Program.policyData claims query).run s).1 = granted ↔
      table.Awards claims asked granted := by
  intro table asked
  have hawards : table.Awards claims asked
      ((rules.permissions Program.policyData claims query).run s).1 := by
    rw [run_permissions]
    exact table.awards_filterMap claims asked
  constructor
  · rintro rfl
    exact hawards
  · exact hawards.unique

/-- Of all resources, the person who may write may read as well. -/
example : ((rules.permissions Program.policyData (Strategy.sampleWebid (.string "bob")) .none).run
    Strategy.sampleRules).1 = [⟨some "R1", some ["read", "write"]⟩] := rfl

end Policy

end UserManagedAccess
