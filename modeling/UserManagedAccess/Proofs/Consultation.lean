import UserManagedAccess.Proofs.Action
import UserManagedAccess.Strategy

/-! Policies look rules and resources up while they decide. What they find is one snapshot of the
state, and looking changes nothing but which rules were read last. -/
namespace UserManagedAccess

namespace ServerState

/-- The rules in force once their file has been looked at. -/
def rulesInForce (s : ServerState) : RuleTable := (Operation.run s .currentRules).1

/-- The state after a look at the file with the rules. -/
def refreshed (s : ServerState) : ServerState := (Operation.run s .currentRules).2

/-- What a policy finds if it decides in this state. -/
def snapshot (s : ServerState) : PolicyData Id := ⟨s.rulesInForce, s.resources.get?⟩

/-- The states that a consultation may leave behind. -/
inductive Consulted (s : ServerState) : ServerState → Prop
  | same : Consulted s s
  | refreshed : Consulted s s.refreshed

private theorem refresh_refresh (cache : RulesCache) (file : FileState) :
    (cache.refresh file).refresh file = cache.refresh file := by
  cases file with
  | absent => rfl
  | notFile => rfl
  | file stamp text =>
    by_cases hseen : stamp = cache.stamp
    · simp [RulesCache.refresh, hseen]
    · cases hparse : RulesCache.parse? text <;> simp [RulesCache.refresh, hseen, hparse]

theorem refreshed_refreshed (s : ServerState) : s.refreshed.refreshed = s.refreshed := by
  cases hcache : s.rulesCache <;>
    simp [ServerState.refreshed, Operation.run, hcache, refresh_refresh]

theorem rulesInForce_refreshed (s : ServerState) : s.refreshed.rulesInForce = s.rulesInForce := by
  cases hcache : s.rulesCache <;>
    simp [ServerState.refreshed, rulesInForce, Operation.run, hcache, refresh_refresh]

theorem refreshed_eq (s : ServerState) :
    s.refreshed = { s with rulesCache := s.rulesCache.map (·.refresh s.rulesFile) } := by
  cases hcache : s.rulesCache <;> simp [ServerState.refreshed, Operation.run, hcache]
  cases s
  simp_all

theorem rulesInForce_eq (s : ServerState) :
    s.rulesInForce = ((s.rulesCache.map (·.refresh s.rulesFile)).map (·.rules)).getD ∅ := by
  cases hcache : s.rulesCache <;> simp [rulesInForce, Operation.run, hcache]

namespace Consulted
variable {s s' s'' : ServerState}

theorem trans (h : Consulted s s') (h' : Consulted s' s'') : Consulted s s'' := by
  cases h with
  | same => exact h'
  | refreshed =>
    cases h' with
    | same => exact .refreshed
    | refreshed => rw [refreshed_refreshed]; exact .refreshed

theorem tickets_eq (h : Consulted s s') : s'.tickets = s.tickets := by
  cases h <;> simp [refreshed_eq]

theorem resources_eq (h : Consulted s s') : s'.resources = s.resources := by
  cases h <;> simp [refreshed_eq]

theorem tokens_eq (h : Consulted s s') : s'.tokens = s.tokens := by
  cases h <;> simp [refreshed_eq]

theorem ids_eq (h : Consulted s s') : s'.ids = s.ids := by
  cases h <;> simp [refreshed_eq]

theorem rulesInForce_eq (h : Consulted s s') : s'.rulesInForce = s.rulesInForce := by
  cases h with
  | same => rfl
  | refreshed => exact rulesInForce_refreshed s

theorem snapshot_eq (h : Consulted s s') : s'.snapshot = s.snapshot := by
  simp [snapshot, h.rulesInForce_eq, h.resources_eq]

end Consulted

end ServerState

/-- The sources of a resource that was looked up; one that is not there has none. -/
def Policy.sourcesOf (found : Option Resource) : List Source := (found.map Resource.sources).getD []

namespace Program
variable {α β : Type}

/-- A program that looks rules and resources up and answers `a`. The rules that it finds are those
of the data; of the resources, only the sources are. -/
inductive Reads (data : PolicyData Id) : Program α → α → Prop
  | done (a : α) : Reads data (.done a) a
  | rules {next : RuleTable → Program α} {a : α} (h : Reads data (next data.rules) a) :
      Reads data (.step .currentRules next) a
  | resource {id : String} {next : Option Resource → Program α} {a : α}
      (h : ∀ found, Policy.sourcesOf found = Policy.sourcesOf (data.resource? id) →
        Reads data (next found) a) : Reads data (.step (.findResource id) next) a

/-- A program that answers `a` and leaves the state as a consultation does. -/
def Consults (p : Program α) (s : ServerState) (a : α) : Prop :=
  (p.run s).1 = a ∧ s.Consulted (p.run s).2

variable {data : PolicyData Id} {p : Program α} {a : α}

theorem Reads.bind (hp : p.Reads data a) {f : α → Program β} {b : β} (hf : (f a).Reads data b) :
    (p >>= f).Reads data b := by
  induction hp with
  | done a => exact hf
  | rules _ ih => exact .rules (ih hf)
  | resource _ ih => exact .resource fun found hfound => ih found hfound hf

/-- A program that only reads finds what the state holds, and leaves everything where it is. -/
theorem Reads.consults (hp : p.Reads data a) {s : ServerState} (hs : s.snapshot = data) :
    p.Consults s a := by
  induction hp generalizing s with
  | done a => exact ⟨rfl, .same⟩
  | @rules next a _ ih =>
    subst hs
    obtain ⟨hanswer, hleft⟩ := ih (s := s.refreshed)
      (ServerState.Consulted.snapshot_eq (.refreshed : s.Consulted s.refreshed))
    exact ⟨hanswer, (ServerState.Consulted.refreshed : s.Consulted s.refreshed).trans hleft⟩
  | @resource id next a _ ih =>
    subst hs
    exact ih (s.resources.get? id) rfl rfl

end Program

namespace Policy
open Program
variable (data : PolicyData Id)

private theorem requireSources_congr (r : Requirements) {found found' : Option Resource}
    (h : sourcesOf found = sourcesOf found') :
    requireSources r found = requireSources r found' := by
  change (sourcesOf found).foldl _ r = (sourcesOf found').foldl _ r
  rw [h]

theorem reads_addSources (permissions : List Permission) (required : List Requirements) :
    (addSources policyData permissions required).Reads data
      (addSources data permissions required) := by
  induction permissions generalizing required with
  | nil => cases required <;> exact .done _
  | cons p ps ih =>
    cases required with
    | nil => exact .done _
    | cons r rs =>
      rw [addSources, addSources]
      cases p.resource with
      | none => exact (ih rs).bind (.done _)
      | some id =>
        refine .resource fun found hfound => ?_
        have hfirst := requireSources_congr r hfound
        exact (ih rs).bind (hfirst ▸ .done _)

theorem reads_credentials (policy : Policy) (permissions : List Permission)
    (query : Option Requirements) :
    (policy.credentials policyData permissions query).Reads data
      (policy.credentials data permissions query) := by
  induction policy with
  | all => exact .done _
  | none => exact .done _
  | namespaced namespaces =>
    simp only [credentials]
    split <;> exact .done _
  | rules => exact .rules (.done _)
  | derived inner ih => exact ih.bind (reads_addSources data permissions _)

theorem reads_permissions (policy : Policy) (claims : Claims)
    (query : Option (List Permission)) :
    (policy.permissions policyData claims query).Reads data
      (policy.permissions data claims query) := by
  induction policy with
  | all => exact .done _
  | none => exact .done _
  | namespaced namespaces =>
    simp only [permissions]
    split <;> exact .done _
  | rules => exact .rules (.done _)
  | derived inner ih => exact ih

/-- What the policy asks for in a state before it grants permissions. -/
def demands (policy : Policy) (s : ServerState) (permissions : List Permission) :
    List Requirements :=
  policy.credentials s.snapshot permissions .none

end Policy

namespace Strategy
open Program

theorem reads_newTicket (data : PolicyData Id) (policy : Policy) (permissions : List Permission) :
    (newTicket policyData policy permissions).Reads data
      ⟨permissions, policy.credentials data permissions none, ∅⟩ :=
  (policy.reads_credentials data permissions none).bind (.done _)

theorem reads_resolves (data : PolicyData Id) (strategy : Strategy) (policy : Policy)
    (ticket : Ticket) :
    (strategy.resolves policyData policy ticket).Reads data
      (strategy.resolves data policy ticket) := by
  cases strategy with
  | elimination => exact .done _
  | immediate => exact (policy.reads_permissions data ticket.provided _).bind (.done _)

/-- A ticket on which nothing has been proven yet. -/
theorem consults_newTicket (policy : Policy) (permissions : List Permission) (s : ServerState) :
    (newTicket policyData policy permissions).Consults s
      ⟨permissions, policy.demands s permissions, ∅⟩ :=
  (reads_newTicket s.snapshot policy permissions).consults rfl

theorem consults_resolves (strategy : Strategy) (policy : Policy) (ticket : Ticket)
    (s : ServerState) :
    (strategy.resolves policyData policy ticket).Consults s
      (strategy.resolves s.snapshot policy ticket) :=
  (reads_resolves s.snapshot strategy policy ticket).consults rfl

end Strategy

end UserManagedAccess
