import UserManagedAccess.Policy.Rules
import UserManagedAccess.Resource

/-! Policies decide what is granted: which permissions follow from claims, and which claims are
needed for permissions. -/
namespace UserManagedAccess

inductive Policy where
  /-- Everything is granted to everybody. -/
  | all
  /-- Nothing is granted. -/
  | none
  /-- Everybody with an identity may use resources whose names start in one of these ways; if there
  is no such restriction, all resources. -/
  | namespaced (namespaces : List String)
  | rules
  /-- Asks, on top of the inner policy, for the right to read what a resource was derived from. -/
  | derived (inner : Policy)
  deriving DecidableEq, Repr, Inhabited

/-- What policies look up while they decide. -/
structure PolicyData (m : Type → Type) where
  rules : m RuleTable
  resource? : String → m (Option Resource)

namespace Policy

/-- Whether a resource lies in one of the namespaces. -/
def inNamespaces (namespaces : List String) (p : Permission) : Bool :=
  namespaces.isEmpty ||
    p.resource.any fun id => namespaces.any fun ns => ns.toList.isPrefixOf id.toList

/-- The right to read what a resource was derived from. -/
def sourceRequirement (source : Source) : Condition :=
  .sourceAccess source.issuer source.derivationId

def requireSources (required : Requirements) (found : Option Resource) : Requirements :=
  let sources := (found.map Resource.sources).getD []
  sources.foldl (fun r s => r.require ClaimName.sourceAccess (sourceRequirement s)) required

variable {m : Type → Type} [Monad m]

/-- Adds to each permission's requirements those of its sources. A permission that has no
requirements, because it is denied, gets none. -/
def addSources (data : PolicyData m) : List Permission → List Requirements → m (List Requirements)
  | p :: ps, r :: rs => do
    let extended ←
      match p.resource with
      | .none => pure r
      | some id => do
        let found ← data.resource? id
        pure (requireSources r found)
    let rest ← addSources data ps rs
    return extended :: rest
  | _, rs => return rs

/-- The permissions that claims entitle to; without a query, everything is asked for. -/
def permissions (data : PolicyData m) (claims : Claims) (query : Option (List Permission)) :
    Policy → m (List Permission)
  | .all => return query.getD [.everything]
  | .none => return []
  | .namespaced namespaces =>
    if (claims.firstText? ClaimName.webid).isNone then return []
    else return (query.getD [.everything]).filter (inNamespaces namespaces)
  | .rules => do
    let table ← data.rules
    return table.permissions claims query
  | .derived inner => permissions data claims query inner

/-- What has to be proven for each of the permissions; a list that is too short is a denial. -/
def credentials (data : PolicyData m) (permissions : List Permission)
    (query : Option Requirements) : Policy → m (List Requirements)
  | .all => return permissions.map fun _ => ∅
  | .none => return []
  | .namespaced namespaces =>
    if permissions.all (inNamespaces namespaces) then
      return permissions.map fun _ => .single ClaimName.webid .any
    else return []
  | .rules => do
    let table ← data.rules
    return table.credentials permissions query
  | .derived inner => do
    let required ← credentials data permissions query inner
    addSources data permissions required

end Policy

end UserManagedAccess
