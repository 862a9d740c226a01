import UserManagedAccess.Policy.Basic
import UserManagedAccess.Ticket

/-! How tickets are set up, take in claims and are decided on. -/
namespace UserManagedAccess

inductive Strategy where
  /-- Strikes out requirements as they are met; a ticket is granted when none is left. -/
  | elimination
  /-- Collects claims and asks the policy what they entitle to. -/
  | immediate
  deriving DecidableEq, Repr, Inhabited

namespace Strategy
variable {m : Type → Type} [Monad m]

def newTicket (data : PolicyData m) (policy : Policy) (permissions : List Permission) :
    m Ticket := do
  let required ← policy.credentials data permissions none
  return ⟨permissions, required, ∅⟩

def absorb (strategy : Strategy) (ticket : Ticket) (claims : Claims) : Ticket :=
  let provided := ticket.provided.merge claims
  match strategy with
  | .elimination => { ticket with required := ticket.required.map (·.eliminate provided), provided }
  | .immediate => { ticket with provided }

/-- Whether grants cover all of the permissions, of which there is one at least. -/
def areCovered (requested granted : List Permission) : Bool :=
  !requested.isEmpty && requested.all fun r => granted.any (·.covers r)

/-- Whether the permissions of a ticket are granted. -/
def resolves (strategy : Strategy) (data : PolicyData m) (policy : Policy) (ticket : Ticket) :
    m Bool :=
  match strategy with
  | .elimination => return ticket.isSettled
  | .immediate => do
    let granted ← policy.permissions data ticket.provided (some ticket.permissions)
    return areCovered ticket.permissions granted

end Strategy

end UserManagedAccess
