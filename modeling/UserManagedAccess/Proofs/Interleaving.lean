import UserManagedAccess.Proofs.History
import UserManagedAccess.Proofs.Stores

/-! Calls that run at the same time. Between two operations of one of them, others may have their
turn; each draws its ids from a source of its own. -/
namespace UserManagedAccess

/-- A call that may run at the same time as others. -/
inductive Call where
  | round (around : Surroundings) (request : TokenRequest)
  | opening (permissions : List Permission)

/-- The ticket that the call presents. -/
def Call.ticket? : Call → Option String
  | .round _ request => request.ticket
  | .opening _ => none

/-- A program that takes its turns with others. -/
structure Thread where
  ids : IdSupply
  program : Program Reply

namespace Thread

/-- The next operation, if there is one left. -/
def step (thread : Thread) (s : ServerState) : Thread × ServerState :=
  match thread.program with
  | .done _ => (thread, s)
  | .step op next =>
    let done := op.run { s with ids := thread.ids }
    (⟨done.2.ids, next done.1⟩, { done.2 with ids := s.ids })

/-- All operations that are left, without a break. -/
def finish (thread : Thread) (s : ServerState) : Thread × ServerState :=
  let done := thread.program.run { s with ids := thread.ids }
  (⟨done.2.ids, .done done.1⟩, { done.2 with ids := s.ids })

def reply? (thread : Thread) : Option Reply :=
  match thread.program with
  | .done reply => some reply
  | .step _ _ => none

end Thread

/-- Threads that share a state. -/
structure Pool (n : Nat) where
  threads : Fin n → Thread
  state : ServerState

namespace Pool
variable {n : Nat}

/-- The pool once a thread has had its turn. -/
def set (pool : Pool n) (i : Fin n) (turn : Thread × ServerState) : Pool n :=
  ⟨fun j => if j = i then turn.1 else pool.threads j, turn.2⟩

def step (pool : Pool n) (i : Fin n) : Pool n := pool.set i ((pool.threads i).step pool.state)

/-- The threads have their turns, for one operation each, as the schedule says. -/
def run (pool : Pool n) (schedule : List (Fin n)) : Pool n := schedule.foldl step pool

def finish (pool : Pool n) (i : Fin n) : Pool n :=
  pool.set i ((pool.threads i).finish pool.state)

/-- The threads run one after the other, each without a break. -/
def runSerially (pool : Pool n) (order : List (Fin n)) : Pool n := order.foldl finish pool

def reply? (pool : Pool n) (i : Fin n) : Option Reply := (pool.threads i).reply?

/-- The next operation of the thread takes the ticket, and the ticket is there. -/
def Obtains (pool : Pool n) (i : Fin n) (id : String) : Prop :=
  ∃ next, (pool.threads i).program = .step (.takeTicket id) next ∧
    pool.state.tickets.contains id = true

/-- In the course of the schedule, the thread obtains the ticket. -/
def Obtained (pool : Pool n) (schedule : List (Fin n)) (i : Fin n) (id : String) : Prop :=
  ∃ before after, schedule = before ++ i :: after ∧ (pool.run before).Obtains i id

end Pool

namespace Server
variable [Url.DomainRules]

/-- The operations of a call, one by one. -/
def program (server : Server) : Call → Program Reply
  | .round around request => do
    let result ← ExceptT.run (server.negotiate around request)
    return .negotiated result
  | .opening permissions => do
    let result ← ExceptT.run (server.openTicket permissions)
    return .opened result

/-- Calls that are all about to start. -/
def pool (server : Server) {n : Nat} (calls : Fin n → Call) (supplies : Fin n → IdSupply)
    (s : ServerState) : Pool n :=
  ⟨fun i => ⟨supplies i, server.program (calls i)⟩, s⟩

end Server

namespace IdSupply

/-- The source may still hand out the id. -/
def MayIssue (supply : IdSupply) (id : String) : Prop :=
  ∃ n, supply.used ≤ n ∧ id = idOf supply.origin n

theorem mayIssue_next (supply : IdSupply) : supply.MayIssue supply.next.1 :=
  ⟨supply.used, Nat.le_refl _, rfl⟩

theorem mayIssue_next_next (supply : IdSupply) : supply.MayIssue supply.next.2.next.1 :=
  ⟨supply.used + 1, Nat.le_succ _, rfl⟩

theorem next_ne_next_next (supply : IdSupply) : supply.next.1 ≠ supply.next.2.next.1 := by
  intro h
  have hsame := idOf_injective supply.origin h
  simp [next] at hsame

end IdSupply

end UserManagedAccess
