import UserManagedAccess.Fetching
import UserManagedAccess.Policy.Basic
import UserManagedAccess.Server.State

/-! Programs over the state of a server: sequences of indivisible operations, in which the answer of
one operation decides on the next. Several programs may take turns between their operations. -/
namespace UserManagedAccess

inductive Program (α : Type) where
  | done (value : α)
  | step (op : Operation) (next : op.Answer → Program α)

namespace Program
variable {α β γ : Type}

protected def bind : Program α → (α → Program β) → Program β
  | .done value, f => f value
  | .step op next, f => .step op fun answer => (next answer).bind f

instance : Monad Program where
  pure := .done
  bind := Program.bind

/-- The program of one operation. -/
def perform (op : Operation) : Program op.Answer := .step op .done

/-- Runs a program to its end without a break. -/
def run : Program α → ServerState → α × ServerState
  | .done value, s => (value, s)
  | .step op next, s =>
    let (answer, s) := op.run s
    (next answer).run s

theorem run_pure (value : α) (s : ServerState) : (pure value : Program α).run s = (value, s) := rfl

theorem run_bind (p : Program α) (f : α → Program β) (s : ServerState) :
    (p >>= f).run s = (f (p.run s).1).run (p.run s).2 := by
  induction p generalizing s with
  | done value => rfl
  | step op next ih => exact ih (op.run s).1 (op.run s).2

theorem run_perform (op : Operation) (s : ServerState) : (perform op).run s = op.run s := rfl

protected theorem pure_bind (value : α) (f : α → Program β) : (pure value >>= f) = f value := rfl

protected theorem bind_pure (p : Program α) : (p >>= pure) = p := by
  induction p with
  | done value => rfl
  | step op next ih => exact congrArg (Program.step op) (funext ih)

protected theorem bind_assoc (p : Program α) (f : α → Program β) (g : β → Program γ) :
    (p >>= f >>= g) = (p >>= fun a => f a >>= g) := by
  induction p with
  | done value => rfl
  | step op next ih => exact congrArg (Program.step op) (funext ih)

/-- Looks rules and resources up in the state. -/
def policyData : PolicyData Program where
  rules := perform .currentRules
  resource? id := perform (.findResource id)

end Program

/-- Programs that may fail. What was done before the failure stays done. -/
abbrev Action := ExceptT Error Program

namespace Action
variable {α : Type}

def perform (op : Operation) : Action op.Answer := ExceptT.lift (Program.perform op)

def lift (p : Program α) : Action α := ExceptT.lift p

/-- Asks other servers, and notes what they were asked for. -/
def fetch (fetcher : Fetcher) (m : Fetching α) : Action α := do
  let fetched := m fetcher
  perform (.note fetched.requested)
  match fetched.result with
  | .ok value => return value
  | .error e => throw e

def run (action : Action α) (s : ServerState) : Except Error α × ServerState :=
  Program.run (ExceptT.run action) s

end Action

end UserManagedAccess
