import UserManagedAccess.Policy.RulesFile
import UserManagedAccess.Resource
import UserManagedAccess.Ticket
import UserManagedAccess.Token.Basic

/-! What a server keeps between requests, and the indivisible operations on it. -/
namespace UserManagedAccess

/-- A source of ids: no id is handed out twice, and sources of different origin share none. -/
structure IdSupply where
  origin : Nat
  /-- The number of ids that were handed out. -/
  used : Nat
  deriving DecidableEq, Repr, Inhabited

namespace IdSupply

/-- A group of so many hexadecimal digits, or more for a number that needs them. -/
def group (width n : Nat) : List Char :=
  let digits := Nat.toDigits 16 n
  List.replicate (width - digits.length) '0' ++ digits

/-- The id with a number, in the shape of a UUID. -/
def idOf (origin n : Nat) : String :=
  String.ofList (group 8 origin ++ "-0000-4000-8000-".toList ++ group 12 n)

def next (supply : IdSupply) : String × IdSupply :=
  (idOf supply.origin supply.used, { supply with used := supply.used + 1 })

end IdSupply

structure ServerState where
  tickets : KeyMap Ticket
  resources : KeyMap Resource
  tokens : KeyMap KeptToken
  ids : IdSupply
  /-- The file with the rules, and the rules that were read from it. -/
  rulesFile : FileState
  rulesCache : Option RulesCache
  /-- The addresses that other servers were asked for, in order. -/
  requested : List String

namespace ServerState

protected def empty : ServerState := ⟨∅, ∅, ∅, ⟨0, 0⟩, .absent, none, []⟩

instance : EmptyCollection ServerState := ⟨ServerState.empty⟩
instance : Inhabited ServerState := ⟨∅⟩

end ServerState

inductive Operation where
  | takeTicket (id : String)
  | putTicket (id : String) (ticket : Ticket)
  | findResource (id : String)
  | putResource (id : String) (description : Resource)
  | deleteResource (id : String)
  | findToken (id : String)
  | putToken (id : String) (token : KeptToken)
  | deleteToken (id : String)
  | freshId
  /-- The rules in force, after a look at their file. -/
  | currentRules
  /-- Notes which addresses were asked for. -/
  | note (requested : List String)

namespace Operation

/-- What an operation answers. -/
def Answer : Operation → Type
  | .takeTicket _ => Option Ticket
  | .putTicket _ _ => Unit
  | .findResource _ => Option Resource
  | .putResource _ _ => Unit
  | .deleteResource _ => Bool
  | .findToken _ => Option KeptToken
  | .putToken _ _ => Unit
  | .deleteToken _ => Unit
  | .freshId => String
  | .currentRules => RuleTable
  | .note _ => Unit

def run (s : ServerState) : (op : Operation) → op.Answer × ServerState
  | .takeTicket id => (s.tickets.get? id, { s with tickets := s.tickets.erase id })
  | .putTicket id ticket => ((), { s with tickets := s.tickets.insert id ticket })
  | .findResource id => (s.resources.get? id, s)
  | .putResource id description => ((), { s with resources := s.resources.insert id description })
  | .deleteResource id => (s.resources.contains id, { s with resources := s.resources.erase id })
  | .findToken id => (s.tokens.get? id, s)
  | .putToken id token => ((), { s with tokens := s.tokens.insert id token })
  | .deleteToken id => ((), { s with tokens := s.tokens.erase id })
  | .freshId =>
    let (id, ids) := s.ids.next
    (id, { s with ids })
  | .currentRules =>
    match s.rulesCache with
    | some cache =>
      let cache := cache.refresh s.rulesFile
      (cache.rules, { s with rulesCache := some cache })
    | none => ((∅ : RuleTable), s)
  | .note requested => ((), { s with requested := s.requested ++ requested })

end Operation

end UserManagedAccess
