import UserManagedAccess.Proofs.KeyMap
import UserManagedAccess.Server.State

/-! The stores of a server, and which changes to them may trade places: those under different
keys. -/
namespace UserManagedAccess

namespace KeyMap
variable {α : Type} {map : KeyMap α} {key other : String}

/-- Taking out what is not there changes nothing. -/
theorem erase_of_get?_eq_none (h : map.get? key = none) : map.erase key = map := by
  apply ext_get?
  intro k
  rw [get?_erase]
  split
  · next heq => rw [heq, h]
  · rfl

theorem insert_insert_comm (h : key ≠ other) (value value' : α) :
    (map.insert key value).insert other value' = (map.insert other value').insert key value := by
  apply ext_get?
  intro k
  simp only [get?_insert]
  split
  · next heq => rw [if_neg (heq ▸ Ne.symm h)]
  · rfl

theorem erase_insert_comm (h : key ≠ other) (value : α) :
    (map.erase key).insert other value = (map.insert other value).erase key := by
  apply ext_get?
  intro k
  simp only [get?_insert, get?_erase]
  split
  · next heq => rw [if_neg (heq ▸ Ne.symm h)]
  · rfl

theorem erase_erase_comm : (map.erase key).erase other = (map.erase other).erase key := by
  apply ext_get?
  intro k
  simp only [get?_erase]
  split <;> split <;> rfl

end KeyMap

/-- Tickets, resources and tokens. -/
structure Stores where
  tickets : KeyMap Ticket
  resources : KeyMap Resource
  tokens : KeyMap KeptToken

def ServerState.stores (s : ServerState) : Stores := ⟨s.tickets, s.resources, s.tokens⟩

/-- Nothing is stored under the id. -/
structure Stores.Free (stores : Stores) (id : String) : Prop where
  tickets : stores.tickets.get? id = none
  resources : stores.resources.get? id = none
  tokens : stores.tokens.get? id = none

end UserManagedAccess
