import UserManagedAccess.Permission
import UserManagedAccess.Requirement

/-! Tickets: the state of a negotiation between two rounds. -/
namespace UserManagedAccess

/-- What is asked for, what is left to prove for each permission, and what was proven so far. -/
structure Ticket where
  permissions : List Permission
  required : List Requirements
  provided : Claims
  deriving Inhabited

namespace Ticket

/-- Every permission has its requirements, and nothing is left of them. A shorter list of
requirements is a denial. -/
def isSettled (t : Ticket) : Bool :=
  t.required.length == t.permissions.length && t.required.all Requirements.isEmpty

def toJson (t : Ticket) : Json :=
  .ofMembers [("permissions", Permission.listToJson t.permissions),
    ("required", .array (t.required.map Requirements.toJson)), ("provided", t.provided.toJson)]

def decoder : Json.Decoder Ticket :=
  (Ticket.mk <$> .required "permissions" Permission.listDecoder
    <*> .required "required" (.list Requirements.decoder)
    <*> .withDefault "provided" Claims.decoder ∅ : Json.RecordDecoder Ticket).decode

end Ticket

end UserManagedAccess
