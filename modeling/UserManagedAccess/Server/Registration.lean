import UserManagedAccess.Server.Basic

/-! What resource servers ask of an authorization server: to register resources, to give out tickets
and to look into tokens. -/
namespace UserManagedAccess.Server
variable [Url.DomainRules]

def register (description : Resource) : Action String := do
  description.validate
  storeResource description

def unregister (id : String) : Action Unit := do
  if !(← Action.perform (.deleteResource id)) then throw (.notFound (.resource id))

/-- A ticket for permissions, unless they are granted without one. -/
def openTicket (server : Server) (permissions : List Permission) : Action (Option String) := do
  Permission.validateAll permissions
  let ticket ← server.newTicket permissions
  if ← server.resolves ticket then return none
  return some (← storeTicket ticket)

/-- Turns a token that is good into a signed one that says so. -/
def introspect (server : Server) (around : Surroundings) (text : String) :
    Action BearerToken := do
  let token ← server.readToken around server.tokenForm text
  server.issueToken around .signed { token with active := some true }

end UserManagedAccess.Server
