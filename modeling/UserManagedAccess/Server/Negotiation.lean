import UserManagedAccess.Dialog
import UserManagedAccess.Server.Basic

/-! One round of negotiation for an access token. -/
namespace UserManagedAccess

namespace Ticket

/-- The hint at a condition that is not met yet. -/
def hint (name : String) : Condition → WantedClaim
  | .sourceAccess issuer derivationId =>
    if name = ClaimName.sourceAccess then .ofSource issuer derivationId else .claim name
  | _ => .claim name

/-- What is still missing, each hint once. -/
def wantedClaims (ticket : Ticket) : List WantedClaim :=
  let hints (r : Requirements) : List WantedClaim :=
    r.claims.entries.flatMap fun entry => entry.2.map (hint entry.1)
  (ticket.required.flatMap hints).eraseDups

end Ticket

namespace Server
variable [Url.DomainRules]

/-- The claims that each of the credentials proves; the first that fails ends it. -/
def verifyEach (server : Server) (now : Nat) : List Credential → Fetching (List Claims)
  | [] => return []
  | c :: rest => do
    let claims ← server.verifier.verify now c ∅
    let others ← verifyEach server now rest
    return claims :: others

/-- Takes in what the credentials prove. A ticket that nothing is proven for stays as it is. -/
def takeCredentials (server : Server) (around : Surroundings) (credentials : List Credential)
    (ticket : Ticket) : Action Ticket := do
  if credentials.isEmpty then return ticket
  let verified ← Action.fetch around.fetcher (server.verifyEach around.now credentials)
  let claims := verified.foldl Claims.merge ∅
  if claims.isEmpty then return ticket
  return server.strategy.absorb ticket claims

/-- The ticket that a round goes on with. A ticket that is presented is used up. -/
def startingTicket (server : Server) (request : TokenRequest) : Action Ticket := do
  match request.ticket, request.permissions with
  | some id, _ =>
    match ← Action.perform (.takeTicket id) with
    | some ticket => return ticket
    | none => throw (.badRequest .unknownTicket)
  | none, some permissions => server.newTicket permissions
  | none, none => throw (.badRequest .neitherTicketNorPermissions)

/-- Adds scopes to the permissions of a ticket, which starts the negotiation over. -/
def expand (server : Server) (scopes : List String) (ticket : Ticket) : Action Ticket := do
  if scopes.isEmpty then return ticket
  server.newTicket (ticket.permissions.map (·.withScopes scopes))

/-- Hands out a token, and a derivation handle if this round asked for one. -/
def grant (server : Server) (around : Surroundings) (permissions : List Permission)
    (scopes : List String) : Action Grant := do
  let token ← server.issueToken around server.tokenForm (.ofPermissions permissions)
  if scopes.contains Scope.derivationCreation then
    let handle ← storeResource .handle
    return ⟨token.token, token.tokenType, some handle⟩
  return ⟨token.token, token.tokenType, none⟩

/-- Stores a ticket that is not granted yet, unless it was denied. -/
def askForMore (ticket : Ticket) : Action Demand := do
  let missing :=
    if ticket.required.length < ticket.permissions.length then [] else ticket.wantedClaims
  if missing.isEmpty then throw .forbidden
  let id ← storeTicket ticket
  return ⟨id, missing⟩

/-- The credentials of a request that is acceptable: its parts fit together, and there is a verifier
for every credential. -/
def accept (server : Server) (request : TokenRequest) : Except Error (List Credential) := do
  request.validate
  let credentials ← request.credentials
  match credentials.find? fun c => !server.verifier.supports c.format with
  | some c => throw (.badRequest (.unsupportedFormat c.format.uri))
  | none => return credentials

def negotiate (server : Server) (around : Surroundings) (request : TokenRequest) :
    Action Outcome := do
  let credentials ← server.accept request
  let scopes := request.scopeWords
  let ticket ← server.startingTicket request
  let ticket ← server.expand scopes ticket
  let ticket ← server.takeCredentials around credentials ticket
  if ← server.resolves ticket then
    return .granted (← server.grant around ticket.permissions scopes)
  else
    return .needInfo (← askForMore ticket)

end Server

end UserManagedAccess
