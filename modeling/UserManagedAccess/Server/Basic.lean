import UserManagedAccess.Server.Program
import UserManagedAccess.Strategy
import UserManagedAccess.Token.Signed
import UserManagedAccess.Verifier.Basic

/-! An authorization server: what it was set up with, and what it does with tickets and tokens. -/
namespace UserManagedAccess

/-- Whether tokens carry what they grant, or are kept by the server and only named to others. -/
inductive TokenForm where
  | signed
  | kept
  deriving DecidableEq, Repr, Inhabited

structure Server where
  /-- The address of the server, which is also the issuer of its tokens. -/
  baseUrl : String
  policy : Policy
  strategy : Strategy
  verifier : Verifier
  keys : KeyPair
  /-- The seconds that a token is good for. -/
  lifetime : Int
  tokenForm : TokenForm

/-- What a request meets outside the server: the time, in seconds, and the documents of others. -/
structure Surroundings where
  now : Nat
  fetcher : Fetcher

namespace Server

def signer (server : Server) : TokenSigner := ⟨server.keys, server.baseUrl, server.lifetime⟩

/-- The ticket of a negotiation that starts over. -/
def newTicket (server : Server) (permissions : List Permission) : Action Ticket :=
  Action.lift (Strategy.newTicket Program.policyData server.policy permissions)

def resolves (server : Server) (ticket : Ticket) : Action Bool :=
  Action.lift (server.strategy.resolves Program.policyData server.policy ticket)

/-- Stores a ticket under an id of its own. -/
def storeTicket (ticket : Ticket) : Action String := do
  let id ← Action.perform .freshId
  Action.perform (.putTicket id ticket)
  return id

/-- Stores a resource under an id of its own. -/
def storeResource (description : Resource) : Action String := do
  let id ← Action.perform .freshId
  Action.perform (.putResource id description)
  return id

def issueToken (server : Server) (around : Surroundings) (form : TokenForm)
    (token : AccessToken) : Action BearerToken := do
  let id ← Action.perform .freshId
  match form with
  | .signed => return server.signer.mint around.now id token
  | .kept =>
    Action.perform (.putToken id ⟨token, around.now + server.lifetime⟩)
    return ⟨id, bearer⟩

/-- Finds out what a token grants. A token that is kept and no longer good is thrown away. -/
def readToken (server : Server) (around : Surroundings) (form : TokenForm) (text : String) :
    Action AccessToken := do
  match form with
  | .signed => server.signer.read around.now text
  | .kept =>
    match ← Action.perform (.findToken text) with
    | none => throw (.notFound .token)
    | some kept =>
      if kept.expiresAt ≤ around.now then
        Action.perform (.deleteToken text)
        throw (.notFound .token)
      return kept.token

end Server

end UserManagedAccess
