import UserManagedAccess.Claim
import UserManagedAccess.Error
import UserManagedAccess.Text.Blank
import UserManagedAccess.Text.Percent

/-! Identities that are taken at their word: a WebID and, after a colon, a client. Good for tests
only. -/
namespace UserManagedAccess.SelfAsserted

def readPart (part : String) : Except Error String :=
  (Text.Percent.decode part).mapError (.invalidCredential <| .partNotText ·)

def identity (part : String) : Except Error String := do
  let webid ← readPart part
  if Text.isBlank webid then throw (.invalidCredential .blankIdentifier)
  return webid

/-- Whom a token names: the WebID, and the client if there is a second part. -/
def read (token : String) : Except Error (String × Option String) :=
  match Text.parts (· == ':') token with
  | [webid] => do
    let webid ← identity webid
    return (webid, none)
  | [webid, client] => do
    let webid ← identity webid
    let client ← readPart client
    return (webid, some client)
  | _ => .error (.invalidCredential .tooManyParts)

/-- Adds what a token says about its bearer to the claims held; an empty client is left out. -/
def addClaims (token : String) (held : Claims) : Except Error Claims := do
  let (webid, client) ← read token
  let held := held.push ClaimName.webid (.string webid)
  match client.filter (· ≠ "") with
  | some client => return held.push ClaimName.clientId (.string client)
  | none => return held

end UserManagedAccess.SelfAsserted
