import UserManagedAccess.ServerMetadata
import UserManagedAccess.Http.Endpoint
import UserManagedAccess.Http.Form
import UserManagedAccess.Http.MediaType
import UserManagedAccess.Http.Message
import UserManagedAccess.Server.Negotiation
import UserManagedAccess.Server.Registration

/-! The server over HTTP. -/
namespace UserManagedAccess.Server
open Http

variable [Url.DomainRules]

def metadata (server : Server) : ServerMetadata := .ofBaseUrl server.baseUrl

/-- Why a body is not read as a value. -/
inductive BodyFault where
  | notNamedJson
  | mismatch (cause : Json.Mismatch)
  deriving DecidableEq, Repr

/-- Reads the value that a JSON body begins with. -/
def readBody {α : Type} (decoder : Json.Decoder α) (request : Request) : Except BodyFault α :=
  if !MediaType.namesJson request.contentType then .error .notNamedJson
  else (decoder (Json.Document.ofPrefix request.body)).mapError .mismatch

def requestFaultOf : Json.Mismatch → RequestFault
  | .grammar => .bodyNotJson
  | .shape => .bodyOfOtherShape

namespace BodyFault

/-- The answer of the endpoints for resource servers. -/
def toResponse : BodyFault → Response
  | .notNamedJson => .text 415 "Expected request with \x60Content-Type: application/json\x60"
  | .mismatch .grammar => .text 400 (requestFaultOf .grammar).message
  | .mismatch .shape => .text 422 (requestFaultOf .shape).message

/-- The answer of the token endpoint, which speaks JSON in any case. -/
def toTokenResponse : BodyFault → Response
  | .notNamedJson =>
    .json 415 (Error.bodyOf "invalid_request" "Only JSON requests are supported.")
  | .mismatch cause => (Error.badRequest (requestFaultOf cause)).toResponse

end BodyFault

/-- Answers with the result of an action, or with its error. -/
def respond {α : Type} (respondTo : α → Response) (action : Action α) : Program Response := do
  match ← ExceptT.run action with
  | .ok value => return respondTo value
  | .error e => return e.toResponse

def handleToken (server : Server) (around : Surroundings) (request : Request) :
    Program Response :=
  match readBody TokenRequest.decoder request with
  | .error fault => return fault.toTokenResponse
  | .ok input =>
    respond (fun
      | .granted output => .json 200 output.toJson
      | .needInfo info => .json 403 info.toJson) (server.negotiate around input)

def handleTicket (server : Server) (request : Request) : Program Response :=
  match readBody Permission.listDecoder request with
  | .error fault => return fault.toResponse
  | .ok permissions =>
    respond (fun
      | some ticket => .json 201 (.ofMembers [("ticket", .string ticket)])
      | none => .empty 200) (server.openTicket permissions)

def handleRegistration (server : Server) (request : Request) : Program Response :=
  match readBody Resource.decoder request with
  | .error fault => return fault.toResponse
  | .ok description =>
    let policies := server.metadata.issuer ++ "/policies"
    respond (fun id => .json 201 (.ofMembers [("_id", .string id),
      ("user_access_policy_uri", .string policies)])) (register description)

def handleDeletion (encodedId : String) : Program Response :=
  match Text.Percent.decode encodedId with
  | .error _ => return .text 400 "Invalid URL: Invalid UTF-8 in \x60id\x60"
  | .ok id => respond (fun () => .empty 204) (unregister id)

def handleIntrospection (server : Server) (around : Surroundings) (request : Request) :
    Program Response :=
  if !MediaType.namesForm request.contentType then
    return .text 415
      "Form requests must have \x60Content-Type: application/x-www-form-urlencoded\x60"
  else
    match Form.value "token" request.body with
    | .error cause => return .text 422 s!"Failed to deserialize form body: {cause.message}"
    | .ok token =>
      respond (fun signed => .json 200 signed.toJson) (server.introspect around token)

def handleEndpoint (server : Server) (around : Surroundings) (request : Request) :
    Endpoint → Program Response
  | .metadata => return .json 200 server.metadata.toJson
  | .keys => return .json 200 server.keys.published.toJson
  | .token => server.handleToken around request
  | .ticket => server.handleTicket request
  | .resources => server.handleRegistration request
  | .resource id => handleDeletion id
  | .introspection => server.handleIntrospection around request

/-- Answers a request. Every origin may ask, so a question about options is always answered. -/
def handle (server : Server) (around : Surroundings) (request : Request) : Program Response :=
  if request.method = "OPTIONS" then return .empty 200
  else
    match Endpoint.ofTarget? request.target with
    | none => return .empty 404
    | some endpoint =>
      if !endpoint.answers request.method then return .empty 405
      else if request.method = "HEAD" then
        Response.withoutBody <$> server.handleEndpoint around request endpoint
      else server.handleEndpoint around request endpoint

end UserManagedAccess.Server
