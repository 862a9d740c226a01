import UserManagedAccess.Error
import UserManagedAccess.Json.Basic

/-! Requests and responses. -/
namespace UserManagedAccess.Http

structure Request where
  method : String
  /-- The path as it was sent, with the query if there is one. -/
  target : String
  contentType : Option String
  body : List UInt8
  deriving DecidableEq, Repr

inductive Body where
  | empty
  | json (value : Json)
  | text (text : String)

structure Response where
  status : Nat
  contentType : Option String
  body : Body

namespace Response

def empty (status : Nat) : Response := ⟨status, none, .empty⟩

def json (status : Nat) (value : Json) : Response := ⟨status, some "application/json", .json value⟩

def text (status : Nat) (text : String) : Response :=
  ⟨status, some "text/plain; charset=utf-8", .text text⟩

def withoutBody (response : Response) : Response := { response with body := .empty }

end Response

end UserManagedAccess.Http

namespace UserManagedAccess.Error
open Http

def status : Error → Nat
  | .badRequest _ | .invalidCredential _ => 400
  | .forbidden => 403
  | .notFound _ => 404
  | .fetch _ => 502
  | .storage _ | .token _ | .config _ => 500

/-- The word for the kind of an error. -/
def code : Error → String
  | .badRequest _ => "invalid_request"
  | .invalidCredential _ => "invalid_grant"
  | .forbidden => "request_denied"
  | .notFound _ => "not_found"
  | .fetch _ | .storage _ | .token _ | .config _ => "server_error"

def bodyOf (code message : String) : Json :=
  .ofMembers [("error", .string code), ("message", .string message)]

def toResponse (e : Error) : Response := .json e.status (bodyOf e.code e.message)

end UserManagedAccess.Error
