import UserManagedAccess.Text.Percent

/-! The endpoints of a server and their paths. -/
namespace UserManagedAccess.Http

inductive Endpoint where
  | metadata
  | keys
  | token
  | ticket
  | resources
  /-- One registered resource; its id is percent-encoded. -/
  | resource (id : String)
  | introspection
  deriving DecidableEq, Repr

namespace Endpoint

/-- The path of a request without its query. -/
def pathOf (target : String) : List Char :=
  target.toList.takeWhile fun c => c ≠ '?' && c ≠ '#'

def ofSegments? : List (List Char) → Option Endpoint
  | [name] =>
    match String.ofList name with
    | "keys" => some .keys
    | "token" => some .token
    | "ticket" => some .ticket
    | "resources" => some .resources
    | "introspect" => some .introspection
    | _ => none
  | [first, second] =>
    match String.ofList first, second with
    | ".well-known", name =>
      if String.ofList name = "uma2-configuration" then some .metadata else none
    | "resources", _ :: _ => some (.resource (String.ofList second))
    | _, _ => none
  | _ => none

/-- All paths stand below `/uma`. -/
def ofTarget? (target : String) : Option Endpoint :=
  match (pathOf target).splitOnP (· == '/') with
  | [] :: root :: segments => if String.ofList root = "uma" then ofSegments? segments else none
  | _ => none

/-- The method that an endpoint answers. -/
def method : Endpoint → String
  | .metadata | .keys => "GET"
  | .token | .ticket | .resources | .introspection => "POST"
  | .resource _ => "DELETE"

/-- Whether an endpoint answers a method; what can be got can be asked about, too. -/
def answers (endpoint : Endpoint) (method : String) : Bool :=
  endpoint.method == method || (endpoint.method == "GET" && method == "HEAD")

end Endpoint

end UserManagedAccess.Http
