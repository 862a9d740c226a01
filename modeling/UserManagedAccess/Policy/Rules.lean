import UserManagedAccess.Permission
import UserManagedAccess.Requirement

/-! Rules: who may use which scopes of a resource. -/
namespace UserManagedAccess

/-- For every resource the scopes of each principal. -/
structure RuleTable where
  resources : KeyMap (KeyMap (List String))

namespace RuleTable

/-- The principal that stands for everybody. -/
def everyone : String := "*"

protected def empty : RuleTable := ⟨∅⟩

instance : EmptyCollection RuleTable := ⟨RuleTable.empty⟩

def scopesFor (principals : KeyMap (List String)) (principal : String) : List String :=
  (principals.get? principal).getD []

/-- The identities that were proven. -/
def webids (claims : Claims) : List String :=
  (claims.values ClaimName.webid).filterMap Json.string?

/-- Texts in increasing order, each once. -/
def increasing (texts : List String) : List String :=
  (KeyMap.ofList (texts.map (·, ()))).keys

/-- The scopes that are open to everybody or belong to one of the principals. -/
def allowed (principals : KeyMap (List String)) (webids : List String) : List String :=
  scopesFor principals everyone ++ webids.flatMap (scopesFor principals)

/-- What is granted of one permission; nothing is granted of a permission without a resource. -/
def restrict? (table : RuleTable) (webids : List String) (p : Permission) : Option Permission := do
  let resource ← p.resource
  let principals ← table.resources.get? resource
  let allowed := allowed principals webids
  let scopes :=
    match p.scopes with
    | some requested => requested.filter allowed.contains
    | none => allowed
  match increasing scopes with
  | [] => none
  | scopes => some ⟨some resource, some scopes⟩

/-- Without a query every resource of the table is asked for. -/
def permissions (table : RuleTable) (claims : Claims) (query : Option (List Permission)) :
    List Permission :=
  let query := query.getD (table.resources.keys.map fun resource => ⟨some resource, none⟩)
  query.filterMap (table.restrict? (webids claims))

/-- The principals, other than everybody, that may use all of the scopes. -/
def qualified (principals : KeyMap (List String)) (scopes : List String) : List String :=
  let others := principals.entries.filter (·.1 ≠ everyone)
  let may (own : List String) : Bool :=
    scopes.all fun scope => own.contains scope || (scopesFor principals everyone).contains scope
  (others.filter fun entry => may entry.2).map (·.1)

/-- What has to be proven for a permission, unless it cannot be granted at all. Only permissions
with a resource and a list of scopes can. -/
def requirements? (table : RuleTable) (p : Permission) : Option Requirements := do
  let resource ← p.resource
  let principals ← table.resources.get? resource
  let scopes ← p.scopes
  if scopes.all (scopesFor principals everyone).contains then return ∅
  match qualified principals scopes with
  | [] => none
  | names => return .single ClaimName.webid (.oneOf (names.map .string))

/-- Whether all that is asked for goes by a claim name of the query. -/
def withinQuery (required : List Requirements) (query : Option Requirements) : Bool :=
  query.all fun query => required.all fun r => r.names.all query.names.contains

/-- One permission that cannot be granted makes the answer empty. -/
def credentials (table : RuleTable) (permissions : List Permission)
    (query : Option Requirements) : List Requirements :=
  match permissions.mapM table.requirements? with
  | none => []
  | some required => if withinQuery required query then required else []

def toJson (table : RuleTable) : Json :=
  .ofKeyMap <| table.resources.filterMap fun _ principals =>
    some (.ofKeyMap (principals.filterMap fun _ scopes => some (.strings scopes)))

def decoder : Json.Decoder RuleTable := fun d =>
  (Json.Decoder.keyMap (.keyMap (.list .string)) d).map RuleTable.mk

end RuleTable

end UserManagedAccess
