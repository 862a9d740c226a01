import UserManagedAccess.Json.Decoder

/-! Claims about a requesting party: under each name the values that were proven, in order. -/
namespace UserManagedAccess

namespace ClaimName

/-- The identity of a person. -/
def webid : String := "urn:solidlab:uma:claims:types:webid"

/-- The identity of the application that acts for the person. -/
def clientId : String := "urn:solidlab:uma:claims:types:clientid"

/-- The right to read a derivation handle at another server. -/
def sourceAccess : String := "urn:knows:uma:claims:types:upstream-permission"

end ClaimName

structure Claims where
  claims : KeyMap (List Json)
  deriving Inhabited

namespace Claims

protected def empty : Claims := ⟨∅⟩

instance : EmptyCollection Claims := ⟨Claims.empty⟩

/-- The values held under a name; none for a name that is not there. -/
def values (c : Claims) (name : String) : List Json := (c.claims.get? name).getD []

/-- Appends values under a name. -/
def extend (c : Claims) (name : String) (values : List Json) : Claims :=
  ⟨c.claims.insert name (c.values name ++ values)⟩

def push (c : Claims) (name : String) (value : Json) : Claims := c.extend name [value]

/-- Appends a value under each of the names. -/
def pushAll (c : Claims) (assertions : List (String × Json)) : Claims :=
  assertions.foldl (fun c assertion => c.push assertion.1 assertion.2) c

/-- The first value under a name that is a text. -/
def firstText? (c : Claims) (name : String) : Option String :=
  (c.values name).findSome? Json.string?

def contains (c : Claims) (name : String) : Bool := !(c.values name).isEmpty

/-- No value is held under any name. -/
def isEmpty (c : Claims) : Bool := c.claims.values.all List.isEmpty

def names (c : Claims) : List String := c.claims.keys

/-- Appends the values of another set, name by name. -/
def merge (c d : Claims) : Claims :=
  d.claims.entries.foldl (fun c entry => c.extend entry.1 entry.2) c

def toJson (c : Claims) : Json :=
  .ofKeyMap (c.claims.filterMap fun _ values => some (.array values))

def decoder : Json.Decoder Claims := fun d =>
  (Json.Decoder.keyMap (.list .json) d).map Claims.mk

end Claims

end UserManagedAccess
