import UserManagedAccess.Claim

/-! What has to be proven before a permission is granted. Obligations are data, so tickets that hold
them can be stored and compared. -/
namespace UserManagedAccess

/-- A condition on the value of a claim. -/
inductive Condition where
  | any
  | equals (value : Json)
  | oneOf (values : List Json)
  /-- The right to read a handle at the server that issued it. -/
  | sourceAccess (issuer derivationId : String)
  deriving Repr

namespace Condition

/-- Equality up to `Json.same`. -/
def same : Condition → Condition → Bool
  | .any, .any => true
  | .equals v, .equals w => v.same w
  | .oneOf vs, .oneOf ws => Json.sameItems vs ws
  | .sourceAccess i d, .sourceAccess j e => i == j && d == e
  | _, _ => false

def isMetBy (p : Condition) (value : Json) : Bool :=
  match p with
  | .any => true
  | .equals expected => expected.same value
  | .oneOf values => values.any (·.same value)
  | .sourceAccess issuer derivationId =>
    value.text? "issuer" == some issuer &&
      value.text? "derivation_resource_id" == some derivationId

def isMetByAny (p : Condition) (values : List Json) : Bool := values.any p.isMetBy

def toJson : Condition → Json
  | .any => .ofMembers [("type", .string "any")]
  | .equals value => .ofMembers [("type", .string "equals"), ("value", value)]
  | .oneOf values => .ofMembers [("type", .string "one_of"), ("values", .array values)]
  | .sourceAccess issuer derivationId =>
    .ofMembers [("type", .string "upstream_permission"), ("issuer", .string issuer),
      ("derivation_resource_id", .string derivationId)]

open Json

/-- The fields of the kinds that have some. -/
def record? (kind : String) : Option (RecordDecoder Condition) :=
  if kind = "equals" then some (.equals <$> .required "value" .json)
  else if kind = "one_of" then some (.oneOf <$> .required "values" (.list .json))
  else if kind = "upstream_permission" then
    some (.sourceAccess <$> .required "issuer" .string
      <*> .required "derivation_resource_id" .string)
  else none

/-- The condition of a kind with the given content. -/
def ofKind (kind : String) (content : Document) : Except Mismatch Condition :=
  if kind = "any" then
    match content with
    | .array (_ :: _) _ => .error .shape
    | _ => .ok .any
  else
    match record? kind with
    | some record => record.decode content
    | none => .error .shape

def knowsKind (kind : String) : Bool := kind = "any" || (record? kind).isSome

/-- The kind of a condition. -/
def kind : Decoder String := fun d => do
  let kind ← Decoder.string d
  if knowsKind kind then return kind else throw .shape

/-- Finds the kind among the members of an object; the other members are the content. -/
def splitKind (found : Option String) (content : List (Option String × Document)) :
    List (Option String × Document) → (closed : Bool) → Except Mismatch (String × Document)
  | [], closed =>
    if !closed then .error .grammar
    else
      match found with
      | some kind => .ok (kind, .object content.reverse true)
      | none => .error .shape
  | (some "type", value) :: rest, closed =>
    if found.isSome then .error .shape
    else
      match kind value with
      | .error e => .error e
      | .ok kind => splitKind (some kind) content rest closed
  | (name, value) :: rest, closed =>
    if name.isNone then .error .grammar
    else
      match Decoder.json value with
      | .error e => .error e
      | .ok _ => splitKind found ((name, value) :: content) rest closed

/-- Reads an object with its kind under `type`, or an array that starts with the kind. -/
def decoder : Decoder Condition
  | .object members closed => do
    let (kind, content) ← splitKind none [] members closed
    ofKind kind content
  | .array (first :: rest) closed => do
    let kind ← kind first
    let _ ← Decoder.items Decoder.json rest closed
    ofKind kind (.array rest true)
  | .array [] closed => .error (if closed then .shape else .grammar)
  | d => Decoder.unexpected d

end Condition

/-- Under each claim name the conditions that a value has to meet. -/
structure Requirements where
  claims : KeyMap (List Condition)
  deriving Inhabited

namespace Requirements

protected def empty : Requirements := ⟨∅⟩

instance : EmptyCollection Requirements := ⟨Requirements.empty⟩

def conditions (r : Requirements) (claim : String) : List Condition :=
  (r.claims.get? claim).getD []

/-- Adds a condition unless it is there already. -/
def require (r : Requirements) (claim : String) (p : Condition) : Requirements :=
  let listed := r.conditions claim
  ⟨r.claims.insert claim (if listed.any (·.same p) then listed else listed ++ [p])⟩

/-- The requirement of one condition. -/
def single (claim : String) (p : Condition) : Requirements :=
  (∅ : Requirements).require claim p

def isEmpty (r : Requirements) : Bool := r.claims.isEmpty

def size (r : Requirements) : Nat := r.claims.size

def names (r : Requirements) : List String := r.claims.keys

/-- What is left to prove once the claims are proven; a name without conditions goes. -/
def eliminate (r : Requirements) (claims : Claims) : Requirements :=
  ⟨r.claims.filterMap fun name conditions =>
    let unmet := conditions.filter fun p => !p.isMetByAny (claims.values name)
    if unmet.isEmpty then none else some unmet⟩

def same (r s : Requirements) : Bool :=
  sameEntries r.claims.entries s.claims.entries
where
  sameConditions : List Condition → List Condition → Bool
    | [], [] => true
    | p :: ps, q :: qs => p.same q && sameConditions ps qs
    | _, _ => false
  sameEntries : List (String × List Condition) → List (String × List Condition) → Bool
    | [], [] => true
    | (m, ps) :: xs, (n, qs) :: ys => m == n && sameConditions ps qs && sameEntries xs ys
    | _, _ => false

def toJson (r : Requirements) : Json :=
  .ofKeyMap (r.claims.filterMap fun _ ps => some (.array (ps.map Condition.toJson)))

def decoder : Json.Decoder Requirements := fun d =>
  (Json.Decoder.keyMap (.list Condition.decoder) d).map Requirements.mk

end Requirements

end UserManagedAccess
