import UserManagedAccess.KeyMap
import UserManagedAccess.Number.Binary64

/-! JSON values. Whole numbers and fractions are kept apart: `1` and `1.0` differ. -/
namespace UserManagedAccess

/-- A JSON number is a whole number or a finite double. -/
inductive JsonNumber where
  | whole (n : Int)
  | real (x : Binary64)
  deriving DecidableEq, Repr

/-- The members of an object that was read or built stand in increasing order of their names. -/
inductive Json where
  | null
  | bool (b : Bool)
  | number (n : JsonNumber)
  | string (s : String)
  | array (items : List Json)
  | object (members : List (String × Json))
  deriving Repr, Inhabited

namespace JsonNumber

def same : JsonNumber → JsonNumber → Bool
  | .whole m, .whole n => m == n
  | .real x, .real y => x.same y
  | _, _ => false

end JsonNumber

namespace Json

mutual

/-- Equality of values: numbers are compared by `JsonNumber.same`, so `0.0` equals `-0.0`. -/
def same : Json → Json → Bool
  | .null, .null => true
  | .bool a, .bool b => a == b
  | .number m, .number n => m.same n
  | .string s, .string t => s == t
  | .array xs, .array ys => sameItems xs ys
  | .object xs, .object ys => sameMembers xs ys
  | _, _ => false

def sameItems : List Json → List Json → Bool
  | [], [] => true
  | x :: xs, y :: ys => same x y && sameItems xs ys
  | _, _ => false

def sameMembers : List (String × Json) → List (String × Json) → Bool
  | [], [] => true
  | (k, x) :: xs, (l, y) :: ys => k == l && same x y && sameMembers xs ys
  | _, _ => false

end

def ofInt (n : Int) : Json := .number (.whole n)

def ofNat (n : Nat) : Json := ofInt n

def strings (ss : List String) : Json := .array (ss.map .string)

/-- An object with the given members; of members with one name the last counts. -/
def ofMembers (members : List (String × Json)) : Json :=
  .object (KeyMap.sortEntries members)

/-- An object without the members that hold nothing. -/
def ofSome (members : List (String × Option Json)) : Json :=
  ofMembers (members.filterMap fun member => member.2.map (member.1, ·))

/-- `null` stands for nothing. -/
def ofOption {α : Type} (encode : α → Json) : Option α → Json
  | none => .null
  | some value => encode value

def ofKeyMap (map : KeyMap Json) : Json := .object map.entries

/-- The member of an object; no other value has members. -/
def member? (name : String) : Json → Option Json
  | .object members => KeyMap.findEntry name members
  | _ => none

def string? : Json → Option String
  | .string s => some s
  | _ => none

def array? : Json → Option (List Json)
  | .array items => some items
  | _ => none

/-- The text held by a member, if it is there and a text. -/
def text? (name : String) (value : Json) : Option String :=
  (value.member? name).bind string?

end Json

end UserManagedAccess
