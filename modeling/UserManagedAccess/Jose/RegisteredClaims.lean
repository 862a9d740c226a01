import UserManagedAccess.Json.Decoder
import UserManagedAccess.Number.Word

/-! The claims of a payload that bound its use. -/
namespace UserManagedAccess.Jose

/-- Claims of another type than expected count as absent. -/
structure RegisteredClaims where
  expires : Option Nat
  notBefore : Option Nat
  subject : Option String
  issuers : Option (List String)
  audiences : Option (List String)
  deriving DecidableEq, Repr

namespace RegisteredClaims
open Json

/-- A point in time, in whole seconds; a fraction is rounded, a half upwards. -/
def time? : Document → Option Nat
  | .number (.whole n) => if 0 ≤ n then some n.toNat else none
  | .number (.real x) =>
    let seconds := x.roundHalfAway
    if x.isFinite && (!x.isNegative || x.isZero) && seconds ≤ Word.high then some seconds.toNat
    else none
  | _ => none

def text? : Document → Option String
  | .string s => some s
  | _ => none

/-- One text or a list of them. -/
def texts? : Document → Option (List String)
  | .string s => some [s]
  | .array items _ => items.mapM text?
  | _ => none

def isContainer : Document → Bool
  | .array _ _ => true
  | .object _ _ => true
  | _ => false

def isFilled : Document → Bool
  | .array items _ => !items.isEmpty
  | .object members _ => !members.isEmpty
  | _ => false

/-- The values under a name. -/
def valuesOf (name : String) (members : List (Option String × Document)) : List Document :=
  members.filterMap fun member => if member.1 = some name then some member.2 else none

/-- A claim stands in a payload at most once, and not as a value that the reader gets lost in. -/
def single? (losesReader : Document → Bool) (name : String)
    (members : List (Option String × Document)) : Option (Option Document) :=
  match valuesOf name members with
  | [] => some none
  | [value] => if losesReader value then none else some (some value)
  | _ => none

/-- Reads the claims; `none` for a payload that makes no sense. -/
def ofDocument? : Document → Option RegisteredClaims
  | .object members _ => do
    let expires ← single? isFilled "exp" members
    let notBefore ← single? isFilled "nbf" members
    let subject ← single? isContainer "sub" members
    let issuers ← single? (fun _ => false) "iss" members
    let audiences ← single? (fun _ => false) "aud" members
    return ⟨expires.bind time?, notBefore.bind time?, subject.bind text?, issuers.bind texts?,
      audiences.bind texts?⟩
  | _ => none

/-- Whether a claim is there that can be asked for; of other claims nothing is known. -/
def lacks (claims : RegisteredClaims) (name : String) : Bool :=
  if name = "exp" then claims.expires.isNone
  else if name = "nbf" then claims.notBefore.isNone
  else if name = "sub" then claims.subject.isNone
  else if name = "iss" then claims.issuers.isNone
  else if name = "aud" then claims.audiences.isNone
  else false

end RegisteredClaims

end UserManagedAccess.Jose
