import UserManagedAccess.Text.Percent

/-! Forms: names and values in a body. -/
namespace UserManagedAccess.Http.Form

def isPiece (piece : List UInt8) : Bool := !piece.isEmpty

/-- A name or a value; a plus sign is a space. -/
def unescape (part : List UInt8) : String :=
  Text.Utf8.decodeReplacing <| Text.Percent.decodeBytes <|
    part.map fun b => if b == 0x2B then 0x20 else b

/-- A name and its value; a name alone has the empty value. -/
def decodePiece (piece : List UInt8) : String × String :=
  let name := piece.takeWhile (· != 0x3D)
  (unescape name, unescape (piece.drop (name.length + 1)))

/-- The fields of a form in order. -/
def fields (body : List UInt8) : List (String × String) :=
  ((body.splitOnP (· == 0x26)).filter isPiece).map decodePiece

/-- Why a form has no value under a name. -/
inductive FormError where
  | missingField (name : String)
  | duplicateField (name : String)
  deriving DecidableEq, Repr

def FormError.message : FormError → String
  | .missingField field => s!"missing field \x60{field}\x60"
  | .duplicateField field => s!"duplicate field \x60{field}\x60"

/-- The one value under a name. -/
def value (name : String) (body : List UInt8) : Except FormError String :=
  match (fields body).filter (·.1 == name) with
  | [] => .error (.missingField name)
  | [field] => .ok field.2
  | _ => .error (.duplicateField name)

end UserManagedAccess.Http.Form
