import UserManagedAccess.KeyMap
import UserManagedAccess.Number.Plain
import UserManagedAccess.Number.Word

/-! Settings before they are typed: a tree of values, which sources are laid over one after the
other. -/
namespace UserManagedAccess

/-- A value that a source gives. -/
inductive SettingTree where
  | absent
  | bool (b : Bool)
  | whole (n : Int)
  | real (x : Binary64)
  | text (s : String)
  | list (items : List SettingTree)
  | table (entries : List (String × SettingTree))
  deriving Repr, Inhabited

/-- A step from a value to one inside it. -/
inductive SettingStep where
  | key (name : String)
  | index (i : Int)
  deriving DecidableEq, Repr

namespace SettingTree

/-- The entries of a table; no other value has entries. -/
def entries : SettingTree → List (String × SettingTree)
  | .table entries => entries
  | _ => []

def items : SettingTree → List SettingTree
  | .list items => items
  | _ => []

mutual

/-- Lays a value over another: tables are merged, any other value takes the place of the old. -/
def overlay : (new old : SettingTree) → SettingTree
  | .table new, old => .table (overlayEntries new old.entries)
  | new, _ => new

def overlayEntries : (new old : List (String × SettingTree)) → List (String × SettingTree)
  | [], old => old
  | (name, value) :: rest, old =>
    let below := (KeyMap.findEntry name old).getD .absent
    overlayEntries rest (KeyMap.insertEntry name (overlay value below) old)

end

/-- The items of a list of at least the given size. -/
def padded (size : Nat) (items : List SettingTree) : List SettingTree :=
  items ++ List.replicate (size - items.length) .absent

/-- Lays a value over the place where a path leads; on the way tables and lists are made where
there are none. A negative index counts from the end. -/
def put : List SettingStep → (value old : SettingTree) → SettingTree
  | [], value, old => overlay value old
  | .key name :: path, value, old =>
    let below := (KeyMap.findEntry name old.entries).getD .absent
    .table (KeyMap.insertEntry name (put path value below) old.entries)
  | .index i :: path, value, old =>
    let place : Int := if i < 0 then old.items.length + i else i
    if place < 0 then old
    else
      let items := padded (place.toNat + 1) old.items
      .list (items.set place.toNat (put path value (items.getD place.toNat .absent)))

end SettingTree

namespace SettingStep

def isNameChar (c : Char) : Bool :=
  c.isAlphanum || c = ' ' || c = '_' || c = '-'

/-- A name at the front of a text. -/
def name? (text : List Char) : Option (String × List Char) :=
  let name := text.takeWhile isNameChar
  if name.isEmpty then none
  else some (String.ofList name, text.dropWhile isNameChar)

/-- A whole number and its closing bracket, with blanks around the number. -/
def index? (text : List Char) : Option (Int × List Char) :=
  let isBlank (c : Char) : Bool := c = ' ' || c = '\t'
  let text := text.dropWhile isBlank
  let (negative, text) := match text with
    | '-' :: rest => (true, rest)
    | text => (false, text)
  match Decimal.nat? (text.takeWhile Char.isDigit) with
  | none => none
  | some n =>
    let value : Int := if negative then -n else n
    match (text.dropWhile Char.isDigit).dropWhile isBlank with
    | ']' :: rest => if Word.fitsSigned value then some (value, rest) else none
    | _ => none

/-- The steps after the first name of a path. -/
def steps? : (fuel : Nat) → List Char → Option (List SettingStep)
  | 0, _ => none
  | _, [] => some []
  | fuel + 1, '.' :: rest =>
    match name? rest with
    | none => none
    | some (name, rest) => (steps? fuel rest).map (.key name :: ·)
  | fuel + 1, '[' :: rest =>
    match index? rest with
    | none => none
    | some (i, rest) => (steps? fuel rest).map (.index i :: ·)
  | _, _ => none

/-- The path that a text such as `a.b[0]` writes; any other text is one name. -/
def pathOf (text : List Char) : List SettingStep :=
  let path? := do
    let (name, rest) ← name? text
    let steps ← steps? (rest.length + 1) rest
    return SettingStep.key name :: steps
  path?.getD [.key (String.ofList text)]

end SettingStep

namespace SettingTree

/-- Lays the entries of a table over a tree, each at the path that its name writes. -/
def putAll (entries : List (String × SettingTree)) (tree : SettingTree) : SettingTree :=
  entries.foldl (fun tree entry => put (SettingStep.pathOf entry.1.toList) entry.2 tree) tree

end SettingTree

end UserManagedAccess
