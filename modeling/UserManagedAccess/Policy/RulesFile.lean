import UserManagedAccess.Policy.Rules

/-! Rules in a file that may change while the server runs. The file is read again when its stamp
differs from the one that was seen last; rules that cannot be read leave the old ones in force. -/
namespace UserManagedAccess

/-- When a file was changed last, and how long it is. -/
structure FileStamp where
  modified : Int
  size : Nat
  deriving DecidableEq, Repr

/-- What stands at the path of a file. -/
inductive FileState where
  | absent
  | notFile
  /-- A file; without a text if its content cannot be read as one. -/
  | file (stamp : FileStamp) (text : Option String)
  deriving DecidableEq, Repr, Inhabited

namespace FileState

/-- A file with the given content. -/
def ofBytes (modified : Int) (content : List UInt8) : FileState :=
  .file ⟨modified, content.length⟩ (Text.Utf8.decode content).toOption

/-- A file that holds a text and was never changed. -/
def ofText (text : String) : FileState := ofBytes 0 (Text.Utf8.encode text)

end FileState

/-- The rules in force and the stamp that was seen last. -/
structure RulesCache where
  rules : RuleTable
  stamp : FileStamp
  /-- Counts how often rules came into force. -/
  version : Nat

namespace RulesCache

def parse? (text : Option String) : Option RuleTable :=
  text.bind (Json.decodeText RuleTable.decoder)

/-- Reads a file for the first time; `path` is what errors call it. -/
def load (path : String) : FileState → Except Error RulesCache
  | .absent => .error (.config (.unreadable path))
  | .notFile => .error (.config (.notFile path))
  | .file _ none => .error (.config (.unreadable path))
  | .file stamp (some text) =>
    match Json.decodeText RuleTable.decoder text with
    | some rules => .ok ⟨rules, stamp, 0⟩
    | none => .error (.config (.invalidRules path))

def refresh (cache : RulesCache) : FileState → RulesCache
  | .file stamp text =>
    if stamp = cache.stamp then cache
    else
      match parse? text with
      | some rules => ⟨rules, stamp, cache.version + 1⟩
      | none => { cache with stamp }
  | _ => cache

end RulesCache

end UserManagedAccess
