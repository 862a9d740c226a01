import UserManagedAccess.Json.Document
import UserManagedAccess.Number.Word
import UserManagedAccess.Settings.Tree
import UserManagedAccess.Toml.Document

/-! Where settings come from: a file and variables of the environment. Files in TOML and JSON are
read here; readers of other formats are brought along. -/
namespace UserManagedAccess

namespace SettingTree

def ofNumber : JsonNumber → SettingTree
  | .whole n => if Word.fitsSigned n then .whole n else .real (Binary64.ofNat n.toNat)
  | .real x => .real x

mutual

def ofJson : Json → SettingTree
  | .null => .absent
  | .bool b => .bool b
  | .number n => ofNumber n
  | .string s => .text s
  | .array items => .list (ofItems items)
  | .object members => .table (ofMembers members)

def ofItems : List Json → List SettingTree
  | [] => []
  | item :: rest => ofJson item :: ofItems rest

def ofMembers : List (String × Json) → List (String × SettingTree)
  | [] => []
  | (name, value) :: rest => (name, ofJson value) :: ofMembers rest

end

end SettingTree

/-- What settings are read from. -/
inductive SettingsFile where
  /-- No file is asked for. -/
  | unused
  /-- The file that is asked for is not there. -/
  | missing
  | file (name text : String)
  deriving DecidableEq, Repr

/-- Readers of further formats, by the extension of the file. -/
class FileFormats where
  entries? : (extension : List Char) → (text : String) → Option (List (String × SettingTree))

/-- No further formats are known to the program itself. -/
instance : FileFormats := ⟨fun _ _ => none⟩

namespace SettingsFile

/-- The part of a name after its last dot, unless the dot is in front. -/
def extension (name : String) : List Char :=
  let base := ((name.toList.reverse.takeWhile (· ≠ '/')).reverse)
  let last := (base.reverse.takeWhile (· ≠ '.')).reverse
  if last.length + 1 < base.length then last else []

/-- The extensions of files in YAML, INI, RON and JSON5. -/
def furtherExtensions : List String := ["yaml", "yml", "ini", "ron", "json5"]

/-- The entries of a file, in the format that its extension tells. A JSON text that is no object has
none. -/
def entries? [FileFormats] : SettingsFile → Option (List (String × SettingTree))
  | .unused => some []
  | .missing => none
  | .file name text =>
    if extension name = "toml".toList then Toml.entries? text
    else if extension name = "json".toList then
      (Json.ofText? text).map fun value => (SettingTree.ofJson value).entries
    else if furtherExtensions.contains (String.ofList (extension name)) then
      FileFormats.entries? (extension name) text
    else none

end SettingsFile

/-! ## The environment -/

namespace EnvironmentVariable

/-- Lower case as far as it leads to ASCII: the Kelvin sign is one more spelling of `k`. -/
def lowered (c : Char) : Char := if c = '\u212A' then 'k' else c.toLower

/-- Writes two underscores as a dot. -/
def dotted : List Char → List Char
  | '_' :: '_' :: rest => '.' :: dotted rest
  | c :: rest => c :: dotted rest
  | [] => []

/-- What variables with settings begin with. -/
def marker : List Char := "uma__".toList

/-- The name of the setting that a variable holds, if it holds one. -/
def setting? (name : String) : Option String :=
  let name := name.toList.map lowered
  if marker.isPrefixOf name then some (String.ofList (dotted (name.drop marker.length))) else none

/-- The value that the text of a variable looks like: a truth value, a whole number, a double, or
else a text. -/
def value (text : String) : SettingTree :=
  let word := String.ofList (text.toList.map Char.toLower)
  if word = "true" then .bool true
  else if word = "false" then .bool false
  else
    match Decimal.int? Word.signedLow Word.signedHigh text.toList with
    | some n => .whole n
    | none =>
      match Binary64.ofText? text.toList with
      | some x => .real x
      | none => .text text

/-- The settings in an environment; of variables for one setting the last counts. -/
def entries (environment : List (String × String)) : List (String × SettingTree) :=
  KeyMap.sortEntries <| environment.filterMap fun (name, text) =>
    (setting? name).map (·, value text)

end EnvironmentVariable

end UserManagedAccess
