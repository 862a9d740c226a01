import UserManagedAccess.Json.Document

/-! Typed reading of JSON. A decoder goes through a tree in the order of the text, so of two faults
the one that the text shows first is reported. -/
namespace UserManagedAccess.Json

/-- Why a text is not read as a value of a type. -/
inductive Mismatch where
  /-- The text breaks the rules of JSON. -/
  | grammar
  /-- The text is JSON so far, but of another shape. -/
  | shape
  deriving DecidableEq, Repr

abbrev Decoder (α : Type) := Document → Except Mismatch α

namespace Decoder
variable {α β : Type}

/-- The error for a value of another kind than expected. -/
def unexpected : Decoder α
  | .broken => .error .grammar
  | .unreadable => .error .grammar
  | _ => .error .shape

/-- Passes over a value. -/
def skip (d : Document) : Except Mismatch Unit :=
  if d.isWhole then .ok () else .error .grammar

def json : Decoder Json := fun d =>
  match d.toJson? with
  | some value => .ok value
  | none => .error .grammar

/-- Reads all of a value before a decoder looks at it: a broken text is found first, and what the
decoder misses is a matter of shape. -/
def buffered (decoder : Decoder α) : Decoder α := fun d =>
  match json d with
  | .error e => .error e
  | .ok _ => (decoder d).mapError fun _ => .shape

def string : Decoder String
  | .string s => .ok s
  | d => unexpected d

def bool : Decoder Bool
  | .bool b => .ok b
  | d => unexpected d

/-- A whole number within bounds. -/
def whole (low high : Int) : Decoder Int
  | .number (.whole n) => if low ≤ n && n ≤ high then .ok n else .error .shape
  | d => unexpected d

/-- `null` stands for the absence of a value. -/
def option (decoder : Decoder α) : Decoder (Option α)
  | .null => .ok none
  | d => (decoder d).map some

def items (decoder : Decoder α) : List Document → (closed : Bool) → Except Mismatch (List α)
  | [], closed => if closed then .ok [] else .error .grammar
  | item :: rest, closed => do
    let value ← decoder item
    let values ← items decoder rest closed
    return value :: values

def list (decoder : Decoder α) : Decoder (List α)
  | .array values closed => items decoder values closed
  | d => unexpected d

def entries (decoder : Decoder α) :
    List (Option String × Document) → (closed : Bool) → Except Mismatch (List (String × α))
  | [], closed => if closed then .ok [] else .error .grammar
  | (none, _) :: _, _ => .error .grammar
  | (some name, value) :: rest, closed => do
    let value ← decoder value
    let values ← entries decoder rest closed
    return (name, value) :: values

/-- An object with members of one kind and any names; of members with one name the last counts. -/
def keyMap (decoder : Decoder α) : Decoder (KeyMap α)
  | .object members closed => (entries decoder members closed).map KeyMap.ofList
  | d => unexpected d

/-- One of the words, written as a text or as an object with the word as its one name and `null` as
its value. -/
def word (meaning : String → Option α) : Decoder α
  | .string s =>
    match meaning s with
    | some value => .ok value
    | none => .error .shape
  | .object [] closed => if closed then .error .shape else .error .grammar
  | .object ((name, value) :: rest) closed =>
    match name with
    | none => .error .grammar
    | some name =>
      match meaning name, value with
      | none, _ => .error .shape
      | some meant, .null => if rest.isEmpty && closed then .ok meant else .error .grammar
      | some _, value => unexpected value
  | d => unexpected d

end Decoder

/-! ## Records -/

/-- A field of a record: the names it goes by, whether an array that is too short may leave it out,
and what its value has to look like. -/
structure Field where
  names : List String
  optional : Bool
  check : Document → Except Mismatch Unit

/-- A reader of records: its fields in order, and how the record is made from what was found for
each of them. -/
structure RecordDecoder (α : Type) where
  fields : List Field
  build : List (Option Document) → Except Mismatch α

namespace RecordDecoder
variable {α β : Type}

protected def pure (value : α) : RecordDecoder α := ⟨[], fun _ => .ok value⟩

protected def seq (f : RecordDecoder (α → β)) (x : RecordDecoder α) : RecordDecoder β where
  fields := f.fields ++ x.fields
  build found := do
    let make ← f.build (found.take f.fields.length)
    let value ← x.build (found.drop f.fields.length)
    return make value

instance : Applicative RecordDecoder where
  pure := RecordDecoder.pure
  seq f x := RecordDecoder.seq f (x ())

/-- A field under the given names with a value for the case that it is missing; without one a
missing field is an error. -/
def field (names : List String) (decoder : Decoder α) (missing : Option α) (optional : Bool) :
    RecordDecoder α where
  fields := [⟨names, optional, fun d => (decoder d).map fun _ => ()⟩]
  build
    | some d :: _ => decoder d
    | _ =>
      match missing with
      | some value => .ok value
      | none => .error .shape

/-- A field that has to be there. -/
def required (name : String) (decoder : Decoder α) : RecordDecoder α :=
  field [name] decoder none false

/-- A field with a default. -/
def withDefault (name : String) (decoder : Decoder α) (default : α) : RecordDecoder α :=
  field [name] decoder (some default) true

/-- A field that may be missing or `null`. -/
def optional (name : String) (decoder : Decoder α) : RecordDecoder (Option α) :=
  field [name] (Decoder.option decoder) (some none) true

/-- A field that may be `null` and, in an object, missing; an array has to hold it. -/
def nullable (name : String) (decoder : Decoder α) : RecordDecoder (Option α) :=
  field [name] (Decoder.option decoder) (some none) false

/-- Puts a member with its field; a field that is given twice is an error. -/
def place (name : String) (value : Document) :
    List Field → List (Option Document) → Except Mismatch (Option (List (Option Document)))
  | field :: fields, slot :: slots =>
    if field.names.contains name then
      if slot.isSome then .error .shape
      else
        match field.check value with
        | .error e => .error e
        | .ok () => .ok (some (some value :: slots))
    else
      match place name value fields slots with
      | .error e => .error e
      | .ok none => .ok none
      | .ok (some slots) => .ok (some (slot :: slots))
  | _, _ => .ok none

/-- Goes through the members of an object; members that belong to no field are passed over. -/
def collect (fields : List Field) (slots : List (Option Document)) :
    List (Option String × Document) → (closed : Bool) → Except Mismatch (List (Option Document))
  | [], closed => if closed then .ok slots else .error .grammar
  | (none, _) :: _, _ => .error .grammar
  | (some name, value) :: rest, closed =>
    match place name value fields slots with
    | .error e => .error e
    | .ok (some slots) => collect fields slots rest closed
    | .ok none =>
      match Decoder.skip value with
      | .error e => .error e
      | .ok () => collect fields slots rest closed

/-- Goes through an array that holds the fields in order. Too many items break the grammar, since
nothing but the closing bracket may follow the last field. -/
def align : List Field → List Document → (closed : Bool) → Except Mismatch (List (Option Document))
  | [], [], closed => if closed then .ok [] else .error .grammar
  | [], _ :: _, _ => .error .grammar
  | field :: fields, [], closed =>
    if !closed then .error .grammar
    else if !field.optional then .error .shape
    else (align fields [] closed).map (none :: ·)
  | field :: fields, value :: rest, closed =>
    match field.check value with
    | .error e => .error e
    | .ok () => (align fields rest closed).map (some value :: ·)

/-- Reads a record from an object or from an array of its fields. -/
def decode (record : RecordDecoder α) : Decoder α
  | .object members closed => do
    record.build (← collect record.fields (record.fields.map fun _ => none) members closed)
  | .array items closed => do
    record.build (← align record.fields items closed)
  | d => Decoder.unexpected d

/-- Reads a record from an object alone. -/
def decodeObject (record : RecordDecoder α) : Decoder α
  | .object members closed => do
    record.build (← collect record.fields (record.fields.map fun _ => none) members closed)
  | d => Decoder.unexpected d

end RecordDecoder

/-- Reads a value of a type from a JSON value. -/
def decodeWith {α : Type} (decoder : Decoder α) (value : Json) : Option α :=
  (decoder (Document.ofJson value)).toOption

/-- Reads a value of a type from a text that holds nothing else. -/
def decodeText {α : Type} (decoder : Decoder α) (text : String) : Option α :=
  (decoder (Document.ofText text)).toOption

end UserManagedAccess.Json
