import UserManagedAccess.Permission
import UserManagedAccess.Url.Parser

/-! Registered resources: the scopes they have and the resources they were derived from. -/
namespace UserManagedAccess

/-- The handle of a source and the server that issued it. -/
structure Source where
  issuer : String
  derivationId : String
  deriving DecidableEq, Repr

namespace Source

def toJson (source : Source) : Json :=
  .ofMembers [("issuer", .string source.issuer),
    ("derivation_resource_id", .string source.derivationId)]

def decoder : Json.Decoder Source :=
  (Source.mk <$> .required "issuer" .string
    <*> .required "derivation_resource_id" .string : Json.RecordDecoder _).decode

end Source

/-- The sources of a resource, and relations that are kept without being understood. -/
structure Provenance where
  derivedFrom : List Source
  other : KeyMap Json

namespace Provenance

/-- The names that the sources go by, the one they are written under first. -/
def derivedFromNames : List String := ["prov:wasDerivedFrom", "wasDerivedFrom"]

protected def empty : Provenance := ⟨[], ∅⟩

def toJson (relations : Provenance) : Json :=
  let sources := Json.array (relations.derivedFrom.map Source.toJson)
  .object <|
    if relations.derivedFrom.isEmpty then relations.other.entries
    else KeyMap.insertEntry "prov:wasDerivedFrom" sources relations.other.entries

open Json

/-- One source or a list of them. -/
def sourcesDecoder : Decoder (List Source) := .buffered fun d =>
  match Source.decoder d with
  | .ok source => .ok [source]
  | .error _ => Decoder.list Source.decoder d

/-- Goes through the members of an object: the sources may be given once, under either name. -/
def readMembers (sources : Option (List Source)) (other : List (String × Json)) :
    List (Option String × Document) → (closed : Bool) → Except Mismatch Provenance
  | [], closed =>
    if closed then .ok ⟨sources.getD [], .ofList other.reverse⟩ else .error .grammar
  | (none, _) :: _, _ => .error .grammar
  | (some name, value) :: rest, closed =>
    if derivedFromNames.contains name then
      if sources.isSome then .error .shape
      else
        match sourcesDecoder value with
        | .error e => .error e
        | .ok sources => readMembers (some sources) other rest closed
    else
      match Decoder.json value with
      | .error e => .error e
      | .ok json => readMembers sources ((name, json) :: other) rest closed

def decoder : Decoder Provenance
  | .object members closed => readMembers none [] members closed
  | d => Decoder.unexpected d

end Provenance

/-- A resource as its owner describes it. -/
structure Resource where
  scopes : List String
  relations : Option Provenance
  name : Option String
  type : Option String
  description : Option String

namespace Resource

/-- A resource with nothing but scopes. -/
def ofScopes (scopes : List String) : Resource := ⟨scopes, none, none, none, none⟩

/-- The resource that stands for the right to read a derivation. -/
def handle : Resource := ofScopes [Scope.derivationRead]

/-- The resources that this one was derived from. -/
def sources (d : Resource) : List Source :=
  (d.relations.map (·.derivedFrom)).getD []

/-- Adds a source. -/
def addSource (d : Resource) (source : Source) : Resource :=
  let relations := d.relations.getD .empty
  let extended := { relations with derivedFrom := relations.derivedFrom ++ [source] }
  { d with relations := some extended }

section
variable [Url.DomainRules]

def validateSource (source : Source) : Except Error Unit :=
  match Url.parse source.issuer with
  | .error cause => .error (.badRequest (.issuerNotUrl source.issuer cause))
  | .ok _ =>
    if Text.isBlank source.derivationId then .error (.badRequest .blankDerivationId) else .ok ()

/-- There are scopes, none of them blank, and every source names a server and a handle. -/
def validate (d : Resource) : Except Error Unit :=
  if d.scopes.isEmpty then .error (.badRequest .noResourceScopes)
  else if d.scopes.any Text.isBlank then .error (.badRequest .blankResourceScope)
  else d.sources.forM validateSource

end

def toJson (d : Resource) : Json :=
  .ofSome [("resource_scopes", some (.strings d.scopes)),
    ("resource_relations", d.relations.map Provenance.toJson),
    ("name", d.name.map .string), ("type", d.type.map .string),
    ("description", d.description.map .string)]

def decoder : Json.Decoder Resource :=
  (Resource.mk <$> .required "resource_scopes" (.list .string)
    <*> .optional "resource_relations" Provenance.decoder
    <*> .optional "name" .string
    <*> .optional "type" .string
    <*> .optional "description" .string : Json.RecordDecoder Resource).decode

end Resource

end UserManagedAccess
