import UserManagedAccess.Error
import UserManagedAccess.Json.Decoder
import UserManagedAccess.Text.Blank

/-! Permissions: the scopes of a resource that are asked for or granted. -/
namespace UserManagedAccess

namespace Scope

/-- Allows reading what a derivation handle stands for. -/
def derivationRead : String := "urn:knows:uma:scopes:derivation-read"

/-- Asks for a derivation handle along with the token. -/
def derivationCreation : String := "urn:knows:uma:scopes:derivation-creation"

end Scope

/-- An absent resource stands for every resource, an absent list for every scope. -/
structure Permission where
  resource : Option String
  scopes : Option (List String)
  deriving DecidableEq, Repr

namespace Permission

/-- Every scope of every resource. -/
def everything : Permission := ⟨none, none⟩

/-- Appends a scope that is not listed yet. -/
def addScope (listed : List String) (scope : String) : List String :=
  if listed.contains scope then listed else listed ++ [scope]

/-- Appends the scopes that are not listed yet; an absent list starts out empty. -/
def withScopes (p : Permission) (scopes : List String) : Permission :=
  { p with scopes := some (scopes.foldl addScope (p.scopes.getD [])) }

def coversResource (granted requested : Option String) : Bool :=
  match granted, requested with
  | none, _ => true
  | some g, some r => g == r
  | some _, none => false

def coversScopes (granted requested : Option (List String)) : Bool :=
  match granted, requested with
  | none, _ => true
  | some g, some r => r.all g.contains
  | some _, none => false

/-- Whether all that is requested is granted. -/
def covers (granted requested : Permission) : Bool :=
  coversResource granted.resource requested.resource &&
    coversScopes granted.scopes requested.scopes

/-- Neither the resource nor a scope is blank. -/
def validate (p : Permission) : Except Error Unit :=
  if p.resource.any Text.isBlank then .error (.badRequest .blankPermissionResource)
  else if p.scopes.any (·.any Text.isBlank) then .error (.badRequest .blankPermissionScope)
  else .ok ()

/-- There is a permission, and each of them is valid. -/
def validateAll (ps : List Permission) : Except Error Unit :=
  if ps.isEmpty then .error (.badRequest .noPermissions) else ps.forM validate

def toJson (p : Permission) : Json :=
  .ofSome [("resource_id", p.resource.map .string), ("resource_scopes", p.scopes.map .strings)]

def record : Json.RecordDecoder Permission :=
  Permission.mk <$> .optional "resource_id" .string
    <*> .optional "resource_scopes" (.list .string)

def decoder : Json.Decoder Permission := record.decode

def listDecoder : Json.Decoder (List Permission) := .list decoder

def listToJson (ps : List Permission) : Json := .array (ps.map toJson)

end Permission

end UserManagedAccess
