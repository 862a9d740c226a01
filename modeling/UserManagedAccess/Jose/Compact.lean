import UserManagedAccess.Jose.Header
import UserManagedAccess.Json.Writer
import UserManagedAccess.Text.Blank

/-! Signed tokens as texts: header, payload and signature in base 64, with dots between. -/
namespace UserManagedAccess.Jose

/-- What a token says, by name. -/
abbrev Payload := KeyMap Json

namespace Payload

/-- The issuer that a payload names, unless the name is empty. -/
def issuer? (payload : Payload) : Option String :=
  ((payload.get? "iss").bind Json.string?).filter (· ≠ "")

end Payload

structure Compact where
  header : String
  payload : String
  signature : String
  deriving DecidableEq, Repr

namespace Compact

/-- A text before and after its last dot. -/
def splitLast? (text : List Char) : Option (List Char × List Char) :=
  match text.reverse.dropWhile (· ≠ '.') with
  | [] => none
  | _ :: front => some (front.reverse, (text.reverse.takeWhile (· ≠ '.')).reverse)

/-- Divides a text at its last two dots; further dots stay with the header. -/
def ofText? (text : String) : Option Compact := do
  let (message, signature) ← splitLast? text.toList
  let (header, payload) ← splitLast? message
  return ⟨.ofList header, .ofList payload, .ofList signature⟩

/-- What the signature is made for. -/
def message (token : Compact) : String := token.header ++ "." ++ token.payload

def toText (token : Compact) : String := token.message ++ "." ++ token.signature

/-- The base 64 form of a value's text. -/
def segment (value : Json) : String := Text.Base64Url.encode (Text.Utf8.encode value.toText)

end Compact

/-- Reads the header of a token, whatever stands in the other segments. -/
def readHeader (text : String) : Except Error Header :=
  let header : Except TokenFault Header :=
    match Compact.ofText? text with
    | none => .error .malformed
    | some token => Header.ofSegment token.header
  header.mapError (.invalidCredential <| .invalidHeader ·)

/-- Reads the payload of a token without a look at its signature. -/
def readPayload (text : String) : Except Error Payload :=
  let refuse (fault : CredentialFault) : Except Error Payload := .error (.invalidCredential fault)
  match Text.parts (· == '.') text with
  | [_, payload, _] =>
    match Text.Base64Url.decode .accepted payload with
    | .error cause => refuse (.payloadNotBase64 cause)
    | .ok bytes =>
      match Json.Document.ofBytes bytes with
      | .object members closed =>
        match Json.Decoder.keyMap .json (.object members closed) with
        | .ok claims => .ok claims
        | .error _ => refuse .payloadNotJson
      | document =>
        match document.toJson? with
        | some _ => refuse .payloadNotObject
        | none => refuse .payloadNotJson
  | _ => refuse .notCompact

end UserManagedAccess.Jose
