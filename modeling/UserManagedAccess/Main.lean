import UserManagedAccess.Json.Writer
import UserManagedAccess.Number.Word
import UserManagedAccess.Server.Api
import UserManagedAccess.Server.Startup
import UserManagedAccess.Settings.Loading

/-! The server as a program. A gateway that owns the sockets hands over each request as one line of
JSON, with the time and the documents that it has at hand, and gets the response as one line. -/
namespace UserManagedAccess.Gateway
open Json RecordDecoder

/-- What the gateway hands over. -/
structure Call where
  method : String
  path : String
  contentType : Option String
  body : Option String
  time : Int
  documents : KeyMap Json

def Call.decoder : Decoder Call :=
  (Call.mk <$> required "method" .string
    <*> required "path" .string
    <*> optional "content_type" .string
    <*> optional "body" .string
    <*> required "time" (.whole 0 Word.signedHigh)
    <*> withDefault "documents" (.keyMap .json) ∅ : RecordDecoder Call).decode

def Call.request (call : Call) : Http.Request :=
  ⟨call.method, call.path, call.contentType, Text.Utf8.encode (call.body.getD "")⟩

def Call.around (call : Call) : Surroundings := ⟨call.time.toNat, .pinned call.documents⟩

def responseJson (response : Http.Response) : Json :=
  let body := match response.body with
    | .empty => .null
    | .json value => value
    | .text text => .string text
  .ofMembers [("status", .ofNat response.status),
    ("content_type", .ofOption .string response.contentType), ("body", body)]

/-- The variables that hold settings. -/
def variableNames : List String :=
  ["UMA__SERVER__HOST", "UMA__SERVER__PORT", "UMA__SERVER__BASE_URL", "UMA__POLICY__KIND",
   "UMA__POLICY__RULES_FILE", "UMA__POLICY__DERIVATION", "UMA__VERIFIERS__UNSECURE",
   "UMA__VERIFIERS__OIDC", "UMA__VERIFIERS__ACCESS_TOKEN", "UMA__VERIFIERS__JWT__ENABLED",
   "UMA__VERIFIERS__JWT__ERROR_ON_EXTRA_CLAIMS", "UMA__VERIFIERS__JWT__VERIFY",
   "UMA__TOKENS__OPAQUE", "UMA__TOKENS__TTL_SECS", "UMA__TOKENS__SIGNING_KEY",
   "UMA__TOKENS__KEY_ID"]

def environment : IO (List (String × String)) :=
  variableNames.filterMapM fun name => do
    return (← IO.getEnv name).map (name, ·)

def fileState (name : String) : IO FileState := do
  let path := (← IO.currentDir) / name
  if !(← path.pathExists) then return .absent
  if ← path.isDir then return .notFile
  let content ← IO.FS.readBinFile path
  let modified := (← path.metadata).modified
  return .ofBytes (modified.sec * 1000000000 + modified.nsec.toNat) content.toList

/-- The file that `UMA_CONFIG` names, or else `uma.toml` or `uma.json` if it is there. -/
def settingsFile : IO SettingsFile := do
  let read (name : String) (absent : SettingsFile) : IO SettingsFile := do
    match ← fileState name with
    | .file _ (some text) => return .file name text
    | _ => return absent
  match ← IO.getEnv "UMA_CONFIG" with
  | some name => read name .missing
  | none => read "uma.toml" (← read "uma.json" .unused)

/-- Answers one line; the rules file is looked at anew. -/
def answer (server : Server) (rules : IO FileState) (state : ServerState) (line : String) :
    IO (Json × ServerState) := do
  match decodeText Call.decoder line with
  | none => return (.ofMembers [("status", .ofNat 400)], state)
  | some call =>
    let state := { state with rulesFile := ← rules, requested := [] }
    let (response, state) := (server.handle call.around call.request).run state
    return (responseJson response, state)

partial def serve (server : Server) (rules : IO FileState) (state : ServerState) : IO Unit := do
  let line ← (← IO.getStdin).getLine
  if line.isEmpty then return
  let (response, state) ← answer server rules state line
  let output ← IO.getStdout
  output.putStrLn response.toText
  output.flush
  serve server rules state

/-- Keys are not generated here; the settings have to point to one. -/
def generated : Except Error Crypto.Rsa.PrivateKey :=
  .error (.config (.other "tokens.signing_key is required"))

def start : IO UInt32 := do
  match Settings.load (← settingsFile) (← environment) with
  | .error e =>
    IO.eprintln e.message
    return 1
  | .ok settings =>
    let file (name : Option String) : IO FileState :=
      match name with
      | some name => fileState name
      | none => return .absent
    let rules := file settings.policy.rulesFile
    let (key, first) := (← file settings.tokens.signingKey, ← rules)
    let files (name : String) : FileState :=
      if some name = settings.tokens.signingKey then key else first
    match Server.start settings files generated with
    | .error e =>
      IO.eprintln e.message
      return 1
    | .ok (server, state) =>
      serve server rules state
      return 0

end UserManagedAccess.Gateway

def main : IO UInt32 := UserManagedAccess.Gateway.start
