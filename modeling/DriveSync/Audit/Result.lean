import Mathlib.Data.List.Basic

/-!
# DriveSync.Audit.Result

The results a manager prints, as JSON values, and the bridge's reader of them. The reader is one
function of the value and the operation, used both where a queued response is built and where a
stored one is read back.
-/

namespace DriveSync
namespace Audit

inductive ErrorKind where
  | badRequest | unauthorized | forbidden | csrfRejected | methodNotAllowed | unsupportedMediaType
  | payloadTooLarge | conflict | unsafeRuntime | unavailable | internal
deriving DecidableEq, Repr

abbrev BridgeResult (α : Type) : Type := Except ErrorKind α

/-- A JSON value; a number is its text, an object its fields in the order they are written. -/
inductive Json where
  | null
  | bool (value : Bool)
  | num (text : String)
  | str (text : String)
  | arr (values : List Json)
  | obj (fields : List (String × Json))
deriving Repr

def u64Max : Nat := 18446744073709551615

namespace Json

def field? (name : String) : List (String × Json) → Option Json
  | [] => none
  | (key, value) :: fields => if key = name then some value else field? name fields

def get (name : String) : Json → Option Json
  | obj fields => field? name fields
  | _ => none

def asBool : Json → Option Bool
  | bool value => some value
  | _ => none

def asStr : Json → Option String
  | str text => some text
  | _ => none

def asU64 : Json → Option Nat
  | num text => text.toNat?.filter (· ≤ u64Max)
  | _ => none

def asArray : Json → Option (List Json)
  | arr values => some values
  | _ => none

def asObject : Json → Option (List (String × Json))
  | obj fields => some fields
  | _ => none

/-- `result.get("ok").and_then(Value::as_bool) == Some(true)`. -/
def isOk (value : Json) : Bool := decide ((value.get "ok").bind asBool = some true)

/-- The bytes a character takes in a JSON string. -/
def charLength (c : Char) : Nat :=
  if c = '"' ∨ c = '\\' then 2
  else if c.toNat = 8 ∨ c.toNat = 9 ∨ c.toNat = 10 ∨ c.toNat = 12 ∨ c.toNat = 13 then 2
  else if c.toNat < 32 then 6
  else c.utf8Size

def stringLength (text : String) : Nat := (text.toList.map charLength).foldl (· + ·) 2

mutual

/-- The bytes of a value as it is written, without any blank. -/
def length : Json → Nat
  | null => 4
  | bool value => if value then 4 else 5
  | num text => text.utf8ByteSize
  | str text => stringLength text
  | arr values => 2 + (values.length - 1) + valuesLength values
  | obj fields => 2 + (fields.length - 1) + fieldsLength fields

def valuesLength : List Json → Nat
  | [] => 0
  | value :: values => value.length + valuesLength values

def fieldsLength : List (String × Json) → Nat
  | [] => 0
  | (key, value) :: fields => stringLength key + 1 + value.length + fieldsLength fields

end

end Json

/-! ## What may not be in a result -/

def containsText (text part : String) : Bool :=
  text.toList.tails.any fun rest => part.toList.isPrefixOf rest

def endsWith (text part : String) : Bool := part.toList.isSuffixOf text.toList

def normalizedKey (key : String) : String :=
  String.ofList (key.toList.map fun c => if c = '-' then '_' else c.toLower)

def isStringOrStringArray : Json → Bool
  | .str _ => true
  | .arr items => items.all fun item => item.asStr.isSome
  | _ => false

def widenedSensitiveKeys : List String :=
  ["tokens", "set_cookie", "session_cookies", "api_key", "bearer"]

def alwaysSensitive (normalized : String) : Bool :=
  containsText normalized "password" || containsText normalized "secret" ||
    containsText normalized "synotoken" || normalized == "token" ||
    endsWith normalized "_token" || normalized == "authorization" || normalized == "cookie"

def sensitiveKey (key : String) (child : Json) : Bool :=
  let normalized := normalizedKey key
  let widened := !alwaysSensitive normalized && widenedSensitiveKeys.contains normalized &&
    isStringOrStringArray child
  !("has_".toList.isPrefixOf normalized.toList) && (alwaysSensitive normalized || widened)

mutual

def jsonContainsSensitiveValue (exactSecret : Option String) : Json → Bool
  | .obj fields => fieldsContainSensitiveValue exactSecret fields
  | .arr values => valuesContainSensitiveValue exactSecret values
  | .str text => exactSecret == some text
  | _ => false

def valuesContainSensitiveValue (exactSecret : Option String) : List Json → Bool
  | [] => false
  | value :: values => jsonContainsSensitiveValue exactSecret value ||
      valuesContainSensitiveValue exactSecret values

def fieldsContainSensitiveValue (exactSecret : Option String) : List (String × Json) → Bool
  | [] => false
  | (key, child) :: fields => sensitiveKey key child ||
      jsonContainsSensitiveValue exactSecret child ||
      fieldsContainSensitiveValue exactSecret fields

end

/-! ## Codes and texts -/

def consumeFailureCodes : List String :=
  ["invalid_request", "unauthorized", "forbidden", "csrf_rejected", "response_too_large", "busy",
    "unsafe_state", "unavailable", "internal_error"]

def controllerFailureCodes : List String :=
  ["classification_failed", "secret_claim_failed", "consumer_failed", "consumer_wrote_no_result"]

def isPackageFailureCode (code : String) : Bool :=
  consumeFailureCodes.contains code || controllerFailureCodes.contains code

def resultCodes : List String :=
  ["invalid_request", "not_configured", "unavailable", "unsafe_state", "busy", "forbidden",
    "bridge_required", "corrupt_config", "corrupt_state", "internal_error", "response_too_large",
    "operation_failed"]

def isControl (c : Char) : Bool := c.toNat < 32 || (127 ≤ c.toNat && c.toNat < 160)

def validResultText (value : String) (maximum : Nat) : Bool :=
  value.utf8ByteSize ≤ maximum && !value.toList.contains (Char.ofNat 0)

def validBoundedText (value : String) (maximum : Nat) (emptyAllowed : Bool) : Bool :=
  (emptyAllowed || !value.isEmpty) && value.utf8ByteSize ≤ maximum &&
    !value.toList.any fun c => c = Char.ofNat 0 || isControl c

def asciiAlphanumeric (c : Char) : Bool :=
  ('0' ≤ c && c ≤ '9') || ('a' ≤ c && c ≤ 'z') || ('A' ≤ c && c ≤ 'Z')

def asciiDigit (c : Char) : Bool := '0' ≤ c && c ≤ '9'

def lowerHexDigit (c : Char) : Bool := asciiDigit c || ('a' ≤ c && c ≤ 'f')

def hexDigit (c : Char) : Bool := lowerHexDigit c || ('A' ≤ c && c ≤ 'F')

def validExistingName (value : String) : Bool :=
  !value.isEmpty && value.utf8ByteSize ≤ 255 && value != "all" &&
    value.toList.all fun c => asciiAlphanumeric c || c = '_' || c = '-'

/-- The pieces of a text between the separators. -/
def splitOn (separator : Char) : List Char → List (List Char)
  | [] => [[]]
  | c :: rest =>
    match splitOn separator rest with
    | [] => [[]]
    | piece :: pieces => if c = separator then [] :: piece :: pieces else (c :: piece) :: pieces

def parseCanonicalU64 (value : List Char) : Option Nat :=
  if value.isEmpty || (decide (1 < value.length) && value.head? == some '0') ||
      !value.all asciiDigit then none
  else (String.ofList value).toNat?.filter (· ≤ u64Max)

def validConnectionProofSyntax (value : String) : Bool :=
  match splitOn '.' value.toList with
  | [version, expires, first, second] =>
    version == "v1".toList && (parseCanonicalU64 expires).isSome &&
      first.length == 64 && first.all hexDigit && second.length == 64 && second.all hexDigit
  | _ => false

def containsDotSegment (value : String) : Bool :=
  (splitOn '/' value.toList).any fun component => component == ['.'] || component == ['.', '.']

def validRemoteBrowserParent (value : String) : Bool :=
  value == "/" || (validBoundedText value 247 false &&
    "/".toList.isPrefixOf value.toList && !endsWith value "/" && !containsText value "//" &&
    !value.toList.contains '\\' && !containsDotSegment value)

/-! ## The reader -/

def guardThat (condition : Bool) (error : ErrorKind) : BridgeResult Unit :=
  if condition then .ok () else .error error

def orElse {α : Type} (value : Option α) (error : ErrorKind) : BridgeResult α :=
  match value with
  | some a => .ok a
  | none => .error error

def maxResultWarnings : Nat := 16

def maxManagerOutputBytes : Nat := 1048576

def validWarning (warning : Json) : Bool :=
  match warning.asObject with
  | none => false
  | some fields =>
    match (Json.field? "code" fields).bind Json.asStr,
        (Json.field? "message" fields).bind Json.asStr with
    | some code, some message =>
      fields.length == 2 && code.utf8ByteSize ≤ 48 &&
        (code.toList.head?.map fun c => decide ('a' ≤ c) && decide (c ≤ 'z')).getD false &&
        code.toList.all (fun c => ('a' ≤ c && c ≤ 'z') || asciiDigit c || c = '_') &&
        !message.isEmpty && !message.toList.any isControl && validResultText message 1024
    | _, _ => false

/-- The one warning a manager may print, as an entry of the list. -/
def warningsOf (root : List (String × Json)) : BridgeResult (Option Json) :=
  match Json.field? "warning_code" root, Json.field? "warning" root with
  | none, none => .ok (Json.field? "warnings" root)
  | some code, some message =>
    if (Json.field? "warnings" root).isNone then
      .ok (some (.arr [.obj [("code", code), ("message", message)]]))
    else .error .unavailable
  | _, _ => .error .unavailable

def validateResultWarnings (root : List (String × Json)) : BridgeResult Unit := do
  match ← warningsOf root with
  | none => pure ()
  | some warnings =>
    guardThat ((Json.field? "ok" root).bind Json.asBool == some true) .unavailable
    let warnings ← orElse (warnings.asArray.filter fun warnings =>
      1 ≤ warnings.length && warnings.length ≤ maxResultWarnings) .unavailable
    guardThat (warnings.all validWarning) .unavailable

def exactFields (root : List (String × Json)) (names : List String) : Bool :=
  root.length == names.length && root.all fun field => names.contains field.1

def validExitCode (root : List (String × Json)) : Bool :=
  match Json.field? "exit_code" root with
  | none => true
  | some code => (code.asU64.map fun code => decide (code ≤ 255)).getD false

def validDirectory (current : String) (directory : Json) : Bool :=
  match directory.asObject with
  | none => false
  | some fields =>
    match (Json.field? "name" fields).bind Json.asStr,
        (Json.field? "path" fields).bind Json.asStr with
    | some name, some path =>
      exactFields fields ["name", "path"] && !name.isEmpty && name.utf8ByteSize ≤ 255 &&
        name != "." && name != ".." && !name.toList.contains '/' && !name.toList.contains '\\' &&
        !name.toList.any isControl &&
        path == (if current == "/" then "/" ++ name else current ++ "/" ++ name) &&
        validRemoteBrowserParent path
    | _, _ => false

def validateRemoteDirectoryResult (root : List (String × Json)) (message : String) :
    BridgeResult Unit := do
  guardThat (exactFields root ["schema", "ok", "message", "directory_schema", "current",
      "directories", "truncated"] &&
    message == "File Station directories loaded." &&
    (Json.field? "directory_schema" root).bind Json.asStr ==
      some "sdsync.dsm-remote-directories.v1" &&
    ((Json.field? "truncated" root).bind Json.asBool).isSome) .unavailable
  let current ← orElse ((Json.field? "current" root).bind Json.asStr) .unavailable
  guardThat (validRemoteBrowserParent current) .unavailable
  let directories ← orElse (((Json.field? "directories" root).bind Json.asArray).filter
    fun values => values.length ≤ 500) .unavailable
  guardThat (directories.all (validDirectory current)) .unavailable
  guardThat (decide (directories.map fun directory => (directory.get "path").bind Json.asStr).Nodup)
    .unavailable

def connectionFailureCodes (operation : String) : List String :=
  ["file_station_connection_failed", "file_station_totp_required", "file_station_totp_rejected",
    "file_station_authentication_failed", "file_station_logout_failed"] ++
  if operation = "browse-remote" ∨ operation = "test-profile-auth" then
    ["file_station_listing_denied", "file_station_listing_failed",
      "file_station_denied_logout_failed", "file_station_listing_logout_failed",
      "file_station_operation_logout_failed"]
  else []

def validateConnectionFailure (root : List (String × Json)) (message operation : String) :
    BridgeResult Unit := do
  guardThat (exactFields root (if (Json.field? "exit_code" root).isSome then
      ["schema", "ok", "message", "code", "exit_code"]
    else ["schema", "ok", "message", "code"])) .unavailable
  guardThat (validExitCode root) .unavailable
  let code ← orElse ((Json.field? "code" root).bind Json.asStr) .unavailable
  let genericInternalFailure := code == "operation_failed" &&
    message == "Operation could not be completed."
  guardThat ((connectionFailureCodes operation).contains code || genericInternalFailure ||
    isPackageFailureCode code) .unavailable

def validateProfileAuth (root : List (String × Json)) (message : String) : BridgeResult Unit := do
  let proof := (Json.field? "connection_proof" root).bind Json.asStr
  let expires := (Json.field? "connection_proof_expires_at_epoch" root).bind Json.asU64
  let proofExpires := (proof.bind fun value => (splitOn '.' value.toList)[1]?).bind fun text =>
    (String.ofList text).toNat?.filter (· ≤ u64Max)
  guardThat (exactFields root ["schema", "ok", "message", "connection_proof",
      "connection_proof_expires_at_epoch"] &&
    message == "Authentication succeeded and the temporary File Station session was closed." &&
    (proof.map validConnectionProofSyntax).getD false && expires.isSome && expires != some 0 &&
    proofExpires == expires) .unavailable

def validateConnectionManagerResult (value : Json) (operation : String) : BridgeResult Unit := do
  let root ← orElse value.asObject .unavailable
  guardThat ((Json.field? "schema" root).bind Json.asStr == some "sdsync.dsm-result.v1") .unavailable
  let ok ← orElse ((Json.field? "ok" root).bind Json.asBool) .unavailable
  let message ← orElse ((Json.field? "message" root).bind Json.asStr) .unavailable
  guardThat (validResultText message 2048) .unavailable
  if !ok then validateConnectionFailure root message operation
  else if operation = "test-profile-auth" then validateProfileAuth root message
  else if operation = "browse-remote" then validateRemoteDirectoryResult root message
  else .error .unavailable

def allowedFields : List String :=
  ["schema", "ok", "message", "code", "exit_code", "status", "scope", "output", "has_password",
    "has_totp", "has_remote_log_token", "warnings", "warning_code", "warning"]

def validateResultCode (root : List (String × Json)) (ok : Bool) : BridgeResult Unit :=
  if ok then guardThat (Json.field? "code" root).isNone .unavailable
  else do
    let code ← orElse (((Json.field? "code" root).bind Json.asStr).filter fun code =>
      resultCodes.contains code || isPackageFailureCode code) .unavailable
    guardThat (validResultText code 32) .unavailable

def validateActionFields (root : List (String × Json)) (ok : Bool) : BridgeResult Unit :=
  if ["status", "scope", "output"].any (fun name => (Json.field? name root).isSome) then do
    guardThat (["status", "scope", "output", "exit_code"].all fun name =>
      (Json.field? name root).isSome) .unavailable
    let status ← orElse ((Json.field? "status" root).bind Json.asStr) .unavailable
    guardThat (status == if ok then "succeeded" else "failed") .unavailable
    let scope ← orElse ((Json.field? "scope" root).bind Json.asStr) .unavailable
    guardThat (scope == "all" || validExistingName scope) .unavailable
    let output ← orElse ((Json.field? "output" root).bind Json.asStr) .unavailable
    guardThat (validResultText output 65536) .unavailable
  else .ok ()

def presenceFields : List String := ["has_password", "has_totp", "has_remote_log_token"]

def validPresence (root : List (String × Json)) (ok : Bool) : Bool :=
  presenceFields.all (fun name => (Json.field? name root).isNone) ||
    (ok && presenceFields.all fun name => ((Json.field? name root).bind Json.asBool).isSome)

def parseManagerResultForOperation (value : Json) (exactSecret operation : Option String) :
    BridgeResult Json := do
  guardThat (0 < value.length && value.length ≤ maxManagerOutputBytes) .unavailable
  guardThat (!jsonContainsSensitiveValue exactSecret value) .unavailable
  match operation with
  | some "test-profile-auth" => do
    validateConnectionManagerResult value "test-profile-auth"
    pure value
  | some "browse-remote" => do
    validateConnectionManagerResult value "browse-remote"
    pure value
  | _ =>
    let root ← orElse value.asObject .unavailable
    guardThat (root.all (fun field => allowedFields.contains field.1) &&
      (Json.field? "schema" root).bind Json.asStr == some "sdsync.dsm-result.v1") .unavailable
    validateResultWarnings root
    let ok ← orElse ((Json.field? "ok" root).bind Json.asBool) .unavailable
    let message ← orElse ((Json.field? "message" root).bind Json.asStr) .unavailable
    guardThat (validResultText message 65536) .unavailable
    validateResultCode root ok
    validateActionFields root ok
    guardThat (validExitCode root) .unavailable
    guardThat (validPresence root ok) .unavailable
    pure value

end Audit
end DriveSync
