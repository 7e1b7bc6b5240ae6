import DriveSync.Lib.Descend
import DriveSync.Plan.Build
import DriveSync.Transfer.Body

/-!
# DriveSync.Transfer.Client

The upload of one file, as the client carries it out: attempts under one session, up to a budget
that a torn overwrite raises by one (`attempts`), each checked by what the destination then holds
(`verifyUploadLanded`, `earlierAttemptLanded`, `lastAttemptFailedInTransport`), and all of it once
more under a new session where DSM refused the first one's (`withSessionRecovery`).

The source, the network, DSM, the run's cancellation and the other users of the client answer the
calls.
-/

namespace DriveSync
namespace Transfer

/-! ## What the client is, and what it asks -/

structure ApiSpec where
  path : String
  minVersion : Nat
  maxVersion : Nat
deriving DecidableEq, Repr

structure SessionData where
  sid : String
  synoToken : Option String
deriving DecidableEq, Repr

/-- A client, with what it calls outside of itself: the texts of DSM's codes, a path joined to the
base URL and whether the joined one stays on it, and the fingerprint of bytes. -/
structure Client where
  describe : Descriptions
  joinUrl : String → Except String String
  staysBelow : String → Bool
  fingerprint : List UInt8 → ContentFingerprint
  apis : String → Option ApiSpec
  retries : Nat
  retries_le : retries ≤ Session.u32Max
  uploadTimeout : Nat
  maxUploadRate : Option Nat
  reauthenticates : Bool

/-- One file to upload, and how. -/
structure Job where
  source : Source
  remoteFile : RelPath
  observed : Bool
  overwrite : Bool
  createParents : Bool

inductive UploadTransferEvent where
  | attemptStarted (attempt : Nat)
  | completed
  | failed
deriving DecidableEq, Repr

/-- The form of an upload, its file last. -/
structure UploadRequest where
  url : String
  path : String
  createParents : Bool
  overwrite : Bool
  mtime : Int
  session : SessionData
  fileName : String
  length : Nat
  bounds : UploadBounds
deriving DecidableEq, Repr

inductive Call where
  | isCancelled
  | observer (event : UploadTransferEvent)
  | symlinkMetadata (path : String)
  | openFile (path : String)
  | openMetadata (path : String)
  | currentSession
  | runUploadRequest (request : UploadRequest)
  | hashFileSnapshot (path : String)
  | getInfo (path : RelPath)
  | remoteContentMd5 (path : RelPath)
  | remoteContentFingerprint (path : RelPath) (size : Nat)
  | sleep (millis : Nat)
  | confirmFileStationSession
  | admitLogin
  | reauthenticate

/-- The record a sent attempt is announced with. -/
structure CallStarted where
  attempt : Nat
  maxAttempts : Nat
  requestBytes : Nat
  timeoutMs : Nat
deriving DecidableEq, Repr

/-- What a call is answered. The observer's own reads of a body are part of what an attempt meets; a
sleep answers whether it was cut short. -/
abbrev Call.Reply : Call → Type
  | isCancelled => Bool
  | observer _ => Bool
  | symlinkMetadata _ => Except String Metadata
  | openFile _ => Except String Unit
  | openMetadata _ => Except String Metadata
  | currentSession => Option SessionData
  | runUploadRequest _ => Transmission
  | hashFileSnapshot _ => Except Error ContentFingerprint
  | getInfo _ => Except Error (Option (List RemoteItemWire))
  | remoteContentMd5 _ => Except Error ContentFingerprint
  | remoteContentFingerprint _ _ => Except Error ContentFingerprint
  | sleep _ => Bool
  | confirmFileStationSession => Except Error Unit
  | admitLogin => Except String Unit
  | reauthenticate => Except Error (Option SessionData)

abbrev station : Interface := ⟨Call, Call.Reply, CallStarted⟩

/-- What an upload counts: its own sends, and what the client counts for every upload. -/
structure Counters where
  sent : Nat
  retries : Nat
  reauthentications : Nat
  reauthenticationFailures : Nat
  remoteMtimeUnhonoured : Nat
deriving DecidableEq, Repr

abbrev Upload (α : Type) : Type := Prog station Counters Error α

open Prog

def request (call : Call) : Upload call.Reply := ask (I := station) call

def saturatingIncrement (n : Nat) : Nat := min (n + 1) Session.u32Max

/-- `CancellationToken::check`. -/
def check : Upload Unit := do
  if ← request .isCancelled then fail .cancelled

def countRetry : Upload Unit := modify fun c => { c with retries := c.retries + 1 }

/-! ## Requests -/

def maxSessionHeaderBytes : Nat := 4 * 1024

def invalidSessionHeader (component : String) : Error :=
  .invalidResponse "SYNO.API.Auth.login" ("successful response contained " ++ component ++
    " data that cannot be used safely for authenticated DSM requests")

def isCookieByte (b : UInt8) : Bool :=
  b == 0x21 || (0x23 ≤ b && b ≤ 0x2B) || (0x2D ≤ b && b ≤ 0x3A) || (0x3C ≤ b && b ≤ 0x5B) ||
    (0x5D ≤ b && b ≤ 0x7E)

/-- The bytes an HTTP header value can hold. -/
def isHeaderByte (b : UInt8) : Bool := b == 9 || (32 ≤ b && b != 127)

def bytesOf (text : String) : List UInt8 := text.toUTF8.toList

def SessionData.requestHeaders (session : SessionData) : Except Error Unit :=
  let sid := bytesOf session.sid
  if maxSessionHeaderBytes < sid.length || sid.isEmpty || !sid.all isCookieByte then
    .error (invalidSessionHeader "SID")
  else
    match session.synoToken with
    | none => .ok ()
    | some token =>
      let token := bytesOf token
      if token.isEmpty || maxSessionHeaderBytes < token.length || !token.all isHeaderByte then
        .error (invalidSessionHeader "SynoToken")
      else .ok ()

section Client

variable (client : Client)

def Client.requiredSpec (api : String) : Except Error ApiSpec :=
  match client.apis api with
  | some spec => .ok spec
  | none => .error (.missingApi api)

def Client.validateApi (api : String) (version : Nat) : Except Error Unit :=
  match client.requiredSpec api with
  | .error e => .error e
  | .ok spec =>
    if version < spec.minVersion ∨ spec.maxVersion < version then
      .error (.unsupportedApiVersion api version spec.minVersion spec.maxVersion)
    else .ok ()

def Client.requireContentApi : Except Error Unit := client.validateApi "SYNO.FileStation.MD5" 2

def unsafeSegment (segment : List Char) : Bool :=
  segment.isEmpty || segment == ['.'] || segment == ['.', '.']

def discoveryError (what path : String) : Error :=
  .invalidResponse "API endpoint discovery" ("server returned " ++ what ++ " CGI path " ++ path.quote)

def Client.endpointUrl (discoveredPath : String) : Except Error String :=
  let text := discoveredPath.toList
  if text.head? = some '/' || text.any ['\\', '?', '#'].contains ||
      (text.splitOn '/').any unsafeSegment then
    .error (discoveryError "unsafe" discoveredPath)
  else
    match client.joinUrl discoveredPath with
    | .error text => .error (.other ("invalid reverse-proxy URL: " ++ text))
    | .ok endpoint =>
      if client.staysBelow endpoint then .ok endpoint
      else .error (discoveryError "escaping" discoveredPath)

def Client.apiUrl (api : String) : Except Error String :=
  match client.requiredSpec api with
  | .error e => .error e
  | .ok spec => client.endpointUrl spec.path

def requiredSession : Upload SessionData := do
  match ← request .currentSession with
  | some session => pure session
  | none => fail (.message "not authenticated to File Station")

/-- The headers of the session that is current when they are made. -/
def sessionHeaders : Upload Unit := do
  match ← request .currentSession with
  | some session => lift session.requestHeaders
  | none => pure ()

/-! ## What the destination holds -/

structure RemoteFileFacts where
  size : Nat
  mtimeSeconds : Option Int
deriving DecidableEq, Repr

def getInfoOperation : String := "SYNO.FileStation.List.getinfo"

/-- One self-checking `getinfo`. -/
def checkedItem (path : RelPath) (reply : Except Error (Option (List RemoteItemWire))) :
    Except Error RemoteItem :=
  match reply with
  | .error e => .error e
  | .ok none =>
    .error (.invalidResponse getInfoOperation
      "successful response contained no path information")
  | .ok (some [item]) =>
    if item.path ≠ '/' :: path.render then
      .error (.invalidResponse getInfoOperation ("server returned path " ++ quoteText item.path ++
        " while inspecting " ++ quoteAbsolute path))
    else (item.intoItem client.describe "SYNO.FileStation.List" "getinfo").mapError ofApiError
  | .ok (some files) =>
    .error (.invalidResponse getInfoOperation ("expected exactly one result for " ++
      quoteAbsolute path ++ ", received " ++ toString files.length))

/-- What one `getinfo` says of a remote file: `none` where there is no file, and for a folder. -/
def fileFacts (path : RelPath) (reply : Except Error (Option (List RemoteItemWire))) :
    Except Error (Option RemoteFileFacts) :=
  match checkedItem client path reply with
  | .error e => if e.apiCode = some 408 then .ok none else .error e
  | .ok item =>
    if item.isdir then .ok none
    else
      let additional := item.additional.getD ⟨none, none, none, none⟩
      match additional.size with
      | none => .error (.invalidResponse getInfoOperation
          "file information contained no byte size")
      | some size => .ok (some ⟨size, additional.mtime⟩)

def remoteFileFacts (path : RelPath) : Upload (Option RemoteFileFacts) := do
  lift (fileFacts client path (← request (.getInfo path)))

/-- Whether the destination holds content of this fingerprint: DSM's MD5, or where DSM offers none
the bytes read back. -/
def uploadedDigestMatches (path : RelPath) (size : Nat) (expected : ContentFingerprint) :
    Upload Bool := do
  check
  if !client.requireContentApi.isOk then
    if !expected.hasFullProof then pure false
    else do
      let actual ← lift (← request (.remoteContentFingerprint path size))
      pure (contentEvidenceMatches expected actual)
  else do
    let actual ← lift (← request (.remoteContentMd5 path))
    pure (expected.md5 == actual.md5)

end Client

section Job

variable (client : Client) (job : Job)

def Job.entry : LocalEntry := job.source.entry

def verifyLocalSnapshot : Upload Unit := do
  lift (job.source.verifyLocalSnapshot (← request (.symlinkMetadata job.source.fullPath)))

def noteUploadedMtime (reported : Option Int) : Upload Unit :=
  match reported with
  | some reported =>
    if mtimesAgree job.entry.mtimeMs reported then pure ()
    else modify fun c => { c with remoteMtimeUnhonoured := c.remoteMtimeUnhonoured + 1 }
  | none => pure ()

/-- A DSM that reports no modification time cannot refute the one sent. -/
def sentTimeKept (facts : RemoteFileFacts) : Bool :=
  facts.mtimeSeconds.all fun reported => mtimesAgree job.entry.mtimeMs reported

/-- The bytes that went out are the planned ones: by the reader's fingerprint of them, or where
there is none by the file on disk. -/
def verifyBytesSent (streamed : Option StreamedBody) : Upload Unit :=
  match job.entry.contentMd5, streamed with
  | some _, some _ =>
    if streamedAsPlanned client.fingerprint job.source streamed then pure ()
    else fail (.sourceChanged job.source.fullPath)
  | some expected, none => do
    let actual ← lift (← request (.hashFileSnapshot job.source.fullPath))
    if contentEvidenceMatches expected actual then pure ()
    else fail (.sourceChanged job.source.fullPath)
  | none, _ => pure ()

def contentVerificationFailed : Error := .contentVerificationFailed (absolute job.remoteFile)

/-- The destination holds the planned length and, where there is a digest, the planned content. -/
def verifyDestination : Upload Unit := do
  match ← remoteFileFacts client job.remoteFile with
  | none => fail (contentVerificationFailed job)
  | some facts =>
    if facts.size ≠ job.entry.size then fail (contentVerificationFailed job)
    else do
      noteUploadedMtime job facts.mtimeSeconds
      match job.entry.contentMd5 with
      | none => pure ()
      | some expected =>
        if ← uploadedDigestMatches client job.remoteFile job.entry.size expected then pure ()
        else fail (contentVerificationFailed job)

/-- The post-condition of an upload. -/
def verifyUploadLanded (streamed : Option StreamedBody) : Upload Unit := do
  check
  verifyBytesSent client job streamed
  verifyDestination client job

/-- Whether an attempt that failed in transport landed anyway, with the bytes and the time sent. -/
def earlierAttemptLanded (expected : ContentFingerprint) : Upload Bool := do
  check
  match ← remoteFileFacts client job.remoteFile with
  | none => pure false
  | some facts =>
    if facts.size ≠ job.entry.size || !sentTimeKept job facts then pure false
    else if ← uploadedDigestMatches client job.remoteFile job.entry.size expected then do
      noteUploadedMtime job facts.mtimeSeconds
      pure true
    else pure false

/-- What the probe after the last failed attempt found: the upload's answer, or a file with this
one's size and time and not its content. -/
inductive LastAttempt where
  | settled (result : Except Error Unit)
  | torn (error : Error)

def lastAttemptFailedInTransport (error : Error) : Upload LastAttempt := do
  match job.entry.contentMd5 with
  | none => pure (.settled (.error error))
  | some expected =>
    if ← request .isCancelled then pure (.settled (.error error))
    else
      match ← attempt (remoteFileFacts client job.remoteFile) with
      | .error probe =>
        if probe.retryable then pure (.settled (.error error))
        else pure (.settled (.error (.message (error.display ++
          "; checking what the failed upload left at " ++ quoteAbsolute job.remoteFile ++
          " also failed: " ++ probe.display))))
      | .ok none => pure (.settled (.error error))
      | .ok (some facts) =>
        if facts.size ≠ job.entry.size || !sentTimeKept job facts then
          pure (.settled (.error error))
        else
          match ← attempt (uploadedDigestMatches client job.remoteFile job.entry.size
              expected) with
          | .ok true => do
            noteUploadedMtime job facts.mtimeSeconds
            pure (.settled (.ok ()))
          | .ok false => pure (.torn error)
          | .error probe => pure (.settled (.error (.message (error.display ++
              "; the NAS copy of " ++ quoteAbsolute job.remoteFile ++ " now has this file's size " ++
              "and modification time, and its content could not be checked (" ++ probe.display ++
              "); run once with --compare content to make sure it is whole"))))

end Job
end Transfer
end DriveSync
