import DriveSync.Local
import DriveSync.Session.Ledger
import DriveSync.Transfer.Errors

/-!
# DriveSync.Transfer.Body

One attempt to send a file, from the reader's side: the reader fingerprints what it hands to the
transport and refuses to end a body whose source is no longer the planned one, and what the attempt
came to (`Transmission.outcome`) is read from the answer and from what the reader noticed.

The reader runs on a thread of its own, which an attempt waits for and, after a while, lets go. What
it reads after that is in the transmission too, as is what a reader let go by an earlier attempt
left behind.
-/

namespace DriveSync
namespace Transfer

/-! ## The source on disk -/

/-- What a stat of the source answers. -/
structure Metadata where
  isSymlink : Bool
  isFile : Bool
  len : Nat
  modified : Except String (Option Int)

/-- A file to send: the planned entry, and where it lies. -/
structure Source where
  entry : LocalEntry
  fullPath : String

namespace Source

variable (source : Source)

def verifyMetadata (isOther : Metadata → Bool) (reply : Except String Metadata) :
    Except Error Unit :=
  match reply with
  | .error text => .error (.fileIo source.fullPath text)
  | .ok metadata =>
    match metadata.modified with
    | .error text => .error (.fileIo source.fullPath text)
    | .ok millis =>
      if isOther metadata || metadata.len != source.entry.size ||
          millis != some source.entry.mtimeMs then
        .error (.sourceChanged source.fullPath)
      else .ok ()

/-- `verify_local_snapshot`, of what `symlink_metadata` answers. -/
def verifyLocalSnapshot (reply : Except String Metadata) : Except Error Unit :=
  source.verifyMetadata (fun metadata => metadata.isSymlink || !metadata.isFile) reply

/-- `verify_open_file_snapshot`, of what the open file's own metadata is. -/
def verifyOpenFileSnapshot (reply : Except String Metadata) : Except Error Unit :=
  source.verifyMetadata (fun metadata => !metadata.isFile) reply

end Source

def contentEvidenceMatches (expected actual : ContentFingerprint) : Bool :=
  expected.fullMatch actual == some true

/-! ## The reader -/

def u64Max : Nat := 18446744073709551615

/-- What the reader handed to the transport. -/
structure StreamedBody where
  content : List UInt8
  bytes : Nat
deriving DecidableEq, Repr

namespace StreamedBody

def new : StreamedBody := ⟨[], 0⟩

def update (body : StreamedBody) (chunk : List UInt8) : StreamedBody :=
  ⟨body.content ++ chunk, min (body.bytes + chunk.length) u64Max⟩

end StreamedBody

/-- One read of the body, by what it meets: the run's cancellation, before the read and while it
waits for the rate limit, the bytes, the stat of the source at their end, whether its attempt has
ended, and whether the observer lets it go on. -/
structure Read where
  cancelled : Bool
  claimCancelled : Bool
  bytes : Except String (List UInt8)
  snapshot : Except String Metadata
  retired : Bool
  observerAccepts : Bool

/-- What a reader has noticed. -/
structure Reader where
  streamed : Option StreamedBody
  cancelled : Bool
  changed : Bool
deriving DecidableEq, Repr

/-- How one read ended. -/
inductive ReadResult where
  | count (n : Nat)
  | failed
deriving DecidableEq, Repr

section Reading

variable (fingerprint : List UInt8 → ContentFingerprint) (source : Source)
  (throttled observed : Bool)

/-- Whether what was streamed is the planned content, where there is a fingerprint to say so. -/
def streamedAsPlanned (streamed : Option StreamedBody) : Bool :=
  match source.entry.contentMd5, streamed with
  | some expected, some body =>
    body.bytes == source.entry.size && contentEvidenceMatches expected (fingerprint body.content)
  | _, _ => true

/-- `SourceGuard::intact`. -/
def intact (streamed : Option StreamedBody) (snapshot : Except String Metadata) : Bool :=
  streamedAsPlanned fingerprint source streamed && (source.verifyLocalSnapshot snapshot).isOk

namespace Reader

def new : Reader := ⟨source.entry.contentMd5.map fun _ => .new, false, false⟩

/-- `ObservedReader::read`. -/
def read (reader : Reader) (met : Read) : Reader × ReadResult :=
  if met.cancelled || throttled && met.claimCancelled then
    ({ reader with cancelled := true }, .failed)
  else
    match met.bytes with
    | .error _ => (reader, .failed)
    | .ok chunk =>
      let streamed := if chunk.isEmpty then reader.streamed else reader.streamed.map (·.update chunk)
      let reader := { reader with streamed := streamed }
      -- a file that grew is refused as soon as it passes its planned length
      if !chunk.isEmpty && streamed.any (fun body => decide (source.entry.size < body.bytes)) then
        ({ reader with changed := true }, .failed)
      else if chunk.isEmpty && !intact fingerprint source streamed met.snapshot then
        ({ reader with changed := true }, .failed)
      else if met.retired then (reader, .failed)
      else if !chunk.isEmpty && observed && !met.observerAccepts then
        ({ reader with cancelled := true }, .failed)
      else (reader, .count chunk.length)

/-- `pump_upload_body`: the reads of one body, up to its end or the first that fails. -/
def pump (reader : Reader) : List Read → Reader
  | [] => reader
  | met :: rest =>
    match reader.read fingerprint source throttled observed met with
    | (reader, .failed) => reader
    | (reader, .count 0) => reader
    | (reader, .count _) => reader.pump rest

end Reader
end Reading

/-! ## The answer -/

/-- DSM's error member: its code, and the inner codes of its errors. -/
structure ErrorWire where
  code : Int
  codes : List Int
deriving DecidableEq, Repr

structure Envelope where
  success : Bool
  error : Option ErrorWire
deriving DecidableEq, Repr

/-- A response read in full: its body is an envelope, or why it is none. -/
structure CollectedResponse where
  status : StatusCode
  envelope : Except String Envelope

def staticStatusHint (code : Nat) : Option String :=
  if [301, 302, 303, 307, 308].contains code then
    some ("redirects are disabled to prevent credentials crossing origins; expose /webapi/* " ++
      "directly at the configured HTTPS URL")
  else if code = 413 then
    some ("request body is larger than the reverse proxy permits; raise its upload/body-size " ++
      "limit")
  else if code = 502 then some "reverse proxy could not reach the File Station backend"
  else if code = 504 then
    some "reverse proxy timed out; raise its send/read timeout for large uploads"
  else none

def withheldResponseMessage : String := "authenticated API response body withheld"

def uploadApi : String := "SYNO.FileStation.Upload"

/-- `decode_collected_response` of an upload's answer. -/
def decodeCollectedResponse (describe : Descriptions) (response : CollectedResponse) :
    Except Error Unit :=
  if ¬(200 ≤ response.status.code ∧ response.status.code ≤ 299) then
    .error (.httpStatus (uploadApi ++ ".upload") response.status
      ((staticStatusHint response.status.code).getD withheldResponseMessage))
  else
    match response.envelope with
    | .error detail => .error (.invalidResponse (uploadApi ++ ".upload")
        ("expected a DSM JSON envelope: " ++ detail))
    | .ok envelope =>
      if envelope.success then .ok ()
      else
        let error := envelope.error.getD ⟨100, []⟩
        .error (.api uploadApi "upload" error.code
          (((describe uploadApi error.code).map (": " ++ ·)).getD "") error.codes)

/-! ## One attempt -/

/-- What one attempt meets: the reads before its answer is looked at, those of a reader it let go,
what readers let go before it have noticed, and the answer. -/
structure Transmission where
  reads : List Read
  late : List Read
  strayCancelled : Bool
  strayChanged : Bool
  response : Except Error CollectedResponse

def prioritizeObserverCancellation (cancelled : Bool) (result : Except Error Unit) :
    Except Error Unit :=
  if cancelled then .error .cancelled else result

/-- A body the reader refused to end was committed by nobody: the change is what happened. -/
def prioritizeSourceChange (changed : Bool) (fullPath : String) (result : Except Error Unit) :
    Except Error Unit :=
  match result with
  | .ok () => .ok ()
  | .error e => if changed then .error (.sourceChanged fullPath) else .error e

namespace Transmission

variable (describe : Descriptions) (fingerprint : List UInt8 → ContentFingerprint)
  (source : Source) (throttled observed : Bool) (transmission : Transmission)

/-- The reader when the answer is looked at. -/
def reader : Reader :=
  (Reader.new source).pump fingerprint source throttled observed transmission.reads

/-- What was streamed when it is compared with what was planned. -/
def streamed : Option StreamedBody :=
  ((Reader.new source).pump fingerprint source throttled observed
    (transmission.reads ++ transmission.late)).streamed

/-- DSM's answer, before what the reader noticed is looked at. -/
def answer : Except Error Unit :=
  match transmission.response with
  | .error e => .error e
  | .ok response => decodeCollectedResponse describe response

/-- What the attempt came to. -/
def outcome : Except Error Unit :=
  let reader := transmission.reader fingerprint source throttled observed
  prioritizeSourceChange (reader.changed || transmission.strayChanged) source.fullPath
    (prioritizeObserverCancellation (reader.cancelled || transmission.strayCancelled)
      (transmission.answer describe))

end Transmission

/-! ## The bounds of an attempt -/

/-- Durations are in nanoseconds. -/
def seconds (n : Nat) : Nat := n * Session.nanosPerSecond

def uploadMinimumRate : Nat := 16 * 1024

structure UploadBounds where
  stall : Nat
  ceiling : Nat
  response : Nat
deriving DecidableEq, Repr

def UploadBounds.forUpload (timeout size : Nat) : UploadBounds :=
  ⟨min timeout (seconds 300), max timeout (seconds ((size + uploadMinimumRate - 1) /
    uploadMinimumRate)), timeout⟩

/-- The least time an upload can take under the rate cap: one bucket is available at once. -/
def minimumUploadDuration (maxUploadRate : Option Nat) (size : Nat) : Option Nat :=
  maxUploadRate.map fun rate => seconds ((size - max rate 1) / max rate 1)

end Transfer
end DriveSync
