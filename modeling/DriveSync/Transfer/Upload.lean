import DriveSync.Transfer.Client

/-!
# DriveSync.Transfer.Upload

The attempts of one upload (`uploadObservedInner`), and the upload (`uploadObserved`): what the rate
cap cannot carry in time is refused before the first byte, and what DSM refuses for its session is
sent again, from the start, under the next one.
-/

namespace DriveSync
namespace Transfer

open Prog

variable (client : Client) (job : Job)

/-! ## Attempts under one session -/

/-- How far the attempts have got: the index of this one and of the last, which a torn overwrite
raises once, with the error of the attempt that tore it. -/
structure Attempts where
  attempt : Nat
  lastAttempt : Nat
  tearFound : Option Error
  lastAttempt_le : lastAttempt ≤ Session.u32Max

namespace Attempts

/-- How many attempts may still follow this one. -/
def left (attempts : Attempts) : Nat :=
  attempts.lastAttempt - attempts.attempt + if attempts.tearFound.isNone then 1 else 0

/-- The next of the attempts there are. -/
def next (attempts : Attempts) : Attempts :=
  { attempts with attempt := saturatingIncrement attempts.attempt }

/-- One attempt more, to repair the tear. -/
def repair (attempts : Attempts) (error : Error) : Attempts :=
  ⟨saturatingIncrement attempts.attempt, saturatingIncrement attempts.lastAttempt, some error,
    Nat.min_le_right _ _⟩

theorem attempt_next {attempts : Attempts} (h : attempts.attempt < attempts.lastAttempt) :
    attempts.next.attempt = attempts.attempt + 1 := by
  have hle := attempts.lastAttempt_le
  simp only [next, saturatingIncrement]
  omega

theorem left_next {attempts : Attempts} (h : attempts.attempt < attempts.lastAttempt) :
    attempts.next.left < attempts.left := by
  have hnext := attempt_next h
  have hlast : attempts.next.lastAttempt = attempts.lastAttempt := rfl
  have htear : attempts.next.tearFound = attempts.tearFound := rfl
  rw [left, left, hnext, hlast, htear]
  omega

theorem left_repair {attempts : Attempts} {error : Error}
    (h : ¬attempts.attempt < attempts.lastAttempt) (htear : attempts.tearFound = none) :
    (attempts.repair error).left < attempts.left := by
  simp only [left, repair, saturatingIncrement, htear, Option.isNone_none, Option.isNone_some]
  simp only [Bool.false_eq_true, if_false, if_true]
  omega

end Attempts

abbrev NextAttempt (attempts : Attempts) : Type := Descent Attempts.left Unit attempts

def openSource : Upload Unit := do
  match ← request (.openFile job.source.fullPath) with
  | .error text => fail (.fileIo job.source.fullPath text)
  | .ok () => lift (job.source.verifyOpenFileSnapshot
      (← request (.openMetadata job.source.fullPath)))

def announceAttempt (number : Nat) : Upload Unit :=
  if job.observed then do
    if ← request (.observer (.attemptStarted number)) then pure () else fail .cancelled
  else pure ()

/-- Number this send after all the sends before it, across sessions. -/
def startAttempt : Upload Nat := do
  check
  let number := saturatingIncrement (← get).sent
  modify fun c => { c with sent := number }
  announceAttempt job number
  pure number

/-- The source as it was planned, and the form that sends it. -/
def prepareAttempt (parent : RelPath) (name : Name) (firstAttempt number : Nat)
    (attempts : Attempts) : Upload UploadRequest := do
  verifyLocalSnapshot job
  openSource job
  let session ← requiredSession
  let url ← lift (client.apiUrl uploadApi)
  tell (I := station) ⟨number, min (firstAttempt + attempts.lastAttempt + 1) Session.u32Max,
    job.entry.size, client.uploadTimeout / 1000000⟩
  sessionHeaders
  pure ⟨url, absolute parent, job.createParents, job.overwrite, job.entry.mtimeMs, session,
    String.ofList name.1, job.entry.size, .forUpload client.uploadTimeout job.entry.size⟩

def sendAttempt (parent : RelPath) (name : Name) (firstAttempt : Nat) (attempts : Attempts) :
    Upload Transmission := do
  let number ← startAttempt job
  let form ← prepareAttempt client job parent name firstAttempt number attempts
  request (.runUploadRequest form)

/-- What an attempt of this upload came to. -/
def outcomeOf (transmission : Transmission) : Except Error Unit :=
  transmission.outcome client.describe client.fingerprint job.source client.maxUploadRate.isSome
    job.observed

/-- What an attempt of this upload streamed. -/
def streamedOf (transmission : Transmission) : Option StreamedBody :=
  transmission.streamed client.fingerprint job.source client.maxUploadRate.isSome job.observed

/-- What follows an attempt that was accepted. -/
def acceptAttempt (transmission : Transmission) : Upload Unit := do
  verifyLocalSnapshot job
  verifyUploadLanded client job (streamedOf client job transmission)

/-- Whether the attempt that failed landed anyway, where there is a digest to tell by. -/
def probeEarlierAttempt : Upload Bool :=
  match job.entry.contentMd5 with
  | none => pure false
  | some expected => do
    let actualLocal ← lift (← request (.hashFileSnapshot job.source.fullPath))
    if contentEvidenceMatches expected actualLocal then do
      match ← attempt (earlierAttemptLanded client job expected) with
      | .ok landed => pure landed
      | .error probe => if probe.retryable then pure false else fail probe
    else fail (.sourceChanged job.source.fullPath)

def retryPause (attempt : Nat) : Upload Unit := do
  if ← request (.sleep (250 * (1 <<< min attempt 4))) then fail .cancelled else pure ()

/-- What comes before an attempt is sent again: true when the failed one landed anyway. -/
def landedBeforeRetry (attempt : Nat) : Upload Bool := do
  countRetry
  verifyLocalSnapshot job
  if ← probeEarlierAttempt client job then pure true
  else do
    retryPause attempt
    pure false

def tornError (attempts : Attempts) (error : Error) : Error :=
  match attempts.tearFound with
  | some _ => error.tornOverwriteError (absolute job.remoteFile)
  | none => error

/-- What the probe after the last attempt leads to: an answer, or one attempt more. -/
def afterLastAttempt (attempts : Attempts) (error : Error)
    (hlast : ¬attempts.attempt < attempts.lastAttempt) : Upload (NextAttempt attempts) := do
  match ← lastAttemptFailedInTransport client job error with
  | .settled (.ok ()) => pure (.inl ())
  | .settled (.error error) => fail (tornError job attempts error)
  | .torn error =>
    if htear : attempts.tearFound = none then do
      countRetry
      pure (.inr ⟨attempts.repair error, Attempts.left_repair hlast htear⟩)
    else fail (tornError job attempts error)

/-- What a failed attempt leads to. -/
def afterFailure (attempts : Attempts) (error : Error) : Upload (NextAttempt attempts) :=
  if attempts.tearFound.isSome && !error.retryable then fail (tornError job attempts error)
  else if hretry : attempts.attempt < attempts.lastAttempt ∧ error.retryable = true then do
    if ← landedBeforeRetry client job attempts.attempt then pure (.inl ())
    else pure (.inr ⟨attempts.next, Attempts.left_next hretry.1⟩)
  else if hlast : error.retryable = true then
    afterLastAttempt client job attempts error fun h => hretry ⟨h, hlast⟩
  else fail error

/-- One attempt, and whether another follows it. -/
def attemptOnce (parent : RelPath) (name : Name) (firstAttempt : Nat) (attempts : Attempts) :
    Upload (NextAttempt attempts) := do
  let transmission ← sendAttempt client job parent name firstAttempt attempts
  match outcomeOf client job transmission with
  | .ok () => do
    acceptAttempt client job transmission
    pure (.inl ())
  | .error error => afterFailure client job attempts error

/-- One upload's attempts under one session. -/
def uploadObservedInner : Upload Unit := do
  let (parent, name) ← lift ((parentAndName job.remoteFile).mapError fun e =>
    .unsafeRemotePath e.path e.reason)
  let firstAttempt := (← get).sent
  descend (attemptOnce client job parent name firstAttempt)
    ⟨0, client.retries, none, client.retries_le⟩

/-! ## The upload -/

inductive Recovery where
  | resend
  | notApplicable
  | loginFailed (error : Error)

def noSession : Error := .message "re-authentication completed without a session"

/-- 105 is also the answer for a path the account may not read: whether the session still answers a
request every account may make. -/
def sessionAlive (error : Error) : Upload Bool :=
  if error.apiCode = some 105 then do
    let confirmed ← request .confirmFileStationSession
    pure confirmed.isOk
  else pure false

/-- One login, if the ledger admits it. -/
def logInAgain (error : Error) : Upload Recovery := do
  match ← request .admitLogin with
  | .error reason => pure (.loginFailed (error.sessionErrorNaming reason))
  | .ok () =>
    match ← request .reauthenticate with
    | .ok (some _) => do
      modify fun c => { c with reauthentications := c.reauthentications + 1 }
      pure .resend
    | .ok none => do
      modify fun c => { c with reauthenticationFailures := c.reauthenticationFailures + 1 }
      pure (.loginFailed noSession)
    | .error loginError => do
      modify fun c => { c with reauthenticationFailures := c.reauthenticationFailures + 1 }
      pure (.loginFailed loginError)

/-- Replace a session DSM reported dead, and say whether the request should be sent again. -/
def recoverSession (sentSid : Option String) (error : Error) : Upload Recovery :=
  if !client.reauthenticates || !error.sessionCode then pure .notApplicable
  else do
    let current ← request .currentSession
    if current.map (·.sid) ≠ sentSid then pure .resend
    else if ← sessionAlive error then pure .notApplicable
    else logInAgain error

/-- Run the work, and once more after re-authenticating if DSM refused it for its session. -/
def withSessionRecovery (work : Upload Unit) : Upload Unit := do
  let sent ← request .currentSession
  match ← attempt work with
  | .ok () => pure ()
  | .error error =>
    match ← recoverSession client (sent.map (·.sid)) error with
    | .resend => work
    | .notApplicable => fail error
    | .loginFailed loginError => fail loginError

/-- Whether a refusal with 105 is that of a session which is gone. -/
def sessionGone (error : Error) : Upload Bool :=
  match error with
  | .api _ _ 105 _ _ => do
    let confirmed ← request .confirmFileStationSession
    pure !confirmed.isOk
  | _ => pure false

/-- A failure as the upload reports it: a refusal of this path, or named after the path. -/
def pathRefusal (error : Error) : Upload Error := do
  if ← sessionGone error then pure (error.namingRemotePath (absolute job.remoteFile))
  else pure (error.classifyPathRefusal client.describe (absolute job.remoteFile))

def neverFinishes (minimum : Nat) : Error :=
  let inSeconds (n : Nat) : String := toString (n / Session.nanosPerSecond)
  .configuration ("uploading " ++ (spelled job.entry.relative).quote ++ " (" ++
    toString job.entry.size ++ " bytes) takes at least " ++ inSeconds minimum ++
    " s at --max-rate " ++ toString (client.maxUploadRate.getD 0) ++ " bytes/s, longer than the " ++
    inSeconds (UploadBounds.forUpload client.uploadTimeout job.entry.size).ceiling ++
    " s one attempt may take (--timeout " ++ inSeconds client.uploadTimeout ++
    " s, or the time this size needs at " ++ toString uploadMinimumRate ++
    " bytes/s), so it could never finish; raise --timeout or --max-rate")

/-- The least time the rate cap allows, where it is more than one attempt may take. -/
def tooSlow : Option Nat :=
  (minimumUploadDuration client.maxUploadRate job.entry.size).filter fun minimum =>
    decide ((UploadBounds.forUpload client.uploadTimeout job.entry.size).ceiling < minimum)

def observeEnd (completed : Bool) : Upload Unit :=
  if job.observed then do
    let _ ← request (.observer (if completed then .completed else .failed))
    pure ()
  else pure ()

def uploadObservedWithPolicy : Upload Unit := do
  match tooSlow client job with
  | some minimum => fail (neverFinishes client job minimum)
  | none => do
    modify fun c => { c with sent := 0 }
    let result ← attempt (withSessionRecovery client (uploadObservedInner client job))
    observeEnd job result.isOk
    match result with
    | .ok () => pure ()
    | .error error => do fail (← pathRefusal client job error)

/-- An upload that replaces what is there, and makes the folders above it. -/
def uploadObserved (source : Source) (remoteFile : RelPath) (observed : Bool) : Upload Unit :=
  uploadObservedWithPolicy client ⟨source, remoteFile, observed, true, true⟩

end Transfer
end DriveSync
