import DriveSync.Lib.Prog
import DriveSync.Sync.Breaker

/-!
# DriveSync.Sync.Run

What a run is made of: the operations it calls, the events it reports, the report it adds up, and
the small steps every phase is written in (`defer`, `verifyLiveSnapshot`,
`uploadPreconditionHolds`, the cancellation and breaker checks).

The client, the file system, the cancellation signal and the thread scheduler are the environment:
each is called, and answers as it likes. A token once cancelled stays so (`isCancelled`).
-/

namespace DriveSync

open Prog

/-! ## What is verified -/

/-- What standard of proof a content comparison takes. -/
inductive ContentEvidence where
  | uploaded
  | serverProduced
deriving DecidableEq, Repr

structure SnapshotCheck where
  remotePath : RelPath
  expected : RemoteSnapshot
  deleting : Bool
  evidence : ContentEvidence
  localMtimeMs : Option Int
deriving DecidableEq, Repr

/-- How one entry of a batch compared with the destination read again for it. -/
inductive SnapshotVerdict where
  | matching
  | mtimeNotKept
  | changed
deriving DecidableEq, Repr

/-- The verdicts of a batch, one a check. -/
structure Verdicts (checks : List SnapshotCheck) where
  list : List SnapshotVerdict
  length_eq : list.length = checks.length

/-- Whether a remote-only path is present locally, at the spelling the plan paired it with. -/
inductive LocalPresence where
  | absent
  | present (spelling : RelPath)
  | ambiguous (path : RelPath)
  | unrepresentable
deriving DecidableEq, Repr

inductive RemotePathState where
  | absent
  | directory
  | file (size : Nat) (mtimeSeconds : Option Int)
deriving DecidableEq, Repr

def deleteSnapshotCheck (action : DeleteAction) : SnapshotCheck :=
  ⟨action.remotePath, action.snapshot, true, .serverProduced, none⟩

def copySourceCheck (action : CopyAction) : SnapshotCheck :=
  ⟨action.fromRemotePath, action.sourceSnapshot, false, .serverProduced, none⟩

def destinationSnapshotCheck (action : CopyAction) : SnapshotCheck :=
  ⟨action.toRemotePath,
    ⟨.file, action.expectedSize, action.entry.mtimeMs / 1000, some action.contentMd5, true⟩,
    false, .serverProduced, some action.entry.mtimeMs⟩

def guardSnapshotCheck (guard : DestinationGuard) : SnapshotCheck :=
  ⟨guard.remotePath,
    ⟨.file, guard.expectedSize, guard.expectedMtimeSeconds, some guard.contentMd5, true⟩,
    false, .serverProduced, some guard.entry.mtimeMs⟩

def uploadDestinationSnapshotCheck (action : UploadAction) : SnapshotCheck :=
  ⟨action.remotePath,
    ⟨.file, action.entry.size, action.entry.mtimeMs / 1000, action.entry.contentMd5, true⟩,
    false, .uploaded, some action.entry.mtimeMs⟩

/-! ## Calls and events -/

/-- The operations of the client, the file system, the cancellation token and the scheduler. -/
inductive Call where
  | preflightUploadReadable (entry : LocalEntry)
  | preflightUploadSource (entry : LocalEntry)
  | deleteNonRecursive (remotePath : RelPath)
  | createFolder (remotePath : RelPath)
  | supportsRename
  | rename (remotePath : RelPath) (newName : Name)
  | copyFileVerified (action : CopyAction)
  | verifyRemoteSnapshotBatch (scope : Scope) (rules : IgnoreRules) (checks : List SnapshotCheck)
  | verifyRemoteMetadataSnapshot (remotePath : RelPath) (expected : RemoteSnapshot)
  | verifyRemoteContent (remotePath : RelPath) (size : Nat) (md5 : ContentFingerprint)
  | verifyUploadedContent (remotePath : RelPath) (size : Nat) (md5 : ContentFingerprint)
  | remotePathState (remotePath : RelPath)
  | upload (entry : LocalEntry) (remotePath : RelPath)
  | localPresence (relative : RelPath)
  | entryAt (relative : RelPath)
  | symlinkMetadata (relative : RelPath)
  | hashFileSnapshot (entry : LocalEntry)
  | cancelRequested
  | schedule (parties : Nat)

def Call.Reply : Call → Type
  | preflightUploadReadable _ => Except ExecError Unit
  | preflightUploadSource _ => Except ExecError Unit
  | deleteNonRecursive _ => Except ExecError Unit
  | createFolder _ => Except ExecError Unit
  | supportsRename => Bool
  | rename _ _ => Except ExecError RelPath
  | copyFileVerified _ => Except ExecError Unit
  | verifyRemoteSnapshotBatch _ _ checks => Except ExecError (Verdicts checks)
  | verifyRemoteMetadataSnapshot _ _ => Except ExecError Unit
  | verifyRemoteContent _ _ _ => Except ExecError Unit
  | verifyUploadedContent _ _ _ => Except ExecError Unit
  | remotePathState _ => Except ExecError RemotePathState
  | upload _ _ => Except ExecError Unit
  | localPresence _ => Except ExecError LocalPresence
  | entryAt _ => Except ExecError (Option LocalEntry)
  | symlinkMetadata _ => Except (IoErrorKind × String) Unit
  | hashFileSnapshot _ => Except ExecError ContentFingerprint
  | cancelRequested => Bool
  | schedule _ => Nat

/-- Why a planned mirror deletion was kept instead of performed. -/
inductive DeleteKeptReason where
  | localPathExists
  | keptDescendant
deriving DecidableEq, Repr

inductive ExecutionEvent where
  | typeConflictDeleted (remotePath : RelPath)
  | directoryCreated (remotePath : RelPath)
  | remoteContentCopied (fromRemotePath toRemotePath : RelPath) (bytes : Nat)
  | copyFallbackUploaded (relative : RelPath) (bytes : Nat)
  | uploaded (relative : RelPath) (bytes : Nat)
  | remoteExtraDeleted (remotePath : RelPath)
  | remoteExtraDeleteSkipped (remotePath relative : RelPath) (reason : DeleteKeptReason)
  | keptDeleteUploaded (relative : RelPath) (bytes : Nat)
  | pathDeferred (relative : RelPath) (reason : DeferReason)
  | renamed (fromRemotePath toRemotePath : RelPath)
deriving DecidableEq, Repr

abbrev runInterface : Interface := ⟨Call, Call.Reply, ExecutionEvent⟩

/-! ## The state of a run -/

structure ExecutionReport where
  deleted : Nat
  created : Nat
  copied : Nat
  uploaded : Nat
  uploadedBytes : Nat
  deletesSkipped : Nat
  keptDeletesUploaded : Nat
  deferred : List DeferredPath
  mtimeNotKept : Nat
  copyFallbacks : Nat
  renamed : Nat
deriving DecidableEq, Repr

def ExecutionReport.empty : ExecutionReport := ⟨0, 0, 0, 0, 0, 0, 0, [], 0, 0, 0⟩

/-- A planned write, by its place in the plan. -/
inductive Write where
  | create (index : Nat)
  | copy (index : Nat)
  | upload (index : Nat)
deriving DecidableEq, Repr

section Run

variable [Unicode]

/-- `opened` and `settled` are the breaker's ledger: the writes it was opened with, and how each
settled. The code keeps neither; nothing here reads them. -/
structure Run where
  cancelled : Bool
  completed : ExecutionReport
  deferrals : DeferralIndex
  breaker : RefusalBreaker
  opened : List Write
  settled : List (Write × Settlement)

def Run.start : Run := ⟨false, .empty, .empty, .new 0 0, [], []⟩

abbrev Exec (α : Type) : Type := Prog runInterface Run ExecError α

def request (c : Call) : Exec c.Reply := ask (I := runInterface) c

def report (event : ExecutionEvent) : Exec Unit := tell (I := runInterface) event

def count (f : ExecutionReport → ExecutionReport) : Exec Unit :=
  modify fun run => { run with completed := f run.completed }

/-! ## Small steps -/

/-- Whether the token is cancelled: it was, or it has been since it was last looked at. -/
def isCancelled : Exec Bool := do
  let requested ← request .cancelRequested
  modify fun run => { run with cancelled := run.cancelled || requested }
  return (← get).cancelled

def checkCancelled : Exec Unit := do
  if ← isCancelled then fail .cancelled else pure ()

/-- Leave a path for the next run, once. -/
def defer (relative : RelPath) (reason : DeferReason) (detail : String) : Exec Unit := do
  if relative ∈ (← get).deferrals.exact then pure ()
  else
    modify fun run => { run with
      deferrals := run.deferrals.insert relative reason
      completed.deferred := run.completed.deferred ++ [⟨relative, reason, detail⟩] }
    report (.pathDeferred relative reason)

/-- Leave a path for a failure that concerns only it, or fail. -/
def deferLocal (relative : RelPath) (error : ExecError) : Exec Unit :=
  match DeferReason.forPathError error with
  | some reason => defer relative reason error.message
  | none => fail error

/-- The reason a path, or a directory above it, was deferred. -/
def covering (relative : RelPath) : Exec (Option DeferReason) := do
  return (← get).deferrals.covering relative

def verifyLiveSnapshot (check : SnapshotCheck) : Exec Unit := do
  let expected :=
    if check.localMtimeMs.isSome then { check.expected with requireMtime := false }
    else check.expected
  lift (← request (.verifyRemoteMetadataSnapshot check.remotePath expected))
  match check.expected.contentMd5, check.evidence with
  | none, _ => pure ()
  | some md5, .uploaded =>
    lift (← request (.verifyUploadedContent check.remotePath check.expected.size md5))
  | some md5, .serverProduced =>
    lift (← request (.verifyRemoteContent check.remotePath check.expected.size md5))

/-- Whether an upload's destination, as it is now, is what the plan expects there. -/
def destinationExpected (state : RemotePathState) (expected : Option RemoteSnapshot) : Bool :=
  match state, expected with
  | .absent, _ => true
  | .directory, _ => false
  | .file _ _, none => false
  | .file size mtimeSeconds, some expected =>
    decide (expected.kind = .file) && decide (size = expected.size) &&
      mtimeSeconds.all fun mtime => decide (mtime = expected.mtimeSeconds)

def uploadPreconditionHolds (remotePath : RelPath) (expected : Option RemoteSnapshot) :
    Exec Bool := do
  return destinationExpected (← lift (← request (.remotePathState remotePath))) expected

/-- Settle a planned write in the breaker. -/
def settle (write : Write) (settlement : Settlement) : Exec Unit :=
  modify fun run => { run with
    breaker := run.breaker.settle settlement
    settled := run.settled ++ [(write, settlement)] }

def checkBreaker : Exec Unit := do
  match (← get).breaker.check with
  | some error => fail error
  | none => pure ()

def remoteChangedDetail (remotePath : RelPath) : String :=
  absolute remotePath ++ " is no longer the entry the plan was derived from; it was left as found"

end Run
end DriveSync
