import DriveSync.Sync.Workers
import DriveSync.Sync.Narrow

/-!
# DriveSync.Sync.Execute

Carrying a plan out: the phases of `execute`, in order.

* `preflight`, `preDeletePhase`: every source is opened, then what stands where the plan puts an
  entry of another kind is deleted.
* `createPhase`, `copyPhase`, `uploadPhase`: the planned writes, under the breaker.
* `postDeletePhase`: the mirror deletions, last, each behind its own checks.
* `followUpPhase`, `executeRenames`: the files whose deletion was kept because they are back, and the
  case-only renames.
-/

namespace DriveSync

open Path Prog

structure ExecuteOptions where
  jobs : Nat
  dryRun : Bool
deriving DecidableEq, Repr

/-- The relatives of kept deletions. -/
abbrev KeptSet : Type := Std.TreeMap RelPath Unit

/-- Whether a kept deletion lies beneath a path. -/
def keptDescendant (kept : KeptSet) (relative : RelPath) : Bool :=
  (kept.toList.find? fun entry => decide (relative.slash ≤ entry.1.render)).any
    fun entry => relative.slash.isPrefixOf entry.1.render

/-- A planned write, and whether the breaker still waits for it. -/
structure Slot (α : Type) where
  write : Write
  action : α
  isOpen : Bool

/-- The planned writes that are still open. -/
def openActions {α : Type} (slots : List (Slot α)) : List (Slot α) := slots.filter (·.isOpen)

section Run

variable [Unicode]

/-! ## Sources and type conflicts -/

def preflightOne (entry : LocalEntry) (relative : RelPath) : Exec Unit := do
  checkCancelled
  match ← request (.preflightUploadReadable entry) with
  | .ok () => pure ()
  | .error error => deferLocal relative error

def preflight (plan : SyncPlan) : Exec Unit := do
  plan.uploads.forM fun action => preflightOne action.entry action.entry.relative
  plan.copies.forM fun action => preflightOne action.entry action.toRelative

/-- Whether an entry is not what its deletion was planned on. -/
def preDeleteChanged (kept : KeptSet) (action : DeleteAction) (verdict : SnapshotVerdict) :
    Exec Bool :=
  if decide (verdict = .changed) || keptDescendant kept action.relative then return true
  else do
    match ← attempt (verifyLiveSnapshot (deleteSnapshotCheck action)) with
    | .ok () => return false
    | .error (.remoteSnapshotChanged _) => return true
    | .error error => fail error

def preDeleteOne (kept : KeptSet) (planned : DeleteAction × SnapshotVerdict) : Exec KeptSet := do
  let (action, verdict) := planned
  checkCancelled
  if ← preDeleteChanged kept action verdict then
    defer action.relative .remoteChanged (remoteChangedDetail action.remotePath)
    return kept.insert action.relative ()
  else
    lift (← request (.deleteNonRecursive action.remotePath))
    count fun completed => { completed with deleted := completed.deleted + 1 }
    report (.typeConflictDeleted action.remotePath)
    return kept

def preDeletePhase (plan : SyncPlan) : Exec Unit := do
  let deferrals := (← get).deferrals
  let preDeletes := plan.preDeletes.filter fun action =>
    (deferrals.covering action.relative).isNone
  let verdicts ← lift (← request
    (.verifyRemoteSnapshotBatch plan.scope plan.rules (preDeletes.map deleteSnapshotCheck)))
  let _ ← (preDeletes.zip verdicts.list).foldlM preDeleteOne ∅
  return ()

/-! ## The breaker's writes -/

def slotsOf {α : Type} (deferrals : DeferralIndex) (mk : Nat → Write) (relative : α → RelPath)
    (actions : List α) : List (Slot α) :=
  actions.zipIdx.map fun (action, index) =>
    ⟨mk index, action, (deferrals.covering (relative action)).isNone⟩

structure PlannedWrites where
  creates : List (Slot CreateAction)
  copies : List (Slot CopyAction)
  uploads : List (Slot UploadAction)

/-- The planned writes, open where no deferral covers them. -/
def slotsAt (deferrals : DeferralIndex) (plan : SyncPlan) : PlannedWrites where
  creates := slotsOf deferrals .create (·.relative) plan.creates
  copies := slotsOf deferrals .copy (·.toRelative) plan.copies
  uploads := slotsOf deferrals .upload (·.entry.relative) plan.uploads

/-- The open writes, in the order of the plan. -/
def PlannedWrites.opened (writes : PlannedWrites) : List Write :=
  (openActions writes.creates).map (·.write) ++
    ((openActions writes.copies).map (·.write) ++ (openActions writes.uploads).map (·.write))

/-- Every planned write that no deferral covers yet is opened in a new breaker. -/
def openWrites (plan : SyncPlan) : Exec PlannedWrites := do
  let writes := slotsAt (← get).deferrals plan
  modify fun run => { run with
    breaker := .new writes.opened.length plan.unchangedFiles
    opened := writes.opened
    settled := [] }
  return writes

/-- Settle, as excluded, every open write that a deferral now covers. -/
def excludeCovered {α : Type} (relative : α → RelPath) (slots : List (Slot α)) :
    Exec (List (Slot α)) := do
  let deferrals := (← get).deferrals
  let covered := fun slot : Slot α => slot.isOpen && (deferrals.covering (relative slot.action)).isSome
  (slots.filter covered).forM fun slot => settle slot.write .excluded
  return slots.map fun slot => if covered slot then { slot with isOpen := false } else slot

/-! ## Creates -/

def createOne (slot : Slot CreateAction) : Exec Unit := do
  let action := slot.action
  checkCancelled
  if !slot.isOpen then pure ()
  else if (← covering action.relative).isSome then
    settle slot.write .excluded
    checkBreaker
  else
    match ← request (.createFolder action.remotePath) with
    | .ok () =>
      settle slot.write .accepted
      count fun completed => { completed with created := completed.created + 1 }
      report (.directoryCreated action.remotePath)
    | .error (.remoteRefused operation path code description) =>
      let error := .remoteRefused operation path code description
      settle slot.write (.ofRefusal (refusalOf error) action.relative)
      defer action.relative .remoteRefused error.message
      checkBreaker
    | .error error => fail error

/-! ## Server-side copies -/

/-- A copy the server did not make, left out: settled, and deferred for what went wrong. -/
def excludeCopy (slot : Slot CopyAction) (leave : Exec Unit) : Exec Unit := do
  settle slot.write .excluded
  leave
  checkBreaker

/-- Why a copy the server would not make is not uploaded over what is at its destination. -/
def destinationTaken (action : CopyAction) (copyError : ExecError) : DeferReason × String :=
  match copyError with
  | .serverCopyFailed _ _ =>
    (.serverCopyFailed, copyError.message ++
      "; the destination now holds an entry, which the next run replaces with an upload")
  | _ => (.remoteChanged, remoteChangedDetail action.toRemotePath)

/-- The upload in a copy's place. The result says whether the destination now holds the content. -/
def copyFallback (slot : Slot CopyAction) (copyError : ExecError) : Exec Bool := do
  let action := slot.action
  if ← uploadPreconditionHolds action.toRemotePath none then
    match ← request (.upload action.entry action.toRemotePath) with
    | .error error =>
      settle slot.write (.ofRefusal (refusalOf error) action.toRelative)
      deferLocal action.toRelative error
      checkBreaker
      return false
    | .ok () =>
      settle slot.write .accepted
      count fun completed => { completed with
        uploaded := completed.uploaded + 1
        uploadedBytes := saturatingAdd completed.uploadedBytes action.expectedSize
        copyFallbacks := completed.copyFallbacks + 1 }
      report (.copyFallbackUploaded action.entry.relative action.expectedSize)
      return true
  else
    let (reason, detail) := destinationTaken action copyError
    excludeCopy slot (defer action.toRelative reason detail)
    return false

/-- The server's copy, and what follows from how it ended. -/
def copyVerified (slot : Slot CopyAction) : Exec Bool := do
  let action := slot.action
  match ← request (.copyFileVerified action) with
  | .ok () =>
    settle slot.write .accepted
    count fun completed => { completed with copied := completed.copied + 1 }
    report (.remoteContentCopied action.fromRemotePath action.toRemotePath action.expectedSize)
    match ← request (.preflightUploadSource action.entry) with
    | .ok () => return true
    | .error error =>
      deferLocal action.toRelative error
      return true
  | .error .serverCopyNotStarted => copyFallback slot .serverCopyNotStarted
  | .error (.serverCopyFailed destination detail) =>
    copyFallback slot (.serverCopyFailed destination detail)
  | .error error => fail error

/-- A copy left out before the server is asked for it. -/
def copyBlocked (slot : Slot CopyAction) (verdict : SnapshotVerdict) : Exec Bool := do
  let action := slot.action
  let leaveChanged := excludeCopy slot
    (defer action.toRelative .remoteChanged (remoteChangedDetail action.fromRemotePath))
  if verdict = .changed then
    leaveChanged
    return true
  else
    match ← request (.preflightUploadSource action.entry) with
    | .error error =>
      excludeCopy slot (deferLocal action.toRelative error)
      return true
    | .ok () =>
      match ← attempt (verifyLiveSnapshot (copySourceCheck action)) with
      | .ok () => return false
      | .error (.remoteSnapshotChanged _) =>
        leaveChanged
        return true
      | .error error => fail error

def copyOne (copied : List CopyAction) (planned : Slot CopyAction × SnapshotVerdict) :
    Exec (List CopyAction) := do
  let (slot, verdict) := planned
  checkCancelled
  if ← copyBlocked slot verdict then return copied
  else
    let made ← copyVerified slot
    return if made then copied ++ [slot.action] else copied

def verifyCopied (planned : SnapshotCheck × SnapshotVerdict) : Exec Unit := do
  let (check, verdict) := planned
  match verdict with
  | .changed => fail (.remoteSnapshotChanged check.remotePath)
  | .mtimeNotKept =>
    count fun completed => { completed with mtimeNotKept := completed.mtimeNotKept + 1 }
  | .matching => pure ()
  verifyLiveSnapshot check

def copyPhase (plan : SyncPlan) (slots : List (Slot CopyAction)) : Exec Unit := do
  let copies := openActions slots
  let verdicts ← lift (← request (.verifyRemoteSnapshotBatch plan.scope plan.rules
    (copies.map fun slot => copySourceCheck slot.action)))
  let copied ← (copies.zip verdicts.list).foldlM copyOne []
  let checks := copied.map destinationSnapshotCheck
  let verdicts ← lift (← request (.verifyRemoteSnapshotBatch plan.scope plan.rules checks))
  (checks.zip verdicts.list).forM verifyCopied

/-! ## The planned writes -/

def openedWrites (plan : SyncPlan) (jobs : Nat) (writes : PlannedWrites) : Exec Unit := do
  writes.creates.forM createOne
  let copies ← excludeCovered (·.toRelative) writes.copies
  let uploads ← excludeCovered (·.entry.relative) writes.uploads
  checkBreaker
  copyPhase plan copies
  let uploads ← excludeCovered (·.entry.relative) uploads
  checkBreaker
  uploadWorkers jobs ((openActions uploads).map fun slot => ⟨slot.write, slot.action⟩)
  checkBreaker

def plannedWrites (plan : SyncPlan) (jobs : Nat) : Exec Unit := do
  openedWrites plan jobs (← openWrites plan)

def writePhases (plan : SyncPlan) (jobs : Nat) : Exec Unit := do
  preflight plan
  preDeletePhase plan
  plannedWrites plan jobs
  checkCancelled

/-! ## Mirror deletions -/

/-- The checks of the uploads that landed: none where nothing is to be deleted. -/
def landedChecks (plan : SyncPlan) : Exec (List SnapshotCheck) := do
  let deferrals := (← get).deferrals
  let landed := plan.uploads.filter fun action =>
    (deferrals.covering action.entry.relative).isNone
  if plan.postDeletes.isEmpty then return []
  else
    landed.forM fun action => do
      checkCancelled
      match ← request (.preflightUploadReadable action.entry) with
      | .ok () => pure ()
      | .error error =>
        if (DeferReason.forLocalError error).isSome then pure () else fail error
    return landed.map uploadDestinationSnapshotCheck

/-- Which deletions a batch found changed: by their own verdict, or by their guard's. -/
def changedDeletes : List DeleteAction → List SnapshotVerdict → List SnapshotVerdict → List Bool
  | [], _, _ => []
  | action :: actions, verdicts, guards =>
    let own := decide (verdicts.head? = some .changed)
    match action.destinationGuard with
    | none => own :: changedDeletes actions verdicts.tail guards
    | some _ => (own || decide (guards.head? = some .changed)) ::
        changedDeletes actions verdicts.tail guards.tail

/-- The verdicts of the delete phase's batch: those of the deletions, of their guards, and of the
uploads that landed. -/
def judgeDeletes (plan : SyncPlan) : Exec (List (DeleteAction × Bool)) := do
  let uploadChecks ← landedChecks plan
  let guards := plan.postDeletes.filterMap (·.destinationGuard)
  let checks := plan.postDeletes.map deleteSnapshotCheck ++
    (guards.map guardSnapshotCheck ++ uploadChecks)
  let verdicts ← lift (← request (.verifyRemoteSnapshotBatch plan.scope plan.rules checks))
  let deleteCount := plan.postDeletes.length
  let ofGuards := (verdicts.list.drop deleteCount).take guards.length
  let ofUploads := verdicts.list.drop (deleteCount + guards.length)
  ofGuards.forM fun verdict =>
    if verdict = .mtimeNotKept then
      count fun completed => { completed with mtimeNotKept := completed.mtimeNotKept + 1 }
    else pure ()
  (uploadChecks.zip ofUploads).forM fun (check, verdict) =>
    if verdict = .changed then fail (.remoteSnapshotChanged check.remotePath) else pure ()
  uploadChecks.forM verifyLiveSnapshot
  return plan.postDeletes.zip (changedDeletes plan.postDeletes verdicts.list ofGuards)

/-- What becomes of a planned mirror deletion, before it is sent. -/
inductive DeleteRuling where
  | keptDescendant
  | related (other : RelPath) (reason : DeferReason)
  | present (spelling : RelPath)
  | deferred (reason : DeferReason) (detail : String)
  | proceed

/-- What `local_presence` says against a deletion. -/
def presenceRuling (action : DeleteAction) (presence : Except ExecError LocalPresence) :
    Option DeleteRuling :=
  match presence with
  | .ok .absent => none
  | .ok (.present spelling) => some (.present spelling)
  | .ok (.ambiguous path) => some (.deferred .sourceChanged
      (quoteRelative path ++ " is spelled more than one way locally, differing only by Unicode " ++
        "normalisation, so whether " ++ quoteRelative action.relative ++
        " is back cannot be told; the NAS copy is kept and nothing is uploaded"))
  | .ok .unrepresentable => some (.deferred .unrepresentableName
      (quoteRelative action.relative ++ " cannot be spelled on this host's filesystem"))
  | .error error => some (.deferred .sourceUnreadable error.message)

/-- A failure of the local file a deletion waits for, or of the run. -/
def localRuling (error : ExecError) : Exec (Option DeleteRuling) :=
  match DeferReason.forLocalError error with
  | some reason => return some (.deferred reason error.message)
  | none => fail error

/-- What stands against a deletion whose content is to be proven by a copy. -/
def guardRuling (guard : DestinationGuard) : Exec (Option DeleteRuling) := do
  match ← covering guard.entry.relative with
  | some reason =>
    return some (.deferred reason ("its content was to be proven by " ++
      quoteRelative guard.entry.relative ++ ", which was deferred"))
  | none =>
    match ← attempt (do
      lift (← request (.preflightUploadSource guard.entry))
      verifyLiveSnapshot (guardSnapshotCheck guard)) with
    | .ok () => return none
    | .error (.remoteSnapshotChanged path) =>
      return some (.deferred .remoteChanged (remoteChangedDetail path))
    | .error (.contentVerificationFailed path) =>
      return some (.deferred .remoteChanged (remoteChangedDetail path))
    | .error error => localRuling error

/-- Whether the entry still holds the content its deletion was authorised on. -/
def liveRuling (action : DeleteAction) : Exec DeleteRuling := do
  match ← attempt (verifyLiveSnapshot (deleteSnapshotCheck action)) with
  | .ok () => return .proceed
  | .error (.remoteSnapshotChanged path) =>
    return .deferred .remoteChanged (remoteChangedDetail path)
  | .error (.contentVerificationFailed path) =>
    return .deferred .remoteChanged (remoteChangedDetail path)
  | .error error => fail error

def guardAndLiveRuling (action : DeleteAction) : Exec DeleteRuling := do
  match action.destinationGuard with
  | none => liveRuling action
  | some guard =>
    match ← guardRuling guard with
    | some ruling => return ruling
    | none => liveRuling action

def deleteRuling (kept : KeptSet) (action : DeleteAction) (changed : Bool) :
    Exec DeleteRuling := do
  if keptDescendant kept action.relative then return .keptDescendant
  else
    match (← get).deferrals.spellingRelated action.relative with
    | some (other, reason) => return .related other reason
    | none =>
      match presenceRuling action (← request (.localPresence action.localRelative)) with
      | some ruling => return ruling
      | none =>
        if changed then
          return .deferred .remoteChanged (remoteChangedDetail action.remotePath)
        else guardAndLiveRuling action

/-- The deletions kept so far, and those of them kept because their local file is back, with the
spelling it was found at. -/
structure Kept where
  relatives : KeptSet
  reappeared : Std.TreeMap RelPath RelPath

def Kept.keep (kept : Kept) (relative : RelPath) : Kept :=
  { kept with relatives := kept.relatives.insert relative () }

def skipDelete (action : DeleteAction) (reason : DeleteKeptReason) : Exec Unit := do
  count fun completed => { completed with deletesSkipped := completed.deletesSkipped + 1 }
  report (.remoteExtraDeleteSkipped action.remotePath action.relative reason)

def postDelete (kept : Kept) (action : DeleteAction) : Exec Kept := do
  match ← request (.deleteNonRecursive action.remotePath) with
  | .ok () =>
    count fun completed => { completed with deleted := completed.deleted + 1 }
    report (.remoteExtraDeleted action.remotePath)
    return kept
  | .error error =>
    defer action.relative
      (if concernsRun error then .deleteFailed else deleteRefusalReason error) error.message
    if concernsRun error then fail error else return kept.keep action.relative

def postDeleteOne (kept : Kept) (planned : DeleteAction × Bool) : Exec Kept := do
  let (action, changed) := planned
  checkCancelled
  match ← deleteRuling kept.relatives action changed with
  | .keptDescendant =>
    skipDelete action .keptDescendant
    return kept.keep action.relative
  | .related other reason =>
    let record := withheldWith action.relative other reason
    defer record.relative record.reason record.detail
    return kept.keep action.relative
  | .present spelling =>
    skipDelete action .localPathExists
    return { kept.keep action.relative with
      reappeared := kept.reappeared.insert action.relative spelling }
  | .deferred reason detail =>
    defer action.relative reason detail
    return kept.keep action.relative
  | .proceed => postDelete kept action

def postDeletePhase (plan : SyncPlan) : Exec Kept := do
  let deletes ← judgeDeletes plan
  deletes.foldlM postDeleteOne ⟨∅, ∅⟩

/-! ## Kept deletions whose file is back, and renames -/

def keptUploadTarget (plan : SyncPlan) (relative : RelPath) : Option DeleteAction :=
  plan.postDeletes.find? fun action =>
    decide (action.relative = relative) && decide (action.kind = .file)

/-- Give an entry a full fingerprint, if it has none. -/
def promoteToFullFingerprint (entry : LocalEntry) : Exec LocalEntry := do
  if entry.contentMd5.any (·.hasFullProof) then return entry
  else
    let fingerprint ← lift (← request (.hashFileSnapshot entry))
    return { entry with contentMd5 := some fingerprint }

/-- A file that was back and is not any more, or is not payload. -/
def leaveVanished (plan : SyncPlan) (relative spelling : RelPath) : Exec Unit := do
  match ← request (.symlinkMetadata spelling) with
  | .error (.notFound, _) =>
    defer relative .sourceVanished
      (quoteRelative spelling ++ " was back when the deletion of " ++ quoteRelative relative ++
        " was checked and is gone again; the NAS copy is kept")
  | .error (kind, source) =>
    deferLocal relative (.fileIo (plan.sourceRoot ++ "/" ++ spelled spelling) kind source)
  | .ok () =>
    defer relative .unsupportedLocalEntry
      (quoteRelative spelling ++ " came back as an entry the sync does not carry (a link, a " ++
        "reparse point or a system file); the NAS copy of " ++ quoteRelative relative ++ " is kept")

/-- Upload a file over the entry whose deletion was kept for it. -/
def followUpUpload (relative : RelPath) (entry : LocalEntry) (target : DeleteAction) :
    Exec Unit := do
  match ← attempt (do
    let entry ← promoteToFullFingerprint entry
    lift (← request (.preflightUploadReadable entry))
    return entry) with
  | .error error => deferLocal relative error
  | .ok entry =>
    if ← uploadPreconditionHolds target.remotePath (some target.snapshot) then
      match ← request (.upload entry target.remotePath) with
      | .error error => deferLocal relative error
      | .ok () =>
        count fun completed => { completed with
          uploaded := completed.uploaded + 1
          keptDeletesUploaded := completed.keptDeletesUploaded + 1
          uploadedBytes := saturatingAdd completed.uploadedBytes entry.size }
        report (.keptDeleteUploaded relative entry.size)
    else defer relative .remoteChanged (remoteChangedDetail target.remotePath)

def followUpOne (plan : SyncPlan) (reappeared : RelPath × RelPath) : Exec Unit := do
  let (relative, spelling) := reappeared
  checkCancelled
  match ← request (.entryAt spelling) with
  | .error error => deferLocal relative error
  | .ok none => leaveVanished plan relative spelling
  | .ok (some entry) =>
    if entry.kind ≠ .file then pure ()
    else if plan.rules.isIgnored spelling false then
      defer relative .sourceChanged
        (quoteRelative spelling ++ " is excluded, so it is not uploaded in place of " ++
          quoteRelative relative ++ "; the NAS copy is kept")
    else
      match keptUploadTarget plan relative with
      | none => pure ()
      | some target => followUpUpload relative entry target

def followUpPhase (plan : SyncPlan) (kept : Kept) : Exec Unit :=
  kept.reappeared.toList.forM (followUpOne plan)

/-- Whether a failed rename says something of every rename after it. -/
def renameConcernsRun (error : ExecError) : Bool :=
  match error with
  | .contentVerificationFailed _ => false
  | error => concernsRun error

def renameOne (action : RenameAction) : Exec Unit := do
  checkCancelled
  match (← get).deferrals.spellingRelated action.relative with
  | some (other, _) =>
    defer action.relative .caseRenamePending
      (quoteAbsolute action.fromRemotePath ++ " was not renamed to " ++
        (String.ofList action.newName.1).quote ++ " because " ++ quoteRelative other ++
        " beneath it was left for the next run")
  | none =>
    match ← request (.rename action.fromRemotePath action.newName) with
    | .ok renamed =>
      count fun completed => { completed with renamed := completed.renamed + 1 }
      report (.renamed action.fromRemotePath renamed)
    | .error error =>
      if renameConcernsRun error then fail error
      else
        defer action.relative .caseRenamePending
          ("renaming " ++ quoteAbsolute action.fromRemotePath ++ " to " ++
            (String.ofList action.newName.1).quote ++ " failed: " ++ error.message)

def executeRenames (plan : SyncPlan) : Exec Unit := do
  if plan.renames.isEmpty then pure ()
  else
    let supported : Bool ← request .supportsRename
    if supported then plan.renames.forM renameOne
    else
      plan.renames.forM fun action =>
        defer action.relative .caseRenamePending
          ("this DSM does not offer SYNO.FileStation.Rename, so " ++
            quoteAbsolute action.fromRemotePath ++ " cannot be renamed to " ++
            (String.ofList action.newName.1).quote ++ "; rename it in File Station")

/-! ## The whole run -/

def deletePhases (plan : SyncPlan) : Exec Unit := do
  let kept ← postDeletePhase plan
  followUpPhase plan kept
  executeRenames plan

def execute (plan : SyncPlan) (options : ExecuteOptions) : Exec Unit := do
  if options.dryRun then pure ()
  else
    writePhases plan options.jobs
    deletePhases plan

/-- A run of a plan: how it ended, and the world it left. -/
def executed (env : Env runInterface) (plan : SyncPlan) (options : ExecuteOptions) :
    Except ExecError Unit × World runInterface Run :=
  execute plan options env ⟨[], .start⟩

end Run
end DriveSync
