import DriveSync.Scan.Scanned
import DriveSync.Walk.Walk
import DriveSync.Run.Digest
import DriveSync.Sync.Breaker

/-!
# DriveSync.Run.Prepare

How a run comes to the plan it carries out: both sides are walked, what must not be planned is
withheld, digests are taken, the plan is built, and what cannot be done safely is taken out of it
again. Each path left out is named.

* `Site`: what the file system, DSM and the operator answer.
* `planRun`: from the two walks to the plan.
* `propose`, `prepare`: the whole of it, and the same with a guard that has to approve the plan.
-/

namespace DriveSync

open Path

/-! ## Deferrals as a plan names them -/

namespace DeferReason

def isLasting : DeferReason → Bool
  | unrepresentableName | unsupportedLocalEntry | listingIncomplete | remoteUnreadable
  | localPermissionDenied | deleteNotPermitted | remoteRefused | remoteSkipped | unsupportedEntry
  | caseRenamePending => true
  | _ => false

def all : List DeferReason :=
  [sourceChanged, sourceVanished, sourceUnreadable, unsupportedLocalEntry, remoteDigestUnavailable,
    remoteUnreadable, remoteChanged, unrepresentableName, listingIncomplete, serverCopyFailed,
    deleteFailed, remoteRefused, localPermissionDenied, caseRenamePending, remoteSkipped,
    unsupportedEntry, deleteNotPermitted]

/-- What stands before the cause in the detail of a skip. -/
def tag (reason : DeferReason) : List Char := reason.asStr.toList ++ [':']

end DeferReason

/-- A skip as the deferral its detail is tagged with. -/
def deferralOfSkip (skip : SkippedEntry) : Option DeferredPath :=
  match skip.reason with
  | .deferred detail =>
    (DeferReason.all.find? fun reason => reason.tag.isPrefixOf detail.toList).map fun reason =>
      ⟨skip.relative, reason,
        String.ofList ((detail.toList.drop reason.tag.length).dropWhile isWhitespace)⟩
  | _ => none

/-- A skip the next run is expected to pick up. -/
def skipIsTransientDeferral (skip : SkippedEntry) : Bool :=
  match skip.reason with
  | .deferred detail => !DeferReason.all.any fun reason =>
    reason.isLasting && reason.tag.isPrefixOf detail.toList
  | _ => false

/-- Every deferral the plan's skips name that is not among those recorded. -/
def deferralsInPlanSkips (plan : SyncPlan) (deferred : List DeferredPath) : List DeferredPath :=
  (plan.skipped.filter fun skip =>
    !deferred.any fun record => decide (record.relative = skip.relative)).filterMap deferralOfSkip

/-- A deferral as a skip, unless its path is named already. -/
def recordDeferral (s : Std.TreeSet RelPath × List SkippedEntry) (record : DeferredPath) :
    Std.TreeSet RelPath × List SkippedEntry :=
  if s.1.contains record.relative then s
  else (s.1.insert record.relative, s.2 ++
    [⟨record.relative, .deferred (record.reason.asStr ++ ": " ++ record.detail)⟩])

/-- Name every deferral among the plan's skips. -/
def recordDeferralsInPlan (plan : SyncPlan) (deferred : List DeferredPath) : SyncPlan :=
  let named := Std.TreeSet.ofList (plan.skipped.map (·.relative)) compare
  let added := (deferred.foldl recordDeferral (named, [])).2
  if added.isEmpty then plan
  else { plan with skipped := Scan.sortSkipped (plan.skipped ++ added) }

/-! ## What is asked while a run is prepared -/

inductive Checkpoint where
  | started
  | localScanned
  | connected
  | remoteScanned
  | planned
  | guarded
deriving DecidableEq, Repr

/-- What the file system, DSM and the operator answer. -/
structure Site where
  source : Scan.SourceRoot
  tree : Scan.SourceTree
  /-- Whether DSM offers server-side copies, once the session stands and the destination can be
  written. -/
  connect : Except ApiError Bool
  station : FileStation
  /-- How many folders the remote walk may list. -/
  fuel : Nat
  /-- The names in a folder, and whether DSM listed all it counted. -/
  listChildNames : RelPath → Except ApiError (List Name × Bool)
  digests : DigestSource
  remoteEntryExists : List Char → Except ApiError Bool
  /-- A file read once more, for the digest its upload is verified by. -/
  hashFileSnapshot : LocalEntry → Except ExecError FullFingerprint
  /-- A name as messages show it. -/
  escaped : List Char → Name
  /-- What the cancellation token and the event log have to say on the way. -/
  checkpoint : Checkpoint → Except RunError Unit

/-- What a run is asked to do. -/
structure RunSettings where
  root : RemoteRoot
  rules : IgnoreRules
  scope : Scope
  delete : Bool
  allowEmptySource : Bool
  maxDelete : Nat
  compare : CompareMode

def runPlanOptions (settings : RunSettings) (serverCopy : Bool) : PlanOptions :=
  ⟨settings.delete, settings.allowEmptySource, settings.maxDelete, settings.compare, serverCopy,
    settings.scope⟩

/-! ## Before planning -/

/-- Fail the run where the walk found links, or folders it may not list, almost everywhere. -/
def checkLinkBoundaries (walk : Walk) : Except RunError Unit :=
  let entries := walk.entries.values
  let folders := entries.countP fun entry => decide (entry.kind = .directory)
  let marked := fun (mountType : String) (kind : EntryKind) => (entries.filter fun entry =>
    decide (entry.mountPointType = some mountType ∧ entry.kind = kind)).map (·.relative)
  let unlistable := marked unlistableEntryMountType .directory
  let unusable := fun (kind : String) (linked checked : Nat) (sample : List RelPath) =>
    if 3 ≤ linked ∧ checked < linked * 2 then
      .error (.remoteRealPathUnusable kind linked checked (sample.take refusalSample)
        (linked - (sample.take refusalSample).length))
    else .ok ()
  if 3 ≤ unlistable.length ∧ folders < unlistable.length * 2 then
    .error (.foldersUnlistable unlistable.length folders (unlistable.take 10))
  else do
    unusable "folders" walk.linkChecks.foldersLinked walk.linkChecks.foldersChecked
      (marked linkedEntryMountType .directory)
    unusable "files" walk.linkChecks.filesLinked walk.linkChecks.filesChecked
      (marked linkedEntryMountType .file)

def requireScopePresent (scope : Scope) (L : LocalInventory) (R : RemoteInventory) :
    Except RunError Unit :=
  if scope.path = .root ∨ L.entries.contains scope.path = true ∨
      R.entries.contains scope.path = true then .ok ()
  else .error (.scopeNotFound scope.path)

def unprovedSpellingReason (parent : RelPath) (name : Name) : SkipReason :=
  .deferred (DeferReason.listingIncomplete.asStr ++ ": the NAS listing of " ++
    (if parent = .root then "." else spelled parent).quote ++
    " was incomplete, so a differently spelled " ++ (String.ofList name.1).quote ++
    " there cannot be ruled out; nothing was created")

section Prepare

variable [Unicode] (settings : RunSettings) (site : Site)

/-- Go down the scope's path to the first folder the NAS does not hold by this spelling. Where it
holds it by another, or cannot be proved not to, the folder is withheld. -/
def withholdSpellingConflict (R : RemoteInventory) (L : LocalInventory) :
    List RelPath → Except RunError LocalInventory
  | [] => .ok L
  | .root :: rest => withholdSpellingConflict R L rest
  | .child parent name :: rest =>
    if R.entries.contains (.child parent name) then withholdSpellingConflict R L rest
    else do
      let folder ← (settings.root.join parent).mapError fun e => .plan (.unsafeRemotePath e)
      let (names, complete) ← (site.listChildNames folder).mapError .remote
      match names.find? fun candidate =>
          decide (candidate ≠ name ∧ foldName candidate = foldName name) with
      | some other =>
        return L.withhold (.child parent name) (.remoteCaseCollision (.child parent other))
      | none =>
        if complete then return L
        else return L.withhold (.child parent name) (unprovedSpellingReason parent name)

def withholdScopeSpellingConflicts (R : RemoteInventory) (L : LocalInventory) :
    Except RunError LocalInventory :=
  if settings.scope.path = .root ∨ R.rootExists = false then .ok L
  else withholdSpellingConflict settings site R L settings.scope.path.prefixes

/-! ## After planning -/

/-- An upload with its full fingerprint, or why its file could not be read for it. -/
def promoteUpload (upload : UploadAction) : Except RunError (UploadAction × Option DeferredPath) :=
  if upload.entry.contentMd5.any (·.hasFullProof) then .ok (upload, none)
  else
    match site.hashFileSnapshot upload.entry with
    | .ok digest =>
      .ok ({ upload with entry := { upload.entry with contentMd5 := some digest.1 } }, none)
    | .error error =>
      match DeferReason.forLocalError error with
      | none => .error (.local error)
      | some reason => .ok (upload, some ⟨upload.entry.relative, reason, error.message⟩)

def promoteUploadFingerprintsDeferring (plan : SyncPlan) :
    Except RunError (SyncPlan × List DeferredPath) := do
  let promoted ← plan.uploads.mapM (promoteUpload site)
  let deferred := promoted.filterMap (·.2)
  let narrowed := removeDeferredFromPlan { plan with uploads := promoted.map (·.1) }
    (.fromRecords deferred)
  return (narrowed.1, deferred ++ narrowed.2)

/-- The entry the walk would not carry, as the run reports it. -/
def ListedSkip.reported (escaped : List Char → Name) (skip : ListedSkip) : SkippedRemoteEntry :=
  ⟨skip.parent, escaped skip.name, skip.reason, skip.excluded, skip.cause⟩

/-- A finished plan without what the walks or a comma make doubtful, with what was left out so far. -/
def withholdDoubtful (walk : Walk) (R : RemoteInventory) (plan : SyncPlan)
    (deferred : List DeferredPath) : Except RunError (SyncPlan × List DeferredPath) := do
  let short := withholdDeletionsInIncompleteListings plan walk.incompleteDirectories
  let held := protectSkippedRemoteEntries short.1 (walk.skipped.map (·.reported site.escaped))
  let apart ← (withholdCommaAmbiguousMutations site.remoteEntryExists held.1 R).mapError .remote
  let deferred := deferred ++ short.2 ++ held.2 ++ apart.2
  return (apart.1, deferred ++ deferralsInPlanSkips apart.1 deferred)

/-- The same without the uploads of files that cannot be read for their digests, and with all that
was left out among its skips. -/
def narrowPlan (walk : Walk) (R : RemoteInventory) (plan : SyncPlan)
    (deferred : List DeferredPath) : Except RunError (SyncPlan × List DeferredPath) := do
  let (plan, deferred) ← withholdDoubtful site walk R plan deferred
  let promoted ← promoteUploadFingerprintsDeferring site plan
  let deferred := deferred ++ promoted.2
  return (recordDeferralsInPlan promoted.1 deferred, deferred)

/-! ## The preparation -/

def vanishedDetail : String :=
  "the NAS folder was deleted while it was being listed; nothing in the folder above it was " ++
    "deleted on the strength of that listing"

def vanishedRemoteFolderDeferrals (vanished : List RelPath) : List DeferredPath :=
  vanished.map fun relative => ⟨relative, .remoteChanged, vanishedDetail⟩

/-- The plan a run carries out, with the paths left out of it. -/
structure Ready where
  plan : SyncPlan
  deferred : List DeferredPath
  incomplete : List RelPath
  serverCopy : Bool

/-- From the two walks to the plan. -/
def planRun (serverCopy : Bool) (L : LocalInventory) (walk : Walk) : Except RunError Ready := do
  checkLinkBoundaries walk
  site.checkpoint .remoteScanned
  let R : RemoteInventory := ⟨walk.rootExists, walk.entries⟩
  requireScopePresent settings.scope L R
  let L ← withholdScopeSpellingConflicts settings site R L
  let prepared ← populatePlanDigests site.digests settings.rules settings.compare serverCopy
    settings.delete walk.incompleteDirectories L R
  let plan ← (buildPlan settings.root prepared.L prepared.R settings.rules
    (runPlanOptions settings serverCopy)).mapError .plan
  let narrowed ← narrowPlan site walk prepared.R
    { plan with linkGuardUnchecked := walk.linkGuardUnchecked }
    (prepared.deferred ++ vanishedRemoteFolderDeferrals walk.vanishedDirectories)
  site.checkpoint .planned
  return ⟨narrowed.1, narrowed.2, walk.incompleteDirectories, serverCopy⟩

/-- The bound of a walk that has none. -/
def unbounded : Nat := 18446744073709551615

/-- Both sides are walked, and planned from. -/
def propose : Option (Except RunError Ready) :=
  match site.checkpoint .started with
  | .error error => some (.error error)
  | .ok () =>
    match Scan.scanScoped ⟨site.tree, settings.rules, settings.scope, false⟩ unbounded site.source with
    | none => none
    | some (.error error) => some (.error (.local error))
    | some (.ok scan) =>
      match site.checkpoint .localScanned, site.connect with
      | .error error, _ => some (.error error)
      | .ok (), .error error => some (.error (.remote error))
      | .ok (), .ok serverCopy =>
        match site.checkpoint .connected with
        | .error error => some (.error error)
        | .ok () =>
          match remoteInventoryScoped site.station settings.root settings.rules settings.scope
              unbounded site.fuel with
          | none => none
          | some (.error error) => some (.error (.remote error))
          | some (.ok walk) => some (planRun settings site serverCopy scan.inventory walk)

/-- The guard has the last word on a plan. -/
def approve (guard : SyncPlan → Except RunError Unit) (ready : Ready) : Except RunError Ready := do
  guard ready.plan
  site.checkpoint .guarded
  return ready

def prepare (guard : SyncPlan → Except RunError Unit) : Option (Except RunError Ready) :=
  (propose settings site).map fun proposed => proposed.bind (approve site guard)

end Prepare

end DriveSync
