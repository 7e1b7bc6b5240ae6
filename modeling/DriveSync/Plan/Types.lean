import DriveSync.Local
import DriveSync.Remote

/-!
# DriveSync.Plan.Types

What a plan is asked for, what it is made of and what it fails with.
-/

namespace DriveSync

inductive CompareMode where
  | content
  | metadata
  | sizeOnly
  | force
deriving DecidableEq, Repr

/-- Whether a mode needs plan-time digests for the entries it may delete. -/
def CompareMode.requiresDeletionDigest : CompareMode → Bool
  | content | force => true
  | metadata | sizeOnly => false

/-- A restriction to one subtree or one file; the whole tree when its path is the root. -/
structure Scope where
  path : RelPath
deriving DecidableEq, Repr

/-- Whether a path is the scope itself or lies beneath it. -/
def Scope.matches (scope : Scope) (relative : RelPath) : Bool :=
  decide (scope.path = .root) || decide (Path.AtOrUnder scope.path relative)

structure PlanOptions where
  delete : Bool
  allowEmptySource : Bool
  maxDelete : Nat
  compare : CompareMode
  serverCopy : Bool
  scope : Scope
deriving DecidableEq, Repr

/-- Why the planner scheduled an action: a comparison it made, or could not make. -/
inductive ChangeReason where
  | missingRemote
  | sizeDiffers
  | mtimeDiffers
  | contentDiffers
  | localDigestUnavailable
  | remoteDigestUnavailable
  | typeReplaced
  | forced
deriving DecidableEq, Repr

structure CreateAction where
  relative : RelPath
  remotePath : RelPath
  reason : ChangeReason
deriving DecidableEq, Repr

/-- The plan-time state of a remote entry, checked again before it is overwritten or deleted. -/
structure RemoteSnapshot where
  kind : EntryKind
  size : Nat
  mtimeSeconds : Int
  contentMd5 : Option ContentFingerprint
  requireMtime : Bool
deriving DecidableEq, Repr

structure UploadAction where
  entry : LocalEntry
  remotePath : RelPath
  reason : ChangeReason
  expectedRemote : Option RemoteSnapshot
deriving DecidableEq, Repr

structure CopyAction where
  fromRelative : RelPath
  fromRemotePath : RelPath
  toRelative : RelPath
  toRemotePath : RelPath
  entry : LocalEntry
  expectedSize : Nat
  contentMd5 : ContentFingerprint
  sourceSnapshot : RemoteSnapshot
deriving DecidableEq, Repr

/-- The copy a deletion of its source waits for. -/
structure DestinationGuard where
  remotePath : RelPath
  entry : LocalEntry
  expectedSize : Nat
  expectedMtimeSeconds : Int
  contentMd5 : ContentFingerprint
deriving DecidableEq, Repr

structure DeleteAction where
  relative : RelPath
  localRelative : RelPath
  remotePath : RelPath
  kind : EntryKind
  typeConflict : Bool
  snapshot : RemoteSnapshot
  destinationGuard : Option DestinationGuard
deriving DecidableEq, Repr

/-- A case-only rename: the entry found at `fromRelative` takes the local spelling `relative`. -/
structure RenameAction where
  relative : RelPath
  fromRelative : RelPath
  fromRemotePath : RelPath
  newName : Name
  toRemotePath : RelPath
  kind : EntryKind
deriving DecidableEq, Repr

structure SyncPlan where
  sourceRoot : String
  scope : Scope
  rules : IgnoreRules
  preDeletes : List DeleteAction
  creates : List CreateAction
  copies : List CopyAction
  uploads : List UploadAction
  postDeletes : List DeleteAction
  renames : List RenameAction
  unchangedFiles : Nat
  protectedEntries : Nat
  uploadBytes : Nat
  skipped : List SkippedEntry
  linkGuardUnchecked : Nat

namespace SyncPlan

def deleteCount (plan : SyncPlan) : Nat := plan.preDeletes.length + plan.postDeletes.length

def isEmpty (plan : SyncPlan) : Bool :=
  plan.preDeletes.isEmpty && plan.creates.isEmpty && plan.copies.isEmpty &&
    plan.uploads.isEmpty && plan.postDeletes.isEmpty && plan.renames.isEmpty

/-- Every deletion of the plan, in the order a run carries them out. -/
def deletes (plan : SyncPlan) : List DeleteAction := plan.preDeletes ++ plan.postDeletes

/-- Every path the plan writes to. -/
def destinations (plan : SyncPlan) : List RelPath :=
  plan.creates.map (·.remotePath) ++
    (plan.uploads.map (·.remotePath) ++ plan.copies.map (·.toRemotePath))

end SyncPlan

/-- A digest a content-mode plan needs and does not have. -/
inductive MissingDigest where
  | deletion (remotePath : RelPath)
  | completeDeletion (remotePath : RelPath)
  | localFile
  | completeLocalFile
deriving DecidableEq, Repr

inductive PlanError where
  | unsafeRemotePath (path : UnsafePath)
  | shareNotWritable (share : Option Name)
  | typeConflict (path : RelPath) (localKind remoteKind : EntryKind)
  | protectedConflict (path : RelPath)
  | emptySourceDeletion
  | deleteLimit (planned maximum : Nat)
  | missingDigest (digest : MissingDigest)
deriving DecidableEq, Repr

/-! ## The texts of skips and errors -/

def EntryKind.asStr : EntryKind → String
  | file => "file"
  | directory => "directory"

def quoteRelative (p : RelPath) : String := (spelled p).quote

def quoteAbsolute (p : RelPath) : String := (absolute p).quote

def MissingDigest.message : MissingDigest → String
  | deletion path =>
    "content-mode deletion requires a plan-time MD5/CRC32/SHA-256 fingerprint for " ++
      quoteAbsolute path
  | completeDeletion path =>
    "content-mode deletion requires a complete plan-time MD5/CRC32/SHA-256 fingerprint for " ++
      quoteAbsolute path
  | localFile => "content comparison requires every local file digest"
  | completeLocalFile =>
    "content comparison requires every local MD5/CRC32/SHA-256 fingerprint"

def PlanError.message : PlanError → String
  | unsafeRemotePath e => "unsafe remote path " ++ e.path.quote ++ ": " ++ e.reason
  | shareNotWritable share =>
    "DSM shared folder /" ++ String.ofList (share.elim [] (·.1)) ++
      " is unavailable or not writable by this account"
  | typeConflict path localKind remoteKind =>
    "local/remote type conflict at " ++ absolute path ++
      "; rerun with --delete to replace the remote " ++ remoteKind.asStr ++ " with a local " ++
      localKind.asStr
  | protectedConflict path =>
    "cannot modify remote directory " ++ absolute path ++
      " because it contains an excluded, DSM-managed, or mounted path"
  | emptySourceDeletion =>
    "refusing mirror deletion from a local source with no payload files; " ++
      "pass --allow-empty-source if intentional"
  | deleteLimit planned maximum =>
    "plan would delete " ++ toString planned ++ " remote entries, exceeding --max-delete " ++
      toString maximum ++ "; inspect --dry-run and raise the limit explicitly"
  | missingDigest digest => digest.message

/-! ## Machine arithmetic -/

/-- `u64::saturating_add`: the sum, or `u64::MAX`. -/
def saturatingAdd (a b : Nat) : Nat := min (a + b) 18446744073709551615

/-- `i64::saturating_add` of a positive amount: the sum, or `i64::MAX`. -/
def saturatingAddMs (a b : Int) : Int := min (a + b) 9223372036854775807

def localMtimeSeconds (entry : LocalEntry) : Int := entry.mtimeMs / 1000

end DriveSync
