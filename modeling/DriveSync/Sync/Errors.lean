import DriveSync.Sync.Deferrals

/-!
# DriveSync.Sync.Errors

What the operations of a run fail with, as far as the run tells failures apart: what a failure
says of one path (`forLocalError`, `forPathError`, `refusalOf`), and what says something of the
whole session (`isSessionFailure`).
-/

namespace DriveSync

/-- The kinds of a file system error the run tells apart. `withoutData` is an entry that can be
listed and never opened, which only some hosts answer. -/
inductive IoErrorKind where
  | notFound
  | withoutData
  | permissionDenied
  | other
deriving DecidableEq, Repr

/-- The class of cause a refusal of one path belongs to. -/
inductive RefusalClass where
  | permission
  | name
  | size
  | clash
  | folderLimit
  | createFailed
deriving DecidableEq, Repr

namespace RefusalClass

def ofCode : Int → RefusalClass
  | 105 | 407 => permission
  | 400 | 412 | 413 | 418 | 1802 => name
  | 1804 => size
  | 414 => clash
  | 1101 => folderLimit
  | _ => createFailed

def asStr : RefusalClass → String
  | permission => "permission"
  | name => "name"
  | size => "size"
  | clash => "clash"
  | folderLimit => "folder-limit"
  | createFailed => "create-failed"

/-- The classes in the order of the breaker's map. -/
def all : List RefusalClass := [permission, name, size, clash, folderLimit, createFailed]

end RefusalClass

/-- What an operation of a run fails with. `other` is every failure the run only passes on. -/
inductive ExecError where
  | unsupportedLocalEntry (path reason : String)
  | fileIo (path : String) (kind : IoErrorKind) (source : String)
  | api (service operation : String) (code : Int) (description : String)
  | remoteRefused (operation : String) (path : RelPath) (code : Int) (description : String)
  | remoteRefusalsShareWide (cls : RefusalClass) (refused considered inSync notAttempted : Nat)
      (codes : List (String × Nat)) (sample : List RelPath) (more : Nat)
  | sourceChanged (path : String)
  | contentVerificationFailed (path : RelPath)
  | remoteSnapshotChanged (path : RelPath)
  | serverCopyNotStarted
  | serverCopyFailed (destination : RelPath) (detail : String)
  | cancelled
  | other (text : String)
deriving DecidableEq, Repr

namespace ExecError

def joinRefusalCodes (codes : List (String × Nat)) : String :=
  ", ".intercalate (codes.map fun entry => entry.1 ++ " x" ++ toString entry.2)

def andMore (more : Nat) : String :=
  if more > 0 then ", and " ++ toString more ++ " more" else ""

def message : ExecError → String
  | unsupportedLocalEntry path reason =>
    "unsupported local entry " ++ path.quote ++ ": " ++ reason
  | fileIo path _ source => "failed to read " ++ path.quote ++ ": " ++ source
  | api service operation code description =>
    "Synology API " ++ service ++ "." ++ operation ++ " failed with code " ++ toString code ++
      description
  | remoteRefused operation path code description =>
    "NAS refused " ++ operation ++ " of " ++ quoteAbsolute path ++ " with code " ++
      toString code ++ description
  | remoteRefusalsShareWide cls refused considered inSync notAttempted codes sample more =>
    "remote-refused-share-wide: " ++ cls.asStr ++ ": " ++ toString refused ++ " of the " ++
      toString considered ++ " folders and files this run wrote or found in sync (including " ++
      toString inSync ++ " already in sync) were refused for one cause (" ++
      joinRefusalCodes codes ++ "); " ++ toString notAttempted ++
      " planned writes were not attempted; the share or this account's rights on it are the " ++
      "likely problem; paths: " ++ ", ".intercalate (sample.map spelled) ++ andMore more
  | sourceChanged path => "source file changed while it was being synchronized: " ++ path.quote
  | contentVerificationFailed path =>
    "remote content verification failed for " ++ quoteAbsolute path
  | remoteSnapshotChanged path =>
    "remote path " ++ quoteAbsolute path ++ " changed since planning; it was preserved"
  | serverCopyNotStarted =>
    "server-side copy was rejected before a task was created; verified upload fallback is safe"
  | serverCopyFailed destination detail =>
    "server-side copy to " ++ quoteAbsolute destination ++ " finished with an error: " ++ detail
  | cancelled => "operation cancelled"
  | other text => text

def apiCode : ExecError → Option Int
  | api _ _ code _ => some code
  | remoteRefused _ _ code _ => some code
  | _ => none

def refusalClass : ExecError → Option RefusalClass
  | remoteRefused _ _ code _ => some (.ofCode code)
  | _ => none

/-- The operation and DSM's code. -/
def refusalCauseKey : ExecError → Option String
  | remoteRefused operation _ code _ => some (operation ++ ":" ++ toString code)
  | _ => none

/-- Whether DSM refused the session rather than the request. -/
def isSessionFailure : ExecError → Bool
  | api service _ code _ => decide (service = "SYNO.API.Auth") ||
    (decide (code = 106) || decide (code = 107) || decide (code = 119))
  | _ => false

end ExecError

/-- A refusal of one path: its class, and what DSM answered. -/
abbrev Refusal : Type := RefusalClass × String

def refusalOf (error : ExecError) : Option Refusal :=
  error.refusalClass.map fun cls => (cls, error.refusalCauseKey.getD cls.asStr)

namespace DeferReason

/-- The reason a failure reading one local file defers it. -/
def forLocalError : ExecError → Option DeferReason
  | .sourceChanged _ => some sourceChanged
  | .fileIo _ .notFound _ => some sourceVanished
  | .fileIo _ .withoutData _ => some unsupportedLocalEntry
  | .fileIo _ .permissionDenied _ => some localPermissionDenied
  | .fileIo _ .other _ => some sourceUnreadable
  | .unsupportedLocalEntry _ _ => some unsupportedLocalEntry
  | _ => none

/-- The reason a failure writing one path defers it. -/
def forPathError : ExecError → Option DeferReason
  | .remoteRefused _ _ _ _ => some remoteRefused
  | other => forLocalError other

def asStr : DeferReason → String
  | sourceChanged => "source-changed"
  | sourceVanished => "source-vanished"
  | sourceUnreadable => "source-unreadable"
  | unsupportedLocalEntry => "unsupported-local-entry"
  | remoteDigestUnavailable => "remote-digest-unavailable"
  | remoteUnreadable => "remote-unreadable"
  | remoteChanged => "remote-changed"
  | unrepresentableName => "unrepresentable-name"
  | listingIncomplete => "listing-incomplete"
  | serverCopyFailed => "server-copy-failed"
  | deleteFailed => "delete-failed"
  | remoteRefused => "remote-refused"
  | localPermissionDenied => "local-permission-denied"
  | caseRenamePending => "case-rename-pending"
  | remoteSkipped => "remote-skipped"
  | unsupportedEntry => "unsupported-entry"
  | deleteNotPermitted => "delete-not-permitted"

end DeferReason

/-- The reason a deletion DSM refused is deferred. -/
def deleteRefusalReason (error : ExecError) : DeferReason :=
  if error.apiCode = some 105 || error.apiCode = some 407 then .deleteNotPermitted
  else .deleteFailed

/-- What DSM says of one entry it would not delete; anything else concerns every deletion after. -/
def concernsRun (error : ExecError) : Bool :=
  match error with
  | .api _ _ _ _ => error.isSessionFailure
  | .remoteRefused _ _ _ _ => error.isSessionFailure
  | _ => true

end DriveSync
