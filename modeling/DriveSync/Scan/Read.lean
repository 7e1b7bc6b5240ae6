import DriveSync.Lib.Utf8
import DriveSync.Sync.Errors
import DriveSync.Walk.Collisions

/-!
# DriveSync.Scan.Read

What the local walk makes of one name of a folder: an entry to carry, a path to decline and why, or
nothing. `read` follows the checks of the walk in their order; `entryAt` looks at one path again,
outside the walk.

The source is what the file system answers of each name when it is asked (`SourceTree`). Nothing
says that two answers agree: the tree may change while it is walked. A listing names nothing twice.
-/

namespace DriveSync
namespace Scan

open Path

/-! ## The file system -/

/-- Why the file system would not answer. -/
structure ReadFailure where
  kind : IoErrorKind
  text : String
deriving DecidableEq, Repr

/-- Whether an entry holds its own data here, points somewhere else, or holds none locally yet. -/
inductive LinkClass where
  | ordinary
  | link
  | dehydratedPlaceholder
deriving DecidableEq, Repr

def fileAttributeOffline : BitVec 32 := 0x00001000#32
def fileAttributeRecallOnOpen : BitVec 32 := 0x00040000#32
def fileAttributeRecallOnDataAccess : BitVec 32 := 0x00400000#32
def fileAttributeReparsePoint : BitVec 32 := 0x00000400#32
def fileAttributeSystem : BitVec 32 := 0x00000004#32
def fileAttributeTemporary : BitVec 32 := 0x00000100#32

def classifyLink (nameSurrogate : Bool) (attributes : BitVec 32) : LinkClass :=
  if nameSurrogate then .link
  else if attributes &&& (fileAttributeRecallOnDataAccess ||| fileAttributeRecallOnOpen |||
      fileAttributeOffline) ≠ 0#32 then .dehydratedPlaceholder
  else .ordinary

/-- What `symlink_metadata` says. The attributes are zero, and nothing is unopenable, on a host that
has no such attributes. -/
structure Metadata where
  isSymlink : Bool
  isDir : Bool
  isFile : Bool
  attributes : BitVec 32
  /-- Opening it fails as a reparse point with no data behind it does. -/
  unopenable : Bool
  size : Nat
  /-- Nanoseconds since the epoch. -/
  modified : Except ReadFailure Int

namespace Metadata

def linkClass (metadata : Metadata) : LinkClass :=
  let cls := classifyLink metadata.isSymlink metadata.attributes
  if cls = .ordinary ∧ metadata.attributes &&& fileAttributeReparsePoint ≠ 0#32 ∧
      metadata.isDir = false ∧ metadata.unopenable = true then .link
  else cls

def isLinkOrReparse (metadata : Metadata) : Bool := decide (metadata.linkClass ≠ .ordinary)

def linkSkipReason (metadata : Metadata) : Option SkipReason :=
  match metadata.linkClass with
  | .ordinary => none
  | .link => some .linkOrReparsePoint
  | .dehydratedPlaceholder => some .dehydratedPlaceholder

def hasUnsupportedWindowsAttributes (metadata : Metadata) : Bool :=
  decide (metadata.attributes &&& (fileAttributeSystem ||| fileAttributeTemporary) ≠ 0#32)

end Metadata

/-- A name on disk: text, or bytes that are none, with the text they are shown as. -/
inductive FileName where
  | text (name : Name)
  | raw (bytes : List UInt8) (lossy : Name)
deriving DecidableEq, Repr

namespace FileName

/-- The order a listing is read in. -/
def bytes : FileName → List UInt8
  | text name => Utf8.encode name.1
  | raw bytes _ => bytes

/-- The component a path is recorded under. -/
def shown : FileName → Name
  | text name => name
  | raw _ lossy => lossy

end FileName

/-- The source below its root, by what is answered of each folder and of each name in it. -/
structure SourceTree where
  cancelledAt : RelPath → Bool
  readDir : RelPath → Except ReadFailure (List FileName)
  distinct : ∀ folder names, readDir folder = .ok names → names.Nodup
  cancelledBefore : RelPath → FileName → Bool
  /-- Whether the listing calls it a directory. -/
  fileType : RelPath → FileName → Except ReadFailure Bool
  metadata : RelPath → FileName → Except ReadFailure Metadata
  /-- The full path of a name, as messages quote it. -/
  fullPath : RelPath → FileName → String
  rootPath : String

/-- The full path of a folder, as messages quote it. -/
def SourceTree.folderPath (tree : SourceTree) : RelPath → String
  | .root => tree.rootPath.quote
  | .child folder name => tree.fullPath folder (.text name)

/-! ## Reasons -/

def unsupportedEntry (reason : String) : SkipReason :=
  .deferred (DeferReason.unsupportedEntry.asStr ++ ": " ++ reason)

def readFailureDetail (path : String) (failure : ReadFailure) : String :=
  let reason : DeferReason :=
    if failure.kind = .permissionDenied then .localPermissionDenied else .sourceUnreadable
  reason.asStr ++ ": failed to read " ++ path ++ ": " ++ failure.text

/-- Why a path could not be carried to any destination. -/
def refusal (relative : RelPath) : Option String :=
  match validateRelative relative with
  | .error unsafe' => some unsafe'.reason
  | .ok () => drivePathIssue relative

/-- The modification time in milliseconds, or why DSM could not store it. -/
def mtimeMs (path : String) (metadata : Metadata) : Except SkipReason Int :=
  match metadata.modified with
  | .error failure => .error (.deferred (readFailureDetail path failure))
  | .ok nanos =>
    if nanos < 0 then
      .error (unsupportedEntry "its modification time is before 1970, which DSM cannot store")
    else if nanos / 1000000 ≤ 9223372036854775807 then .ok (nanos / 1000000)
    else .error (unsupportedEntry "its modification time is outside DSM's supported range")

/-! ## One name -/

/-- Whether a path is a folder on the way to the scope. -/
def isAncestorOfScope (scope : Scope) (relative : RelPath) : Bool :=
  decide (scope.path ≠ .root) && (decide (relative = .root) ||
    scope.path.ancestors.contains relative)

/-- What becomes of a name. -/
inductive Reading where
  | passed
  | excluded (relative : RelPath)
  | skip (skip : SkippedEntry)
  | carry (entry : LocalEntry)
deriving DecidableEq, Repr

structure Context where
  tree : SourceTree
  rules : IgnoreRules
  scope : Scope
  includeExcluded : Bool

section Read

variable [Unicode] (ctx : Context)

def Context.noteExcluded (relative : RelPath) : Reading :=
  if ctx.includeExcluded && ctx.scope.matches relative then .excluded relative else .passed

/-- The walk's verdict on an entry whose metadata was read. -/
def Context.readEntry (folder : RelPath) (name : Name) (metadata : Metadata) : Reading :=
  let relative := folder.child name
  let fullPath := ctx.tree.fullPath folder (.text name)
  match metadata.linkSkipReason with
  | some reason => .skip ⟨relative, reason⟩
  | none =>
    if metadata.hasUnsupportedWindowsAttributes then .skip ⟨relative, .windowsAttributes⟩
    else if !metadata.isDir && !metadata.isFile then
      .skip ⟨relative, unsupportedEntry ("only regular files and directories can be synchronized " ++
        "(a FIFO, socket or device is not)")⟩
    else if metadata.isDir then .carry ⟨relative, .directory, 0, 0, none⟩
    else
      match mtimeMs fullPath metadata with
      | .error reason => if ctx.scope.matches relative then .skip ⟨relative, reason⟩ else .passed
      | .ok mtimeMs =>
        if ctx.scope.matches relative then .carry ⟨relative, .file, metadata.size, mtimeMs, none⟩
        else .passed

/-- The walk's verdict on a name of a folder. -/
def Context.read (folder : RelPath) (name : FileName) : Reading :=
  let relative := folder.child name.shown
  let fullPath := ctx.tree.fullPath folder name
  match name with
  | .raw _ _ =>
    match ctx.tree.fileType folder name with
    | .error failure => .skip ⟨relative, .deferred (readFailureDetail fullPath failure)⟩
    | .ok isDir =>
      if isDsmManaged relative || ctx.rules.isIgnored relative isDir then ctx.noteExcluded relative
      else .skip ⟨relative, unsupportedEntry "the name is not valid UTF-8"⟩
  | .text component =>
    if isDsmManaged relative then ctx.noteExcluded relative
    else if !ctx.scope.matches relative && !isAncestorOfScope ctx.scope relative then .passed
    else
      match ctx.tree.fileType folder name with
      | .error failure => .skip ⟨relative, .deferred (readFailureDetail fullPath failure)⟩
      | .ok isDir =>
        -- what the rules exclude is never asked whether it could be carried
        if ctx.rules.isIgnored relative isDir then ctx.noteExcluded relative
        else
          match refusal relative with
          | some reason => .skip ⟨relative, unsupportedEntry reason⟩
          | none =>
            match ctx.tree.metadata folder name with
            | .error failure =>
              -- listed, then gone before it could be read
              if failure.kind = .notFound then .passed
              else .skip ⟨relative, .deferred (readFailureDetail fullPath failure)⟩
            | .ok metadata => ctx.readEntry folder component metadata

end Read

/-! ## One path, outside the walk -/

/-- One path below the root looked at after the walk, of what the file system says of it now. -/
def entryAt (fullPath : String) (found : Except ReadFailure Metadata) (relative : RelPath) :
    Except ExecError (Option LocalEntry) :=
  if relative = .root then .ok none
  else if isDsmManaged relative then .ok none
  else
    match found with
    | .error failure =>
      if failure.kind = .notFound then .ok none
      else .error (.fileIo fullPath failure.kind failure.text)
    | .ok metadata =>
      match validateRelative relative with
      | .error unsafe' =>
        .error (.other ("unsafe remote path " ++ unsafe'.path.quote ++ ": " ++ unsafe'.reason))
      | .ok () =>
        match drivePathIssue relative with
        | some reason => .error (.unsupportedLocalEntry fullPath reason)
        | none =>
          if metadata.isLinkOrReparse || metadata.hasUnsupportedWindowsAttributes then .ok none
          else if metadata.isDir then .ok (some ⟨relative, .directory, 0, 0, none⟩)
          else if !metadata.isFile then
            .error (.unsupportedLocalEntry fullPath
              "only regular files and directories can be synchronized")
          else
            match metadata.modified with
            | .error failure => .error (.fileIo fullPath failure.kind failure.text)
            | .ok nanos =>
              if nanos < 0 then
                .error (.unsupportedLocalEntry fullPath "modification time is before the Unix epoch")
              else if nanos / 1000000 ≤ 9223372036854775807 then
                .ok (some ⟨relative, .file, metadata.size, nanos / 1000000, none⟩)
              else
                .error (.unsupportedLocalEntry fullPath
                  "modification time is outside DSM's supported range")

end Scan
end DriveSync
