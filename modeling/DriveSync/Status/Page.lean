import DriveSync.Plan.Build
import DriveSync.Lib.Paging

/-!
# DriveSync.Status.Page

The scoped status query: one row for each path either side holds, with what a comparison says of it,
a bounded page of these rows, and totals over the whole scope.

`buildStatusPage` is one pass over the merged keys. `statusRows` is the listing it reads, apart from
any page: `foldlM_pageStep` says that the pass counts all of it and cuts the page out of it.
-/

namespace DriveSync

open Path

/-- Hard ceiling on rows per page. -/
def statusPageSizeMax : Nat := 200

inductive ExclusionCause where
  | ignoreRule
  | dsmManaged
  | mountBoundary
deriving DecidableEq, Repr

/-- The comparison outcome for one entry. -/
inductive StatusState where
  | inSync
  | differs (reason : ChangeReason)
  | missingRemote
  | remoteOnly
  | typeConflict (localKind remoteKind : EntryKind)
  | excluded (cause : ExclusionCause)
  | notCompared
deriving DecidableEq, Repr

/-- The filterable name of a state, without its payload. -/
inductive StateKind where
  | typeConflict
  | missingRemote
  | differs
  | remoteOnly
  | inSync
  | excluded
  | notCompared
deriving DecidableEq, Repr

def StatusState.kind : StatusState → StateKind
  | inSync => .inSync
  | differs _ => .differs
  | missingRemote => .missingRemote
  | remoteOnly => .remoteOnly
  | typeConflict _ _ => .typeConflict
  | excluded _ => .excluded
  | notCompared => .notCompared

/-- The states that need a person's attention. -/
def StateKind.attention : List StateKind := [.typeConflict, .missingRemote, .differs, .remoteOnly]

def StateKind.needsAttention (kind : StateKind) : Bool := attention.any fun k => decide (k = kind)

/-- Which states a listing returns. -/
inductive StateFilter where
  | all
  | only (kinds : List StateKind)
deriving DecidableEq, Repr

def StateFilter.admits : StateFilter → StateKind → Bool
  | all, _ => true
  | only kinds, kind => kinds.any fun k => decide (k = kind)

structure SideInfo where
  size : Nat
  mtimeSeconds : Int
deriving DecidableEq, Repr

structure StatusEntry where
  relative : RelPath
  remotePath : RelPath
  kind : EntryKind
  state : StatusState
  localSide : Option SideInfo
  remoteSide : Option SideInfo
deriving DecidableEq, Repr

/-- Totals over the whole scope, which neither the page nor the filters narrow. -/
structure StatusStats where
  compare : CompareMode
  inSyncFiles : Nat
  differingFiles : Nat
  missingRemoteFiles : Nat
  remoteOnlyEntries : Nat
  typeConflicts : Nat
  excludedEntries : Nat
  notComparedEntries : Nat
  directories : Nat
  inSyncBytes : Nat
  transferBytes : Nat
  totalEntries : Nat
  attentionEntries : Nat
  complete : Bool
deriving DecidableEq, Repr

def StatusStats.empty (compare : CompareMode) : StatusStats :=
  ⟨compare, 0, 0, 0, 0, 0, 0, 0, 0, 0, 0, 0, 0, true⟩

/-- A position in a listing: a bare string, compared with the paths and never looked up. -/
abbrev StatusCursor := List Char

structure StatusPage where
  scope : RelPath
  entries : List StatusEntry
  limit : Nat
  nextCursor : Option StatusCursor
  truncated : Bool
  stats : StatusStats

structure StatusQuery where
  scope : Scope
  compare : CompareMode
  filter : Option (List Char)
  states : StateFilter
  includeExcluded : Bool
  limit : Nat
  cursor : Option StatusCursor
  localComplete : Bool
  remoteComplete : Bool

/-- The paths a scoped scan pruned. A walk prunes what its root holds, never the root. -/
structure ExcludedPaths where
  paths : Std.TreeSet RelPath
  not_root : Path.root ∉ paths

/-- Lower-casing of a whole string. -/
class Lowercase where
  toLowercase : List Char → List Char

/-! ## The rows -/

/-- Whether the final component of a path contains the filter, whatever their case. -/
def matchesFilter [Lowercase] (relative : RelPath) (filter : Option (List Char)) : Bool :=
  match (filter.map trim).filter fun value => !value.isEmpty with
  | none => true
  | some filter =>
    decide (Lowercase.toLowercase filter <:+: Lowercase.toLowercase (relative.name?.elim [] (·.1)))

def isBeneathAny (relative : RelPath) (folders : Std.TreeSet RelPath) : Bool :=
  relative.ancestors.any folders.contains

/-- The NAS mount points and links. -/
def mountPoints (R : RemoteInventory) : Std.TreeSet RelPath :=
  ((R.entries.values.filter (·.mountPointType.isSome)).map (·.relative)).foldl
    Std.TreeSet.insert ∅

def isPairedRemote (pairs : Correspondence) (relative : RelPath) : Bool :=
  pairs.toLocal.contains relative

def localSideInfo (entry : LocalEntry) : SideInfo := ⟨entry.size, localMtimeSeconds entry⟩

def remoteSideInfo (entry : RemoteEntry) : SideInfo := ⟨entry.size, entry.mtimeSeconds⟩

section Rows

variable [Unicode]

def excludedState (relative : RelPath) : StatusState :=
  .excluded (if isDsmManaged relative then .dsmManaged else .ignoreRule)

/-- What both sides of one row come to, nothing being excluded. -/
def comparedState (query : StatusQuery) : Option LocalEntry → Option RemoteEntry → StatusState
  | some entry, some remote =>
    match entry.kind, remote.kind with
    | .directory, .directory => .inSync
    | .file, .file =>
      match compareFiles entry remote query.compare with
      | none => .inSync
      | some reason => .differs reason
    | localKind, remoteKind => .typeConflict localKind remoteKind
  | some _, none => if query.remoteComplete then .missingRemote else .notCompared
  | none, some _ => if query.localComplete then .remoteOnly else .notCompared
  | none, none => .excluded .ignoreRule

def rowState (excluded : ExcludedPaths) (rules : IgnoreRules) (pairs : Correspondence)
    (beneathMount : Bool) (query : StatusQuery) (relative : RelPath)
    (localEntry : Option LocalEntry) (remoteEntry : Option RemoteEntry) : StatusState :=
  if beneathMount then .excluded .mountBoundary
  else
    match remoteEntry.filter fun entry => isExcludedFromComparison entry rules pairs with
    | some entry =>
      if entry.mountPointType.isSome then .excluded .mountBoundary
      else excludedState entry.relative
    | none =>
      if localEntry.isNone && remoteEntry.isNone && excluded.paths.contains relative then
        excludedState relative
      else comparedState query localEntry remoteEntry

/-- The File Station path of a row: where the NAS holds it, or where it would be put. -/
def rowRemotePath (root : RemoteRoot) (remoteEntry : Option RemoteEntry) (relative : RelPath) :
    Except PlanError RelPath :=
  match remoteEntry with
  | some entry => .ok entry.remotePath
  | none => joinRemote root relative

def classify (root : RemoteRoot) (localEntry : Option LocalEntry)
    (remoteEntry : Option RemoteEntry) (excluded : ExcludedPaths) (rules : IgnoreRules)
    (pairs : Correspondence) (beneathMount : Bool) (query : StatusQuery) (relative : RelPath) :
    Except PlanError StatusEntry := do
  let kind := (localEntry.map (·.kind)).getD ((remoteEntry.map (·.kind)).getD .directory)
  let remotePath ← rowRemotePath root remoteEntry relative
  return ⟨relative, remotePath, kind,
    rowState excluded rules pairs beneathMount query relative localEntry remoteEntry,
    localEntry.map localSideInfo, remoteEntry.map remoteSideInfo⟩

/-- The row of one key. -/
def statusRow (root : RemoteRoot) (L : LocalInventory) (R : RemoteInventory)
    (excluded : ExcludedPaths) (rules : IgnoreRules) (query : StatusQuery) (relative : RelPath) :
    Except PlanError StatusEntry :=
  let pairs := Correspondence.build L R
  let localEntry := L.entries.get? relative
  let remoteEntry := match localEntry with
    | some _ => pairs.remoteOf R relative
    | none => R.entries.get? relative
  let beneathMount := isBeneathAny (pairs.remoteRelative relative) (mountPoints R)
  classify root localEntry remoteEntry excluded rules pairs beneathMount query relative

/-- The keys of the listing: what the source holds, what the NAS holds under no local spelling, and
what was pruned where the caller asks for it. -/
def statusKeys (L : LocalInventory) (R : RemoteInventory) (excluded : ExcludedPaths)
    (query : StatusQuery) : Std.TreeSet RelPath :=
  let pairs := Correspondence.build L R
  let keys := L.entries.keys.filter query.scope.matches ++
    R.entries.keys.filter (fun relative =>
      query.scope.matches relative && !isPairedRemote pairs relative) ++
    if query.includeExcluded then excluded.paths.toList.filter query.scope.matches else []
  keys.foldl Std.TreeSet.insert ∅

/-- Every row of the scope, in the listing's order. -/
def statusRows (root : RemoteRoot) (L : LocalInventory) (R : RemoteInventory)
    (excluded : ExcludedPaths) (rules : IgnoreRules) (query : StatusQuery) :
    Except PlanError (List StatusEntry) :=
  (statusKeys L R excluded query).toList.mapM (statusRow root L R excluded rules query)

end Rows

/-! ## The page -/

def StatusStats.accumulate (stats : StatusStats) (entry : StatusEntry) : StatusStats :=
  let stats := { stats with totalEntries := stats.totalEntries + 1 }
  let stats := if entry.state.kind.needsAttention then
    { stats with attentionEntries := stats.attentionEntries + 1 } else stats
  let stats := if entry.kind = .directory ∧ entry.state.kind ≠ .excluded then
    { stats with directories := stats.directories + 1 } else stats
  let size := entry.localSide.elim 0 (·.size)
  match entry.state with
  | .inSync =>
    if entry.kind = .file then
      { stats with
        inSyncFiles := stats.inSyncFiles + 1
        inSyncBytes := saturatingAdd stats.inSyncBytes size }
    else stats
  | .differs _ =>
    { stats with
      differingFiles := stats.differingFiles + 1
      transferBytes := saturatingAdd stats.transferBytes size }
  | .missingRemote =>
    if entry.kind = .file then
      { stats with
        missingRemoteFiles := stats.missingRemoteFiles + 1
        transferBytes := saturatingAdd stats.transferBytes size }
    else stats
  | .remoteOnly => { stats with remoteOnlyEntries := stats.remoteOnlyEntries + 1 }
  | .typeConflict _ _ =>
    { stats with
      typeConflicts := stats.typeConflicts + 1
      transferBytes := saturatingAdd stats.transferBytes size }
  | .excluded _ => { stats with excludedEntries := stats.excludedEntries + 1 }
  | .notCompared => { stats with notComparedEntries := stats.notComparedEntries + 1 }

structure PageState where
  stats : StatusStats
  entries : List StatusEntry
  nextCursor : Option StatusCursor

/-- Whether the filters let a row onto a page. -/
def admitted [Lowercase] (query : StatusQuery) (entry : StatusEntry) : Bool :=
  query.states.admits entry.state.kind && matchesFilter entry.relative query.filter

section Page

variable [Unicode] [Lowercase]

/-- One key of the pass: counted in the totals, and put on the page if it belongs there. -/
def pageStep (root : RemoteRoot) (L : LocalInventory) (R : RemoteInventory)
    (excluded : ExcludedPaths) (rules : IgnoreRules) (query : StatusQuery) (limit : Nat)
    (s : PageState) (relative : RelPath) : Except PlanError PageState := do
  let entry ← statusRow root L R excluded rules query relative
  let s := { s with stats := s.stats.accumulate entry }
  if !query.states.admits entry.state.kind || !matchesFilter relative query.filter then return s
  if query.cursor.any fun cursor => decide (relative.render ≤ cursor) then return s
  if s.entries.length = limit then
    -- the page is full; the first row without room fixes the cursor
    return { s with nextCursor :=
      if s.nextCursor.isNone then s.entries.getLast?.map fun last => last.relative.render
      else s.nextCursor }
  return { s with entries := s.entries ++ [entry] }

def buildStatusPage (root : RemoteRoot) (L : LocalInventory) (R : RemoteInventory)
    (excluded : ExcludedPaths) (rules : IgnoreRules) (query : StatusQuery) :
    Except PlanError StatusPage := do
  let limit := min (max query.limit 1) statusPageSizeMax
  let s ← (statusKeys L R excluded query).toList.foldlM
    (pageStep root L R excluded rules query limit) ⟨.empty query.compare, [], none⟩
  return ⟨query.scope.path, s.entries, limit, s.nextCursor, s.nextCursor.isSome, s.stats⟩

end Page

end DriveSync
