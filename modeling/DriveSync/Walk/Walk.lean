import DriveSync.Lib.Fuel
import DriveSync.Local
import DriveSync.Plan.Types
import DriveSync.Remote
import DriveSync.Walk.Listing

/-!
# DriveSync.Walk.Walk

The remote walk: the folders from the shared folder down to the scope are looked at one by one, and
everything beneath the scope is listed folder by folder. Each folder to list waits with the real
path DSM reported for it, and an entry whose real path is not its folder's and its own name is a
link, which is recorded and never descended into.
-/

namespace DriveSync

open Path

/-! ## The text of a path -/

/-- `str::trim_end_matches` of one character. -/
def trimEnd (c : Char) (text : List Char) : List Char :=
  (text.reverse.dropWhile (· = c)).reverse

/-- The string of an absolute path, as DSM spells it. -/
def absoluteText (p : RelPath) : List Char := '/' :: p.render

/-- What stands before the last separator, and what after it. -/
def rsplitSlash (text : List Char) : Option (List Char × { s : List Char // '/' ∉ s }) :=
  if '/' ∈ text then
    some (((text.reverse.dropWhile (· ≠ '/')).drop 1).reverse,
      ⟨(text.reverse.takeWhile (· ≠ '/')).reverse, fun h => by
        simpa using List.mem_takeWhile_imp (List.mem_reverse.mp h)⟩)
  else none

/-- `path::parent_and_name` of a path as DSM sends it. -/
def parentAndNameText (remote : List Char) : Except ApiError (List Char × Name) :=
  match rsplitSlash remote with
  | none => .error (.unsafeRemotePath remote "remote path has no parent")
  | some (parent, name) =>
    if h : parent = [] ∨ name.1 = [] ∨ name.1 = ['.'] ∨ name.1 = ['.', '.'] then
      .error (.unsafeRemotePath remote "remote path has an invalid final component")
    else .ok (parent, ⟨name.1, fun hnil => h (.inr (.inl hnil)), name.2⟩)

def unsafePathError (path : UnsafePath) : ApiError :=
  .unsafeRemotePath path.path.toList path.reason

/-- What lies below a folder, by its path from there. -/
def below? (base : RelPath) : RelPath → Option RelPath
  | .root => if base = .root then some .root else none
  | .child p n =>
    if .child p n = base then some .root else (below? base p).map fun q => .child q n

namespace RemoteRoot

def relative (root : RemoteRoot) (remote : RelPath) : Except ApiError RelPath :=
  match below? root.path remote with
  | none => .error (.remoteEscape (absoluteText remote))
  | some relative => (validateRelative relative).mapError unsafePathError |>.map fun _ => relative

def containsChild (root : RemoteRoot) (remote : RelPath) : Bool :=
  (below? root.path remote).any fun relative => relative ≠ .root

end RemoteRoot

/-! ## The link guard -/

section Links

variable [Unicode]

/-- A function on the parts of a text between its separators. -/
def mapParts (f : List Char → List Char) : List Char → List Char → List Char
  | part, [] => f part
  | part, c :: rest =>
    if c = '/' then f part ++ '/' :: mapParts f [] rest else mapParts f (part ++ [c]) rest

/-- A function on names, of a part that is one. -/
def onName (f : Name → Name) (part : List Char) : List Char :=
  if h : part ≠ [] ∧ '/' ∉ part then (f ⟨part, h⟩).1 else part

/-- The form real paths are compared in. -/
def walkedRealPathKey (path : List Char) : List Char :=
  let trimmed := trimEnd '/' path
  mapParts (onName Unicode.nfc) [] (if trimmed.isEmpty then ['/'] else trimmed)

def lowered (text : List Char) : List Char := mapParts (onName Unicode.lower) [] text

/-- The real path DSM reported for an entry, when it reported a usable one. -/
def reportedRealPath (additional : RemoteAdditionalWire) : Option (List Char) :=
  (additional.realPath.map trim).filter fun value => !value.isEmpty

/-- Where an entry has to lie for its listing to be where it is. -/
def expectedRealPath (parentReal name : List Char) : List Char :=
  trimEnd '/' parentReal ++ '/' :: name

/-- Why an entry is not where its listing puts it, or `none` when it is. -/
def linkedEntryCause (parentReal name : List Char) (real : Option (List Char)) :
    Option (RemoteSkipReason × String) :=
  let expected := expectedRealPath parentReal name
  match real with
  | some real =>
    if walkedRealPathKey real = walkedRealPathKey expected then none
    else if lowered (walkedRealPathKey real) = lowered (walkedRealPathKey expected) then
      some (.linksOutsideDestination, "its real path " ++ quoteText real ++
        " differs from its listing " ++ quoteText expected ++
        " only in letter case, which on a case-sensitive volume is another folder")
    else if real.head? ≠ some '/' then
      some (.linksOutsideDestination, "its real path " ++ quoteText real ++
        " cannot be resolved against " ++ quoteText expected)
    else some (.linksOutsideDestination, "listed under the destination, but its real path is " ++
      quoteText real)
  | none => some (.linksOutsideDestination,
      "the NAS reported no real path for it, though it did for its folder " ++ quoteText parentReal)

/-- Whether an entry is a link, and why. -/
def linkVerdict (parentReal : Option (List Char)) (name : List Char) (real : Option (List Char))
    (isDir : Bool) (visited : List (List Char)) : Option (RemoteSkipReason × String) :=
  match real.filter fun real => isDir && visited.contains (walkedRealPathKey real) with
  | some real =>
    some (.revisitedFolder, "its real path " ++ quoteText real ++ " was already walked")
  | none => parentReal.bind fun parentReal => linkedEntryCause parentReal name real

/-- An entry that passes the guard lies where it is listed, and is no folder walked before. -/
theorem linkVerdict_eq_none {parentReal : List Char} {name : List Char} {real : Option (List Char)}
    {isDir : Bool} {visited : List (List Char)}
    (h : linkVerdict (some parentReal) name real isDir visited = none) :
    ∃ r, real = some r ∧
      walkedRealPathKey r = walkedRealPathKey (expectedRealPath parentReal name) ∧
      (isDir = true → walkedRealPathKey r ∉ visited) := by
  rw [linkVerdict] at h
  split at h
  · cases h
  · rename_i hfilter
    cases real with
    | none => cases h
    | some r =>
      rw [Option.bind_some, linkedEntryCause] at h
      have hkey : walkedRealPathKey r = walkedRealPathKey (expectedRealPath parentReal name) := by
        by_contra hne
        simp only [if_neg hne] at h
        split at h
        · cases h
        · split at h <;> cases h
      refine ⟨r, rfl, hkey, fun hdir hmem => ?_⟩
      simp [Option.filter, hdir, hmem] at hfilter

end Links

/-! ## What the walk asks and what it keeps -/

/-- A NAS, by what it answers of each path the walk asks for. -/
structure FileStation where
  describe : Descriptions
  getInfo : RelPath → Except ApiError (Option (List RemoteItemWire))
  listing : RelPath → Nat → Pages
  /-- Whether a request every account may make succeeds, after a folder was refused with 105. -/
  confirmSession : RelPath → Bool
  cancelledAt : RelPath → Bool
  cancelledBefore : RelPath → Bool

namespace FileStation

/-- One self-checking `getinfo`. -/
def info (station : FileStation) (path : RelPath) : Except ApiError RemoteItem :=
  let operation := "SYNO.FileStation.List.getinfo"
  match station.getInfo path with
  | .error e => .error e
  | .ok none =>
    .error (.invalidResponse operation "successful response contained no path information")
  | .ok (some [item]) =>
    if item.path ≠ absoluteText path then
      .error (.invalidResponse operation ("server returned path " ++ quoteText item.path ++
        " while inspecting " ++ quoteText (absoluteText path)))
    else item.intoItem station.describe "SYNO.FileStation.List" "getinfo"
  | .ok (some files) =>
    .error (.invalidResponse operation ("expected exactly one result for " ++
      quoteText (absoluteText path) ++ ", received " ++ toString files.length))

def list (station : FileStation) (folder : RelPath) : Except ApiError DirectoryRead :=
  listDirectory station.describe (absoluteText folder) (station.listing folder)

/-- Whether a failed listing is a lasting refusal to this account. -/
def refusesListing (station : FileStation) (folder : RelPath) (error : ApiError) : Bool :=
  match error.apiCode with
  | some 407 => true
  | some 105 => station.confirmSession folder
  | _ => false

end FileStation

/-- The size and the time a snapshot comparison depends on. A file has both. -/
def fileMetadata (operation : String) (kind : EntryKind) (additional : RemoteAdditionalWire) :
    Except ApiError (Nat × Int) :=
  let missing (what : String) : Except ApiError (Nat × Int) :=
    .error (.invalidResponse operation ("file information contained no " ++ what))
  match kind, additional.size, additional.mtime with
  | .directory, size, mtime => .ok (size.getD 0, mtime.getD 0)
  | .file, some size, some mtime => .ok (size, mtime)
  | .file, none, some _ => missing "byte size"
  | .file, some _, none => missing "modified time"
  | .file, none, none => missing "byte size or modified time"

/-- Entries the link guard evaluated, by kind. -/
structure LinkCheckCounts where
  filesChecked : Nat
  foldersChecked : Nat
  filesLinked : Nat
  foldersLinked : Nat
deriving DecidableEq, Repr

def LinkCheckCounts.record (counts : LinkCheckCounts) (isDir : Bool)
    (verdict : Option RemoteSkipReason) : LinkCheckCounts :=
  if verdict = some .revisitedFolder then counts
  else
    let linked := if verdict = some .linksOutsideDestination then 1 else 0
    if isDir then { counts with
      foldersChecked := counts.foldersChecked + 1
      foldersLinked := counts.foldersLinked + linked }
    else { counts with
      filesChecked := counts.filesChecked + 1
      filesLinked := counts.filesLinked + linked }

/-- An entry the walk listed and will not carry, by the name DSM listed it with. -/
structure ListedSkip where
  parent : RelPath
  name : List Char
  remotePath : List Char
  kind : EntryKind
  reason : RemoteSkipReason
  excluded : Bool
  cause : String
deriving DecidableEq, Repr

/-- A folder to list, with the real path DSM reported for it. -/
abbrev Waiting := RelPath × Option (List Char)

/-- The walk's state, and what it returns. `listed` is the log of the folders asked for, which no
step reads. -/
structure Walk where
  rootExists : Bool
  entries : RemoteMap
  complete : Bool
  incompleteDirectories : List RelPath
  skipped : List ListedSkip
  linkGuardUnchecked : Nat
  linkChecks : LinkCheckCounts
  vanishedDirectories : List RelPath
  visitedRealPaths : List (List Char)
  pending : List Waiting
  listed : List Waiting

/-- A mount type that says something. -/
def usableMountType (additional : RemoteAdditionalWire) : Option String :=
  additional.mountPointType.filter fun value => !(trim value.toList).isEmpty

def RemoteItem.kind (item : RemoteItem) : EntryKind := if item.isdir then .directory else .file

def RemoteItem.details (item : RemoteItem) : RemoteAdditionalWire :=
  item.additional.getD ⟨none, none, none, none⟩

/-- A file or folder of a listing, as it goes into the inventory. -/
structure ListedEntry where
  entry : RemoteEntry
  excluded : Bool
  link : Option (RemoteSkipReason × String)
  real : Option (List Char)
deriving DecidableEq, Repr

section Walk

variable [Unicode] (station : FileStation) (root : RemoteRoot) (rules : IgnoreRules)

/-- Whether nothing beneath an entry is ever read. -/
def excludedFromWalk (relative : RelPath) (isDir : Bool) : Bool :=
  isDsmManaged relative || rules.isIgnored relative isDir

/-- One item of a listing: a name no path can address, or an entry with what the link guard says. -/
def readItem (folder folderRelative : RelPath) (folderReal : Option (List Char))
    (visited : List (List Char)) (item : RemoteItem) : Except ApiError (ListedSkip ⊕ ListedEntry) :=
  match parentAndNameText item.path with
  | .error e => .error e
  | .ok (parent, name) =>
    if parent ≠ absoluteText folder ∨ name.1 ≠ item.name then
      .error (.invalidResponse listOperation ("server returned inconsistent child path " ++
        quoteText item.path ++ " while listing " ++ quoteText (absoluteText folder)))
    else
      match root.relative (.child folder name) with
      | .error (.unsafeRemotePath _ reason) =>
        .ok (.inl ⟨folderRelative, item.name, item.path, item.kind, .unrepresentableName,
          excludedFromWalk rules (.child folderRelative name) item.isdir, reason⟩)
      | .error e => .error e
      | .ok relative =>
        if relative = .root then
          .error (.invalidResponse listOperation
            "directory listing unexpectedly included its own root")
        else
          match fileMetadata listOperation item.kind item.details with
          | .error e => .error e
          | .ok (size, mtimeSeconds) =>
            let real := reportedRealPath item.details
            let link := linkVerdict folderReal item.name real item.isdir visited
            let mountPointType := match link with
              | some _ => some linkedEntryMountType
              | none => usableMountType item.details
            .ok (.inr ⟨⟨relative, .child folder name, item.kind, size, mtimeSeconds, mountPointType,
              none⟩, excludedFromWalk rules relative item.isdir, link, real⟩)

/-- Whether the walk goes into an entry. -/
def ListedEntry.descends (listed : ListedEntry) : Bool :=
  listed.entry.kind = .directory && listed.entry.mountPointType.isNone && !listed.excluded

/-- A link is named, with why it is one. -/
def ListedEntry.skips (listed : ListedEntry) (folderRelative : RelPath) (item : RemoteItem) :
    List ListedSkip :=
  match listed.link with
  | some (reason, cause) =>
    [⟨folderRelative, item.name, item.path, item.kind, reason, listed.excluded, cause⟩]
  | none => []

/-- An entry is named where it is a link, kept while the budget lasts, and waits to be listed
itself where it is a folder that nothing protects. The second component says that the budget is
spent. -/
def recordEntry (folderRelative : RelPath) (folderReal : Option (List Char)) (budget : Nat)
    (item : RemoteItem) (listed : ListedEntry) (walk : Walk) : Except ApiError (Walk × Bool) :=
  let named : Walk := { walk with
    linkChecks :=
      if folderReal.isSome && !listed.excluded then
        walk.linkChecks.record item.isdir (listed.link.map (·.1))
      else walk.linkChecks
    skipped := walk.skipped ++ listed.skips folderRelative item }
  if budget ≤ walk.entries.values.length then .ok ({ named with complete := false }, true)
  else if walk.entries.contains listed.entry.relative then
    .error (.invalidResponse listOperation
      ("server returned duplicate path " ++ quoteRelative listed.entry.relative))
  else
    let kept := { named with entries := walk.entries.insert listed.entry }
    if listed.descends then
      .ok ({ kept with
        visitedRealPaths :=
          (listed.real.map walkedRealPathKey).toList ++ walk.visitedRealPaths
        pending := (listed.entry.remotePath, listed.real) :: walk.pending }, false)
    else .ok (kept, false)

def walkItem (folder folderRelative : RelPath) (folderReal : Option (List Char)) (budget : Nat)
    (item : RemoteItem) (walk : Walk) : Except ApiError (Walk × Bool) :=
  match readItem root rules folder folderRelative folderReal walk.visitedRealPaths item with
  | .error e => .error e
  | .ok (.inl skip) => .ok ({ walk with skipped := walk.skipped ++ [skip] }, false)
  | .ok (.inr listed) => recordEntry folderRelative folderReal budget item listed walk

def walkItems (folder folderRelative : RelPath) (folderReal : Option (List Char)) (budget : Nat) :
    List RemoteItem → Walk → Except ApiError (Walk × Bool)
  | [], walk => .ok (walk, false)
  | item :: items, walk =>
    match walkItem root rules folder folderRelative folderReal budget item walk with
    | .error e => .error e
    | .ok (walk, true) => .ok (walk, true)
    | .ok (walk, false) => walkItems folder folderRelative folderReal budget items walk

/-- What a folder that could not be listed leaves behind. -/
def unlisted (scopePath folder : RelPath) (error : ApiError) (walk : Walk) :
    Fuel.Next Walk (Except ApiError Walk) :=
  if folder = root.path ∧ error.apiCode = some 408 then .stop (.ok { walk with rootExists := false })
  else if folder = scopePath ∧ error.apiCode = some 408 then .stop (.ok walk)
  else if folder ≠ scopePath ∧ error.apiCode = some 408 then
    -- gone since its parent's listing, which no longer describes the parent
    match root.relative folder with
    | .error e => .stop (.error e)
    | .ok relative => .go { walk with
        entries := walk.entries.erase relative
        incompleteDirectories := walk.incompleteDirectories ++ [relative.parent]
        vanishedDirectories := walk.vanishedDirectories ++ [relative] }
  else if folder ≠ scopePath ∧ station.refusesListing folder error = true then
    match root.relative folder, (parentAndName folder).mapError unsafePathError with
    | .error e, _ => .stop (.error e)
    | _, .error e => .stop (.error e)
    | .ok relative, .ok (_, name) => .go { walk with
        entries := match walk.entries.get? relative with
          | some entry =>
            walk.entries.insert { entry with mountPointType := some unlistableEntryMountType }
          | none => walk.entries
        skipped := walk.skipped ++ [⟨relative.parent, name.1, absoluteText folder, .directory,
          .unlistableFolder, excludedFromWalk rules relative true,
          "File Station refused to list it with code " ++ toString (error.apiCode.getD 0)⟩]
        incompleteDirectories := walk.incompleteDirectories ++ [relative] }
  else .stop (.error error)

/-- One turn of the walk: the folder that waits on top is listed. -/
def walkFolder (scopePath : RelPath) (budget : Nat) (walk : Walk) :
    Fuel.Next Walk (Except ApiError Walk) :=
  match walk.pending with
  | [] => .stop (.ok walk)
  | (folder, real) :: rest =>
    if station.cancelledBefore folder then .stop (.error .cancelled)
    else
      let walk := { walk with pending := rest, listed := walk.listed ++ [(folder, real)] }
      match station.list folder with
      | .error error => unlisted station root rules scopePath folder error walk
      | .ok listing =>
        match root.relative folder with
        | .error e => .stop (.error e)
        | .ok folderRelative =>
          match walkItems root rules folder folderRelative real budget listing.items { walk with
              incompleteDirectories :=
                if listing.whole then walk.incompleteDirectories
                else walk.incompleteDirectories ++ [folderRelative]
              linkGuardUnchecked :=
                if real.isNone then walk.linkGuardUnchecked + 1 else walk.linkGuardUnchecked } with
          | .error e => .stop (.error e)
          | .ok (walk, true) => .stop (.ok walk)
          | .ok (walk, false) => .go walk

/-! ## From the shared folder down to the scope -/

/-- The walk on its way down, with the real path of the folder before, at or below the root. -/
structure Approach where
  walk : Walk
  parentReal : Option (List Char)

/-- A folder between the root and the scope: never a link, and recorded. -/
def approachBelow (path : RelPath) (info : RemoteItem) (approach : Approach) :
    Except ApiError Walk :=
  let walk := approach.walk
  if root.containsChild path then
    match root.relative path with
    | .error e => .error e
    | .ok relative =>
      match fileMetadata "SYNO.FileStation.Getinfo.getinfo" info.kind info.details with
      | .error e => .error e
      | .ok (size, mtimeSeconds) =>
        match linkVerdict approach.parentReal info.name (reportedRealPath info.details) info.isdir
            walk.visitedRealPaths with
        | some (_, cause) => .error (.remoteLinkInScope (absoluteText path) cause)
        | none => .ok { walk with
            linkGuardUnchecked :=
              if approach.parentReal.isNone then walk.linkGuardUnchecked + 1
              else walk.linkGuardUnchecked
            entries := walk.entries.insert ⟨relative, path, info.kind, size, mtimeSeconds, none, none⟩ }
  else .ok walk

/-- One folder of the way down; a folder that is not there ends the walk. -/
def approachFolder (scope : Scope) (scopePath path : RelPath) (approach : Approach) :
    Except ApiError (Fuel.Next Approach Walk) :=
  if station.cancelledAt path then .error .cancelled
  else
    match station.info path with
    | .error error =>
      if error.apiCode = some 408 then .ok (.stop { approach.walk with
        -- both are prefixes of the scope's path
        rootExists := approach.walk.rootExists &&
          decide ((absoluteText root.path).length < (absoluteText path).length) })
      else .error error
    | .ok info =>
      let isScopePath := decide (path = scopePath)
      let scopeNamesAFile := isScopePath && decide (scope.path ≠ .root) && !info.isdir
      if !info.isdir && !scopeNamesAFile then
        .error (.message ("remote destination ancestor " ++ absolute path ++
          " exists but is not a directory"))
      else
        match usableMountType info.details with
        | some mountType => .error (.remoteMountRoot (absoluteText path) mountType)
        | none =>
          let real := reportedRealPath info.details
          match approachBelow root path info approach with
          | .error e => .error e
          | .ok walk =>
            let walk := { walk with
              pending :=
                if scopeNamesAFile then []
                else if isScopePath then walk.pending.map fun first => (first.1, real)
                else walk.pending }
            if decide (path = root.path) || root.containsChild path then
              .ok (.go ⟨{ walk with visitedRealPaths :=
                (real.map walkedRealPathKey).toList ++ walk.visitedRealPaths }, real⟩)
            else .ok (.go { approach with walk })

def approachAll (scope : Scope) (scopePath : RelPath) :
    List RelPath → Approach → Except ApiError (Fuel.Next Approach Walk)
  | [], approach => .ok (.go approach)
  | path :: paths, approach =>
    match approachFolder station root scope scopePath path approach with
    | .ok (.go approach) => approachAll scope scopePath paths approach
    | other => other

def Walk.start (scopePath : RelPath) : Walk :=
  ⟨true, .empty, true, [], [], 0, ⟨0, 0, 0, 0⟩, [], [], [(scopePath, none)], []⟩

/-- The walk of the part of the destination a scope names, for as many folders as it is given. -/
def remoteInventoryScoped (scope : Scope) (budget fuel : Nat) : Option (Except ApiError Walk) :=
  match (root.join scope.path).mapError unsafePathError with
  | .error e => some (.error e)
  | .ok scopePath =>
    match approachAll station root scope scopePath scopePath.prefixes
        ⟨Walk.start scopePath, none⟩ with
    | .error e => some (.error e)
    | .ok (.stop walk) => some (.ok walk)
    | .ok (.go approach) =>
      Fuel.run (walkFolder station root rules scopePath budget) fuel approach.walk

/-- The walk of the whole destination. -/
def remoteInventory (fuel : Nat) : Option (Except ApiError Walk) :=
  remoteInventoryScoped station root rules ⟨.root⟩ 18446744073709551615 fuel

end Walk

end DriveSync
