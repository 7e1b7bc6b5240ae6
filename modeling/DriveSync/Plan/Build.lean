import DriveSync.Plan.Resolve

/-!
# DriveSync.Plan.Build

`build_plan`: what a run is going to do, from the two inventories, the rules and the options.

The plan is built up entry by entry: first what each local entry needs (`planEntry`), then the
uploads a server copy can stand in for, the case-only renames, the spellings left behind, and with
`delete` what the NAS holds and the source does not (`planDeletion`).
-/

namespace DriveSync

open Path

section Build

variable [Unicode]

def unsupportedEntry (reason : String) : SkipReason := .deferred ("unsupported-entry: " ++ reason)

/-- One local path of the refused list. Keys sort a folder before everything beneath it, so what
lies beneath a refused folder is beneath the last of the list. -/
def refuse (root : RemoteRoot) (refused : List SkippedEntry) (relative : RelPath) :
    List SkippedEntry :=
  if refused.getLast?.any fun parent => decide (parent.relative ∈ relative.ancestors) then refused
  else
    match root.join relative with
    | .ok _ => refused
    | .error e =>
      refused ++ [⟨relative, unsupportedEntry
        ("the destination path " ++ e.path.quote ++ " is refused: " ++ e.reason)⟩]

/-- Local paths the destination cannot hold once its prefix is prepended, topmost only. -/
def pathsTheDestinationRefuses (root : RemoteRoot) (L : LocalInventory) : List SkippedEntry :=
  L.entries.keys.foldl (refuse root) []

/-! ## Comparing a pair of files -/

def mtimesAgree (localMtimeMs remoteMtimeSeconds : Int) : Bool :=
  let floored := localMtimeMs / 1000
  let rounded := saturatingAddMs localMtimeMs 500 / 1000
  decide (remoteMtimeSeconds = floored) || decide (remoteMtimeSeconds = rounded)

/-- The single observation that decided a difference; `none` where the mode finds the pair equal. -/
def compareFiles (entry : LocalEntry) (remote : RemoteEntry) (mode : CompareMode) :
    Option ChangeReason :=
  if mode = .force then some .forced
  else if entry.size ≠ remote.size then some .sizeDiffers
  else
    let mtimeDiffers := !mtimesAgree entry.mtimeMs remote.mtimeSeconds
    match mode with
    | .force => some .forced
    | .sizeOnly => none
    | .metadata => if mtimeDiffers then some .mtimeDiffers else none
    | .content =>
      if entry.size = 0 then if mtimeDiffers then some .mtimeDiffers else none
      else
        match entry.contentMd5, remote.contentMd5 with
        | some localDigest, some remoteDigest =>
          match localDigest.compareContent remoteDigest with
          | .strong | .md5Only => none
          | .differs => some .contentDiffers
        | localDigest, _ =>
          if mtimeDiffers then some .mtimeDiffers
          else if localDigest.isNone then some .localDigestUnavailable
          else some .remoteDigestUnavailable

/-! ## Actions -/

def joinRemote (root : RemoteRoot) (relative : RelPath) : Except PlanError RelPath :=
  (root.join relative).mapError .unsafeRemotePath

def scheduleCreate (root : RemoteRoot) (plan : SyncPlan) (entry : LocalEntry)
    (remoteRelative : RelPath) (reason : ChangeReason) : Except PlanError SyncPlan := do
  let remotePath ← joinRemote root remoteRelative
  return { plan with creates := plan.creates ++ [⟨entry.relative, remotePath, reason⟩] }

def scheduleUpload (root : RemoteRoot) (plan : SyncPlan) (entry : LocalEntry)
    (remoteRelative : RelPath) (reason : ChangeReason) (expectedRemote : Option RemoteSnapshot) :
    Except PlanError SyncPlan := do
  let remotePath ← joinRemote root remoteRelative
  return { plan with
    uploadBytes := saturatingAdd plan.uploadBytes entry.size
    uploads := plan.uploads ++ [⟨entry, remotePath, reason, expectedRemote⟩] }

def scheduleMissing (root : RemoteRoot) (plan : SyncPlan) (entry : LocalEntry)
    (remoteRelative : RelPath) : Except PlanError SyncPlan :=
  match entry.kind with
  | .directory => scheduleCreate root plan entry remoteRelative .missingRemote
  | .file => scheduleUpload root plan entry remoteRelative .missingRemote none

/-- The plan-time state of a remote file an upload is about to overwrite. -/
def overwrittenSnapshot (remote : RemoteEntry) : RemoteSnapshot :=
  ⟨remote.kind, remote.size, remote.mtimeSeconds, remote.contentMd5, true⟩

/-- The digest a deletion is guarded by: a full fingerprint of a file that is not empty, where the
mode asks for one. -/
def deletionDigest (entry : RemoteEntry) (compare : CompareMode) :
    Except PlanError (Option ContentFingerprint) :=
  if compare.requiresDeletionDigest ∧ entry.kind = .file ∧ entry.size > 0 then
    match entry.contentMd5 with
    | none => .error (.missingDigest (.deletion entry.remotePath))
    | some fingerprint =>
      if fingerprint.hasFullProof then .ok (some fingerprint)
      else .error (.missingDigest (.completeDeletion entry.remotePath))
  else .ok none

def deletionSnapshot (entry : RemoteEntry) (R : RemoteInventory) (compare : CompareMode) :
    Except PlanError RemoteSnapshot := do
  let contentMd5 ← deletionDigest entry compare
  let hasDescendants := decide (entry.kind = .directory) && R.entries.hasDescendants entry.relative
  return ⟨entry.kind, entry.size, entry.mtimeSeconds, contentMd5, !hasDescendants⟩

/-- The deletion of a remote entry, as both kinds of it record it. -/
def deleteAction (pairs : Correspondence) (R : RemoteInventory) (compare : CompareMode)
    (typeConflict : Bool) (entry : RemoteEntry) : Except PlanError DeleteAction := do
  let snapshot ← deletionSnapshot entry R compare
  return ⟨entry.relative, pairs.localRelative entry.relative, entry.remotePath, entry.kind,
    typeConflict, snapshot, none⟩

/-- A plan while the local entries are gone through, with the NAS paths it already deletes first. -/
structure Draft where
  plan : SyncPlan
  predeleted : Std.TreeSet RelPath

def pushPredelete (pairs : Correspondence) (R : RemoteInventory) (compare : CompareMode)
    (draft : Draft) (remote : RemoteEntry) : Except PlanError Draft := do
  if draft.predeleted.contains remote.relative then return draft
  let action ← deleteAction pairs R compare true remote
  return ⟨{ draft.plan with preDeletes := draft.plan.preDeletes ++ [action] },
    draft.predeleted.insert remote.relative⟩

/-! ## The local entries -/

/-- Whether an entry keeps what holds it from being replaced, moved or deleted. -/
def isKept (rules : IgnoreRules) (resolution : Resolution) (entry : RemoteEntry) : Bool :=
  isProtected entry rules resolution.pairs || resolution.shield.covers entry.relative

theorem isKept_eq_false {rules : IgnoreRules} {resolution : Resolution} {e : RemoteEntry} :
    isKept rules resolution e = false ↔
    isProtected e rules resolution.pairs = false ∧
      resolution.shield.covers e.relative = false := by
  rw [isKept, Bool.or_eq_false_iff]

/-- What one local entry needs. -/
def planEntry (root : RemoteRoot) (R : RemoteInventory) (rules : IgnoreRules)
    (options : PlanOptions) (resolution : Resolution) (draft : Draft) (entry : LocalEntry) :
    Except PlanError Draft :=
  if resolution.shield.covers entry.relative then .ok draft
  else
    let remoteRelative := resolution.pairs.remoteRelative entry.relative
    match R.entries.get? remoteRelative with
    | none => return { draft with plan := ← scheduleMissing root draft.plan entry remoteRelative }
    | some remote =>
      match entry.kind, remote.kind with
      | .directory, .directory => .ok draft
      | .file, .file =>
        match compareFiles entry remote options.compare with
        | none =>
          .ok { draft with
            plan := { draft.plan with unchangedFiles := draft.plan.unchangedFiles + 1 } }
        | some reason => do
          let plan ← scheduleUpload root draft.plan entry remoteRelative reason
            (some (overwrittenSnapshot remote))
          return { draft with plan }
      | .directory, .file =>
        if !options.delete then .error (.typeConflict remote.remotePath .directory .file)
        else do
          let draft ← pushPredelete resolution.pairs R options.compare draft remote
          let plan ← scheduleCreate root draft.plan entry remoteRelative .typeReplaced
          return { draft with plan }
      | .file, .directory =>
        if !options.delete then .error (.typeConflict remote.remotePath .file .directory)
        else
          let subtree := R.entries.subtree remote.relative
          if subtree.any (isKept rules resolution) then
            .error (.protectedConflict remote.remotePath)
          else do
            let draft ← subtree.foldlM
              (pushPredelete resolution.pairs R options.compare) draft
            let plan ← scheduleUpload root draft.plan entry remoteRelative .typeReplaced none
            return { draft with plan }

/-- Nothing is written beneath a mount point or a link. The backstop to the shield. -/
def refuseMounts (L : LocalInventory) (R : RemoteInventory) (resolution : Resolution) :
    Except PlanError Unit :=
  match (R.entries.values.filter (·.mountPointType.isSome)).find? fun mount =>
      (L.entries.keys.filter fun relative => !resolution.shield.covers relative).any
        fun relative => decide (mount.relative ∈ (resolution.pairs.remoteRelative relative).ancestors) with
  | some mount => .error (.protectedConflict mount.remotePath)
  | none => .ok ()

/-! ## Server copies -/

/-- What a server copy has to agree on. -/
structure ContentKey where
  size : Nat
  digest : ContentFingerprint
  mtimeSeconds : Int
deriving DecidableEq, Repr

/-- The content an upload to a path the NAS does not hold needs, with its index among the uploads. -/
def copyTarget (R : RemoteInventory) (resolution : Resolution) (indexed : UploadAction × Nat) :
    Except PlanError (Option (ContentKey × Nat)) :=
  let upload := indexed.1
  if upload.entry.size = 0 ∨ (resolution.pairs.remoteOf R upload.entry.relative).isSome then .ok none
  else
    match upload.entry.contentMd5 with
    | none => .error (.missingDigest .localFile)
    | some digest =>
      if digest.hasFullProof then
        .ok (some (⟨upload.entry.size, digest, localMtimeSeconds upload.entry⟩, indexed.2))
      else .error (.missingDigest .completeLocalFile)

/-- The content a remote entry could be copied for. -/
def copySource (L : LocalInventory) (rules : IgnoreRules) (resolution : Resolution)
    (predeleted : List RelPath) (entry : RemoteEntry) : Option (ContentKey × RemoteEntry) :=
  if entry.kind ≠ .file ∨ entry.size = 0 ∨
      (resolution.pairs.localOf L entry.relative).isSome = true ∨
      isProtected entry rules resolution.pairs = true ∨ entry.relative ∈ predeleted ∨
      resolution.shield.covers entry.relative = true ∨
      resolution.isLeftover entry.relative = true then none
  else
    match entry.contentMd5 with
    | none => none
    | some digest =>
      if digest.hasFullProof then some (⟨entry.size, digest, entry.mtimeSeconds⟩, entry) else none

/-- The only element of one key. Ambiguity is not an integrity failure: it keeps the uploads. -/
def onlyOf {α : Type} (l : List (ContentKey × α)) (key : ContentKey) : Option α :=
  match l.filter fun keyed => decide (keyed.1 = key) with
  | [keyed] => some keyed.2
  | _ => none

/-- The copy that stands in for an upload, if a single source has its content and its name, in
another folder. -/
def copyFor (uploads : List UploadAction) (targets : List (ContentKey × Nat))
    (sources : List (ContentKey × RemoteEntry)) (target : ContentKey × Nat) :
    Except PlanError (Option (Nat × CopyAction)) :=
  match onlyOf targets target.1, onlyOf sources target.1, uploads[target.2]? with
  | some _, some source, some upload => do
    let (sourceParent, sourceName) ←
      (parentAndName source.remotePath).mapError .unsafeRemotePath
    let (targetParent, targetName) ←
      (parentAndName upload.remotePath).mapError .unsafeRemotePath
    if sourceParent = targetParent ∨ sourceName ≠ targetName then return none
    return some (target.2, {
      fromRelative := source.relative
      fromRemotePath := source.remotePath
      toRelative := upload.entry.relative
      toRemotePath := upload.remotePath
      entry := upload.entry
      expectedSize := target.1.size
      contentMd5 := target.1.digest
      sourceSnapshot := ⟨.file, source.size, source.mtimeSeconds, some target.1.digest, true⟩ })
  | _, _, _ => .ok none

def replaceUploadsWithServerCopies (L : LocalInventory) (R : RemoteInventory) (rules : IgnoreRules)
    (options : PlanOptions) (resolution : Resolution) (plan : SyncPlan) :
    Except PlanError SyncPlan := do
  if !options.serverCopy then return plan
  let predeleted := plan.preDeletes.map (·.relative)
  let targets := (← plan.uploads.zipIdx.mapM (copyTarget R resolution)).filterMap id
  let sources := R.entries.values.filterMap (copySource L rules resolution predeleted)
  let replacements := (← targets.mapM (copyFor plan.uploads targets sources)).filterMap id
  return { plan with
    uploads := (plan.uploads.zipIdx.filter fun u => (replacements.lookup u.2).isNone).map (·.1)
    copies := plan.copies ++ plan.uploads.zipIdx.filterMap fun u => replacements.lookup u.2
    uploadBytes := (plan.uploads.zipIdx.filter fun u => (replacements.lookup u.2).isSome).foldl
      (fun bytes u => bytes - u.1.entry.size) plan.uploadBytes }

/-- Only a content-mode run has the digests a server copy is proved by. -/
def planCopies (L : LocalInventory) (R : RemoteInventory) (rules : IgnoreRules)
    (options : PlanOptions) (resolution : Resolution) (plan : SyncPlan) :
    Except PlanError SyncPlan :=
  if options.compare = .content then
    replaceUploadsWithServerCopies L R rules options resolution plan
  else .ok plan

/-! ## Case-only renames and leftovers -/

def renamePending (loc remote kept : RelPath) : SkipReason :=
  .deferred ("case-rename-pending: the source spells it " ++ quoteRelative loc ++ " and the NAS " ++
    quoteRelative remote ++ ", which holds " ++ quoteRelative kept ++ ", an excluded, " ++
    "DSM-managed, mounted or skipped entry this run does not move; the content is kept in sync " ++
    "under " ++ quoteRelative remote ++ ", and renaming it in File Station finishes the rename")

def leftoverReason (old kept : RelPath) : SkipReason :=
  .deferred ("case-rename-pending: the NAS holds " ++ quoteRelative old ++ " beside " ++
    quoteRelative kept ++ ", two spellings Synology Drive clients cannot hold together; " ++
    quoteRelative old ++ " is left as it is, so remove it in File Station once its contents " ++
    "are in " ++ quoteRelative kept)

/-- One case-only rename, or its skip where something beneath it is not this run's to move. -/
def planRename (R : RemoteInventory) (rules : IgnoreRules) (options : PlanOptions)
    (resolution : Resolution) (plan : SyncPlan) (rename : RelPath × RelPath) :
    Except PlanError SyncPlan :=
  if !options.scope.matches rename.1 then .ok plan
  else
    match R.entries.get? rename.2, rename.1 with
    | some remote, .child _ localName =>
      match (R.entries.subtree rename.2).find? (isKept rules resolution) with
      | some kept =>
        .ok { plan with
          skipped := plan.skipped ++ [⟨rename.1, renamePending rename.1 rename.2 kept.relative⟩] }
      | none => do
        let (parent, _) ← (parentAndName remote.remotePath).mapError .unsafeRemotePath
        let newName := Unicode.nfc localName
        return { plan with
          renames := plan.renames ++ [⟨rename.1, rename.2, remote.remotePath, newName,
            .child parent newName, remote.kind⟩] }
    | _, _ => .ok plan

def reportLeftover (options : PlanOptions) (plan : SyncPlan) (leftover : RelPath × RelPath) :
    SyncPlan :=
  if !options.scope.matches leftover.1 then plan
  else { plan with
    skipped := plan.skipped ++ [⟨leftover.1, leftoverReason leftover.1 leftover.2⟩] }

/-! ## Mirror deletions -/

/-- The folders that stay because of what lies beneath them, and which protected entry that is. -/
structure KeptFolders where
  protectedEntries : Nat
  protectedDirs : Std.TreeSet RelPath
  protectedBy : Std.TreeMap RelPath RelPath

def keepFolders (rules : IgnoreRules) (resolution : Resolution) (kept : KeptFolders)
    (entry : RemoteEntry) : KeptFolders :=
  if isProtected entry rules resolution.pairs then
    ⟨kept.protectedEntries + 1,
      entry.relative.ancestors.foldl Std.TreeSet.insert kept.protectedDirs,
      entry.relative.ancestors.foldl (fun m a => m.insertIfNew a entry.relative) kept.protectedBy⟩
  else if resolution.shield.covers entry.relative then
    { kept with
      protectedDirs := entry.relative.ancestors.foldl Std.TreeSet.insert kept.protectedDirs }
  else kept

def keptFolders (R : RemoteInventory) (rules : IgnoreRules) (options : PlanOptions)
    (resolution : Resolution) : KeptFolders :=
  (R.entries.values.filter fun _ => options.delete).foldl (keepFolders rules resolution) ⟨0, ∅, ∅⟩

/-- A plan while its mirror deletions are gone through, with the kept folders named so far. -/
structure Mirror where
  plan : SyncPlan
  reportedKept : List RelPath

/-- What one remote entry comes to: nothing, a deletion, or a folder kept and named once. -/
def planDeletion (L : LocalInventory) (R : RemoteInventory) (rules : IgnoreRules)
    (options : PlanOptions) (resolution : Resolution) (predeleted : Std.TreeSet RelPath)
    (kept : KeptFolders) (s : Mirror) (entry : RemoteEntry) : Except PlanError Mirror :=
  if (resolution.pairs.localOf L entry.relative).isSome ||
      predeleted.contains entry.relative then .ok s
  else if !options.scope.matches entry.relative then .ok s
  else if isProtected entry rules resolution.pairs then .ok s
  else if resolution.shield.covers entry.relative || resolution.isLeftover entry.relative then .ok s
  else if entry.kind = .directory ∧ kept.protectedDirs.contains entry.relative then
    match kept.protectedBy[entry.relative]? with
    | some protectedEntry =>
      if s.reportedKept.any fun reported => decide (reported ∈ entry.relative.ancestors) then .ok s
      else
        .ok ⟨{ s.plan with
          skipped := s.plan.skipped ++ [⟨entry.relative, .protectedDescendant protectedEntry⟩] },
          s.reportedKept ++ [entry.relative]⟩
    | none => .ok s
  else do
    let action ← deleteAction resolution.pairs R options.compare false entry
    return { s with plan := { s.plan with postDeletes := s.plan.postDeletes ++ [action] } }

/-- A deletion of the source of a copy waits for the copy. -/
def guardDeletion (copies : List CopyAction) (action : DeleteAction) : DeleteAction :=
  { action with
    destinationGuard := (copies.reverse.find? fun copy =>
        decide (copy.fromRelative = action.relative)).map fun copy =>
      ⟨copy.toRemotePath, copy.entry, copy.expectedSize, localMtimeSeconds copy.entry,
        copy.contentMd5⟩ }

def planDeletions (L : LocalInventory) (R : RemoteInventory) (rules : IgnoreRules)
    (options : PlanOptions) (resolution : Resolution) (predeleted : Std.TreeSet RelPath)
    (kept : KeptFolders) (plan : SyncPlan) : Except PlanError SyncPlan :=
  if !options.delete then .ok plan
  else do
    let s ← R.entries.values.foldlM
      (planDeletion L R rules options resolution predeleted kept) ⟨plan, []⟩
    return { s.plan with postDeletes := s.plan.postDeletes.map (guardDeletion s.plan.copies) }

/-! ## The plan -/

def sortPlan (plan : SyncPlan) : SyncPlan :=
  { plan with
    preDeletes := plan.preDeletes.insertionSort fun a b => DeepestFirst a.relative b.relative
    creates := plan.creates.insertionSort fun a b => ShallowestFirst a.relative b.relative
    copies := plan.copies.insertionSort fun a b => a.toRelative ≤ b.toRelative
    uploads := plan.uploads.insertionSort fun a b => a.entry.relative ≤ b.entry.relative
    postDeletes := plan.postDeletes.insertionSort fun a b => DeepestFirst a.relative b.relative }

def finishPlan (plan : SyncPlan) : SyncPlan :=
  sortPlan { plan with skipped := plan.skipped.insertionSort fun a b => a.relative ≤ b.relative }

def emptyPlan (L : LocalInventory) (rules : IgnoreRules) (options : PlanOptions)
    (skipped : List SkippedEntry) : SyncPlan :=
  { sourceRoot := L.root, scope := options.scope, rules := rules, preDeletes := [], creates := []
    copies := [], uploads := [], postDeletes := [], renames := [], unchangedFiles := 0
    protectedEntries := 0, uploadBytes := 0, skipped := skipped, linkGuardUnchecked := 0 }

/-- A destination folder that is not there is created, unless it is a whole share. -/
def createRoot (root : RemoteRoot) (R : RemoteInventory) (plan : SyncPlan) :
    Except PlanError SyncPlan :=
  if R.rootExists then .ok plan
  else if root.isShare then .error (.shareNotWritable root.shareName)
  else .ok { plan with creates := plan.creates ++ [⟨.root, root.path, .missingRemote⟩] }

/-- The deletion limits, checked on the finished plan. -/
def checkLimits (L : LocalInventory) (options : PlanOptions) (plan : SyncPlan) :
    Except PlanError SyncPlan :=
  if options.delete ∧ L.files = 0 ∧ plan.deleteCount > 0 ∧ !options.allowEmptySource then
    .error .emptySourceDeletion
  else if plan.deleteCount > options.maxDelete then
    .error (.deleteLimit plan.deleteCount options.maxDelete)
  else .ok plan

/-- The plan on a resolution of its two inventories. -/
def buildPlanOn (root : RemoteRoot) (L : LocalInventory) (R : RemoteInventory) (rules : IgnoreRules)
    (options : PlanOptions) (resolution : Resolution) : Except PlanError SyncPlan := do
  let plan ← createRoot root R (emptyPlan L rules options (resolution.skipped ++ L.skipped))
  refuseMounts L R resolution
  let draft ← L.entries.values.foldlM (planEntry root R rules options resolution) ⟨plan, ∅⟩
  let plan ← planCopies L R rules options resolution draft.plan
  let plan ← resolution.renames.foldlM (planRename R rules options resolution) plan
  let kept := keptFolders R rules options resolution
  let plan := { plan with protectedEntries := plan.protectedEntries + kept.protectedEntries }
  let plan := resolution.leftovers.foldl (reportLeftover options) plan
  let plan ← planDeletions L R rules options resolution draft.predeleted kept plan
  checkLimits L options (finishPlan plan)

/-- The resolution a plan is built on. -/
def planResolution (root : RemoteRoot) (L : LocalInventory) (R : RemoteInventory)
    (rules : IgnoreRules) (options : PlanOptions) : Resolution :=
  resolve L R rules options.delete (pathsTheDestinationRefuses root L)

def buildPlan (root : RemoteRoot) (L : LocalInventory) (R : RemoteInventory) (rules : IgnoreRules)
    (options : PlanOptions) : Except PlanError SyncPlan :=
  buildPlanOn root L R rules options (planResolution root L R rules options)

end Build

end DriveSync
