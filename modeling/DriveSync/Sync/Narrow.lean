import DriveSync.Plan.Selection
import DriveSync.Sync.Deferrals

/-!
# DriveSync.Sync.Narrow

The operations that take actions out of a finished plan before it is carried out: what a deferral
takes with it, what a NAS entry the walk would not carry keeps, what a short listing withholds, and
what a comma in a path would make ambiguous. Each names what it withheld.

`Narrowing` is any one of them; a run applies several, in any order.
-/

namespace DriveSync

open Path

/-- A remote entry the walk saw and will not carry. `shown` is its name escaped for display. -/
structure SkippedRemoteEntry where
  parent : RelPath
  shown : Name
  reason : RemoteSkipReason
  excluded : Bool
  cause : String
deriving DecidableEq, Repr

namespace RemoteSkipReason

def describe : RemoteSkipReason → String
  | unrepresentableName => "the NAS name cannot be addressed by this tool"
  | linksOutsideDestination => "the NAS reports that this entry really lives somewhere else (a link)"
  | revisitedFolder => "the NAS folder was already walked under another name (a link)"
  | unlistableFolder =>
    "the NAS refuses to list this folder to this account; grant it list permission or exclude " ++
      "the folder"

end RemoteSkipReason

namespace SkippedRemoteEntry

def display (entry : SkippedRemoteEntry) : RelPath := .child entry.parent entry.shown

def detail (entry : SkippedRemoteEntry) : String :=
  entry.reason.describe ++ ": " ++ entry.cause ++ "; never deleted, overwritten or descended into"

end SkippedRemoteEntry

/-- The bytes of a list of uploads and copies, as the counter adds them up. -/
def countBytes (uploads : List UploadAction) (copies : List CopyAction) : Nat :=
  (uploads.map (·.entry.size) ++ copies.map (·.expectedSize)).foldl saturatingAdd 0

/-! ## What a deferral takes with it -/

section Deferred

variable [Unicode]

def withheldWith (relative other : RelPath) (reason : DeferReason) : DeferredPath :=
  ⟨relative, reason, "kept because " ++ quoteRelative other ++
    ", which it is a spelling of or depends on, was deferred"⟩

/-- The deferral a mirror deletion is the other half of: the destination of the copy it waits for,
or a spelling related to its own. -/
def relatedDeferral (deferrals : DeferralIndex) (action : DeleteAction) :
    Option (RelPath × DeferReason) :=
  match action.destinationGuard.bind fun guard =>
      (deferrals.covering guard.entry.relative).map fun reason => (guard.entry.relative, reason) with
  | some related => some related
  | none => deferrals.spellingRelated action.relative

def removeDeferredFromPlan (plan : SyncPlan) (deferrals : DeferralIndex) :
    SyncPlan × List DeferredPath :=
  if deferrals.isEmpty then (plan, [])
  else
    let uploads := plan.uploads.filter fun action =>
      (deferrals.covering action.entry.relative).isNone
    let copies := plan.copies.filter fun action => (deferrals.covering action.toRelative).isNone
    ({ plan with
        uploads := uploads
        copies := copies
        preDeletes := plan.preDeletes.filter fun action =>
          (deferrals.covering action.relative).isNone
        postDeletes := plan.postDeletes.filter fun action => (relatedDeferral deferrals action).isNone
        uploadBytes := countBytes uploads copies },
      plan.postDeletes.filterMap fun action =>
        (relatedDeferral deferrals action).map fun other =>
          withheldWith action.relative other.1 other.2)

end Deferred

/-! ## What an entry the walk would not carry keeps -/

def remoteUnreadablePrefix : String := "remote-unreadable:"

/-- The folders the plan itself names as unreadable. -/
def unreadableFolders (plan : SyncPlan) : List RelPath :=
  plan.skipped.filterMap fun skip =>
    match skip.reason with
    | .deferred detail =>
      if remoteUnreadablePrefix.toList.isPrefixOf detail.toList then some skip.relative else none
    | _ => none

/-- The entry beneath a folder, at any depth, that keeps it. -/
def keptBySkipped (skipped : List SkippedRemoteEntry) (folder : RelPath) :
    Option SkippedRemoteEntry :=
  skipped.find? fun entry => decide (AtOrUnder folder entry.parent) || decide (folder = .root)

/-- Whether a path is one of the replaced entries, or lies beneath one. -/
def replacedBelow (withheldReplacements : List RelPath) (relative : RelPath) : Bool :=
  withheldReplacements.any fun path => decide (AtOrUnder path relative)

/-- Without room made for it, a replacement cannot land: what was to be put where an entry still
stands goes, with the deletions beneath it. -/
def withoutReplacements (plan : SyncPlan) (withheldReplacements : List RelPath) : SyncPlan :=
  { plan with
    uploads := plan.uploads.filter fun action =>
      !replacedBelow withheldReplacements action.entry.relative
    copies := plan.copies.filter fun action => !replacedBelow withheldReplacements action.toRelative
    creates := plan.creates.filter fun action => !replacedBelow withheldReplacements action.relative
    preDeletes := plan.preDeletes.filter fun action =>
      !replacedBelow withheldReplacements action.relative }

def keptBySkippedDetail (holding : SkippedRemoteEntry) : String :=
  "kept because " ++ quoteRelative holding.display ++
    " beneath it is a NAS entry this tool will not follow"

/-- The record of a deletion kept by a skipped entry beneath it. -/
def keptRecord (skipped : List SkippedRemoteEntry) (action : DeleteAction) : Option DeferredPath :=
  (keptBySkipped skipped action.relative).map fun holding =>
    ⟨action.relative, .remoteSkipped, keptBySkippedDetail holding⟩

def protectSkippedRemoteEntries (plan : SyncPlan) (skipped : List SkippedRemoteEntry) :
    SyncPlan × List DeferredPath :=
  if skipped.isEmpty then (plan, [])
  else
    let unreadable := unreadableFolders plan
    let named := (skipped.filter fun entry =>
      !entry.excluded && !(decide (entry.reason = .unlistableFolder) &&
        unreadable.any fun folder => decide (folder = entry.display))).map fun entry =>
          ⟨entry.display, .remoteSkipped, entry.detail⟩
    let keep := fun action : DeleteAction => (keptBySkipped skipped action.relative).isNone
    let withheldReplacements := (plan.preDeletes.filter fun action => !keep action).map (·.relative)
    let narrowed := { plan with
      postDeletes := plan.postDeletes.filter keep
      preDeletes := plan.preDeletes.filter keep }
    let deferred := named ++ plan.postDeletes.filterMap (keptRecord skipped) ++
      plan.preDeletes.filterMap (keptRecord skipped)
    if withheldReplacements.isEmpty then (narrowed, deferred)
    else
      let narrowed := withoutReplacements narrowed withheldReplacements
      ({ narrowed with uploadBytes := countBytes narrowed.uploads narrowed.copies }, deferred)

/-! ## What a short listing withholds -/

def listingIncompleteDetail : String :=
  "the listing of its folder returned a different number of entries than the NAS counted"

def withholdDeletionsInIncompleteListings (plan : SyncPlan) (incomplete : List RelPath) :
    SyncPlan × List DeferredPath :=
  if incomplete.isEmpty then (plan, [])
  else
    ({ plan with postDeletes := plan.postDeletes.filter fun action =>
        !listingWithholds action.relative incomplete },
      (plan.postDeletes.filter fun action => listingWithholds action.relative incomplete).map
        fun action => ⟨action.relative, .listingIncomplete, listingIncompleteDetail⟩)

/-! ## What a comma makes ambiguous -/

def trimEndSlashes (s : List Char) : List Char := (s.reverse.dropWhile fun c => decide (c = '/')).reverse

/-- The path a request would address first if the NAS split its path list at commas. -/
def commaSplitPrefix (remotePath : RelPath) : Option (List Char) :=
  let spelled := '/' :: remotePath.render
  if spelled.contains ',' then
    let start := trimEndSlashes (spelled.takeWhile fun c => decide (c ≠ ','))
    if start.head? = some '/' ∧ start.length > 1 then some start else none
  else none

section Comma

variable {ε : Type}

/-- Whether the part before the first comma is an existing entry: one the inventory holds, or one a
read of the NAS finds. The answers are cached, so each part has one. -/
def addressable (lookup : List Char → Except ε Bool) (R : RemoteInventory) (remotePath : RelPath) :
    Except ε (Option (List Char)) :=
  match commaSplitPrefix remotePath with
  | none => .ok none
  | some start =>
    if R.entries.values.any fun entry => decide ('/' :: entry.remotePath.render = start) then
      .ok (some start)
    else do
      let found ← lookup start
      return if found then some start else none

def ambiguousDetail (remotePath : RelPath) (start : List Char) (what : String) : String :=
  quoteAbsolute remotePath ++ " is not " ++ what ++ ": the part before its first comma, " ++
    (String.ofList start).quote ++ ", is an existing NAS entry, and until it is known how DSM " ++
    "parses a comma in a path list the request could address that entry instead"

def aboveAmbiguousDetail (beneath : RelPath) : String :=
  "kept because " ++ quoteRelative beneath ++ " beneath it is not deleted until it is known how " ++
    "DSM parses a comma in a path list"

/-- The actions of a list that could address another entry, with the part each would address. -/
def ambiguousOf {α : Type} (lookup : List Char → Except ε Bool) (R : RemoteInventory)
    (remotePath : α → RelPath) (actions : List α) : Except ε (List (α × List Char)) := do
  let asked ← actions.mapM fun action => do
    let start ← addressable lookup R (remotePath action)
    return (action, start)
  return asked.filterMap fun asked => asked.2.map fun start => (asked.1, start)

/-- The ambiguous deletion a folder holds. -/
def aboveAmbiguous (ambiguous : List RelPath) (folder : RelPath) : Option RelPath :=
  ambiguous.find? fun relative => relative.ancestors.any fun a => decide (a = folder)

/-- Whether a deletion is ambiguous, or lies above one that is. -/
def commaWithholds (ambiguous : List RelPath) (action : DeleteAction) : Bool :=
  (ambiguous.any fun relative => decide (relative = action.relative)) ||
    (aboveAmbiguous ambiguous action.relative).isSome

def aboveRecord (ambiguous : List RelPath) (action : DeleteAction) : Option DeferredPath :=
  if ambiguous.any fun relative => decide (relative = action.relative) then none
  else
    (aboveAmbiguous ambiguous action.relative).map fun beneath =>
      ⟨action.relative, .remoteSkipped, aboveAmbiguousDetail beneath⟩

/-- The deletions of a plan without the ambiguous ones, and what was to replace them. -/
def withholdAmbiguousDeletions (plan : SyncPlan) (ambiguous : List RelPath) : SyncPlan :=
  if ambiguous.isEmpty then plan
  else
    let withheldReplacements :=
      (plan.preDeletes.filter (commaWithholds ambiguous)).map (·.relative)
    let narrowed := { plan with
      postDeletes := plan.postDeletes.filter fun action => !commaWithholds ambiguous action
      preDeletes := plan.preDeletes.filter fun action => !commaWithholds ambiguous action }
    if withheldReplacements.isEmpty then narrowed
    else
      { withoutReplacements narrowed withheldReplacements with
        uploadBytes := (plan.uploads.filter fun action =>
            replacedBelow withheldReplacements action.entry.relative).foldl
          (fun bytes action => bytes - action.entry.size) plan.uploadBytes }

/-- An ambiguous server copy is uploaded instead. -/
def uploadInstead (action : CopyAction) : UploadAction :=
  ⟨action.entry, action.toRemotePath, .missingRemote, none⟩

def withholdCommaAmbiguousMutations (lookup : List Char → Except ε Bool) (plan : SyncPlan)
    (R : RemoteInventory) : Except ε (SyncPlan × List DeferredPath) := do
  let deletions ← ambiguousOf lookup R DeleteAction.remotePath plan.deletes
  let ambiguous := deletions.map (·.1.relative)
  let narrowed := withholdAmbiguousDeletions plan ambiguous
  let kept := (plan.postDeletes ++ plan.preDeletes).filterMap (aboveRecord ambiguous)
  let renames ← ambiguousOf lookup R RenameAction.fromRemotePath narrowed.renames
  let copies ← ambiguousOf lookup R CopyAction.fromRemotePath narrowed.copies
  let converted := copies.map (·.1)
  return ({ narrowed with
      renames := narrowed.renames.filter fun action =>
        !renames.any fun ambiguous => decide (ambiguous.1 = action)
      copies := narrowed.copies.filter fun action =>
        !converted.any fun copy => decide (copy = action)
      uploads := narrowed.uploads ++ converted.map uploadInstead
      uploadBytes := converted.foldl
        (fun bytes copy => saturatingAdd bytes copy.entry.size) narrowed.uploadBytes },
    deletions.map (fun d =>
        ⟨d.1.relative, .remoteSkipped, ambiguousDetail d.1.remotePath d.2 "deleted"⟩) ++ kept ++
      renames.map fun r =>
        ⟨r.1.relative, .remoteSkipped, ambiguousDetail r.1.fromRemotePath r.2 "renamed"⟩)

end Comma

/-! ## Any of them -/

/-- One operation that narrows a plan, with what it is given. -/
inductive Narrowing (ε : Type) [Unicode] where
  | removeDeferred (deferrals : DeferralIndex)
  | protectSkipped (skipped : List SkippedRemoteEntry)
  | withholdIncomplete (incomplete : List RelPath)
  | withholdComma (lookup : List Char → Except ε Bool) (R : RemoteInventory)

def Narrowing.apply {ε : Type} [Unicode] (op : Narrowing ε) (plan : SyncPlan) :
    Except ε (SyncPlan × List DeferredPath) :=
  match op with
  | removeDeferred deferrals => .ok (removeDeferredFromPlan plan deferrals)
  | protectSkipped skipped => .ok (protectSkippedRemoteEntries plan skipped)
  | withholdIncomplete incomplete => .ok (withholdDeletionsInIncompleteListings plan incomplete)
  | withholdComma lookup R => withholdCommaAmbiguousMutations lookup plan R

end DriveSync
