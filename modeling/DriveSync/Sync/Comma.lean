import DriveSync.Small
import DriveSync.Sync.Folders

/-!
# DriveSync.Sync.Comma

What is left of a plan once nothing in it can address another entry by the part of its path before a
comma, action list by action list, and what is reported of the rest.

A deletion is held back if it is ambiguous or lies above one that is. What was to replace an entry
whose deletion is held back goes with it, at and beneath that entry.
-/

namespace DriveSync

open Path

section Comma

variable {ε : Type} (lookup : List Char → Except ε Bool) (R : RemoteInventory) (plan : SyncPlan)

/-- The part of a path before its first comma is an entry: one of the inventory, or one a read of the
NAS finds. -/
def SplitsAtEntry (remotePath : RelPath) : Prop :=
  ∃ start, commaSplitPrefix remotePath = some start ∧
    ((∃ entry ∈ R.entries.values, '/' :: entry.remotePath.render = start) ∨ lookup start = .ok true)

/-- A deletion the operation keeps from being carried out. -/
def heldBack (relative : RelPath) : Bool := commaHolds (ambiguousPaths lookup R plan) relative

/-- The entries that were to be replaced and still stand. -/
def standing : List RelPath :=
  (plan.preDeletes.filter fun action => heldBack lookup R plan action.relative).map (·.relative)

/-- A path at or beneath an entry that still stands where it was to be replaced. -/
def displaced (relative : RelPath) : Bool := replacedBelow (standing lookup R plan) relative

variable {lookup R plan}

theorem isAmbiguous_of_splitsAtEntry {remotePath : RelPath} (h : SplitsAtEntry lookup R remotePath) :
    isAmbiguous lookup R remotePath = true := by
  obtain ⟨start, hstart, hentry⟩ := h
  rw [isAmbiguous, addressable, hstart]
  by_cases hlisted : (R.entries.values.any fun entry =>
      decide ('/' :: entry.remotePath.render = start)) = true
  · simp only [if_pos hlisted]
    rfl
  · simp only [if_neg hlisted]
    rcases hentry with ⟨entry, hmem, heq⟩ | hfound
    · exact absurd (List.any_eq_true.mpr ⟨entry, hmem, decide_eq_true heq⟩) hlisted
    · rw [hfound]
      rfl

theorem heldBack_of_isAmbiguous {action : DeleteAction} (hmem : action ∈ plan.deletes)
    (h : isAmbiguous lookup R action.remotePath = true) :
    heldBack lookup R plan action.relative = true := by
  refine commaHolds_iff.mpr ⟨action.relative, ?_, atOrUnder_refl _⟩
  exact List.mem_map.mpr ⟨action, List.mem_filter.mpr ⟨hmem, h⟩, rfl⟩

/-- What the operation makes of a plan. -/
structure CommaFree (lookup : List Char → Except ε Bool) (R : RemoteInventory)
    (plan plan' : SyncPlan) (deferred : List DeferredPath) : Prop where
  deletions : ∀ action ∈ plan'.deletes, ¬SplitsAtEntry lookup R action.remotePath
  renames : ∀ action ∈ plan'.renames, ¬SplitsAtEntry lookup R action.fromRemotePath
  copies : ∀ action ∈ plan'.copies, ¬SplitsAtEntry lookup R action.fromRemotePath
  rest : plan' = { plan with
    preDeletes := plan.preDeletes.filter fun action =>
      !heldBack lookup R plan action.relative && !displaced lookup R plan action.relative
    creates := plan.creates.filter fun action => !displaced lookup R plan action.relative
    copies := plan.copies.filter fun action =>
      !displaced lookup R plan action.toRelative && !isAmbiguous lookup R action.fromRemotePath
    uploads := (plan.uploads.filter fun action =>
        !displaced lookup R plan action.entry.relative) ++
      (plan.copies.filter fun action => !displaced lookup R plan action.toRelative &&
        isAmbiguous lookup R action.fromRemotePath).map uploadInstead
    postDeletes := plan.postDeletes.filter fun action => !heldBack lookup R plan action.relative
    renames := plan.renames.filter fun action => !isAmbiguous lookup R action.fromRemotePath
    uploadBytes := plan'.uploadBytes }
  reported : ∀ action ∈ plan.deletes, heldBack lookup R plan action.relative = true →
    ∃ record ∈ deferred, record.relative = action.relative
  reportedAbove : ∀ action ∈ plan.preDeletes, displaced lookup R plan action.relative = true →
    ∃ record ∈ deferred, AtOrUnder record.relative action.relative
  reportedRenames : ∀ action ∈ plan.renames, isAmbiguous lookup R action.fromRemotePath = true →
    ∃ record ∈ deferred, record.relative = action.relative

theorem withholdAmbiguousDeletions_eq (lookup : List Char → Except ε Bool) (R : RemoteInventory)
    (plan : SyncPlan) :
    withholdAmbiguousDeletions plan (ambiguousPaths lookup R plan) = { plan with
      preDeletes := plan.preDeletes.filter fun action =>
        !heldBack lookup R plan action.relative && !displaced lookup R plan action.relative
      creates := plan.creates.filter fun action => !displaced lookup R plan action.relative
      copies := plan.copies.filter fun action => !displaced lookup R plan action.toRelative
      uploads := plan.uploads.filter fun action => !displaced lookup R plan action.entry.relative
      postDeletes := plan.postDeletes.filter fun action => !heldBack lookup R plan action.relative
      uploadBytes :=
        (withholdAmbiguousDeletions plan (ambiguousPaths lookup R plan)).uploadBytes } := by
  have hheld : commaWithholds (ambiguousPaths lookup R plan) =
      fun action => heldBack lookup R plan action.relative := rfl
  by_cases hempty : ambiguousPaths lookup R plan = []
  · have hnone : ∀ relative, heldBack lookup R plan relative = false := by
      intro relative
      simp [heldBack, commaHolds, aboveAmbiguous, hempty]
    have hgone : ∀ relative, displaced lookup R plan relative = false := by
      intro relative
      simp [displaced, standing, hnone, replacedBelow]
    simp [withholdAmbiguousDeletions, hempty, hnone, hgone]
  · have hne : (ambiguousPaths lookup R plan).isEmpty = false := by simpa using hempty
    simp only [withholdAmbiguousDeletions, hne, hheld, Bool.false_eq_true, if_false]
    split
    · rename_i hnone
      have hgone : ∀ relative, displaced lookup R plan relative = false := by
        intro relative
        rw [displaced, standing, List.isEmpty_iff.mp hnone]
        rfl
      simp [hgone]
    · simp only [withoutReplacements, List.filter_filter]
      congr 1
      refine List.filter_congr fun action _ => ?_
      exact Bool.and_comm _ _

/-- The deletions above an ambiguous one are named, unless they are ambiguous themselves. -/
theorem exists_record_of_held {ambiguous : List RelPath} {actions : List DeleteAction}
    {action : DeleteAction} (hmem : action ∈ actions)
    (hheld : commaHolds ambiguous action.relative = true) (hnot : action.relative ∉ ambiguous) :
    ∃ record ∈ actions.filterMap (aboveRecord ambiguous), record.relative = action.relative := by
  have hself : (ambiguous.any fun relative => decide (relative = action.relative)) = false := by
    simpa using fun relative h (heq : relative = action.relative) => hnot (heq ▸ h)
  rw [commaHolds, hself, Bool.false_or] at hheld
  obtain ⟨beneath, hbeneath⟩ := Option.isSome_iff_exists.mp hheld
  refine ⟨⟨action.relative, .remoteSkipped, aboveAmbiguousDetail beneath⟩,
    List.mem_filterMap.mpr ⟨action, hmem, ?_⟩, rfl⟩
  simp only [aboveRecord, hself, Bool.false_eq_true, if_false, hbeneath, Option.map_some]

theorem filter_not_any {α : Type} [DecidableEq α] {l : List α} {found : List α} {p : α → Bool}
    (h : found = l.filter p) :
    (l.filter fun a => !found.any fun b => decide (b = a)) = l.filter fun a => !p a := by
  refine List.filter_congr fun a ha => ?_
  rw [h, Bool.not_inj_iff, Bool.eq_iff_iff]
  simp [ha]

/-- Nothing that is left of a plan can address an entry by the part of its path before a comma; what
is not left is held back with its deletion, uploaded instead, or displaced, and is reported. -/
theorem withholdComma_commaFree {lookup : List Char → Except ε Bool} {R : RemoteInventory}
    {plan plan' : SyncPlan} {deferred : List DeferredPath}
    (hplan : withholdCommaAmbiguousMutations lookup plan R = .ok (plan', deferred)) :
    CommaFree lookup R plan plan' deferred := by
  obtain ⟨deletions, hdeletions, hplan⟩ := Loop.bind_eq_ok.mp hplan
  obtain ⟨renames, hrenames, hplan⟩ := Loop.bind_eq_ok.mp hplan
  obtain ⟨copies, hcopies, hplan⟩ := Loop.bind_eq_ok.mp hplan
  obtain ⟨hplan', hdeferred⟩ := Prod.mk.inj (Except.ok.inj hplan)
  have hfound := ambiguousOf_eq_ok hdeletions
  have hambiguous : deletions.map (·.1.relative) = ambiguousPaths lookup R plan := by
    rw [ambiguousPaths, ← hfound, List.map_map]
    rfl
  have hnarrowed := withholdAmbiguousDeletions_eq lookup R plan
  rw [hambiguous] at hrenames hcopies hplan'
  generalize withholdAmbiguousDeletions plan (ambiguousPaths lookup R plan) = narrowed
    at hrenames hcopies hplan' hnarrowed
  have hnarrowedRenames : narrowed.renames = plan.renames := by
    have h := congrArg SyncPlan.renames hnarrowed
    exact h
  have hnarrowedCopies : narrowed.copies = plan.copies.filter fun action =>
      !displaced lookup R plan action.toRelative := by
    have h := congrArg SyncPlan.copies hnarrowed
    exact h
  have hconverted := ambiguousOf_eq_ok hcopies
  have hrenamed := ambiguousOf_eq_ok hrenames
  have hkeptRenames : (narrowed.renames.filter fun action =>
      !renames.any fun ambiguous => decide (ambiguous.1 = action)) =
        plan.renames.filter fun action => !isAmbiguous lookup R action.fromRemotePath := by
    have := filter_not_any hrenamed
    simp only [List.any_map, Function.comp_def] at this
    rw [this, hnarrowedRenames]
  have hkeptCopies : (narrowed.copies.filter fun action =>
      !(copies.map (·.1)).any fun copy => decide (copy = action)) =
        plan.copies.filter fun action => !displaced lookup R plan action.toRelative &&
          !isAmbiguous lookup R action.fromRemotePath := by
    rw [filter_not_any hconverted, hnarrowedCopies, List.filter_filter]
    exact List.filter_congr fun action _ => Bool.and_comm _ _
  have hinstead : copies.map (·.1) = plan.copies.filter fun action =>
      !displaced lookup R plan action.toRelative &&
        isAmbiguous lookup R action.fromRemotePath := by
    rw [hconverted, hnarrowedCopies, List.filter_filter]
    exact List.filter_congr fun action _ => Bool.and_comm _ _
  rw [hkeptRenames, hkeptCopies, hinstead] at hplan'
  have hrest : plan' = { plan with
      preDeletes := plan.preDeletes.filter fun action =>
        !heldBack lookup R plan action.relative && !displaced lookup R plan action.relative
      creates := plan.creates.filter fun action => !displaced lookup R plan action.relative
      copies := plan.copies.filter fun action =>
        !displaced lookup R plan action.toRelative && !isAmbiguous lookup R action.fromRemotePath
      uploads := (plan.uploads.filter fun action =>
          !displaced lookup R plan action.entry.relative) ++
        (plan.copies.filter fun action => !displaced lookup R plan action.toRelative &&
          isAmbiguous lookup R action.fromRemotePath).map uploadInstead
      postDeletes := plan.postDeletes.filter fun action => !heldBack lookup R plan action.relative
      renames := plan.renames.filter fun action => !isAmbiguous lookup R action.fromRemotePath
      uploadBytes := plan'.uploadBytes } := by
    rw [← hplan', hnarrowed]
  have hmem : ∀ action ∈ plan'.deletes, action ∈ plan.deletes ∧
      heldBack lookup R plan action.relative = false := by
    intro action haction
    rw [hrest] at haction
    simp only [SyncPlan.deletes, List.mem_append, List.mem_filter, Bool.and_eq_true,
      Bool.not_eq_true'] at haction ⊢
    rcases haction with ⟨hmem, hheld, _⟩ | ⟨hmem, hheld⟩
    · exact ⟨.inl hmem, hheld⟩
    · exact ⟨.inr hmem, hheld⟩
  have hreported : ∀ action ∈ plan.deletes, heldBack lookup R plan action.relative = true →
      ∃ record ∈ deferred, record.relative = action.relative := by
    intro action haction hheld
    rw [← hdeferred, hambiguous]
    by_cases hself : action.relative ∈ ambiguousPaths lookup R plan
    · rw [← hambiguous] at hself
      obtain ⟨d, hd, hrelative⟩ := List.mem_map.mp hself
      refine ⟨_, List.mem_append_left _ (List.mem_append_left _ (List.mem_map.mpr ⟨d, hd, rfl⟩)), ?_⟩
      exact hrelative
    · have hlisted : action ∈ plan.postDeletes ++ plan.preDeletes := by
        simp only [SyncPlan.deletes, List.mem_append] at haction ⊢
        exact haction.symm
      obtain ⟨record, hrecord, hrelative⟩ := exists_record_of_held hlisted hheld hself
      exact ⟨record, List.mem_append_left _ (List.mem_append_right _ hrecord), hrelative⟩
  refine ⟨?_, ?_, ?_, hrest, hreported, ?_, ?_⟩
  · intro action haction hsplits
    obtain ⟨hdelete, hheld⟩ := hmem action haction
    rw [heldBack_of_isAmbiguous hdelete (isAmbiguous_of_splitsAtEntry hsplits)] at hheld
    cases hheld
  · intro action haction hsplits
    rw [hrest] at haction
    have := (List.mem_filter.mp haction).2
    rw [isAmbiguous_of_splitsAtEntry hsplits] at this
    cases this
  · intro action haction hsplits
    rw [hrest] at haction
    have := (List.mem_filter.mp haction).2
    rw [isAmbiguous_of_splitsAtEntry hsplits, Bool.not_true, Bool.and_false] at this
    cases this
  · intro action _ hdisplaced
    obtain ⟨path, hpath, hat⟩ := List.any_eq_true.mp hdisplaced
    obtain ⟨above, habove, rfl⟩ := List.mem_map.mp hpath
    obtain ⟨hmem, hheld⟩ := List.mem_filter.mp habove
    obtain ⟨record, hrecord, hrelative⟩ := hreported above (List.mem_append_left _ hmem) hheld
    exact ⟨record, hrecord, hrelative ▸ of_decide_eq_true hat⟩
  · intro action haction hambiguous
    rw [← hdeferred]
    rw [hnarrowedRenames] at hrenamed
    have hin : action ∈ renames.map (·.1) := by
      rw [hrenamed]
      exact List.mem_filter.mpr ⟨haction, hambiguous⟩
    obtain ⟨r, hr, rfl⟩ := List.mem_map.mp hin
    exact ⟨_, List.mem_append_right _ (List.mem_map.mpr ⟨r, hr, rfl⟩), rfl⟩

end Comma

/-! ## A folder replaced by a file

The source holds a file `f`; the NAS holds a folder `f`, with `x`, `x,y` and `z` in it. -/

namespace CommaFolder

open Small

def folder : RelPath := path [name 'f']

def first : RelPath := .child folder (name 'x')

def comma : RelPath := .child folder ⟨['x', ',', 'y'], by decide⟩

def sibling : RelPath := .child folder (name 'z')

def current : RemoteInventory :=
  remotes [remoteFolder folder, remoteFile first 1, remoteFile comma 1, remoteFile sibling 1]

def deletion (relative : RelPath) (kind : EntryKind) : DeleteAction :=
  ⟨relative, relative, root.path.append relative, kind, true, ⟨kind, 1, 0, none, true⟩, none⟩

def plan : SyncPlan :=
  { emptyPlan (locals [localFile folder 3]) noRules mirror [] with
    preDeletes := [deletion first .file, deletion comma .file, deletion sibling .file,
      deletion folder .directory]
    uploads := [⟨localFile folder 3, root.path.append folder, .typeReplaced, none⟩]
    uploadBytes := 3 }

def unprobed (_ : List Char) : Except Unit Bool := .ok false

/-- What is asked of the rest of a plan: every upload stays, and every deletion that goes is named. -/
def KeepsTheRest (plan plan' : SyncPlan) (deferred : List DeferredPath) : Prop :=
  (∀ upload ∈ plan.uploads, upload ∈ plan'.uploads) ∧
    ∀ action ∈ plan.deletes, action ∉ plan'.deletes →
      ∃ record ∈ deferred, record.relative = action.relative

theorem withhold_plan : Loop.okAnd (withholdCommaAmbiguousMutations unprobed plan current)
    (fun result => result.1.uploads.isEmpty && result.1.deletes.isEmpty &&
      result.2.all fun record => decide (record.relative ≠ sibling)) = true := by
  decide +kernel

/-- The folder stays, so its replacement goes, and the deletion of `z`, which nothing names. -/
theorem not_keepsTheRest : ∃ plan' deferred,
    withholdCommaAmbiguousMutations unprobed plan current = .ok (plan', deferred) ∧
      (∃ upload ∈ plan.uploads, upload ∉ plan'.uploads) ∧ ¬KeepsTheRest plan plan' deferred := by
  obtain ⟨⟨plan', deferred⟩, hok, hresult⟩ := Loop.exists_of_okAnd withhold_plan
  simp only [Bool.and_eq_true, List.isEmpty_iff, List.all_eq_true, decide_eq_true_eq] at hresult
  obtain ⟨⟨huploads, hdeletes⟩, hrecords⟩ := hresult
  refine ⟨plan', deferred, hok, ?_, fun h => ?_⟩
  · refine ⟨⟨localFile folder 3, root.path.append folder, .typeReplaced, none⟩, ?_, ?_⟩
    · simp [plan]
    · rw [huploads]
      simp
  · obtain ⟨record, hmem, hrelative⟩ := h.2 (deletion sibling .file)
      (by simp [plan, SyncPlan.deletes]) (by rw [hdeletes]; simp)
    exact hrecords record hmem hrelative

theorem withholdComma_commaFree_folder : ∃ plan' deferred,
    withholdCommaAmbiguousMutations unprobed plan current = .ok (plan', deferred) ∧
      CommaFree unprobed current plan plan' deferred := by
  obtain ⟨⟨plan', deferred⟩, hok, _⟩ := Loop.exists_of_okAnd withhold_plan
  exact ⟨plan', deferred, hok, withholdComma_commaFree hok⟩

end CommaFolder
end DriveSync
