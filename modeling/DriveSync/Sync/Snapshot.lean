import DriveSync.Plan.Build
import DriveSync.Small
import DriveSync.Sync.Run

/-!
# DriveSync.Sync.Snapshot

What a planned mutation is checked against before it is carried out: the recorded state of its
entry, and for a folder to be deleted what the destination holds beneath it by now.

* `mem_scannedBeneath`: which entries beneath a folder the scan comes to.
* `snapshotVerdict_cases`: a verdict is decided by the entry itself, then by the scan.
-/

namespace DriveSync

open Path

/-- The keys read from a folder's own on, while they start with its string and a separator. -/
def scannedBeneath (current : RemoteInventory) (key : RelPath) : List RelPath :=
  (current.entries.keys.filter fun candidate => decide (key < candidate)).takeWhile
    fun candidate => key.slash.isPrefixOf candidate.render

def snapshotVerdict (check : SnapshotCheck) (key : RelPath) (current : RemoteInventory)
    (deleting : Std.TreeSet RelPath) : SnapshotVerdict :=
  match current.entries.get? key with
  | none => .changed
  | some entry =>
    if entry.remotePath ≠ check.remotePath ∨ entry.kind ≠ check.expected.kind ∨
        entry.size ≠ check.expected.size then .changed
    else if check.deleting = true ∧ check.expected.kind = .directory ∧
        (scannedBeneath current key).any (fun candidate => !deleting.contains candidate) then
      .changed
    else if check.expected.requireMtime = true ∧
        entry.mtimeSeconds ≠ check.expected.mtimeSeconds then
      match check.localMtimeMs with
      | none => .changed
      | some localMtimeMs =>
        if mtimesAgree localMtimeMs entry.mtimeSeconds then .matching else .mtimeNotKept
    else .matching

/-! ## What the scan comes to -/

/-- The scan ends at the first name that sorts after the folder and does not lie beneath it. -/
theorem mem_scannedBeneath {current : RemoteInventory} {key k : RelPath} :
    k ∈ scannedBeneath current key ↔ k ∈ current.entries.keys ∧ key ∈ k.ancestors ∧
      ∀ j ∈ current.entries.keys, key < j → j < k → key ∈ j.ancestors := by
  have hsorted := current.entries.pairwise_keys.filter fun candidate => decide (key < candidate)
  rw [scannedBeneath, Sorted.mem_takeWhile_iff hsorted lt_irrefl fun h => lt_asymm h]
  simp only [List.mem_filter, decide_eq_true_eq, List.isPrefixOf_iff_prefix, slash_prefix_iff]
  constructor
  · rintro ⟨⟨hk, _⟩, hbeneath, hbefore⟩
    exact ⟨hk, hbeneath, fun j hj hlt => hbefore j ⟨hj, hlt⟩⟩
  · rintro ⟨hk, hbeneath, hbefore⟩
    exact ⟨⟨hk, lt_of_mem_ancestors hbeneath⟩, hbeneath, fun j hj => hbefore j hj.1 hj.2⟩

/-- A path beneath the folder that the destination holds and nothing is about to delete. -/
def Unplanned (current : RemoteInventory) (deleting : Std.TreeSet RelPath) (key k : RelPath) :
    Prop :=
  k ∈ current.entries.keys ∧ key ∈ k.ancestors ∧ k ∉ deleting

/-- No name the destination holds sorts between the folder and the path without lying beneath the
folder. -/
def Unshadowed (current : RemoteInventory) (key k : RelPath) : Prop :=
  ∀ j ∈ current.entries.keys, key < j → j < k → key ∈ j.ancestors

theorem scan_finds_iff {current : RemoteInventory} {key : RelPath}
    {deleting : Std.TreeSet RelPath} :
    (scannedBeneath current key).any (fun candidate => !deleting.contains candidate) = true ↔
      ∃ k, Unplanned current deleting key k ∧ Unshadowed current key k := by
  rw [List.any_eq_true]
  constructor
  · rintro ⟨k, hk, hnot⟩
    obtain ⟨hkeys, hbeneath, hbefore⟩ := mem_scannedBeneath.mp hk
    rw [Bool.not_eq_true', ← Bool.not_eq_true, Std.TreeSet.contains_iff_mem] at hnot
    exact ⟨k, ⟨hkeys, hbeneath, hnot⟩, hbefore⟩
  · rintro ⟨k, ⟨hkeys, hbeneath, hnot⟩, hbefore⟩
    refine ⟨k, mem_scannedBeneath.mpr ⟨hkeys, hbeneath, hbefore⟩, ?_⟩
    rw [Bool.not_eq_true', ← Bool.not_eq_true, Std.TreeSet.contains_iff_mem]
    exact hnot

/-! ## The verdict -/

/-- The entry under the key has the path, the kind and the size the check recorded. -/
def SameEntry (check : SnapshotCheck) (entry : RemoteEntry) : Prop :=
  entry.remotePath = check.remotePath ∧ entry.kind = check.expected.kind ∧
    entry.size = check.expected.size

/-- Its time is the one recorded, or none is asked for. -/
def SameTime (check : SnapshotCheck) (entry : RemoteEntry) : Prop :=
  check.expected.requireMtime = true → entry.mtimeSeconds = check.expected.mtimeSeconds

/-- The entry a check recorded is still there, as recorded. -/
def AsRecorded (check : SnapshotCheck) (key : RelPath) (current : RemoteInventory) : Prop :=
  ∃ entry, current.entries.get? key = some entry ∧ SameEntry check entry ∧ SameTime check entry

/-- The entry is there, and differs from the record at most in a time the run itself sent. -/
def AsRecordedOrSent (check : SnapshotCheck) (key : RelPath) (current : RemoteInventory) : Prop :=
  ∃ entry, current.entries.get? key = some entry ∧ SameEntry check entry ∧
    (SameTime check entry ∨ check.localMtimeMs.isSome = true)

theorem AsRecorded.orSent {check : SnapshotCheck} {key : RelPath} {current : RemoteInventory}
    (h : AsRecorded check key current) : AsRecordedOrSent check key current := by
  obtain ⟨entry, hget, hsame, htime⟩ := h
  exact ⟨entry, hget, hsame, .inl htime⟩

/-- A verdict is decided by the entry itself, then by what the scan finds beneath it. -/
theorem snapshotVerdict_changed_iff {check : SnapshotCheck} {key : RelPath}
    {current : RemoteInventory} {deleting : Std.TreeSet RelPath} :
    snapshotVerdict check key current deleting = .changed ↔
      ¬AsRecordedOrSent check key current ∨
        check.deleting = true ∧ check.expected.kind = .directory ∧
          ∃ k, Unplanned current deleting key k ∧ Unshadowed current key k := by
  rw [← scan_finds_iff]
  cases hget : current.entries.get? key with
  | none => simp [snapshotVerdict, hget, AsRecordedOrSent]
  | some entry =>
    have horSent : AsRecordedOrSent check key current ↔
        SameEntry check entry ∧ (SameTime check entry ∨ check.localMtimeMs.isSome = true) := by
      simp [AsRecordedOrSent, hget]
    rw [horSent]
    simp only [snapshotVerdict, hget, SameEntry, SameTime]
    split
    · rename_i hother
      exact iff_of_true rfl (.inl fun h => by tauto)
    · rename_i hsame
      have hsame : entry.remotePath = check.remotePath ∧ entry.kind = check.expected.kind ∧
          entry.size = check.expected.size := by tauto
      split
      · rename_i hfound
        exact iff_of_true rfl (.inr hfound)
      · rename_i hclean
        split
        · rename_i htime
          cases check.localMtimeMs with
          | none =>
            refine iff_of_true rfl (.inl fun h => ?_)
            exact htime.2 (h.2.resolve_right (by simp) htime.1)
          | some ms =>
            refine iff_of_false ?_ ?_
            · dsimp only
              split <;> simp
            · rintro (h | h)
              · exact h ⟨hsame, .inr rfl⟩
              · exact hclean h
        · rename_i htime
          refine iff_of_false (by simp) ?_
          rintro (h | h)
          · exact h ⟨hsame, .inl fun hreq => by_contra fun hne => htime ⟨hreq, hne⟩⟩
          · exact hclean h

/-- A folder is not judged deletable while it holds what nothing planned, and one that is as
recorded and holds nothing else is not judged changed. -/
def JudgesContent (check : SnapshotCheck) (key : RelPath) (current : RemoteInventory)
    (deleting : Std.TreeSet RelPath) : Prop :=
  ((∃ k, Unplanned current deleting key k) →
      snapshotVerdict check key current deleting = .changed) ∧
    (AsRecorded check key current → (¬∃ k, Unplanned current deleting key k) →
      snapshotVerdict check key current deleting ≠ .changed)

/-- The scan answers for the folder's whole content where some unplanned path of it is not hidden
behind a sibling's name; where every one is, only a change of the folder itself is seen. -/
theorem judgesContent_iff (check : SnapshotCheck) (key : RelPath) (current : RemoteInventory)
    (deleting : Std.TreeSet RelPath) :
    JudgesContent check key current deleting ↔
      ((∃ k, Unplanned current deleting key k) →
        ¬AsRecordedOrSent check key current ∨
          check.deleting = true ∧ check.expected.kind = .directory ∧
            ∃ k, Unplanned current deleting key k ∧ Unshadowed current key k) := by
  rw [JudgesContent, ne_eq, snapshotVerdict_changed_iff]
  constructor
  · intro h
    exact h.1
  · intro h
    refine ⟨h, ?_⟩
    rintro hrecorded hnone (hother | ⟨_, _, k, hk, _⟩)
    · exact hother hrecorded.orSent
    · exact hnone ⟨k, hk⟩

/-! ## A sibling that sorts before the separator

The NAS holds `a`, `a-` and `a/b`. The folder `a` is to be deleted, with `a/b`; `a/c` came after the
plan was made. -/

namespace Sibling

open Small

def folder : RelPath := path [name 'a']

def sibling : RelPath := path [⟨['a', '-'], by decide⟩]

def planned : RelPath := .child folder (name 'b')

def uploaded : RelPath := .child folder (name 'c')

def current : RemoteInventory :=
  remotes [remoteFolder folder, remoteFile sibling 1, remoteFile planned 1, remoteFile uploaded 1]

def check : SnapshotCheck :=
  deleteSnapshotCheck ⟨folder, folder, root.path.append folder, .directory, false,
    ⟨.directory, 0, 0, none, false⟩, none⟩

def deleting : Std.TreeSet RelPath := (∅ : Std.TreeSet RelPath) |>.insert folder |>.insert planned

/-- The scan stops at `a-`, and the folder is judged as recorded. -/
theorem not_judgesContent : ¬JudgesContent check folder current deleting := by
  intro h
  have hunplanned : ∃ k, Unplanned current deleting folder k := by
    refine ⟨uploaded, ?_, by decide, ?_⟩
    · rw [← EntryMap.contains_iff]
      decide +kernel
    · rw [← Std.TreeSet.contains_iff_mem]
      decide +kernel
  have hmatching : snapshotVerdict check folder current deleting = .matching := by decide +kernel
  rw [h.1 hunplanned] at hmatching
  cases hmatching

end Sibling
end DriveSync
