import DriveSync.Inventory
import DriveSync.Integrity

/-!
# DriveSync.Local

The local side of a run: the entries the walk carries, the paths it declined to carry and why, and
the exclusion rules.

The compiled gitignore matchers are two arbitrary predicates on a path and on whether it is a
directory: the rules as composed (`composed`), which both walks prune by, and the rules as typed
(`exact`), which only deletions ask.
-/

namespace DriveSync

open Path

structure LocalEntry where
  relative : RelPath
  kind : EntryKind
  size : Nat
  mtimeMs : Int
  contentMd5 : Option ContentFingerprint
deriving DecidableEq, Repr

/-- Why a path was skipped instead of failing the whole run. -/
inductive SkipReason where
  | windowsAttributes
  | linkOrReparsePoint
  | dehydratedPlaceholder
  | localCaseCollision (other : RelPath)
  | remoteCaseCollision (other : RelPath)
  | caseRenameNeedsDelete (remote : RelPath)
  | deferred (detail : String)
  | typeConflict (detail : String)
  | remoteLink (remotePath : RelPath)
  | protectedDescendant (entry : RelPath)
deriving DecidableEq, Repr

/-- One path a run did not carry although nothing excluded it. -/
structure SkippedEntry where
  relative : RelPath
  reason : SkipReason
deriving DecidableEq, Repr

abbrev LocalMap := EntryMap LocalEntry LocalEntry.relative

structure LocalInventory where
  root : String
  entries : LocalMap
  skipped : List SkippedEntry

namespace LocalInventory

def files (inv : LocalInventory) : Nat := inv.entries.values.countP (·.kind = .file)

/-- The recorded paths beneath a path, and the path itself. -/
def atOrBeneath (inv : LocalInventory) (relative : RelPath) : List RelPath :=
  (rangeBeneath inv.entries.map relative).map (·.1) ++ [relative]

/-- Take a path, and everything beneath it, out of a run without letting it read as absent: the
entries go, and the path is put where it sorts among the skips. -/
def withhold (inv : LocalInventory) (relative : RelPath) (reason : SkipReason) : LocalInventory :=
  { inv with
    entries := (inv.atOrBeneath relative).foldl EntryMap.erase inv.entries
    skipped := inv.skipped.takeWhile (fun skip => decide (skip.relative ≤ relative)) ++
      ⟨relative, reason⟩ :: inv.skipped.dropWhile fun skip => decide (skip.relative ≤ relative) }

theorem mem_atOrBeneath {inv : LocalInventory} {relative k : RelPath} :
    k ∈ inv.atOrBeneath relative ↔
      k = relative ∨ ((∃ e, inv.entries.get? k = some e) ∧ relative ∈ k.ancestors) := by
  simp only [atOrBeneath, List.mem_append, List.mem_map, Prod.exists, exists_and_right,
    exists_eq_right, List.mem_singleton, mem_rangeBeneath,
    Std.TreeMap.mem_toList_iff_getElem?_eq_some]
  exact or_comm

theorem get?_withhold (inv : LocalInventory) (relative : RelPath) (reason : SkipReason)
    (k : RelPath) : (inv.withhold relative reason).entries.get? k =
      if AtOrUnder relative k then none else inv.entries.get? k := by
  show (List.foldl EntryMap.erase inv.entries (inv.atOrBeneath relative)).get? k = _
  rw [EntryMap.get?_foldl_erase]
  by_cases hk : k ∈ inv.atOrBeneath relative
  · rw [if_pos hk, if_pos]
    exact (mem_atOrBeneath.mp hk).imp id And.right
  · rw [if_neg hk]
    by_cases h : AtOrUnder relative k
    · rw [if_pos h]
      cases hget : inv.entries.get? k with
      | none => rfl
      | some e => exact absurd (mem_atOrBeneath.mpr (h.imp id fun h => ⟨⟨e, hget⟩, h⟩)) hk
    · rw [if_neg h]

theorem mem_skipped_withhold {inv : LocalInventory} {relative : RelPath} {reason : SkipReason}
    {skip : SkippedEntry} : skip ∈ (inv.withhold relative reason).skipped ↔
      skip = ⟨relative, reason⟩ ∨ skip ∈ inv.skipped := by
  conv_rhs => rw [← List.takeWhile_append_dropWhile
    (p := fun skip : SkippedEntry => decide (skip.relative ≤ relative)) (l := inv.skipped)]
  simp only [withhold, List.mem_append, List.mem_cons]
  tauto

end LocalInventory

/-- The exclusion rules one run was built with. -/
structure IgnoreRules where
  composed : RelPath → Bool → Bool
  exact : RelPath → Bool → Bool

namespace IgnoreRules

def defaultIgnoreFile : List Char := ".sdsyncignore".toList

variable [Unicode]

/-- Whether the rules exclude a path: what both walks prune, and what every comparison and upload
leaves alone. -/
def isIgnored (rules : IgnoreRules) (relative : RelPath) (isDir : Bool) : Bool :=
  if relative = .root then false
  else if relative.render = defaultIgnoreFile then true
  else rules.composed (nfc relative) isDir

/-- Whether the rules forbid deleting a path: `isIgnored`, or the patterns as typed matching the
path as spelled. -/
def excludesForDeletion (rules : IgnoreRules) (relative : RelPath) (isDir : Bool) : Bool :=
  if rules.isIgnored relative isDir then true
  else decide (relative ≠ .root) && rules.exact relative isDir

theorem excludesForDeletion_of_isIgnored {rules : IgnoreRules} {relative : RelPath} {isDir : Bool}
    (h : rules.isIgnored relative isDir = true) :
    rules.excludesForDeletion relative isDir = true := by
  simp [excludesForDeletion, h]

end IgnoreRules

section Scan

variable [Unicode]

/-- Two names the walk kept never fold to one. -/
def LocalMap.DistinctFolds (entries : LocalMap) : Prop :=
  ∀ x ∈ entries.values, ∀ y ∈ entries.values,
    portableFold x.relative = portableFold y.relative → x = y

/-- What the walk guarantees of the entries it leaves: every folder on the way to one is there, no
two names fold to one (`skip_portable_case_collisions`), and none is DSM-managed or excluded. -/
structure LocalInventory.Scanned (rules : IgnoreRules) (inv : LocalInventory) : Prop where
  closed : inv.entries.ParentClosed LocalEntry.kind
  distinct : inv.entries.DistinctFolds
  notManaged : ∀ x ∈ inv.entries.values, isDsmManaged x.relative = false
  notIgnored : ∀ x ∈ inv.entries.values,
    rules.isIgnored x.relative (x.kind = .directory) = false

instance (entries : LocalMap) : Decidable entries.DistinctFolds :=
  inferInstanceAs (Decidable (∀ x ∈ entries.values, ∀ y ∈ entries.values,
    portableFold x.relative = portableFold y.relative → x = y))

instance (rules : IgnoreRules) (inv : LocalInventory) : Decidable (inv.Scanned rules) :=
  decidable_of_iff (inv.entries.ParentClosed LocalEntry.kind ∧ inv.entries.DistinctFolds ∧
      (∀ x ∈ inv.entries.values, isDsmManaged x.relative = false) ∧
      ∀ x ∈ inv.entries.values, rules.isIgnored x.relative (x.kind = .directory) = false)
    ⟨fun h => ⟨h.1, h.2.1, h.2.2.1, h.2.2.2⟩,
      fun h => ⟨h.closed, h.distinct, h.notManaged, h.notIgnored⟩⟩

end Scan

end DriveSync
