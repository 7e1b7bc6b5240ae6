import DriveSync.Plan.Types

/-!
# DriveSync.Sync.Deferrals

The paths a run leaves for the next run, and the questions execution asks about them: `covering`,
by exact spelling, and `spellingRelated`, by fold and in both directions.
-/

namespace DriveSync

open Path

/-- Why one path the run planned for was left for the next run. -/
inductive DeferReason where
  | sourceChanged
  | sourceVanished
  | sourceUnreadable
  | unsupportedLocalEntry
  | remoteDigestUnavailable
  | remoteUnreadable
  | remoteChanged
  | unrepresentableName
  | listingIncomplete
  | serverCopyFailed
  | deleteFailed
  | remoteRefused
  | localPermissionDenied
  | caseRenamePending
  | remoteSkipped
  | unsupportedEntry
  | deleteNotPermitted
deriving DecidableEq, Repr

/-- One path the run left for the next run, by name. -/
structure DeferredPath where
  relative : RelPath
  reason : DeferReason
  detail : String
deriving DecidableEq, Repr

section Index

variable [Unicode]

/-- The paths deferred so far: as spelled, and by their folds. -/
structure DeferralIndex where
  exact : Std.TreeMap RelPath DeferReason
  folded : Std.TreeMap RelPath (RelPath × DeferReason)
  linked : ∀ f, f ∈ folded ↔ ∃ p ∈ exact, portableFold p = f

namespace DeferralIndex

def empty : DeferralIndex := ⟨∅, ∅, by simp⟩

/-- Record a path; the first reason stays. -/
def insert (index : DeferralIndex) (relative : RelPath) (reason : DeferReason) : DeferralIndex :=
  if h : relative ∈ index.exact then index
  else
    ⟨index.exact.insert relative reason,
      index.folded.insertIfNew (portableFold relative) (relative, reason), by
        intro f
        simp only [Std.TreeMap.mem_insertIfNew, Std.TreeMap.mem_insert, compare_eq_iff_eq,
          index.linked]
        constructor
        · rintro (rfl | ⟨p, hp, rfl⟩)
          · exact ⟨relative, .inl rfl, rfl⟩
          · exact ⟨p, .inr hp, rfl⟩
        · rintro ⟨p, rfl | hp, rfl⟩
          · exact .inl rfl
          · exact .inr ⟨p, hp, rfl⟩⟩

def fromRecords (records : List DeferredPath) : DeferralIndex :=
  records.foldl (fun index record => index.insert record.relative record.reason) empty

def isEmpty (index : DeferralIndex) : Bool := index.exact.isEmpty

/-- The reason a path, or a directory above it, was deferred. -/
def covering (index : DeferralIndex) (relative : RelPath) : Option DeferReason :=
  (relative :: relative.ancestors).findSome? fun candidate => index.exact[candidate]?

/-- The deferred path a path is another spelling of, holds, or lies beneath. -/
def spellingRelated (index : DeferralIndex) (relative : RelPath) : Option (RelPath × DeferReason) :=
  let fold := portableFold relative
  match (fold :: fold.ancestors).findSome? fun candidate => index.folded[candidate]? with
  | some found => some found
  | none =>
    let beneath := index.folded.toList.find? fun entry => decide (fold.slash ≤ entry.1.render)
    (beneath.filter fun entry => decide (fold = .root) || fold.slash.isPrefixOf entry.1.render).map
      (·.2)

/-- Whether a deferred path lies beneath a path. -/
def hasDescendant (index : DeferralIndex) (relative : RelPath) : Bool :=
  if relative = .root then !index.exact.isEmpty
  else
    (index.exact.toList.find? fun entry => decide (relative.slash ≤ entry.1.render)).any
      fun entry => relative.slash.isPrefixOf entry.1.render

/-- Whether a path is deferred, lies beneath a deferred path, or holds one. -/
def relatesTo (index : DeferralIndex) (relative : RelPath) : Bool :=
  (index.covering relative).isSome || index.hasDescendant relative

variable {index : DeferralIndex} {p q : RelPath}

@[simp] theorem not_mem_empty : p ∉ empty.exact := by simp [empty]

@[simp] theorem mem_insert {reason : DeferReason} :
    p ∈ (index.insert q reason).exact ↔ p ∈ index.exact ∨ p = q := by
  unfold insert
  split
  · rename_i h
    constructor
    · exact .inl
    · rintro (hp | rfl)
      · exact hp
      · exact h
  · simp only [Std.TreeMap.mem_insert, compare_eq_iff_eq]
    exact ⟨fun h => h.symm.imp id Eq.symm, fun h => h.symm.imp Eq.symm id⟩

theorem covering_isSome : (index.covering p).isSome = true ↔ ∃ f ∈ index.exact, AtOrUnder f p := by
  rw [covering, List.findSome?_isSome_iff]
  simp only [List.mem_cons, Std.TreeMap.isSome_getElem?_iff_mem, AtOrUnder]
  constructor
  · rintro ⟨f, hf, h⟩
    exact ⟨f, h, hf.imp Eq.symm id⟩
  · rintro ⟨f, h, hf⟩
    exact ⟨f, hf.imp Eq.symm id, h⟩

omit [Unicode] in
/-- The first key from a path's string with a slash on starts with it exactly where some key lies
beneath the path. -/
theorem find?_beneath {ν : Type} (entries : Std.TreeMap RelPath ν) (p : RelPath) :
    ((entries.toList.find? fun entry => decide (p.slash ≤ entry.1.render)).any
      fun entry => p.slash.isPrefixOf entry.1.render) = true ↔ ∃ f ∈ entries, p ∈ f.ancestors := by
  have hrange : rangeBeneath entries p ≠ [] ↔ ∃ f ∈ entries, p ∈ f.ancestors := by
    rw [← List.length_pos_iff, List.length_pos_iff_exists_mem]
    simp only [mem_rangeBeneath, Prod.exists, Std.TreeMap.mem_toList_iff_getElem?_eq_some,
      Std.TreeMap.mem_iff_isSome_getElem?, Option.isSome_iff_exists]
    constructor
    · rintro ⟨f, v, hv, hp⟩; exact ⟨f, ⟨v, hv⟩, hp⟩
    · rintro ⟨f, ⟨v, hv⟩, hp⟩; exact ⟨f, v, hv, hp⟩
  rw [← hrange, rangeBeneath, ← List.head?_filter]
  cases entries.toList.filter fun entry => decide (p.slash ≤ entry.1.render) with
  | nil => simp
  | cons entry rest => by_cases h : p.slash.isPrefixOf entry.1.render <;> simp [h]

theorem hasDescendant_iff (hp : p ≠ .root) :
    index.hasDescendant p = true ↔ ∃ f ∈ index.exact, p ∈ f.ancestors := by
  rw [hasDescendant, if_neg hp, find?_beneath]

theorem spellingRelated_isSome (hp : p ≠ .root) : (index.spellingRelated p).isSome = true ↔
    ∃ f ∈ index.exact, AtOrUnder (portableFold f) (portableFold p) ∨
      portableFold p ∈ (portableFold f).ancestors := by
  have habove : ((portableFold p :: (portableFold p).ancestors).findSome?
      fun candidate => index.folded[candidate]?).isSome = true ↔
        ∃ f ∈ index.exact, AtOrUnder (portableFold f) (portableFold p) := by
    rw [List.findSome?_isSome_iff]
    simp only [List.mem_cons, Std.TreeMap.isSome_getElem?_iff_mem, index.linked]
    constructor
    · rintro ⟨_, hc, f, hf, rfl⟩
      exact ⟨f, hf, hc.imp Eq.symm id⟩
    · rintro ⟨f, hf, hc⟩
      exact ⟨_, hc.imp Eq.symm id, f, hf, rfl⟩
  have hbeneath := find?_beneath index.folded (portableFold p)
  have hlinked : (∃ f ∈ index.folded, portableFold p ∈ f.ancestors) ↔
      ∃ f ∈ index.exact, portableFold p ∈ (portableFold f).ancestors := by
    simp only [index.linked]
    constructor
    · rintro ⟨_, ⟨f, hf, rfl⟩, h⟩; exact ⟨f, hf, h⟩
    · rintro ⟨f, hf, h⟩; exact ⟨_, ⟨f, hf, rfl⟩, h⟩
  have hroot : portableFold p ≠ .root := by simpa [portableFold] using hp
  simp only [and_or_left, exists_or]
  rw [← habove, ← hlinked, ← hbeneath, spellingRelated]
  cases hfound : (portableFold p :: (portableFold p).ancestors).findSome?
      fun candidate => index.folded[candidate]? with
  | some found => simp
  | none =>
    simp only [Option.isSome_none, Bool.false_eq_true, false_or, hroot, decide_false,
      Bool.false_or, Option.isSome_map]
    cases index.folded.toList.find? fun entry => decide ((portableFold p).slash ≤ entry.1.render)
      with
    | none => simp
    | some entry => by_cases h : (portableFold p).slash.isPrefixOf entry.1.render <;> simp [h]

/-- What a deferral covers as spelled is related to one. -/
theorem spellingRelated_of_covering (hp : p ≠ .root) (h : (index.covering p).isSome = true) :
    (index.spellingRelated p).isSome = true := by
  obtain ⟨f, hf, hfp⟩ := covering_isSome.mp h
  exact (spellingRelated_isSome hp).mpr ⟨f, hf, .inl hfp.map⟩

/-- A folder above what is related to a deferral is related to it too. -/
theorem spellingRelated_of_mem_ancestors (h : q ∈ p.ancestors)
    (hp : (index.spellingRelated p).isSome = true) : (index.spellingRelated q).isSome = true := by
  have hq := ne_root_of_mem_ancestors h
  obtain ⟨f, hf, hrel⟩ := (spellingRelated_isSome (by rintro rfl; simp at h)).mp hp
  refine (spellingRelated_isSome hq).mpr ⟨f, hf, ?_⟩
  have hfold : portableFold q ∈ (portableFold p).ancestors := mem_ancestors_map h
  rcases hrel with hrel | hrel
  · rcases atOrUnder_total hrel (.inr hfold) with h | h
    · exact .inl h
    · rcases h with h | h
      · exact .inl (.inl h.symm)
      · exact .inr h
  · exact .inr (mem_ancestors_trans hfold hrel)

end DeferralIndex
end Index
end DriveSync
