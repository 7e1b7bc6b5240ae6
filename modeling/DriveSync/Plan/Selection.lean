import DriveSync.Plan.Withheld
import DriveSync.Plan.Build

/-!
# DriveSync.Plan.Selection

Which files a content-mode run takes digests of.

* `selectPlanDigests`: the remote files an MD5 is needed of to compare them, and those a full
  fingerprint guards the deletion or the copy of.
* `withholdByListing`: the deletions a short listing withholds, taken out of the run before.
* `mem_strong_of_deletable`: a file the plan of what is left could delete is selected.
-/

namespace DriveSync

open Path

section Selection

variable [Unicode]

/-! ## The selection -/

/-- Whether a short listing of one of `incomplete` withholds a mirror deletion of `relative`: the
folder itself, its direct children and every folder above it are withheld. -/
def listingWithholds (relative : RelPath) (incomplete : List RelPath) : Bool :=
  incomplete.any fun directory =>
    decide (relative.parent = directory) || decide (relative = directory) ||
      directory.ancestors.any fun a => decide (a = relative)

def hasLocalFileAncestor (relative : RelPath) (L : LocalInventory) : Bool :=
  relative.ancestors.any fun parent =>
    (L.entries.get? parent).any fun entry => decide (entry.kind = .file)

/-- Whether a mirror run could delete a remote file whose content is not known without reading it.
A deletion before a local file above it is not withheld by a short listing. -/
def isDeletionGuardCandidate (L : LocalInventory) (rules : IgnoreRules) (resolution : Resolution)
    (incomplete : List RelPath) (entry : RemoteEntry) : Bool :=
  if entry.kind ≠ .file ∨ entry.size = 0 ∨ isProtected entry rules resolution.pairs = true ∨
      resolution.shield.covers entry.relative = true ∨
      resolution.isLeftover entry.relative = true then false
  else
    (resolution.pairs.localOf L entry.relative).all (fun loc => decide (loc.kind ≠ .file)) &&
      (!listingWithholds entry.relative incomplete || hasLocalFileAncestor entry.relative L)

def deletionGuardCandidates (L : LocalInventory) (R : RemoteInventory) (rules : IgnoreRules)
    (resolution : Resolution) (incomplete : List RelPath) : List RelPath :=
  (R.entries.values.filter (isDeletionGuardCandidate L rules resolution incomplete)).map
    (·.relative)

/-- The files whose deletion guard is left out because a short listing withholds their deletion. -/
def deletionsWithheldByListing (L : LocalInventory) (R : RemoteInventory) (rules : IgnoreRules)
    (incomplete : List RelPath) : List RelPath :=
  let resolution := resolve L R rules true []
  let everything := deletionGuardCandidates L R rules resolution []
  let selected := deletionGuardCandidates L R rules resolution incomplete
  everything.filter fun relative => !selected.any fun other => decide (other = relative)

/-- The remote files a comparison needs a digest of: local and remote agree on a size. -/
def comparisonCandidates (L : LocalInventory) (R : RemoteInventory) (rules : IgnoreRules)
    (resolution : Resolution) : List RelPath :=
  L.entries.values.filterMap fun localEntry =>
    if localEntry.kind ≠ .file ∨ localEntry.size = 0 ∨
        resolution.shield.covers localEntry.relative = true then none
    else
      match resolution.pairs.remoteOf R localEntry.relative with
      | none => none
      | some remoteEntry =>
        if remoteEntry.kind = .file ∧ remoteEntry.size = localEntry.size ∧
            isExcludedFromComparison remoteEntry rules resolution.pairs = false then
          some remoteEntry.relative
        else none

/-- What a server copy can be recognised by before any digest is known. -/
structure CopyKey where
  size : Nat
  name : Option Name
  mtimeSeconds : Int
deriving DecidableEq, Repr

/-- The folder a local file the NAS does not hold would be copied into. -/
def missingTarget (R : RemoteInventory) (resolution : Resolution)
    (entry : LocalEntry) : Option (CopyKey × RelPath) :=
  if entry.kind ≠ .file ∨ entry.size = 0 ∨
      (resolution.pairs.remoteOf R entry.relative).isSome = true ∨
      resolution.shield.covers entry.relative = true then none
  else some (⟨entry.size, entry.relative.name?, localMtimeSeconds entry⟩, entry.relative.parent)

/-- Whether a remote file could be copied for one of the missing ones. -/
def isCopyCandidate (L : LocalInventory) (rules : IgnoreRules) (resolution : Resolution)
    (missing : List (CopyKey × RelPath)) (entry : RemoteEntry) : Bool :=
  if entry.kind ≠ .file ∨ entry.size = 0 ∨
      (resolution.pairs.localOf L entry.relative).isSome = true ∨
      isProtected entry rules resolution.pairs = true ∨
      resolution.shield.covers entry.relative = true ∨
      resolution.isLeftover entry.relative = true ∨
      hasLocalFileAncestor entry.relative L = true then false
  else
    missing.any fun target =>
      decide (target.1 = ⟨entry.size, entry.relative.name?, entry.mtimeSeconds⟩ ∧
        target.2 ≠ entry.relative.parent)

structure StrongSelection where
  serverCopy : Bool
  delete : Bool
  incomplete : List RelPath

/-- The remote files whose digest guards a deletion or a server copy. -/
def strongCandidates (L : LocalInventory) (R : RemoteInventory) (rules : IgnoreRules)
    (selection : StrongSelection) (resolution : Resolution) : List RelPath :=
  let guards := if selection.delete then
      deletionGuardCandidates L R rules resolution selection.incomplete
    else []
  if !selection.serverCopy then guards
  else
    let missing := L.entries.values.filterMap (missingTarget R resolution)
    guards ++ (R.entries.values.filter (isCopyCandidate L rules resolution missing)).map (·.relative)

/-- Both selections of a content-mode plan, from one resolution: what is compared, and what has to
be strong. -/
def selectPlanDigests (L : LocalInventory) (R : RemoteInventory) (rules : IgnoreRules)
    (serverCopy delete : Bool) (incomplete : List RelPath) : List RelPath × List RelPath :=
  let resolution := resolve L R rules delete []
  (comparisonCandidates L R rules resolution,
    strongCandidates L R rules ⟨serverCopy, delete, incomplete⟩ resolution)

def listingIncompleteReason : SkipReason :=
  .deferred ("listing-incomplete: " ++
    "the listing of its folder returned a different number of entries than the NAS counted")

/-- Take each deletion a short listing withholds out of the run, by name. -/
def withholdByListing (L : LocalInventory) (R : RemoteInventory) (rules : IgnoreRules)
    (delete : Bool) (incomplete : List RelPath) : LocalInventory :=
  if delete then
    (deletionsWithheldByListing L R rules incomplete).foldl
      (fun inv relative => inv.withhold relative listingIncompleteReason) L
  else L

variable {L : LocalInventory} {R : RemoteInventory} {rules : IgnoreRules} {delete : Bool}
  {incomplete : List RelPath}

/-! ## The inventory without the deletions a short listing withholds -/

omit [Unicode] in
theorem foldl_withhold (reason : SkipReason) (paths : List RelPath) :
    let L' := paths.foldl (fun inv relative => inv.withhold relative reason) L
    (∀ k, L'.entries.get? k =
      if ∃ p ∈ paths, AtOrUnder p k then none else L.entries.get? k) ∧
    ∀ skip, skip ∈ L'.skipped ↔ skip ∈ L.skipped ∨ ∃ p ∈ paths, skip = ⟨p, reason⟩ := by
  induction paths generalizing L with
  | nil => simp
  | cons p paths ih =>
    obtain ⟨hget, hskip⟩ := ih (L := L.withhold p reason)
    refine ⟨fun k => ?_, fun skip => ?_⟩
    · rw [List.foldl_cons, hget, LocalInventory.get?_withhold]
      by_cases hp : AtOrUnder p k
      · simp [hp]
      · simp [hp]
    · rw [List.foldl_cons, hskip, LocalInventory.mem_skipped_withhold]
      simp only [List.mem_cons, exists_eq_or_imp]
      tauto

theorem get?_withholdByListing (k : RelPath) :
    (withholdByListing L R rules delete incomplete).entries.get? k =
      if delete = true ∧ ∃ p ∈ deletionsWithheldByListing L R rules incomplete, AtOrUnder p k
        then none else L.entries.get? k := by
  simp only [withholdByListing]
  cases delete with
  | false => simp
  | true => simp [(foldl_withhold listingIncompleteReason _).1 k]

theorem mem_skipped_withholdByListing {skip : SkippedEntry} :
    skip ∈ (withholdByListing L R rules delete incomplete).skipped ↔ skip ∈ L.skipped ∨
      delete = true ∧ ∃ p ∈ deletionsWithheldByListing L R rules incomplete,
        skip = ⟨p, listingIncompleteReason⟩ := by
  simp only [withholdByListing]
  cases delete with
  | false => simp
  | true => simp [(foldl_withhold listingIncompleteReason _).2 skip]

theorem withheld_withholdByListing (refused : List SkippedEntry) :
    Withheld L (withholdByListing L R rules delete incomplete) [] refused := by
  refine ⟨?_, ?_, ?_⟩
  · intro k e h
    rw [get?_withholdByListing] at h
    split at h
    · cases h
    · exact h
  · intro k e h hgone
    rw [get?_withholdByListing] at hgone
    split at hgone
    · rename_i hp
      obtain ⟨hdelete, p, hp, hpk⟩ := hp
      refine ⟨⟨p, listingIncompleteReason⟩, List.mem_append_left _ ?_, hpk.map⟩
      exact mem_skipped_withholdByListing.mpr (.inr ⟨hdelete, p, hp, rfl⟩)
    · rw [h] at hgone
      cases hgone
  · intro skip hskip
    rw [List.append_nil] at hskip
    exact List.mem_append_left _ (mem_skipped_withholdByListing.mpr (.inl hskip))

theorem mem_values_withholdByListing {x : LocalEntry}
    (h : x ∈ (withholdByListing L R rules delete incomplete).entries.values) :
    x ∈ L.entries.values := by
  have hw : Withheld L (withholdByListing L R rules delete incomplete) [] [] :=
    withheld_withholdByListing []
  exact EntryMap.mem_values_of_get? (hw.kept x.relative x (EntryMap.mem_values.mp h))

theorem scanned_withholdByListing (scanned : L.Scanned rules) :
    (withholdByListing L R rules delete incomplete).Scanned rules where
  closed := by
    intro x hx a ha
    obtain ⟨d, hd, hdk⟩ := scanned.closed x (mem_values_withholdByListing hx) a ha
    refine ⟨d, ?_, hdk⟩
    rw [get?_withholdByListing, if_neg]
    · exact hd
    · rintro ⟨hdelete, p, hp, hpa⟩
      have hget := EntryMap.mem_values.mp hx
      rw [get?_withholdByListing, if_pos ⟨hdelete, p, hp, .inr (mem_ancestors_of_atOrUnder hpa ha)⟩]
        at hget
      cases hget
  distinct x hx y hy := scanned.distinct x (mem_values_withholdByListing hx) y
    (mem_values_withholdByListing hy)
  notManaged x hx := scanned.notManaged x (mem_values_withholdByListing hx)
  notIgnored x hx := scanned.notIgnored x (mem_values_withholdByListing hx)

/-! ## What is selected -/

theorem withheld_of_refused (L : LocalInventory) (refused : List SkippedEntry) :
    Withheld L L [] refused := by
  refine ⟨fun _ _ h => h, fun k e h hgone => ?_, fun skip h => ?_⟩
  · rw [h] at hgone
    cases hgone
  · rw [List.append_nil] at h
    exact List.mem_append_left _ h

theorem isDeletionGuardCandidate_iff {resolution : Resolution} {e : RemoteEntry} :
    isDeletionGuardCandidate L rules resolution incomplete e = true ↔
      (e.kind = .file ∧ e.size ≠ 0 ∧ isProtected e rules resolution.pairs = false ∧
        resolution.shield.covers e.relative = false ∧ resolution.isLeftover e.relative = false ∧
        ∀ y, resolution.pairs.localOf L e.relative = some y → y.kind ≠ .file) ∧
      (listingWithholds e.relative incomplete = false ∨
        hasLocalFileAncestor e.relative L = true) := by
  simp only [isDeletionGuardCandidate]
  split
  · rename_i h
    simp only [Bool.false_eq_true, false_iff]
    rintro ⟨⟨hk, hs, hp, hc, hl, _⟩, _⟩
    simp [hk, hs, hp, hc, hl] at h
  · rename_i h
    simp only [not_or, Decidable.not_not, Bool.not_eq_true] at h
    obtain ⟨hk, hs, hp, hc, hl⟩ := h
    simp [hk, hs, hp, hc, hl, Option.all_eq_true]

theorem mem_deletionGuardCandidates {resolution : Resolution} {e : RemoteEntry}
    (he : e ∈ R.entries.values) :
    e.relative ∈ deletionGuardCandidates L R rules resolution incomplete ↔
      isDeletionGuardCandidate L rules resolution incomplete e = true := by
  simp only [deletionGuardCandidates, List.mem_map, List.mem_filter]
  constructor
  · rintro ⟨d, ⟨hd, hcandidate⟩, hrel⟩
    exact EntryMap.eq_of_relative_eq hd he hrel ▸ hcandidate
  · intro h
    exact ⟨e, ⟨he, h⟩, rfl⟩

theorem mem_deletionsWithheldByListing {e : RemoteEntry} (he : e ∈ R.entries.values) :
    e.relative ∈ deletionsWithheldByListing L R rules incomplete ↔
      isDeletionGuardCandidate L rules (resolve L R rules true []) [] e = true ∧
      isDeletionGuardCandidate L rules (resolve L R rules true []) incomplete e = false := by
  simp only [deletionsWithheldByListing, List.mem_filter, mem_deletionGuardCandidates he,
    Bool.not_eq_true', List.any_eq_false, decide_eq_true_eq]
  refine and_congr Iff.rfl ?_
  rw [← Bool.not_eq_true, ← mem_deletionGuardCandidates he]
  exact ⟨fun h hmem => h _ hmem rfl, fun h p hp heq => h (heq ▸ hp)⟩

/-- Outside the shield of a resolution with more withheld, its pairing finds the same entry. -/
theorem Withheld.localOf_eq {L' : LocalInventory} {refused refused' : List SkippedEntry}
    (h : Withheld L L' refused refused') (closed : L.entries.ParentClosed LocalEntry.kind)
    (distinct : L.entries.DistinctFolds) {p : RelPath}
    (hp : (resolveSpellings L' R rules delete refused').blocked.covers p = false) :
    (resolve L R rules delete refused).pairs.localOf L p =
      (resolve L' R rules delete refused').pairs.localOf L' p := by
  have hloc : (resolveSpellings L' R rules delete refused').blocked.covers
      ((resolve L R rules delete refused).pairs.localRelative p) = false := by
    rw [Shield.covers_congr (fold_localRelative_resolve p)]
    exact hp
  rw [Correspondence.localOf, Correspondence.localOf,
    ← localRelative_eq_of_not_covers h closed distinct hp]
  exact get?_eq_of_not_covers h hloc

/-- What a mirror run could delete, asked of two resolutions of which one has more withheld. -/
theorem isDeletionGuardCandidate_of_withheld {L' : LocalInventory}
    {refused refused' : List SkippedEntry} (h : Withheld L L' refused refused')
    (closed : L.entries.ParentClosed LocalEntry.kind) (distinct : L.entries.DistinctFolds)
    {e : RemoteEntry}
    (he : (resolve L' R rules delete refused').shield.covers e.relative = false) :
    isDeletionGuardCandidate L rules (resolve L R rules delete refused) incomplete e =
      isDeletionGuardCandidate L' rules (resolve L' R rules delete refused') incomplete e := by
  have hblocked : (resolveSpellings L' R rules delete refused').blocked.covers e.relative = false :=
    Bool.eq_false_iff.mpr fun hcov => by
      rw [covers_resolve_of_blocked hcov] at he
      cases he
  have hcov : (resolve L R rules delete refused).shield.covers e.relative = false :=
    Bool.eq_false_iff.mpr fun hcov => by
      rw [covers_of_covers h closed distinct hcov] at he
      cases he
  have hfile : hasLocalFileAncestor e.relative L = hasLocalFileAncestor e.relative L' := by
    rw [Bool.eq_iff_iff, hasLocalFileAncestor, hasLocalFileAncestor]
    simp only [List.any_eq_true]
    refine exists_congr fun a => and_congr_right fun ha => ?_
    have hacov : (resolveSpellings L' R rules delete refused').blocked.covers a = false :=
      Bool.eq_false_iff.mpr fun hcov => by
        rw [Shield.covers_of_atOrUnder (.inr ha) hcov] at hblocked
        cases hblocked
    rw [get?_eq_of_not_covers h hacov]
  rw [Bool.eq_iff_iff, isDeletionGuardCandidate_iff, isDeletionGuardCandidate_iff,
    isProtected_eq_of_not_covers h closed distinct hblocked, hcov, he,
    isLeftover_eq_of_not_covers h closed distinct hblocked,
    h.localOf_eq closed distinct hblocked, hfile]

theorem mem_strong_of_deletable (scanned : L.Scanned rules) {refused : List SkippedEntry}
    {serverCopy : Bool} {e : RemoteEntry} (he : e ∈ R.entries.values) (hfile : e.kind = .file)
    (hsize : e.size ≠ 0)
    (hprot : isProtected e rules
      (resolve (withholdByListing L R rules true incomplete) R rules true refused).pairs = false)
    (hcov : (resolve (withholdByListing L R rules true incomplete) R rules true
      refused).shield.covers e.relative = false)
    (hleft : (resolve (withholdByListing L R rules true incomplete) R rules true
      refused).isLeftover e.relative = false)
    (hloc : ∀ y, (resolve (withholdByListing L R rules true incomplete) R rules true
      refused).pairs.localOf (withholdByListing L R rules true incomplete) e.relative = some y →
        y.kind ≠ .file) :
    e.relative ∈ (selectPlanDigests (withholdByListing L R rules true incomplete) R rules
      serverCopy true incomplete).2 := by
  have scanned' : (withholdByListing L R rules true incomplete).Scanned rules :=
    scanned_withholdByListing scanned
  have hguard : e.relative ∈ deletionGuardCandidates (withholdByListing L R rules true incomplete) R
      rules (resolve (withholdByListing L R rules true incomplete) R rules true []) incomplete := by
    rw [mem_deletionGuardCandidates he,
      isDeletionGuardCandidate_of_withheld (withheld_of_refused _ refused) scanned'.closed
        scanned'.distinct hcov]
    by_contra hno
    -- then the short listing withholds it, so it is shielded
    have hwithheld : e.relative ∈ deletionsWithheldByListing L R rules incomplete := by
      rw [mem_deletionsWithheldByListing he,
        isDeletionGuardCandidate_of_withheld (withheld_withholdByListing refused) scanned.closed
          scanned.distinct hcov,
        isDeletionGuardCandidate_of_withheld (withheld_withholdByListing refused) scanned.closed
          scanned.distinct hcov]
      refine ⟨isDeletionGuardCandidate_iff.mpr ⟨⟨hfile, hsize, hprot, hcov, hleft, hloc⟩, .inl rfl⟩,
        Bool.not_eq_true _ ▸ hno⟩
    have hskip : (⟨e.relative, listingIncompleteReason⟩ : SkippedEntry) ∈
        (withholdByListing L R rules true incomplete).skipped ++ refused :=
      List.mem_append_left _ (mem_skipped_withholdByListing.mpr (.inr ⟨rfl, _, hwithheld, rfl⟩))
    rw [covers_resolve_of_blocked (covers_blocked_of_skip hskip (.inl rfl))] at hcov
    cases hcov
  simp only [selectPlanDigests, strongCandidates]
  split
  · exact hguard
  · exact List.mem_append_left _ hguard

theorem mem_comparisonCandidates {resolution : Resolution} {p : RelPath} :
    p ∈ comparisonCandidates L R rules resolution ↔ ∃ x ∈ L.entries.values,
      (x.kind = .file ∧ x.size ≠ 0 ∧ resolution.shield.covers x.relative = false) ∧
      ∃ r, resolution.pairs.remoteOf R x.relative = some r ∧ r.relative = p ∧ r.kind = .file ∧
        r.size = x.size ∧ isExcludedFromComparison r rules resolution.pairs = false := by
  simp only [comparisonCandidates, List.mem_filterMap]
  refine exists_congr fun x => and_congr_right fun _ => ?_
  by_cases hx : x.kind ≠ .file ∨ x.size = 0 ∨ resolution.shield.covers x.relative = true
  · rw [if_pos hx]
    simp only [reduceCtorEq, false_iff]
    rintro ⟨⟨hk, hs, hc⟩, _⟩
    simp [hk, hs, hc] at hx
  · rw [if_neg hx]
    simp only [not_or, Decidable.not_not, Bool.not_eq_true] at hx
    cases hr : resolution.pairs.remoteOf R x.relative with
    | none => simp
    | some r =>
      simp only [Option.ite_none_right_eq_some, Option.some.injEq, exists_eq_left']
      constructor
      · rintro ⟨⟨hk, hs, he⟩, rfl⟩
        exact ⟨hx, rfl, hk, hs, he⟩
      · rintro ⟨_, rfl, hk, hs, he⟩
        exact ⟨⟨hk, hs, he⟩, rfl⟩

/-- What has to be strong has no local file as its counterpart. -/
theorem not_file_of_mem_strongCandidates {resolution : Resolution} {selection : StrongSelection}
    {p : RelPath} (h : p ∈ strongCandidates L R rules selection resolution) :
    ∀ y, resolution.pairs.localOf L p = some y → y.kind ≠ .file := by
  have hguard : p ∈ deletionGuardCandidates L R rules resolution selection.incomplete →
      ∀ y, resolution.pairs.localOf L p = some y → y.kind ≠ .file := by
    intro hp
    obtain ⟨e, he, rfl⟩ := List.mem_map.mp hp
    exact (isDeletionGuardCandidate_iff.mp (List.mem_filter.mp he).2).1.2.2.2.2.2
  have hguards : p ∈ (if selection.delete = true then
      deletionGuardCandidates L R rules resolution selection.incomplete else []) →
      ∀ y, resolution.pairs.localOf L p = some y → y.kind ≠ .file := by
    intro hp
    split at hp
    · exact hguard hp
    · cases hp
  simp only [strongCandidates] at h
  split at h
  · exact hguards h
  · rcases List.mem_append.mp h with h | h
    · exact hguards h
    · obtain ⟨e, he, rfl⟩ := List.mem_map.mp h
      have hcandidate := (List.mem_filter.mp he).2
      simp only [isCopyCandidate] at hcandidate
      split at hcandidate
      · cases hcandidate
      · rename_i hno
        intro y hy
        simp [hy] at hno

/-- What is compared has a local file as its counterpart, so it does not have to be strong. -/
theorem selectPlanDigests_disjoint (scanned : L.Scanned rules) {serverCopy : Bool} {p : RelPath}
    (h : p ∈ (selectPlanDigests L R rules serverCopy delete incomplete).1) :
    p ∉ (selectPlanDigests L R rules serverCopy delete incomplete).2 := by
  intro hstrong
  obtain ⟨x, hx, ⟨hfile, _, _⟩, r, hr, rfl, _⟩ := mem_comparisonCandidates.mp h
  refine not_file_of_mem_strongCandidates hstrong x ?_ hfile
  rw [Correspondence.localOf, EntryMap.relative_of_get? hr,
    localRelative_remoteRelative scanned.closed scanned.distinct (List.mem_map_of_mem hx)]
  exact EntryMap.mem_values.mp hx

/-- What a local file is compared with is selected, whatever else the destination refuses. -/
theorem mem_comparison_of_not_covers (scanned : L.Scanned rules) {refused : List SkippedEntry}
    {serverCopy : Bool} {x : LocalEntry} (hx : x ∈ L.entries.values) (hfile : x.kind = .file)
    (hsize : x.size ≠ 0)
    (hcov : (resolve L R rules delete refused).shield.covers x.relative = false) {r : RemoteEntry}
    (hr : (resolve L R rules delete refused).pairs.remoteOf R x.relative = some r)
    (hrk : r.kind = .file) (hrs : r.size = x.size) :
    r.relative ∈ (selectPlanDigests L R rules serverCopy delete incomplete).1 := by
  have hw : Withheld L L [] refused := withheld_of_refused L refused
  have hblocked : (resolveSpellings L R rules delete refused).blocked.covers x.relative = false :=
    Bool.eq_false_iff.mpr fun hcov' => by
      rw [covers_resolve_of_blocked hcov'] at hcov
      cases hcov
  have hsel : (resolve L R rules delete []).shield.covers x.relative = false :=
    Bool.eq_false_iff.mpr fun hcov' => by
      rw [covers_of_covers hw scanned.closed scanned.distinct hcov'] at hcov
      cases hcov
  rw [Correspondence.remoteOf,
    ← remoteRelative_eq_of_not_covers hw scanned.closed scanned.distinct hblocked] at hr
  have hrel := EntryMap.relative_of_get? hr
  refine mem_comparisonCandidates.mpr ⟨x, hx, ⟨hfile, hsize, hsel⟩, r, hr, rfl, hrk, hrs, ?_⟩
  have hback : (resolve L R rules delete []).pairs.localRelative r.relative = x.relative := by
    rw [hrel]
    exact localRelative_remoteRelative scanned.closed scanned.distinct (List.mem_map_of_mem hx)
  have hmount : r.mountPointType = none := by
    cases hm : r.mountPointType with
    | none => rfl
    | some mountType =>
      rw [covers_resolve_of_conflicts hx ⟨r, hr, by simp [typeConflict, hm]⟩] at hsel
      cases hsel
  have hmanaged := scanned.notManaged x hx
  have hignored := scanned.notIgnored x hx
  have hexcluded : pairedExclusion rules (resolve L R rules delete []).pairs x = false :=
    Bool.eq_false_iff.mpr fun h => by
      rw [covers_resolve_of_pairedExclusion hx h] at hsel
      cases hsel
  simp only [hfile, reduceCtorEq, decide_false] at hignored
  have hname : isDsmManaged r.relative = false ∧ rules.isIgnored r.relative false = false := by
    by_cases heq : r.relative = x.relative
    · rw [heq]
      exact ⟨hmanaged, hignored⟩
    · simp only [pairedExclusion, hfile, ← hrel, ne_eq, heq, not_false_iff, decide_true,
        Bool.true_and, reduceCtorEq, decide_false, Bool.or_eq_false_iff] at hexcluded
      exact hexcluded
  simp [isExcludedFromComparison, hmount, hname.1, hname.2, hrk, hback, hmanaged, hignored]

end Selection

end DriveSync
