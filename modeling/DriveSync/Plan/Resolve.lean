import DriveSync.Plan.Decide

/-!
# DriveSync.Plan.Resolve

Every spelling and every type conflict of a local and a remote inventory, resolved once for digest
selection and planning.

* `resolve`: the classes decided, the pairing built, then two passes over the local entries that
  shield what the rules exclude under its paired spelling and what no run can replace.
* `shield_resolve`: what the shield of a resolution holds, and why.
* `toRemote_resolve`, `toLocal_resolve`: what its pairing holds.
-/

namespace DriveSync

open Path

/-- What a plan decided about spellings. -/
structure Resolution where
  pairs : Correspondence
  shield : Shield
  skipped : List SkippedEntry
  /-- Case-only renames, local then remote spelling, deepest first. -/
  renames : List (RelPath × RelPath)
  /-- Spellings the NAS holds beside the one the source holds: the old one, then the kept one. -/
  leftovers : List (RelPath × RelPath)

/-- Whether a path is a leftover old spelling, or lies beneath one. -/
def Resolution.isLeftover (resolution : Resolution) (relative : RelPath) : Bool :=
  resolution.leftovers.any fun leftover => decide (AtOrUnder leftover.1 relative)

section Resolve

variable [Unicode]

/-- Whether the rules exclude a local entry under its paired NAS spelling. -/
def pairedExclusion (rules : IgnoreRules) (pairs : Correspondence) (entry : LocalEntry) : Bool :=
  let remoteRelative := pairs.remoteRelative entry.relative
  decide (remoteRelative ≠ entry.relative) &&
    (isDsmManaged remoteRelative || rules.isIgnored remoteRelative (entry.kind = .directory))

/-- Keep out of the plan every local entry whose paired NAS spelling the rules exclude. -/
def shieldPairedExclusions (L : LocalInventory) (rules : IgnoreRules)
    (resolution : Resolution) : Resolution :=
  { resolution with
    shield := L.entries.values.foldl
      (fun shield entry =>
        if shield.covers entry.relative then shield
        else if pairedExclusion rules resolution.pairs entry then
          shield.insert (portableFold entry.relative)
        else shield)
      resolution.shield }

/-- The skip of a local entry where the NAS holds a mount point or a link. -/
def mountReason (mountType : String) (remotePath : RelPath) : SkipReason :=
  if mountType = linkedEntryMountType then .remoteLink remotePath
  else if mountType = unlistableEntryMountType then
    .deferred ("remote-unreadable: " ++ quoteAbsolute remotePath ++
      " cannot be listed by this account; nothing is uploaded, compared or deleted beneath it; " ++
      "grant this account list permission on it or exclude it")
  else
    .typeConflict ("the NAS entry " ++ quoteAbsolute remotePath ++ " is a mount point (" ++
      mountType ++ "); nothing is written at or beneath it, and nothing there is deleted")

/-- Why a local entry and the remote one at its path cannot both be carried, if they cannot. -/
def typeConflict (R : RemoteInventory) (rules : IgnoreRules) (delete : Bool)
    (pairs : Correspondence) (shield : Shield) (entry : LocalEntry) (remote : RemoteEntry) :
    Option SkipReason :=
  match remote.mountPointType with
  | some mountType => some (mountReason mountType remote.remotePath)
  | none =>
    if entry.kind = remote.kind then none
    else if !delete then
      some (.typeConflict ("the source holds a " ++ entry.kind.asStr ++ " where the NAS holds a " ++
        remote.kind.asStr ++ "; run with --delete to replace the NAS " ++ remote.kind.asStr))
    else if remote.kind = .directory then
      ((R.entries.subtree remote.relative).find? fun candidate =>
          isProtected candidate rules pairs || shield.covers candidate.relative).map
        fun kept => .typeConflict ("the source holds a file where the NAS folder holds " ++
          quoteRelative kept.relative ++ ", which is excluded, DSM-managed, mounted or skipped " ++
          "and is never deleted, so the folder cannot be replaced; remove that entry in File Station")
    else none

def shieldTypeConflict (R : RemoteInventory) (rules : IgnoreRules) (delete : Bool)
    (resolution : Resolution) (entry : LocalEntry) : Resolution :=
  if resolution.shield.covers entry.relative then resolution
  else
    match resolution.pairs.remoteOf R entry.relative with
    | none => resolution
    | some remote =>
      match typeConflict R rules delete resolution.pairs resolution.shield entry remote with
      | none => resolution
      | some reason =>
        { resolution with
          shield := resolution.shield.insert (portableFold entry.relative)
          skipped := resolution.skipped ++ [⟨entry.relative, reason⟩] }

/-- Skip, and shield, every kind conflict this run cannot carry. -/
def shieldTypeConflicts (L : LocalInventory) (R : RemoteInventory) (rules : IgnoreRules)
    (delete : Bool) (resolution : Resolution) : Resolution :=
  L.entries.values.foldl (shieldTypeConflict R rules delete) resolution

/-- The resolution before the two passes over the local entries. -/
def resolvePairs (L : LocalInventory) (R : RemoteInventory) (rules : IgnoreRules) (delete : Bool)
    (refused : List SkippedEntry) : Resolution :=
  let s := resolveSpellings L R rules delete refused
  ⟨(Correspondence.build L R).insertAll s.renames, s.blocked, s.skipped, s.renames, s.leftovers⟩

def resolve (L : LocalInventory) (R : RemoteInventory) (rules : IgnoreRules) (delete : Bool)
    (refused : List SkippedEntry) : Resolution :=
  shieldTypeConflicts L R rules delete
    (shieldPairedExclusions L rules (resolvePairs L R rules delete refused))

variable {L : LocalInventory} {R : RemoteInventory} {rules : IgnoreRules} {delete : Bool}
  {refused : List SkippedEntry}

/-! ## The two passes over the local entries -/

/-- A pass only shields folds of local entries, each for a reason `why` gives. -/
structure Shield.Grown (L : LocalInventory) (why : LocalEntry → Prop) (before after : Shield) :
    Prop where
  kept : ∀ f ∈ before.folds, f ∈ after.folds
  added : ∀ f ∈ after.folds, f ∈ before.folds ∨
    ∃ x ∈ L.entries.values, portableFold x.relative = f ∧ why x

theorem shieldPairedExclusions_grown (resolution : Resolution) :
    Shield.Grown L (fun x => pairedExclusion rules resolution.pairs x = true)
      resolution.shield (shieldPairedExclusions L rules resolution).shield := by
  refine List.foldlRecOn
    (motive := fun s => Shield.Grown L
      (fun x => pairedExclusion rules resolution.pairs x = true) resolution.shield s) _ _
    ⟨fun f hf => hf, fun f hf => .inl hf⟩ ?_
  intro s h x hx
  split
  · exact h
  · split
    · rename_i hex
      refine ⟨fun f hf => Shield.mem_insert.mpr (.inr (h.kept f hf)), fun f hf => ?_⟩
      rcases Shield.mem_insert.mp hf with rfl | hf
      · exact .inr ⟨x, hx, rfl, hex⟩
      · exact h.added f hf
    · exact h

/-- A pass over the local entries leaves each either shielded or without a reason to be. -/
theorem covers_or_not_pairedExclusion (resolution : Resolution) {x : LocalEntry}
    (hx : x ∈ L.entries.values) :
    (shieldPairedExclusions L rules resolution).shield.covers x.relative = true ∨
      pairedExclusion rules resolution.pairs x = false := by
  refine Loop.foldl_establish (I := fun _ => True)
    (Q := fun s : Shield => s.covers x.relative = true ∨
      pairedExclusion rules resolution.pairs x = false) trivial (fun _ _ _ _ => trivial) ?_ hx ?_
  · rintro s y hy - (hs | hs)
    · left
      split
      · exact hs
      · split
        · exact Shield.covers_of_subset (fun f hf => Shield.mem_insert.mpr (.inr hf)) hs
        · exact hs
    · exact .inr hs
  · rintro s -
    split
    · rename_i hs; exact .inl hs
    · split
      · exact .inl (Shield.covers_insert s _)
      · rename_i hex; exact .inr (Bool.not_eq_true _ ▸ hex)

/-- What the pass over the type conflicts has done so far. -/
structure ConflictsShielded (L : LocalInventory) (R : RemoteInventory) (rules : IgnoreRules)
    (delete : Bool) (before after : Resolution) : Prop where
  pairs : after.pairs = before.pairs
  renames : after.renames = before.renames
  leftovers : after.leftovers = before.leftovers
  grown : Shield.Grown L
    (fun x => ∃ rep ∈ after.skipped, rep.relative = x.relative) before.shield after.shield
  skipped_kept : ∀ rep ∈ before.skipped, rep ∈ after.skipped
  skipped : ∀ rep ∈ after.skipped, rep ∈ before.skipped ∨
    (∃ x ∈ L.entries.values, x.relative = rep.relative) ∧ after.shield.covers rep.relative = true

theorem shieldTypeConflict_step {before s : Resolution} {x : LocalEntry}
    (hx : x ∈ L.entries.values) (h : ConflictsShielded L R rules delete before s) :
    ConflictsShielded L R rules delete before (shieldTypeConflict R rules delete s x) := by
  simp only [shieldTypeConflict]
  split
  · exact h
  · split
    · exact h
    · split
      · exact h
      · refine ⟨h.pairs, h.renames, h.leftovers,
          ⟨fun f hf => Shield.mem_insert.mpr (.inr (h.grown.kept f hf)), ?_⟩,
          fun rep hrep => List.mem_append_left _ (h.skipped_kept rep hrep), ?_⟩
        · intro f hf
          rcases Shield.mem_insert.mp hf with rfl | hf
          · exact .inr ⟨x, hx, rfl, _, List.mem_append_right _ (.head _), rfl⟩
          · refine (h.grown.added f hf).imp id ?_
            rintro ⟨y, hy, hyf, rep, hrep, heq⟩
            exact ⟨y, hy, hyf, rep, List.mem_append_left _ hrep, heq⟩
        · intro rep hrep
          rcases List.mem_append.mp hrep with hrep | hrep
          · refine (h.skipped rep hrep).imp id ?_
            rintro ⟨hex, hcov⟩
            refine ⟨hex, ?_⟩
            exact Shield.covers_of_subset (fun f hf => Shield.mem_insert.mpr (.inr hf)) hcov
          · obtain rfl := List.mem_singleton.mp hrep
            exact .inr ⟨⟨x, hx, rfl⟩, Shield.covers_insert _ _⟩

theorem shieldTypeConflicts_spec (before : Resolution) :
    ConflictsShielded L R rules delete before
      (shieldTypeConflicts L R rules delete before) := by
  refine List.foldlRecOn (motive := ConflictsShielded L R rules delete before) _ _ ?_
    fun s h x hx => shieldTypeConflict_step hx h
  exact ⟨rfl, rfl, rfl, ⟨fun f hf => hf, fun f hf => .inl hf⟩, fun rep hrep => hrep,
    fun rep hrep => .inl hrep⟩

/-! ## The pairing of a resolution -/

/-- The renames a resolution carries, before they are put in order. -/
abbrev renamesOf (L : LocalInventory) (R : RemoteInventory) (rules : IgnoreRules) (delete : Bool)
    (refused : List SkippedEntry) : List (RelPath × RelPath) :=
  (resolveSpellings L R rules delete refused).renames

theorem resolve_spec : ConflictsShielded L R rules delete
    (shieldPairedExclusions L rules (resolvePairs L R rules delete refused))
    (resolve L R rules delete refused) := by
  rw [resolve]; exact shieldTypeConflicts_spec _

theorem pairs_resolve : (resolve L R rules delete refused).pairs =
    (Correspondence.build L R).insertAll (renamesOf L R rules delete refused) := by
  rw [resolve_spec.pairs, shieldPairedExclusions, resolvePairs]

theorem renames_resolve :
    (resolve L R rules delete refused).renames = renamesOf L R rules delete refused := by
  rw [resolve_spec.renames, shieldPairedExclusions, resolvePairs]

theorem leftovers_resolve : (resolve L R rules delete refused).leftovers =
    (resolveSpellings L R rules delete refused).leftovers := by
  rw [resolve_spec.leftovers, shieldPairedExclusions, resolvePairs]

theorem shield_resolvePairs : (resolvePairs L R rules delete refused).shield =
    (resolveSpellings L R rules delete refused).blocked := by rw [resolvePairs]

theorem skipped_resolvePairs : (resolvePairs L R rules delete refused).skipped =
    (resolveSpellings L R rules delete refused).skipped := by rw [resolvePairs]

theorem covers_resolve_of_blocked {p : RelPath}
    (h : (resolveSpellings L R rules delete refused).blocked.covers p = true) :
    (resolve L R rules delete refused).shield.covers p = true := by
  rw [← shield_resolvePairs] at h
  exact Shield.covers_of_subset resolve_spec.grown.kept
    (Shield.covers_of_subset (shieldPairedExclusions_grown _).kept h)

theorem renames_right_unique {x r r' : RelPath} (h : (x, r) ∈ renamesOf L R rules delete refused)
    (h' : (x, r') ∈ renamesOf L R rules delete refused) : r = r' :=
  (mem_renames.mp h').2.1.onlyRemote r (mem_renames.mp h).2.1.isRemote (mem_renames.mp h).2.1.fold_eq

theorem renames_left_unique {x x' r : RelPath} (h : (x, r) ∈ renamesOf L R rules delete refused)
    (h' : (x', r) ∈ renamesOf L R rules delete refused) : x = x' := by
  have hx := (mem_renames.mp h).2.1
  have hx' := (mem_renames.mp h').2.1
  exact hx'.onlyLocal x hx.isLocal (hx.fold_eq.symm.trans hx'.fold_eq)

/-- No NAS spelling is the partner of one local name by normalisation and of another by case. -/
theorem not_mem_renames_of_nfcPair {x x' r : RelPath} (h : Correspondence.NfcPair L R x r) :
    (x', r) ∉ renamesOf L R rules delete refused := by
  intro hren
  have hren := (mem_renames.mp hren).2.1
  have hfold : portableFold x = portableFold x' :=
    (portableFold_eq_of_nfc_eq h.nfc_eq).symm.trans hren.fold_eq
  obtain rfl := hren.onlyLocal x (isLocalSpelling_of_mem_keys h.isLocal) hfold
  exact hren.nfc_ne h.nfc_eq.symm

/-- A local spelling is mapped to its case-only rename, else to its only spelling under NFC. -/
theorem toRemote_resolve {x r : RelPath} :
    (resolve L R rules delete refused).pairs.toRemote[x]? = some r ↔
      (x, r) ∈ renamesOf L R rules delete refused ∨
        (∀ r', (x, r') ∉ renamesOf L R rules delete refused) ∧
          Correspondence.NfcPair L R x r := by
  rw [pairs_resolve, Correspondence.toRemote_insertAll _ fun _ _ _ => renames_right_unique,
    Correspondence.toRemote_build]

theorem toLocal_resolve {x r : RelPath} :
    (resolve L R rules delete refused).pairs.toLocal[r]? = some x ↔
      (x, r) ∈ renamesOf L R rules delete refused ∨ Correspondence.NfcPair L R x r := by
  rw [pairs_resolve, Correspondence.toLocal_insertAll _ fun _ _ _ => renames_left_unique,
    Correspondence.toLocal_build]
  constructor
  · exact Or.imp id And.right
  · exact Or.imp id fun h => ⟨fun x' => not_mem_renames_of_nfcPair h, h⟩

/-- A resolution pairs spellings of one fold only. -/
theorem foldPreserving_resolve : (resolve L R rules delete refused).pairs.FoldPreserving := by
  constructor
  · intro x r h
    rcases toRemote_resolve.mp h with h | ⟨_, h⟩
    · exact (mem_renames.mp h).2.1.fold_eq
    · exact portableFold_eq_of_nfc_eq h.nfc_eq
  · intro r x h
    rcases toLocal_resolve.mp h with h | h
    · exact (mem_renames.mp h).2.1.fold_eq.symm
    · exact (portableFold_eq_of_nfc_eq h.nfc_eq).symm

@[simp] theorem fold_remoteRelative_resolve (p : RelPath) :
    portableFold ((resolve L R rules delete refused).pairs.remoteRelative p) = portableFold p :=
  Correspondence.fold_remoteRelative foldPreserving_resolve p

@[simp] theorem fold_localRelative_resolve (p : RelPath) :
    portableFold ((resolve L R rules delete refused).pairs.localRelative p) = portableFold p :=
  Correspondence.fold_localRelative foldPreserving_resolve p

/-- A shield covers a path and its counterpart alike. -/
theorem covers_remoteRelative {shield : Shield} (p : RelPath) :
    shield.covers ((resolve L R rules delete refused).pairs.remoteRelative p) = shield.covers p :=
  Shield.covers_congr (fold_remoteRelative_resolve p)

section Closed

variable (closed : L.entries.ParentClosed LocalEntry.kind) (distinct : L.entries.DistinctFolds)

include distinct in
theorem eq_of_fold_eq {x y : RelPath} (hx : x ∈ L.entries.keys) (hy : y ∈ L.entries.keys)
    (h : portableFold x = portableFold y) : x = y := by
  obtain ⟨e, he⟩ := EntryMap.mem_keys.mp hx
  obtain ⟨d, hd⟩ := EntryMap.mem_keys.mp hy
  have hrx := EntryMap.relative_of_get? he
  have hry := EntryMap.relative_of_get? hd
  have := distinct e (EntryMap.mem_values_of_get? he) d (EntryMap.mem_values_of_get? hd)
    (by rw [hrx, hry]; exact h)
  rw [← hrx, ← hry, this]

include closed in
theorem mem_keys_of_paired {x r : RelPath}
    (h : (x, r) ∈ renamesOf L R rules delete refused ∨ Correspondence.NfcPair L R x r) :
    x ∈ L.entries.keys := by
  rcases h with h | h
  · exact mem_keys_of_isLocalSpelling closed (mem_renames.mp h).2.1.isLocal
  · exact h.isLocal

include closed distinct in
/-- The reverse pairing undoes the pairing, on every local path. -/
theorem localRelative_remoteRelative {x : RelPath} (hx : x ∈ L.entries.keys) :
    (resolve L R rules delete refused).pairs.localRelative
      ((resolve L R rules delete refused).pairs.remoteRelative x) = x := by
  refine inherit_inherit (f := foldName) (K := (· ∈ L.entries.keys)) ?_
    (fun p q hp hq h => eq_of_fold_eq distinct hp hq h) ?_ ?_ (.inr hx)
  · intro p n hp
    by_cases hroot : p = .root
    · exact .inl hroot
    · right
      refine mem_keys_of_isLocalSpelling closed ⟨_, hp, .inr ?_⟩
      exact mem_ancestors_child.mpr ⟨hroot, .inl rfl⟩
  · intro p r h
    refine ⟨foldPreserving_resolve.1 p r h, toLocal_resolve.mpr ?_⟩
    exact (toRemote_resolve.mp h).imp id And.right
  · intro r p h
    have hpair := toLocal_resolve.mp h
    refine ⟨mem_keys_of_paired closed hpair, (foldPreserving_resolve.2 r p h).symm, ?_⟩
    by_cases hren : ∃ r', (p, r') ∈ renamesOf L R rules delete refused
    · obtain ⟨r', hr'⟩ := hren
      exact ⟨r', toRemote_resolve.mpr (.inl hr')⟩
    · refine ⟨r, toRemote_resolve.mpr (.inr ⟨fun r' hr' => hren ⟨r', hr'⟩, ?_⟩)⟩
      exact hpair.resolve_left fun h => hren ⟨r, h⟩

include closed distinct in
theorem remoteRelative_injective {x y : RelPath} (hx : x ∈ L.entries.keys)
    (hy : y ∈ L.entries.keys)
    (h : (resolve L R rules delete refused).pairs.remoteRelative x =
      (resolve L R rules delete refused).pairs.remoteRelative y) : x = y := by
  calc x = (resolve L R rules delete refused).pairs.localRelative
        ((resolve L R rules delete refused).pairs.remoteRelative x) :=
        (localRelative_remoteRelative closed distinct hx).symm
    _ = y := by rw [h, localRelative_remoteRelative closed distinct hy]

end Closed

/-! ## The shield of a resolution -/

/-- A shield that covers more, or more entries protected, leaves no conflict behind. -/
theorem isSome_typeConflict_mono {pairs pairs' : Correspondence} {s s' : Shield} {x : LocalEntry}
    {r : RemoteEntry} (h : (typeConflict R rules delete pairs s x r).isSome = true)
    (grown : x.kind = .file → ∀ e ∈ R.entries.subtree r.relative,
      isProtected e rules pairs = true ∨ s.covers e.relative = true →
        isProtected e rules pairs' = true ∨ s'.covers e.relative = true) :
    (typeConflict R rules delete pairs' s' x r).isSome = true := by
  simp only [typeConflict] at h ⊢
  split at h
  · rfl
  · split at h
    · cases h
    · rename_i hkind
      rw [if_neg hkind]
      split at h
      · rename_i hdelete
        rw [if_pos hdelete]
        rfl
      · rename_i hdelete
        rw [if_neg hdelete]
        split at h
        · rename_i hdir
          rw [if_pos hdir]
          simp only [Option.isSome_map, List.find?_isSome, Bool.or_eq_true] at h ⊢
          obtain ⟨e, he, hkept⟩ := h
          have hfile : x.kind = .file := by
            cases hk : x.kind with
            | file => rfl
            | directory => exact absurd (hk.trans hdir.symm) hkind
          exact ⟨e, he, grown hfile e he hkept⟩
        · cases h

variable (L R rules delete refused) in
/-- Whether a local entry conflicts with the remote one at its path, asked with the shield the
classes leave. -/
def Conflicts (x : LocalEntry) : Prop :=
  ∃ r, (resolve L R rules delete refused).pairs.remoteOf R x.relative = some r ∧
    (typeConflict R rules delete (resolve L R rules delete refused).pairs
      (resolveSpellings L R rules delete refused).blocked x r).isSome = true

theorem covers_resolve_of_pairedExclusion {x : LocalEntry} (hx : x ∈ L.entries.values)
    (h : pairedExclusion rules (resolve L R rules delete refused).pairs x = true) :
    (resolve L R rules delete refused).shield.covers x.relative = true := by
  refine Shield.covers_of_subset resolve_spec.grown.kept ?_
  refine (covers_or_not_pairedExclusion _ hx).resolve_right ?_
  rw [pairs_resolve] at h
  rw [resolvePairs, h]
  exact Bool.noConfusion

theorem covers_resolve_of_conflicts {x : LocalEntry} (hx : x ∈ L.entries.values)
    (h : Conflicts L R rules delete refused x) :
    (resolve L R rules delete refused).shield.covers x.relative = true := by
  obtain ⟨r, hr, hconflict⟩ := h
  rw [resolve, shieldTypeConflicts]
  refine Loop.foldl_establish
    (I := fun s : Resolution => s.pairs = (resolve L R rules delete refused).pairs ∧
      ∀ p, (resolveSpellings L R rules delete refused).blocked.covers p = true →
        s.shield.covers p = true)
    (Q := fun s : Resolution => s.shield.covers x.relative = true) ?_ ?_ ?_ hx ?_
  · refine ⟨?_, fun p hp => ?_⟩
    · rw [resolve_spec.pairs]
    · rw [← shield_resolvePairs] at hp
      exact Shield.covers_of_subset (shieldPairedExclusions_grown _).kept hp
  · rintro s y - ⟨hpairs, hblocked⟩
    simp only [shieldTypeConflict]
    split
    · exact ⟨hpairs, hblocked⟩
    · split
      · exact ⟨hpairs, hblocked⟩
      · split
        · exact ⟨hpairs, hblocked⟩
        · refine ⟨hpairs, fun p hp => ?_⟩
          exact Shield.covers_of_subset (fun f hf => Shield.mem_insert.mpr (.inr hf))
            (hblocked p hp)
  · rintro s y - - hs
    simp only [shieldTypeConflict]
    split
    · exact hs
    · split
      · exact hs
      · split
        · exact hs
        · exact Shield.covers_of_subset (fun f hf => Shield.mem_insert.mpr (.inr hf)) hs
  · rintro s ⟨hpairs, hblocked⟩
    have hsome : (typeConflict R rules delete s.pairs s.shield x r).isSome = true := by
      rw [hpairs]
      exact isSome_typeConflict_mono hconflict fun _ e _ => Or.imp id (hblocked e.relative)
    obtain ⟨reason, hreason⟩ := Option.isSome_iff_exists.mp hsome
    simp only [shieldTypeConflict]
    split
    · rename_i hcov
      exact hcov
    · rw [hpairs, hr]
      rw [hpairs] at hreason
      simp only [hreason]
      exact Shield.covers_insert _ _

section Closed

variable (closed : L.entries.ParentClosed LocalEntry.kind) (distinct : L.entries.DistinctFolds)

include closed distinct in
/-- A local file has no local path of another fold beneath its own. -/
theorem eq_of_fold_beneath_file {x y : LocalEntry} (hx : x ∈ L.entries.values)
    (hfile : x.kind = .file) (hy : y ∈ L.entries.values)
    (h : AtOrUnder (portableFold x.relative) (portableFold y.relative)) : y = x := by
  obtain ⟨a, ha, hfold⟩ := exists_of_atOrUnder_map h
  rcases ha with rfl | ha
  · exact distinct y hy x hx hfold
  · obtain ⟨d, hd, hdk⟩ := closed y hy a ha
    have hdx : d = x := distinct d (EntryMap.mem_values_of_get? hd) x hx (by
      rw [EntryMap.relative_of_get? hd]
      exact hfold)
    rw [hdx, hfile] at hdk
    cases hdk

include closed distinct in
/-- What else the pass has shielded lies elsewhere than beneath an entry in conflict, so the shield
the classes leave finds the conflict too. -/
theorem conflicts_of_typeConflict {shield : Shield} {x : LocalEntry} {r : RemoteEntry}
    (hx : x ∈ L.entries.values)
    (hr : (resolve L R rules delete refused).pairs.remoteOf R x.relative = some r)
    (hcov : shield.covers x.relative = false)
    (hfolds : ∀ f ∈ shield.folds, f ∈ (resolveSpellings L R rules delete refused).blocked.folds ∨
      ∃ y ∈ L.entries.values, portableFold y.relative = f)
    (h : (typeConflict R rules delete (resolve L R rules delete refused).pairs shield x r).isSome =
      true) : Conflicts L R rules delete refused x := by
  refine ⟨r, hr, isSome_typeConflict_mono h fun hfile e he => Or.imp id fun hecov => ?_⟩
  obtain ⟨f, hf, hfe⟩ := Shield.coversFold_iff.mp hecov
  have hrx : portableFold r.relative = portableFold x.relative := by
    rw [EntryMap.relative_of_get? hr]
    exact fold_remoteRelative_resolve x.relative
  have hxe : AtOrUnder (portableFold x.relative) (portableFold e.relative) :=
    hrx ▸ (EntryMap.mem_subtree.mp he).2.map
  rcases hfolds f hf with hblocked | ⟨y, hy, rfl⟩
  · exact Shield.coversFold_iff.mpr ⟨f, hblocked, hfe⟩
  · -- `y` lies above `x`, which then is shielded, or beneath it, which is a file
    exfalso
    have hself : shield.covers y.relative = true := Shield.coversFold_iff.mpr ⟨_, hf, .inl rfl⟩
    rcases atOrUnder_total hfe hxe with hyx | hxy
    · rw [Shield.covers, Shield.coversFold_of_atOrUnder hyx hself] at hcov
      cases hcov
    · rw [eq_of_fold_beneath_file closed distinct hx hfile hy hxy, hcov] at hself
      cases hself

include closed distinct in
/-- Why a resolution shields a path. -/
theorem covers_resolve_cases {p : RelPath}
    (h : (resolve L R rules delete refused).shield.covers p = true) :
    (resolveSpellings L R rules delete refused).blocked.covers p = true ∨
      ∃ x ∈ L.entries.values, AtOrUnder (portableFold x.relative) (portableFold p) ∧
        (pairedExclusion rules (resolve L R rules delete refused).pairs x = true ∨
          Conflicts L R rules delete refused x) := by
  have hloop : (resolve L R rules delete refused).pairs = (resolve L R rules delete refused).pairs ∧
      ∀ f ∈ (resolve L R rules delete refused).shield.folds,
        f ∈ (resolveSpellings L R rules delete refused).blocked.folds ∨
          ∃ x ∈ L.entries.values, portableFold x.relative = f ∧
            (pairedExclusion rules (resolve L R rules delete refused).pairs x = true ∨
              Conflicts L R rules delete refused x) := by
    refine List.foldlRecOn (motive := fun s : Resolution =>
      s.pairs = (resolve L R rules delete refused).pairs ∧
      ∀ f ∈ s.shield.folds,
        f ∈ (resolveSpellings L R rules delete refused).blocked.folds ∨
          ∃ x ∈ L.entries.values, portableFold x.relative = f ∧
            (pairedExclusion rules (resolve L R rules delete refused).pairs x = true ∨
              Conflicts L R rules delete refused x))
      L.entries.values (shieldTypeConflict R rules delete)
      (b := shieldPairedExclusions L rules (resolvePairs L R rules delete refused))
      ⟨resolve_spec.pairs.symm, fun f hf => ?_⟩ ?_
    · refine ((shieldPairedExclusions_grown _).added f hf).imp id ?_
      rintro ⟨x, hx, hxf, hwhy⟩
      rw [pairs_resolve]
      exact ⟨x, hx, hxf, .inl hwhy⟩
    · rintro s ⟨hpairs, hfolds⟩ x hx
      simp only [shieldTypeConflict]
      split
      · exact ⟨hpairs, hfolds⟩
      · rename_i hcov
        split
        · exact ⟨hpairs, hfolds⟩
        · rename_i r hr
          split
          · exact ⟨hpairs, hfolds⟩
          · rename_i reason hreason
            refine ⟨hpairs, fun f hf => ?_⟩
            rcases Shield.mem_insert.mp hf with rfl | hf
            · refine .inr ⟨x, hx, rfl, .inr ?_⟩
              rw [hpairs] at hr hreason
              exact conflicts_of_typeConflict closed distinct hx hr (Bool.not_eq_true _ ▸ hcov)
                (fun f hf => (hfolds f hf).imp id fun ⟨y, hy, hyf, _⟩ => ⟨y, hy, hyf⟩)
                (by rw [hreason]; rfl)
            · exact hfolds f hf
  obtain ⟨f, hf, hfp⟩ := Shield.coversFold_iff.mp h
  rcases hloop.2 f hf with hf | ⟨x, hx, rfl, hwhy⟩
  · exact .inl (Shield.coversFold_iff.mpr ⟨f, hf, hfp⟩)
  · exact .inr ⟨x, hx, hfp, hwhy⟩

end Closed

end Resolve

end DriveSync
