import DriveSync.Plan.Renames
import DriveSync.Sync.Deletions

/-!
# DriveSync.Sync.Replacing

What a plan writes in the place of an entry of the other kind, and what is deleted first to make
room for it.

* `SyncPlan.writeTargets`, `SyncPlan.replacements`: the writes of a plan, by the path they are left
  by and the path of the NAS they go to.
* `SpelledAlike`: every replaced entry is spelled on the NAS as it is in the source.
* `Planned.made_room`: what goes where a deletion makes room lies beneath the entry that replaces
  it.
-/

namespace DriveSync

open Path

/-! ## Where writes go -/

/-- The path a planned write is left by, and the path of the NAS it goes to. -/
structure Target where
  relative : RelPath
  remotePath : RelPath
deriving DecidableEq, Repr

def CreateAction.target (a : CreateAction) : Target := ⟨a.relative, a.remotePath⟩

def CopyAction.target (a : CopyAction) : Target := ⟨a.toRelative, a.toRemotePath⟩

def UploadAction.target (a : UploadAction) : Target := ⟨a.entry.relative, a.remotePath⟩

def SyncPlan.writeTargets (plan : SyncPlan) : List Target :=
  plan.creates.map (·.target) ++ (plan.copies.map (·.target) ++ plan.uploads.map (·.target))

/-- The writes that go where an entry of the other kind is. -/
def SyncPlan.replacements (plan : SyncPlan) : List Target :=
  (plan.creates.filter fun a => decide (a.reason = .typeReplaced)).map (·.target) ++
    (plan.uploads.filter fun a => decide (a.reason = .typeReplaced)).map (·.target)

section Plan

variable [Unicode]

/-- Every entry that is replaced is spelled on the NAS as it is in the source. -/
def SpelledAlike (L : LocalInventory) (R : RemoteInventory) (resolution : Resolution) : Prop :=
  ∀ x ∈ L.entries.values, replacedBy R resolution x ≠ [] →
    resolution.pairs.remoteRelative x.relative = x.relative

instance (L : LocalInventory) (R : RemoteInventory) (resolution : Resolution) :
    Decidable (SpelledAlike L R resolution) :=
  inferInstanceAs (Decidable (∀ x ∈ L.entries.values, replacedBy R resolution x ≠ [] →
    resolution.pairs.remoteRelative x.relative = x.relative))

variable {root : RemoteRoot} {L : LocalInventory} {R : RemoteInventory} {rules : IgnoreRules}
  {options : PlanOptions} {resolution : Resolution} {plan : SyncPlan} {d b : DeleteAction}
  {t : Target}

omit [Unicode] in
theorem compareFiles_ne_typeReplaced {x : LocalEntry} {r : RemoteEntry} {mode : CompareMode} :
    compareFiles x r mode ≠ some .typeReplaced := by
  unfold compareFiles
  split
  · simp
  · split
    · simp
    · dsimp only
      split <;> repeat' split
      all_goals simp

theorem replacedBy_ne_nil {x : LocalEntry} : replacedBy R resolution x ≠ [] ↔
    resolution.shield.covers x.relative = false ∧
      ∃ r, resolution.pairs.remoteOf R x.relative = some r ∧ r.kind ≠ x.kind := by
  constructor
  · intro h
    obtain ⟨e, he⟩ := List.exists_mem_of_ne_nil _ h
    obtain ⟨hcov, r, hr, ⟨hk, hrk, _⟩ | ⟨hk, hrk, _⟩⟩ := mem_replacedBy.mp he
    · exact ⟨hcov, r, hr, by simp [hk, hrk]⟩
    · exact ⟨hcov, r, hr, by simp [hk, hrk]⟩
  · rintro ⟨hcov, r, hr, hne⟩
    have hmem : r ∈ replacedBy R resolution x := by
      refine mem_replacedBy.mpr ⟨hcov, r, hr, ?_⟩
      cases hk : x.kind with
      | directory =>
        cases hrk : r.kind with
        | directory => exact absurd (hrk.trans hk.symm) hne
        | file => exact .inl ⟨rfl, rfl, rfl⟩
      | file =>
        cases hrk : r.kind with
        | file => exact absurd (hrk.trans hk.symm) hne
        | directory =>
          exact .inr ⟨rfl, rfl, EntryMap.mem_subtree.mpr
            ⟨EntryMap.mem_values_of_get? hr, .inl rfl⟩⟩
    exact List.ne_nil_of_mem hmem

theorem createOf_typeReplaced {x : LocalEntry} :
    (∃ a, createOf root R resolution x = some a ∧ a.reason = .typeReplaced) ↔
      x.kind = .directory ∧ replacedBy R resolution x ≠ [] := by
  rw [replacedBy_ne_nil]
  simp only [createOf]
  cases hcov : resolution.shield.covers x.relative <;> cases hk : x.kind <;> simp
  cases hr : resolution.pairs.remoteOf R x.relative with
  | none => simp
  | some r => cases hrk : r.kind <;> simp [hrk]

theorem uploadOf_typeReplaced {x : LocalEntry} :
    (∃ u, uploadOf root R options resolution x = some u ∧ u.reason = .typeReplaced) ↔
      x.kind = .file ∧ replacedBy R resolution x ≠ [] := by
  rw [replacedBy_ne_nil]
  simp only [uploadOf]
  cases hcov : resolution.shield.covers x.relative <;> cases hk : x.kind <;> simp
  cases hr : resolution.pairs.remoteOf R x.relative with
  | none => simp
  | some r =>
    cases hrk : r.kind with
    | directory => simp [hrk]
    | file =>
      simp only [hrk, Option.map_eq_some_iff]
      simp [compareFiles_ne_typeReplaced, hrk]

/-- The local entry a target is of. -/
def targetOf (root : RemoteRoot) (resolution : Resolution) (x : LocalEntry) : Target :=
  ⟨x.relative, destination root resolution x⟩

theorem Planned.exists_of_mem_writeTargets (hp : Planned root L R rules options resolution plan)
    (ht : t ∈ plan.writeTargets) : t = ⟨.root, root.path⟩ ∨
      ∃ x ∈ L.entries.values, t = targetOf root resolution x := by
  obtain ⟨replaced, huploads, hcopies, hof⟩ := exists_replaced hp
  have hwanted : ∀ u ∈ wantedUploads root L R options resolution,
      ∃ x ∈ L.entries.values, u.target = targetOf root resolution x := by
    intro u hu
    obtain ⟨x, hx, hxu⟩ := mem_wantedUploads.mp hu
    obtain ⟨hentry, _, _, hpath⟩ := uploadOf_eq_some hxu
    exact ⟨x, hx, by rw [UploadAction.target, targetOf, hentry, hpath]⟩
  rcases List.mem_append.mp ht with ht | ht
  · obtain ⟨a, ha, rfl⟩ := List.mem_map.mp ht
    rcases List.mem_append.mp (hp.creates.mem_iff.mp ha) with ha | ha
    · rw [rootCreates] at ha
      split at ha
      · cases ha
      · obtain rfl := List.mem_singleton.mp ha
        exact .inl rfl
    · obtain ⟨x, hx, hxa⟩ := List.mem_filterMap.mp ha
      obtain ⟨hrelative, _, _, hpath⟩ := createOf_eq_some hxa
      exact .inr ⟨x, hx, by rw [CreateAction.target, targetOf, hrelative, hpath]⟩
  · right
    rcases List.mem_append.mp ht with ht | ht
    · obtain ⟨c, hc, rfl⟩ := List.mem_map.mp ht
      obtain ⟨i, u, hi, hreplaced⟩ := (hcopies c).mp hc
      have hcopy := hof i u hi c hreplaced
      rw [CopyAction.target, hcopy.toRelative, hcopy.toRemotePath]
      exact hwanted u (List.mem_of_getElem? hi)
    · obtain ⟨u, hu, rfl⟩ := List.mem_map.mp ht
      obtain ⟨i, hi, _⟩ := (huploads u).mp hu
      exact hwanted u (List.mem_of_getElem? hi)

theorem Planned.exists_of_mem_replacements (hp : Planned root L R rules options resolution plan)
    (ht : t ∈ plan.replacements) : ∃ x ∈ L.entries.values, replacedBy R resolution x ≠ [] ∧
      t = targetOf root resolution x := by
  rcases List.mem_append.mp ht with ht | ht
  · obtain ⟨a, ha, rfl⟩ := List.mem_map.mp ht
    obtain ⟨ha, hreason⟩ := List.mem_filter.mp ha
    have hreason : a.reason = .typeReplaced := of_decide_eq_true hreason
    rcases List.mem_append.mp (hp.creates.mem_iff.mp ha) with ha | ha
    · rw [rootCreates] at ha
      split at ha
      · cases ha
      · obtain rfl := List.mem_singleton.mp ha
        cases hreason
    · obtain ⟨x, hx, hxa⟩ := List.mem_filterMap.mp ha
      obtain ⟨hrelative, _, _, hpath⟩ := createOf_eq_some hxa
      exact ⟨x, hx, (createOf_typeReplaced.mp ⟨a, hxa, hreason⟩).2,
        by rw [CreateAction.target, targetOf, hrelative, hpath]⟩
  · obtain ⟨u, hu, rfl⟩ := List.mem_map.mp ht
    obtain ⟨hu, hreason⟩ := List.mem_filter.mp hu
    obtain ⟨replaced, huploads, _, _⟩ := exists_replaced hp
    obtain ⟨i, hi, _⟩ := (huploads u).mp hu
    obtain ⟨x, hx, hxu⟩ := mem_wantedUploads.mp (List.mem_of_getElem? hi)
    obtain ⟨hentry, _, _, hpath⟩ := uploadOf_eq_some hxu
    exact ⟨x, hx, (uploadOf_typeReplaced.mp ⟨u, hxu, of_decide_eq_true hreason⟩).2,
      by rw [UploadAction.target, targetOf, hentry, hpath]⟩

theorem Planned.exists_create (hp : Planned root L R rules options resolution plan)
    {x : LocalEntry} (hx : x ∈ L.entries.values) (hk : x.kind = .directory)
    (hne : replacedBy R resolution x ≠ []) :
    ∃ a ∈ plan.creates, a.target = targetOf root resolution x := by
  have hcreated : ∃ a, createOf root R resolution x = some a ∧ a.reason = .typeReplaced :=
    createOf_typeReplaced.mpr ⟨hk, hne⟩
  obtain ⟨a, hxa, _⟩ := hcreated
  obtain ⟨hrelative, _, _, hpath⟩ := createOf_eq_some hxa
  exact ⟨a, hp.creates.mem_iff.mpr (List.mem_append_right _ (List.mem_filterMap.mpr ⟨x, hx, hxa⟩)),
    by rw [CreateAction.target, targetOf, hrelative, hpath]⟩

theorem Planned.exists_upload (hp : Planned root L R rules options resolution plan)
    {x : LocalEntry} (hx : x ∈ L.entries.values) (hk : x.kind = .file)
    (hne : replacedBy R resolution x ≠ []) :
    ∃ u ∈ plan.uploads, u.entry = x ∧ u.target = targetOf root resolution x ∧
      u.target ∈ plan.replacements := by
  have huploaded : ∃ u, uploadOf root R options resolution x = some u ∧
      u.reason = .typeReplaced := uploadOf_typeReplaced.mpr ⟨hk, hne⟩
  obtain ⟨u, hxu, hreason⟩ := huploaded
  obtain ⟨hentry, _, _, hpath⟩ := uploadOf_eq_some hxu
  obtain ⟨replaced, huploads, _, hof⟩ := exists_replaced hp
  obtain ⟨i, hi⟩ := List.mem_iff_getElem?.mp (mem_wantedUploads.mpr ⟨x, hx, hxu⟩)
  have hnone : replaced i = none := by
    cases hc : replaced i with
    | none => rfl
    | some c =>
      -- a copy is of what the NAS does not have
      obtain ⟨_, r, hr, _⟩ := replacedBy_ne_nil.mp hne
      have hmissing := (hof i u hi c hc).missing
      rw [hentry, hr] at hmissing
      cases hmissing
  have hu : u ∈ plan.uploads := (huploads u).mpr ⟨i, hi, hnone⟩
  refine ⟨u, hu, hentry, by rw [UploadAction.target, targetOf, hentry, hpath], ?_⟩
  exact List.mem_append_right _ (List.mem_map_of_mem
    (List.mem_filter.mpr ⟨hu, decide_eq_true hreason⟩))

/-! ## What lies where room is made -/

theorem Planned.exists_preDelete (hp : Planned root L R rules options resolution plan)
    {x : LocalEntry} (hx : x ∈ L.entries.values) {r : RemoteEntry}
    (hr : resolution.pairs.remoteOf R x.relative = some r) (hne : replacedBy R resolution x ≠ []) :
    ∃ d ∈ plan.preDeletes, d.relative = r.relative ∧ d.remotePath = r.remotePath := by
  have hmem : r ∈ replacedBy R resolution x := by
    obtain ⟨hcov, r', hr', hkinds⟩ := replacedBy_ne_nil.mp hne
    obtain rfl := Option.some.inj (hr.symm.trans hr')
    refine mem_replacedBy.mpr ⟨hcov, r, hr, ?_⟩
    cases hk : x.kind <;> cases hrk : r.kind <;> rw [hk, hrk] at hkinds
    · exact absurd rfl hkinds
    · exact .inr ⟨rfl, rfl, EntryMap.mem_subtree.mpr ⟨EntryMap.mem_values_of_get? hr, .inl rfl⟩⟩
    · exact .inl ⟨rfl, rfl, rfl⟩
    · exact absurd rfl hkinds
  obtain ⟨d, hd⟩ := hp.replaced_deletable x hx r hmem
  obtain ⟨hrec, _⟩ := deletes_of_deleteAction hd
  exact ⟨d, (hp.mem_preDeletes d).mpr ⟨x, hx, r, hmem, hd⟩, hrec.relative, hrec.remotePath⟩

variable (closed : L.entries.ParentClosed LocalEntry.kind) (distinct : L.entries.DistinctFolds)
  (walked : R.Walked root)

include closed distinct in
theorem atOrUnder_of_fold {x y : LocalEntry} (hx : x ∈ L.entries.values)
    (hy : y ∈ L.entries.values)
    (h : AtOrUnder (portableFold x.relative) (portableFold y.relative)) :
    AtOrUnder x.relative y.relative := by
  obtain ⟨a, ha, hfold⟩ := exists_of_atOrUnder_map h
  rcases ha with rfl | hanc
  · rw [distinct y hy x hx hfold]
    exact .inl rfl
  · obtain ⟨e, he, _⟩ := closed y hy a hanc
    have hex : e = x := distinct e (EntryMap.mem_values_of_get? he) x hx (by
      rw [EntryMap.relative_of_get? he]
      exact hfold)
    rw [← hex, EntryMap.relative_of_get? he]
    exact .inr hanc

include walked in
theorem Planned.exists_of_mem_preDeletes (hp : Planned root L R rules options resolution plan)
    (hd : d ∈ plan.preDeletes) : ∃ x ∈ L.entries.values, ∃ r,
      resolution.pairs.remoteOf R x.relative = some r ∧ replacedBy R resolution x ≠ [] ∧
      AtOrUnder r.relative d.relative ∧ d.relative ≠ .root ∧
      d.remotePath = root.path.append d.relative ∧ (x.kind = .file ∨ d.relative = r.relative) := by
  obtain ⟨x, hx, e, he, hed⟩ := (hp.mem_preDeletes d).mp hd
  obtain ⟨hrec, _⟩ := deletes_of_deleteAction hed
  have hev := mem_values_of_mem_replacedBy he
  have hroot := EntryMap.relative_ne_root hev
  obtain ⟨hcov, r, hr, ⟨hk, hrk, rfl⟩ | ⟨hk, hrk, hsub⟩⟩ := mem_replacedBy.mp he
  · exact ⟨x, hx, e, hr, List.ne_nil_of_mem he, by rw [hrec.relative]; exact .inl rfl,
      by rwa [hrec.relative], by rw [hrec.remotePath, hrec.relative, walked.located e hev],
      .inr hrec.relative⟩
  · exact ⟨x, hx, r, hr, List.ne_nil_of_mem he, by
      rw [hrec.relative]; exact (EntryMap.mem_subtree.mp hsub).2, by rwa [hrec.relative],
      by rw [hrec.remotePath, hrec.relative, walked.located e hev], .inl hk⟩

include closed distinct walked in
/-- What is written at or beneath a path where room is made lies beneath the entry that replaces it:
the deletion is of the replaced entry itself. -/
theorem Planned.made_room
    (hp : Planned root L R rules options (planResolution root L R rules options) plan)
    (hd : d ∈ plan.preDeletes) (ht : t ∈ plan.writeTargets)
    (h : AtOrUnder d.remotePath t.remotePath) : ∃ x ∈ L.entries.values,
      replacedBy R (planResolution root L R rules options) x ≠ [] ∧
      d.relative = (planResolution root L R rules options).pairs.remoteRelative x.relative ∧
      AtOrUnder x.relative t.relative := by
  obtain ⟨x, hx, r, hr, hne, hrd, hroot, hpath, hkind⟩ := hp.exists_of_mem_preDeletes walked hd
  have hrx := relative_of_remoteOf hr
  rcases hp.exists_of_mem_writeTargets ht with rfl | ⟨y, hy, rfl⟩
  · -- the destination itself is beneath nothing that is deleted
    have habove : AtOrUnder (root.path.append d.relative) (root.path.append .root) := hpath ▸ h
    rcases (atOrUnder_append hroot).mp habove with h | h
    · exact absurd h.symm hroot
    · cases h
  · rw [hpath, targetOf, destination, atOrUnder_append hroot] at h
    have hfold : AtOrUnder (portableFold x.relative) (portableFold y.relative) := by
      have hry : AtOrUnder (portableFold r.relative) (portableFold
          ((planResolution root L R rules options).pairs.remoteRelative y.relative)) :=
        (hrd.trans h).map
      rwa [hrx, planResolution, fold_remoteRelative_resolve, fold_remoteRelative_resolve] at hry
    refine ⟨x, hx, hne, ?_, atOrUnder_of_fold closed distinct hx hy hfold⟩
    rcases hkind with hk | hdr
    · -- a file has nothing beneath it
      rw [eq_of_fold_beneath_file closed distinct hx hk hy hfold, ← hrx] at h
      rw [← hrx]
      exact AtOrUnder.antisymm hrd h
    · rw [hdr, hrx]

include walked in
theorem Planned.postDelete_apart (hp : Planned root L R rules options resolution plan)
    (hd : d ∈ plan.preDeletes) (hb : b ∈ plan.postDeletes) :
    ¬AtOrUnder d.remotePath b.remotePath := by
  obtain ⟨x, hx, r, hr, hne, hrd, hroot, hpath, _⟩ := hp.exists_of_mem_preDeletes walked hd
  obtain ⟨e, he, hmirror, hrec, _⟩ := hp.mem_postDeletes b hb
  rw [hpath, hrec.remotePath, walked.located e he, atOrUnder_append hroot]
  intro h
  refine hmirror.notReplaced x hx ?_
  have hre : AtOrUnder r.relative e.relative := hrd.trans h
  obtain ⟨hcov, r', hr', hkinds⟩ := replacedBy_ne_nil.mp hne
  obtain rfl := Option.some.inj (hr.symm.trans hr')
  refine mem_replacedBy.mpr ⟨hcov, r, hr, ?_⟩
  cases hk : x.kind with
  | file =>
    have hrk : r.kind = .directory := by
      cases hrk : r.kind with
      | directory => rfl
      | file => rw [hk, hrk] at hkinds; exact absurd rfl hkinds
    exact .inr ⟨rfl, hrk, EntryMap.mem_subtree.mpr ⟨he, hre⟩⟩
  | directory =>
    have hrk : r.kind = .file := by
      cases hrk : r.kind with
      | file => rfl
      | directory => rw [hk, hrk] at hkinds; exact absurd rfl hkinds
    rcases hre with heq | hanc
    · exact .inl ⟨rfl, hrk, EntryMap.eq_of_relative_eq he (EntryMap.mem_values_of_get? hr) heq⟩
    · -- a file has nothing beneath it
      obtain ⟨folder, hfolder, hkind⟩ := walked.closed e he r.relative hanc
      rw [EntryMap.mem_values.mp (EntryMap.mem_values_of_get? hr)] at hfolder
      obtain rfl := Option.some.inj hfolder
      rw [hrk] at hkind
      cases hkind

include closed in
theorem Planned.create_apart (hp : Planned root L R rules options resolution plan) {f : RelPath}
    (hf : f ∈ plan.sources) {c : CreateAction} (hc : c ∈ plan.creates) :
    ¬AtOrUnder f c.relative := by
  obtain ⟨replaced, huploads, hcopies, hof⟩ := exists_replaced hp
  have hfile : ∃ x ∈ L.entries.values, x.kind = .file ∧ x.relative = f := by
    have hwanted : ∀ u ∈ wantedUploads root L R options resolution,
        ∃ x ∈ L.entries.values, x.kind = .file ∧ x.relative = u.entry.relative := by
      intro u hu
      obtain ⟨x, hx, hxu⟩ := mem_wantedUploads.mp hu
      obtain ⟨hentry, _, hk, _⟩ := uploadOf_eq_some hxu
      exact ⟨x, hx, hk, by rw [hentry]⟩
    rcases List.mem_append.mp hf with hf | hf
    · obtain ⟨u, hu, rfl⟩ := List.mem_map.mp hf
      obtain ⟨i, hi, _⟩ := (huploads u).mp hu
      exact hwanted u (List.mem_of_getElem? hi)
    · obtain ⟨c, hc, rfl⟩ := List.mem_map.mp hf
      obtain ⟨i, u, hi, hreplaced⟩ := (hcopies c).mp hc
      rw [(hof i u hi c hreplaced).toRelative]
      exact hwanted u (List.mem_of_getElem? hi)
  obtain ⟨x, hx, hk, rfl⟩ := hfile
  intro h
  rcases List.mem_append.mp (hp.creates.mem_iff.mp hc) with hc | hc
  · rw [rootCreates] at hc
    split at hc
    · cases hc
    · obtain rfl := List.mem_singleton.mp hc
      rcases h with h | h
      · exact EntryMap.relative_ne_root hx h.symm
      · cases h
  · obtain ⟨y, hy, hyc⟩ := List.mem_filterMap.mp hc
    obtain ⟨hrelative, _, hyk, _⟩ := createOf_eq_some hyc
    rw [hrelative] at h
    rcases h with heq | hanc
    · rw [EntryMap.eq_of_relative_eq hy hx heq, hk] at hyk
      cases hyk
    · obtain ⟨folder, hfolder, hkind⟩ := closed y hy x.relative hanc
      rw [EntryMap.mem_values.mp hx] at hfolder
      obtain rfl := Option.some.inj hfolder
      rw [hk] at hkind
      cases hkind

theorem Planned.copy_entry (hp : Planned root L R rules options resolution plan) {c : CopyAction}
    (hc : c ∈ plan.copies) : c.entry.relative = c.toRelative := by
  obtain ⟨replaced, _, hcopies, hof⟩ := exists_replaced hp
  obtain ⟨i, u, hi, hreplaced⟩ := (hcopies c).mp hc
  have hcopy := hof i u hi c hreplaced
  rw [hcopy.entry, hcopy.toRelative]

end Plan

end DriveSync
