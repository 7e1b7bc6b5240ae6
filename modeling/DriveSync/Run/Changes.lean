import DriveSync.Sync.Narrowed
import DriveSync.Sync.Requests
import DriveSync.Run.Digested

/-!
# DriveSync.Run.Changes

Where a planned change lies, in terms of the two inventories the plan was made from, and what is left
of a plan when what cannot be done safely has been taken out of it.

* `Reaches`: a place on the NAS that a plan of two inventories may change.
* `Planned.reaches`: every change a plan holds is at such a place.
* `narrowPlan_ok`: a plan that has been narrowed holds no other change.
-/

namespace DriveSync

open Path

/-- The path a change is made at. -/
def Mutation.place : Mutation → RelPath
  | .delete remotePath | .create remotePath | .upload remotePath | .rename remotePath _ =>
    remotePath
  | .copy action => action.toRemotePath

/-- No entry lies beneath a mount point or a link. -/
def RemoteInventory.Sealed (R : RemoteInventory) : Prop :=
  ∀ e ∈ R.entries.values, ∀ a ∈ e.relative.ancestors,
    ∃ d, R.entries.get? a = some d ∧ d.mountPointType = none

/-- Neither the place itself nor one above it is a mount point or a link. -/
def RemoteInventory.Unmounted (R : RemoteInventory) (p : RelPath) : Prop :=
  ∀ e ∈ R.entries.values, e.mountPointType.isSome = true → ¬AtOrUnder e.relative p

theorem RemoteInventory.Sealed.unmounted {R : RemoteInventory} (sealedAbove : R.Sealed)
    {e : RemoteEntry} (he : e ∈ R.entries.values) (hmount : e.mountPointType = none) :
    R.Unmounted e.relative := by
  intro m hm hmounted hat
  rcases hat with heq | hanc
  · rw [EntryMap.eq_of_relative_eq hm he heq.symm, hmount] at hmounted
    cases hmounted
  · obtain ⟨d, hd, hnone⟩ := sealedAbove e he m.relative hanc
    rw [EntryMap.mem_values.mp hm] at hd
    obtain rfl := Option.some.inj hd
    rw [hnone] at hmounted
    cases hmounted

section Reaches

/-- A path lies in a scope, up to the spelling of its names. -/
def Scope.Covers [Unicode] (scope : Scope) (p : RelPath) : Prop :=
  scope.path = .root ∨ AtOrUnder (portableFold scope.path) (portableFold p)

theorem Scope.covers_of_matches [Unicode] {scope : Scope} {p : RelPath}
    (h : scope.matches p = true) : scope.Covers p := by
  simp only [Scope.matches, Bool.or_eq_true, decide_eq_true_eq] at h
  exact h.imp id fun h => h.map

variable [Unicode] (L : LocalInventory) (R : RemoteInventory) (options : PlanOptions)
  (resolution : Resolution)

/-- A place on the NAS a plan of the two inventories may change: it is beneath the destination, it
is not shielded, no mount point is at or above it, and it is in scope or a local entry calls for
it. -/
structure Reaches (p : RelPath) : Prop where
  beneath : p ≠ .root
  unshielded : resolution.shield.covers p = false
  unmounted : R.Unmounted p
  asked : options.scope.Covers p ∨
    ∃ x ∈ L.entries.values, AtOrUnder (portableFold x.relative) (portableFold p) ∧
      (x.kind = .file ∨ portableFold x.relative = portableFold p)

end Reaches

theorem mountPointType_of_not_protected [Unicode] {e : RemoteEntry} {rules : IgnoreRules}
    {pairs : Correspondence} (h : isProtected e rules pairs = false) : e.mountPointType = none := by
  cases hmount : e.mountPointType with
  | none => rfl
  | some mountType =>
    have hspelled : isProtectedAsSpelled e rules = true := by simp [isProtectedAsSpelled, hmount]
    rw [isProtected_of_isProtectedAsSpelled hspelled] at h
    cases h

section Planned

variable [Unicode] {root : RemoteRoot} {L : LocalInventory} {R : RemoteInventory}
  {rules : IgnoreRules} {options : PlanOptions} {plan : SyncPlan}

/-- A local entry that is not shielded is written where nothing is mounted. -/
theorem Planned.unmounted
    (h : Planned root L R rules options (planResolution root L R rules options) plan)
    {x : LocalEntry} (hx : x ∈ L.entries.values)
    (hcov : (planResolution root L R rules options).shield.covers x.relative = false) :
    R.Unmounted ((planResolution root L R rules options).pairs.remoteRelative x.relative) := by
  intro e he hmounted hat
  rcases hat with heq | hanc
  · have hr : (planResolution root L R rules options).pairs.remoteOf R x.relative = some e := by
      rw [Correspondence.remoteOf, heq]
      exact EntryMap.mem_values.mp he
    obtain ⟨mountType, hm⟩ := Option.isSome_iff_exists.mp hmounted
    rw [planResolution, covers_resolve_of_conflicts hx ⟨e, hr, by simp [typeConflict, hm]⟩] at hcov
    cases hcov
  · have hno := h.noMounts
    simp only [refuseMounts] at hno
    split at hno
    · cases hno
    · rename_i hfind
      have hnone := List.find?_eq_none.mp hfind e (List.mem_filter.mpr ⟨he, hmounted⟩)
      refine hnone (List.any_eq_true.mpr ⟨x.relative, ?_, decide_eq_true hanc⟩)
      exact List.mem_filter.mpr ⟨EntryMap.mem_keys.mpr ⟨x, EntryMap.mem_values.mp hx⟩, by simp [hcov]⟩

theorem Planned.reaches_written
    (h : Planned root L R rules options (planResolution root L R rules options) plan)
    {x : LocalEntry} (hx : x ∈ L.entries.values)
    (hw : isWritten root R options (planResolution root L R rules options) x = true) :
    Reaches L R options (planResolution root L R rules options)
      ((planResolution root L R rules options).pairs.remoteRelative x.relative) := by
  have hcov : (planResolution root L R rules options).shield.covers x.relative = false := by
    simp only [isWritten, Bool.or_eq_true, Option.isSome_iff_exists] at hw
    rcases hw with ⟨create, hcreate⟩ | ⟨u, hu⟩
    · exact (createOf_eq_some hcreate).2.1
    · exact (uploadOf_eq_some hu).2.1
  have hfold : portableFold ((planResolution root L R rules options).pairs.remoteRelative
      x.relative) = portableFold x.relative := fold_remoteRelative_resolve x.relative
  refine ⟨?_, ?_, h.unmounted hx hcov, .inr ⟨x, hx, ?_, .inr hfold.symm⟩⟩
  · exact Correspondence.remoteRelative_ne_root foldPreserving_resolve (EntryMap.relative_ne_root hx)
  · rw [planResolution, covers_remoteRelative]
    exact hcov
  · rw [hfold]
    exact .inl rfl

/-- What a local entry replaces is not shielded, not mounted, and lies at or beneath its own place. -/
theorem Planned.reaches_replaced
    (h : Planned root L R rules options (planResolution root L R rules options) plan)
    (sealedAbove : R.Sealed) {x : LocalEntry} (hx : x ∈ L.entries.values) {e : RemoteEntry}
    (he : e ∈ replacedBy R (planResolution root L R rules options) x) :
    Reaches L R options (planResolution root L R rules options) e.relative := by
  obtain ⟨hcov, r, hr, hcase⟩ := mem_replacedBy.mp he
  have hfold : portableFold r.relative = portableFold x.relative := by
    rw [relative_of_remoteOf hr]
    exact fold_remoteRelative_resolve x.relative
  have hbeneath := EntryMap.relative_ne_root (mem_values_of_mem_replacedBy he)
  rcases hcase with ⟨_, _, rfl⟩ | ⟨hfile, _, hsub⟩
  · refine ⟨hbeneath, (covers_of_remoteOf hr).trans hcov, ?_, .inr ⟨x, hx, ?_, .inr hfold.symm⟩⟩
    · rw [relative_of_remoteOf hr]
      exact h.unmounted hx hcov
    · rw [hfold]
      exact .inl rfl
  · obtain ⟨hunprotected, hfree⟩ := isKept_eq_false.mp (h.clear x hx hfile e he)
    refine ⟨hbeneath, hfree, sealedAbove.unmounted (EntryMap.mem_subtree.mp hsub).1 ?_,
      .inr ⟨x, hx, ?_, .inl hfile⟩⟩
    · exact mountPointType_of_not_protected hunprotected
    · rw [← hfold]
      have hat : AtOrUnder r.relative e.relative := (EntryMap.mem_subtree.mp hsub).2
      exact hat.map

theorem Planned.reaches_mirrored (sealedAbove : R.Sealed) {e : RemoteEntry}
    (he : e ∈ R.entries.values)
    (hdel : MirrorDeletion L R rules options (planResolution root L R rules options) e) :
    Reaches L R options (planResolution root L R rules options) e.relative :=
  ⟨EntryMap.relative_ne_root he, hdel.unshielded,
    sealedAbove.unmounted he (mountPointType_of_not_protected hdel.unprotected),
    .inl (Scope.covers_of_matches hdel.inScope)⟩

/-- What is deleted first is replaced. -/
theorem Planned.replaces
    (h : Planned root L R rules options (planResolution root L R rules options) plan)
    {a : DeleteAction} (ha : a ∈ plan.preDeletes) :
    ∃ e ∈ R.entries.values, a.relative = e.relative ∧ a.remotePath = e.remotePath ∧
      options.delete = true ∧ ∃ x ∈ L.entries.values,
        e ∈ replacedBy R (planResolution root L R rules options) x := by
  obtain ⟨x, hx, e, he, hae⟩ := (h.mem_preDeletes a).mp ha
  obtain ⟨hrec, _⟩ := deletes_of_deleteAction hae
  exact ⟨e, mem_values_of_mem_replacedBy he, hrec.relative, hrec.remotePath,
    h.mirror x hx (List.ne_nil_of_mem he), x, hx, he⟩

/-- What is deleted last has no local entry. -/
theorem Planned.mirrors
    (h : Planned root L R rules options (planResolution root L R rules options) plan)
    {a : DeleteAction} (ha : a ∈ plan.postDeletes) :
    ∃ e ∈ R.entries.values, a.relative = e.relative ∧ a.remotePath = e.remotePath ∧
      MirrorDeletion L R rules options (planResolution root L R rules options) e := by
  obtain ⟨e, he, hdel, hrec, _⟩ := h.mem_postDeletes a ha
  exact ⟨e, he, hrec.relative, hrec.remotePath, hdel⟩

theorem Planned.reaches_deleted
    (h : Planned root L R rules options (planResolution root L R rules options) plan)
    (sealedAbove : R.Sealed) {a : DeleteAction} (ha : a ∈ plan.deletes) :
    ∃ e ∈ R.entries.values, a.remotePath = e.remotePath ∧
      Reaches L R options (planResolution root L R rules options) e.relative := by
  rcases List.mem_append.mp ha with ha | ha
  · obtain ⟨e, he, _, hpath, _, x, hx, hxe⟩ := h.replaces ha
    exact ⟨e, he, hpath, h.reaches_replaced sealedAbove hx hxe⟩
  · obtain ⟨e, he, _, hpath, hdel⟩ := h.mirrors ha
    exact ⟨e, he, hpath, reaches_mirrored sealedAbove he hdel⟩

/-- A rename moves an entry of the NAS that is not shielded and not mounted. -/
theorem Planned.reaches_renamed
    (h : Planned root L R rules options (planResolution root L R rules options) plan)
    (sealedAbove : R.Sealed) {a : RenameAction} (ha : a ∈ plan.renames) :
    ∃ e ∈ R.entries.values, a.fromRemotePath = e.remotePath ∧
      Reaches L R options (planResolution root L R rules options) e.relative := by
  rw [h.renames] at ha
  obtain ⟨⟨x, r⟩, hmem, ha⟩ := List.mem_filterMap.mp ha
  have hof := renameOf_eq_some ha
  obtain ⟨e, he, hpath, _⟩ := hof.source
  have hrel := EntryMap.relative_of_get? he
  have he := EntryMap.mem_values_of_get? he
  obtain ⟨hunprotected, hfree⟩ := isKept_eq_false.mp (hof.movable e he (.inl hrel))
  refine ⟨e, he, hpath, EntryMap.relative_ne_root he, hfree,
    sealedAbove.unmounted he (mountPointType_of_not_protected hunprotected), .inl ?_⟩
  have hscope : options.scope.matches x = true := by
    simp only [renameOf] at ha
    split at ha
    · cases ha
    · rename_i hscope
      simpa using hscope
  have hfold : portableFold e.relative = portableFold x := by
    rw [hrel]
    exact (mem_renames.mp (renames_resolve ▸ hmem)).2.1.fold_eq
  exact (Scope.covers_of_matches hscope).imp id fun hat => hfold ▸ hat

/-- Every change a plan holds is the creation of the destination folder, or is made where a plan of
its inventories may change something. -/
theorem Planned.reaches
    (h : Planned root L R rules options (planResolution root L R rules options) plan)
    (located : ∀ e ∈ R.entries.values, e.remotePath = root.path.append e.relative)
    (sealedAbove : R.Sealed) {m : Mutation} (hm : m ∈ plan.mutations) :
    (m = .create root.path ∧ R.rootExists = false) ∨
      ∃ p, m.place = root.path.append p ∧
        Reaches L R options (planResolution root L R rules options) p := by
  have hwanted : ∀ u ∈ wantedUploads root L R options (planResolution root L R rules options),
      m.place = u.remotePath → ∃ p, m.place = root.path.append p ∧
        Reaches L R options (planResolution root L R rules options) p := by
    intro u hu hplace
    obtain ⟨x, hx, hxu⟩ := mem_wantedUploads.mp hu
    refine ⟨_, hplace.trans (uploadOf_eq_some hxu).2.2.2, h.reaches_written hx ?_⟩
    simp [isWritten, hxu]
  have hdeleted : ∀ a ∈ plan.deletes, m.place = a.remotePath →
      ∃ p, m.place = root.path.append p ∧
        Reaches L R options (planResolution root L R rules options) p := by
    intro a ha hplace
    obtain ⟨e, he, hpath, hreaches⟩ := h.reaches_deleted sealedAbove ha
    exact ⟨e.relative, by rw [hplace, hpath, located e he], hreaches⟩
  obtain ⟨replaced, huploads, hcopies, hof⟩ := exists_replaced h
  have hcopied : ∀ c ∈ plan.copies, m.place = c.toRemotePath →
      ∃ p, m.place = root.path.append p ∧
        Reaches L R options (planResolution root L R rules options) p := by
    intro c hc hplace
    obtain ⟨i, u, hu, hreplaced⟩ := (hcopies c).mp hc
    exact hwanted u (List.mem_of_getElem? hu)
      (hplace.trans (hof i u hu c hreplaced).toRemotePath)
  simp only [SyncPlan.mutations, List.mem_append, List.mem_map, List.mem_flatMap] at hm
  rcases hm with ⟨a, ha, rfl⟩ | ⟨a, ha, rfl⟩ | ⟨c, hc, hm⟩ | ⟨u, hu, rfl⟩ | ⟨a, ha, rfl⟩ |
    ⟨a, ha, rfl⟩ | ⟨a, ha, rfl⟩
  · exact .inr (hdeleted a (List.mem_append_left _ ha) rfl)
  · rcases List.mem_append.mp (h.creates.mem_iff.mp ha) with hroot | hcreate
    · rw [rootCreates] at hroot
      split at hroot
      · cases hroot
      · rename_i hmissing
        rw [List.mem_singleton.mp hroot]
        exact .inl ⟨rfl, by simpa using hmissing⟩
    · obtain ⟨x, hx, hxa⟩ := List.mem_filterMap.mp hcreate
      refine .inr ⟨_, (createOf_eq_some hxa).2.2.2, h.reaches_written hx ?_⟩
      simp [isWritten, hxa]
  · simp only [CopyAction.mutations, List.mem_cons, List.not_mem_nil, or_false] at hm
    rcases hm with rfl | rfl
    · exact .inr (hcopied c hc rfl)
    · exact .inr (hcopied c hc rfl)
  · obtain ⟨i, hi, _⟩ := (huploads u).mp hu
    exact .inr (hwanted u (List.mem_of_getElem? hi) rfl)
  · exact .inr (hdeleted a (List.mem_append_right _ ha) rfl)
  · exact .inr (hdeleted a (List.mem_append_right _ ha) rfl)
  · obtain ⟨e, he, hpath, hreaches⟩ := h.reaches_renamed sealedAbove ha
    exact .inr ⟨e.relative, hpath.trans (located e he), hreaches⟩

end Planned

/-! ## What is left of a plan -/

namespace SyncPlan

/-- `plan'` is `plan` with changes taken out of it, and perhaps more skips named. -/
structure Within (plan' plan : SyncPlan) : Prop where
  pre : plan'.preDeletes ⊆ plan.preDeletes
  post : plan'.postDeletes ⊆ plan.postDeletes
  mutations : ∀ m ∈ plan'.mutations, m ∈ plan.mutations
  skipped : plan.skipped ⊆ plan'.skipped

variable {plan plan' plan'' : SyncPlan}

theorem Within.refl (plan : SyncPlan) : plan.Within plan :=
  ⟨fun _ h => h, fun _ h => h, fun _ h => h, fun _ h => h⟩

theorem Within.trans (h : plan''.Within plan') (h' : plan'.Within plan) : plan''.Within plan :=
  ⟨fun _ ha => h'.pre (h.pre ha), fun _ ha => h'.post (h.post ha),
    fun m hm => h'.mutations m (h.mutations m hm), fun _ hs => h.skipped (h'.skipped hs)⟩

theorem Within.deletes (h : plan'.Within plan) : plan'.deletes ⊆ plan.deletes := by
  intro a ha
  exact (List.mem_append.mp ha).elim (fun ha => List.mem_append_left _ (h.pre ha))
    fun ha => List.mem_append_right _ (h.post ha)

/-- An upload that was not planned stands in for a copy that was. -/
theorem within_of_subset (hpre : plan'.preDeletes ⊆ plan.preDeletes)
    (hpost : plan'.postDeletes ⊆ plan.postDeletes) (hcreates : plan'.creates ⊆ plan.creates)
    (hcopies : plan'.copies ⊆ plan.copies)
    (huploads : ∀ u ∈ plan'.uploads, (∃ v ∈ plan.uploads, v.remotePath = u.remotePath) ∨
      ∃ c ∈ plan.copies, c.toRemotePath = u.remotePath)
    (hrenames : plan'.renames ⊆ plan.renames) (hskipped : plan.skipped ⊆ plan'.skipped) :
    plan'.Within plan := by
  refine ⟨hpre, hpost, fun m hm => ?_, hskipped⟩
  simp only [mutations, List.mem_append, List.mem_map, List.mem_flatMap] at hm ⊢
  rcases hm with ⟨a, ha, rfl⟩ | ⟨a, ha, rfl⟩ | ⟨c, hc, hm⟩ | ⟨u, hu, rfl⟩ | ⟨a, ha, rfl⟩ |
    ⟨a, ha, rfl⟩ | ⟨a, ha, rfl⟩
  · exact .inl ⟨a, hpre ha, rfl⟩
  · exact .inr (.inl ⟨a, hcreates ha, rfl⟩)
  · exact .inr (.inr (.inl ⟨c, hcopies hc, hm⟩))
  · rcases huploads u hu with ⟨v, hv, hpath⟩ | ⟨c, hc, hpath⟩
    · exact .inr (.inr (.inr (.inl ⟨v, hv, by rw [hpath]⟩)))
    · exact .inr (.inr (.inl ⟨c, hc, by simp [CopyAction.mutations, hpath]⟩))
  · exact .inr (.inr (.inr (.inr (.inl ⟨a, hpost ha, rfl⟩))))
  · exact .inr (.inr (.inr (.inr (.inr (.inl ⟨a, hpost ha, rfl⟩)))))
  · exact .inr (.inr (.inr (.inr (.inr (.inr ⟨a, hrenames ha, rfl⟩)))))

theorem within_of_thinned (h : Thinned plan plan')
    (hrenames : plan'.renames = plan.renames) (hskipped : plan'.skipped = plan.skipped) :
    plan'.Within plan := by
  refine within_of_subset h.pre.subset h.post.subset h.creates h.copies (fun u hu => ?_)
    (hrenames ▸ List.Subset.refl _) (hskipped ▸ List.Subset.refl _)
  rcases h.uploads u hu with hu | ⟨c, hc, rfl⟩
  · exact .inl ⟨u, hu, rfl⟩
  · exact .inr ⟨c, hc, rfl⟩

end SyncPlan

section Narrow

variable {plan plan' : SyncPlan} {deferred deferred' : List DeferredPath}

theorem withholdIncomplete_within (plan : SyncPlan) (incomplete : List RelPath) :
    (withholdDeletionsInIncompleteListings plan incomplete).1.Within plan ∧
      ∀ a ∈ (withholdDeletionsInIncompleteListings plan incomplete).1.postDeletes,
        listingWithholds a.relative incomplete = false := by
  refine ⟨SyncPlan.within_of_thinned (withholdIncomplete_thinned rfl) ?_ ?_, fun a ha => ?_⟩
  · simp only [withholdDeletionsInIncompleteListings]
    split <;> rfl
  · simp only [withholdDeletionsInIncompleteListings]
    split <;> rfl
  · simp only [withholdDeletionsInIncompleteListings] at ha
    split at ha
    · rename_i hempty
      rw [List.isEmpty_iff.mp hempty]
      simp [listingWithholds]
    · simpa using (List.mem_filter.mp ha).2

theorem protectSkipped_within (plan : SyncPlan) (skipped : List SkippedRemoteEntry) :
    (protectSkippedRemoteEntries plan skipped).1.Within plan ∧
      ∀ a ∈ (protectSkippedRemoteEntries plan skipped).1.deletes,
        keptBySkipped skipped a.relative = none := by
  refine ⟨SyncPlan.within_of_thinned (protectSkipped_thinned rfl) ?_ ?_, fun a ha => ?_⟩
  · simp only [protectSkippedRemoteEntries]
    split
    · rfl
    · split <;> rfl
  · simp only [protectSkippedRemoteEntries]
    split
    · rfl
    · split <;> rfl
  · simp only [protectSkippedRemoteEntries] at ha
    split at ha
    · rename_i hempty
      rw [List.isEmpty_iff.mp hempty]
      rfl
    · split at ha
      · rcases List.mem_append.mp ha with ha | ha
        · exact Option.isNone_iff_eq_none.mp (List.mem_filter.mp ha).2
        · exact Option.isNone_iff_eq_none.mp (List.mem_filter.mp ha).2
      · rcases List.mem_append.mp ha with ha | ha
        · exact Option.isNone_iff_eq_none.mp
            (List.mem_filter.mp (List.mem_filter.mp ha).1).2
        · exact Option.isNone_iff_eq_none.mp (List.mem_filter.mp ha).2

theorem withholdAmbiguous_within (ambiguous : List RelPath) :
    (withholdAmbiguousDeletions plan ambiguous).Within plan := by
  refine SyncPlan.within_of_thinned (withholdAmbiguous_thinned plan ambiguous) ?_ ?_
  · simp only [withholdAmbiguousDeletions]
    split
    · rfl
    · split <;> rfl
  · simp only [withholdAmbiguousDeletions]
    split
    · rfl
    · split <;> rfl

theorem withholdComma_within {ε : Type} {lookup : List Char → Except ε Bool} {R : RemoteInventory}
    (h : withholdCommaAmbiguousMutations lookup plan R = .ok (plan', deferred)) :
    plan'.Within plan := by
  obtain ⟨deletions, _, h⟩ := Loop.bind_eq_ok.mp h
  obtain ⟨renames, _, h⟩ := Loop.bind_eq_ok.mp h
  obtain ⟨copies, hambiguous, h⟩ := Loop.bind_eq_ok.mp h
  obtain ⟨rfl, _⟩ := Prod.mk.inj (Except.ok.inj h)
  refine SyncPlan.Within.trans ?_ (withholdAmbiguous_within (deletions.map (·.1.relative)))
  have hconverted : ∀ c ∈ copies.map (·.1),
      c ∈ (withholdAmbiguousDeletions plan (deletions.map (·.1.relative))).copies := by
    rw [ambiguousOf_eq_ok hambiguous]
    exact fun c hc => (List.mem_filter.mp hc).1
  refine SyncPlan.within_of_subset (fun _ h => h) (fun _ h => h) (fun _ h => h)
    List.filter_sublist.subset (fun u hu => ?_) List.filter_sublist.subset fun _ h => h
  rcases List.mem_append.mp hu with hu | hu
  · exact .inl ⟨u, hu, rfl⟩
  · obtain ⟨c, hc, rfl⟩ := List.mem_map.mp hu
    exact .inr ⟨c, hconverted c hc, rfl⟩

theorem promoteUpload_remotePath {site : Site} {u : UploadAction}
    {promoted : UploadAction × Option DeferredPath} (h : promoteUpload site u = .ok promoted) :
    promoted.1.remotePath = u.remotePath := by
  simp only [promoteUpload] at h
  split at h
  · cases h
    rfl
  · split at h
    · cases h
      rfl
    · split at h
      · cases h
      · cases h
        rfl

theorem removeDeferred_within [Unicode] {deferrals : DeferralIndex} :
    (removeDeferredFromPlan plan deferrals).1.Within plan := by
  simp only [removeDeferredFromPlan]
  split
  · exact .refl plan
  · exact SyncPlan.within_of_subset List.filter_sublist.subset List.filter_sublist.subset
      (fun _ h => h) List.filter_sublist.subset
      (fun u hu => .inl ⟨u, (List.mem_filter.mp hu).1, rfl⟩) (fun _ h => h) fun _ h => h

theorem skipped_removeDeferred [Unicode] {deferrals : DeferralIndex} :
    (removeDeferredFromPlan plan deferrals).1.skipped = plan.skipped := by
  simp only [removeDeferredFromPlan]
  split <;> rfl

theorem promote_within [Unicode] {site : Site}
    (h : promoteUploadFingerprintsDeferring site plan = .ok (plan', deferred)) :
    plan'.Within plan ∧ plan'.skipped = plan.skipped := by
  obtain ⟨promoted, hpromoted, h⟩ := Loop.bind_eq_ok.mp h
  obtain ⟨rfl, _⟩ := Prod.mk.inj (Except.ok.inj h)
  refine ⟨removeDeferred_within.trans ?_, skipped_removeDeferred⟩
  refine SyncPlan.within_of_subset (fun _ h => h) (fun _ h => h) (fun _ h => h) (fun _ h => h)
    (fun u hu => ?_) (fun _ h => h) fun _ h => h
  obtain ⟨done, hdone, rfl⟩ := List.mem_map.mp hu
  obtain ⟨v, hv, hvdone⟩ := Loop.mem_of_mapM hpromoted done hdone
  exact .inl ⟨v, hv, (promoteUpload_remotePath hvdone).symm⟩

/-! ## What was left out is named -/

/-- The paths that are named: before, or by a skip that was added. -/
structure Naming (named : Std.TreeSet RelPath) (done : List DeferredPath)
    (s : Std.TreeSet RelPath × List SkippedEntry) : Prop where
  recorded : ∀ record ∈ done, record.relative ∈ s.1
  named : ∀ k ∈ s.1, k ∈ named ∨ ∃ skip ∈ s.2, skip.relative = k
  added : ∀ skip ∈ s.2, ∃ record ∈ done,
    skip = deferredSkip record.relative record.reason record.detail

theorem naming_recordDeferral {named : Std.TreeSet RelPath} {done : List DeferredPath}
    {s : Std.TreeSet RelPath × List SkippedEntry} (h : Naming named done s)
    (record : DeferredPath) : Naming named (done ++ [record]) (recordDeferral s record) := by
  have hdone : ∀ {skip : SkippedEntry},
      (∃ r ∈ done, skip = deferredSkip r.relative r.reason r.detail) →
      ∃ r ∈ done ++ [record], skip = deferredSkip r.relative r.reason r.detail :=
    fun ⟨r, hr, hskip⟩ => ⟨r, List.mem_append_left _ hr, hskip⟩
  simp only [recordDeferral]
  split
  · rename_i hnamed
    refine ⟨fun r hr => ?_, h.named, fun skip hskip => hdone (h.added skip hskip)⟩
    rcases List.mem_append.mp hr with hr | hr
    · exact h.recorded r hr
    · rw [List.mem_singleton.mp hr]
      exact hnamed
  · refine ⟨fun r hr => ?_, fun k hk => ?_, fun skip hskip => ?_⟩
    · rw [Std.TreeSet.mem_insert, compare_eq_iff_eq]
      rcases List.mem_append.mp hr with hr | hr
      · exact .inr (h.recorded r hr)
      · exact .inl (by rw [List.mem_singleton.mp hr])
    · rw [Std.TreeSet.mem_insert, compare_eq_iff_eq] at hk
      rcases hk with rfl | hk
      · exact .inr ⟨_, List.mem_append_right _ (List.mem_singleton.mpr rfl), rfl⟩
      · refine (h.named k hk).imp id ?_
        rintro ⟨skip, hskip, hrel⟩
        exact ⟨skip, List.mem_append_left _ hskip, hrel⟩
    · rcases List.mem_append.mp hskip with hskip | hskip
      · exact hdone (h.added skip hskip)
      · rw [List.mem_singleton.mp hskip]
        exact ⟨record, List.mem_append_right _ (List.mem_singleton.mpr rfl), rfl⟩

theorem naming_recorded (named : Std.TreeSet RelPath) (deferred : List DeferredPath) :
    Naming named deferred (deferred.foldl recordDeferral (named, [])) :=
  Loop.foldl_done (I := Naming named) deferred
    ⟨fun _ h => (by cases h), fun _ h => .inl h, fun _ h => (by cases h)⟩
    fun _ record _ _ _ h => naming_recordDeferral h record

theorem mem_sortSkipped {skipped : List SkippedEntry} {skip : SkippedEntry} :
    skip ∈ Scan.sortSkipped skipped ↔ skip ∈ skipped :=
  (List.perm_insertionSort _ _).mem_iff

/-- Every deferral is among the skips, which name nothing else that is new. -/
theorem recordDeferralsInPlan_names (plan : SyncPlan) (deferred : List DeferredPath) :
    (recordDeferralsInPlan plan deferred).Within plan ∧
      (∀ record ∈ deferred, ∃ skip ∈ (recordDeferralsInPlan plan deferred).skipped,
        skip.relative = record.relative) ∧
      ∀ skip ∈ (recordDeferralsInPlan plan deferred).skipped, skip ∈ plan.skipped ∨
        ∃ record ∈ deferred, skip = deferredSkip record.relative record.reason record.detail := by
  have hnaming := naming_recorded
    (Std.TreeSet.ofList (plan.skipped.map (·.relative)) compare) deferred
  simp only [recordDeferralsInPlan]
  generalize deferred.foldl recordDeferral _ = s at hnaming
  have hnamed : ∀ record ∈ deferred, ∃ skip ∈ plan.skipped ++ s.2,
      skip.relative = record.relative := by
    intro record hrecord
    rcases hnaming.named _ (hnaming.recorded record hrecord) with hold | ⟨skip, hskip, hrel⟩
    · simp only [Std.TreeSet.mem_ofList, List.contains_iff_mem, List.mem_map] at hold
      obtain ⟨skip, hskip, hrel⟩ := hold
      exact ⟨skip, List.mem_append_left _ hskip, hrel⟩
    · exact ⟨skip, List.mem_append_right _ hskip, hrel⟩
  split
  · rename_i hempty
    rw [List.isEmpty_iff.mp hempty, List.append_nil] at hnamed
    exact ⟨.refl plan, hnamed, fun skip hskip => .inl hskip⟩
  · refine ⟨SyncPlan.within_of_subset (fun _ h => h) (fun _ h => h) (fun _ h => h) (fun _ h => h)
      (fun u hu => .inl ⟨u, hu, rfl⟩) (fun _ h => h) fun skip hskip => ?_, ?_, ?_⟩
    · exact mem_sortSkipped.mpr (List.mem_append_left _ hskip)
    · intro record hrecord
      obtain ⟨skip, hskip, hrel⟩ := hnamed record hrecord
      exact ⟨skip, mem_sortSkipped.mpr hskip, hrel⟩
    · intro skip hskip
      rcases List.mem_append.mp (mem_sortSkipped.mp hskip) with hskip | hskip
      · exact .inl hskip
      · exact .inr (hnaming.added skip hskip)

theorem relative_deferralOfSkip {skip : SkippedEntry} {record : DeferredPath}
    (h : deferralOfSkip skip = some record) : record.relative = skip.relative := by
  simp only [deferralOfSkip] at h
  split at h
  · obtain ⟨reason, _, rfl⟩ := Option.map_eq_some_iff.mp h
    rfl
  · cases h

/-- What the skips say was deferred is recorded, with what was recorded before. -/
theorem recorded_deferralsInPlanSkips (deferred : List DeferredPath) {skip : SkippedEntry} (hskip : skip ∈ plan.skipped)
    (h : (deferralOfSkip skip).isSome = true) :
    ∃ record ∈ deferred ++ deferralsInPlanSkips plan deferred,
      record.relative = skip.relative := by
  by_cases hknown : ∃ record ∈ deferred, record.relative = skip.relative
  · obtain ⟨record, hrecord, hrel⟩ := hknown
    exact ⟨record, List.mem_append_left _ hrecord, hrel⟩
  · obtain ⟨record, hrecord⟩ := Option.isSome_iff_exists.mp h
    refine ⟨record, List.mem_append_right _ (List.mem_filterMap.mpr ⟨skip, ?_, hrecord⟩),
      relative_deferralOfSkip hrecord⟩
    refine List.mem_filter.mpr ⟨hskip, ?_⟩
    simpa using hknown

variable [Unicode]

/-- What has become of a plan without what is doubtful, and of the list of what was left out. -/
structure WithheldBy (walk : Walk) (escaped : List Char → Name) (plan plan' : SyncPlan)
    (deferred deferred' : List DeferredPath) : Prop where
  within : plan'.Within plan
  spared : ∀ a ∈ plan'.deletes,
    keptBySkipped (walk.skipped.map (·.reported escaped)) a.relative = none
  listed : ∀ a ∈ plan'.postDeletes, listingWithholds a.relative walk.incompleteDirectories = false
  recorded : ∀ skip ∈ plan'.skipped, (deferralOfSkip skip).isSome = true →
    ∃ record ∈ deferred', record.relative = skip.relative
  kept : deferred ⊆ deferred'
  tagged : (∀ skip ∈ plan.skipped, skip.Tagged) → ∀ skip ∈ plan'.skipped, skip.Tagged

omit [Unicode] in
theorem skipped_withholdIncomplete (plan : SyncPlan) (incomplete : List RelPath) :
    (withholdDeletionsInIncompleteListings plan incomplete).1.skipped = plan.skipped := by
  simp only [withholdDeletionsInIncompleteListings]
  split <;> rfl

omit [Unicode] in
theorem skipped_protectSkipped (plan : SyncPlan) (skipped : List SkippedRemoteEntry) :
    (protectSkippedRemoteEntries plan skipped).1.skipped = plan.skipped := by
  simp only [protectSkippedRemoteEntries]
  split
  · rfl
  · split <;> rfl

omit [Unicode] in
theorem skipped_withholdComma {ε : Type} {lookup : List Char → Except ε Bool} {R : RemoteInventory}
    (h : withholdCommaAmbiguousMutations lookup plan R = .ok (plan', deferred)) :
    plan'.skipped = plan.skipped := by
  obtain ⟨deletions, _, h⟩ := Loop.bind_eq_ok.mp h
  obtain ⟨renames, _, h⟩ := Loop.bind_eq_ok.mp h
  obtain ⟨copies, _, h⟩ := Loop.bind_eq_ok.mp h
  obtain ⟨rfl, _⟩ := Prod.mk.inj (Except.ok.inj h)
  simp only [withholdAmbiguousDeletions]
  split
  · rfl
  · split <;> rfl

omit [Unicode] in
theorem withholdDoubtful_ok {site : Site} {walk : Walk} {R : RemoteInventory}
    (h : withholdDoubtful site walk R plan deferred = .ok (plan', deferred')) :
    WithheldBy walk site.escaped plan plan' deferred deferred' := by
  obtain ⟨⟨apart, commas⟩, hcomma, hrest⟩ := Loop.bind_eq_ok.mp h
  obtain ⟨rfl, rfl⟩ := Prod.mk.inj (Except.ok.inj hrest)
  have hapart := withholdComma_within (Loop.mapError_eq_ok.mp hcomma)
  obtain ⟨hshort, hlisted⟩ := withholdIncomplete_within plan walk.incompleteDirectories
  obtain ⟨hprotected, hspared⟩ := protectSkipped_within
    (withholdDeletionsInIncompleteListings plan walk.incompleteDirectories).1
    (walk.skipped.map (·.reported site.escaped))
  refine ⟨hapart.trans (hprotected.trans hshort), fun a ha => hspared a (hapart.deletes ha),
    fun a ha => hlisted a (hprotected.post (hapart.post ha)),
    fun skip hskip htagged => recorded_deferralsInPlanSkips _ hskip htagged,
    fun record hrecord => ?_, fun htagged => ?_⟩
  · simp only [List.mem_append]
    exact .inl (.inl (.inl (.inl hrecord)))
  · rw [skipped_withholdComma (Loop.mapError_eq_ok.mp hcomma), skipped_protectSkipped,
      skipped_withholdIncomplete]
    exact htagged

/-- What has become of a plan that has been narrowed, and of the list of what was left out. -/
structure NarrowedBy (walk : Walk) (escaped : List Char → Name) (plan plan' : SyncPlan)
    (deferred deferred' : List DeferredPath) : Prop
    extends WithheldBy walk escaped plan plan' deferred deferred' where
  named : ∀ record ∈ deferred', ∃ skip ∈ plan'.skipped, skip.relative = record.relative

theorem narrowPlan_ok {site : Site} {walk : Walk} {R : RemoteInventory}
    (h : narrowPlan site walk R plan deferred = .ok (plan', deferred')) :
    NarrowedBy walk site.escaped plan plan' deferred deferred' := by
  obtain ⟨⟨apart, before⟩, hdoubtful, hrest⟩ := Loop.bind_eq_ok.mp h
  obtain ⟨⟨promoted, unread⟩, hpromote, hrest⟩ := Loop.bind_eq_ok.mp hrest
  obtain ⟨hplan, rfl⟩ := Prod.mk.inj (Except.ok.inj hrest)
  have hwithheld := withholdDoubtful_ok hdoubtful
  obtain ⟨hpromoted, hskips⟩ := promote_within hpromote
  obtain ⟨hrecorded, hnames, hadded⟩ := recordDeferralsInPlan_names promoted (before ++ unread)
  rw [hplan] at hrecorded hnames hadded
  have hheld := hrecorded.trans hpromoted
  refine ⟨⟨hheld.trans hwithheld.within, fun a ha => hwithheld.spared a (hheld.deletes ha),
    fun a ha => hwithheld.listed a (hheld.post ha), fun skip hskip htagged => ?_,
    fun record hrecord => List.mem_append_left _ (hwithheld.kept hrecord),
    fun htagged skip hskip => ?_⟩, hnames⟩
  · rcases hadded skip hskip with hskip | ⟨record, hrecord, rfl⟩
    · obtain ⟨record, hrecord, hrel⟩ := hwithheld.recorded skip (hskips ▸ hskip) htagged
      exact ⟨record, List.mem_append_left _ hrecord, hrel⟩
    · exact ⟨record, hrecord, rfl⟩
  · rcases hadded skip hskip with hskip | ⟨record, _, rfl⟩
    · exact hwithheld.tagged htagged skip (hskips ▸ hskip)
    · exact .of_deferred record.reason rfl

end Narrow

end DriveSync
