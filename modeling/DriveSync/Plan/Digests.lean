import DriveSync.Plan.Planned
import DriveSync.Small
import DriveSync.Plan.Selection

/-!
# DriveSync.Plan.Digests

A content-mode plan finds every digest it needs among those its selection asks for.

* `MissedBy`: the ways a plan can fail for a missing digest; `missedBy_of_buildPlan` says there are
  no others.
* `digests_suffice`: with the selected digests a plan fails only for the digest of a file that is
  protected or left over, and that a local entry of another kind replaces.
-/

namespace DriveSync

open Path

section Digests

variable [Unicode]

/-! ## Which digest a plan fails for -/

/-- The ways a plan can fail for a missing digest. -/
inductive MissedBy (L : LocalInventory) (R : RemoteInventory) (rules : IgnoreRules)
    (options : PlanOptions) (resolution : Resolution) (digest : MissingDigest) : Prop
  | replaced {x : LocalEntry} (hx : x ∈ L.entries.values) {e : RemoteEntry}
      (he : e ∈ replacedBy R resolution x) (hdelete : options.delete = true)
      (clear : x.kind = .file → isKept rules resolution e = false)
      (missed : deletionDigest e options.compare = .error (.missingDigest digest))
  | mirror {e : RemoteEntry} (he : e ∈ R.entries.values) (hdelete : options.delete = true)
      (remoteOnly : resolution.pairs.localOf L e.relative = none)
      (unkept : isKept rules resolution e = false)
      (notLeftover : resolution.isLeftover e.relative = false)
      (missed : deletionDigest e options.compare = .error (.missingDigest digest))
  | upload {x : LocalEntry} (hx : x ∈ L.entries.values)
      (hcov : resolution.shield.covers x.relative = false) (hfile : x.kind = .file)
      (missing : resolution.pairs.remoteOf R x.relative = none)
      (missed : ∀ d, x.contentMd5 = some d → d.hasFullProof = false)

variable {root : RemoteRoot} {L : LocalInventory} {R : RemoteInventory} {rules : IgnoreRules}
  {options : PlanOptions} {resolution : Resolution} {digest : MissingDigest}

omit [Unicode] in
theorem joinRemote_ne_missingDigest {p : RelPath} :
    joinRemote root p ≠ .error (.missingDigest digest) := by
  intro h
  obtain ⟨_, _, h⟩ := Loop.mapError_eq_error.mp h
  cases h

omit [Unicode] in
theorem scheduleCreate_ne_missingDigest {plan : SyncPlan} {x : LocalEntry} {p : RelPath}
    {reason : ChangeReason} :
    scheduleCreate root plan x p reason ≠ .error (.missingDigest digest) := by
  intro h
  rcases Loop.bind_eq_error.mp h with h | ⟨_, _, h⟩
  · exact joinRemote_ne_missingDigest h
  · cases h

omit [Unicode] in
theorem scheduleUpload_ne_missingDigest {plan : SyncPlan} {x : LocalEntry} {p : RelPath}
    {reason : ChangeReason} {expected : Option RemoteSnapshot} :
    scheduleUpload root plan x p reason expected ≠ .error (.missingDigest digest) := by
  intro h
  rcases Loop.bind_eq_error.mp h with h | ⟨_, _, h⟩
  · exact joinRemote_ne_missingDigest h
  · cases h

omit [Unicode] in
theorem deleteAction_eq_error {pairs : Correspondence} {compare : CompareMode} {conflict : Bool}
    {e : RemoteEntry} {error : PlanError}
    (h : deleteAction pairs R compare conflict e = .error error) :
    deletionDigest e compare = .error error := by
  rcases Loop.bind_eq_error.mp h with h | ⟨_, _, h⟩
  · rcases Loop.bind_eq_error.mp h with h | ⟨_, _, h⟩
    · exact h
    · cases h
  · cases h

omit [Unicode] in
theorem pushPredelete_eq_error {pairs : Correspondence} {compare : CompareMode} {draft : Draft}
    {e : RemoteEntry} {error : PlanError} (h : pushPredelete pairs R compare draft e = .error error) :
    deletionDigest e compare = .error error := by
  simp only [pushPredelete] at h
  split at h
  · cases h
  · rcases Loop.bind_eq_error.mp h with h | ⟨_, _, h⟩
    · exact deleteAction_eq_error h
    · cases h

theorem missedBy_of_planEntry {draft : Draft} {x : LocalEntry} (hx : x ∈ L.entries.values)
    (h : planEntry root R rules options resolution draft x = .error (.missingDigest digest)) :
    MissedBy L R rules options resolution digest := by
  simp only [planEntry] at h
  split at h
  · cases h
  · rename_i hcov
    rw [Bool.not_eq_true] at hcov
    split at h
    · rcases Loop.bind_eq_error.mp h with h | ⟨_, _, h⟩
      · simp only [scheduleMissing] at h
        split at h
        · exact absurd h scheduleCreate_ne_missingDigest
        · exact absurd h scheduleUpload_ne_missingDigest
      · cases h
    · rename_i r hr
      split at h
      · cases h
      · split at h
        · cases h
        · rcases Loop.bind_eq_error.mp h with h | ⟨_, _, h⟩
          · exact absurd h scheduleUpload_ne_missingDigest
          · cases h
      · rename_i hk hrk
        split at h
        · cases h
        · rename_i hdelete
          have hrep : r ∈ replacedBy R resolution x :=
            mem_replacedBy.mpr ⟨hcov, r, hr, .inl ⟨hk, hrk, rfl⟩⟩
          rcases Loop.bind_eq_error.mp h with h | ⟨_, _, h⟩
          · exact .replaced hx hrep (by simpa using hdelete) (fun hfile => by simp [hk] at hfile)
              (pushPredelete_eq_error h)
          · rcases Loop.bind_eq_error.mp h with h | ⟨_, _, h⟩
            · exact absurd h scheduleCreate_ne_missingDigest
            · cases h
      · rename_i hk hrk
        split at h
        · cases h
        · rename_i hdelete
          split at h
          · cases h
          · rename_i hkept
            rcases Loop.bind_eq_error.mp h with h | ⟨_, _, h⟩
            · obtain ⟨e, he, _, hpush⟩ := Loop.exists_of_foldlM_error h
              have hrep : e ∈ replacedBy R resolution x :=
                mem_replacedBy.mpr ⟨hcov, r, hr, .inr ⟨hk, hrk, he⟩⟩
              refine .replaced hx hrep (by simpa using hdelete) (fun _ => ?_)
                (pushPredelete_eq_error hpush)
              rw [Bool.not_eq_true, List.any_eq_false] at hkept
              exact Bool.not_eq_true _ ▸ hkept e he
            · rcases Loop.bind_eq_error.mp h with h | ⟨_, _, h⟩
              · exact absurd h scheduleUpload_ne_missingDigest
              · cases h

omit [Unicode] in
theorem parentAndName_ne_missingDigest {p : RelPath} :
    (parentAndName p).mapError PlanError.unsafeRemotePath ≠ .error (.missingDigest digest) := by
  intro h
  obtain ⟨_, _, h⟩ := Loop.mapError_eq_error.mp h
  cases h

omit [Unicode] in
theorem copyFor_ne_missingDigest {uploads : List UploadAction} {targets : List (ContentKey × Nat)}
    {sources : List (ContentKey × RemoteEntry)} {target : ContentKey × Nat} :
    copyFor uploads targets sources target ≠ .error (.missingDigest digest) := by
  intro h
  simp only [copyFor] at h
  split at h
  · rcases Loop.bind_eq_error.mp h with h | ⟨_, _, h⟩
    · exact parentAndName_ne_missingDigest h
    · rcases Loop.bind_eq_error.mp h with h | ⟨_, _, h⟩
      · exact parentAndName_ne_missingDigest h
      · split at h <;> cases h
  · cases h

omit [Unicode] in
/-- An upload fails for a digest that is missing, or only an MD5, of a file the NAS does not hold. -/
theorem copyTarget_eq_missingDigest {indexed : UploadAction × Nat}
    (h : copyTarget R resolution indexed = .error (.missingDigest digest)) :
    resolution.pairs.remoteOf R indexed.1.entry.relative = none ∧
      ∀ d, indexed.1.entry.contentMd5 = some d → d.hasFullProof = false := by
  simp only [copyTarget] at h
  split at h
  · cases h
  · rename_i hmissing
    have hnone : resolution.pairs.remoteOf R indexed.1.entry.relative = none := by
      simpa using (not_or.mp hmissing).2
    refine ⟨hnone, fun d hd => ?_⟩
    split at h
    · rename_i hno
      rw [hno] at hd
      cases hd
    · rename_i d' hd'
      rw [hd'] at hd
      obtain rfl := Option.some.inj hd
      split at h
      · cases h
      · rename_i hproof
        exact Bool.not_eq_true _ ▸ hproof

theorem missedBy_of_planCopies {plan : SyncPlan} (hsource : ∀ u ∈ plan.uploads,
      u ∈ wantedUploads root L R options resolution)
    (h : planCopies L R rules options resolution plan = .error (.missingDigest digest)) :
    MissedBy L R rules options resolution digest := by
  simp only [planCopies] at h
  split at h
  · simp only [replaceUploadsWithServerCopies] at h
    split at h
    · cases h
    · rcases Loop.bind_eq_error.mp h with h | ⟨_, _, h⟩
      · obtain ⟨⟨u, i⟩, hu, htarget⟩ := Loop.exists_of_mapM_error h
        obtain ⟨hmissing, hmissed⟩ := copyTarget_eq_missingDigest htarget
        have hmem := hsource u (List.mem_of_getElem? (List.mem_zipIdx_iff_getElem?.mp hu))
        obtain ⟨x, hx, hxu⟩ := mem_wantedUploads.mp hmem
        obtain ⟨hentry, hcov, hfile, _⟩ := uploadOf_eq_some hxu
        simp only [hentry] at hmissing hmissed
        exact .upload hx hcov hfile hmissing hmissed
      · rcases Loop.bind_eq_error.mp h with h | ⟨_, _, h⟩
        · obtain ⟨target, _, hcopy⟩ := Loop.exists_of_mapM_error h
          exact absurd hcopy copyFor_ne_missingDigest
        · cases h
  · cases h

theorem planRename_ne_missingDigest {plan : SyncPlan} {rename : RelPath × RelPath} :
    planRename R rules options resolution plan rename ≠ .error (.missingDigest digest) := by
  intro h
  simp only [planRename] at h
  split at h
  · cases h
  · split at h
    · split at h
      · cases h
      · rcases Loop.bind_eq_error.mp h with h | ⟨_, _, h⟩
        · exact parentAndName_ne_missingDigest h
        · cases h
    · cases h

theorem missedBy_of_planDeletions {predeleted : Std.TreeSet RelPath} {kept : KeptFolders}
    {plan : SyncPlan} (h : planDeletions L R rules options resolution predeleted kept plan =
      .error (.missingDigest digest)) : MissedBy L R rules options resolution digest := by
  simp only [planDeletions] at h
  split at h
  · cases h
  · rename_i hdelete
    rcases Loop.bind_eq_error.mp h with h | ⟨_, _, h⟩
    · obtain ⟨e, he, s, hstep⟩ := Loop.exists_of_foldlM_error h
      simp only [planDeletion] at hstep
      split at hstep
      · cases hstep
      · rename_i hlocal
        rw [Bool.or_eq_true, not_or] at hlocal
        split at hstep
        · cases hstep
        · split at hstep
          · cases hstep
          · rename_i hprot
            split at hstep
            · cases hstep
            · rename_i hcov
              rw [Bool.or_eq_true, not_or, Bool.not_eq_true, Bool.not_eq_true] at hcov
              split at hstep
              · split at hstep
                · split at hstep <;> cases hstep
                · cases hstep
              · rcases Loop.bind_eq_error.mp hstep with hstep | ⟨_, _, hstep⟩
                · exact .mirror he (by simpa using hdelete) (by simpa using hlocal.1)
                    (isKept_eq_false.mpr ⟨Bool.not_eq_true _ ▸ hprot, hcov.1⟩) hcov.2
                    (deleteAction_eq_error hstep)
                · cases hstep
    · cases h

/-- There is no other way a plan fails for a digest. -/
theorem missedBy_of_buildPlan
    (h : buildPlan root L R rules options = .error (.missingDigest digest)) :
    MissedBy L R rules options (planResolution root L R rules options) digest := by
  rw [buildPlan, buildPlanOn] at h
  rcases Loop.bind_eq_error.mp h with h | ⟨start, hstart, h⟩
  · simp only [createRoot] at h
    split at h
    · cases h
    · split at h <;> cases h
  · rcases Loop.bind_eq_error.mp h with h | ⟨_, _, h⟩
    · simp only [refuseMounts] at h
      split at h <;> cases h
    · rcases Loop.bind_eq_error.mp h with h | ⟨draft, hdraft, h⟩
      · obtain ⟨x, hx, _, hentry⟩ := Loop.exists_of_foldlM_error h
        exact missedBy_of_planEntry hx hentry
      · rcases Loop.bind_eq_error.mp h with h | ⟨copied, _, h⟩
        · have hstart := createRoot_eq_ok hstart
          have hentries := entries_planned (by rw [hstart]; rfl) hdraft
          have hwanted : ∀ u ∈ draft.plan.uploads, u ∈ wantedUploads root L R options
              (planResolution root L R rules options) := by
            intro u hu
            rw [hentries.frame, hstart] at hu
            exact hu
          exact missedBy_of_planCopies hwanted h
        · rcases Loop.bind_eq_error.mp h with h | ⟨renamed, _, h⟩
          · obtain ⟨_, _, _, hrename⟩ := Loop.exists_of_foldlM_error h
            exact absurd hrename planRename_ne_missingDigest
          · rcases Loop.bind_eq_error.mp h with h | ⟨_, _, h⟩
            · exact missedBy_of_planDeletions h
            · simp only [checkLimits] at h
              split at h
              · cases h
              · split at h <;> cases h

/-! ## The digests selected are the digests needed -/

/-- The digests a run takes for its selection: one of every file to compare, a full fingerprint of
what has to be strong, and of the local files a full one where the selection compares none. -/
structure Digested (L : LocalInventory) (R : RemoteInventory)
    (selection : List RelPath × List RelPath) : Prop where
  comparison : ∀ e ∈ R.entries.values, e.relative ∈ selection.1 → e.contentMd5.isSome = true
  strong : ∀ e ∈ R.entries.values, e.relative ∈ selection.2 →
    e.contentMd5.any (·.hasFullProof) = true
  loc : ∀ x ∈ L.entries.values, x.kind = .file → x.contentMd5.isSome = true ∧
    (x.relative ∉ selection.1 → x.contentMd5.any (·.hasFullProof) = true)

omit [Unicode] in
theorem missed_of_deletionDigest {e : RemoteEntry} {compare : CompareMode}
    (h : deletionDigest e compare = .error (.missingDigest digest)) :
    e.kind = .file ∧ e.size ≠ 0 ∧ e.contentMd5.any (·.hasFullProof) = false := by
  simp only [deletionDigest] at h
  split at h
  · rename_i hneeded
    refine ⟨hneeded.2.1, Nat.ne_of_gt hneeded.2.2, ?_⟩
    split at h
    · rename_i hnone
      rw [hnone]
      rfl
    · rename_i fingerprint hsome
      split at h
      · cases h
      · rename_i hproof
        rw [hsome]
        exact Bool.not_eq_true _ ▸ hproof
  · cases h

omit [Unicode] in
/-- A comparison lacks a digest only of files of one size that are not empty. -/
theorem missing_of_compareFiles {x : LocalEntry} {r : RemoteEntry} {reason : ChangeReason}
    (h : compareFiles x r .content = some reason)
    (hreason : reason = .remoteDigestUnavailable ∨ reason = .localDigestUnavailable) :
    x.size ≠ 0 ∧ r.size = x.size ∧ (x.contentMd5 = none ∨ r.contentMd5 = none) := by
  simp only [compareFiles, reduceCtorEq, if_false] at h
  split at h
  · obtain rfl := Option.some.inj h
    simp at hreason
  · rename_i hsize
    split at h
    · split at h
      · obtain rfl := Option.some.inj h
        simp at hreason
      · cases h
    · rename_i hne
      split at h
      · split at h
        · cases h
        · cases h
        · obtain rfl := Option.some.inj h
          simp at hreason
      · rename_i hno
        refine ⟨hne, (Decidable.not_not.mp hsize).symm, ?_⟩
        cases hx : x.contentMd5 with
        | none => exact .inl rfl
        | some d =>
          cases hr : r.contentMd5 with
          | none => exact .inr rfl
          | some d' => exact absurd hr (hno d d' hx)

theorem not_file_of_mem_replacedBy (closed : L.entries.ParentClosed LocalEntry.kind)
    (distinct : L.entries.DistinctFolds) {x y : LocalEntry} (hx : x ∈ L.entries.values)
    {e : RemoteEntry} (he : e ∈ replacedBy R (planResolution root L R rules options) x)
    (hek : e.kind = .file)
    (hy : (planResolution root L R rules options).pairs.localOf L e.relative = some y) :
    y.kind ≠ .file := by
  intro hyk
  have hymem := EntryMap.mem_values_of_get? hy
  have hyrel : y.relative = (planResolution root L R rules options).pairs.localRelative e.relative :=
    EntryMap.relative_of_get? hy
  have hyfold : portableFold y.relative = portableFold e.relative := by
    rw [hyrel]
    exact fold_localRelative_resolve e.relative
  obtain ⟨_, r, hr, hcase⟩ := mem_replacedBy.mp he
  have hrx : portableFold r.relative = portableFold x.relative := by
    rw [relative_of_remoteOf hr]
    exact fold_remoteRelative_resolve x.relative
  rcases hcase with ⟨hk, _, rfl⟩ | ⟨hk, hrk, hsub⟩
  · have : y = x := distinct y hymem x hx (hyfold.trans hrx)
    rw [this, hk] at hyk
    cases hyk
  · -- the counterpart of what lies beneath the folder would lie beneath a local file
    obtain ⟨hemem, hre⟩ := EntryMap.mem_subtree.mp hsub
    have hyx : y = x := by
      refine eq_of_fold_beneath_file closed distinct hx hk hymem ?_
      rw [hyfold, ← hrx]
      exact hre.map
    have hdepth : r.relative.depth = e.relative.depth := by
      have := congrArg Path.depth (hrx.trans (hyx ▸ hyfold))
      simpa [portableFold] using this
    have hrel := eq_of_atOrUnder_of_depth hre (.inl rfl) hdepth
    rw [EntryMap.eq_of_relative_eq (EntryMap.mem_values_of_get? hr) hemem hrel, hek] at hrk
    cases hrk

theorem exists_file_of_undigested (scanned : L.Scanned rules) {delete : Bool}
    (hdelete : delete = true) {incomplete : List RelPath} {L' : LocalInventory}
    (hL' : L' = withholdByListing L R rules delete incomplete) {serverCopy : Bool}
    {refused : List SkippedEntry}
    (strong : ∀ e ∈ R.entries.values,
      e.relative ∈ (selectPlanDigests L' R rules serverCopy delete incomplete).2 →
        e.contentMd5.any (·.hasFullProof) = true)
    {e : RemoteEntry} (he : e ∈ R.entries.values) (hfile : e.kind = .file) (hsize : e.size ≠ 0)
    (hproof : e.contentMd5.any (·.hasFullProof) = false)
    (hkept : isKept rules (resolve L' R rules delete refused) e = false)
    (hleft : (resolve L' R rules delete refused).isLeftover e.relative = false) :
    ∃ y, (resolve L' R rules delete refused).pairs.localOf L' e.relative = some y ∧
      y.kind = .file := by
  subst hdelete hL'
  by_contra hno
  obtain ⟨hprot, hcov⟩ := isKept_eq_false.mp hkept
  rw [strong e he (mem_strong_of_deletable scanned he hfile hsize hprot hcov hleft
    fun y hy hyk => hno ⟨y, hy, hyk⟩)] at hproof
  cases hproof

section Selected

variable {incomplete : List RelPath} {selection : List RelPath × List RelPath}

/-- A local file whose digest is only an MD5 is compared with an entry, which the plan finds too. -/
theorem remoteOf_of_undigested (scanned : L.Scanned rules)
    (hselection : selection = selectPlanDigests L R rules options.serverCopy options.delete
      incomplete) (digested : Digested L R selection) {x : LocalEntry} (hx : x ∈ L.entries.values)
    (hcov : (planResolution root L R rules options).shield.covers x.relative = false)
    (hfile : x.kind = .file)
    (missed : ∀ d, x.contentMd5 = some d → d.hasFullProof = false) :
    (planResolution root L R rules options).pairs.remoteOf R x.relative ≠ none := by
  obtain ⟨hsome, hfull⟩ := digested.loc x hx hfile
  have hcompared : x.relative ∈ selection.1 := by
    by_contra hno
    obtain ⟨d, hd⟩ := Option.isSome_iff_exists.mp hsome
    have hproof := hfull hno
    rw [hd, Option.any_some, missed d hd] at hproof
    cases hproof
  rw [hselection] at hcompared
  obtain ⟨y, hy, _, r, hr, hrel, _⟩ := mem_comparisonCandidates.mp hcompared
  obtain rfl : y = x := by
    refine scanned.distinct y hy x hx ?_
    rw [← hrel, relative_of_remoteOf hr]
    exact (fold_remoteRelative_resolve y.relative).symm
  intro hnone
  rw [Correspondence.remoteOf, remoteRelative_eq_of_not_covers
    (withheld_of_refused L (pathsTheDestinationRefuses root L)) scanned.closed
    scanned.distinct (Bool.eq_false_iff.mpr fun hcov' => by
      rw [planResolution, covers_resolve_of_blocked hcov'] at hcov
      cases hcov)] at hr
  cases hnone.symm.trans hr

/-- No upload is planned for want of a digest. -/
theorem reason_of_digested (scanned : L.Scanned rules) (mode : options.compare = .content)
    (hselection : selection = selectPlanDigests L R rules options.serverCopy options.delete
      incomplete) (digested : Digested L R selection) {plan : SyncPlan}
    (hplan : buildPlan root L R rules options = .ok plan) {u : UploadAction}
    (hu : u ∈ plan.uploads) :
    u.reason ≠ .remoteDigestUnavailable ∧ u.reason ≠ .localDigestUnavailable := by
  obtain ⟨replaced, hup, _⟩ := exists_replaced (planned_of_buildPlan hplan)
  obtain ⟨i, hi, _⟩ := (hup u).mp hu
  obtain ⟨x, hx, hxu⟩ := mem_wantedUploads.mp (List.mem_of_getElem? hi)
  obtain ⟨_, hcov, hfile, _⟩ := uploadOf_eq_some hxu
  rw [← not_or]
  intro hreason
  simp only [uploadOf, hcov, hfile, Bool.false_eq_true, reduceCtorEq, or_self, if_false] at hxu
  split at hxu
  · obtain rfl := Option.some.inj hxu
    simp at hreason
  · rename_i r hr
    split at hxu
    · rename_i hrk
      obtain ⟨reason, hcompare, rfl⟩ := Option.map_eq_some_iff.mp hxu
      rw [mode] at hcompare
      obtain ⟨hsize, hrs, hnone⟩ := missing_of_compareFiles hcompare hreason
      have hmem : r.relative ∈ selection.1 := by
        rw [hselection]
        exact mem_comparison_of_not_covers scanned hx hfile hsize hcov hr hrk hrs
      rcases hnone with hnone | hnone
      · have hsome := (digested.loc x hx hfile).1
        rw [hnone] at hsome
        cases hsome
      · have hsome := digested.comparison r (EntryMap.mem_values_of_get? hr) hmem
        rw [hnone] at hsome
        cases hsome
    · obtain rfl := Option.some.inj hxu
      simp at hreason

end Selected

/-- With the digests selected, a plan fails only for the digest of a file that is protected or left
over, and that a local entry of another kind replaces; and no upload is for want of one. -/
theorem digests_suffice (scanned : L.Scanned rules) (mode : options.compare = .content)
    {incomplete : List RelPath} {L' : LocalInventory}
    (hL' : L' = withholdByListing L R rules options.delete incomplete)
    {selection : List RelPath × List RelPath}
    (hselection : selection = selectPlanDigests L' R rules options.serverCopy options.delete
      incomplete) (digested : Digested L' R selection) :
    (∀ digest, buildPlan root L' R rules options = .error (.missingDigest digest) →
      ∃ x ∈ L'.entries.values, ∃ e ∈ replacedBy R (planResolution root L' R rules options) x,
        deletionDigest e .content = .error (.missingDigest digest) ∧ e.kind = .file ∧ e.size ≠ 0 ∧
          (isProtected e rules (planResolution root L' R rules options).pairs = true ∨
            (planResolution root L' R rules options).isLeftover e.relative = true)) ∧
    (∀ plan, buildPlan root L' R rules options = .ok plan → ∀ u ∈ plan.uploads,
      u.reason ≠ .remoteDigestUnavailable ∧ u.reason ≠ .localDigestUnavailable) ∧
    ∀ p ∈ selection.1, p ∉ selection.2 := by
  have scanned' : L'.Scanned rules := hL' ▸ scanned_withholdByListing scanned
  refine ⟨?_, fun plan hplan u => reason_of_digested scanned' mode hselection digested hplan, ?_⟩
  · intro digest herror
    cases missedBy_of_buildPlan herror with
    | @replaced x hx e he hdelete clear missed =>
      obtain ⟨hfile, hsize, hproof⟩ := missed_of_deletionDigest missed
      refine ⟨x, hx, e, he, mode ▸ missed, hfile, hsize, ?_⟩
      by_contra hno
      rw [not_or, Bool.not_eq_true, Bool.not_eq_true] at hno
      have hcov : (planResolution root L' R rules options).shield.covers e.relative = false := by
        obtain ⟨hxcov, r, hr, ⟨_, _, rfl⟩ | ⟨hk, _, _⟩⟩ := mem_replacedBy.mp he
        · rw [covers_of_remoteOf hr]
          exact hxcov
        · exact (isKept_eq_false.mp (clear hk)).2
      obtain ⟨y, hy, hyk⟩ := exists_file_of_undigested scanned hdelete hL'
        (hselection ▸ digested.strong) (mem_values_of_mem_replacedBy he) hfile hsize hproof
        (isKept_eq_false.mpr ⟨hno.1, hcov⟩) hno.2
      exact not_file_of_mem_replacedBy scanned'.closed scanned'.distinct hx he hfile hy hyk
    | @mirror e he hdelete remoteOnly unkept notLeftover missed =>
      obtain ⟨hfile, hsize, hproof⟩ := missed_of_deletionDigest missed
      obtain ⟨y, hy, _⟩ := exists_file_of_undigested scanned hdelete hL'
        (hselection ▸ digested.strong) he hfile hsize hproof unkept notLeftover
      rw [planResolution, hy] at remoteOnly
      cases remoteOnly
    | @upload x hx hcov hfile missing missed =>
      exact absurd missing
        (remoteOf_of_undigested scanned' hselection digested hx hcov hfile missed)
  · intro p hp
    subst hselection
    exact selectPlanDigests_disjoint scanned' hp

end Digests

/-! ## A name the NAS holds in two cases, in a folder listed short

The source holds the folder `a`; the NAS holds the files `a` and `A`, and listed their folder short.
The deletion of `a` is withheld; without `a` in the inventory `A` is no longer its leftover. Both
hold the file `b`. -/

namespace ShortListing

open Small

def digest : ContentFingerprint := ⟨0, none⟩

def localSide : LocalInventory :=
  locals [localFolder (path [name 'a']),
    { localFile (path [name 'b']) 1 with contentMd5 := some digest }]

def remoteSide : RemoteInventory :=
  remotes [remoteFile (path [name 'a']) 5, remoteFile (path [name 'A']) 7,
    { remoteFile (path [name 'b']) 1 with contentMd5 := some digest }]

def options : PlanOptions := { mirror with compare := .content }

/-- The remote inventory without the files whose deletion a short listing withholds. -/
def takenOut [Unicode] (L : LocalInventory) (R : RemoteInventory) (rules : IgnoreRules)
    (incomplete : List RelPath) : RemoteInventory :=
  { R with
    entries := (deletionsWithheldByListing L R rules incomplete).foldl EntryMap.erase R.entries }

theorem digested_of_all (L : LocalInventory) (R : RemoteInventory)
    (selection : List RelPath × List RelPath)
    (h : ((R.entries.values.all fun e => selection.1.all fun p =>
          decide (p ≠ e.relative) || e.contentMd5.isSome) &&
        (R.entries.values.all fun e => selection.2.all fun p =>
          decide (p ≠ e.relative) || e.contentMd5.any (·.hasFullProof)) &&
        (L.entries.values.all fun x => decide (x.kind ≠ .file) || x.contentMd5.isSome &&
          (selection.1.any (fun p => decide (p = x.relative)) ||
            x.contentMd5.any (·.hasFullProof)))) = true) : Digested L R selection := by
  simp only [Bool.and_eq_true, List.all_eq_true, Bool.or_eq_true, decide_eq_true_eq,
    List.any_eq_true] at h
  obtain ⟨⟨hcomparison, hstrong⟩, hloc⟩ := h
  refine ⟨fun e he hp => ?_, fun e he hp => ?_, fun x hx hk => ?_⟩
  · exact (hcomparison e he _ hp).resolve_left (fun hne => hne rfl)
  · exact (hstrong e he _ hp).resolve_left (fun hne => hne rfl)
  · obtain ⟨hsome, hfull⟩ := (hloc x hx).resolve_left (fun hne => hne hk)
    refine ⟨hsome, fun hno => hfull.resolve_left ?_⟩
    rintro ⟨p, hp, rfl⟩
    exact hno hp

/-- With the withheld files out of the remote inventory, a plan can fail for a digest that is
selected of neither inventory. -/
theorem not_digests_suffice : letI := charwise
    ¬∀ (root : RemoteRoot) (L : LocalInventory) (R : RemoteInventory) (rules : IgnoreRules)
      (options : PlanOptions) (incomplete : List RelPath), L.Scanned rules → R.Walked root →
      options.compare = .content →
      Digested L (takenOut L R rules incomplete)
        (selectPlanDigests L R rules options.serverCopy options.delete incomplete) →
      Digested L (takenOut L R rules incomplete)
        (selectPlanDigests L (takenOut L R rules incomplete) rules options.serverCopy
          options.delete incomplete) →
      ∀ digest, buildPlan root L (takenOut L R rules incomplete) rules options ≠
        .error (.missingDigest digest) := by
  let := charwise
  intro h
  have hfails : (match buildPlan root localSide (takenOut localSide remoteSide noRules [.root])
      noRules options with
    | .error (.missingDigest _) => true
    | _ => false) = true := by decide +kernel
  have hno := h root localSide remoteSide noRules options [.root] (by decide +kernel)
    (by decide +kernel) rfl (digested_of_all _ _ _ (by decide +kernel))
    (digested_of_all _ _ _ (by decide +kernel))
  split at hfails
  · rename_i digest heq
    exact hno digest heq
  · cases hfails

/-- The run withholds the deletion from the local side instead, and finds every digest it needs. -/
theorem digests_suffice_withheld : letI := charwise
    let L' := withholdByListing localSide remoteSide noRules true [.root]
    let selection := selectPlanDigests L' remoteSide noRules false true [.root]
    (∀ digest, buildPlan root L' remoteSide noRules options = .error (.missingDigest digest) →
      ∃ x ∈ L'.entries.values,
        ∃ e ∈ replacedBy remoteSide (planResolution root L' remoteSide noRules options) x,
          deletionDigest e .content = .error (.missingDigest digest) ∧ e.kind = .file ∧
            e.size ≠ 0 ∧
            (isProtected e noRules (planResolution root L' remoteSide noRules options).pairs = true ∨
              (planResolution root L' remoteSide noRules options).isLeftover e.relative = true)) ∧
    (∀ plan, buildPlan root L' remoteSide noRules options = .ok plan → ∀ u ∈ plan.uploads,
      u.reason ≠ .remoteDigestUnavailable ∧ u.reason ≠ .localDigestUnavailable) ∧
    ∀ p ∈ selection.1, p ∉ selection.2 := by
  let := charwise
  have scanned : localSide.Scanned noRules := by decide +kernel
  have hdigested : Digested (withholdByListing localSide remoteSide noRules true [.root]) remoteSide
      (selectPlanDigests (withholdByListing localSide remoteSide noRules true [.root]) remoteSide
        noRules false true [.root]) := digested_of_all _ _ _ (by decide +kernel)
  exact digests_suffice scanned (show options.compare = .content from rfl) rfl rfl hdigested

end ShortListing

end DriveSync
