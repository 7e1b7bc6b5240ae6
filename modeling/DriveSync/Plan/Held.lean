import DriveSync.Small
import DriveSync.Plan.Planned

/-!
# DriveSync.Plan.Held

Spellings of what the source holds. A plan should delete none of them, and write no path anew that
the NAS has under another spelling.

* `KeepsSpellings`: what that asks of a plan.
* `SpellingsHeld`: every NAS entry of the fold and kind of a local one is its counterpart, or stays
  for a reason of its own beside a counterpart.
* `keeps_spellings_iff`: the two are the same.
-/

namespace DriveSync

open Path

section Held

variable [Unicode] (L : LocalInventory) (R : RemoteInventory) (rules : IgnoreRules)
  (options : PlanOptions) (resolution : Resolution)

/-- A plan deletes no spelling of a local path, and writes nothing anew (by a creation, an upload to
a missing path or the copy that stands in for one) where the NAS has a spelling that it neither
protects nor reports as left over. -/
structure KeepsSpellings (plan : SyncPlan) : Prop where
  deletes : ∀ a ∈ plan.deletes, ∀ e ∈ R.entries.values, e.relative = a.relative →
    ∀ x ∈ L.entries.values, resolution.shield.covers x.relative = false → x.kind = e.kind →
      portableFold e.relative ≠ portableFold x.relative
  creates : ∀ e ∈ R.entries.values, isProtected e rules resolution.pairs = false →
    resolution.isLeftover e.relative = false → e.kind = .directory →
      ∀ c ∈ plan.creates, portableFold c.remotePath ≠ portableFold e.remotePath
  uploads : ∀ e ∈ R.entries.values, isProtected e rules resolution.pairs = false →
    resolution.isLeftover e.relative = false → e.kind = .file →
      (∀ u ∈ plan.uploads, u.reason = .missingRemote →
        portableFold u.remotePath ≠ portableFold e.remotePath) ∧
      ∀ c ∈ plan.copies, portableFold c.toRemotePath ≠ portableFold e.remotePath

/-- An entry that no local one has as its counterpart and that is not deleted all the same: the
reverse pairing gives it a local entry, it is out of scope, or it is a folder that holds something
kept. -/
def Stays (e : RemoteEntry) : Prop :=
  resolution.pairs.localOf L e.relative ≠ none ∨ options.scope.matches e.relative = false ∨
    e.kind = .directory ∧ ∃ d ∈ R.entries.values, e.relative ∈ d.relative.ancestors ∧
      isKept rules resolution d = true

/-- The NAS has an entry where a local one lies, and a folder where that is a folder. -/
def IsMet (x : LocalEntry) : Prop :=
  ∃ r, resolution.pairs.remoteOf R x.relative = some r ∧
    (x.kind = .directory → r.kind = .directory)

/-- Every unprotected NAS entry of the fold and kind of an unshielded local one that is not left
over is the local one's counterpart, or stays beside one. -/
def SpellingsHeld : Prop :=
  ∀ x ∈ L.entries.values, resolution.shield.covers x.relative = false →
    ∀ e ∈ R.entries.values, portableFold e.relative = portableFold x.relative → e.kind = x.kind →
      isProtected e rules resolution.pairs = false → resolution.isLeftover e.relative = false →
        resolution.pairs.remoteOf R x.relative = some e ∨
          Stays L R rules options resolution e ∧ IsMet R resolution x

variable {L R rules options resolution} {root : RemoteRoot} {plan : SyncPlan}

theorem mirrorDeletion_of_not_stays {e : RemoteEntry} (hdelete : options.delete = true)
    (hrep : ∀ x ∈ L.entries.values, e ∉ replacedBy R resolution x)
    (hprot : isProtected e rules resolution.pairs = false)
    (hcov : resolution.shield.covers e.relative = false)
    (hleft : resolution.isLeftover e.relative = false)
    (h : ¬Stays L R rules options resolution e) : MirrorDeletion L R rules options resolution e := by
  simp only [Stays, not_or, not_and, Decidable.not_not, Bool.not_eq_false, not_exists] at h
  obtain ⟨hloc, hscope, hkept⟩ := h
  refine ⟨hdelete, hloc, hrep, hscope, hprot, hcov, hleft, fun hk d hd hed => ?_⟩
  exact Bool.eq_false_iff.mpr (hkept hk d hd hed)

theorem MirrorDeletion.not_stays {e : RemoteEntry}
    (h : MirrorDeletion L R rules options resolution e) :
    ¬Stays L R rules options resolution e := by
  rintro (hloc | hscope | ⟨hk, d, hd, hed, hkept⟩)
  · exact hloc h.remoteOnly
  · rw [h.inScope] at hscope
    cases hscope
  · rw [h.empties hk d hd hed] at hkept
    cases hkept

omit [Unicode] in
theorem compareFiles_ne_missingRemote {x : LocalEntry} {r : RemoteEntry} {mode : CompareMode} :
    compareFiles x r mode ≠ some .missingRemote := by
  intro h
  simp only [compareFiles] at h
  repeat' split at h
  all_goals cases h

/-- An upload is wanted to a missing path exactly where the NAS has no counterpart. -/
theorem uploadOf_missing {x : LocalEntry} {u : UploadAction}
    (h : uploadOf root R options resolution x = some u) :
    u.reason = .missingRemote ↔ resolution.pairs.remoteOf R x.relative = none := by
  simp only [uploadOf] at h
  split at h
  · cases h
  · split at h
    · rename_i hr
      cases h
      simp [hr]
    · rename_i r hr
      split at h
      · obtain ⟨reason, hreason, rfl⟩ := Option.map_eq_some_iff.mp h
        simp only [hr, reduceCtorEq, iff_false]
        rintro rfl
        exact compareFiles_ne_missingRemote hreason
      · cases h
        simp [hr]

theorem fold_destination (x : LocalEntry) :
    portableFold (destination root (planResolution root L R rules options) x) =
      (portableFold root.path).append (portableFold x.relative) := by
  rw [destination, portableFold, map_append]
  exact congrArg _ (fold_remoteRelative_resolve x.relative)

section Closed

variable (closed : L.entries.ParentClosed LocalEntry.kind) (distinct : L.entries.DistinctFolds)
  (walked : R.Walked root)

include walked in
theorem fold_eq_of_destination {x : LocalEntry} {e : RemoteEntry} (he : e ∈ R.entries.values) :
    portableFold (destination root (planResolution root L R rules options) x) =
        portableFold e.remotePath ↔
      portableFold e.relative = portableFold x.relative := by
  rw [fold_destination, walked.located e he]
  have happend : portableFold (root.path.append e.relative) =
      (portableFold root.path).append (portableFold e.relative) := map_append _ _ _
  rw [happend, (append_injective _).eq_iff, eq_comm]

include closed distinct walked in
theorem spellingsHeld_of_keepsSpellings
    (hp : Planned root L R rules options (planResolution root L R rules options) plan)
    (hdelete : options.delete = true)
    (h : KeepsSpellings L R rules (planResolution root L R rules options) plan) :
    SpellingsHeld L R rules options (planResolution root L R rules options) := by
  intro x hx hcov e he hfold hkind hprot hleft
  by_cases hpair : (planResolution root L R rules options).pairs.remoteOf R x.relative = some e
  · exact .inl hpair
  right
  constructor
  · by_contra hstays
    have hrep : ∀ y ∈ L.entries.values,
        e ∉ replacedBy R (planResolution root L R rules options) y := by
      intro y hy hrep
      obtain ⟨r, hr, rfl, rfl⟩ := not_replaced_above closed distinct hx hy hrep hfold
      exact hpair hr
    have hecov : (planResolution root L R rules options).shield.covers e.relative = false :=
      (Shield.covers_congr hfold).trans hcov
    obtain ⟨a, ha, hrec⟩ := hp.postDeletes_complete e he
      (mirrorDeletion_of_not_stays hdelete hrep hprot hecov hleft hstays)
    exact h.deletes a (List.mem_append_right _ ha) e he hrec.relative.symm x hx hcov hkind.symm hfold
  · by_contra hmet
    have hdest : portableFold (destination root (planResolution root L R rules options) x) =
        portableFold e.remotePath := (fold_eq_of_destination walked he).mpr hfold
    cases hk : x.kind with
    | directory =>
      have hcreate : ∃ a, createOf root R (planResolution root L R rules options) x = some a := by
        rw [createOf, if_neg (by simp [hcov, hk])]
        cases hr : (planResolution root L R rules options).pairs.remoteOf R x.relative with
        | none => exact ⟨_, rfl⟩
        | some r =>
          cases hrk : r.kind with
          | file => exact ⟨_, by simp only [hrk]; rfl⟩
          | directory => exact absurd ⟨r, hr, fun _ => hrk⟩ hmet
      obtain ⟨a, hcreate⟩ := hcreate
      have ha : a ∈ plan.creates := hp.creates.mem_iff.mpr
        (List.mem_append_right _ (List.mem_filterMap.mpr ⟨x, hx, hcreate⟩))
      refine h.creates e he hprot hleft (hkind.trans hk) a ha ?_
      rw [(createOf_eq_some hcreate).2.2.2, hdest]
    | file =>
      have hnone : (planResolution root L R rules options).pairs.remoteOf R x.relative = none := by
        cases hr : (planResolution root L R rules options).pairs.remoteOf R x.relative with
        | none => rfl
        | some r => exact absurd ⟨r, hr, fun hdir => by rw [hk] at hdir; cases hdir⟩ hmet
      have hwanted : ∃ u, uploadOf root R options (planResolution root L R rules options) x =
          some u := by
        rw [uploadOf, if_neg (by simp [hcov, hk]), hnone]
        exact ⟨_, rfl⟩
      obtain ⟨u, hu⟩ := hwanted
      obtain ⟨_, _, _, hpath⟩ := uploadOf_eq_some hu
      obtain ⟨hups, hcops⟩ := h.uploads e he hprot hleft (hkind.trans hk)
      obtain ⟨replaced, mem_up, mem_cop, hof⟩ := exists_replaced hp
      obtain ⟨i, hi⟩ := List.getElem?_of_mem (mem_wantedUploads.mpr ⟨x, hx, hu⟩)
      cases hreplaced : replaced i with
      | none =>
        refine hups u ((mem_up u).mpr ⟨i, hi, hreplaced⟩) ((uploadOf_missing hu).mpr hnone) ?_
        rw [hpath, hdest]
      | some c =>
        refine hcops c ((mem_cop c).mpr ⟨i, u, hi, hreplaced⟩) ?_
        rw [(hof i u hi c hreplaced).toRemotePath, hpath, hdest]

include closed distinct walked in
theorem keepsSpellings_of_spellingsHeld
    (hp : Planned root L R rules options (planResolution root L R rules options) plan)
    (h : SpellingsHeld L R rules options (planResolution root L R rules options)) :
    KeepsSpellings L R rules (planResolution root L R rules options) plan := by
  -- a file written to a missing path has no counterpart
  have hmissing : ∀ x ∈ L.entries.values, ∀ u,
      uploadOf root R options (planResolution root L R rules options) x = some u →
      (planResolution root L R rules options).pairs.remoteOf R x.relative = none →
      ∀ e ∈ R.entries.values,
        isProtected e rules (planResolution root L R rules options).pairs = false →
        (planResolution root L R rules options).isLeftover e.relative = false → e.kind = .file →
          portableFold u.remotePath ≠ portableFold e.remotePath := by
    intro x hx u hu hnone e he hprot hleft hk heq
    obtain ⟨_, hcov, hxk, hpath⟩ := uploadOf_eq_some hu
    rw [hpath] at heq
    have hfold := (fold_eq_of_destination walked he).mp heq
    rcases h x hx hcov e he hfold (hk.trans hxk.symm) hprot hleft with hpair | ⟨_, r, hr, _⟩
    · rw [hnone] at hpair; cases hpair
    · rw [hnone] at hr; cases hr
  refine ⟨?_, ?_, ?_⟩
  · intro a ha e he hrel x hx hcov hkind hfold
    rcases mem_deletes hp he ha hrel with ⟨y, hy, hrep⟩ | hdel
    · -- what is replaced is of another kind than what replaces it
      obtain ⟨r, hr, rfl, rfl⟩ := not_replaced_above closed distinct hx hy hrep hfold
      obtain ⟨_, r', hr', ⟨hk, hrk, _⟩ | ⟨hk, hrk, _⟩⟩ := mem_replacedBy.mp hrep
      all_goals
        rw [hr] at hr'
        rw [← Option.some.inj hr', ← hkind, hk] at hrk
        cases hrk
    · rcases h x hx hcov e he hfold hkind.symm hdel.unprotected hdel.notLeftover with
        hpair | ⟨hstays, _⟩
      · have hrem := hdel.remoteOnly
        rw [Correspondence.localOf, relative_of_remoteOf hpair, planResolution,
          localRelative_remoteRelative closed distinct
            (EntryMap.mem_keys.mpr ⟨x, EntryMap.mem_values.mp hx⟩), EntryMap.mem_values.mp hx] at hrem
        cases hrem
      · exact hdel.not_stays hstays
  · intro e he hprot hleft hk c hc heq
    rcases List.mem_append.mp (hp.creates.mem_iff.mp hc) with hc | hc
    · -- the destination folder lies above every entry
      rw [rootCreates] at hc
      split at hc
      · cases hc
      · rw [List.mem_singleton.mp hc, walked.located e he] at heq
        have hnil := append_injective (portableFold root.path)
          ((append_root _).trans (heq.trans (map_append _ _ _)))
        exact EntryMap.relative_ne_root he (map_eq_root.mp hnil.symm)
    · obtain ⟨x, hx, hxc⟩ := List.mem_filterMap.mp hc
      obtain ⟨_, hcov, hxk, hpath⟩ := createOf_eq_some hxc
      rw [hpath] at heq
      have hfold := (fold_eq_of_destination walked he).mp heq
      have hmet : ∃ r, (planResolution root L R rules options).pairs.remoteOf R x.relative = some r ∧
          r.kind = .directory := by
        rcases h x hx hcov e he hfold (hk.trans hxk.symm) hprot hleft with hpair | ⟨_, r, hr, hrk⟩
        · exact ⟨e, hpair, hk⟩
        · exact ⟨r, hr, hrk hxk⟩
      obtain ⟨r, hr, hrk⟩ := hmet
      rw [createOf, if_neg (by simp [hcov, hxk]), hr] at hxc
      simp [hrk] at hxc
  · intro e he hprot hleft hk
    obtain ⟨replaced, mem_up, mem_cop, hof⟩ := exists_replaced hp
    constructor
    · intro u hu hreason
      obtain ⟨i, hi, _⟩ := (mem_up u).mp hu
      obtain ⟨x, hx, hxu⟩ := mem_wantedUploads.mp (List.mem_of_getElem? hi)
      exact hmissing x hx u hxu ((uploadOf_missing hxu).mp hreason) e he hprot hleft hk
    · intro c hc
      obtain ⟨i, u, hi, hrepl⟩ := (mem_cop c).mp hc
      obtain ⟨x, hx, hxu⟩ := mem_wantedUploads.mp (List.mem_of_getElem? hi)
      have hcopy := hof i u hi c hrepl
      have hnone := hcopy.missing
      rw [(uploadOf_eq_some hxu).1] at hnone
      rw [hcopy.toRemotePath]
      exact hmissing x hx u hxu hnone e he hprot hleft hk

end Closed

/-- A mirror plan keeps every spelling of what the source holds exactly when each is a counterpart or
stays beside one. -/
theorem keeps_spellings_iff (closed : L.entries.ParentClosed LocalEntry.kind)
    (distinct : L.entries.DistinctFolds) (walked : R.Walked root) (hdelete : options.delete = true)
    (h : buildPlan root L R rules options = .ok plan) :
    KeepsSpellings L R rules (planResolution root L R rules options) plan ↔
      SpellingsHeld L R rules options (planResolution root L R rules options) :=
  ⟨spellingsHeld_of_keepsSpellings closed distinct walked (planned_of_buildPlan h) hdelete,
    keepsSpellings_of_spellingsHeld closed distinct walked (planned_of_buildPlan h)⟩

end Held

/-! ## A file the NAS holds under two normalisations

The source holds `K`; the NAS holds it, and another file spelled with the Kelvin sign. -/

namespace TwinFile

open Small

def twin : RelPath := path [name '\u212a']

def localSide : LocalInventory := locals [localFile (path [name 'K']) 1]

def remoteSide : RemoteInventory := remotes [remoteFile (path [name 'K']) 1, remoteFile twin 2]

/-- The other file is deleted. -/
theorem exists_plan_not_keepsSpellings :
    letI := charwise
    ∃ plan, buildPlan root localSide remoteSide noRules mirror = .ok plan ∧
      ¬KeepsSpellings localSide remoteSide noRules
        (planResolution root localSide remoteSide noRules mirror) plan := by
  let := charwise
  obtain ⟨plan, hplan, hdel⟩ := Loop.exists_of_okAnd
    (x := buildPlan root localSide remoteSide noRules mirror)
    (p := fun plan => plan.deletes.any fun a => decide (a.relative = twin)) (by decide +kernel)
  refine ⟨plan, hplan, fun h => ?_⟩
  obtain ⟨a, ha, hrel⟩ := List.any_eq_true.mp hdel
  exact h.deletes a ha (remoteFile twin 2) (by decide +kernel) (of_decide_eq_true hrel).symm
    (localFile (path [name 'K']) 1) (by decide +kernel) (by decide +kernel) rfl (by decide +kernel)

theorem not_keeps_spellings :
    letI := charwise
    localSide.entries.ParentClosed LocalEntry.kind ∧ localSide.entries.DistinctFolds ∧
      remoteSide.entries.ParentClosed RemoteEntry.kind ∧
      ∃ plan, buildPlan root localSide remoteSide noRules mirror = .ok plan ∧
        ¬KeepsSpellings localSide remoteSide noRules
          (planResolution root localSide remoteSide noRules mirror) plan := by
  let := charwise
  exact ⟨by decide +kernel, by decide +kernel, by decide +kernel, exists_plan_not_keepsSpellings⟩

theorem twin_not_held :
    letI := charwise
    ¬SpellingsHeld localSide remoteSide noRules mirror
      (planResolution root localSide remoteSide noRules mirror) := by
  let := charwise
  intro hheld
  obtain ⟨plan, hplan, hnot⟩ := exists_plan_not_keepsSpellings
  exact hnot ((keeps_spellings_iff (by decide +kernel) (by decide +kernel) (by decide +kernel) rfl
    hplan).mpr hheld)

end TwinFile

end DriveSync
