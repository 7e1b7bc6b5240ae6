import DriveSync.Small
import DriveSync.Plan.Planned

/-!
# DriveSync.Plan.Kept

What a plan deletes and what it has to leave alone. A mirror deletion and the deletion of a folder
a file replaces ask the protection of every entry they remove. The deletion of a file a folder
replaces does not: `deletesNothingKept_iff` says that this branch is the only way a plan deletes a
protected entry.
-/

namespace DriveSync

open Path

section Kept

variable [Unicode]

/-- No deletion names an entry that is protected or shielded, or a folder with one beneath it. -/
def DeletesNothingKept (R : RemoteInventory) (rules : IgnoreRules) (resolution : Resolution)
    (plan : SyncPlan) : Prop :=
  ∀ a ∈ plan.deletes, ∀ e ∈ R.entries.values, e.relative = a.relative →
    isKept rules resolution e = false ∧
      (e.kind = .directory → ∀ d ∈ R.entries.values, e.relative ∈ d.relative.ancestors →
        isKept rules resolution d = false)

instance (R : RemoteInventory) (rules : IgnoreRules) (resolution : Resolution) (plan : SyncPlan) :
    Decidable (DeletesNothingKept R rules resolution plan) :=
  inferInstanceAs (Decidable (∀ a ∈ plan.deletes, ∀ e ∈ R.entries.values,
    e.relative = a.relative → isKept rules resolution e = false ∧
      (e.kind = .directory → ∀ d ∈ R.entries.values, e.relative ∈ d.relative.ancestors →
        isKept rules resolution d = false)))

variable {root : RemoteRoot} {L : LocalInventory} {R : RemoteInventory} {rules : IgnoreRules}
  {options : PlanOptions} {resolution : Resolution} {plan : SyncPlan}

theorem MirrorDeletion.nothingKept {e : RemoteEntry}
    (h : MirrorDeletion L R rules options resolution e) :
    isKept rules resolution e = false ∧
      (e.kind = .directory → ∀ d ∈ R.entries.values, e.relative ∈ d.relative.ancestors →
        isKept rules resolution d = false) :=
  ⟨isKept_eq_false.mpr ⟨h.unprotected, h.unshielded⟩, h.empties⟩

theorem nothingKept_of_replaced_by_file (h : Planned root L R rules options resolution plan)
    {x : LocalEntry} (hx : x ∈ L.entries.values) (hk : x.kind = .file) {e : RemoteEntry}
    (he : e ∈ replacedBy R resolution x) :
    isKept rules resolution e = false ∧
      (e.kind = .directory → ∀ d ∈ R.entries.values, e.relative ∈ d.relative.ancestors →
        isKept rules resolution d = false) := by
  refine ⟨h.clear x hx hk e he, fun _ d hd hanc => h.clear x hx hk d ?_⟩
  obtain ⟨hcov, r, hr, ⟨hx', _⟩ | ⟨_, hrk, hsub⟩⟩ := mem_replacedBy.mp he
  · rw [hk] at hx'; cases hx'
  · refine mem_replacedBy.mpr ⟨hcov, r, hr, .inr ⟨hk, hrk, ?_⟩⟩
    exact EntryMap.mem_subtree.mpr ⟨hd, (EntryMap.mem_subtree.mp hsub).2.trans (.inr hanc)⟩

/-- A plan deletes nothing protected exactly when no unshielded local folder takes the place of a
protected NAS file: the branch that replaces a file asks neither the rules nor the mount. -/
theorem deletesNothingKept_iff (h : buildPlan root L R rules options = .ok plan) :
    DeletesNothingKept R rules (planResolution root L R rules options) plan ↔
      ∀ x ∈ L.entries.values, x.kind = .directory →
        (planResolution root L R rules options).shield.covers x.relative = false →
        ∀ r, (planResolution root L R rules options).pairs.remoteOf R x.relative = some r →
          r.kind = .file →
            isProtected r rules (planResolution root L R rules options).pairs = false := by
  have hplan := planned_of_buildPlan h
  constructor
  · intro hsafe x hx hk hcov r hr hrk
    have hrep : r ∈ replacedBy R (planResolution root L R rules options) x :=
      mem_replacedBy.mpr ⟨hcov, r, hr, .inl ⟨hk, hrk, rfl⟩⟩
    -- the file is deleted first, under its own path
    obtain ⟨a, hra⟩ := hplan.replaced_deletable x hx r hrep
    have ha := (hplan.mem_preDeletes a).mpr ⟨x, hx, r, hrep, hra⟩
    exact (isKept_eq_false.mp (hsafe a (List.mem_append_left _ ha) r
      (mem_values_of_mem_replacedBy hrep) (deletes_of_deleteAction hra).1.relative.symm).1).1
  · intro hcond a ha e he hrel
    rcases mem_deletes hplan he ha hrel with ⟨x, hx, hrep⟩ | hdel
    · cases hk : x.kind with
      | file => exact nothingKept_of_replaced_by_file hplan hx hk hrep
      | directory =>
        obtain ⟨hcov, r, hr, ⟨_, hrk, rfl⟩ | ⟨hk', _⟩⟩ := mem_replacedBy.mp hrep
        · refine ⟨isKept_eq_false.mpr ⟨hcond x hx hk hcov e hr hrk, ?_⟩, ?_⟩
          · rw [covers_of_remoteOf hr, hcov]
          · intro hdir
            rw [hrk] at hdir
            cases hdir
        · rw [hk] at hk'; cases hk'
    · exact hdel.nothingKept

end Kept

/-! ## A file the rules as typed protect, replaced by a folder -/

namespace ProtectedFile

open Small

def report : RelPath := path [name 'r']

/-- The composed rules re-include the name, the rules as typed exclude it. -/
def rules : IgnoreRules := ⟨fun _ _ => false, fun p _ => decide (p = report)⟩

def localSide : LocalInventory := locals [localFolder report]

def remoteSide : RemoteInventory := remotes [remoteFile report 5]

theorem deletes_protected_file :
    letI := charwise
    localSide.Scanned rules ∧ remoteSide.Walked root ∧
      ∃ plan, buildPlan root localSide remoteSide rules mirror = .ok plan ∧
        ¬DeletesNothingKept remoteSide rules
          (planResolution root localSide remoteSide rules mirror) plan := by
  let := charwise
  have hrun : Loop.okAnd (buildPlan root localSide remoteSide rules mirror) (fun plan =>
      !decide (DeletesNothingKept remoteSide rules
        (planResolution root localSide remoteSide rules mirror) plan)) = true := by
    decide +kernel
  obtain ⟨plan, hplan, hkept⟩ := Loop.exists_of_okAnd hrun
  exact ⟨by decide +kernel, by decide +kernel, plan, hplan, by simpa using hkept⟩

theorem deletes_nothing_kept_without_rule :
    letI := charwise
    ∃ plan, buildPlan root localSide remoteSide noRules mirror = .ok plan ∧
      DeletesNothingKept remoteSide noRules
        (planResolution root localSide remoteSide noRules mirror) plan := by
  let := charwise
  have hrun : Loop.okAnd (buildPlan root localSide remoteSide noRules mirror)
      (fun plan => !plan.preDeletes.isEmpty) = true := by decide +kernel
  obtain ⟨plan, hplan, -⟩ := Loop.exists_of_okAnd hrun
  refine ⟨plan, hplan, (deletesNothingKept_iff hplan).mpr ?_⟩
  have hcond : ∀ x ∈ localSide.entries.values, x.kind = .directory →
      (planResolution root localSide remoteSide noRules mirror).shield.covers x.relative = false →
      ((planResolution root localSide remoteSide noRules mirror).pairs.remoteOf remoteSide
        x.relative).all (fun r => isProtected r noRules
          (planResolution root localSide remoteSide noRules mirror).pairs = false) = true := by
    decide +kernel
  intro x hx hk hcov r hr _
  have := hcond x hx hk hcov
  rw [hr] at this
  simpa using this

end ProtectedFile

end DriveSync
