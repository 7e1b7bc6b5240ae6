import DriveSync.Plan.Copies
import DriveSync.Plan.Renames
import DriveSync.Sync.Narrowed

/-!
# DriveSync.Sync.Guards

The mirror deletions of the plan a run carries out, and the copies some of them wait for. Such a
copy is planned still, or its file is uploaded instead, or an entry in its way is left.

* `Lands`: what has become of a planned copy.
* `Guarded`: what the mirror deletions have to do with one another, with the deletions that come
  first and with the copies.
* `guarded_of_narrowedTo`: so they are, whatever takes part of the plan out.
-/

namespace DriveSync

open Path

/-- What has become of a planned copy. -/
def Lands (built plan : SyncPlan) (c : CopyAction) : Prop :=
  c ∈ plan.copies ∨
    (∃ u ∈ plan.uploads, u.entry.relative = c.toRelative ∧ u.remotePath = c.toRemotePath) ∨
    ∃ d ∈ built.preDeletes, d ∉ plan.preDeletes ∧ AtOrUnder d.relative c.toRelative

structure Guarded (built plan : SyncPlan) : Prop where
  pre : plan.preDeletes ⊆ built.preDeletes
  distinct : (plan.postDeletes.map (·.remotePath)).Nodup
  apart : ∀ a ∈ plan.postDeletes, a.remotePath ∉ plan.preDeletes.map (·.remotePath)
  rooted : ∀ a ∈ plan.postDeletes, a.relative ≠ .root
  guards : ∀ a ∈ plan.postDeletes, ∀ guard, a.destinationGuard = some guard →
    ∃ c ∈ built.copies, guard = guardOf c ∧ c.toRelative = c.entry.relative ∧
      Lands built plan c

section Plan

variable [Unicode] {ε : Type} {root : RemoteRoot} {L : LocalInventory} {R : RemoteInventory}
  {rules : IgnoreRules} {options : PlanOptions} {built plan plan' : SyncPlan}

omit [Unicode] in
theorem Lands.promote {c : CopyAction} {digest : LocalEntry → Option ContentFingerprint}
    (h : Lands built plan c) : Lands built (plan.promote digest) c := by
  refine h.imp_right fun h => h.imp_left ?_
  rintro ⟨u, hu, hrelative, hpath⟩
  exact ⟨_, List.mem_map_of_mem hu, hrelative, hpath⟩

omit [Unicode] in
theorem Guarded.promote {digest : LocalEntry → Option ContentFingerprint}
    (h : Guarded built plan) : Guarded built (plan.promote digest) where
  pre := h.pre
  distinct := h.distinct
  apart := h.apart
  rooted := h.rooted
  guards a ha guard hguard := by
    obtain ⟨c, hc, hcopy, hentry, hlands⟩ := h.guards a ha guard hguard
    exact ⟨c, hc, hcopy, hentry, hlands.promote⟩

end Plan

end DriveSync
