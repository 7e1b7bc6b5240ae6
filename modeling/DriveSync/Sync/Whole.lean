import DriveSync.Sync.Uploads

/-!
# DriveSync.Sync.Whole

What a whole run does: its phases put together. A planned write is sent only while no deferral that
was there when the write phases began covers it (`wp_plannedWrites`).
-/

namespace DriveSync

open Path Prog

section Run

variable [Unicode] {acts : RunEntry → Prop} {env : Env runInterface}
  {w w' : World runInterface Run} {plan : SyncPlan}

/-- A write is closed, never opened again. -/
theorem returns_excludeCovered {α : Type} {relative : α → RelPath} {slots : List (Slot α)} :
    Returns (fun slots' => ∀ slot ∈ openActions slots', slot ∈ openActions slots)
      (excludeCovered relative slots) := by
  refine returns_bind fun run => returns_bind fun _ => returns_pure ?_
  intro slot hslot
  obtain ⟨hmem, hopen⟩ := List.mem_filter.mp hslot
  obtain ⟨slot', hslot', rfl⟩ := List.mem_map.mp hmem
  split at hopen
  · cases hopen
  · rename_i h
    rw [if_neg h]
    exact List.mem_filter.mpr ⟨hslot', hopen⟩

theorem mem_openActions_slotsOf {α : Type} {deferrals : DeferralIndex} {mk : Nat → Write}
    (relative : α → RelPath) {actions : List α} {slot : Slot α}
    (h : slot ∈ openActions (slotsOf deferrals mk relative actions)) :
    slot.action ∈ actions ∧ (deferrals.covering (relative slot.action)).isNone = true := by
  obtain ⟨hmem, hopen⟩ := List.mem_filter.mp h
  obtain ⟨⟨action, index⟩, hzip, rfl⟩ := List.mem_map.mp hmem
  exact ⟨List.fst_mem_of_mem_zipIdx hzip, hopen⟩

/-- What a part may do about the writes that no deferral of an index covers. -/
structure PlannedActs (acts : RunEntry → Prop) (deferrals : DeferralIndex) (plan : SyncPlan) :
    Prop where
  creates : ∀ a ∈ plan.creates, (deferrals.covering a.relative).isNone = true → CreateActs acts a
  copies : ∀ a ∈ plan.copies, (deferrals.covering a.toRelative).isNone = true → CopyActs acts a
  uploads : ∀ a ∈ plan.uploads,
    (deferrals.covering a.entry.relative).isNone = true → UploadActs acts a

/-- What follows the creates: the copies and the uploads. -/
def laterWrites (plan : SyncPlan) (jobs : Nat) (writes : PlannedWrites) : Exec Unit := do
  let copies ← excludeCovered (·.toRelative) writes.copies
  let uploads ← excludeCovered (·.entry.relative) writes.uploads
  checkBreaker
  copyPhase plan copies
  let uploads ← excludeCovered (·.entry.relative) uploads
  checkBreaker
  uploadWorkers jobs ((openActions uploads).map fun slot => ⟨slot.write, slot.action⟩)
  checkBreaker

theorem openedWrites_eq {jobs : Nat} {writes : PlannedWrites} : openedWrites plan jobs writes =
    writes.creates.forM createOne >>= fun _ => laterWrites plan jobs writes := rfl

theorem does_laterWrites {jobs : Nat} {writes : PlannedWrites}
    (hcopies : ∀ slot ∈ openActions writes.copies, CopyActs acts slot.action)
    (huploads : ∀ slot ∈ openActions writes.uploads, UploadActs acts slot.action) :
    Does acts (laterWrites plan jobs writes) := by
  refine does_excludeCovered.bind_returns returns_excludeCovered fun copies hcopies' => ?_
  refine does_excludeCovered.bind_returns returns_excludeCovered fun uploads huploads' => ?_
  refine does_checkBreaker.bind fun _ =>
    (does_copyPhase fun slot hslot => hcopies slot (hcopies' slot hslot)).bind fun _ => ?_
  refine does_excludeCovered.bind_returns returns_excludeCovered fun uploads' huploads'' => ?_
  refine does_checkBreaker.bind fun _ => (does_uploadWorkers fun job hjob => ?_).bind
    fun _ => does_checkBreaker
  obtain ⟨slot, hslot, rfl⟩ := List.mem_map.mp hjob
  exact huploads slot (huploads' slot (huploads'' slot hslot))

/-- The planned writes once they are opened. -/
theorem does_openedWrites {jobs : Nat} {writes : PlannedWrites}
    (hcreates : ∀ slot ∈ openActions writes.creates, CreateActs acts slot.action)
    (hcopies : ∀ slot ∈ openActions writes.copies, CopyActs acts slot.action)
    (huploads : ∀ slot ∈ openActions writes.uploads, UploadActs acts slot.action) :
    Does acts (openedWrites plan jobs writes) := by
  rw [openedWrites_eq]
  exact (takes_forM _ fun slot hslot => does_createOne fun hopen =>
    hcreates slot (List.mem_filter.mpr ⟨hslot, hopen⟩)).bind fun _ =>
      does_laterWrites hcopies huploads

theorem wp_plannedWrites {jobs : Nat} (h : PlannedActs acts w.state.deferrals plan) :
    wp env (plannedWrites plan jobs) (fun _ w' => Did acts w w') (fun _ w' => Failed acts w w') w := by
  have hrest : ∀ {w₁ : World runInterface Run}, Did acts w w₁ →
      wp env (openedWrites plan jobs (slotsAt w.state.deferrals plan))
        (fun _ w' => Did acts w w') (fun _ w' => Failed acts w w') w₁ := by
    intro w₁ hw
    refine wp_mono (does_openedWrites (fun slot hslot => ?_) (fun slot hslot => ?_)
      (fun slot hslot => ?_) env w₁) (fun _ _ h' => hw.trans h') fun _ _ h' => hw.failed.trans h'
    · obtain ⟨hmem, hopen⟩ := mem_openActions_slotsOf _ hslot
      exact h.creates _ hmem hopen
    · obtain ⟨hmem, hopen⟩ := mem_openActions_slotsOf _ hslot
      exact h.copies _ hmem hopen
    · obtain ⟨hmem, hopen⟩ :=
        mem_openActions_slotsOf (fun action : UploadAction => action.entry.relative) hslot
      exact h.uploads _ hmem hopen
  exact hrest (did_put rfl rfl id)

/-! ## The phases of a run -/

/-- A deletion kept because its local file is back is a planned one. -/
def Kept.Within (plan : SyncPlan) (kept : Kept) : Prop :=
  ∀ relative spelling, kept.reappeared[relative]? = some spelling →
    ∃ action ∈ plan.postDeletes, action.relative = relative

omit [Unicode] in
theorem Kept.Within.insert {kept : Kept} {action : DeleteAction} {spelling : RelPath}
    (h : kept.Within plan) (haction : action ∈ plan.postDeletes) :
    Kept.Within plan { kept.keep action.relative with
      reappeared := kept.reappeared.insert action.relative spelling } := by
  intro relative found hfound
  rw [Std.TreeMap.getElem?_insert] at hfound
  split at hfound
  · rename_i heq
    exact ⟨action, haction, by simpa using heq⟩
  · exact h relative found hfound

theorem returns_postDeleteOne {kept : Kept} {planned : DeleteAction × Bool}
    (hkept : kept.Within plan) (hplanned : planned.1 ∈ plan.postDeletes) :
    Returns (Kept.Within plan) (postDeleteOne kept planned) := by
  refine returns_bind fun _ => returns_bind fun ruling => ?_
  cases ruling with
  | keptDescendant => exact returns_bind fun _ => returns_pure hkept
  | related other reason => exact returns_bind fun _ => returns_pure hkept
  | present spelling => exact returns_bind fun _ => returns_pure (hkept.insert hplanned)
  | deferred reason detail => exact returns_bind fun _ => returns_pure hkept
  | proceed =>
    refine returns_bind fun reply => ?_
    rcases reply with e | ⟨⟩
    · refine returns_bind fun _ => ?_
      cases concernsRun e with
      | true => exact returns_fail
      | false => exact returns_pure hkept
    · exact returns_bind fun _ => returns_bind fun _ => returns_pure hkept

theorem returns_postDeletePhase : Returns (Kept.Within plan) (postDeletePhase plan) := by
  refine returns_judgeDeletes.bind fun deletes hdeletes => ?_
  refine returns_foldlM _ (fun kept planned hp hkept => returns_postDeleteOne hkept ?_) ?_
  · rw [← hdeletes]
    exact List.mem_map_of_mem hp
  · intro relative spelling h
    simp at h

omit [Unicode] in
/-- The deletion a kept file is uploaded for. -/
theorem of_keptUploadTarget {relative : RelPath} {target : DeleteAction}
    (h : keptUploadTarget plan relative = some target) :
    target ∈ plan.postDeletes ∧ target.relative = relative := by
  unfold keptUploadTarget at h
  have htest := List.find?_some h
  exact ⟨List.mem_of_find?_eq_some h, of_decide_eq_true (Bool.and_eq_true_iff.mp htest).1⟩

theorem does_deletePhases
    (hdeletes : ∀ a ∈ plan.postDeletes, MirrorActs acts a)
    (hfollow : ∀ a ∈ plan.postDeletes, FollowUpActs acts a.relative a.remotePath)
    (hrenames : ∀ a ∈ plan.renames, RenameActs acts a) : Does acts (deletePhases plan) := by
  refine (does_postDeletePhase hdeletes).bind_returns returns_postDeletePhase fun kept hkept => ?_
  refine Takes.bind (takes_forM _ fun reappeared hmem => ?_) fun _ => does_executeRenames hrenames
  obtain ⟨action, haction, hrelative⟩ :=
    hkept reappeared.1 reappeared.2 (Std.TreeMap.mem_toList_iff_getElem?_eq_some.mp hmem)
  refine does_followUpOne (fun target htarget => ?_) ?_
  · obtain ⟨htargetMem, hfound⟩ := of_keptUploadTarget htarget
    exact hfound ▸ hfollow target htargetMem
  · exact hrelative ▸ (hdeletes action haction).deletes.leaves

end Run
end DriveSync
