import DriveSync.Small
import DriveSync.Plan.Planned

/-!
# DriveSync.Plan.Emptied

Whether the folders a plan deletes are empty when their turn comes. A folder deleted first goes with
everything in it. A folder deleted last is one the source does not hold, and yet something in it may
be the counterpart of a local entry, or an old spelling that is left alone.

* `DirectoriesEmptied`: what non-recursive deletions need of a plan.
* `directories_emptied_iff`: a plan has it exactly when no folder of the second kind holds such an
  entry.
-/

namespace DriveSync

open Path

section Emptied

variable [Unicode]

/-- Every path a plan writes or renames something to. -/
def SyncPlan.targets (plan : SyncPlan) : List RelPath :=
  plan.destinations ++ plan.renames.map (·.toRemotePath)

/-- The folders a plan deletes can be deleted one by one: what is beneath one is deleted before it,
and beneath one that is deleted last nothing is written, moved to or kept in sync. -/
structure DirectoriesEmptied (L : LocalInventory) (R : RemoteInventory) (options : PlanOptions)
    (resolution : Resolution) (plan : SyncPlan) : Prop where
  emptied : ∀ (i : Nat) (a : DeleteAction), plan.deletes[i]? = some a → a.kind = .directory →
    ∀ e ∈ R.entries.values, a.relative ∈ e.relative.ancestors →
      ∃ j b, j < i ∧ plan.deletes[j]? = some b ∧ b.relative = e.relative
  untouched : ∀ a ∈ plan.postDeletes, a.kind = .directory →
    ∀ p ∈ plan.targets, ¬AtOrUnder a.remotePath p
  unread : ∀ a ∈ plan.postDeletes, a.kind = .directory → ∀ x ∈ L.entries.values,
    isUnchanged R options resolution x = true →
      a.relative ∉ (resolution.pairs.remoteRelative x.relative).ancestors

variable {root : RemoteRoot} {L : LocalInventory} {R : RemoteInventory} {rules : IgnoreRules}
  {options : PlanOptions} {plan : SyncPlan}

omit [Unicode] in
theorem earlier_of_beneath {l : List DeleteAction}
    (hl : l.Pairwise fun a b => DeepestFirst a.relative b.relative) {i : Nat} {a b : DeleteAction}
    (ha : l[i]? = some a) (hb : b ∈ l) (hab : a.relative ∈ b.relative.ancestors) :
    ∃ j, j < i ∧ l[j]? = some b := by
  obtain ⟨j, hj⟩ := List.getElem?_of_mem hb
  refine ⟨j, ?_, hj⟩
  have hdepth := depth_lt_of_mem_ancestors hab
  rcases Nat.lt_trichotomy j i with hlt | rfl | hlt
  · exact hlt
  · rw [ha] at hj
    cases hj
    omega
  · obtain ⟨hi, rfl⟩ := List.getElem?_eq_some_iff.mp ha
    obtain ⟨hj', rfl⟩ := List.getElem?_eq_some_iff.mp hj
    have hdeep := List.pairwise_iff_getElem.mp hl i j hi hj' hlt
    rcases hdeep with hdeep | hdeep <;> omega

/-! ## What lies beneath a folder the source does not hold -/

section Closed

variable {delete : Bool} {refused : List SkippedEntry}
  (closed : L.entries.ParentClosed LocalEntry.kind) (distinct : L.entries.DistinctFolds)

include closed distinct in
/-- A local path lies at or beneath a folder without a local counterpart only through a partner
strictly beneath it, of the path itself or of a folder on its way. -/
theorem exists_partner_beneath {d x : RelPath} (hx : x ∈ L.entries.keys)
    (hd : (resolve L R rules delete refused).pairs.localOf L d = none)
    (h : AtOrUnder d ((resolve L R rules delete refused).pairs.remoteRelative x)) :
    ∃ (y r : RelPath), (resolve L R rules delete refused).pairs.toRemote[y]? = some r ∧
      d ∈ r.ancestors := by
  have hnot : ∀ a ∈ L.entries.keys,
      (resolve L R rules delete refused).pairs.remoteRelative a ≠ d := by
    rintro a ha rfl
    rw [Correspondence.localOf, localRelative_remoteRelative closed distinct ha] at hd
    obtain ⟨e, he⟩ := EntryMap.mem_keys.mp ha
    rw [he] at hd
    cases hd
  rcases h with h | h
  · exact absurd h (hnot x hx)
  · rcases exists_of_mem_ancestors_inherit h with ⟨a, ha, hda⟩ | ⟨y, r, _, hr, hdr⟩
    · exact absurd hda (hnot a (mem_keys_of_isLocalSpelling closed ⟨x, hx, .inr ha⟩))
    · exact ⟨y, r, hr, hdr⟩

include closed in
theorem exists_entry_of_partner (walked : R.entries.ParentClosed RemoteEntry.kind)
    {y r : RelPath} (h : (resolve L R rules delete refused).pairs.toRemote[y]? = some r) :
    ∃ e ∈ R.entries.values, e.relative = r ∧
      (resolve L R rules delete refused).pairs.localOf L r ≠ none := by
  have hpair := toRemote_resolve.mp h
  have hmem : r ∈ R.entries.keys := by
    rcases hpair with hren | ⟨_, hnfc⟩
    · exact mem_keys_of_isRemoteSpelling walked (mem_renames.mp hren).2.1.isRemote
    · exact hnfc.isRemote
  obtain ⟨e, he⟩ := EntryMap.mem_keys.mp hmem
  refine ⟨e, EntryMap.mem_values_of_get? he, EntryMap.relative_of_get? he, ?_⟩
  have hback := hpair.imp id And.right
  have hroot : r ≠ .root := by
    rintro rfl
    rw [EntryMap.get?_root] at he
    cases he
  rw [Correspondence.localOf, Correspondence.localRelative,
    inherit_of_some hroot (toLocal_resolve.mpr hback)]
  obtain ⟨l, hl⟩ := EntryMap.mem_keys.mp (mem_keys_of_paired closed hback)
  rw [hl]
  exact Option.some_ne_none l

end Closed

variable (closed : L.entries.ParentClosed LocalEntry.kind) (distinct : L.entries.DistinctFolds)
  (walked : R.Walked root)

variable (L R rules options) in
/-- Beneath the folders that are deleted last nothing is left behind and nothing has a local
counterpart. -/
def NothingStaysBeneath (resolution : Resolution) : Prop :=
  ∀ d ∈ R.entries.values, d.kind = .directory → MirrorDeletion L R rules options resolution d →
    ∀ e ∈ R.entries.values, d.relative ∈ e.relative.ancestors →
      resolution.pairs.localOf L e.relative = none ∧ resolution.isLeftover e.relative = false

include closed distinct walked in
theorem NothingStaysBeneath.not_atOrUnder
    (h : NothingStaysBeneath L R rules options (planResolution root L R rules options))
    {d : RemoteEntry} (hd : d ∈ R.entries.values) (hk : d.kind = .directory)
    (hdel : MirrorDeletion L R rules options (planResolution root L R rules options) d)
    {x : RelPath} (hx : x ∈ L.entries.keys) :
    ¬AtOrUnder d.relative
      ((planResolution root L R rules options).pairs.remoteRelative x) := by
  intro hbeneath
  obtain ⟨y, r, hr, hdr⟩ := exists_partner_beneath closed distinct hx hdel.remoteOnly hbeneath
  obtain ⟨e, he, rfl, hloc⟩ := exists_entry_of_partner closed walked.closed hr
  exact hloc (h d hd hk hdel e he hdr).1

theorem mirrorDeletion_beneath {resolution : Resolution} {d e : RemoteEntry}
    (hdel : MirrorDeletion L R rules options resolution d) (hk : d.kind = .directory)
    (he : e ∈ R.entries.values) (hde : d.relative ∈ e.relative.ancestors)
    (hloc : resolution.pairs.localOf L e.relative = none)
    (hleft : resolution.isLeftover e.relative = false)
    (hrep : ∀ x ∈ L.entries.values, e ∉ replacedBy R resolution x) :
    MirrorDeletion L R rules options resolution e where
  delete := hdel.delete
  remoteOnly := hloc
  notReplaced := hrep
  inScope := by
    have hscope := hdel.inScope
    simp only [Scope.matches, Bool.or_eq_true, decide_eq_true_eq] at hscope ⊢
    exact hscope.imp id fun h => h.trans (.inr hde)
  unprotected := (isKept_eq_false.mp (hdel.empties hk e he hde)).1
  unshielded := (isKept_eq_false.mp (hdel.empties hk e he hde)).2
  notLeftover := hleft
  empties := fun _ c hc hec => hdel.empties hk c hc (mem_ancestors_trans hde hec)

theorem emptied_of_nothingStaysBeneath {resolution : Resolution}
    (hp : Planned root L R rules options resolution plan)
    (h : NothingStaysBeneath L R rules options resolution) {i : Nat} {a : DeleteAction}
    (ha : plan.deletes[i]? = some a) (hk : a.kind = .directory) {e : RemoteEntry}
    (he : e ∈ R.entries.values) (hae : a.relative ∈ e.relative.ancestors) :
    ∃ j b, j < i ∧ plan.deletes[j]? = some b ∧ b.relative = e.relative := by
  have hfirst : ∀ x ∈ L.entries.values, e ∈ replacedBy R resolution x →
      ∃ b ∈ plan.preDeletes, b.relative = e.relative := by
    intro x hx hrep
    obtain ⟨b, hb⟩ := hp.replaced_deletable x hx e hrep
    exact ⟨b, (hp.mem_preDeletes b).mpr ⟨x, hx, e, hrep, hb⟩, (deletes_of_deleteAction hb).1.relative⟩
  rw [SyncPlan.deletes] at ha ⊢
  rcases Nat.lt_or_ge i plan.preDeletes.length with hi | hi
  · -- a folder a file replaces goes with everything in it
    rw [List.getElem?_append_left hi] at ha
    obtain ⟨x, hx, d, hd, had⟩ := (hp.mem_preDeletes a).mp (List.mem_of_getElem? ha)
    obtain ⟨hrec, _⟩ := deletes_of_deleteAction had
    have hrep : e ∈ replacedBy R resolution x := by
      obtain ⟨hcov, r, hr, ⟨_, hrk, rfl⟩ | ⟨hxk, hrk, hsub⟩⟩ := mem_replacedBy.mp hd
      · rw [hrec.kind, hrk] at hk
        cases hk
      · refine mem_replacedBy.mpr ⟨hcov, r, hr, .inr ⟨hxk, hrk, ?_⟩⟩
        rw [hrec.relative] at hae
        exact EntryMap.mem_subtree.mpr ⟨he, (EntryMap.mem_subtree.mp hsub).2.trans (.inr hae)⟩
    obtain ⟨b, hb, hbe⟩ := hfirst x hx hrep
    obtain ⟨j, hji, hj⟩ := earlier_of_beneath hp.sorted_preDeletes ha hb (hbe ▸ hae)
    exact ⟨j, b, hji, by rw [List.getElem?_append_left (by omega), hj], hbe⟩
  · rw [List.getElem?_append_right hi] at ha
    obtain ⟨d, hd, hdel, hrec, _⟩ := hp.mem_postDeletes a (List.mem_of_getElem? ha)
    rw [hrec.relative] at hae
    rw [hrec.kind] at hk
    by_cases hrep : ∃ x ∈ L.entries.values, e ∈ replacedBy R resolution x
    · obtain ⟨x, hx, hrep⟩ := hrep
      obtain ⟨b, hb, hbe⟩ := hfirst x hx hrep
      obtain ⟨j, hj⟩ := List.getElem?_of_mem hb
      have hlt := (List.getElem?_eq_some_iff.mp hj).1
      exact ⟨j, b, by omega, by rw [List.getElem?_append_left hlt, hj], hbe⟩
    · obtain ⟨hloc, hleft⟩ := h d hd hk hdel e he hae
      have hdel' := mirrorDeletion_beneath hdel hk he hae hloc hleft
        fun x hx hmem => hrep ⟨x, hx, hmem⟩
      obtain ⟨b, hb, hbe⟩ := hp.postDeletes_complete e he hdel'
      obtain ⟨j, hji, hj⟩ := earlier_of_beneath hp.sorted_postDeletes ha hb
        (by rw [hbe.relative, hrec.relative]; exact hae)
      refine ⟨plan.preDeletes.length + j, b, by omega, ?_, hbe.relative⟩
      rw [List.getElem?_append_right (by omega), Nat.add_sub_cancel_left, hj]

include closed walked in
theorem NothingStaysBeneath.not_atOrUnder_rename
    (h : NothingStaysBeneath L R rules options (planResolution root L R rules options))
    {d : RemoteEntry} (hd : d ∈ R.entries.values) (hk : d.kind = .directory)
    (hdel : MirrorDeletion L R rules options (planResolution root L R rules options) d)
    {x r : RelPath} (hren : (x, r) ∈ (planResolution root L R rules options).renames)
    {newName : Name} (hname : x.name?.map Unicode.nfc = some newName) :
    ¬AtOrUnder d.relative (.child r.parent newName) := by
  rw [planResolution, renames_resolve] at hren
  have hcase := (mem_renames.mp hren).2.1
  obtain ⟨hfold, hne⟩ := hcase.target hname
  rintro (heq | hbeneath)
  · -- the folder would be the only spelling of its fold, which is the source
    have hsource := hcase.onlyRemote d.relative (hdel.isRemoteSpelling hd)
      (by rw [← heq, hfold, hcase.fold_eq])
    exact hne (heq.trans hsource)
  · obtain ⟨e, he, rfl, hloc⟩ := exists_entry_of_partner closed walked.closed
      (toRemote_resolve.mpr (.inl hren))
    obtain ⟨hroot, hparent⟩ := mem_ancestors_child.mp hbeneath
    have hde : d.relative ∈ e.relative.ancestors := by
      cases hrel : e.relative with
      | root => exact absurd hrel (EntryMap.relative_ne_root he)
      | child q m =>
        rw [hrel, parent_child] at hroot hparent
        exact mem_ancestors_child.mpr ⟨hroot, hparent⟩
    exact hloc (h d hd hk hdel e he hde).1

include closed distinct walked in
/-- The folders a plan deletes can be deleted one by one exactly when nothing stays beneath those
that are deleted last. -/
theorem directories_emptied_iff (h : buildPlan root L R rules options = .ok plan) :
    DirectoriesEmptied L R options (planResolution root L R rules options) plan ↔
      NothingStaysBeneath L R rules options (planResolution root L R rules options) := by
  have hp := planned_of_buildPlan h
  constructor
  · intro hemptied d hd hk hdel e he hde
    obtain ⟨a, ha, hrec⟩ := hp.postDeletes_complete d hd hdel
    have hak : a.kind = .directory := hrec.kind.trans hk
    obtain ⟨i, hi⟩ := List.getElem?_of_mem (List.mem_append_right plan.preDeletes ha)
    obtain ⟨j, b, _, hj, hbe⟩ := hemptied.emptied i a hi hak e he (by rw [hrec.relative]; exact hde)
    rcases mem_deletes hp he (List.mem_of_getElem? hj) hbe.symm with ⟨x, hx, hrep⟩ | hdel'
    · -- what replaces it would be written beneath the folder
      exfalso
      obtain ⟨hcov, r, hr, hcase⟩ := mem_replacedBy.mp hrep
      have hrel := relative_of_remoteOf hr
      have hre : AtOrUnder r.relative e.relative := by
        rcases hcase with ⟨_, _, rfl⟩ | ⟨_, _, hsub⟩
        · exact .inl rfl
        · exact (EntryMap.mem_subtree.mp hsub).2
      by_cases hdr : AtOrUnder d.relative r.relative
      · have htarget := (mem_destinations hp).mpr
          (.inr ⟨x, hx, isWritten_of_mem_replacedBy hrep, rfl⟩)
        refine hemptied.untouched a ha hak _ (List.mem_append_left _ htarget) ?_
        rw [hrec.remotePath, walked.located d hd, destination, ← hrel,
          atOrUnder_append (EntryMap.relative_ne_root hd)]
        exact hdr
      · have hrd : AtOrUnder r.relative d.relative :=
          (atOrUnder_total hre (.inr hde)).resolve_right hdr
        rcases hcase with ⟨_, _, rfl⟩ | ⟨hxk, hrk, _⟩
        · exact hdr (.inr hde)
        · exact hdel.notReplaced x hx (mem_replacedBy.mpr
            ⟨hcov, r, hr, .inr ⟨hxk, hrk, EntryMap.mem_subtree.mpr ⟨hd, hrd⟩⟩⟩)
    · exact ⟨hdel'.remoteOnly, hdel'.notLeftover⟩
  · intro hcond
    refine ⟨fun i a ha hk e he hae => emptied_of_nothingStaysBeneath hp hcond ha hk he hae, ?_, ?_⟩
    · intro a ha hk p hpt
      obtain ⟨d, hd, hdel, hrec, _⟩ := hp.mem_postDeletes a ha
      have hdk : d.kind = .directory := hrec.kind.symm.trans hk
      have hroot := EntryMap.relative_ne_root hd
      rw [hrec.remotePath, walked.located d hd]
      rcases List.mem_append.mp hpt with hpt | hpt
      · rcases (mem_destinations hp).mp hpt with ⟨create, hcreate, rfl⟩ | ⟨x, hx, _, rfl⟩
        · -- the destination folder itself lies above everything
          rw [rootCreates] at hcreate
          split at hcreate
          · cases hcreate
          · rw [List.mem_singleton.mp hcreate]
            intro hbeneath
            have hbeneath := (atOrUnder_append (p := root.path) (q := .root) hroot).mp hbeneath
            rcases hbeneath with heq | hmem
            · exact hroot heq.symm
            · cases hmem
        · rw [destination, atOrUnder_append hroot]
          exact hcond.not_atOrUnder closed distinct walked hd hdk hdel
            (EntryMap.mem_keys.mpr ⟨x, EntryMap.mem_values.mp hx⟩)
      · obtain ⟨rename, hrename, rfl⟩ := List.mem_map.mp hpt
        rw [hp.renames] at hrename
        obtain ⟨⟨x, r⟩, hmem, hof⟩ := List.mem_filterMap.mp hrename
        have hof := renameOf_eq_some hof
        obtain ⟨e, he, hpath, _⟩ := hof.source
        have hrel := EntryMap.relative_of_get? he
        rw [hof.toRemotePath, hpath, walked.located e (EntryMap.mem_values_of_get? he), hrel]
        cases r with
        | root =>
          rw [EntryMap.get?_root] at he
          cases he
        | child q m =>
          rw [append_child, parent_child, ← append_child, atOrUnder_append hroot]
          exact hcond.not_atOrUnder_rename closed walked hd hdk hdel hmem hof.name
    · intro a ha hk x hx _ hanc
      obtain ⟨d, hd, hdel, hrec, _⟩ := hp.mem_postDeletes a ha
      rw [hrec.relative] at hanc
      exact hcond.not_atOrUnder closed distinct walked hd (hrec.kind.symm.trans hk) hdel
        (EntryMap.mem_keys.mpr ⟨x, EntryMap.mem_values.mp hx⟩) (.inr hanc)

end Emptied

/-! ## A folder deleted around its file -/

namespace TwinFolder

open Small

/-- The folder under the other normalisation is deleted last, and the file in it stays. -/
theorem exists_plan_not_emptied :
    letI := charwise
    ∃ plan, buildPlan root localSide remoteSide noRules mirror = .ok plan ∧
      ¬DirectoriesEmptied localSide remoteSide mirror
        (planResolution root localSide remoteSide noRules mirror) plan := by
  let := charwise
  obtain ⟨plan, hplan, hlist⟩ := Loop.exists_of_okAnd
    (x := buildPlan root localSide remoteSide noRules mirror)
    (p := fun plan => decide (plan.deletes.map (fun a => (a.relative, a.kind)) =
      [(twin, .directory)])) (by decide +kernel)
  rw [decide_eq_true_eq] at hlist
  refine ⟨plan, hplan, fun h => ?_⟩
  obtain ⟨a, hdeletes, ha⟩ := List.map_eq_singleton_iff.mp hlist
  obtain ⟨hrel, hkind⟩ := Prod.mk.inj ha
  obtain ⟨j, b, hj, -⟩ := h.emptied 0 a (by rw [hdeletes]; rfl) hkind
    (remoteFile (.child twin (name 'x')) 1) (by decide +kernel) (by rw [hrel]; decide +kernel)
  exact absurd hj (Nat.not_lt_zero j)

theorem not_directories_emptied :
    letI := charwise
    localSide.entries.ParentClosed LocalEntry.kind ∧
      remoteSide.entries.ParentClosed RemoteEntry.kind ∧
      ∃ plan, buildPlan root localSide remoteSide noRules mirror = .ok plan ∧
        ¬DirectoriesEmptied localSide remoteSide mirror
          (planResolution root localSide remoteSide noRules mirror) plan := by
  let := charwise
  exact ⟨by decide +kernel, by decide +kernel, exists_plan_not_emptied⟩

theorem counterpart_beneath_deleted_folder :
    letI := charwise
    ¬NothingStaysBeneath localSide remoteSide noRules mirror
      (planResolution root localSide remoteSide noRules mirror) := by
  let := charwise
  intro hcond
  obtain ⟨plan, hplan, hnot⟩ := exists_plan_not_emptied
  exact hnot ((directories_emptied_iff (by decide +kernel) (by decide +kernel) (by decide +kernel)
    hplan).mpr hcond)

end TwinFolder

end DriveSync
