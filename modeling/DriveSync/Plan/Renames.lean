import DriveSync.Lib.Respell
import DriveSync.Plan.Emptied

/-!
# DriveSync.Plan.Renames

The case-only renames of a plan, carried out last and in its order, on what its other operations
leave on the NAS.

* `RenamesValid`: each rename finds its source and finds its target free, and in the end every
  renamed component is spelled the local way.
* `renames_valid_iff`: a plan's renames are so exactly when the inventory holds nothing at their
  targets; a protected entry there is what the planner does not see.
-/

namespace DriveSync

open Path

section Renames

variable [Unicode]

omit [Unicode] in
/-- The paths below the destination once everything but the renames is done. -/
def SyncPlan.leaves (plan : SyncPlan) (R : RemoteInventory) : List RelPath :=
  (R.entries.values.map (·.remotePath)).filter
    (fun p => !plan.deletes.any fun a => decide (a.remotePath = p)) ++ plan.destinations

omit [Unicode] in
/-- The renames as a run asks for them: an entry, and its new last name. -/
def SyncPlan.renameScript (plan : SyncPlan) : List (RelPath × Name) :=
  plan.renames.map fun a => (a.fromRemotePath, a.newName)

/-- The composed local name of an entry the plan renames. -/
def SyncPlan.localName (plan : SyncPlan) (p : RelPath) : Option Name :=
  (plan.renames.find? fun a => decide (a.fromRemotePath = p)).bind fun a =>
    a.relative.name?.map Unicode.nfc

/-- The renames of a plan are a script that runs, ends at the paths the plan names, and spells
every renamed component the local way. -/
structure RenamesValid (R : RemoteInventory) (plan : SyncPlan) : Prop where
  runs : Runs (plan.leaves R) plan.renameScript
  targets : ∀ a ∈ plan.renames, a.toRemotePath = target (a.fromRemotePath, a.newName)
  spelled : ∀ p ∈ plan.leaves R,
    plan.renameScript.foldl (fun q r => move r.1 (target r) q) p = respell plan.localName p

variable (L : LocalInventory) (R : RemoteInventory) (rules : IgnoreRules) (options : PlanOptions)
  (resolution : Resolution)

/-- A case-only rename that a mirror run carries: in scope, and of a subtree with nothing kept. -/
structure CarriedRename (x r : RelPath) : Prop where
  delete : options.delete = true
  isRename : CaseRename L R rules x r
  inScope : options.scope.matches x = true
  movable : ∀ e ∈ R.entries.values, AtOrUnder r e.relative → isKept rules resolution e = false

variable {L R rules options resolution} {root : RemoteRoot} {plan : SyncPlan}

theorem carriedRename_iff (closed : R.entries.ParentClosed RemoteEntry.kind) {x r : RelPath} :
    CarriedRename L R rules options (planResolution root L R rules options) x r ↔
      (x, r) ∈ (planResolution root L R rules options).renames ∧
        ∃ a, renameOf R rules options (planResolution root L R rules options) (x, r) = some a := by
  rw [planResolution, renames_resolve, mem_renames]
  constructor
  · intro h
    obtain ⟨e, he⟩ := EntryMap.mem_keys.mp (mem_keys_of_isRemoteSpelling closed h.isRename.isRemote)
    have hrel := EntryMap.relative_of_get? he
    have hkept := h.movable e (EntryMap.mem_values_of_get? he) (.inl hrel)
    have hcov : (resolveSpellings L R rules options.delete
        (pathsTheDestinationRefuses root L)).blocked.covers x = false := by
      refine Bool.eq_false_iff.mpr fun hblocked => ?_
      have hcov := covers_resolve_of_blocked hblocked
      rw [← Shield.covers_congr h.isRename.fold_eq, ← hrel] at hcov
      exact absurd hcov (Bool.eq_false_iff.mp (isKept_eq_false.mp hkept).2)
    refine ⟨⟨h.delete, h.isRename, hcov⟩, ?_⟩
    have hany : ¬(R.entries.subtree r).any (isKept rules (resolve L R rules options.delete
        (pathsTheDestinationRefuses root L))) = true := by
      intro hany
      obtain ⟨d, hd, hdk⟩ := List.any_eq_true.mp hany
      obtain ⟨hd, hrd⟩ := EntryMap.mem_subtree.mp hd
      exact absurd hdk (Bool.eq_false_iff.mp (h.movable d hd hrd))
    cases x with
    | root =>
      have := h.isRename.differ
      have hroot := h.isRename.fold_eq
      rw [portableFold, portableFold, map_root, map_eq_root] at hroot
      rw [hroot] at this
      cases this
    | child p n => exact ⟨_, by simp only [renameOf, h.inScope, he, if_neg hany]; rfl⟩
  · rintro ⟨⟨hdelete, hcase, _⟩, a, ha⟩
    refine ⟨hdelete, hcase, ?_, (renameOf_eq_some ha).movable⟩
    simp only [renameOf] at ha
    split at ha
    · cases ha
    · rename_i hscope
      simpa using hscope

theorem exists_of_mem_renames (hp : Planned root L R rules options resolution plan)
    {a : RenameAction} (ha : a ∈ plan.renames) :
    (a.relative, a.fromRelative) ∈ resolution.renames ∧
      RenameOf R rules resolution a.relative a.fromRelative a := by
  rw [hp.renames] at ha
  obtain ⟨⟨x, r⟩, hmem, hof⟩ := List.mem_filterMap.mp ha
  have hof := renameOf_eq_some hof
  rw [hof.relative, hof.fromRelative]
  exact ⟨hmem, hof⟩

section Script

variable (closed : L.entries.ParentClosed LocalEntry.kind) (distinct : L.entries.DistinctFolds)
  (walked : R.Walked root)
  (hp : Planned root L R rules options (planResolution root L R rules options) plan)

include hp in
theorem caseRename_of_mem_renames {a : RenameAction} (ha : a ∈ plan.renames) :
    CaseRename L R rules a.relative a.fromRelative := by
  have h := (exists_of_mem_renames hp ha).1
  rw [planResolution, renames_resolve] at h
  exact (mem_renames.mp h).2.1

include walked hp in
theorem paths_of_mem_renames {a : RenameAction} (ha : a ∈ plan.renames) :
    a.fromRemotePath = root.path.append a.fromRelative ∧
      target (a.fromRemotePath, a.newName) =
        root.path.append (target (a.fromRelative, a.newName)) ∧
      a.fromRelative ≠ .root := by
  obtain ⟨e, he, hpath, _⟩ := (exists_of_mem_renames hp ha).2.source
  have hrel := EntryMap.relative_of_get? he
  have hroot : a.fromRelative ≠ .root := by
    intro hroot
    rw [hroot, EntryMap.get?_root] at he
    cases he
  have hfrom : a.fromRemotePath = root.path.append a.fromRelative := by
    rw [hpath, walked.located e (EntryMap.mem_values_of_get? he), hrel]
  refine ⟨hfrom, ?_, hroot⟩
  rw [hfrom]
  cases hr : a.fromRelative with
  | root => exact absurd hr hroot
  | child q m => rfl

include hp in
theorem target_of_mem_renames {a : RenameAction} (ha : a ∈ plan.renames) :
    portableFold (target (a.fromRelative, a.newName)) = portableFold a.relative ∧
      target (a.fromRelative, a.newName) ≠ a.fromRelative := by
  have hcase := caseRename_of_mem_renames hp ha
  obtain ⟨hfold, hne⟩ := hcase.target (exists_of_mem_renames hp ha).2.name
  exact ⟨hfold.trans hcase.fold_eq, hne⟩

include hp in
theorem relative_eq_of_fold_eq {a b : RenameAction} (ha : a ∈ plan.renames)
    (hb : b ∈ plan.renames) (h : portableFold a.relative = portableFold b.relative) :
    a.relative = b.relative :=
  (caseRename_of_mem_renames hp hb).onlyLocal _ (caseRename_of_mem_renames hp ha).isLocal h

include hp in
theorem pairwise_renames : plan.renames.Pairwise fun a b =>
    a.relative ≠ b.relative ∧ b.relative.depth ≤ a.relative.depth := by
  rw [hp.renames, List.pairwise_filterMap]
  have hsorted : (renamesOf L R rules options.delete
      (pathsTheDestinationRefuses root L)).Pairwise fun a b => DeepestFirst a.1 b.1 :=
    sorted_renames
  have hnodup : (renamesOf L R rules options.delete
      (pathsTheDestinationRefuses root L)).Pairwise fun a b => a.1 ≠ b.1 :=
    List.pairwise_map.mp nodup_renames
  rw [planResolution, renames_resolve]
  refine (hsorted.and hnodup).imp ?_
  rintro ⟨x, r⟩ ⟨y, s⟩ ⟨hdeep, hne⟩ a ha b hb
  rw [(renameOf_eq_some ha).relative, (renameOf_eq_some hb).relative]
  refine ⟨hne, ?_⟩
  rcases hdeep with h | ⟨h, _⟩
  · exact Nat.le_of_lt h
  · exact Nat.le_of_eq h

include walked hp in
theorem script_renames : Script plan.renameScript where
  deepestFirst := by
    rw [SyncPlan.renameScript, List.pairwise_map]
    refine (pairwise_renames hp).imp_of_mem fun ha hb h => ?_
    have hdepth : ∀ {c : RenameAction}, c ∈ plan.renames →
        c.fromRemotePath.depth = root.path.depth + c.relative.depth := by
      intro c hc
      have hfold := congrArg depth (caseRename_of_mem_renames hp hc).fold_eq
      rw [portableFold, portableFold, depth_map, depth_map] at hfold
      rw [(paths_of_mem_renames walked hp hc).1, depth_append, hfold]
    simp only
    rw [hdepth ha, hdepth hb]
    omega
  sources := by
    rw [SyncPlan.renameScript, List.map_map, List.Nodup, List.pairwise_map]
    refine (pairwise_renames hp).imp_of_mem fun {a b} ha hb h heq => h.1 ?_
    simp only [Function.comp_apply, (paths_of_mem_renames walked hp ha).1,
      (paths_of_mem_renames walked hp hb).1] at heq
    refine relative_eq_of_fold_eq hp ha hb ?_
    rw [← (caseRename_of_mem_renames hp ha).fold_eq, append_injective _ heq,
      (caseRename_of_mem_renames hp hb).fold_eq]
  targets := by
    rw [SyncPlan.renameScript, List.map_map, List.Nodup, List.pairwise_map]
    refine (pairwise_renames hp).imp_of_mem fun {a b} ha hb h heq => h.1 ?_
    simp only [Function.comp_apply, (paths_of_mem_renames walked hp ha).2.1,
      (paths_of_mem_renames walked hp hb).2.1] at heq
    refine relative_eq_of_fold_eq hp ha hb ?_
    rw [← (target_of_mem_renames hp ha).1, append_injective _ heq,
      (target_of_mem_renames hp hb).1]
  apart := by
    intro r hr s hs heq
    obtain ⟨a, ha, rfl⟩ := List.mem_map.mp hr
    obtain ⟨b, hb, rfl⟩ := List.mem_map.mp hs
    rw [(paths_of_mem_renames walked hp ha).2.1, (paths_of_mem_renames walked hp hb).1] at heq
    have heq := append_injective _ heq
    -- the other source would be a second NAS spelling of the first fold
    have hb' := caseRename_of_mem_renames hp hb
    have hfold : portableFold b.fromRelative = portableFold a.relative := by
      rw [← heq, (target_of_mem_renames hp ha).1]
    have hsource := (caseRename_of_mem_renames hp ha).onlyRemote _ hb'.isRemote hfold
    exact (target_of_mem_renames hp ha).2 (heq.trans hsource)
  proper := by
    intro r hr hroot
    obtain ⟨a, ha, rfl⟩ := List.mem_map.mp hr
    obtain ⟨hfrom, _, hne⟩ := paths_of_mem_renames walked hp ha
    simp only [hfrom] at hroot
    cases hrel : a.fromRelative with
    | root => exact hne hrel
    | child q m => rw [hrel] at hroot; cases hroot

/-! ## What the rest of the plan leaves -/

include hp in
theorem remoteRelative_of_mem_renames {a : RenameAction} (ha : a ∈ plan.renames) :
    (planResolution root L R rules options).pairs.remoteRelative a.relative = a.fromRelative := by
  have hmem := (exists_of_mem_renames hp ha).1
  rw [planResolution, renames_resolve] at hmem
  have hne : a.relative ≠ .root := by
    intro hroot
    have hname := (exists_of_mem_renames hp ha).2.name
    rw [hroot] at hname
    cases hname
  exact inherit_of_some hne (toRemote_resolve.mpr (.inl hmem))

include closed hp in
theorem exists_entry_of_mem_renames {a : RenameAction} (ha : a ∈ plan.renames) :
    ∃ x ∈ L.entries.values, x.relative = a.relative := by
  have hcase := caseRename_of_mem_renames hp ha
  obtain ⟨x, hx⟩ := EntryMap.mem_keys.mp (mem_keys_of_isLocalSpelling closed hcase.isLocal)
  exact ⟨x, EntryMap.mem_values_of_get? hx, EntryMap.relative_of_get? hx⟩

include closed distinct hp in
theorem not_replaced_of_mem_renames {a : RenameAction} (ha : a ∈ plan.renames) {e : RemoteEntry}
    (hfold : portableFold e.relative = portableFold a.relative) {y : LocalEntry}
    (hy : y ∈ L.entries.values) :
    e ∉ replacedBy R (planResolution root L R rules options) y := by
  intro he
  obtain ⟨x, hx, hxrel⟩ := exists_entry_of_mem_renames closed hp ha
  obtain ⟨r, hr, rfl, rfl⟩ := not_replaced_above closed distinct hx hy he (by rw [hfold, hxrel])
  have hkind := (caseRename_of_mem_renames hp ha).kind_eq
  have hrel := relative_of_remoteOf hr
  rw [hxrel, remoteRelative_of_mem_renames hp ha] at hrel
  rw [← hxrel, ← hrel, EntryMap.mem_values.mp hx,
    EntryMap.mem_values.mp (EntryMap.mem_values_of_get? hr)] at hkind
  have hkind : y.kind = e.kind := Option.some.inj hkind
  obtain ⟨_, r', hr', ⟨hk, hrk, _⟩ | ⟨hk, hrk, _⟩⟩ := mem_replacedBy.mp he
  all_goals
    rw [hr] at hr'
    rw [← Option.some.inj hr', ← hkind, hk] at hrk
    cases hrk

omit [Unicode] in
theorem eq_of_remotePath_eq (walked : R.Walked root) {e e' : RemoteEntry}
    (he : e ∈ R.entries.values) (he' : e' ∈ R.entries.values) (h : e.remotePath = e'.remotePath) :
    e = e' := by
  rw [walked.located e he, walked.located e' he'] at h
  exact EntryMap.eq_of_relative_eq he he' (append_injective _ h)

include walked hp in
/-- A path of the inventory is gone only where one of its deletions names it. -/
theorem mem_deletes_of_remotePath {e : RemoteEntry} (he : e ∈ R.entries.values)
    (h : (plan.deletes.any fun a => decide (a.remotePath = e.remotePath)) = true) :
    (∃ y ∈ L.entries.values, e ∈ replacedBy R (planResolution root L R rules options) y) ∨
      MirrorDeletion L R rules options (planResolution root L R rules options) e := by
  obtain ⟨d, hd, hpath⟩ := List.any_eq_true.mp h
  rw [decide_eq_true_eq] at hpath
  have hsome : ∃ e' ∈ R.entries.values, e'.relative = d.relative ∧ e'.remotePath = d.remotePath := by
    rcases List.mem_append.mp hd with hd | hd
    · obtain ⟨x, _, e', he', hde⟩ := (hp.mem_preDeletes d).mp hd
      obtain ⟨hrec, _⟩ := deletes_of_deleteAction hde
      exact ⟨e', mem_values_of_mem_replacedBy he', hrec.relative.symm, hrec.remotePath.symm⟩
    · obtain ⟨e', he', _, hrec, _⟩ := hp.mem_postDeletes d hd
      exact ⟨e', he', hrec.relative.symm, hrec.remotePath.symm⟩
  obtain ⟨e', he', hrel, hpath'⟩ := hsome
  obtain rfl := eq_of_remotePath_eq walked he he' (hpath'.trans hpath).symm
  exact mem_deletes hp he hd hrel

include closed distinct walked hp in
theorem source_mem_leaves {a : RenameAction} (ha : a ∈ plan.renames) :
    a.fromRemotePath ∈ plan.leaves R := by
  have hcase := caseRename_of_mem_renames hp ha
  obtain ⟨hmem, hof⟩ := exists_of_mem_renames hp ha
  obtain ⟨e, he, hpath, _⟩ := hof.source
  have hrel := EntryMap.relative_of_get? he
  have he := EntryMap.mem_values_of_get? he
  rw [hpath]
  refine List.mem_append_left _ (List.mem_filter.mpr ⟨List.mem_map_of_mem he, ?_⟩)
  rw [Bool.not_eq_true', Bool.eq_false_iff]
  intro hdel
  rcases mem_deletes_of_remotePath walked hp he hdel with ⟨y, hy, hrep⟩ | hdel
  · exact not_replaced_of_mem_renames closed distinct hp ha (hrel ▸ hcase.fold_eq) hy hrep
  · rw [planResolution, renames_resolve] at hmem
    obtain ⟨_, _, _, hloc⟩ := exists_entry_of_partner closed walked.closed
      (toRemote_resolve.mpr (.inl hmem))
    rw [← hrel] at hloc
    exact hloc hdel.remoteOnly

include closed distinct walked hp in
/-- The target of a rename is taken exactly if the inventory holds it: only a protected entry can
be there, and nothing the plan does removes it. -/
theorem target_mem_leaves {a : RenameAction} (ha : a ∈ plan.renames) :
    target (a.fromRemotePath, a.newName) ∈ plan.leaves R ↔
      target (a.fromRelative, a.newName) ∈ R.entries.keys := by
  obtain ⟨_, hpath, _⟩ := paths_of_mem_renames walked hp ha
  obtain ⟨hfold, hne⟩ := target_of_mem_renames hp ha
  rw [hpath]
  constructor
  · intro h
    rcases List.mem_append.mp h with h | h
    · obtain ⟨e, he, hloc⟩ := List.mem_map.mp (List.mem_filter.mp h).1
      rw [walked.located e he] at hloc
      rw [← append_injective _ hloc]
      exact EntryMap.mem_keys.mpr ⟨e, EntryMap.mem_values.mp he⟩
    · rcases (mem_destinations hp).mp h with ⟨create, hcreate, heq⟩ | ⟨y, hy, _, heq⟩
      · rw [rootCreates] at hcreate
        split at hcreate
        · cases hcreate
        · rw [List.mem_singleton.mp hcreate] at heq
          have hnil := append_injective root.path ((append_root root.path).trans heq)
          cases hnil
      · -- what is written there would be the renamed path itself
        have heq := append_injective _ heq
        obtain ⟨x, hx, hxrel⟩ := exists_entry_of_mem_renames closed hp ha
        have hyx : y = x := by
          refine distinct y hy x hx ?_
          rw [← fold_remoteRelative_resolve y.relative, ← planResolution, heq, hfold, hxrel]
        rw [hyx, hxrel, remoteRelative_of_mem_renames hp ha] at heq
        exact absurd heq.symm hne
  · intro h
    obtain ⟨e, he⟩ := EntryMap.mem_keys.mp h
    have hrel := EntryMap.relative_of_get? he
    have he := EntryMap.mem_values_of_get? he
    refine List.mem_append_left _ (List.mem_filter.mpr ⟨?_, ?_⟩)
    · exact List.mem_map.mpr ⟨e, he, by rw [walked.located e he, hrel]⟩
    · rw [Bool.not_eq_true', Bool.eq_false_iff, ← hrel, ← walked.located e he]
      intro hdel
      rcases mem_deletes_of_remotePath walked hp he hdel with ⟨y, hy, hrep⟩ | hdel
      · exact not_replaced_of_mem_renames closed distinct hp ha (hrel ▸ hfold) hy hrep
      · have hsource := (caseRename_of_mem_renames hp ha).onlyRemote e.relative
          (hdel.isRemoteSpelling he) (hrel ▸ hfold)
        exact hne (hrel.symm.trans hsource)

include hp in
theorem newNames_renameScript (p : RelPath) : newNames plan.renameScript p = plan.localName p := by
  rw [newNames, SyncPlan.renameScript, SyncPlan.localName, List.find?_map, Option.map_map]
  have hcomp : ((fun r : RelPath × Name => decide (r.1 = p)) ∘ fun a : RenameAction =>
      (a.fromRemotePath, a.newName)) = fun a => decide (a.fromRemotePath = p) := rfl
  rw [hcomp]
  cases hfind : plan.renames.find? fun a => decide (a.fromRemotePath = p) with
  | none => rfl
  | some a =>
    have hname := (exists_of_mem_renames hp (List.mem_of_find?_eq_some hfind)).2.name
    rw [Option.bind_some, hname]
    rfl

end Script

/-- The renames of a plan are valid exactly when nothing, not even a protected entry, lies where one
that is carried ends. -/
theorem renames_valid_iff (closed : L.entries.ParentClosed LocalEntry.kind)
    (distinct : L.entries.DistinctFolds) (walked : R.Walked root)
    (h : buildPlan root L R rules options = .ok plan) :
    RenamesValid R plan ↔ ∀ x r,
      CarriedRename L R rules options (planResolution root L R rules options) x r →
        ∀ n, x.name? = some n → .child r.parent (Unicode.nfc n) ∉ R.entries.keys := by
  have hp := planned_of_buildPlan h
  have hruns : Runs (plan.leaves R) plan.renameScript ↔ _ := (script_renames walked hp).runs_iff
  constructor
  · intro hvalid x r hcarried n hn
    obtain ⟨hmem, a, ha⟩ := (carriedRename_iff walked.closed).mp hcarried
    have hof := renameOf_eq_some ha
    have ha : a ∈ plan.renames := by
      rw [hp.renames]; exact List.mem_filterMap.mpr ⟨_, hmem, ha⟩
    have hfree := (hruns.mp hvalid.runs _ (List.mem_map_of_mem ha)).2
    have hname := hof.name
    rw [hn, Option.map_some, Option.some.injEq] at hname
    rw [target_mem_leaves closed distinct walked hp ha, target, hof.fromRelative, ← hname] at hfree
    exact hfree
  · intro hcond
    refine ⟨hruns.mpr ?_, fun a ha => (exists_of_mem_renames hp ha).2.toRemotePath, ?_⟩
    · intro r hr
      obtain ⟨a, ha, rfl⟩ := List.mem_map.mp hr
      refine ⟨source_mem_leaves closed distinct walked hp ha, ?_⟩
      rw [target_mem_leaves closed distinct walked hp ha]
      have hmem := ha
      rw [hp.renames] at hmem
      obtain ⟨⟨x, r⟩, hmem, hof⟩ := List.mem_filterMap.mp hmem
      have hcarried := (carriedRename_iff walked.closed).mpr ⟨hmem, a, hof⟩
      have hof := renameOf_eq_some hof
      obtain ⟨n, hn, hname⟩ := Option.map_eq_some_iff.mp hof.name
      rw [target, hof.fromRelative, ← hname]
      exact hcond x r hcarried n hn
    · intro p _
      rw [(script_renames walked hp).foldl_move]
      exact respell_congr fun a _ => newNames_renameScript hp a

end Renames

/-! ## A mount point where a rename ends

The source holds the folder `a`; the NAS holds it as `A`, and a mount point under the name `a`. -/

namespace MountedTarget

open Small

def folder : RelPath := path [name 'a']

def localSide : LocalInventory := locals [localFolder folder]

def remoteSide : RemoteInventory :=
  remotes [remoteFolder (path [name 'A']), { remoteFolder folder with mountPointType := some "cifs" }]

def unmounted : RemoteInventory := remotes [remoteFolder (path [name 'A'])]

/-- `A` is to be renamed to `a` all the same. -/
theorem not_renames_valid :
    letI := charwise
    localSide.entries.ParentClosed LocalEntry.kind ∧
      remoteSide.entries.ParentClosed RemoteEntry.kind ∧
      ∃ plan, buildPlan root localSide remoteSide noRules mirror = .ok plan ∧
        ¬RenamesValid remoteSide plan := by
  let := charwise
  refine ⟨by decide +kernel, by decide +kernel, ?_⟩
  obtain ⟨plan, hplan, hren⟩ := Loop.exists_of_okAnd
    (x := buildPlan root localSide remoteSide noRules mirror)
    (p := fun plan => plan.renames.any fun a =>
      decide (target (a.fromRemotePath, a.newName) ∈ plan.leaves remoteSide)) (by decide +kernel)
  refine ⟨plan, hplan, fun h => ?_⟩
  have hscript := script_renames (by decide +kernel) (planned_of_buildPlan hplan)
  obtain ⟨a, ha, htaken⟩ := List.any_eq_true.mp hren
  exact (hscript.runs_iff.mp h.runs _ (List.mem_map_of_mem ha)).2 (of_decide_eq_true htaken)

theorem renames_valid_unmounted :
    letI := charwise
    ∃ plan, plan.renames.length = 1 ∧ RenamesValid unmounted plan := by
  let := charwise
  obtain ⟨plan, hplan, hlength⟩ := Loop.exists_of_okAnd
    (x := buildPlan root localSide unmounted noRules mirror)
    (p := fun plan => decide (plan.renames.length = 1)) (by decide +kernel)
  have hwalked : unmounted.Walked root := by decide +kernel
  refine ⟨plan, of_decide_eq_true hlength,
    (renames_valid_iff (by decide +kernel) (by decide +kernel) hwalked hplan).mpr ?_⟩
  intro x r h n hn htaken
  -- the only NAS path is the one to be renamed
  have hkeys : unmounted.entries.keys = [path [name 'A']] := by decide +kernel
  have hr := mem_keys_of_isRemoteSpelling hwalked.closed h.isRename.isRemote
  rw [hkeys, List.mem_singleton] at hr htaken
  exact (h.isRename.target (by rw [hn]; rfl)).2 (htaken.trans hr.symm)

end MountedTarget

end DriveSync
