import DriveSync.Small
import DriveSync.Plan.Planned

/-!
# DriveSync.Plan.Coverage

No local entry is dropped by planning. Each is withheld by the shield, or a folder that is there or
is created, or a file that is unchanged, uploaded or copied (`every_entry_planned`). What the shield
withholds has a record in the plan, but for what the rules exclude under its paired spelling.
-/

namespace DriveSync

open Path

section Coverage

variable [Unicode] {root : RemoteRoot} {L : LocalInventory} {R : RemoteInventory}
  {rules : IgnoreRules} {options : PlanOptions} {resolution : Resolution} {plan : SyncPlan}

/-! ## What the shield withholds is reported -/

theorem exists_report {delete : Bool} {cls : RelPath × Spellings} {reports : List SkippedEntry}
    (hcls : cls ∈ (classes L R rules).toList)
    (h : decideClass L R delete cls.2 = .collision reports) :
    ∃ rep ∈ reports, portableFold rep.relative = cls.1 := by
  obtain ⟨hloc, hremote⟩ := noted_of_mem_classes hcls
  simp only [decideClass] at h
  split at h
  · rename_i first second hfirst hother
    split at h
    · cases h
      exact ⟨_, .head _, (hloc.first _ hfirst).2⟩
    · cases h
  · split at h
    · rename_i first second hfirst hother
      split at h
      · simp only [decideRemote] at h
        split at h
        · cases h
        · cases h
          exact ⟨_, .head _, (hremote.first _ hfirst).2⟩
      · cases h
    · split at h
      · rename_i l r hl hr
        simp only [decidePair] at h
        split at h
        · split at h
          · cases h
            exact ⟨_, .head _, (hloc.first _ hl).2⟩
          · split at h <;> cases h
        · cases h
      · cases h

theorem shielded_fold_resolve {delete : Bool} {refused : List SkippedEntry} {f : RelPath}
    (hf : f ∈ (resolve L R rules delete refused).shield.folds) :
    (∃ skip ∈ (resolve L R rules delete refused).skipped ++ L.skipped,
      portableFold skip.relative = f) ∨
      ∃ x ∈ L.entries.values, portableFold x.relative = f ∧
        pairedExclusion rules (resolve L R rules delete refused).pairs x = true := by
  have hspec : ConflictsShielded L R rules delete _ (resolve L R rules delete refused) :=
    resolve_spec
  have hstate := decideClasses_decided L R rules delete refused
  have hkept : ∀ rep ∈ (decideClasses L R rules delete refused).skipped,
      rep ∈ (resolve L R rules delete refused).skipped ++ L.skipped := by
    intro rep hrep
    refine List.mem_append_left _ (hspec.skipped_kept rep ?_)
    rw [← skipped_resolveSpellings, ← skipped_resolvePairs] at hrep
    exact hrep
  rcases hspec.grown.added f hf with hf | ⟨x, _, hxf, rep, hrep, hrel⟩
  · rcases (shieldPairedExclusions_grown _).added f hf with hf | ⟨x, hx, hxf, hex⟩
    · rw [shield_resolvePairs, blocked_resolveSpellings] at hf
      rcases hstate.blocked f hf with hf | ⟨cls, hcls, rfl, reports, hdec, hmem⟩
      · obtain ⟨skip, hskip, hsf⟩ := mem_initialState.mp hf
        rcases List.mem_append.mp hskip with hskip | hskip
        · exact .inl ⟨skip, List.mem_append_right _ hskip, hsf⟩
        · exact .inl ⟨skip, hkept skip (hstate.skipped_init skip hskip), hsf⟩
      · obtain ⟨rep, hrep, hrepf⟩ := exists_report hcls hdec
        exact .inl ⟨rep, hkept rep (hmem rep hrep), hrepf⟩
    · refine .inr ⟨x, hx, hxf, ?_⟩
      rw [hspec.pairs]
      exact hex
  · exact .inl ⟨rep, List.mem_append_left _ hrep, by rw [hrel, hxf]⟩

/-- A fold is shielded by a record of the plan, or because the rules exclude a local entry of that
fold under its paired spelling. -/
theorem shielded_fold_reported (h : buildPlan root L R rules options = .ok plan) {f : RelPath}
    (hf : f ∈ (planResolution root L R rules options).shield.folds) :
    (∃ skip ∈ plan.skipped, portableFold skip.relative = f) ∨
      ∃ x ∈ L.entries.values, portableFold x.relative = f ∧
        pairedExclusion rules (planResolution root L R rules options).pairs x = true := by
  refine (shielded_fold_resolve hf).imp ?_ id
  rintro ⟨skip, hskip, hfold⟩
  exact ⟨skip, (planned_of_buildPlan h).skipped skip hskip, hfold⟩

/-! ## The class of every entry -/

inductive EntryClass where
  | withheld
  | folder
  | unchanged
  | uploaded
  | copied
deriving DecidableEq, Repr

variable (R options resolution plan) in
/-- Where a plan carries a local entry, given which paths are withheld. -/
def InClass (withheld : RelPath → Prop) (x : LocalEntry) : EntryClass → Prop
  | .withheld => withheld x.relative
  | .folder => ¬withheld x.relative ∧ x.kind = .directory ∧
      ((∃ r, resolution.pairs.remoteOf R x.relative = some r ∧ r.kind = .directory) ∨
        ∃ a ∈ plan.creates, a.relative = x.relative)
  | .unchanged => isUnchanged R options resolution x = true
  | .uploaded => ∃ u ∈ plan.uploads, u.entry = x
  | .copied => ∃ c ∈ plan.copies, c.entry = x

theorem nodup_wantedUploads :
    ((wantedUploads root L R options resolution).map (·.entry)).Nodup := by
  refine List.Nodup.sublist ?_ L.entries.nodup_values
  have hsub : ∀ l : List LocalEntry,
      ((l.filterMap (uploadOf root R options resolution)).map (·.entry)).Sublist l := by
    intro l
    induction l with
    | nil => exact .slnil
    | cons x l ih =>
      cases hu : uploadOf root R options resolution x with
      | none => rw [List.filterMap_cons_none hu]; exact ih.cons _
      | some u =>
        rw [List.filterMap_cons_some hu, List.map_cons, (uploadOf_eq_some hu).1]
        exact ih.cons_cons _
  exact hsub _

theorem uploaded_or_copied (h : Planned root L R rules options resolution plan) {x : LocalEntry} :
    ((∃ u ∈ plan.uploads, u.entry = x) ∨ (∃ c ∈ plan.copies, c.entry = x) ↔
        ∃ u ∈ wantedUploads root L R options resolution, u.entry = x) ∧
      ¬((∃ u ∈ plan.uploads, u.entry = x) ∧ ∃ c ∈ plan.copies, c.entry = x) := by
  obtain ⟨replaced, mem_up, mem_cop, hof⟩ := exists_replaced h
  constructor
  · constructor
    · rintro (⟨u, hu, rfl⟩ | ⟨c, hc, rfl⟩)
      · obtain ⟨i, hu, _⟩ := (mem_up u).mp hu
        exact ⟨u, List.mem_of_getElem? hu, rfl⟩
      · obtain ⟨i, u, hu, hc⟩ := (mem_cop c).mp hc
        exact ⟨u, List.mem_of_getElem? hu, (hof i u hu c hc).entry.symm⟩
    · rintro ⟨u, hu, rfl⟩
      obtain ⟨i, hu⟩ := List.getElem?_of_mem hu
      cases hi : replaced i with
      | none => exact .inl ⟨u, (mem_up u).mpr ⟨i, hu, hi⟩, rfl⟩
      | some c => exact .inr ⟨c, (mem_cop c).mpr ⟨i, u, hu, hi⟩, (hof i u hu c hi).entry⟩
  · rintro ⟨⟨u, hu, rfl⟩, c, hc, hcu⟩
    obtain ⟨i, hi, hnone⟩ := (mem_up u).mp hu
    obtain ⟨j, v, hj, hsome⟩ := (mem_cop c).mp hc
    have hv : v.entry = u.entry := (hof j v hj c hsome).entry.symm.trans hcu
    -- one entry is wanted at one index only
    have hij : i = j := by
      have hlen : i < ((wantedUploads root L R options resolution).map (·.entry)).length := by
        rw [List.length_map]; exact (List.getElem?_eq_some_iff.mp hi).1
      refine (List.getElem?_inj hlen nodup_wantedUploads).mp ?_
      rw [List.getElem?_map, List.getElem?_map, hi, hj, Option.map_some, Option.map_some, hv]
    rw [hij, hsome] at hnone
    cases hnone

theorem existsUnique_class (h : Planned root L R rules options resolution plan) {x : LocalEntry}
    (hx : x ∈ L.entries.values) :
    ∃! c, InClass R options resolution plan (resolution.shield.covers · = true) x c := by
  have hcopied := uploaded_or_copied h (x := x)
  have hwanted : (∃ u ∈ wantedUploads root L R options resolution, u.entry = x) ↔
      (uploadOf root R options resolution x).isSome = true := by
    constructor
    · rintro ⟨u, hu, hux⟩
      obtain ⟨y, _, hy⟩ := mem_wantedUploads.mp hu
      obtain rfl : y = x := (uploadOf_eq_some hy).1.symm.trans hux
      rw [hy]; rfl
    · intro hsome
      obtain ⟨u, hu⟩ := Option.isSome_iff_exists.mp hsome
      exact ⟨u, mem_wantedUploads.mpr ⟨x, hx, hu⟩, (uploadOf_eq_some hu).1⟩
  have hnotwanted : ∀ {P : Prop}, (resolution.shield.covers x.relative = true ∨
      x.kind = .directory) → (uploadOf root R options resolution x).isSome = true → P := by
    intro P hor hsome
    obtain ⟨u, hu⟩ := Option.isSome_iff_exists.mp hsome
    obtain ⟨_, hcov, hk, _⟩ := uploadOf_eq_some hu
    rcases hor with hor | hor
    · rw [hcov] at hor; cases hor
    · rw [hk] at hor; cases hor
  cases hcov : resolution.shield.covers x.relative with
  | true =>
    refine ⟨.withheld, hcov, ?_⟩
    intro c hc
    cases c with
    | withheld => rfl
    | folder => exact absurd hcov hc.1
    | unchanged => rw [(isUnchanged_file hc).1] at hcov; cases hcov
    | uploaded => exact hnotwanted (.inl hcov) (hwanted.mp (hcopied.1.mp (.inl hc)))
    | copied => exact hnotwanted (.inl hcov) (hwanted.mp (hcopied.1.mp (.inr hc)))
  | false =>
    cases hk : x.kind with
    | directory =>
      refine ⟨.folder, ⟨by simp [hcov], hk, ?_⟩, ?_⟩
      · cases hcreate : createOf root R resolution x with
        | some a =>
          exact .inr ⟨a, h.creates.mem_iff.mpr (List.mem_append_right _
            (List.mem_filterMap.mpr ⟨x, hx, hcreate⟩)), (createOf_eq_some hcreate).1⟩
        | none =>
          left
          simp only [createOf, hcov, hk] at hcreate
          split at hcreate
          · rename_i hno; simp at hno
          · split at hcreate
            · cases hcreate
            · rename_i r hr
              split at hcreate
              · cases hcreate
              · rename_i hrk; exact ⟨r, hr, hrk⟩
      · intro c hc
        cases c with
        | withheld => rw [InClass, hcov] at hc; cases hc
        | folder => rfl
        | unchanged => rw [(isUnchanged_file hc).2] at hk; cases hk
        | uploaded => exact hnotwanted (.inr hk) (hwanted.mp (hcopied.1.mp (.inl hc)))
        | copied => exact hnotwanted (.inr hk) (hwanted.mp (hcopied.1.mp (.inr hc)))
    | file =>
      have hiff : (uploadOf root R options resolution x).isSome = true ↔
          isUnchanged R options resolution x = false := uploadOf_isSome_iff hcov hk
      rw [← hwanted] at hiff
      have hother : ∀ c, InClass R options resolution plan (resolution.shield.covers · = true) x c →
          c = .unchanged ∨ c = .uploaded ∨ c = .copied := by
        intro c hc
        cases c with
        | withheld => rw [InClass, hcov] at hc; cases hc
        | folder => rw [hc.2.1] at hk; cases hk
        | unchanged => exact .inl rfl
        | uploaded => exact .inr (.inl rfl)
        | copied => exact .inr (.inr rfl)
      cases hsame : isUnchanged R options resolution x with
      | true =>
        refine ⟨.unchanged, hsame, ?_⟩
        intro c hc
        have hnot : ¬ ∃ u ∈ wantedUploads root L R options resolution, u.entry = x := by
          rw [hiff, hsame]; exact Bool.noConfusion
        rcases hother c hc with rfl | rfl | rfl
        · rfl
        · exact absurd (hcopied.1.mp (.inl hc)) hnot
        · exact absurd (hcopied.1.mp (.inr hc)) hnot
      | false =>
        have hnot : ¬isUnchanged R options resolution x = true := by
          rw [hsame]; exact Bool.noConfusion
        rcases hcopied.1.mpr (hiff.mpr hsame) with hup | hcop
        · refine ⟨.uploaded, hup, ?_⟩
          intro c hc
          rcases hother c hc with rfl | rfl | rfl
          · exact absurd hc hnot
          · rfl
          · exact absurd ⟨hup, hc⟩ hcopied.2
        · refine ⟨.copied, hcop, ?_⟩
          intro c hc
          rcases hother c hc with rfl | rfl | rfl
          · exact absurd hc hnot
          · exact absurd ⟨hc, hcop⟩ hcopied.2
          · rfl

/-! ## How many files, and where they go -/

theorem length_wantedUploads : (wantedUploads root L R options resolution).length +
    L.entries.values.countP (isUnchanged R options resolution) =
      L.entries.values.countP fun x =>
        decide (x.kind = .file) && !resolution.shield.covers x.relative := by
  rw [wantedUploads]
  induction L.entries.values with
  | nil => rfl
  | cons x l ih =>
    have hx : (uploadOf root R options resolution x).isSome.toNat +
        (isUnchanged R options resolution x).toNat =
          (decide (x.kind = .file) && !resolution.shield.covers x.relative).toNat := by
      cases hcov : resolution.shield.covers x.relative with
      | true => simp [uploadOf, isUnchanged, hcov]
      | false =>
        cases hk : x.kind with
        | directory => simp [uploadOf, isUnchanged, hk]
        | file =>
          have hiff : (uploadOf root R options resolution x).isSome = true ↔
              isUnchanged R options resolution x = false := uploadOf_isSome_iff hcov hk
          cases hsame : isUnchanged R options resolution x <;> simp_all
    have hlen : (List.filterMap (uploadOf root R options resolution) (x :: l)).length =
        (List.filterMap (uploadOf root R options resolution) l).length +
          (uploadOf root R options resolution x).isSome.toNat := by
      cases hu : uploadOf root R options resolution x with
      | none => rw [List.filterMap_cons_none hu]; rfl
      | some u => rw [List.filterMap_cons_some hu]; rfl
    have hcount : ∀ p : LocalEntry → Bool, (x :: l).countP p = l.countP p + (p x).toNat := by
      intro p
      cases hp : p x <;> simp [hp]
    rw [hlen, hcount, hcount]
    omega

theorem count_files (h : Planned root L R rules options resolution plan) :
    plan.unchangedFiles + plan.uploads.length + plan.copies.length =
      L.entries.values.countP fun x =>
        decide (x.kind = .file) && !resolution.shield.covers x.relative := by
  have hlen := (wanted_perm h (g := fun _ => ()) (k := fun _ => ()) fun _ _ _ _ => rfl).length_eq
  rw [List.length_append, List.length_map, List.length_map, List.length_map] at hlen
  have hwanted : (wantedUploads root L R options resolution).length + _ = _ :=
    length_wantedUploads
  rw [h.unchanged, ← hwanted]
  omega

theorem nodup_destinations (distinct : L.entries.DistinctFolds)
    (h : buildPlan root L R rules options = .ok plan) :
    (plan.destinations.map portableFold).Nodup := by
  have hp := planned_of_buildPlan h
  have hfold : ∀ x : LocalEntry, portableFold
      (destination root (planResolution root L R rules options) x) =
        (portableFold root.path).append (portableFold x.relative) := by
    intro x
    rw [destination, portableFold, Path.map_append]
    exact congrArg _ (fold_remoteRelative_resolve x.relative)
  have hinj : ∀ x ∈ L.entries.values, ∀ y ∈ L.entries.values,
      portableFold (destination root (planResolution root L R rules options) x) =
        portableFold (destination root (planResolution root L R rules options) y) → x = y := by
    intro x hx y hy heq
    rw [hfold, hfold] at heq
    exact distinct x hx y hy (Path.append_injective _ heq)
  have hroot : ∀ x ∈ L.entries.values, ∀ create ∈ rootCreates root R,
      portableFold create.remotePath ≠
        (portableFold root.path).append (portableFold x.relative) := by
    intro x hx create hcreate heq
    rw [rootCreates] at hcreate
    split at hcreate
    · cases hcreate
    · rw [List.mem_singleton.mp hcreate] at heq
      have hnil := Path.append_injective _
        (heq.symm.trans (Path.append_root (portableFold root.path)).symm)
      exact EntryMap.relative_ne_root hx (map_eq_root.mp hnil)
  have hcreates := (hp.creates.map (·.remotePath)).trans (.of_eq List.map_append)
  have hwrites := wanted_perm hp (g := (·.remotePath)) (k := (·.toRemotePath))
    fun _ _ _ hc => hc.toRemotePath
  -- what the entries come to under any of the two functions goes to different places
  have hentries : ∀ {β : Type} {f : LocalEntry → Option β} {key : β → RelPath},
      (∀ x b, f x = some b →
        key b = destination root (planResolution root L R rules options) x) →
      (((L.entries.values.filterMap f).map key).map portableFold).Nodup := by
    intro β f key hkey
    rw [List.map_map, List.Nodup, List.pairwise_map, List.pairwise_filterMap]
    refine L.entries.nodup_values.imp_of_mem fun hx hy hne b hb c hc heq => ?_
    simp only [Function.comp_apply, hkey _ b hb, hkey _ c hc] at heq
    exact hne (hinj _ hx _ hy heq)
  rw [SyncPlan.destinations, ((hcreates.append hwrites).map portableFold).nodup_iff,
    List.map_append, List.map_append, List.nodup_append, List.nodup_append]
  refine ⟨⟨?_, hentries fun x b hb => (createOf_eq_some hb).2.2.2, ?_⟩,
    hentries fun x b hb => (uploadOf_eq_some hb).2.2.2, ?_⟩
  · rw [rootCreates]
    split <;> simp
  · intro a ha b hb heq
    obtain ⟨_, hpath, rfl⟩ := List.mem_map.mp ha
    obtain ⟨create, hcreate, rfl⟩ := List.mem_map.mp hpath
    obtain ⟨_, hpath, rfl⟩ := List.mem_map.mp hb
    obtain ⟨create', hcreate', rfl⟩ := List.mem_map.mp hpath
    obtain ⟨x, hx, hxc⟩ := List.mem_filterMap.mp hcreate'
    rw [(createOf_eq_some hxc).2.2.2, hfold] at heq
    exact hroot x hx _ hcreate heq
  · intro a ha b hb heq
    obtain ⟨_, hpath, rfl⟩ := List.mem_map.mp hb
    obtain ⟨upload, hupload, rfl⟩ := List.mem_map.mp hpath
    obtain ⟨y, hy, hyu⟩ := List.mem_filterMap.mp hupload
    obtain ⟨_, _, hyk, hyd⟩ := uploadOf_eq_some hyu
    rw [hyd] at heq
    rcases List.mem_append.mp ha with ha | ha
    · obtain ⟨_, hpath, rfl⟩ := List.mem_map.mp ha
      obtain ⟨create, hcreate, rfl⟩ := List.mem_map.mp hpath
      rw [hfold] at heq
      exact hroot y hy _ hcreate heq
    · obtain ⟨_, hpath, rfl⟩ := List.mem_map.mp ha
      obtain ⟨create, hcreate, rfl⟩ := List.mem_map.mp hpath
      obtain ⟨x, hx, hxc⟩ := List.mem_filterMap.mp hcreate
      obtain ⟨_, _, hxk, hxd⟩ := createOf_eq_some hxc
      rw [hxd] at heq
      rw [hinj x hx y hy heq, hyk] at hxk
      cases hxk

variable (L rules resolution plan) in
/-- Whether a path lies at or beneath one that a skip of the plan names, or one that the rules
exclude under its paired spelling. -/
def Reported (p : RelPath) : Prop :=
  (∃ skip ∈ plan.skipped, AtOrUnder (portableFold skip.relative) (portableFold p)) ∨
    ∃ x ∈ L.entries.values, pairedExclusion rules resolution.pairs x = true ∧
      AtOrUnder (portableFold x.relative) (portableFold p)

theorem reported_of_covers (h : buildPlan root L R rules options = .ok plan) {p : RelPath}
    (hp : (planResolution root L R rules options).shield.covers p = true) :
    Reported L rules (planResolution root L R rules options) plan p := by
  obtain ⟨f, hf, hfp⟩ := Shield.coversFold_iff.mp hp
  rcases shielded_fold_reported h hf with ⟨skip, hskip, rfl⟩ | ⟨x, hx, rfl, hex⟩
  · exact .inl ⟨skip, hskip, hfp⟩
  · exact .inr ⟨x, hx, hex, hfp⟩

/-- No local entry is dropped. Each is in one class; what the shield withholds is reported or
excluded under its paired spelling; the unshielded files are all accounted for; and nothing is
written to one place twice. -/
theorem every_entry_planned (h : buildPlan root L R rules options = .ok plan) :
    (∀ x ∈ L.entries.values, ∃! c, InClass R options (planResolution root L R rules options) plan
        ((planResolution root L R rules options).shield.covers · = true) x c) ∧
      (∀ x ∈ L.entries.values,
        (planResolution root L R rules options).shield.covers x.relative = true →
          Reported L rules (planResolution root L R rules options) plan x.relative) ∧
      plan.unchangedFiles + plan.uploads.length + plan.copies.length =
        L.entries.values.countP (fun x => decide (x.kind = .file) &&
          !(planResolution root L R rules options).shield.covers x.relative) ∧
      (L.entries.DistinctFolds → (plan.destinations.map portableFold).Nodup) :=
  ⟨fun _ hx => existsUnique_class (planned_of_buildPlan h) hx,
    fun _ _ hcov => reported_of_covers h hcov, count_files (planned_of_buildPlan h),
    fun distinct => nodup_destinations distinct h⟩

end Coverage

/-! ## A spelling left behind, and two local names of one fold

The source holds `a`; the NAS holds the same file under `a` and another one under `A`. An inventory
that no walk returns holds `K` under two normalisations. -/

namespace OldSpelling

open Small

def kept : RelPath := path [name 'a']

def old : RelPath := path [name 'A']

def localSide : LocalInventory := locals [localFile kept 1]

def remoteSide : RemoteInventory := remotes [remoteFile kept 1, remoteFile old 2]

def twins : LocalInventory :=
  locals [localFile (path [name 'K']) 1, localFile (path [name '\u212a']) 1]

/-- The record that `A` was left behind covers `a` too, which is unchanged; and the two names of one
fold go to destinations of one fold. -/
theorem reported_and_unchanged :
    letI := charwise
    (∃ plan, buildPlan root localSide remoteSide noRules mirror = .ok plan ∧
      ¬∀ x ∈ localSide.entries.values, ∃! c,
        InClass remoteSide mirror (planResolution root localSide remoteSide noRules mirror) plan
          (Reported localSide noRules (planResolution root localSide remoteSide noRules mirror) plan)
          x c) ∧
    ∃ plan, buildPlan root twins (remotes []) noRules mirror = .ok plan ∧
      ¬(plan.destinations.map portableFold).Nodup := by
  let := charwise
  refine ⟨?_, ?_⟩
  case refine_2 =>
    obtain ⟨plan, hplan, htwice⟩ := Loop.exists_of_okAnd
      (x := buildPlan root twins (remotes []) noRules mirror)
      (p := fun plan => !decide ((plan.destinations.map portableFold).Nodup)) (by decide +kernel)
    exact ⟨plan, hplan, by simpa using htwice⟩
  obtain ⟨plan, hplan, hskip⟩ := Loop.exists_of_okAnd
    (x := buildPlan root localSide remoteSide noRules mirror)
    (p := fun plan => plan.skipped.any fun skip => decide (skip.relative = old)) (by decide +kernel)
  refine ⟨plan, hplan, fun h => ?_⟩
  obtain ⟨skip, hmem, hrel⟩ := List.any_eq_true.mp hskip
  rw [decide_eq_true_eq] at hrel
  have hx : localFile kept 1 ∈ localSide.entries.values := by decide +kernel
  obtain ⟨c, -, hunique⟩ := h _ hx
  have hwithheld := hunique .withheld (.inl ⟨skip, hmem, by rw [hrel]; decide +kernel⟩)
  have hsame : isUnchanged remoteSide mirror (planResolution root localSide remoteSide noRules mirror)
      (localFile kept 1) = true := by decide +kernel
  have hunchanged := hunique .unchanged hsame
  exact EntryClass.noConfusion (hwithheld.trans hunchanged.symm)

theorem every_entry_planned_beside_leftover :
    letI := charwise
    ∃ plan, plan.unchangedFiles + plan.uploads.length + plan.copies.length = 1 ∧
      ∀ x ∈ localSide.entries.values, ∃! c,
        InClass remoteSide mirror (planResolution root localSide remoteSide noRules mirror) plan
          ((planResolution root localSide remoteSide noRules mirror).shield.covers · = true) x c := by
  let := charwise
  obtain ⟨plan, hplan, _⟩ := Loop.exists_of_okAnd
    (x := buildPlan root localSide remoteSide noRules mirror)
    (p := fun _ => true) (by decide +kernel)
  obtain ⟨hclass, _, hcount, _⟩ := every_entry_planned hplan
  exact ⟨plan, hcount.trans (by decide +kernel), hclass⟩

end OldSpelling

end DriveSync
