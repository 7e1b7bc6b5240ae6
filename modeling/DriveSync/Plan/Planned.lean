import DriveSync.Plan.Stages

/-!
# DriveSync.Plan.Planned

A finished plan, part by part, in terms of the inventories and the resolution.

* `Planned`: what each list of a plan holds. Every law of the planner is read off it.
* `planned_of_buildPlan`: the plans `buildPlan` returns are such plans.
-/

namespace DriveSync

open Path

section Planned

variable [Unicode] (root : RemoteRoot) (L : LocalInventory) (R : RemoteInventory)
  (rules : IgnoreRules) (options : PlanOptions) (resolution : Resolution)

def rootCreates : List CreateAction :=
  if R.rootExists then [] else [⟨.root, root.path, .missingRemote⟩]

/-- The uploads the local entries need, before any is replaced by a copy. -/
def wantedUploads : List UploadAction :=
  L.entries.values.filterMap (uploadOf root R options resolution)

/-- What a plan consists of. -/
structure Planned (plan : SyncPlan) : Prop where
  sameScope : plan.scope = options.scope
  sameRules : plan.rules = rules
  mem_preDeletes : ∀ a, a ∈ plan.preDeletes ↔ ∃ x ∈ L.entries.values,
    ∃ e ∈ replacedBy R resolution x,
      deleteAction resolution.pairs R options.compare true e = .ok a
  replaced_deletable : ∀ x ∈ L.entries.values, ∀ e ∈ replacedBy R resolution x,
    ∃ a, deleteAction resolution.pairs R options.compare true e = .ok a
  nodup_preDeletes : (plan.preDeletes.map (·.relative)).Nodup
  sorted_preDeletes : plan.preDeletes.Pairwise fun a b => DeepestFirst a.relative b.relative
  mirror : ∀ x ∈ L.entries.values,
    replacedBy R resolution x ≠ [] → options.delete = true
  clear : ∀ x ∈ L.entries.values, x.kind = .file →
    ∀ e ∈ replacedBy R resolution x,
      isKept rules resolution e = false
  creates : plan.creates.Perm (rootCreates root R ++
    L.entries.values.filterMap (createOf root R resolution))
  sorted_creates : plan.creates.Pairwise fun a b => ShallowestFirst a.relative b.relative
  uploads : ∃ replaced : Nat → Option CopyAction,
    plan.uploads.Perm (((wantedUploads root L R options resolution).zipIdx.filter
      fun u => (replaced u.2).isNone).map (·.1)) ∧
    plan.copies.Perm ((wantedUploads root L R options resolution).zipIdx.filterMap
      fun u => replaced u.2) ∧
    ∀ u i, (wantedUploads root L R options resolution)[i]? = some u → ∀ c, replaced i = some c →
      CopyOf L R rules resolution
        (plan.preDeletes.map (·.relative)) u c
  unchanged : plan.unchangedFiles = L.entries.values.countP
    (isUnchanged R options resolution)
  renames : plan.renames = resolution.renames.filterMap
    (renameOf R rules options resolution)
  mem_postDeletes : ∀ a ∈ plan.postDeletes, ∃ e,
    e ∈ R.entries.values ∧
      MirrorDeletion L R rules options resolution e ∧
      Deletes resolution.pairs false e a ∧
      deletionSnapshot e R options.compare = .ok a.snapshot
  postDeletes_complete : ∀ e ∈ R.entries.values,
    MirrorDeletion L R rules options resolution e →
      ∃ a ∈ plan.postDeletes, Deletes resolution.pairs false e a
  nodup_postDeletes : (plan.postDeletes.map (·.relative)).Nodup
  sorted_postDeletes : plan.postDeletes.Pairwise fun a b => DeepestFirst a.relative b.relative
  skipped : ∀ skip, skip ∈ resolution.skipped ++ L.skipped →
    skip ∈ plan.skipped
  leftovers : ∀ old kept, (old, kept) ∈ resolution.leftovers →
    options.scope.matches old = true → ⟨old, leftoverReason old kept⟩ ∈ plan.skipped
  noMounts : refuseMounts L R resolution = .ok ()
  limit : plan.deleteCount ≤ options.maxDelete

variable {root L R rules options resolution}

theorem CopyOf.congr {l l' : List RelPath} (h : ∀ p, p ∈ l' → p ∈ l)
    {u : UploadAction} {c : CopyAction} (hc : CopyOf L R rules resolution l u c) :
    CopyOf L R rules resolution l' u c := by
  obtain ⟨e, he, hrest⟩ := hc.source
  refine ⟨hc.entry, hc.toRelative, hc.toRemotePath, hc.missing, e, ?_, hrest⟩
  exact { he with notPredeleted := fun hmem => he.notPredeleted (h _ hmem) }

omit [Unicode] in
theorem deletionSnapshot_of_deleteAction {pairs : Correspondence} {compare : CompareMode}
    {conflict : Bool} {e : RemoteEntry} {a : DeleteAction}
    (h : deleteAction pairs R compare conflict e = .ok a) :
    deletionSnapshot e R compare = .ok a.snapshot := by
  obtain ⟨snapshot, hs, h⟩ := Loop.bind_eq_ok.mp h
  obtain rfl := Except.ok.inj h
  exact hs

omit [Unicode] in
theorem createRoot_eq_ok {plan plan' : SyncPlan} (h : createRoot root R plan = .ok plan') :
    plan' = { plan with creates := plan.creates ++ rootCreates root R } := by
  simp only [createRoot] at h
  split at h
  · rename_i hr
    cases h
    simp [rootCreates, hr]
  · rename_i hr
    split at h
    · cases h
    · cases h
      simp [rootCreates, hr]

omit [Unicode] in
theorem checkLimits_eq_ok {plan plan' : SyncPlan} (h : checkLimits L options plan = .ok plan') :
    plan' = plan ∧ plan.deleteCount ≤ options.maxDelete := by
  simp only [checkLimits] at h
  split at h
  · cases h
  · split at h
    · cases h
    · rename_i hle
      cases h
      exact ⟨rfl, Nat.le_of_not_lt hle⟩

/-- The optional stage of the server copies. -/
theorem copied_of_planCopies {plan plan' : SyncPlan}
    (h : planCopies L R rules options resolution plan = .ok plan') :
    ∃ replaced, Copied L R rules resolution plan plan' replaced := by
  simp only [planCopies] at h
  split at h
  · exact copied_of_replaceUploads h
  · cases h
    exact ⟨fun _ => none, by simp [List.zipIdx_map_fst], by simp⟩

/-- The paths deleted first are those of the replaced entries. -/
theorem mem_predeleted_iff {start : SyncPlan} {draft : Draft}
    (h : EntriesPlanned root R rules options resolution start L.entries.values draft)
    {d : RemoteEntry} (hd : d ∈ R.entries.values) :
    d.relative ∈ draft.predeleted ↔ ∃ x ∈ L.entries.values, d ∈ replacedBy R resolution x := by
  constructor
  · intro hmem
    obtain ⟨a, ha, hrel⟩ := (h.pushed.keys _).mp hmem
    obtain ⟨e, ⟨x, hx, he⟩, hae⟩ := h.pushed.sound a ha
    rw [(deletes_of_deleteAction hae).1.relative] at hrel
    have := EntryMap.eq_of_relative_eq (mem_values_of_mem_replacedBy he) hd hrel
    exact ⟨x, hx, this ▸ he⟩
  · rintro ⟨x, hx, he⟩
    exact h.replaced x hx d he

section Finish

variable (plan : SyncPlan)

omit [Unicode]

theorem preDeletes_finishPlan : (finishPlan plan).preDeletes =
    plan.preDeletes.insertionSort fun a b => DeepestFirst a.relative b.relative := rfl

theorem creates_finishPlan : (finishPlan plan).creates =
    plan.creates.insertionSort fun a b => ShallowestFirst a.relative b.relative := rfl

theorem copies_finishPlan : (finishPlan plan).copies =
    plan.copies.insertionSort fun a b => a.toRelative ≤ b.toRelative := rfl

theorem uploads_finishPlan : (finishPlan plan).uploads =
    plan.uploads.insertionSort fun a b => a.entry.relative ≤ b.entry.relative := rfl

theorem postDeletes_finishPlan : (finishPlan plan).postDeletes =
    plan.postDeletes.insertionSort fun a b => DeepestFirst a.relative b.relative := rfl

theorem skipped_finishPlan : (finishPlan plan).skipped =
    plan.skipped.insertionSort fun a b => a.relative ≤ b.relative := rfl

theorem renames_finishPlan : (finishPlan plan).renames = plan.renames := rfl

theorem unchangedFiles_finishPlan : (finishPlan plan).unchangedFiles = plan.unchangedFiles := rfl

theorem scope_finishPlan : (finishPlan plan).scope = plan.scope := rfl

theorem rules_finishPlan : (finishPlan plan).rules = plan.rules := rfl

end Finish

theorem planned_of_buildPlanOn {plan : SyncPlan}
    (h : buildPlanOn root L R rules options resolution = .ok plan) :
    Planned root L R rules options resolution plan := by
  simp only [buildPlanOn, Loop.bind_eq_ok] at h
  obtain ⟨start, hstart, _, hmounts, draft, hdraft, copied, hcopied, renamed, hrenamed, mirrored,
    hmirrored, h⟩ := h
  have hstart := createRoot_eq_ok hstart
  have hentries := entries_planned (by rw [hstart]; rfl) hdraft
  obtain ⟨replaced, hcopied⟩ := copied_of_planCopies hcopied
  have hrenamed := planRenames_eq_ok hrenamed
  rw [reportLeftovers_eq] at hmirrored
  have hposts : renamed.postDeletes = [] :=
    calc renamed.postDeletes = copied.postDeletes := by rw [hrenamed]
      _ = draft.plan.postDeletes := by rw [hcopied.frame]
      _ = start.postDeletes := by rw [hentries.frame]
      _ = [] := by rw [hstart]; rfl
  obtain ⟨s, hs, hmirrored⟩ := planDeletions_mirrored
    (fun d hd => mem_predeleted_iff hentries hd) (by exact hposts) hmirrored
  obtain ⟨hplan, hlimit⟩ := checkLimits_eq_ok h
  -- each part of the plan before the last sort, by the stage that made it
  have hpre : s.plan.preDeletes = draft.plan.preDeletes :=
    calc s.plan.preDeletes = renamed.preDeletes := by rw [hs.frame]
      _ = copied.preDeletes := by rw [hrenamed]
      _ = draft.plan.preDeletes := by rw [hcopied.frame]
  have hcreates : s.plan.creates = rootCreates root R ++
      L.entries.values.filterMap (createOf root R resolution) :=
    calc s.plan.creates = renamed.creates := by rw [hs.frame]
      _ = copied.creates := by rw [hrenamed]
      _ = draft.plan.creates := by rw [hcopied.frame]
      _ = start.creates ++ L.entries.values.filterMap (createOf root R resolution) :=
        by rw [hentries.frame]
      _ = _ := by rw [hstart]; rfl
  have hwanted : draft.plan.uploads = wantedUploads root L R options resolution :=
    calc draft.plan.uploads = start.uploads ++ wantedUploads root L R options resolution :=
        by rw [hentries.frame]; rfl
      _ = _ := by rw [hstart]; exact List.nil_append _
  have huploads : s.plan.uploads = copied.uploads :=
    calc s.plan.uploads = renamed.uploads := by rw [hs.frame]
      _ = copied.uploads := by rw [hrenamed]
  have hcopies : s.plan.copies = copied.copies :=
    calc s.plan.copies = renamed.copies := by rw [hs.frame]
      _ = copied.copies := by rw [hrenamed]
  have hnocopies : draft.plan.copies = [] :=
    calc draft.plan.copies = start.copies := by rw [hentries.frame]
      _ = [] := by rw [hstart]; rfl
  have hrenames : s.plan.renames =
      resolution.renames.filterMap (renameOf R rules options resolution) :=
    calc s.plan.renames = renamed.renames := by rw [hs.frame]
      _ = copied.renames ++ resolution.renames.filterMap (renameOf R rules options resolution) :=
        by rw [hrenamed]
      _ = _ := by
        have hnone : copied.renames = [] :=
          calc copied.renames = draft.plan.renames := by rw [hcopied.frame]
            _ = start.renames := by rw [hentries.frame]
            _ = [] := by rw [hstart]; rfl
        rw [hnone, List.nil_append]
  have hunchanged : s.plan.unchangedFiles =
      L.entries.values.countP (isUnchanged R options resolution) :=
    calc s.plan.unchangedFiles = renamed.unchangedFiles := by rw [hs.frame]
      _ = copied.unchangedFiles := by rw [hrenamed]
      _ = draft.plan.unchangedFiles := by rw [hcopied.frame]
      _ = start.unchangedFiles + L.entries.values.countP (isUnchanged R options resolution) :=
        by rw [hentries.frame]
      _ = _ := by rw [hstart]; exact Nat.zero_add _
  have hsame : s.plan.scope = options.scope ∧ s.plan.rules = rules := by
    constructor
    · calc s.plan.scope = renamed.scope := by rw [hs.frame]
        _ = copied.scope := by rw [hrenamed]
        _ = draft.plan.scope := by rw [hcopied.frame]
        _ = start.scope := by rw [hentries.frame]
        _ = options.scope := by rw [hstart]; rfl
    · calc s.plan.rules = renamed.rules := by rw [hs.frame]
        _ = copied.rules := by rw [hrenamed]
        _ = draft.plan.rules := by rw [hcopied.frame]
        _ = start.rules := by rw [hentries.frame]
        _ = rules := by rw [hstart]; rfl
  have hskipped : ∀ skip ∈ resolution.skipped ++ L.skipped, skip ∈ renamed.skipped := by
    have hstartSkips : copied.skipped = resolution.skipped ++ L.skipped :=
      calc copied.skipped = draft.plan.skipped := by rw [hcopied.frame]
        _ = start.skipped := by rw [hentries.frame]
        _ = _ := by rw [hstart]; rfl
    intro skip hskip
    rw [hrenamed]
    exact List.mem_append_left _ (hstartSkips ▸ hskip)
  have hreplaced : ∀ x ∈ L.entries.values, ∀ e ∈ replacedBy R resolution x,
      ∃ b ∈ draft.plan.preDeletes,
        deleteAction resolution.pairs R options.compare true e = .ok b := by
    intro x hx e he
    obtain ⟨b, hb, hrel⟩ := (hentries.pushed.keys _).mp (hentries.replaced x hx e he)
    obtain ⟨e', ⟨y, _, he'⟩, hbe⟩ := hentries.pushed.sound b hb
    rw [(deletes_of_deleteAction hbe).1.relative] at hrel
    obtain rfl := EntryMap.eq_of_relative_eq (mem_values_of_mem_replacedBy he')
      (mem_values_of_mem_replacedBy he) hrel
    exact ⟨b, hb, hbe⟩
  have hprePerm := List.perm_insertionSort (fun a b : DeleteAction =>
    DeepestFirst a.relative b.relative) draft.plan.preDeletes
  have hpostPerm := List.perm_insertionSort (fun a b => DeepestFirst a.relative b.relative)
    (s.plan.postDeletes.map (guardDeletion s.plan.copies))
  rw [hmirrored] at hplan hlimit
  constructor
  case sameScope => rw [hplan, scope_finishPlan]; exact hsame.1
  case sameRules => rw [hplan, rules_finishPlan]; exact hsame.2
  case mem_preDeletes =>
    intro a
    rw [hplan, preDeletes_finishPlan, hpre, hprePerm.mem_iff]
    constructor
    · intro ha
      obtain ⟨e, ⟨x, hx, he⟩, hae⟩ := hentries.pushed.sound a ha
      exact ⟨x, hx, e, he, hae⟩
    · rintro ⟨x, hx, e, he, hae⟩
      obtain ⟨b, hb, hbe⟩ := hreplaced x hx e he
      rw [hae] at hbe
      exact Except.ok.inj hbe ▸ hb
  case replaced_deletable =>
    intro x hx e he
    obtain ⟨b, _, hbe⟩ := hreplaced x hx e he
    exact ⟨b, hbe⟩
  case nodup_preDeletes =>
    rw [hplan, preDeletes_finishPlan, hpre, (hprePerm.map _).nodup_iff]
    exact hentries.pushed.nodup
  case sorted_preDeletes =>
    rw [hplan, preDeletes_finishPlan]
    exact Sorted.pairwise_sortBy deepestFirst_total deepestFirst_trans _
  case mirror => exact hentries.mirror
  case clear => exact hentries.clear
  case creates =>
    rw [hplan, creates_finishPlan, ← hcreates]
    exact List.perm_insertionSort _ _
  case sorted_creates =>
    rw [hplan, creates_finishPlan]
    exact Sorted.pairwise_sortBy shallowestFirst_total shallowestFirst_trans _
  case uploads =>
    refine ⟨replaced, ?_, ?_, ?_⟩
    · rw [hplan, uploads_finishPlan, ← hwanted]
      refine (List.perm_insertionSort _ _).trans (.of_eq ?_)
      rw [huploads, hcopied.frame]
    · rw [hplan, copies_finishPlan, ← hwanted]
      refine (List.perm_insertionSort _ _).trans (.of_eq ?_)
      rw [hcopies, hcopied.frame, hnocopies, List.nil_append]
    · intro u i hu c hc
      rw [← hwanted] at hu
      refine (hcopied.copyOf u i hu c hc).congr fun p hp => ?_
      rw [hplan, preDeletes_finishPlan, hpre] at hp
      exact (hprePerm.map _).mem_iff.mp hp
  case unchanged => rw [hplan, unchangedFiles_finishPlan, hunchanged]
  case renames => rw [hplan, renames_finishPlan, hrenames]
  case mem_postDeletes =>
    intro a ha
    rw [hplan, postDeletes_finishPlan, hpostPerm.mem_iff] at ha
    obtain ⟨b, hb, rfl⟩ := List.mem_map.mp ha
    obtain ⟨e, he, hdel, hbe⟩ := hs.sound b hb
    obtain ⟨hrec, _⟩ := deletes_of_deleteAction hbe
    have hsnapshot := deletionSnapshot_of_deleteAction hbe
    exact ⟨e, he, hdel, ⟨hrec.relative, hrec.localRelative, hrec.remotePath, hrec.kind,
      hrec.typeConflict⟩, hsnapshot⟩
  case postDeletes_complete =>
    intro e he hdel
    obtain ⟨b, hb, hbe⟩ := hs.complete e he hdel
    obtain ⟨hrec, _⟩ := deletes_of_deleteAction hbe
    refine ⟨guardDeletion s.plan.copies b, ?_, hrec.relative, hrec.localRelative, hrec.remotePath,
      hrec.kind, hrec.typeConflict⟩
    rw [hplan, postDeletes_finishPlan, hpostPerm.mem_iff]
    exact List.mem_map_of_mem hb
  case nodup_postDeletes =>
    rw [hplan, postDeletes_finishPlan, (hpostPerm.map _).nodup_iff, List.map_map]
    exact (R.entries.nodup_keys).sublist hs.sublist
  case sorted_postDeletes =>
    rw [hplan, postDeletes_finishPlan]
    exact Sorted.pairwise_sortBy deepestFirst_total deepestFirst_trans _
  case skipped =>
    intro skip hskip
    rw [hplan, skipped_finishPlan, List.mem_insertionSort]
    exact hs.skipped skip (List.mem_append_left _ (hskipped skip hskip))
  case leftovers =>
    intro old kept hmem hscope
    rw [hplan, skipped_finishPlan, List.mem_insertionSort]
    refine hs.skipped _ (List.mem_append_right _ ?_)
    exact List.mem_filterMap.mpr ⟨_, hmem, by simp [hscope]⟩
  case noMounts => exact hmounts
  case limit => rw [hplan]; exact hlimit

/-- Every plan `buildPlan` returns consists of what `Planned` says. -/
theorem planned_of_buildPlan {plan : SyncPlan} (h : buildPlan root L R rules options = .ok plan) :
    Planned root L R rules options (planResolution root L R rules options) plan :=
  planned_of_buildPlanOn h

variable {plan : SyncPlan}

theorem mem_wantedUploads {u : UploadAction} : u ∈ wantedUploads root L R options resolution ↔
    ∃ x ∈ L.entries.values, uploadOf root R options resolution x = some u :=
  List.mem_filterMap

/-- Each upload and each copy of a plan is of one wanted upload, and each wanted upload comes to one
of them. -/
theorem exists_replaced (h : Planned root L R rules options resolution plan) :
    ∃ replaced : Nat → Option CopyAction,
      (∀ u, u ∈ plan.uploads ↔ ∃ i : Nat,
        (wantedUploads root L R options resolution)[i]? = some u ∧ replaced i = none) ∧
      (∀ c, c ∈ plan.copies ↔ ∃ (i : Nat) (u : UploadAction),
        (wantedUploads root L R options resolution)[i]? = some u ∧ replaced i = some c) ∧
      ∀ i u, (wantedUploads root L R options resolution)[i]? = some u → ∀ c, replaced i = some c →
        CopyOf L R rules resolution (plan.preDeletes.map (·.relative)) u c := by
  obtain ⟨replaced, hup, hcop, hof⟩ := h.uploads
  refine ⟨replaced, ?_, ?_, fun i u hu c hc => hof u i hu c hc⟩
  · intro u
    rw [hup.mem_iff]
    simp [List.mem_zipIdx_iff_getElem?]
  · intro c
    rw [hcop.mem_iff]
    simp only [List.mem_filterMap, Prod.exists, List.mem_zipIdx_iff_getElem?]
    exact ⟨fun ⟨u, i, hu, hc⟩ => ⟨i, u, hu, hc⟩, fun ⟨i, u, hu, hc⟩ => ⟨u, i, hu, hc⟩⟩

/-- What the plan uploads and copies is what was wanted, up to order, under any key that a copy
shares with the upload it replaces. -/
theorem wanted_perm (h : Planned root L R rules options resolution plan) {κ : Type}
    {g : UploadAction → κ} {k : CopyAction → κ}
    (hk : ∀ u c predeleted, CopyOf L R rules resolution predeleted u c → k c = g u) :
    (plan.uploads.map g ++ plan.copies.map k).Perm
      ((wantedUploads root L R options resolution).map g) := by
  obtain ⟨replaced, hup, hcop, hof⟩ := h.uploads
  refine ((hup.map g).append (hcop.map k)).trans ?_
  rw [List.map_map]
  refine (Sorted.map_filter_append_filterMap_perm
    (g := fun indexed : UploadAction × Nat => g indexed.1) ?_).trans ?_
  · rintro ⟨u, i⟩ hu c hc
    exact hk u c _ (hof u i (List.mem_zipIdx_iff_getElem?.mp hu) c hc)
  · rw [show (fun indexed : UploadAction × Nat => g indexed.1) = g ∘ Prod.fst from rfl,
      ← List.map_map, List.zipIdx_map_fst]

/-- Whether a plan writes a local entry: creates, uploads or copies it. -/
def isWritten (root : RemoteRoot) (R : RemoteInventory) (options : PlanOptions)
    (resolution : Resolution) (x : LocalEntry) : Bool :=
  (createOf root R resolution x).isSome || (uploadOf root R options resolution x).isSome

/-- A plan writes to the destination folder if that is missing, and to where the entries it writes
lie. -/
theorem mem_destinations (h : Planned root L R rules options resolution plan) {p : RelPath} :
    p ∈ plan.destinations ↔ (∃ create ∈ rootCreates root R, create.remotePath = p) ∨
      ∃ x ∈ L.entries.values, isWritten root R options resolution x = true ∧
        destination root resolution x = p := by
  have hwrites := wanted_perm h (g := (·.remotePath)) (k := (·.toRemotePath))
    fun _ _ _ hc => hc.toRemotePath
  rw [SyncPlan.destinations, List.mem_append, hwrites.mem_iff, (h.creates.map _).mem_iff,
    List.map_append, List.mem_append, or_assoc]
  simp only [List.mem_map, isWritten, Bool.or_eq_true, Option.isSome_iff_exists]
  refine or_congr Iff.rfl ?_
  constructor
  · rintro (⟨create, hcreate, rfl⟩ | ⟨u, hu, rfl⟩)
    · obtain ⟨x, hx, hxc⟩ := List.mem_filterMap.mp hcreate
      exact ⟨x, hx, .inl ⟨create, hxc⟩, (createOf_eq_some hxc).2.2.2.symm⟩
    · obtain ⟨x, hx, hxu⟩ := mem_wantedUploads.mp hu
      exact ⟨x, hx, .inr ⟨u, hxu⟩, (uploadOf_eq_some hxu).2.2.2.symm⟩
  · rintro ⟨x, hx, ⟨create, hxc⟩ | ⟨u, hxu⟩, rfl⟩
    · exact .inl ⟨create, List.mem_filterMap.mpr ⟨x, hx, hxc⟩, (createOf_eq_some hxc).2.2.2⟩
    · exact .inr ⟨u, mem_wantedUploads.mpr ⟨x, hx, hxu⟩, (uploadOf_eq_some hxu).2.2.2⟩

/-- What replaces a remote entry is written. -/
theorem isWritten_of_mem_replacedBy {x : LocalEntry} {e : RemoteEntry}
    (h : e ∈ replacedBy R resolution x) : isWritten root R options resolution x = true := by
  obtain ⟨hcov, r, hr, ⟨hk, hrk, _⟩ | ⟨hk, hrk, _⟩⟩ := mem_replacedBy.mp h
  · simp [isWritten, createOf, hcov, hk, hr, hrk]
  · simp [isWritten, uploadOf, hcov, hk, hr, hrk]

/-- An entry is deleted first because a local one replaces it, or last because none is left. -/
theorem mem_deletes (h : Planned root L R rules options resolution plan) {e : RemoteEntry}
    (he : e ∈ R.entries.values) {a : DeleteAction} (ha : a ∈ plan.deletes)
    (hrel : e.relative = a.relative) :
    (∃ x ∈ L.entries.values, e ∈ replacedBy R resolution x) ∨
      MirrorDeletion L R rules options resolution e := by
  rcases List.mem_append.mp ha with ha | ha
  · obtain ⟨x, hx, e', he', hae⟩ := (h.mem_preDeletes a).mp ha
    rw [(deletes_of_deleteAction hae).1.relative] at hrel
    obtain rfl := EntryMap.eq_of_relative_eq he (mem_values_of_mem_replacedBy he') hrel
    exact .inl ⟨x, hx, he'⟩
  · obtain ⟨e', he', hdel, hrec, _⟩ := h.mem_postDeletes a ha
    rw [hrec.relative] at hrel
    obtain rfl := EntryMap.eq_of_relative_eq he he' hrel
    exact .inr hdel

/-- The entry a local one replaces has its fold, so neither is shielded without the other. -/
theorem covers_of_remoteOf {x : LocalEntry} {r : RemoteEntry}
    (h : (planResolution root L R rules options).pairs.remoteOf R x.relative = some r) :
    (planResolution root L R rules options).shield.covers r.relative =
      (planResolution root L R rules options).shield.covers x.relative := by
  rw [relative_of_remoteOf h]
  exact covers_remoteRelative x.relative

/-- What a local entry replaces does not lie above a local path of its own kind. -/
theorem not_replaced_above (closed : L.entries.ParentClosed LocalEntry.kind)
    (distinct : L.entries.DistinctFolds) {x y : LocalEntry} (hx : x ∈ L.entries.values)
    (hy : y ∈ L.entries.values) {e : RemoteEntry}
    (he : e ∈ replacedBy R (planResolution root L R rules options) y)
    (hfold : portableFold e.relative = portableFold x.relative) :
    ∃ r, (planResolution root L R rules options).pairs.remoteOf R y.relative = some r ∧ e = r ∧
      y = x := by
  obtain ⟨_, r, hr, hcase⟩ := mem_replacedBy.mp he
  have hrel := relative_of_remoteOf hr
  have hyfold : portableFold r.relative = portableFold y.relative := by
    rw [hrel]; exact fold_remoteRelative_resolve y.relative
  have hsame : e = r → y = x := by
    rintro rfl
    exact distinct y hy x hx (hyfold.symm.trans hfold)
  rcases hcase with ⟨_, _, her⟩ | ⟨hyk, _, hsub⟩
  · exact ⟨r, hr, her, hsame her⟩
  · rcases (EntryMap.mem_subtree.mp hsub).2 with heq | hanc
    · have her := EntryMap.eq_of_relative_eq (EntryMap.mem_subtree.mp hsub).1
        (EntryMap.mem_values_of_get? hr) heq
      exact ⟨r, hr, her, hsame her⟩
    · -- a file above a local path would be a folder of it
      exfalso
      obtain ⟨a, ha, hafold⟩ := exists_ancestor_of_map_eq hfold hanc
      obtain ⟨d, hd, hdk⟩ := closed x hx a ha
      have hdrel := EntryMap.relative_of_get? hd
      have : d = y := by
        refine distinct d (EntryMap.mem_values_of_get? hd) y hy ?_
        rw [hdrel]
        exact hafold.trans hyfold
      rw [this, hyk] at hdk
      cases hdk

end Planned

end DriveSync
