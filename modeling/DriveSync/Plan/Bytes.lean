import DriveSync.Lib.Total
import DriveSync.Plan.Planned

/-!
# DriveSync.Plan.Bytes

The byte counter of a plan. Each upload scheduled adds its size, each one a server copy stands in
for takes it off again: a built plan counts exactly its uploads, and none of its copies.
-/

namespace DriveSync

open Path

/-- The bytes a plan uploads. -/
def SyncPlan.uploadTotal (plan : SyncPlan) : Nat := total (·.entry.size) plan.uploads

/-- The bytes a plan copies on the NAS. -/
def SyncPlan.copyTotal (plan : SyncPlan) : Nat := total (·.entry.size) plan.copies

theorem saturatingAdd_total {α : Type} (f : α → Nat) (l : List α) (n : Nat) :
    l.foldl (fun n a => saturatingAdd n (f a)) (saturatingAdd 0 n) =
      saturatingAdd 0 (n + total f l) := by
  induction l generalizing n with
  | nil => rfl
  | cons a l ih =>
    have hstep : saturatingAdd (saturatingAdd 0 n) (f a) = saturatingAdd 0 (n + f a) := by
      simp only [saturatingAdd]; omega
    rw [List.foldl_cons, hstep, ih, total_cons, Nat.add_assoc]

theorem saturatingAdd_zero {n : Nat} (h : n ≤ 18446744073709551615) : saturatingAdd 0 n = n := by
  simp only [saturatingAdd]; omega

section Stages

variable [Unicode] {root : RemoteRoot} {L : LocalInventory} {R : RemoteInventory}
  {rules : IgnoreRules} {options : PlanOptions} {resolution : Resolution}

/-- The counter of a plan that holds no copies yet. -/
structure Uncopied (plan : SyncPlan) : Prop where
  bytes : plan.uploadBytes = saturatingAdd 0 plan.uploadTotal
  copies : plan.copies = []

omit [Unicode] in
/-- A deletion pushed leaves what is uploaded and copied as it is. -/
theorem pushPredelete_frame {pairs : Correspondence} {compare : CompareMode} {draft draft' : Draft}
    {e : RemoteEntry} (h : pushPredelete pairs R compare draft e = .ok draft') :
    draft'.plan = { draft.plan with preDeletes := draft'.plan.preDeletes } := by
  simp only [pushPredelete] at h
  split at h
  · cases h; rfl
  · obtain ⟨a, _, h⟩ := Loop.bind_eq_ok.mp h
    obtain rfl := Except.ok.inj h
    rfl

omit [Unicode] in
theorem Uncopied.push {pairs : Correspondence} {compare : CompareMode} {draft draft' : Draft}
    {e : RemoteEntry} (hplan : Uncopied draft.plan)
    (h : pushPredelete pairs R compare draft e = .ok draft') : Uncopied draft'.plan := by
  rw [pushPredelete_frame h]
  exact ⟨hplan.bytes, hplan.copies⟩

omit [Unicode] in
theorem Uncopied.upload {draft : Draft} (h : Uncopied draft.plan) (x : LocalEntry)
    (reason : ChangeReason) (expected : Option RemoteSnapshot) :
    Uncopied (draft.upload root resolution x reason expected).plan := by
  refine ⟨?_, h.copies⟩
  show saturatingAdd draft.plan.uploadBytes x.size = saturatingAdd 0 (total _ (_ ++ [_]))
  rw [h.bytes, total_append, total_cons, total_nil]
  simp only [saturatingAdd, SyncPlan.uploadTotal]
  omega

/-- The step of the loop over the local entries. -/
theorem Uncopied.step {draft draft' : Draft} {x : LocalEntry} (h : Uncopied draft.plan)
    (hstep : EntryStep root R rules options resolution draft x draft') :
    Uncopied draft'.plan := by
  cases hstep with
  | shielded | folder => exact h
  | missingFolder | unchanged => exact ⟨h.bytes, h.copies⟩
  | missingFile | changed => exact h.upload x _ _
  | replaceFile _ _ _ _ _ hmid =>
    have := h.push hmid
    exact ⟨this.bytes, this.copies⟩
  | replaceFolder _ _ _ _ _ _ hmid =>
    refine Uncopied.upload ?_ x _ _
    exact Loop.foldlM_done (I := fun _ d => Uncopied d.plan) _ h
      (fun _ _ _ _ _ _ hd hpush => hd.push hpush) hmid

/-- What a copy takes over from the upload it stands in for. -/
structure Replaces (u : UploadAction) (c : CopyAction) : Prop where
  entry : c.entry = u.entry
  expectedSize : c.expectedSize = u.entry.size
  positive : 0 < u.entry.size

omit [Unicode] in
theorem copyTarget_size {indexed : UploadAction × Nat} {target : ContentKey × Nat}
    (h : copyTarget R resolution indexed = .ok (some target)) :
    target.2 = indexed.2 ∧ target.1.size = indexed.1.entry.size ∧ 0 < indexed.1.entry.size := by
  simp only [copyTarget] at h
  split at h
  · cases h
  · rename_i hsize
    rw [not_or] at hsize
    split at h
    · cases h
    · split at h
      · obtain rfl := Option.some.inj (Except.ok.inj h)
        exact ⟨rfl, rfl, by omega⟩
      · cases h

omit [Unicode] in
theorem copyFor_replaces {uploads : List UploadAction} {targets : List (ContentKey × Nat)}
    {sources : List (ContentKey × RemoteEntry)} {target : ContentKey × Nat} {i : Nat}
    {c : CopyAction} (h : copyFor uploads targets sources target = .ok (some (i, c))) :
    i = target.2 ∧ c.expectedSize = target.1.size ∧ ∃ u, uploads[i]? = some u ∧ c.entry = u.entry := by
  simp only [copyFor] at h
  split at h
  · rename_i u _ _ hu
    obtain ⟨source, _, h⟩ := Loop.bind_eq_ok.mp h
    obtain ⟨dest, _, h⟩ := Loop.bind_eq_ok.mp h
    split at h
    · cases h
    · obtain ⟨rfl, rfl⟩ := Prod.mk.inj (Option.some.inj (Except.ok.inj h))
      exact ⟨rfl, rfl, _, hu, rfl⟩
  · cases h

/-- What the server copies leave of the uploads, and what the counter makes of it. -/
structure Moved (plan plan' : SyncPlan) : Prop where
  totals : plan'.uploadTotal + plan'.copyTotal = plan.uploadTotal
  bytes : plan.uploadBytes = plan.uploadTotal → plan'.uploadBytes = plan'.uploadTotal
  copies : ∀ c ∈ plan'.copies, c.expectedSize = c.entry.size ∧ 0 < c.entry.size

/-- The stage of the server copies takes the bytes of what is copied off the counter. -/
theorem moved_of_replaceUploads {plan plan' : SyncPlan} (hplan : plan.copies = [])
    (h : replaceUploadsWithServerCopies L R rules options resolution plan = .ok plan') :
    Moved plan plan' := by
  simp only [replaceUploadsWithServerCopies] at h
  split at h
  · cases h
    exact ⟨by simp [SyncPlan.copyTotal, hplan], id, by simp [hplan]⟩
  · obtain ⟨targets, htargets, h⟩ := Loop.bind_eq_ok.mp h
    obtain ⟨replacements, hrep, h⟩ := Loop.bind_eq_ok.mp h
    obtain rfl := Except.ok.inj h
    have hreplaces : ∀ (u : UploadAction) (i : Nat), (u, i) ∈ plan.uploads.zipIdx → ∀ c,
        (replacements.filterMap id).lookup i = some c → Replaces u c := by
      intro u i hu c hc
      obtain ⟨before, after, hsplit, -⟩ := List.lookup_eq_some_iff.mp hc
      have hmem : (i, c) ∈ replacements.filterMap id := by rw [hsplit]; simp
      obtain ⟨r, hr, hrc⟩ := List.mem_filterMap.mp hmem
      obtain ⟨target, htarget, hcopy⟩ := Loop.mem_of_mapM hrep r hr
      obtain rfl : r = some (i, c) := hrc
      obtain ⟨hi, hsize, u', hu', hentry⟩ := copyFor_replaces hcopy
      obtain ⟨t, ht, htt⟩ := List.mem_filterMap.mp htarget
      obtain ⟨indexed, hindexed, htgt⟩ := Loop.mem_of_mapM htargets t ht
      obtain rfl : t = some target := htt
      obtain ⟨htarget2, htsize, hpos⟩ := copyTarget_size htgt
      have hget := List.mem_zipIdx_iff_getElem?.mp hindexed
      rw [← htarget2, ← hi, hu'] at hget
      rw [List.mem_zipIdx_iff_getElem?, hu'] at hu
      obtain rfl := Option.some.inj hu
      obtain rfl := Option.some.inj hget
      exact ⟨hentry, hsize.trans htsize, hpos⟩
    generalize (replacements.filterMap id) = replacements at hreplaces ⊢
    have hcopies : ∀ l : List (UploadAction × Nat), (∀ u ∈ l, u ∈ plan.uploads.zipIdx) →
        total (·.entry.size) (l.filterMap fun u => replacements.lookup u.2) =
          total (·.1.entry.size) (l.filter fun u => (replacements.lookup u.2).isSome) := by
      intro l hl
      induction l with
      | nil => rfl
      | cons u l ih =>
        have ih := ih fun v hv => hl v (.tail _ hv)
        cases hu : replacements.lookup u.2 with
        | none => simpa [hu] using ih
        | some c =>
          have := (hreplaces u.1 u.2 (hl u (.head _)) c hu).entry
          simp [hu, ih, this]
    have hsplit := total_filter_add (f := fun u : UploadAction × Nat => u.1.entry.size)
      (fun u => (replacements.lookup u.2).isSome) plan.uploads.zipIdx
    have hwhole : total (fun u : UploadAction × Nat => u.1.entry.size) plan.uploads.zipIdx =
        plan.uploadTotal := by
      rw [SyncPlan.uploadTotal, ← List.zipIdx_map_fst 0 plan.uploads, total_map]
      simp
    have hkept : total (·.entry.size) ((plan.uploads.zipIdx.filter fun u =>
        (replacements.lookup u.2).isNone).map (·.1)) = total (fun u => u.1.entry.size)
          (plan.uploads.zipIdx.filter fun u => !(replacements.lookup u.2).isSome) := by
      rw [total_map]
      simp
    refine ⟨?_, ?_, ?_⟩
    · show total _ (List.map _ _) + total _ (plan.copies ++ _) = _
      rw [hkept, hplan, List.nil_append, hcopies _ fun _ h => h]
      omega
    · intro hbytes
      show List.foldl _ plan.uploadBytes _ = total _ (List.map _ _)
      rw [foldl_sub, hkept]
      omega
    · intro c hc
      simp only [hplan, List.nil_append, List.mem_filterMap] at hc
      obtain ⟨u, hu, hc⟩ := hc
      obtain ⟨hentry, hsize, hpos⟩ := hreplaces u.1 u.2 hu c hc
      rw [hsize, hentry]
      exact ⟨rfl, hpos⟩

theorem moved_of_planCopies {plan plan' : SyncPlan} (hplan : plan.copies = [])
    (h : planCopies L R rules options resolution plan = .ok plan') : Moved plan plan' := by
  simp only [planCopies] at h
  split at h
  · exact moved_of_replaceUploads hplan h
  · cases h
    exact ⟨by simp [SyncPlan.copyTotal, hplan], id, by simp [hplan]⟩

/-- The counter of a finished plan is its uploads', and every copy is of a file with content. -/
structure Counted (plan : SyncPlan) : Prop where
  bytes : plan.uploadBytes = plan.uploadTotal
  copies : ∀ c ∈ plan.copies, c.expectedSize = c.entry.size ∧ 0 < c.entry.size

theorem counted_of_buildPlan {plan : SyncPlan} (h : buildPlan root L R rules options = .ok plan)
    (hsum : plan.uploadTotal + plan.copyTotal ≤ 18446744073709551615) : Counted plan := by
  simp only [buildPlan, buildPlanOn, Loop.bind_eq_ok] at h
  obtain ⟨start, hstart, _, _, draft, hdraft, copied, hcopied, renamed, hrenamed, mirrored,
    hmirrored, h⟩ := h
  have hstart := createRoot_eq_ok hstart
  have hentries := entries_planned (by rw [hstart]; rfl) hdraft
  have hstarted : Uncopied start := by rw [hstart]; exact ⟨rfl, rfl⟩
  have hdrafted : Uncopied draft.plan :=
    Loop.foldlM_done (I := fun _ d => Uncopied d.plan) _ hstarted
      (fun _ _ _ _ _ _ hd hstep => hd.step (planEntry_step hstep)) hdraft
  have hmoved := moved_of_planCopies hdrafted.copies hcopied
  have hrenamed := planRenames_eq_ok hrenamed
  rw [reportLeftovers_eq] at hmirrored
  obtain ⟨replaced, hcopied⟩ := copied_of_planCopies hcopied
  have hposts : renamed.postDeletes = [] :=
    calc renamed.postDeletes = copied.postDeletes := by rw [hrenamed]
      _ = draft.plan.postDeletes := by rw [hcopied.frame]
      _ = start.postDeletes := by rw [hentries.frame]
      _ = [] := by rw [hstart]; rfl
  obtain ⟨s, hs, hmirrored⟩ := planDeletions_mirrored
    (fun d hd => mem_predeleted_iff hentries hd) (by exact hposts) hmirrored
  obtain ⟨hplan, _⟩ := checkLimits_eq_ok h
  -- what the last stages leave of the uploads, the copies and the counter
  have huploads : plan.uploads =
      copied.uploads.insertionSort fun a b => a.entry.relative ≤ b.entry.relative :=
    calc plan.uploads = (finishPlan mirrored).uploads := by rw [hplan]
      _ = mirrored.uploads.insertionSort fun a b => a.entry.relative ≤ b.entry.relative := rfl
      _ = _ := by rw [hmirrored, hs.frame, hrenamed]
  have hcopies : plan.copies = copied.copies.insertionSort fun a b => a.toRelative ≤ b.toRelative :=
    calc plan.copies = (finishPlan mirrored).copies := by rw [hplan]
      _ = mirrored.copies.insertionSort fun a b => a.toRelative ≤ b.toRelative := rfl
      _ = _ := by rw [hmirrored, hs.frame, hrenamed]
  have hbytes : plan.uploadBytes = copied.uploadBytes :=
    calc plan.uploadBytes = (finishPlan mirrored).uploadBytes := by rw [hplan]
      _ = mirrored.uploadBytes := rfl
      _ = copied.uploadBytes := by rw [hmirrored, hs.frame, hrenamed]
  have htotal : plan.uploadTotal = copied.uploadTotal := by
    rw [SyncPlan.uploadTotal, huploads]
    exact total_perm (List.perm_insertionSort _ _)
  have hcopied' : plan.copyTotal = copied.copyTotal := by
    rw [SyncPlan.copyTotal, hcopies]
    exact total_perm (List.perm_insertionSort _ _)
  have hdraftBytes := hdrafted.bytes
  rw [saturatingAdd_zero (by rw [← hmoved.totals, ← htotal, ← hcopied']; exact hsum)] at hdraftBytes
  refine ⟨?_, fun c hc => hmoved.copies c ((List.perm_insertionSort _ _).mem_iff.mp (hcopies ▸ hc))⟩
  rw [hbytes, htotal, hmoved.bytes hdraftBytes]

end Stages
end DriveSync
