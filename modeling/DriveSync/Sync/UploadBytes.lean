import DriveSync.Lib.Along
import DriveSync.Plan.Bytes
import DriveSync.Small
import DriveSync.Sync.Narrow

/-!
# DriveSync.Sync.UploadBytes

The byte counter of a plan while it is narrowed. A built plan does not count what it copies on the
NAS; removing what was deferred, or what cannot replace a skipped entry, counts every action that is
left anew, the copies with the uploads.
-/

namespace DriveSync

open Path

/-- The counter says what the plan uploads. -/
def Exact (plan : SyncPlan) : Prop := plan.uploadBytes = plan.uploadTotal

/-- What the counter is measured by: every copy is of a file with content, counted by that file's
size, and no sum overflows. -/
structure Measured (plan : SyncPlan) : Prop where
  copies : ∀ c ∈ plan.copies, c.expectedSize = c.entry.size ∧ 0 < c.entry.size
  fits : plan.uploadTotal + plan.copyTotal ≤ 18446744073709551615

theorem countBytes_eq {uploads : List UploadAction} {copies : List CopyAction}
    (hcopies : ∀ c ∈ copies, c.expectedSize = c.entry.size ∧ 0 < c.entry.size)
    (hfits : total (·.entry.size) uploads + total (·.entry.size) copies ≤ 18446744073709551615) :
    countBytes uploads copies = total (·.entry.size) uploads + total (·.entry.size) copies := by
  have hsizes : copies.map (·.expectedSize) = copies.map (·.entry.size) :=
    List.map_congr_left fun c hc => (hcopies c hc).1
  have hfold := saturatingAdd_total (fun n : Nat => n)
    (uploads.map (·.entry.size) ++ copies.map (·.entry.size)) 0
  rw [show saturatingAdd 0 0 = 0 from rfl, total_append, total_map, total_map, Nat.zero_add,
    saturatingAdd_zero hfits] at hfold
  rw [countBytes, hsizes]
  exact hfold

/-- Copies are of files with content, so they add nothing only if there are none. -/
theorem exact_of_recount {plan : SyncPlan} (h : Measured plan)
    (hbytes : plan.uploadBytes = countBytes plan.uploads plan.copies) :
    Exact plan ↔ plan.copies = [] := by
  rw [Exact, hbytes, countBytes_eq h.copies h.fits, SyncPlan.uploadTotal]
  constructor
  · intro hzero
    have hnone : total (·.entry.size) plan.copies = 0 := by omega
    rw [total_eq_zero] at hnone
    cases hcopies : plan.copies with
    | nil => rfl
    | cons c copies =>
      have hc : c ∈ plan.copies := by rw [hcopies]; simp
      have := (h.copies c hc).2
      have := hnone c hc
      omega
  · intro hnone
    rw [hnone]
    rfl

theorem Measured.sublist {plan plan' : SyncPlan} {p : UploadAction → Bool} {q : CopyAction → Bool}
    (h : Measured plan) (huploads : plan'.uploads = plan.uploads.filter p)
    (hcopies : plan'.copies = plan.copies.filter q) : Measured plan' := by
  refine ⟨fun c hc => h.copies c ?_, ?_⟩
  · rw [hcopies] at hc
    exact (List.mem_filter.mp hc).1
  · have hu := total_filter_le (f := fun u : UploadAction => u.entry.size) p plan.uploads
    have hc := total_filter_le (f := fun c : CopyAction => c.entry.size) q plan.copies
    have := h.fits
    simp only [SyncPlan.uploadTotal, SyncPlan.copyTotal, huploads, hcopies] at this ⊢
    omega

section Steps

variable [Unicode] {ε : Type}

def narrows (op : Narrowing ε) (plan plan' : SyncPlan) : Prop :=
  ∃ deferred, op.apply plan = .ok (plan', deferred)

/-- The deletions that were to make room for a replacement and are kept by a skipped entry. -/
def keptReplacements (plan : SyncPlan) (skipped : List SkippedRemoteEntry) : List RelPath :=
  (plan.preDeletes.filter fun action => !(keptBySkipped skipped action.relative).isNone).map
    (·.relative)

/-- An operation counts the plan's bytes anew while it leaves a copy in it. -/
def RecountsCopies (op : Narrowing ε) (plan : SyncPlan) : Prop :=
  match op with
  | .removeDeferred deferrals => deferrals.isEmpty = false ∧
    ∃ c ∈ plan.copies, (deferrals.covering c.toRelative).isNone = true
  | .protectSkipped skipped => keptReplacements plan skipped ≠ [] ∧
    ∃ c ∈ plan.copies, replacedBelow (keptReplacements plan skipped) c.toRelative = false
  | .withholdIncomplete _ => False
  | .withholdComma _ _ => False

omit [Unicode] in
theorem filter_eq_nil {α : Type} {p : α → Bool} {l : List α} :
    l.filter p = [] ↔ ¬∃ a ∈ l, p a = true := by
  simp [List.filter_eq_nil_iff]

theorem removeDeferred_bytes {plan plan' : SyncPlan} {deferrals : DeferralIndex}
    (hplan : plan' = (removeDeferredFromPlan plan deferrals).1) (h : Measured plan)
    (hexact : Exact plan) : Measured plan' ∧
      (Exact plan' ↔ ¬RecountsCopies (ε := ε) (.removeDeferred deferrals) plan) := by
  rw [removeDeferredFromPlan] at hplan
  by_cases hempty : deferrals.isEmpty = true
  · rw [if_pos hempty] at hplan
    subst hplan
    exact ⟨h, by simp [RecountsCopies, hempty, hexact]⟩
  · rw [if_neg hempty] at hplan
    have hmeasured : Measured plan' := h.sublist (by rw [hplan]) (by rw [hplan])
    refine ⟨hmeasured, ?_⟩
    rw [exact_of_recount hmeasured (by rw [hplan]), hplan]
    simp only [RecountsCopies, filter_eq_nil, Bool.eq_false_iff.mpr hempty, true_and]

theorem protectSkipped_bytes {plan plan' : SyncPlan} {skipped : List SkippedRemoteEntry}
    (hplan : plan' = (protectSkippedRemoteEntries plan skipped).1) (h : Measured plan)
    (hexact : Exact plan) : Measured plan' ∧
      (Exact plan' ↔ ¬RecountsCopies (ε := ε) (.protectSkipped skipped) plan) := by
  rw [protectSkippedRemoteEntries] at hplan
  by_cases hempty : skipped.isEmpty = true
  · rw [if_pos hempty] at hplan
    have hnone : keptReplacements plan skipped = [] := by
      simp [keptReplacements, keptBySkipped, List.isEmpty_iff.mp hempty]
    subst hplan
    exact ⟨h, by simp [RecountsCopies, hnone, hexact]⟩
  · rw [if_neg hempty] at hplan
    change plan' = Prod.fst (if (keptReplacements plan skipped).isEmpty then _ else _) at hplan
    by_cases hnone : (keptReplacements plan skipped).isEmpty = true
    · rw [if_pos hnone] at hplan
      subst hplan
      refine ⟨⟨h.copies, h.fits⟩, ?_⟩
      simp only [RecountsCopies, List.isEmpty_iff.mp hnone, ne_eq, not_true_eq_false, false_and,
        not_false_eq_true, iff_true]
      exact hexact
    · rw [if_neg hnone] at hplan
      have hmeasured : Measured plan' := h.sublist (by rw [hplan]; rfl) (by rw [hplan]; rfl)
      refine ⟨hmeasured, ?_⟩
      rw [exact_of_recount hmeasured (by rw [hplan])]
      have hcopies : plan'.copies = plan.copies.filter fun action =>
          !replacedBelow (keptReplacements plan skipped) action.toRelative := by rw [hplan]; rfl
      rw [hcopies, filter_eq_nil]
      simp [RecountsCopies, List.isEmpty_iff.not.mp hnone]

/-! ## Ambiguous paths -/

/-- Whether an action is taken for ambiguous. -/
def isAmbiguous (lookup : List Char → Except ε Bool) (R : RemoteInventory) (remotePath : RelPath) :
    Bool :=
  Loop.okAnd (addressable lookup R remotePath) Option.isSome

omit [Unicode] in
theorem ambiguousOf_eq_ok {α : Type} {lookup : List Char → Except ε Bool} {R : RemoteInventory}
    {remotePath : α → RelPath} {actions : List α} {found : List (α × List Char)}
    (h : ambiguousOf lookup R remotePath actions = .ok found) :
    found.map (·.1) = actions.filter fun a => isAmbiguous lookup R (remotePath a) := by
  obtain ⟨asked, hasked, hfound⟩ := Loop.bind_eq_ok.mp h
  obtain rfl := Except.ok.inj hfound
  clear h hfound
  induction actions generalizing asked with
  | nil => cases hasked; rfl
  | cons a actions ih =>
    rw [List.mapM_cons] at hasked
    obtain ⟨first, hfirst, hasked⟩ := Loop.bind_eq_ok.mp hasked
    obtain ⟨rest, hrest, hasked⟩ := Loop.bind_eq_ok.mp hasked
    obtain rfl := Except.ok.inj hasked
    obtain ⟨start, hstart, hfirst⟩ := Loop.bind_eq_ok.mp hfirst
    obtain rfl := Except.ok.inj hfirst
    have ih := ih _ hrest
    cases start with
    | none => simpa [isAmbiguous, hstart, Loop.okAnd] using ih
    | some start => simpa [isAmbiguous, hstart, Loop.okAnd] using ih

omit [Unicode] in
theorem withholdAmbiguousDeletions_bytes {plan : SyncPlan} (ambiguous : List RelPath)
    (h : Measured plan) (hexact : Exact plan) :
    Measured (withholdAmbiguousDeletions plan ambiguous) ∧
      Exact (withholdAmbiguousDeletions plan ambiguous) := by
  rw [withholdAmbiguousDeletions]
  split
  · exact ⟨h, hexact⟩
  · simp only
    split
    · exact ⟨⟨h.copies, h.fits⟩, hexact⟩
    · refine ⟨h.sublist rfl rfl, ?_⟩
      show List.foldl _ plan.uploadBytes _ = total _ (List.filter _ plan.uploads)
      rw [foldl_sub, hexact, SyncPlan.uploadTotal, ← total_filter_add
        (fun action : UploadAction => replacedBelow _ action.entry.relative) plan.uploads]
      exact Nat.add_sub_cancel_left ..

omit [Unicode] in
/-- A copy that is uploaded instead moves its bytes to the counter. -/
theorem withholdComma_bytes {lookup : List Char → Except ε Bool} {R : RemoteInventory}
    {plan plan' : SyncPlan} {deferred : List DeferredPath}
    (hplan : withholdCommaAmbiguousMutations lookup plan R = .ok (plan', deferred))
    (h : Measured plan) (hexact : Exact plan) : Measured plan' ∧ Exact plan' := by
  obtain ⟨deletions, _, hplan⟩ := Loop.bind_eq_ok.mp hplan
  obtain ⟨renames, _, hplan⟩ := Loop.bind_eq_ok.mp hplan
  obtain ⟨copies, hcopies, hplan⟩ := Loop.bind_eq_ok.mp hplan
  obtain ⟨rfl, _⟩ := Prod.mk.inj (Except.ok.inj hplan)
  obtain ⟨hmeasured, hexact⟩ :=
    withholdAmbiguousDeletions_bytes (deletions.map (·.1.relative)) h hexact
  generalize withholdAmbiguousDeletions plan (deletions.map (·.1.relative)) = narrowed
    at hcopies hmeasured hexact ⊢
  have hconverted := ambiguousOf_eq_ok hcopies
  have hkept : narrowed.copies.filter (fun action =>
      !(copies.map (·.1)).any fun copy => decide (copy = action)) =
        narrowed.copies.filter fun action => !isAmbiguous lookup R action.fromRemotePath := by
    refine List.filter_congr fun c hc => ?_
    rw [hconverted, Bool.not_inj_iff, Bool.eq_iff_iff]
    simp [hc]
  have hsplit := total_filter_add (f := fun c : CopyAction => c.entry.size)
    (fun c => isAmbiguous lookup R c.fromRemotePath) narrowed.copies
  have hup : total (·.entry.size) (narrowed.uploads ++ (copies.map (·.1)).map uploadInstead) =
      narrowed.uploadTotal + total (·.entry.size) (narrowed.copies.filter fun c =>
        isAmbiguous lookup R c.fromRemotePath) := by
    rw [total_append, total_map, hconverted]
    rfl
  have hfits := hmeasured.fits
  rw [SyncPlan.copyTotal] at hfits
  refine ⟨⟨?_, ?_⟩, ?_⟩
  · intro c hc
    exact hmeasured.copies c (List.mem_filter.mp hc).1
  · show total _ (_ ++ _) + total _ (List.filter _ narrowed.copies) ≤ _
    rw [hup, hkept]
    omega
  · show List.foldl _ narrowed.uploadBytes _ = total _ (_ ++ _)
    have hfold := saturatingAdd_total (fun c : CopyAction => c.entry.size) (copies.map (·.1))
      narrowed.uploadBytes
    have hbytes : narrowed.uploadBytes = narrowed.uploadTotal := hexact
    rw [hconverted, saturatingAdd_zero (by omega), saturatingAdd_zero (by omega)] at hfold
    rw [hup, ← hbytes, hconverted]
    exact hfold

theorem narrows_bytes {op : Narrowing ε} {plan plan' : SyncPlan} (hstep : narrows op plan plan')
    (h : Measured plan) (hexact : Exact plan) :
    Measured plan' ∧ (Exact plan' ↔ ¬RecountsCopies op plan) := by
  obtain ⟨deferred, hstep⟩ := hstep
  cases op with
  | removeDeferred deferrals =>
    exact removeDeferred_bytes (congrArg Prod.fst (Except.ok.inj hstep)).symm h hexact
  | protectSkipped skipped =>
    exact protectSkipped_bytes (congrArg Prod.fst (Except.ok.inj hstep)).symm h hexact
  | withholdIncomplete incomplete =>
    have hplan := (congrArg Prod.fst (Except.ok.inj hstep)).symm
    simp only [withholdDeletionsInIncompleteListings] at hplan
    simp only [RecountsCopies, not_false_eq_true, iff_true]
    split at hplan
    · subst hplan
      exact ⟨h, hexact⟩
    · subst hplan
      exact ⟨⟨h.copies, h.fits⟩, hexact⟩
  | withholdComma lookup R =>
    obtain ⟨hmeasured, hexact'⟩ := withholdComma_bytes hstep h hexact
    exact ⟨hmeasured, by simpa [RecountsCopies] using hexact'⟩

/-- Along a run of narrowing operations on a built plan the counter is exact exactly if no operation
counts anew while it leaves a copy in the plan. -/
theorem uploadBytes_along_iff {root : RemoteRoot} {L : LocalInventory} {R : RemoteInventory}
    {rules : IgnoreRules} {options : PlanOptions} {plan : SyncPlan}
    (h : buildPlan root L R rules options = .ok plan)
    (fits : plan.uploadTotal + plan.copyTotal ≤ 18446744073709551615) (ops : List (Narrowing ε)) :
    Along narrows Exact ops plan ↔ EachStep narrows (fun op p => ¬RecountsCopies op p) ops plan := by
  have hcounted := counted_of_buildPlan h fits
  refine along_iff (I := Measured) ?_ ?_ ⟨hcounted.copies, fits⟩ hcounted.bytes
  · intro op p p' hstep hmeasured hexact
    exact (narrows_bytes hstep hmeasured hexact).1
  · intro op p p' hstep hmeasured hexact
    exact (narrows_bytes hstep hmeasured hexact).2

end Steps

/-! ## A folder renamed in the source

The source holds `n/x` and `z`; the NAS holds `o/x` with the same content, which is copied on the
NAS rather than uploaded. -/

namespace RenamedFolder

open Small

def digest : ContentFingerprint := ⟨0, some ⟨0, 0⟩⟩

def folder (c : Char) : RelPath := path [name c]

def file (c : Char) : RelPath := .child (folder c) (name 'x')

def localSide : LocalInventory :=
  locals [localFolder (folder 'n'), { localFile (file 'n') 7 with contentMd5 := some digest },
    { localFile (folder 'z') 5 with contentMd5 := some digest }]

def remoteSide : RemoteInventory :=
  remotes [remoteFolder (folder 'o'), { remoteFile (file 'o') 7 with contentMd5 := some digest }]

def options : PlanOptions := { mirror with compare := .content, serverCopy := true }

/-- The upload of `z` is deferred: the copy that is left is counted as if it were uploaded. -/
theorem not_uploadBytes_exact : letI := charwise
    ¬∀ (root : RemoteRoot) (L : LocalInventory) (R : RemoteInventory) (rules : IgnoreRules)
      (options : PlanOptions) (plan : SyncPlan), buildPlan root L R rules options = .ok plan →
      plan.uploadTotal + plan.copyTotal ≤ 18446744073709551615 →
      ∀ ops : List (Narrowing Unit), Along narrows Exact ops plan := by
  let := charwise
  intro h
  let deferrals := DeferralIndex.fromRecords [⟨folder 'z', .sourceChanged, ""⟩]
  have hplan : Loop.okAnd (buildPlan root localSide remoteSide noRules options) (fun plan =>
      decide (plan.uploadTotal + plan.copyTotal ≤ 18446744073709551615) &&
        decide ((removeDeferredFromPlan plan deferrals).1.uploadBytes ≠
          (removeDeferredFromPlan plan deferrals).1.uploadTotal)) = true := by decide +kernel
  obtain ⟨plan, hplan, hbytes⟩ := Loop.exists_of_okAnd hplan
  simp only [Bool.and_eq_true, decide_eq_true_eq] at hbytes
  have halong := h root localSide remoteSide noRules options plan hplan hbytes.1
    [.removeDeferred deferrals]
  exact hbytes.2 (halong.2 _ ⟨_, rfl⟩)

/-- The renamed folder is deferred with its copy, so only uploads are left to count. -/
theorem uploadBytes_exact : letI := charwise
    ∃ plan, buildPlan root localSide remoteSide noRules options = .ok plan ∧
      plan.uploadTotal + plan.copyTotal ≤ 18446744073709551615 ∧ plan.copies ≠ [] ∧
      Along narrows Exact [(.withholdIncomplete [.root] : Narrowing Unit),
        .removeDeferred (DeferralIndex.fromRecords [⟨folder 'n', .sourceChanged, ""⟩])] plan := by
  let := charwise
  let deferrals := DeferralIndex.fromRecords [⟨folder 'n', .sourceChanged, ""⟩]
  have hplan : Loop.okAnd (buildPlan root localSide remoteSide noRules options) (fun plan =>
      decide (plan.uploadTotal + plan.copyTotal ≤ 18446744073709551615) &&
        (decide (plan.copies ≠ []) &&
          (withholdDeletionsInIncompleteListings plan [.root]).1.copies.all fun c =>
            !(deferrals.covering c.toRelative).isNone)) = true := by decide +kernel
  obtain ⟨plan, hplan, hleft⟩ := Loop.exists_of_okAnd hplan
  simp only [Bool.and_eq_true, decide_eq_true_eq] at hleft
  obtain ⟨hfits, hcopies, hcovered⟩ := hleft
  refine ⟨plan, hplan, hfits, hcopies, (uploadBytes_along_iff hplan hfits _).mpr ?_⟩
  rintro narrowed ⟨_, hnarrowed⟩
  obtain rfl := congrArg Prod.fst (Except.ok.inj hnarrowed)
  refine ⟨not_false, fun _ _ => ⟨?_, trivial⟩⟩
  rintro ⟨_, c, hc, hkept⟩
  have hcover := List.all_eq_true.mp hcovered c hc
  rw [show (deferrals.covering c.toRelative).isNone = true from hkept] at hcover
  cases hcover

end RenamedFolder
end DriveSync
