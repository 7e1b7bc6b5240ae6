import DriveSync.Small
import DriveSync.Plan.Build
import DriveSync.Sync.Deferrals

/-!
# DriveSync.Sync.Reconcile

Whether the destination converged, of the plan a run carried out and the plan rebuilt after it.

* `Excused`: what a rebuilt action may be for the run to have converged, read off the plan carried
  out action by action.
* `atOrBeneath_iff`: what the run wrote, indexed, answers as that does.
* `ensureReconciled_iff`: a run converged where every rebuilt action is excused.
-/

namespace DriveSync

open Path

structure Reconciliation where
  changedDuringRun : Nat
deriving DecidableEq, Repr

/-- `Error::ReconciliationPending`. -/
structure ReconciliationPending where
  operations : Nat
deriving DecidableEq, Repr

/-- What the executed plan wrote and deleted. -/
structure ExecutedWrites where
  exact : Std.TreeSet RelPath
  atOrAbove : Std.TreeSet RelPath
  deleted : Std.TreeSet RelPath

namespace ExecutedWrites

/-- A path and the folders above it, up to the first already present. -/
def climb (present : Std.TreeSet RelPath) : List RelPath → Std.TreeSet RelPath
  | [] => present
  | current :: above =>
    if current ∈ present then present else climb (present.insert current) above

def index (executed : SyncPlan) : ExecutedWrites :=
  let exact : Std.TreeSet RelPath := .ofList
    (executed.uploads.map (·.entry.relative) ++ executed.copies.map (·.toRelative))
  { exact
    atOrAbove := (exact.toList ++ executed.creates.map (·.relative)).foldl
      (fun present written => climb present (written :: written.ancestors)) ∅
    deleted := .ofList ((executed.postDeletes ++ executed.preDeletes).map (·.relative)) }

def exactly (written : ExecutedWrites) (relative : RelPath) : Bool :=
  written.exact.contains relative

/-- Whether the run wrote a path or anything beneath it. -/
def atOrBeneath (written : ExecutedWrites) (relative : RelPath) : Bool :=
  written.atOrAbove.contains relative

def isDeleted (written : ExecutedWrites) (relative : RelPath) : Bool :=
  written.deleted.contains relative

end ExecutedWrites

/-! ## The verdict on each action -/

/-- The time since the epoch in whole units of so many nanoseconds, where `i64` holds it. -/
def elapsed (unit startedAt : Int) : Option Int :=
  if 0 ≤ startedAt ∧ startedAt / unit ≤ 9223372036854775807 then some (startedAt / unit) else none

/-- A recorded modification time is strictly after a start, in milliseconds. -/
def modifiedAfter (mtimeMs startedAt : Int) : Bool :=
  (elapsed 1000000 startedAt).any (· < mtimeMs)

/-- What a rebuilt action is: left by the run, changed while it worked, or work it did not do. -/
inductive Verdict where
  | excused
  | changed
  | pending
deriving DecidableEq, Repr

section Judge

variable [Unicode]

/-- What the actions of a rebuilt plan are held against: what the run wrote, when it started, what it
deferred, and what the clock of the local tree says of a path now, if it can be read. -/
structure Inquiry where
  modified : RelPath → Option Int
  written : ExecutedWrites
  startedAt : Int
  deferred : DeferralIndex

namespace Inquiry

variable (inquiry : Inquiry)

/-- A rename, or the deletion of an entry in another's place. -/
def judgeNamed (relative : RelPath) : Verdict :=
  if inquiry.deferred.relatesTo relative then .excused else .pending

def judgeUpload (action : UploadAction) : Verdict :=
  if inquiry.deferred.relatesTo action.entry.relative then .excused
  -- The run wrote these bytes, and the NAS did not keep the time it sent.
  else if decide (action.reason = .mtimeDiffers) && inquiry.written.exactly action.entry.relative then
    .excused
  else if modifiedAfter action.entry.mtimeMs inquiry.startedAt then .changed
  else .pending

def judgeCopy (action : CopyAction) : Verdict :=
  if inquiry.deferred.relatesTo action.toRelative then .excused
  else if modifiedAfter action.entry.mtimeMs inquiry.startedAt then .changed
  else .pending

def judgeCreate (action : CreateAction) : Verdict :=
  if inquiry.deferred.relatesTo action.relative then .excused
  else if action.relative = .root then .pending
  else
    match inquiry.modified action.relative with
    | none => .pending
    | some modified => if modified ≤ inquiry.startedAt then .pending else .changed

def judgePostDelete (action : DeleteAction) : Verdict :=
  if inquiry.deferred.relatesTo action.relative then .excused
  else if inquiry.written.isDeleted action.relative then .pending
  else
    let writtenByRun := inquiry.written.atOrBeneath action.relative
    let predatesRun :=
      (elapsed 1000000000 inquiry.startedAt).any (action.snapshot.mtimeSeconds ≤ ·)
    if !writtenByRun && !predatesRun then .pending else .changed

end Inquiry

/-- One loop over the actions of a kind: how many were changed by its end, unless one is pending. -/
def countChanged {α : Type} (judge : α → Verdict) (actions : List α) (changed : Nat) : Option Nat :=
  actions.foldlM (fun changed action =>
    match judge action with
    | .excused => some changed
    | .changed => some (changed + 1)
    | .pending => none) changed

/-- The operations of a plan there are, as the failure reports them. -/
def reconciliationPending (plan : SyncPlan) : ReconciliationPending :=
  ⟨plan.preDeletes.length + plan.creates.length + plan.copies.length + plan.uploads.length +
    plan.postDeletes.length + plan.renames.length⟩

def ensureReconciled (modified : RelPath → Option Int) (executed rebuilt : SyncPlan)
    (startedAt : Int) (deferred : DeferralIndex) : Except ReconciliationPending Reconciliation :=
  if rebuilt.isEmpty then .ok ⟨0⟩
  else
    let inquiry : Inquiry := ⟨modified, .index executed, startedAt, deferred⟩
    let changedDuringRun := do
      let changed ← countChanged inquiry.judgeNamed (rebuilt.renames.map (·.relative)) 0
      let changed ← countChanged inquiry.judgeNamed (rebuilt.preDeletes.map (·.relative)) changed
      let changed ← countChanged inquiry.judgeUpload rebuilt.uploads changed
      let changed ← countChanged inquiry.judgeCopy rebuilt.copies changed
      let changed ← countChanged inquiry.judgeCreate rebuilt.creates changed
      countChanged inquiry.judgePostDelete rebuilt.postDeletes changed
    match changedDuringRun with
    | some changed => .ok ⟨changed⟩
    | none => .error (reconciliationPending rebuilt)

end Judge

/-! ## What the index answers -/

/-- The files a plan writes, and every path it writes. -/
def SyncPlan.writtenFiles (plan : SyncPlan) : List RelPath :=
  plan.uploads.map (·.entry.relative) ++ plan.copies.map (·.toRelative)

def SyncPlan.written (plan : SyncPlan) : List RelPath :=
  plan.writtenFiles ++ plan.creates.map (·.relative)

namespace ExecutedWrites

/-- With a path, the folders above it are present. -/
def Closed (present : Std.TreeSet RelPath) : Prop :=
  ∀ p ∈ present, ∀ a ∈ p.ancestors, a ∈ present

/-- The folders above a path, nearest first, are those above the nearest of them and itself. -/
theorem ancestors_eq_cons {p q : RelPath} {above : List RelPath} (h : p.ancestors = q :: above) :
    above = q.ancestors := by
  cases p with
  | root => cases h
  | child dir n =>
    cases dir with
    | root => cases h
    | child dir m =>
      rw [Path.ancestors, List.cons.injEq] at h
      rw [← h.2, ← h.1]

theorem mem_climb {q : RelPath} (above : List RelPath) :
    ∀ {present : Std.TreeSet RelPath} {p : RelPath}, p.ancestors = above →
      (∀ a ∈ p :: above, a ∈ present → ∀ b ∈ a.ancestors, b ∈ present) →
        (q ∈ climb present (p :: above) ↔ q ∈ present ∨ AtOrUnder q p) := by
  induction above with
  | nil =>
    intro present p habove hclosed
    have hself : AtOrUnder q p ↔ p = q := by simp [AtOrUnder, habove]
    rw [climb, hself]
    split
    · rename_i hp
      constructor
      · exact .inl
      · rintro (hq | rfl)
        · exact hq
        · exact hp
    · simp [climb, or_comm]
  | cons r above ih =>
    intro present p habove hclosed
    rw [climb]
    split
    · rename_i hp
      constructor
      · exact .inl
      · rintro (hq | rfl | hq)
        · exact hq
        · exact hp
        · exact hclosed p (.head _) hp q hq
    · have hnext : ∀ a ∈ r :: above, a ∈ present.insert p →
          ∀ b ∈ a.ancestors, b ∈ present.insert p := by
        intro a ha hin b hb
        have hne : a ≠ p := ne_of_mem_ancestors (habove ▸ ha)
        have hpresent : a ∈ present := by
          simpa [hne.symm] using hin
        simp [hclosed a (.tail _ ha) hpresent b hb]
      have hrest := ancestors_eq_cons habove
      have habove' : AtOrUnder q p ↔ p = q ∨ AtOrUnder q r := by
        simp [AtOrUnder, habove, hrest, eq_comm]
      rw [ih hrest.symm hnext, habove']
      simp [or_assoc, or_left_comm]

theorem Closed.climb {present : Std.TreeSet RelPath} (h : Closed present) (p : RelPath) :
    Closed (climb present (p :: p.ancestors)) ∧
      ∀ q, q ∈ climb present (p :: p.ancestors) ↔ q ∈ present ∨ AtOrUnder q p := by
  have hmem : ∀ q, q ∈ ExecutedWrites.climb present (p :: p.ancestors) ↔
      q ∈ present ∨ AtOrUnder q p := fun q => mem_climb _ rfl fun a _ hin => h a hin
  refine ⟨fun q hq a ha => ?_, hmem⟩
  rw [hmem] at hq ⊢
  rcases hq with hq | hq
  · exact .inl (h q hq a ha)
  · exact .inr (.inr (mem_ancestors_of_atOrUnder_right ha hq))

/-- Every path written is climbed from, with all that is above it. -/
theorem mem_foldl_climb {q : RelPath} (written : List RelPath) :
    ∀ {present : Std.TreeSet RelPath}, Closed present →
      (q ∈ written.foldl (fun present written => climb present (written :: written.ancestors))
        present ↔ q ∈ present ∨ ∃ w ∈ written, AtOrUnder q w) := by
  induction written with
  | nil => intro present _; simp
  | cons w written ih =>
    intro present h
    obtain ⟨hclosed, hmem⟩ := h.climb w
    rw [List.foldl_cons, ih hclosed, hmem]
    simp [or_assoc]

theorem exactly_iff (executed : SyncPlan) (p : RelPath) :
    (index executed).exactly p = true ↔ p ∈ executed.writtenFiles := by
  rw [exactly, index, Std.TreeSet.contains_ofList]
  simp [SyncPlan.writtenFiles]

theorem atOrBeneath_iff (executed : SyncPlan) (p : RelPath) :
    (index executed).atOrBeneath p = true ↔ ∃ w ∈ executed.written, AtOrUnder p w := by
  have hempty : Closed ∅ := fun q hq => by simp at hq
  rw [atOrBeneath, index, Std.TreeSet.contains_iff_mem, mem_foldl_climb _ hempty]
  simp [SyncPlan.written, SyncPlan.writtenFiles, Std.TreeSet.mem_ofList, or_assoc]

theorem isDeleted_iff (executed : SyncPlan) (p : RelPath) :
    (index executed).isDeleted p = true ↔ ∃ action ∈ executed.deletes, action.relative = p := by
  rw [isDeleted, index, Std.TreeSet.contains_ofList]
  simp [SyncPlan.deletes, or_comm, or_and_right, exists_or]

end ExecutedWrites

/-! ## When a run converged -/

/-- An action of a rebuilt plan, and the loop it is judged in. -/
inductive Operation where
  | rename (action : RenameAction)
  | preDelete (action : DeleteAction)
  | upload (action : UploadAction)
  | copy (action : CopyAction)
  | create (action : CreateAction)
  | postDelete (action : DeleteAction)

def Operation.relative : Operation → RelPath
  | rename action => action.relative
  | preDelete action => action.relative
  | upload action => action.entry.relative
  | copy action => action.toRelative
  | create action => action.relative
  | postDelete action => action.relative

def SyncPlan.operations (plan : SyncPlan) : List Operation :=
  plan.renames.map .rename ++ (plan.preDeletes.map .preDelete ++ (plan.uploads.map .upload ++
    (plan.copies.map .copy ++ (plan.creates.map .create ++ plan.postDeletes.map .postDelete))))

section Counting

variable {α β : Type} (judge : α → Verdict)

/-- A loop counts the actions that changed, and ends early only at one that is pending. -/
theorem countChanged_eq (actions : List α) : ∀ changed, countChanged judge actions changed =
    if ∀ action ∈ actions, judge action ≠ .pending then
      some (changed + actions.countP fun action => decide (judge action = .changed))
    else none := by
  induction actions with
  | nil => intro changed; simp [countChanged]
  | cons action actions ih =>
    intro changed
    unfold countChanged at ih ⊢
    rw [List.foldlM_cons, List.countP_cons]
    cases hjudge : judge action with
    | excused => simp [ih, hjudge]
    | changed =>
      simp only [Option.bind_eq_bind, Option.bind_some, ih, List.forall_mem_cons, hjudge]
      simp [Nat.add_assoc, Nat.add_comm]
    | pending => simp [hjudge]

theorem countChanged_append (l l' : List α) (changed : Nat) :
    countChanged judge (l ++ l') changed =
      (countChanged judge l changed).bind fun changed => countChanged judge l' changed := by
  unfold countChanged
  rw [List.foldlM_append]
  rfl

theorem countChanged_map (f : β → α) (l : List β) (changed : Nat) :
    countChanged judge (l.map f) changed = countChanged (fun b => judge (f b)) l changed := by
  unfold countChanged
  rw [List.foldlM_map]

end Counting

theorem operations_eq_nil_iff (plan : SyncPlan) : plan.operations = [] ↔ plan.isEmpty = true := by
  simp only [SyncPlan.operations, SyncPlan.isEmpty, List.append_eq_nil_iff, List.map_eq_nil_iff,
    Bool.and_eq_true, List.isEmpty_iff]
  tauto

theorem exists_operation_of_deletes {plan : SyncPlan} {action : DeleteAction}
    (h : action ∈ plan.deletes) :
    ∃ op ∈ plan.operations, op = .preDelete action ∨ op = .postDelete action := by
  rcases List.mem_append.mp h with hpre | hpost
  · exact ⟨_, by simp [SyncPlan.operations, hpre], .inl rfl⟩
  · exact ⟨_, by simp [SyncPlan.operations, hpost], .inr rfl⟩

section Converged

variable [Unicode]

/-- A path is, lies beneath, or holds one the run left; the root holds them all. -/
def LeftBehind (deferred : DeferralIndex) (p : RelPath) : Prop :=
  ∃ f ∈ deferred.exact, AtOrUnder f p ∨ p = .root ∨ p ∈ f.ancestors

/-- The upload of a file the run wrote, for a time the NAS did not keep. -/
def TimeNotKept (executed : SyncPlan) : Operation → Prop
  | .upload action =>
    action.reason = .mtimeDiffers ∧ action.entry.relative ∈ executed.writtenFiles
  | _ => False

/-- What changed while the run worked: a file or a folder modified since it started; and a deletion it
did not plan, of what it wrote or of what was there before. -/
def ChangedSince (modified : RelPath → Option Int) (executed : SyncPlan) (startedAt : Int) :
    Operation → Prop
  | .rename _ | .preDelete _ => False
  | .upload action => modifiedAfter action.entry.mtimeMs startedAt = true
  | .copy action => modifiedAfter action.entry.mtimeMs startedAt = true
  | .create action =>
    action.relative ≠ .root ∧ ∃ time, modified action.relative = some time ∧ startedAt < time
  | .postDelete action =>
    (∀ planned ∈ executed.deletes, planned.relative ≠ action.relative) ∧
      ((∃ w ∈ executed.written, AtOrUnder action.relative w) ∨
        ∃ started, elapsed 1000000000 startedAt = some started ∧
          action.snapshot.mtimeSeconds ≤ started)

/-- What a rebuilt action may be, for the run to have converged. -/
def Excused (modified : RelPath → Option Int) (executed : SyncPlan) (startedAt : Int)
    (deferred : DeferralIndex) (op : Operation) : Prop :=
  LeftBehind deferred op.relative ∨ TimeNotKept executed op ∨ ChangedSince modified executed startedAt op

theorem relatesTo_iff (deferred : DeferralIndex) (p : RelPath) :
    deferred.relatesTo p = true ↔ LeftBehind deferred p := by
  unfold DeferralIndex.relatesTo LeftBehind
  rw [Bool.or_eq_true, DeferralIndex.covering_isSome]
  by_cases hp : p = .root
  · subst hp
    rw [DeferralIndex.hasDescendant, if_pos rfl, Bool.not_eq_true',
      Std.TreeMap.isEmpty_eq_false_iff_exists_mem]
    constructor
    · rintro (⟨f, hf, _⟩ | ⟨f, hf⟩) <;> exact ⟨f, hf, .inr (.inl rfl)⟩
    · rintro ⟨f, hf, _⟩
      exact .inr ⟨f, hf⟩
  · rw [DeferralIndex.hasDescendant_iff hp]
    simp only [hp, false_or, and_or_left, exists_or]

namespace Inquiry

def judge (inquiry : Inquiry) : Operation → Verdict
  | .rename action => inquiry.judgeNamed action.relative
  | .preDelete action => inquiry.judgeNamed action.relative
  | .upload action => inquiry.judgeUpload action
  | .copy action => inquiry.judgeCopy action
  | .create action => inquiry.judgeCreate action
  | .postDelete action => inquiry.judgePostDelete action

/-- A run did not do what is neither left nor changed. -/
theorem judge_eq_pending_iff (modified : RelPath → Option Int) (executed : SyncPlan)
    (startedAt : Int) (deferred : DeferralIndex) (op : Operation) :
    (⟨modified, .index executed, startedAt, deferred⟩ : Inquiry).judge op = .pending ↔
      ¬Excused modified executed startedAt deferred op := by
  unfold Excused
  rw [← relatesTo_iff]
  by_cases hleft : deferred.relatesTo op.relative = true
  · cases op <;> simp_all [judge, judgeNamed, judgeUpload, judgeCopy, judgeCreate, judgePostDelete,
      Operation.relative]
  · have hleft := Bool.eq_false_iff.mpr hleft
    simp only [hleft, Bool.false_eq_true, false_or]
    cases op with
    | rename action =>
      rw [Operation.relative] at hleft
      simp [judge, judgeNamed, hleft, TimeNotKept, ChangedSince]
    | preDelete action =>
      rw [Operation.relative] at hleft
      simp [judge, judgeNamed, hleft, TimeNotKept, ChangedSince]
    | upload action =>
      rw [Operation.relative] at hleft
      simp only [judge, judgeUpload, hleft, TimeNotKept, ChangedSince, Bool.and_eq_true,
        decide_eq_true_eq, ExecutedWrites.exactly_iff, Bool.false_eq_true, ↓reduceIte]
      split
      · rename_i hkept
        simp [hkept]
      · rename_i hkept
        split <;> simp_all
    | copy action =>
      rw [Operation.relative] at hleft
      simp only [judge, judgeCopy, hleft, TimeNotKept, ChangedSince, Bool.false_eq_true, ↓reduceIte]
      split <;> simp_all
    | create action =>
      rw [Operation.relative] at hleft
      simp only [judge, judgeCreate, hleft, TimeNotKept, ChangedSince, Bool.false_eq_true, ↓reduceIte]
      by_cases hroot : action.relative = .root
      · simp [hroot]
      · rw [if_neg hroot]
        cases hmodified : modified action.relative with
        | none => simp
        | some time =>
          by_cases hle : time ≤ startedAt
          · simp [hle]
          · simp [hle, hroot, not_le.mp hle]
    | postDelete action =>
      rw [Operation.relative] at hleft
      simp only [judge, judgePostDelete, hleft, TimeNotKept, ChangedSince, Bool.false_eq_true,
        ↓reduceIte, ExecutedWrites.isDeleted_iff]
      split
      · rename_i hplanned
        obtain ⟨planned, hin, hpath⟩ := hplanned
        simp only [false_or, true_iff]
        rintro ⟨hnone, _⟩
        exact hnone planned hin hpath
      · rename_i hplanned
        have hnone : ∀ planned ∈ executed.deletes, planned.relative ≠ action.relative := by
          intro planned hin hpath
          exact hplanned ⟨planned, hin, hpath⟩
        have hpredates : (∃ started, elapsed 1000000000 startedAt = some started ∧
            action.snapshot.mtimeSeconds ≤ started) ↔ (elapsed 1000000000 startedAt).any
              (action.snapshot.mtimeSeconds ≤ ·) = true := by
          simp [Option.any_eq_true]
        rw [← ExecutedWrites.atOrBeneath_iff, hpredates, iff_true_intro hnone]
        cases (ExecutedWrites.index executed).atOrBeneath action.relative <;>
          cases (elapsed 1000000000 startedAt).any (action.snapshot.mtimeSeconds ≤ ·) <;>
            simp

end Inquiry

variable (modified : RelPath → Option Int) (executed rebuilt : SyncPlan) (startedAt : Int)
  (deferred : DeferralIndex)

/-- The loops are one loop over the operations of the rebuilt plan. -/
theorem ensureReconciled_eq : ensureReconciled modified executed rebuilt startedAt deferred =
    match countChanged (⟨modified, .index executed, startedAt, deferred⟩ : Inquiry).judge
      rebuilt.operations 0 with
    | some changed => .ok ⟨changed⟩
    | none => .error (reconciliationPending rebuilt) := by
  unfold ensureReconciled
  split
  · rename_i hempty
    rw [(operations_eq_nil_iff rebuilt).mpr hempty]
    rfl
  · simp only [SyncPlan.operations, countChanged_append, countChanged_map, Inquiry.judge]
    rfl

theorem ensureReconciled_cases :
    ((∀ op ∈ rebuilt.operations, Excused modified executed startedAt deferred op) ∧
      ∃ changed, ensureReconciled modified executed rebuilt startedAt deferred = .ok ⟨changed⟩) ∨
    ((∃ op ∈ rebuilt.operations, ¬Excused modified executed startedAt deferred op) ∧
      ensureReconciled modified executed rebuilt startedAt deferred =
        .error (reconciliationPending rebuilt)) := by
  rw [ensureReconciled_eq, countChanged_eq]
  by_cases hall : ∀ op ∈ rebuilt.operations, Excused modified executed startedAt deferred op
  · rw [if_pos fun op hop hpending => Inquiry.judge_eq_pending_iff .. |>.mp hpending (hall op hop)]
    exact .inl ⟨hall, _, rfl⟩
  · obtain ⟨op, hop, hnot⟩ : ∃ op ∈ rebuilt.operations,
        ¬Excused modified executed startedAt deferred op := by simpa using hall
    rw [if_neg fun h => h op hop (Inquiry.judge_eq_pending_iff .. |>.mpr hnot)]
    exact .inr ⟨⟨op, hop, hnot⟩, rfl⟩

/-- A deletion the run planned is not one of those made since, so it is excused only by a path the run
left. -/
theorem excused_delete_iff {action : DeleteAction} {op : Operation}
    (hop : op = .preDelete action ∨ op = .postDelete action)
    (hplanned : ∃ planned ∈ executed.deletes, planned.relative = action.relative) :
    Excused modified executed startedAt deferred op ↔ LeftBehind deferred action.relative := by
  obtain ⟨planned, hin, hpath⟩ := hplanned
  rcases hop with rfl | rfl
  · simp [Excused, Operation.relative, TimeNotKept, ChangedSince]
  · constructor
    · rintro (hleft | hkept | ⟨hnone, _⟩)
      · exact hleft
      · exact hkept.elim
      · exact absurd hpath (hnone planned hin)
    · exact .inl

/-- A run converged where every action of the rebuilt plan is excused. A deletion it planned, that is
planned again and has nothing to do with a path it left, is not; and what the run wrote at or beneath
a path is looked up as if every action were gone through. -/
theorem ensureReconciled_iff :
    ((ensureReconciled modified executed rebuilt startedAt deferred).isOk = true ↔
      ∀ op ∈ rebuilt.operations, Excused modified executed startedAt deferred op) ∧
    (∀ action ∈ rebuilt.deletes, (∃ planned ∈ executed.deletes, planned.relative = action.relative) →
      ¬LeftBehind deferred action.relative →
      ensureReconciled modified executed rebuilt startedAt deferred =
        .error (reconciliationPending rebuilt)) ∧
    ∀ p, (ExecutedWrites.index executed).atOrBeneath p = true ↔
      ∃ w ∈ executed.written, AtOrUnder p w := by
  refine ⟨?_, fun action haction hplanned hleft => ?_, ExecutedWrites.atOrBeneath_iff executed⟩
  · rcases ensureReconciled_cases modified executed rebuilt startedAt deferred with
      ⟨hall, changed, heq⟩ | ⟨⟨op, hop, hnot⟩, heq⟩
    · rw [heq]
      exact iff_of_true rfl hall
    · rw [heq]
      refine iff_of_false ?_ fun hall => hnot (hall op hop)
      intro hok
      cases hok
  · obtain ⟨op, hop, hkind⟩ := exists_operation_of_deletes haction
    rcases ensureReconciled_cases modified executed rebuilt startedAt deferred with
      ⟨hall, _⟩ | ⟨_, heq⟩
    · exact absurd ((excused_delete_iff _ _ _ _ hkind hplanned).mp (hall op hop)) hleft
    · exact heq

end Converged

/-! A file saved after the run started, which no path of the run has to do with; and a folder that is
still there, over a path the run left. -/

namespace LateUpload

open Small

def file : RelPath := path [name 'f']

def inside : RelPath := .child file (name 'x')

def nothing : SyncPlan := emptyPlan (locals []) noRules mirror []

def late : SyncPlan :=
  { nothing with uploads := [⟨{ localFile file 3 with mtimeMs := 1 }, root.path.append file,
    .missingRemote, none⟩] }

def deletion : DeleteAction :=
  ⟨file, file, root.path.append file, .directory, false, ⟨.directory, 0, 0, none, true⟩, none⟩

def deleting : SyncPlan := { nothing with postDeletes := [deletion] }

/-- Neither is a failure. -/
theorem not_ensureReconciled :
    letI := charwise
    (¬∀ modified executed rebuilt startedAt deferred,
      (ensureReconciled modified executed rebuilt startedAt deferred).isOk = true →
        ∀ op ∈ rebuilt.operations, ∃ f,
          (f ∈ deferred.exact ∨ ∃ skip ∈ executed.skipped, skip.relative = f) ∧
            (AtOrUnder f op.relative ∨ AtOrUnder op.relative f)) ∧
    ¬∀ modified executed rebuilt startedAt deferred, ∀ action ∈ rebuilt.deletes,
      (∃ planned ∈ executed.deletes, planned.relative = action.relative) →
        action.relative ∉ deferred.exact →
          (ensureReconciled modified executed rebuilt startedAt deferred).isOk = false := by
  let _ := charwise
  constructor
  · intro h
    obtain ⟨f, hf, _⟩ := h (fun _ => none) nothing late 0 .empty (by decide +kernel)
      (.upload ⟨{ localFile file 3 with mtimeMs := 1 }, root.path.append file, .missingRemote, none⟩)
      (by simp [SyncPlan.operations, late])
    rcases hf with hf | ⟨skip, hskip, _⟩
    · exact DeferralIndex.not_mem_empty hf
    · cases hskip
  · intro h
    have hplanned : deletion ∈ deleting.deletes := by simp [deleting, SyncPlan.deletes]
    have hnot : deletion.relative ∉ (DeferralIndex.empty.insert inside .deleteFailed).exact := by
      rw [DeferralIndex.mem_insert]
      rintro (hin | heq)
      · exact DeferralIndex.not_mem_empty hin
      · cases heq
    have hfails := h (fun _ => none) deleting deleting 0
      (DeferralIndex.empty.insert inside .deleteFailed) deletion hplanned ⟨deletion, hplanned, rfl⟩ hnot
    have hok : (ensureReconciled (fun _ => none) deleting deleting 0
        (DeferralIndex.empty.insert inside .deleteFailed)).isOk = true := by decide +kernel
    rw [hok] at hfails
    cases hfails

end LateUpload
end DriveSync
