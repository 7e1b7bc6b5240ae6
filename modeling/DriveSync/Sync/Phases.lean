import DriveSync.Sync.Account
import DriveSync.Sync.Whole
import Mathlib.Data.List.Perm.Basic

/-!
# DriveSync.Sync.Phases

What the phases of a run account for: each its own tasks, and the planned writes that are open when
it begins.

* `Splits`: a part that accounts for some of the items, and leaves the others to what follows.
* `handles_writePhase`, `handles_deletePhases`: the phases put together.
-/

namespace DriveSync

open Path Prog

section Run

variable [Unicode] {α β γ : Type} {w w' : World runInterface Run} {env : Env runInterface}
  {items : List Item} {plan : SyncPlan}

/-! ## Rules for the parts of a phase -/

/-- A part beside tasks that are done with as they stand. -/
theorem wp_silent (env : Env runInterface) {p : Exec α} {tasks : List Task} (hp : Handles items p)
    (h : ∀ task ∈ tasks, task.Done w []) :
    wp env p (fun _ w' => Finishes (items ++ tasks.map .task) w w')
      (fun _ w' => Begins (items ++ tasks.map .task) w w') w :=
  wp_mono (hp env w) (fun _ _ h' => h'.silent h) fun _ _ h' => Graded.pad Finishes _ h'

/-- A task that is done with wherever it stands. -/
theorem handles_idle {task : Task} {a : α} (h : ∀ w : World runInterface Run, task.Done w []) :
    Handles [.task task] (pure a : Exec α) := by
  intro env w
  have hidle : Handles [] (pure a : Exec α) := spends_pure
  have hdone : ∀ t ∈ [task], t.Done w [] := by
    intro t ht
    obtain rfl := List.mem_singleton.mp ht
    exact h w
  exact wp_silent env hidle hdone

/-- A part that accounts for some of the items, and leaves the others, by its result. -/
def Splits (total : List Item) (rest : β → List Item) (p : Exec β) : Prop :=
  ∀ env w, wp env p (fun b w' => ∃ spent, total.Perm (spent ++ rest b) ∧ Finishes spent w w')
    (fun _ w' => Begins total w w') w

section Splits

variable {total frame : List Item} {rest : β → List Item}

theorem splits_fail {e : ExecError} : Splits total rest (fail e : Exec β) :=
  fun env w => (spends_fail : Handles total (fail e : Exec β)) env w

theorem splits_pure {b : β} (h : total.Perm (rest b)) : Splits total rest (pure b : Exec β) :=
  fun _ w => ⟨[], h, Graded.refl Begins w⟩

/-- A part after which the result is known. -/
theorem Handles.splits {p : Exec α} {f : α → Exec β} {b : β} {spent : List Item}
    (hp : Handles spent p) (hf : ∀ a, f a = pure b) (hrest : total.Perm (spent ++ rest b)) :
    Splits total rest (p >>= f) := by
  intro env w
  rw [wp_bind]
  refine wp_mono (hp env w) (fun a w' h => ?_) fun _ w' h => ?_
  · rw [hf]
    exact ⟨spent, hrest, h⟩
  · exact (Graded.pad Finishes (rest b) h).perm hrest.symm

/-- A part that accounts for nothing, and what follows it. -/
theorem Splits.after {p : Exec α} {f : α → Exec β} (hp : Handles [] p)
    (hf : ∀ a, Splits total rest (f a)) : Splits total rest (p >>= f) := by
  intro env w
  rw [wp_bind]
  refine wp_mono (hp env w) (fun a w' h => ?_) fun _ _ h => Graded.pad Finishes total h
  refine wp_mono (hf a env w') (fun b w'' h' => ?_) fun _ _ h' => Graded.after h h'
  obtain ⟨spent, hperm, hspent⟩ := h'
  exact ⟨spent, hperm, Graded.trans Begins h hspent⟩

/-- What is left is accounted for by what follows. -/
theorem Splits.bind {p : Exec β} {f : β → Exec α} (hp : Splits total rest p)
    (hf : ∀ b, Handles (rest b ++ frame) (f b)) : Handles (total ++ frame) (p >>= f) := by
  intro env w
  rw [wp_bind]
  refine wp_mono (hp env w) (fun b w' h => ?_) fun _ _ h => Graded.pad Finishes _ h
  obtain ⟨spent, hperm, hspent⟩ := h
  have hall : (spent ++ (rest b ++ frame)).Perm (total ++ frame) := by
    rw [← List.append_assoc]
    exact (hperm.append_right frame).symm
  exact wp_mono (hf b env w') (fun _ _ h' => (Graded.trans Begins hspent h').perm hall)
    fun _ _ h' => (Graded.after hspent h').perm hall

theorem Splits.last {p : Exec β} {f : β → Exec α} (hp : Splits total rest p)
    (hf : ∀ b, Handles (rest b) (f b)) : Handles total (p >>= f) := by
  have hframed : ∀ b, Handles (rest b ++ []) (f b) := by simpa using hf
  simpa using hp.bind hframed

end Splits

/-- What a part accounts for that settles some writes and tells one story. -/
theorem Accounts.finishes_one {new : List RunEntry} {settled : List (Write × Settlement)}
    {story : Story} (h : Accounts w w' new settled [story]) (hdone : story.task.Done w' story.events) :
    Finishes (settled.map (fun x => .write x.1) ++ [.task story.task]) w w' := by
  have hwrites : (settled.map (fun x : Write × Settlement => Item.write x.1) ++
      [Item.task story.task]).filterMap Item.write? = settled.map (·.1) := by
    rw [List.filterMap_append, List.filterMap_map]
    have hall : Item.write? ∘ (fun x : Write × Settlement => Item.write x.1) =
        some ∘ fun x => x.1 := rfl
    rw [hall, List.filterMap_eq_map]
    exact List.append_nil _
  have htasks : (settled.map (fun x : Write × Settlement => Item.write x.1) ++
      [Item.task story.task]).filterMap Item.task? = [story.task] := by
    have hnone : Item.task? ∘ (fun x : Write × Settlement => Item.write x.1) = fun _ => none := rfl
    rw [List.filterMap_append, List.filterMap_map, hnone, List.filterMap_none]
    rfl
  refine h.finishes ?_ ?_ fun told htold => ?_
  · rw [hwrites]
  · rw [htasks]
    exact .rfl
  · obtain rfl := List.mem_singleton.mp htold
    exact hdone

/-- The event that reports a call answered with success. -/
theorem accounts_did (call : Call) (reply : call.Reply) (f : ExecutionReport → ExecutionReport)
    {event : ExecutionEvent} {task : Task} (hends : task.Ends event)
    (hanswered : answered? (.asked call reply) = event.work?)
    (hsum : (f w.state.completed).summary = w.state.completed.summary.absorb event) :
    Accounts w (((w.push (.asked call reply)).put
        { w.state with completed := f w.state.completed }).push (.told event))
      ([.asked call reply] ++ [.told event]) [] [⟨task, [event], .ended hends⟩] := by
  have h : Accounts w ⟨w.log ++ ([.asked call reply] ++ [.told event]),
      { w.state with completed := f w.state.completed }⟩
      ([.asked call reply] ++ [.told event]) [] [⟨task, [event], .ended hends⟩] := by
    refine accounts_ended hends ?_ (by simp [told?]) rfl hsum (List.append_nil _).symm rfl rfl rfl
    rw [← hanswered, List.filterMap_cons]
    cases answered? (.asked call reply) <;> rfl
  simpa [World.push, World.put] using h

/-- The same, where the call was a planned write's. -/
theorem accounts_wrote (call : Call) (reply : call.Reply) (write : Write)
    (f : ExecutionReport → ExecutionReport) {event : ExecutionEvent} {task : Task} (hends : task.Ends event)
    (hanswered : answered? (.asked call reply) = event.work?)
    (hsum : (f w.state.completed).summary = w.state.completed.summary.absorb event) :
    Accounts w (((w.push (.asked call reply)).put { w.state with
        breaker := w.state.breaker.settle .accepted
        settled := w.state.settled ++ [(write, .accepted)]
        completed := f w.state.completed }).push (.told event))
      ([.asked call reply] ++ [.told event]) [(write, .accepted)]
      [⟨task, [event], .ended hends⟩] := by
  have h : Accounts w ⟨w.log ++ ([.asked call reply] ++ [.told event]), { w.state with
      breaker := w.state.breaker.settle .accepted
      settled := w.state.settled ++ [(write, .accepted)]
      completed := f w.state.completed }⟩
      ([.asked call reply] ++ [.told event]) [(write, .accepted)]
      [⟨task, [event], .ended hends⟩] := by
    refine accounts_ended hends ?_ (by simp [told?]) rfl hsum rfl rfl rfl rfl
    rw [← hanswered, List.filterMap_cons]
    cases answered? (.asked call reply) <;> rfl
  simpa [World.push, World.put] using h

theorem handles_reads {call : Call} (hread : call.mutates = false) :
    Handles [] (request call) := by
  intro env w
  refine finishes_asked ?_
  cases call <;> first | rfl | cases hread

/-! ## Sources and type conflicts -/

theorem handles_preflightOne {entry : LocalEntry} {relative : RelPath} :
    Handles [.task (.source relative)] (preflightOne entry relative) := by
  refine handles_checkCancelled.then fun _ => handles_read rfl fun reply => ?_
  rcases reply with e | ⟨⟩
  · exact handles_deferLocal (.source relative)
  · exact handles_idle fun _ => trivial

def SyncPlan.sourceTasks (plan : SyncPlan) : List Task :=
  plan.uploads.map (fun action => .source action.entry.relative) ++
    plan.copies.map fun action => .source action.toRelative

theorem handles_preflight : Handles (plan.sourceTasks.map .task) (preflight plan) := by
  have huploads : Handles (plan.uploads.flatMap fun action => [.task (.source action.entry.relative)])
      (plan.uploads.forM fun action => preflightOne action.entry action.entry.relative) :=
    spends_forM _ fun action _ => handles_preflightOne
  have hcopies : Handles (plan.copies.flatMap fun action => [.task (.source action.toRelative)])
      (plan.copies.forM fun action => preflightOne action.entry action.toRelative) :=
    spends_forM _ fun action _ => handles_preflightOne
  have hboth := huploads.bind fun _ => hcopies
  rw [← List.map_eq_flatMap, ← List.map_eq_flatMap] at hboth
  rw [SyncPlan.sourceTasks, List.map_append, List.map_map, List.map_map]
  exact hboth

theorem handles_preDeleteChanged {kept : KeptSet} {action : DeleteAction}
    {verdict : SnapshotVerdict} : Handles [] (preDeleteChanged kept action verdict) := by
  unfold preDeleteChanged
  split
  · exact spends_pure
  · refine (handles_attempt handles_verifyLiveSnapshot).then fun result => ?_
    split
    · exact spends_pure
    · exact spends_pure
    · exact spends_fail

theorem handles_preDeleteOne {kept : KeptSet} {planned : DeleteAction × SnapshotVerdict} :
    Handles [.task (.preDelete planned.1)] (preDeleteOne kept planned) := by
  refine handles_checkCancelled.then fun _ => handles_preDeleteChanged.then fun changed => ?_
  split
  · exact (handles_defer (.preDelete planned.1)).last fun _ => spends_pure
  · refine handles_request fun reply env w => ?_
    rcases reply with e | ⟨⟩
    · exact handled spends_fail rfl env w
    · have h := accounts_did (w := w) (.deleteNonRecursive planned.1.remotePath) (.ok ())
        (fun completed => { completed with deleted := completed.deleted + 1 })
        (.preDelete (a := planned.1)) rfl rfl
      exact h.finishes_one (.inl (by simp))

omit [Unicode] in
/-- What each of some actions is accounted for by, whatever verdict stands beside it. -/
theorem flatMap_zip {owes : α → List Item} {actions : List α} {verdicts : List β}
    (h : actions.length ≤ verdicts.length) :
    ((actions.zip verdicts).flatMap fun planned => owes planned.1) = actions.flatMap owes := by
  conv_rhs => rw [← List.map_fst_zip h]
  rw [List.flatMap_map]

theorem handles_preDeletePhase :
    Handles ((plan.preDeletes.map .preDelete).map .task) (preDeletePhase plan) := by
  intro env w
  let covers := fun action : DeleteAction => (w.state.deferrals.covering action.relative).isNone
  -- the deletions that a deferral covers are left out of the batch
  have hkept : Handles ((plan.preDeletes.filter covers).map fun action => .task (.preDelete action))
      (do
        let verdicts ← lift (← request (.verifyRemoteSnapshotBatch plan.scope plan.rules
          ((plan.preDeletes.filter covers).map deleteSnapshotCheck)))
        let _ ← ((plan.preDeletes.filter covers).zip verdicts.list).foldlM preDeleteOne ∅
        return ()) := by
    refine handles_read rfl fun reply => handles_lift.then fun verdicts => ?_
    refine Spends.last ?_ fun _ => spends_pure
    have hlength : (plan.preDeletes.filter covers).length ≤ verdicts.list.length := by
      rw [verdicts.length_eq, List.length_map]
    rw [List.map_eq_flatMap, ← flatMap_zip hlength]
    exact spends_foldlM _ (fun kept planned _ => handles_preDeleteOne) ∅
  have hdone : ∀ task ∈ (plan.preDeletes.filter fun action => !covers action).map Task.preDelete,
      task.Done w [] := by
    intro task htask
    obtain ⟨action, haction, rfl⟩ := List.mem_map.mp htask
    have hcovered := (List.mem_filter.mp haction).2
    exact .inr (by simpa [covers, Covered] using hcovered)
  have hperm : ((plan.preDeletes.filter covers).map (fun action => Item.task (.preDelete action)) ++
      ((plan.preDeletes.filter fun action => !covers action).map Task.preDelete).map Item.task).Perm
        ((plan.preDeletes.map Task.preDelete).map Item.task) := by
    have h := (List.filter_append_perm covers plan.preDeletes).map fun action =>
      Item.task (.preDelete action)
    rw [List.map_append] at h
    rw [List.map_map, List.map_map]
    exact h
  have hall := wp_silent env hkept hdone
  exact wp_mono hall (fun _ _ h => h.perm hperm) fun _ _ h => h.perm hperm

/-! ## Creates and copies -/

/-- What a planned write is accounted for by. -/
def Slot.owes (task : α → Task) (slot : Slot α) : List Item :=
  [.write slot.write, .task (task slot.action)]

/-- What the open ones are accounted for by. -/
def openItems (task : α → Task) (slots : List (Slot α)) : List Item :=
  (openActions slots).flatMap (Slot.owes task)

omit [Unicode] in
theorem openItems_writes {task : α → Task} {slots : List (Slot α)} :
    (openItems task slots).filterMap Item.write? = (openActions slots).map (·.write) := by
  rw [openItems, List.filterMap_flatMap, List.map_eq_flatMap]
  rfl

omit [Unicode] in
theorem openItems_tasks {task : α → Task} {slots : List (Slot α)} :
    (openItems task slots).filterMap Item.task? =
      (openActions slots).map fun slot => task slot.action := by
  rw [openItems, List.filterMap_flatMap, List.map_eq_flatMap]
  rfl

theorem handles_createOne {slot : Slot CreateAction} (hopen : slot.isOpen = true) :
    Handles (slot.owes .create) (createOne slot) := by
  refine handles_checkCancelled.then fun _ => ?_
  simp only [hopen, Bool.not_true, Bool.false_eq_true, if_false]
  intro env w
  simp only [covering, wp_bind, wp_get, wp_pure]
  split
  · rename_i hcovered
    have hdone : ∀ task ∈ [Task.create slot.action], task.Done w [] := by
      intro task htask
      obtain rfl := List.mem_singleton.mp htask
      exact .inr hcovered
    have hsettled : Handles [.write slot.write] (settle slot.write .excluded >>= fun _ =>
        checkBreaker) := handles_settle.last fun _ => handles_checkBreaker
    exact wp_silent env hsettled hdone
  · refine (?_ : Handles (slot.owes .create) _) env w
    refine handles_request fun reply env w => ?_
    rcases reply with e | ⟨⟩
    · cases e with
      | remoteRefused operation path code description =>
        refine handled ?_ rfl env w
        exact handles_settle.bind fun _ => (handles_defer (.create slot.action)).last fun _ =>
          handles_checkBreaker
      | _ => exact handled spends_fail rfl env w
    · have h := accounts_wrote (w := w) (.createFolder slot.action.remotePath) (.ok ()) slot.write
        (fun completed => { completed with created := completed.created + 1 })
        (.create (a := slot.action)) rfl rfl
      exact h.finishes_one (.inl (by simp))

theorem handles_excludeCopy {slot : Slot CopyAction} {leave : Exec Unit}
    (h : Handles [.task (.copy slot.action)] leave) :
    Handles (slot.owes .copy) (excludeCopy slot leave) :=
  handles_settle.bind fun _ => h.last fun _ => handles_checkBreaker

theorem handles_copyFallback {slot : Slot CopyAction} {copyError : ExecError} :
    Handles (slot.owes .copy) (copyFallback slot copyError) := by
  refine handles_uploadPreconditionHolds.then fun holds => ?_
  split
  · refine handles_request fun reply env w => ?_
    rcases reply with e | ⟨⟩
    · refine handled ?_ rfl env w
      exact handles_settle.bind fun _ => (handles_deferLocal (.copy slot.action)).last fun _ =>
        handles_checkBreaker.then fun _ => spends_pure
    · have h := accounts_wrote (w := w) (.upload slot.action.entry slot.action.toRemotePath) (.ok ())
        slot.write (fun completed => { completed with
          uploaded := completed.uploaded + 1
          uploadedBytes := saturatingAdd completed.uploadedBytes slot.action.expectedSize
          copyFallbacks := completed.copyFallbacks + 1 })
        (.fallback (a := slot.action)) rfl rfl
      exact h.finishes_one (.inr (.inl (by simp)))
  · exact (handles_excludeCopy (handles_defer (.copy slot.action))).last fun _ => spends_pure

/-- A copy that was made, and is left because its source cannot be read again: one story. -/
theorem wp_defer_copied {new : List RunEntry} {settled : List (Write × Settlement)}
    {action : CopyAction} {reason : DeferReason} {detail : String}
    (h : Accounts w w' new settled [⟨.copy action,
      [.remoteContentCopied action.fromRemotePath action.toRemotePath action.expectedSize],
      .ended .copy⟩]) (hcopied : .asked (.copyFileVerified action) (.ok ()) ∈ w'.log) :
    wp env (defer action.toRelative reason detail)
      (fun _ w'' => Finishes (settled.map (fun x => .write x.1) ++ [.task (.copy action)]) w w'')
      (fun _ _ => False) w' := by
  simp only [defer, wp_bind, wp_get]
  split
  · exact h.finishes_one (.inl hcopied)
  · simp only [wp_bind, wp_modify, wp_report]
    have hboth := h.trans (accounts_left (.copy action) reason detail w')
    rw [List.append_nil] at hboth
    have hmerged : Accounts w _ _ settled [⟨.copy action,
        [.remoteContentCopied action.fromRemotePath action.toRemotePath action.expectedSize,
          .pathDeferred action.toRelative reason], .copiedLeft⟩] :=
      { hboth with told := hboth.told }
    exact hmerged.finishes_one (.inl (by simp [hcopied]))

theorem wp_deferLocal_copied {new : List RunEntry} {settled : List (Write × Settlement)}
    {action : CopyAction} {error : ExecError}
    (h : Accounts w w' new settled [⟨.copy action,
      [.remoteContentCopied action.fromRemotePath action.toRemotePath action.expectedSize],
      .ended .copy⟩]) (hcopied : .asked (.copyFileVerified action) (.ok ()) ∈ w'.log) :
    wp env (deferLocal action.toRelative error)
      (fun _ w'' => Finishes (settled.map (fun x => .write x.1) ++ [.task (.copy action)]) w w'')
      (fun _ w'' => Begins (settled.map (fun x => .write x.1) ++ [.task (.copy action)]) w w'')
      w' := by
  unfold deferLocal
  split
  · exact wp_mono (wp_defer_copied h hcopied) (fun _ _ h' => h') fun _ _ h' => False.elim h'
  · have hfinished : Finishes (settled.map (fun x => .write x.1) ++ [.task (.copy action)]) w w' :=
      h.finishes_one (.inl hcopied)
    exact Graded.fails (E := Begins) hfinished

/-- What follows a copy that was made: its source is read again. -/
theorem wp_copied {new : List RunEntry} {settled : List (Write × Settlement)}
    {action : CopyAction} (h : Accounts w w' new settled [⟨.copy action,
      [.remoteContentCopied action.fromRemotePath action.toRemotePath action.expectedSize],
      .ended .copy⟩]) (hcopied : .asked (.copyFileVerified action) (.ok ()) ∈ w'.log) :
    wp env (do
        match ← request (.preflightUploadSource action.entry) with
        | .ok () => return true
        | .error error =>
          deferLocal action.toRelative error
          return true)
      (fun _ w'' => Finishes (settled.map (fun x => .write x.1) ++ [.task (.copy action)]) w w'')
      (fun _ w'' => Begins (settled.map (fun x => .write x.1) ++ [.task (.copy action)]) w w'')
      w' := by
  rw [wp_bind, wp_request]
  generalize (env w'.log (.preflightUploadSource action.entry) : Except ExecError Unit) = reply
  have hasked : Accounts w' (w'.push (.asked (.preflightUploadSource action.entry) reply)) _ [] [] :=
    accounts_asked (by rcases reply with e | ⟨⟩ <;> rfl)
  have hread := h.trans hasked
  rw [List.append_nil, List.append_nil] at hread
  have hlog : .asked (.copyFileVerified action) (.ok ()) ∈
      (w'.push (.asked (.preflightUploadSource action.entry) reply)).log :=
    List.mem_append_left _ hcopied
  rcases reply with e | ⟨⟩
  · show wp env (deferLocal action.toRelative e >>= fun _ => pure true) _ _ _
    rw [wp_bind]
    exact wp_deferLocal_copied hread hlog
  · exact hread.finishes_one (.inl hlog)

theorem handles_copyVerified {slot : Slot CopyAction} :
    Handles (slot.owes .copy) (copyVerified slot) := by
  refine handles_request fun reply env w => ?_
  rcases reply with e | ⟨⟩
  · cases e with
    | serverCopyNotStarted => exact handled handles_copyFallback rfl env w
    | serverCopyFailed destination detail => exact handled handles_copyFallback rfl env w
    | _ => exact handled spends_fail rfl env w
  · have hmade := accounts_wrote (w := w) (.copyFileVerified slot.action) (.ok ()) slot.write
      (fun completed => { completed with copied := completed.copied + 1 })
      (.copy (a := slot.action)) rfl rfl
    exact wp_copied hmade (by simp)

/-- What is left of a copy, by whether it is blocked. -/
def leftOfCopy (slot : Slot CopyAction) (blocked : Bool) : List Item :=
  if blocked then [] else slot.owes .copy

theorem splits_copyBlocked {slot : Slot CopyAction} {verdict : SnapshotVerdict} :
    Splits (slot.owes .copy) (leftOfCopy slot) (copyBlocked slot verdict) := by
  have hleave : Handles (slot.owes .copy) (excludeCopy slot
      (defer slot.action.toRelative .remoteChanged (remoteChangedDetail slot.action.fromRemotePath))) :=
    handles_excludeCopy (handles_defer (.copy slot.action))
  have hall : (slot.owes .copy).Perm (slot.owes .copy ++ leftOfCopy slot true) := by
    simp [leftOfCopy]
  unfold copyBlocked
  dsimp only
  split
  · exact hleave.splits (fun _ => rfl) hall
  · refine Splits.after (handles_reads rfl) fun reply => ?_
    rcases reply with e | ⟨⟩
    · exact (handles_excludeCopy (handles_deferLocal (.copy slot.action))).splits (fun _ => rfl) hall
    · refine Splits.after (handles_attempt handles_verifyLiveSnapshot) fun result => ?_
      split
      · exact splits_pure (by simp [leftOfCopy])
      · exact hleave.splits (fun _ => rfl) hall
      · exact splits_fail

theorem handles_copyOne {copied : List CopyAction} {planned : Slot CopyAction × SnapshotVerdict} :
    Handles (planned.1.owes .copy) (copyOne copied planned) := by
  refine handles_checkCancelled.then fun _ => ?_
  refine splits_copyBlocked.last fun blocked => ?_
  cases blocked with
  | true => exact spends_pure
  | false => exact handles_copyVerified.last fun _ => spends_pure

theorem handles_verifyCopied {planned : SnapshotCheck × SnapshotVerdict} :
    Handles [] (verifyCopied planned) := by
  obtain ⟨check, verdict⟩ := planned
  cases verdict with
  | changed => exact spends_fail.then fun _ => handles_verifyLiveSnapshot
  | mtimeNotKept =>
    have hcount : Handles [] (count fun completed =>
        { completed with mtimeNotKept := completed.mtimeNotKept + 1 }) :=
      handles_countSilent fun _ => rfl
    exact hcount.then fun _ => handles_verifyLiveSnapshot
  | matching => exact handles_verifyLiveSnapshot

theorem handles_copyPhase {slots : List (Slot CopyAction)} :
    Handles (openItems .copy slots) (copyPhase plan slots) := by
  refine handles_read rfl fun reply => handles_lift.then fun verdicts => ?_
  have hlength : (openActions slots).length ≤ verdicts.list.length := by
    rw [verdicts.length_eq, List.length_map]
  have hcopies : Handles (openItems .copy slots)
      (((openActions slots).zip verdicts.list).foldlM copyOne []) := by
    rw [openItems, ← flatMap_zip hlength]
    exact spends_foldlM _ (fun copied planned _ => handles_copyOne) []
  refine hcopies.last fun copied => handles_read rfl fun reply => handles_lift.then fun verdicts => ?_
  exact spends_forM_nil _ fun planned _ => handles_verifyCopied

section Covered

variable {task : α → Task} {slots : List (Slot α)} {covered : Slot α → Bool}

/-- The slots once those in `covered` are closed. -/
def closeSlots (covered : Slot α → Bool) (slots : List (Slot α)) : List (Slot α) :=
  slots.map fun slot => if covered slot then { slot with isOpen := false } else slot

omit [Unicode] in
theorem openActions_closeSlots : openActions (closeSlots covered slots) =
    (openActions slots).filter fun slot => !covered slot := by
  induction slots with
  | nil => rfl
  | cons slot slots ih =>
    unfold openActions closeSlots at *
    rw [List.map_cons, List.filter_cons, List.filter_cons, ih]
    cases hcovered : covered slot <;> cases hopen : slot.isOpen <;>
      simp [hcovered, hopen]

omit [Unicode] in
theorem openItems_perm : (openItems task slots).Perm
    (((openActions slots).filter covered).flatMap (Slot.owes task) ++
      openItems task (closeSlots covered slots)) := by
  rw [openItems, openItems, openActions_closeSlots, ← List.flatMap_append]
  exact (List.filter_append_perm covered (openActions slots)).symm.flatMap_right _

omit [Unicode] in
/-- Some writes, and then their tasks. -/
theorem owes_perm : ((slots.flatMap fun slot => [Item.write slot.write]) ++
    (slots.map fun slot => task slot.action).map Item.task).Perm
      (slots.flatMap (Slot.owes task)) := by
  rw [List.map_map, List.map_eq_flatMap]
  exact List.flatMap_append_perm slots _ _

end Covered

/-- The open writes that a deferral covers are settled, and their tasks done with. -/
theorem splits_excludeCovered {task : α → Task} {relative : α → RelPath} {slots : List (Slot α)}
    (hdone : ∀ action, ∀ w : World runInterface Run, Covered w (relative action) →
      (task action).Done w []) :
    Splits (openItems task slots) (openItems task) (excludeCovered relative slots) := by
  intro env w
  let covered := fun slot : Slot α =>
    slot.isOpen && (w.state.deferrals.covering (relative slot.action)).isSome
  have hclosed : slots.filter covered = (openActions slots).filter covered := by
    rw [openActions, List.filter_filter]
    refine List.filter_congr fun slot _ => ?_
    cases hopen : slot.isOpen <;> simp [covered, hopen]
  have hsettle : Handles ((slots.filter covered).flatMap fun slot => [.write slot.write])
      ((slots.filter covered).forM fun slot => settle slot.write .excluded) :=
    spends_forM _ fun _ _ => handles_settle
  have htasks : ∀ t ∈ (slots.filter covered).map (fun slot => task slot.action), t.Done w [] := by
    intro t ht
    obtain ⟨slot, hslot, rfl⟩ := List.mem_map.mp ht
    exact hdone _ w (Bool.and_eq_true_iff.mp (List.mem_filter.mp hslot).2).2
  have hrest : (openItems task slots).Perm ((slots.filter covered).flatMap (Slot.owes task) ++
      openItems task (closeSlots covered slots)) := by
    rw [hclosed]
    exact openItems_perm
  have hall := wp_silent env hsettle htasks
  simp only [excludeCovered, wp_bind, wp_get]
  refine wp_mono hall (fun _ w' h => ?_) fun _ w' h => ?_
  · exact ⟨_, hrest, h.perm owes_perm⟩
  · exact (Graded.pad Finishes _ (h.perm owes_perm)).perm hrest.symm

/-! ## The upload phase -/

/-- The calls and reports of the upload phase, beside reading. -/
def UploadEntry : RunEntry → Prop
  | .asked (.upload _ _) _ => True
  | .told (.uploaded _ _) => True
  | .told (.pathDeferred _ _) => True
  | _ => False

omit [Unicode] in
theorem answered_upload {e : RunEntry} (h : Quiet e ∨ UploadEntry e) :
    answered? e = if isUploadOk e then some .upload else none := by
  cases e with
  | told event => rfl
  | asked call reply =>
    cases call with
    | upload entry remotePath => rcases reply with e | ⟨⟩ <;> rfl
    | deleteNonRecursive | createFolder | rename | copyFileVerified =>
      rcases h with h | h
      · cases h
      · cases h
    | _ => rfl

omit [Unicode] in
theorem work_upload {e : RunEntry} (h : Quiet e ∨ UploadEntry e) :
    (told? e).bind ExecutionEvent.work? = if isUploadedEvent e then some .upload else none := by
  rcases h with h | h
  · cases e with
    | told event => cases h
    | asked call reply => rfl
  · cases e with
    | asked call reply => rfl
    | told event => cases event <;> first | rfl | cases h

omit [Unicode] in
theorem filterMap_replicate {f : RunEntry → Option Work} {p : RunEntry → Bool} {work : Work}
    {new : List RunEntry} (h : ∀ e ∈ new, f e = if p e then some work else none) :
    new.filterMap f = List.replicate (new.countP p) work := by
  induction new with
  | nil => rfl
  | cons e new ih =>
    have hrest := ih fun e he => h e (.tail _ he)
    rw [List.filterMap_cons, h e (.head _), List.countP_cons, hrest]
    cases p e <;> simp [List.replicate_succ]

omit [Unicode] in
/-- The uploads of the phase and the reports of them go hand in hand. -/
theorem balanced_uploads {new : List RunEntry} (h : ∀ e ∈ new, Quiet e ∨ UploadEntry e)
    (hcount : new.countP isUploadOk = new.countP isUploadedEvent) : Balanced new := by
  unfold Balanced events
  rw [List.filterMap_filterMap, filterMap_replicate fun e he => answered_upload (h e he),
    filterMap_replicate fun e he => work_upload (h e he), hcount]

theorem UploadsEnded.accounts {jobs : List Job} {new : List RunEntry}
    {settled : List (Write × Settlement)} (h : UploadsEnded UploadEntry jobs w w' new settled) :
    ∃ stories, Accounts w w' new settled stories ∧
      (stories.map (·.task)).Perm (jobs.map fun job => .upload job.action) := by
  obtain ⟨stories, htasks, hevents⟩ := h.told
  exact ⟨stories, ⟨h.adds, h.settled_eq, h.breaker_eq, h.opened_eq, h.sticky,
    balanced_uploads h.within h.uploads, hevents ▸ .rfl⟩, htasks⟩

theorem handles_uploadWorkers {workers : Nat} {slots : List (Slot UploadAction)} :
    Handles (openItems .upload slots)
      (uploadWorkers workers ((openActions slots).map fun slot => ⟨slot.write, slot.action⟩)) := by
  let jobs : List Job := (openActions slots).map fun slot => ⟨slot.write, slot.action⟩
  have hwrites : (openItems Task.upload slots).filterMap Item.write? = jobs.map (·.write) := by
    rw [openItems_writes, List.map_map]
    rfl
  have htasks : (openItems Task.upload slots).filterMap Item.task? =
      jobs.map fun job => .upload job.action := by
    rw [openItems_tasks, List.map_map]
    rfl
  have hacts : ∀ job ∈ jobs, UploadActs UploadEntry job.action :=
    fun _ _ => ⟨fun _ => trivial, trivial, fun _ => trivial⟩
  intro env w
  refine wp_mono (wp_uploadWorkers hacts) (fun _ w' h => ?_) fun _ w' h => ?_
  · obtain ⟨new, settled, hended, hlanded⟩ := h
    obtain ⟨stories, haccounts, hstories⟩ := hended.accounts
    refine ⟨new, settled, stories, haccounts, fun write => ?_, htasks ▸ hstories, ?_, ?_⟩
    · exact hwrites ▸ hended.settled_le write
    · cases hc : w'.state.cancelled with
      | true => exact .inl rfl
      | false => exact .inr (hwrites ▸ List.perm_iff_count.mpr (hlanded hc).settled_all)
    · intro story hstory
      have hmem : story.task ∈ jobs.map fun job => Task.upload job.action :=
        hstories.mem_iff.mp (List.mem_map_of_mem hstory)
      obtain ⟨job, hjob, htask⟩ := List.mem_map.mp hmem
      rw [← htask]
      cases hc : w'.state.cancelled with
      | true => exact .inr (.inr hc)
      | false =>
        rcases (hlanded hc).landed job hjob with hsent | hdeferred
        · refine .inl ?_
          rw [hended.adds.log]
          exact List.mem_append_right _ hsent
        · exact .inr (.inl (covered_of_mem hdeferred))
  · obtain ⟨new, settled, hended⟩ := h
    obtain ⟨stories, haccounts, hstories⟩ := hended.accounts
    exact ⟨new, settled, stories, haccounts, hwrites ▸ hended.settled_le, htasks ▸ hstories⟩

/-! ## The planned writes -/

theorem handles_creates {slots : List (Slot CreateAction)} :
    Handles (openItems .create slots) (slots.forM createOne) := by
  let owes := fun slot : Slot CreateAction => if slot.isOpen then slot.owes .create else []
  have hall : Handles (slots.flatMap owes) (slots.forM createOne) := by
    refine spends_forM slots fun slot _ => ?_
    cases hopen : slot.isOpen with
    | true =>
      simp only [owes, hopen, if_true]
      exact handles_createOne hopen
    | false =>
      simp only [owes, hopen, Bool.false_eq_true, if_false]
      refine handles_checkCancelled.then fun _ => ?_
      simp only [hopen, Bool.not_false, if_true]
      exact spends_pure
  have howes : slots.flatMap owes = openItems .create slots := by
    rw [openItems, openActions]
    clear hall
    induction slots with
    | nil => rfl
    | cons slot slots ih =>
      rw [List.flatMap_cons, ih, List.filter_cons]
      cases hopen : slot.isOpen <;> simp [owes, hopen]
  rwa [howes] at hall

/-- What the open writes are accounted for by. -/
def PlannedWrites.owes (writes : PlannedWrites) : List Item :=
  openItems .create writes.creates ++
    (openItems .copy writes.copies ++ openItems .upload writes.uploads)

theorem splits_excludeUploads {slots : List (Slot UploadAction)} :
    Splits (openItems .upload slots) (openItems .upload)
      (excludeCovered (·.entry.relative) slots) :=
  splits_excludeCovered fun _ _ h => .inr (.inl h)

theorem handles_openedWrites {jobs : Nat} {writes : PlannedWrites} :
    Handles writes.owes (openedWrites plan jobs writes) := by
  have hcopies : Splits (openItems .copy writes.copies) (openItems .copy)
      (excludeCovered (·.toRelative) writes.copies) :=
    splits_excludeCovered fun _ _ h => .inr (.inr h)
  refine handles_creates.bind fun _ => hcopies.bind fun copies => ?_
  refine Handles.perm (?_ : Handles (openItems .upload writes.uploads ++ openItems .copy copies) _)
    List.perm_append_comm
  refine splits_excludeUploads.bind fun uploads => handles_checkBreaker.then fun _ => ?_
  refine Handles.perm (?_ : Handles (openItems .copy copies ++ openItems .upload uploads) _)
    List.perm_append_comm
  refine handles_copyPhase.bind fun _ => splits_excludeUploads.last fun uploads => ?_
  exact handles_checkBreaker.then fun _ => handles_uploadWorkers.last fun _ => handles_checkBreaker

/-! ## Mirror deletions -/

theorem handles_landedChecks : Handles [] (landedChecks plan) := by
  refine spends_get.then fun run => ?_
  split
  · exact spends_pure
  · refine (spends_forM_nil _ fun action _ => ?_).then fun _ => spends_pure
    refine handles_checkCancelled.then fun _ => handles_read rfl fun reply => ?_
    rcases reply with e | ⟨⟩
    · cases hlocal : (DeferReason.forLocalError e).isSome with
      | true => simpa [hlocal] using spends_pure
      | false => simpa [hlocal] using spends_fail
    · exact spends_pure

theorem handles_judgeDeletes : Handles [] (judgeDeletes plan) := by
  refine handles_landedChecks.then fun checks => ?_
  refine handles_read rfl fun reply => handles_lift.then fun verdicts => ?_
  refine (spends_forM_nil _ fun verdict _ => ?_).then fun _ => ?_
  · split
    · exact handles_countSilent fun _ => rfl
    · exact spends_pure
  refine (spends_forM_nil _ fun planned _ => ?_).then fun _ => ?_
  · obtain ⟨check, verdict⟩ := planned
    dsimp only
    split
    · exact spends_fail
    · exact spends_pure
  · exact (spends_forM_nil _ fun _ _ => handles_verifyLiveSnapshot).then fun _ => spends_pure

theorem handles_localRuling {error : ExecError} : Handles [] (localRuling error) := by
  unfold localRuling
  split
  · exact spends_pure
  · exact spends_fail

theorem handles_guardRuling {guard : DestinationGuard} : Handles [] (guardRuling guard) := by
  refine handles_covering.then fun covered => ?_
  split
  · exact spends_pure
  · refine (handles_attempt (handles_read rfl fun _ => handles_lift.then fun _ =>
      handles_verifyLiveSnapshot)).then fun result => ?_
    split
    · exact spends_pure
    · exact spends_pure
    · exact spends_pure
    · exact handles_localRuling

theorem handles_liveRuling {action : DeleteAction} : Handles [] (liveRuling action) := by
  refine (handles_attempt handles_verifyLiveSnapshot).then fun result => ?_
  split
  · exact spends_pure
  · exact spends_pure
  · exact spends_pure
  · exact spends_fail

theorem handles_guardAndLiveRuling {action : DeleteAction} :
    Handles [] (guardAndLiveRuling action) := by
  unfold guardAndLiveRuling
  split
  · exact handles_liveRuling
  · refine handles_guardRuling.then fun ruling => ?_
    split
    · exact spends_pure
    · exact handles_liveRuling

theorem handles_deleteRuling {kept : KeptSet} {action : DeleteAction} {changed : Bool} :
    Handles [] (deleteRuling kept action changed) := by
  unfold deleteRuling
  split
  · exact spends_pure
  · refine spends_get.then fun run => ?_
    split
    · exact spends_pure
    · refine handles_read rfl fun presence => ?_
      split
      · exact spends_pure
      · split
        · exact spends_pure
        · exact handles_guardAndLiveRuling

theorem handles_skipDelete {action : DeleteAction} {reason : DeleteKeptReason} :
    Handles [.task (.postDelete action)] (skipDelete action reason) := by
  intro env w
  have h : Accounts w ((w.put { w.state with completed.deletesSkipped :=
      w.state.completed.deletesSkipped + 1 }).push
        (.told (.remoteExtraDeleteSkipped action.remotePath action.relative reason)))
      ([] ++ [.told (.remoteExtraDeleteSkipped action.remotePath action.relative reason)]) []
      [⟨.postDelete action, _, .ended .skip⟩] :=
    accounts_ended .skip rfl (List.forall_mem_nil _) rfl rfl (List.append_nil _).symm rfl rfl rfl
  exact h.finishes_one (.inl (by simp))

theorem handles_postDelete {kept : Kept} {action : DeleteAction} :
    Handles [.task (.postDelete action)] (postDelete kept action) := by
  refine handles_request fun reply env w => ?_
  rcases reply with e | ⟨⟩
  · refine handled ((handles_defer (.postDelete action)).last fun _ => ?_) rfl env w
    split
    · exact spends_fail
    · exact spends_pure
  · have h := accounts_did (w := w) (.deleteNonRecursive action.remotePath) (.ok ())
      (fun completed => { completed with deleted := completed.deleted + 1 })
      (.postDelete (a := action)) rfl rfl
    exact h.finishes_one (.inl (by simp))

theorem handles_postDeleteOne {kept : Kept} {planned : DeleteAction × Bool} :
    Handles [.task (.postDelete planned.1)] (postDeleteOne kept planned) := by
  refine handles_checkCancelled.then fun _ => handles_deleteRuling.then fun ruling => ?_
  cases ruling with
  | keptDescendant => exact handles_skipDelete.last fun _ => spends_pure
  | related other reason => exact (handles_defer (.postDelete planned.1)).last fun _ => spends_pure
  | present spelling => exact handles_skipDelete.last fun _ => spends_pure
  | deferred reason detail => exact (handles_defer (.postDelete planned.1)).last fun _ => spends_pure
  | proceed => exact handles_postDelete

theorem handles_postDeletePhase :
    Handles ((plan.postDeletes.map .postDelete).map .task) (postDeletePhase plan) := by
  refine handles_judgeDeletes.then_returns returns_judgeDeletes fun deletes hdeletes => ?_
  have hall : Handles (deletes.flatMap fun planned => [.task (.postDelete planned.1)])
      (deletes.foldlM postDeleteOne ⟨∅, ∅⟩) :=
    spends_foldlM deletes (fun kept planned _ => handles_postDeleteOne) ⟨∅, ∅⟩
  rw [← hdeletes, List.map_map, List.map_map, List.map_eq_flatMap]
  exact hall

/-! ## Kept deletions whose file is back, and renames -/

theorem handles_leaveVanished {relative spelling : RelPath} :
    Handles [.task (.followUp relative)] (leaveVanished plan relative spelling) := by
  refine handles_read rfl fun reply => ?_
  rcases reply with ⟨kind, source⟩ | ⟨⟩
  · cases kind with
    | notFound => exact handles_defer (.followUp relative)
    | _ => exact handles_deferLocal (.followUp relative)
  · exact handles_defer (.followUp relative)

theorem handles_promoteToFullFingerprint {entry : LocalEntry} :
    Handles [] (promoteToFullFingerprint entry) := by
  unfold promoteToFullFingerprint
  split
  · exact spends_pure
  · exact handles_read rfl fun _ => handles_lift.then fun _ => spends_pure

theorem handles_followUpUpload {relative : RelPath} {entry : LocalEntry} {target : DeleteAction} :
    Handles [.task (.followUp relative)] (followUpUpload relative entry target) := by
  refine (handles_attempt (handles_promoteToFullFingerprint.then fun _ =>
    handles_read rfl fun _ => handles_lift.then fun _ => spends_pure)).then fun result => ?_
  rcases result with e | entry
  · exact handles_deferLocal (.followUp relative)
  · refine handles_uploadPreconditionHolds.then fun holds => ?_
    split
    · refine handles_request fun reply env w => ?_
      rcases reply with e | ⟨⟩
      · exact handled (handles_deferLocal (.followUp relative)) rfl env w
      · have h := accounts_did (w := w) (.upload entry target.remotePath) (.ok ())
          (fun completed => { completed with
            uploaded := completed.uploaded + 1
            keptDeletesUploaded := completed.keptDeletesUploaded + 1
            uploadedBytes := saturatingAdd completed.uploadedBytes entry.size })
          (.followUp (r := relative)) rfl rfl
        exact h.finishes_one trivial
    · exact handles_defer (.followUp relative)

theorem handles_followUpOne {reappeared : RelPath × RelPath} :
    Handles [.task (.followUp reappeared.1)] (followUpOne plan reappeared) := by
  obtain ⟨relative, spelling⟩ := reappeared
  refine handles_checkCancelled.then fun _ => handles_read rfl fun reply => ?_
  rcases reply with e | entry
  · exact handles_deferLocal (.followUp relative)
  · cases entry with
    | none => exact handles_leaveVanished
    | some entry =>
      dsimp only
      split
      · exact handles_idle fun _ => trivial
      · split
        · exact handles_defer (.followUp relative)
        · split
          · exact handles_idle fun _ => trivial
          · exact handles_followUpUpload

/-- A planned deletion whose file is not back has no follow-up. -/
theorem handles_followUpPhase {kept : Kept} (hkept : kept.Within plan) :
    Handles ((plan.postDeletes.map fun action => .followUp action.relative).map .task)
      (followUpPhase plan kept) := by
  let keys := kept.reappeared.toList.map (·.1)
  let rest := (plan.postDeletes.map (·.relative)).diff keys
  have hnodup : keys.Nodup := by
    rw [show keys = kept.reappeared.keys from Std.TreeMap.map_fst_toList_eq_keys]
    exact kept.reappeared.nodup_keys
  have hmem : ∀ relative ∈ keys, relative ∈ plan.postDeletes.map (·.relative) := by
    intro relative hrelative
    obtain ⟨⟨key, spelling⟩, hentry, rfl⟩ := List.mem_map.mp hrelative
    obtain ⟨action, haction, hfound⟩ :=
      hkept key spelling (Std.TreeMap.mem_toList_iff_getElem?_eq_some.mp hentry)
    exact List.mem_map.mpr ⟨action, haction, hfound⟩
  have hkeys : (keys ++ rest).Perm (plan.postDeletes.map (·.relative)) := by
    refine List.subperm_append_diff_self_of_count_le fun relative hrelative => ?_
    rw [List.count_eq_one_of_mem hnodup hrelative]
    exact List.count_pos_iff.mpr (hmem relative hrelative)
  have hall : Handles (keys.map fun relative => .task (.followUp relative))
      (followUpPhase plan kept) := by
    rw [List.map_map, List.map_eq_flatMap]
    exact spends_forM _ fun reappeared _ => handles_followUpOne
  have hperm : ((keys.map fun relative => Item.task (.followUp relative)) ++
      (rest.map Task.followUp).map Item.task).Perm
        ((plan.postDeletes.map fun action => Task.followUp action.relative).map Item.task) := by
    have h := hkeys.map fun relative => Item.task (.followUp relative)
    simp only [List.map_append, List.map_map] at h ⊢
    exact h
  intro env w
  have hdone : ∀ task ∈ rest.map Task.followUp, task.Done w [] := by
    intro task htask
    obtain ⟨relative, _, rfl⟩ := List.mem_map.mp htask
    trivial
  have hsilent := wp_silent env hall hdone
  exact wp_mono hsilent (fun _ _ h => h.perm hperm) fun _ _ h => h.perm hperm

theorem handles_renameOne {action : RenameAction} :
    Handles [.task (.rename action)] (renameOne action) := by
  refine handles_checkCancelled.then fun _ => spends_get.then fun run => ?_
  split
  · exact handles_defer (.rename action)
  · refine handles_request fun reply env w => ?_
    rcases reply with e | renamed
    · refine handled ?_ rfl env w
      dsimp only
      split
      · exact spends_fail
      · exact handles_defer (.rename action)
    · have h := accounts_did (w := w) (.rename action.fromRemotePath action.newName) (.ok renamed)
        (fun completed => { completed with renamed := completed.renamed + 1 })
        (.rename : Task.Ends (.rename action) (.renamed action.fromRemotePath renamed)) rfl rfl
      exact h.finishes_one (.inl (by simp))

theorem handles_executeRenames :
    Handles ((plan.renames.map .rename).map .task) (executeRenames plan) := by
  rw [List.map_map, List.map_eq_flatMap]
  unfold executeRenames
  split
  · rename_i hempty
    rw [List.isEmpty_iff.mp hempty]
    exact spends_pure
  · refine handles_read rfl fun supported => ?_
    split
    · exact spends_forM _ fun action _ => handles_renameOne
    · exact spends_forM _ fun action _ => handles_defer (.rename action)

/-! ## The phases put together -/

/-- What comes before the planned writes. -/
def opening (plan : SyncPlan) : Exec Unit := do
  preflight plan
  preDeletePhase plan

def SyncPlan.openingTasks (plan : SyncPlan) : List Task :=
  plan.sourceTasks ++ plan.preDeletes.map .preDelete

theorem handles_opening : Handles (plan.openingTasks.map .task) (opening plan) := by
  rw [SyncPlan.openingTasks, List.map_append]
  exact handles_preflight.bind fun _ => handles_preDeletePhase

/-- Where the writes of a plan are opened. -/
def World.opened (w : World runInterface Run) (plan : SyncPlan) : World runInterface Run :=
  w.put { w.state with
    breaker := .new (slotsAt w.state.deferrals plan).opened.length plan.unchangedFiles
    opened := (slotsAt w.state.deferrals plan).opened
    settled := [] }

/-- The planned writes, accounted for from where they are opened. -/
theorem wp_plannedWrites_accounts {jobs : Nat} :
    wp env (plannedWrites plan jobs)
      (fun _ w' => Finishes (slotsAt w.state.deferrals plan).owes (w.opened plan) w')
      (fun _ w' => Begins (slotsAt w.state.deferrals plan).owes (w.opened plan) w') w :=
  handles_openedWrites env (w.opened plan)

def SyncPlan.deleteTasks (plan : SyncPlan) : List Task :=
  plan.postDeletes.map .postDelete ++
    (plan.postDeletes.map (fun action => .followUp action.relative) ++ plan.renames.map .rename)

theorem handles_deletePhases : Handles (plan.deleteTasks.map .task) (deletePhases plan) := by
  rw [SyncPlan.deleteTasks, List.map_append, List.map_append]
  exact handles_postDeletePhase.bind_returns returns_postDeletePhase fun kept hkept =>
    (handles_followUpPhase hkept).bind fun _ => handles_executeRenames

omit [Unicode] in
theorem tasks_writes (tasks : List Task) : (tasks.map Item.task).filterMap Item.write? = [] := by
  rw [List.filterMap_map]
  exact List.filterMap_eq_nil_iff.mpr fun _ _ => rfl

omit [Unicode] in
theorem tasks_tasks (tasks : List Task) : (tasks.map Item.task).filterMap Item.task? = tasks := by
  rw [List.filterMap_map]
  exact List.filterMap_some

end Run
end DriveSync
