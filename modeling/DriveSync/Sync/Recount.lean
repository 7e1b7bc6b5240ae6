import DriveSync.Lib.Total
import DriveSync.Sync.Deletions

/-!
# DriveSync.Sync.Recount

The report of a run beside its events: each counter is the number of the events it counts and of the
operations that succeeded (`Counts`), and the events are the stories of the plan's tasks, one story a
task.

* `Recounts`: what the events of a part of a run tell.
* `wp_writePhases_recounts`, `wp_execute_recounts`: the parts put together.
* `executed_recounts`: the whole run, and how each mirror deletion ended.
-/

namespace DriveSync

open Path Prog

/-! ## The counters -/

def ExecutionReport.worked (report : ExecutionReport) : Work → Nat
  | .delete => report.deleted
  | .create => report.created
  | .copy => report.copied
  | .upload => report.uploaded
  | .rename => report.renamed

/-- The bytes an event adds to those sent. -/
def ExecutionEvent.sent : ExecutionEvent → Nat
  | .copyFallbackUploaded _ bytes => bytes
  | .uploaded _ bytes => bytes
  | .keptDeleteUploaded _ bytes => bytes
  | _ => 0

def ExecutionEvent.isSkip : ExecutionEvent → Bool
  | .remoteExtraDeleteSkipped _ _ _ => true
  | _ => false

def ExecutionEvent.isFallback : ExecutionEvent → Bool
  | .copyFallbackUploaded _ _ => true
  | _ => false

def ExecutionEvent.isKeptUpload : ExecutionEvent → Bool
  | .keptDeleteUploaded _ _ => true
  | _ => false

/-- The path an event leaves for the next run. -/
def ExecutionEvent.left? : ExecutionEvent → Option (RelPath × DeferReason)
  | .pathDeferred relative reason => some (relative, reason)
  | _ => none

/-- Each counter is the number of its events, and of the operations that succeeded; the bytes are
the saturated sum of those that the events name. -/
structure Counts (report : ExecutionReport) (log : List RunEntry) : Prop where
  told : ∀ work, report.worked work = ((events log).filterMap ExecutionEvent.work?).count work
  succeeded : ∀ work, report.worked work = (log.filterMap answered?).count work
  bytes : report.uploadedBytes = saturatingAdd 0 (total ExecutionEvent.sent (events log))
  skipped : report.deletesSkipped = (events log).countP ExecutionEvent.isSkip
  fallbacks : report.copyFallbacks = (events log).countP ExecutionEvent.isFallback
  keptUploads : report.keptDeletesUploaded = (events log).countP ExecutionEvent.isKeptUpload
  deferred : (report.deferred.map fun record => (record.relative, record.reason)) =
    (events log).filterMap ExecutionEvent.left?

def Summary.worked (s : Summary) : Work → Nat
  | .delete => s.deleted
  | .create => s.created
  | .copy => s.copied
  | .upload => s.uploaded
  | .rename => s.renamed

def Summary.zero : Summary := ⟨0, 0, 0, 0, 0, 0, 0, [], 0, 0⟩

theorem foldl_absorbEntry (log : List RunEntry) (s : Summary) :
    log.foldl Summary.absorbEntry s = (events log).foldl Summary.absorb s := by
  induction log generalizing s with
  | nil => rfl
  | cons e log ih =>
    cases e with
    | asked call reply => exact ih s
    | told event => exact ih (s.absorb event)

theorem absorb_worked (s : Summary) (event : ExecutionEvent) (work : Work) :
    (s.absorb event).worked work = s.worked work + event.work?.toList.count work := by
  cases event <;> cases work <;> rfl

theorem foldl_absorb_worked (evs : List ExecutionEvent) (s : Summary) (work : Work) :
    (evs.foldl Summary.absorb s).worked work =
      s.worked work + (evs.filterMap ExecutionEvent.work?).count work := by
  induction evs generalizing s with
  | nil => rfl
  | cons event evs ih =>
    rw [List.foldl_cons, ih, absorb_worked, List.filterMap_cons, Nat.add_assoc]
    cases event.work? with
    | none => simp
    | some done => simp [List.count_cons, Nat.add_comm]

/-- A counter that an event either leaves or raises by one. -/
theorem foldl_absorb_count {counter : Summary → Nat} {p : ExecutionEvent → Bool}
    (h : ∀ s event, counter (s.absorb event) = counter s + (p event).toNat)
    (evs : List ExecutionEvent) (s : Summary) :
    counter (evs.foldl Summary.absorb s) = counter s + evs.countP p := by
  induction evs generalizing s with
  | nil => rfl
  | cons event evs ih =>
    rw [List.foldl_cons, ih, h, List.countP_cons]
    cases p event <;> simp [Nat.add_comm, Nat.add_left_comm]

theorem foldl_absorb_deferred (evs : List ExecutionEvent) (s : Summary) :
    (evs.foldl Summary.absorb s).deferred =
      s.deferred ++ evs.filterMap ExecutionEvent.left? := by
  induction evs generalizing s with
  | nil => exact (List.append_nil _).symm
  | cons event evs ih =>
    rw [List.foldl_cons, ih]
    cases event <;> simp [Summary.absorb, ExecutionEvent.left?, List.filterMap_cons]

theorem foldl_absorb_bytes (evs : List ExecutionEvent) (s : Summary) (n : Nat)
    (h : s.uploadedBytes = saturatingAdd 0 n) :
    (evs.foldl Summary.absorb s).uploadedBytes =
      saturatingAdd 0 (n + total ExecutionEvent.sent evs) := by
  induction evs generalizing s n with
  | nil => exact h
  | cons event evs ih =>
    have hstep : (s.absorb event).uploadedBytes = saturatingAdd 0 (n + event.sent) := by
      cases event <;> simp only [Summary.absorb, ExecutionEvent.sent, h, saturatingAdd] <;> omega
    rw [List.foldl_cons, ih _ _ hstep, total_cons, Nat.add_assoc]

/-- A report that is the sum of a log's events counts them. -/
theorem counts_of_summary {report : ExecutionReport} {log : List RunEntry}
    (hsum : report.summary = log.foldl Summary.absorbEntry .zero) (hbalanced : Balanced log) :
    Counts report log := by
  rw [foldl_absorbEntry] at hsum
  have hworked : ∀ work, report.worked work =
      ((events log).filterMap ExecutionEvent.work?).count work := by
    intro work
    have hzero : Summary.zero.worked work = 0 := by cases work <;> rfl
    have hreport : report.worked work = report.summary.worked work := by cases work <;> rfl
    rw [hreport, hsum, foldl_absorb_worked, hzero, Nat.zero_add]
  have hcount : ∀ (counter : Summary → Nat) {p : ExecutionEvent → Bool},
      (∀ s event, counter (s.absorb event) = counter s + (p event).toNat) →
        counter .zero = 0 → counter report.summary = (events log).countP p := by
    intro counter p h hzero
    rw [hsum, foldl_absorb_count h, hzero, Nat.zero_add]
  refine ⟨hworked, fun work => (hworked work).trans (hbalanced.count_eq work).symm, ?_, ?_, ?_, ?_,
    ?_⟩
  · have h := foldl_absorb_bytes (events log) .zero 0 rfl
    rw [← hsum, Nat.zero_add] at h
    exact h
  · exact hcount Summary.deletesSkipped (fun s event => by cases event <;> rfl) rfl
  · exact hcount Summary.copyFallbacks (fun s event => by cases event <;> rfl) rfl
  · exact hcount Summary.keptDeletesUploaded (fun s event => by cases event <;> rfl) rfl
  · have h := foldl_absorb_deferred (events log) .zero
    rw [← hsum] at h
    exact h

/-! ## Stories -/

def SyncPlan.writeTasks (plan : SyncPlan) : List Task :=
  plan.creates.map .create ++ (plan.copies.map .copy ++ plan.uploads.map .upload)

/-- Whatever the events of a run may be about. -/
def SyncPlan.tasks (plan : SyncPlan) : List Task :=
  plan.openingTasks ++ (plan.writeTasks ++ plan.deleteTasks)

section Run

variable [Unicode] {w w' w₁ w₂ w₃ : World runInterface Run} {env : Env runInterface}
  {plan : SyncPlan} {items : List Item} {tasks tasks' : List Task}

/-- What a part of a run put on the log, and its stories, one a task. -/
structure Recounts (tasks : List Task) (w w' : World runInterface Run) (new : List RunEntry)
    (stories : List Story) : Prop where
  adds : Adds w w' new
  balanced : Balanced new
  tasks : (stories.map (·.task)).Perm tasks
  told : (events new).Perm (stories.flatMap (·.events))

/-- What a part tells that fails. -/
def Recounted (tasks : List Task) (w w' : World runInterface Run) : Prop :=
  ∃ new stories, Recounts tasks w w' new stories

/-- What a part tells that succeeds: its tasks are done. -/
def RecountedAll (tasks : List Task) (w w' : World runInterface Run) : Prop :=
  ∃ new stories, Recounts tasks w w' new stories ∧
    (w.state.cancelled = true → w'.state.cancelled = true) ∧
    ∀ story ∈ stories, story.task.Done w' story.events

theorem RecountedAll.recounted (h : RecountedAll tasks w w') : Recounted tasks w w' := by
  obtain ⟨new, stories, h, _⟩ := h
  exact ⟨new, stories, h⟩

theorem Recounts.trans {new new' : List RunEntry} {stories stories' : List Story}
    (h : Recounts tasks w₁ w₂ new stories) (h' : Recounts tasks' w₂ w₃ new' stories') :
    Recounts (tasks ++ tasks') w₁ w₃ (new ++ new') (stories ++ stories') where
  adds := h.adds.trans h'.adds
  balanced := h.balanced.append h'.balanced
  tasks := by
    rw [List.map_append]
    exact h.tasks.append h'.tasks
  told := by
    unfold events
    rw [List.filterMap_append, List.flatMap_append]
    exact h.told.append h'.told

theorem RecountedAll.trans (h : RecountedAll tasks w₁ w₂) (h' : RecountedAll tasks' w₂ w₃) :
    RecountedAll (tasks ++ tasks') w₁ w₃ := by
  obtain ⟨new, stories, h, hsticky, hdone⟩ := h
  obtain ⟨new', stories', h', hsticky', hdone'⟩ := h'
  refine ⟨_, _, h.trans h', fun hc => hsticky' (hsticky hc), fun story hstory => ?_⟩
  rcases List.mem_append.mp hstory with hstory | hstory
  · exact (hdone story hstory).kept h'.adds hsticky'
  · exact hdone' story hstory

theorem RecountedAll.after (h : RecountedAll tasks w₁ w₂) (h' : Recounted tasks' w₂ w₃) :
    Recounted (tasks ++ tasks') w₁ w₃ := by
  obtain ⟨new, stories, h, _⟩ := h
  obtain ⟨new', stories', h'⟩ := h'
  exact ⟨_, _, h.trans h'⟩

/-- Tasks that were not come to have nothing to tell. -/
theorem Recounted.pad (h : Recounted tasks w w') (tasks' : List Task) :
    Recounted (tasks ++ tasks') w w' := by
  obtain ⟨new, stories, h⟩ := h
  refine ⟨new, stories ++ tasks'.map .silent, { h with tasks := ?_, told := ?_ }⟩
  · rw [List.map_append, map_task_silent]
    exact h.tasks.append_right tasks'
  · rw [List.flatMap_append, flatMap_silent, List.append_nil]
    exact h.told

theorem Recounted.perm (h : Recounted tasks w w') (hp : tasks.Perm tasks') :
    Recounted tasks' w w' := by
  obtain ⟨new, stories, h⟩ := h
  exact ⟨new, stories, { h with tasks := h.tasks.trans hp }⟩

theorem RecountedAll.perm (h : RecountedAll tasks w w') (hp : tasks.Perm tasks') :
    RecountedAll tasks' w w' := by
  obtain ⟨new, stories, h, hrest⟩ := h
  exact ⟨new, stories, { h with tasks := h.tasks.trans hp }, hrest⟩

/-- What a part accounts for it tells. -/
theorem Begins.recounted (h : Begins items w w') :
    Recounted (items.filterMap Item.task?) w w' := by
  obtain ⟨new, settled, stories, h, _, htasks⟩ := h
  exact ⟨new, stories, h.adds, h.balanced, htasks, h.told⟩

theorem Finishes.recounted (h : Finishes items w w') :
    RecountedAll (items.filterMap Item.task?) w w' := by
  obtain ⟨new, settled, stories, h, _, htasks, _, hdone⟩ := h
  exact ⟨new, stories, ⟨h.adds, h.balanced, htasks, h.told⟩, h.sticky, hdone⟩

/-- Where the writes are opened nothing is told. -/
theorem recountedAll_opened : RecountedAll [] w (w.opened plan) := by
  have hadds : Adds w (w.opened plan) [] := ⟨by simp [World.opened], by simp [World.opened], rfl⟩
  exact ⟨[], [], ⟨hadds, .nil, .nil, .nil⟩, id, by simp⟩

/-! ## The writes that are not opened -/

def closedTasks {α : Type} (task : α → Task) (slots : List (Slot α)) : List Task :=
  (slots.filter fun slot => !slot.isOpen).map fun slot => task slot.action

theorem tasks_of_slots {α : Type} (deferrals : DeferralIndex) (mk : Nat → Write)
    (relative : α → RelPath) (task : α → Task) (actions : List α) :
    (((openActions (slotsOf deferrals mk relative actions)).map fun slot => task slot.action) ++
      closedTasks task (slotsOf deferrals mk relative actions)).Perm (actions.map task) := by
  have hall : ((slotsOf deferrals mk relative actions).map fun slot => task slot.action) =
      actions.map task := by
    rw [slotsOf, List.map_map]
    have hmap : (fun slot : Slot α => task slot.action) ∘ (fun planned : α × Nat =>
        (⟨mk planned.2, planned.1, (deferrals.covering (relative planned.1)).isNone⟩ : Slot α)) =
          task ∘ Prod.fst := rfl
    rw [hmap, ← List.map_map, List.zipIdx_map_fst]
  have hsplit := (List.filter_append_perm (fun slot : Slot α => slot.isOpen)
    (slotsOf deferrals mk relative actions)).map fun slot => task slot.action
  rw [List.map_append, hall] at hsplit
  exact hsplit

/-- A write that a deferral covers is done with. -/
theorem done_of_closed {α : Type} {mk : Nat → Write} {relative : α → RelPath} {task : α → Task}
    {actions : List α} (h : ∀ action, Covered w (relative action) → (task action).Done w []) :
    ∀ t ∈ closedTasks task (slotsOf w.state.deferrals mk relative actions), t.Done w [] := by
  intro t ht
  obtain ⟨slot, hslot, rfl⟩ := List.mem_map.mp ht
  obtain ⟨hmem, hclosed⟩ := List.mem_filter.mp hslot
  obtain ⟨⟨action, index⟩, _, rfl⟩ := List.mem_map.mp hmem
  refine h action ?_
  simpa [Covered] using hclosed

def PlannedWrites.closed (writes : PlannedWrites) : List Task :=
  closedTasks .create writes.creates ++
    (closedTasks .copy writes.copies ++ closedTasks .upload writes.uploads)

/-- Each planned write is open or closed. -/
theorem owes_closed_perm (deferrals : DeferralIndex) (plan : SyncPlan) :
    ((slotsAt deferrals plan).owes.filterMap Item.task? ++ (slotsAt deferrals plan).closed).Perm
      plan.writeTasks := by
  have hcreates := tasks_of_slots deferrals .create (·.relative) .create plan.creates
  have hcopies := tasks_of_slots deferrals .copy (·.toRelative) .copy plan.copies
  have huploads := tasks_of_slots deferrals .upload (·.entry.relative) .upload plan.uploads
  rw [List.perm_iff_count] at hcreates hcopies huploads ⊢
  intro task
  have h₁ := hcreates task
  have h₂ := hcopies task
  have h₃ := huploads task
  simp only [PlannedWrites.owes, PlannedWrites.closed, SyncPlan.writeTasks, slotsAt,
    List.filterMap_append, openItems_tasks, List.count_append] at h₁ h₂ h₃ ⊢
  omega

theorem done_of_not_opened :
    ∀ t ∈ (slotsAt w.state.deferrals plan).closed, t.Done (w.opened plan) [] := by
  have hcreate : ∀ a : CreateAction, Covered (w.opened plan) a.relative →
      (Task.create a).Done (w.opened plan) [] := fun _ h => .inr h
  have hcopy : ∀ a : CopyAction, Covered (w.opened plan) a.toRelative →
      (Task.copy a).Done (w.opened plan) [] := fun _ h => .inr (.inr h)
  have hupload : ∀ a : UploadAction, Covered (w.opened plan) a.entry.relative →
      (Task.upload a).Done (w.opened plan) [] := fun _ h => .inr (.inl h)
  intro t ht
  rcases List.mem_append.mp ht with ht | ht
  · exact done_of_closed hcreate t ht
  · rcases List.mem_append.mp ht with ht | ht
    · exact done_of_closed hcopy t ht
    · exact done_of_closed hupload t ht

/-! ## The run -/

/-- The phases before the first mirror deletion. -/
theorem wp_writePhases_recounts {jobs : Nat} :
    wp env (writePhases plan jobs)
      (fun _ w' => RecountedAll (plan.openingTasks ++ plan.writeTasks) w w' ∧
        w'.state.cancelled = false)
      (fun _ w' => Recounted (plan.openingTasks ++ plan.writeTasks) w w') w := by
  rw [writePhases_eq, wp_bind]
  refine wp_mono (handles_opening env w) (fun _ w₁ h₁ => ?_) fun _ w₁ h₁ => ?_
  · have hopening : RecountedAll plan.openingTasks w w₁ := by
      have := h₁.recounted
      rwa [tasks_tasks] at this
    have hopened : RecountedAll plan.openingTasks w (w₁.opened plan) := by
      have hnothing : RecountedAll [] w₁ (w₁.opened plan) := recountedAll_opened
      have := hopening.trans hnothing
      rwa [List.append_nil] at this
    refine wp_mono wp_writes_end (fun _ w₂ h₂ => ⟨?_, h₂.2⟩) fun _ w₂ h₂ => ?_
    · have hwrites := (h₂.1.silent done_of_not_opened).recounted
      rw [List.filterMap_append, tasks_tasks] at hwrites
      exact hopened.trans (hwrites.perm (owes_closed_perm _ plan))
    · have hwrites := h₂.recounted.pad (slotsAt w₁.state.deferrals plan).closed
      exact hopened.after (hwrites.perm (owes_closed_perm _ plan))
  · have hopening := h₁.recounted
    rw [tasks_tasks] at hopening
    exact hopening.pad _

theorem wp_deletePhases_recounts :
    wp env (deletePhases plan) (fun _ w' => RecountedAll plan.deleteTasks w w')
      (fun _ w' => Recounted plan.deleteTasks w w') w := by
  refine wp_mono (handles_deletePhases env w) (fun _ w' h => ?_) fun _ w' h => ?_
  · have := h.recounted
    rwa [tasks_tasks] at this
  · have := h.recounted
    rwa [tasks_tasks] at this

theorem wp_execute_recounts {options : ExecuteOptions} (hrun : options.dryRun = false) :
    wp env (execute plan options) (fun _ w' => RecountedAll plan.tasks w w')
      (fun _ w' => Recounted plan.tasks w w') w := by
  rw [execute_run hrun, wp_bind, SyncPlan.tasks, ← List.append_assoc]
  refine wp_mono wp_writePhases_recounts (fun _ w₁ h₁ => ?_) fun _ _ h₁ => h₁.pad _
  exact wp_mono wp_deletePhases_recounts (fun _ _ h₂ => h₁.1.trans h₂) fun _ _ h₂ => h₁.1.after h₂

/-- How a mirror deletion ends. -/
inductive DeleteEnd where
  | deleted
  | skipped
  | deferred
deriving DecidableEq, Repr

/-- What the events of a deletion say of its end. A path that was left before says nothing. -/
def DeleteEnd.Of (w : World runInterface Run) (a : DeleteAction) (evs : List ExecutionEvent) :
    DeleteEnd → Prop
  | .deleted => evs = [.remoteExtraDeleted a.remotePath]
  | .skipped => ∃ reason, evs = [.remoteExtraDeleteSkipped a.remotePath a.relative reason]
  | .deferred => (evs = [] ∨ ∃ reason, evs = [.pathDeferred a.relative reason]) ∧
      a.relative ∈ w.state.deferrals.exact

/-- A deletion that is done with ended in one way. -/
theorem exists_unique_end {a : DeleteAction} {evs : List ExecutionEvent}
    (htells : (Task.postDelete a).Tells evs) (hdone : (Task.postDelete a).Done w evs)
    (hleft : ∀ reason, .pathDeferred a.relative reason ∈ evs → a.relative ∈ w.state.deferrals.exact) :
    ∃! way : DeleteEnd, way.Of w a evs := by
  cases htells with
  | silent =>
    refine ⟨.deferred, ⟨.inl rfl, hdone.resolve_left fun h => h rfl⟩, ?_⟩
    rintro (_ | _ | _) h
    · cases h
    · obtain ⟨_, h⟩ := h
      cases h
    · rfl
  | ended h =>
    cases h with
    | postDelete =>
      refine ⟨.deleted, rfl, ?_⟩
      rintro (_ | _ | _) h
      · rfl
      · obtain ⟨_, h⟩ := h
        cases h
      · obtain ⟨h | ⟨_, h⟩, _⟩ := h <;> cases h
    | skip =>
      refine ⟨.skipped, ⟨_, rfl⟩, ?_⟩
      rintro (_ | _ | _) h
      · cases h
      · rfl
      · obtain ⟨h | ⟨_, h⟩, _⟩ := h <;> cases h
  | left =>
    refine ⟨.deferred, ⟨.inr ⟨_, rfl⟩, hleft _ (.head _)⟩, ?_⟩
    rintro (_ | _ | _) h
    · cases h
    · obtain ⟨_, h⟩ := h
      cases h
    · rfl

/-- The report and the events of a run tell the same, however it ends: each counter is the number of
its events and of the operations that succeeded, and the events are the stories of the plan's tasks,
one a task. When the run succeeds each mirror deletion has ended in one way. -/
theorem executed_recounts (env : Env runInterface) (plan : SyncPlan) (options : ExecuteOptions) :
    let run := executed env plan options
    Counts run.2.state.completed run.2.log ∧
      ∃ stories : List Story, (stories.map (·.task)).Perm plan.tasks ∧
        (events run.2.log).Perm (stories.flatMap (·.events)) ∧
        (run.1 = .ok () → options.dryRun = false → ∀ story ∈ stories, ∀ a,
          story.task = .postDelete a → ∃! way : DeleteEnd, way.Of run.2 a story.events) := by
  intro run
  cases hdry : options.dryRun with
  | true =>
    have hrun : run = (.ok (), ⟨[], .start⟩) := by
      simp only [run, executed, execute, hdry]
      rfl
    rw [hrun]
    refine ⟨counts_of_summary rfl .nil, plan.tasks.map .silent, ?_, ?_, fun _ h => (by cases h)⟩
    · rw [map_task_silent]
    · rw [flatMap_silent]
      exact .nil
  | false =>
    have hwp : wp env (execute plan options)
        (fun _ w' => RecountedAll plan.tasks ⟨[], .start⟩ w')
        (fun _ w' => Recounted plan.tasks ⟨[], .start⟩ w') ⟨[], .start⟩ := wp_execute_recounts hdry
    have hcounts : ∀ {new stories}, Recounts plan.tasks ⟨[], .start⟩ run.2 new stories →
        run.2.log = new ∧ Counts run.2.state.completed run.2.log := by
      intro new stories h
      have hlog : run.2.log = new := h.adds.log
      have hbalanced : Balanced run.2.log := hlog ▸ h.balanced
      exact ⟨hlog, counts_of_summary (hlog ▸ h.adds.summary) hbalanced⟩
    cases hresult : run.1 with
    | error error =>
      have hrun : execute plan options env ⟨[], .start⟩ = (.error error, run.2) :=
        Prod.ext_iff.mpr ⟨hresult, rfl⟩
      obtain ⟨new, stories, h⟩ := wp_of_eq_error hwp hrun
      obtain ⟨hlog, hcounted⟩ := hcounts h
      exact ⟨hcounted, stories, h.tasks, hlog ▸ h.told, fun hok => (by cases hok)⟩
    | ok u =>
      have hrun : execute plan options env ⟨[], .start⟩ = (.ok u, run.2) :=
        Prod.ext_iff.mpr ⟨hresult, rfl⟩
      obtain ⟨new, stories, h, _, hdone⟩ := wp_of_eq_ok hwp hrun
      obtain ⟨hlog, hcounted⟩ := hcounts h
      have htold : (events run.2.log).Perm (stories.flatMap (·.events)) := hlog ▸ h.told
      refine ⟨hcounted, stories, h.tasks, htold, fun _ _ story hstory a ha => ?_⟩
      refine exists_unique_end (ha ▸ story.tells) (ha ▸ hdone story hstory) fun reason hreason => ?_
      have hmem : .pathDeferred a.relative reason ∈ events run.2.log :=
        htold.mem_iff.mpr (List.mem_flatMap.mpr ⟨story, hstory, hreason⟩)
      refine (h.adds.deferrals _).mpr (.inr ⟨reason, ?_⟩)
      obtain ⟨e, he, hevent⟩ := List.mem_filterMap.mp hmem
      cases e with
      | asked call reply => cases hevent
      | told event =>
        cases hevent
        exact hlog ▸ he

end Run

namespace KeptFile

open Small

/-- A run whose two deletions are skipped. -/
theorem executed_recounts_present :
    letI := charwise
    ∃ plan, buildPlan root (locals []) remoteSide noRules mirror = .ok plan ∧
      (executed answers plan ⟨1, false⟩).2.state.completed.deletesSkipped = 2 ∧
      ∃ stories : List Story, (stories.map (·.task)).Perm plan.tasks ∧
        ∀ story ∈ stories, ∀ a, story.task = .postDelete a →
          ∃! way : DeleteEnd, way.Of (executed answers plan ⟨1, false⟩).2 a story.events := by
  let := charwise
  obtain ⟨plan, hplan, hrun⟩ := Loop.exists_of_okAnd
    (x := buildPlan root (locals []) remoteSide noRules mirror)
    (p := fun plan => decide ((executed answers plan ⟨1, false⟩).1 = .ok () ∧
      (executed answers plan ⟨1, false⟩).2.state.completed.deletesSkipped = 2))
    (by decide +kernel)
  obtain ⟨hok, hskipped⟩ := of_decide_eq_true hrun
  obtain ⟨_, stories, htasks, _, hends⟩ := executed_recounts answers plan ⟨1, false⟩
  exact ⟨plan, hplan, hskipped, stories, htasks, hends hok rfl⟩

end KeptFile

/-! ## Told twice

A copy is made, and its source cannot be read again after it; and a file whose deletion is skipped
because it is back is gone again when it is to be uploaded. -/

namespace CopiedThenLeft

open Small

def source : RelPath := path [name 'a']

def target : RelPath := path [name 'b']

def copy : CopyAction :=
  ⟨source, root.path.append source, target, root.path.append target, localFile target 3, 3,
    ⟨0, some ⟨0, 0⟩⟩, ⟨.file, 3, 0, none, true⟩⟩

def plan : SyncPlan := { emptyPlan (locals []) noRules mirror [] with copies := [copy] }

def isCopy : RunEntry → Bool
  | .asked (.copyFileVerified _) _ => true
  | _ => false

/-- The source has changed once it is copied. -/
def answers : Env runInterface := fun log call =>
  match call with
  | .preflightUploadSource _ => if log.any isCopy then .error (.sourceChanged "b") else .ok ()
  | call => GoneSource.answers (.ok ()) log call

theorem not_settled_once :
    letI := charwise
    (¬∀ (env : Env runInterface) (plan : SyncPlan) (options : ExecuteOptions), ∀ a ∈ plan.copies,
      ∀ event ∈ events (executed env plan options).2.log, (Task.copy a).Ends event →
        ∀ reason, .pathDeferred a.toRelative reason ∉ events (executed env plan options).2.log) ∧
    ¬∀ (env : Env runInterface) (plan : SyncPlan) (options : ExecuteOptions),
      (executed env plan options).1 = .ok () → ∀ a ∈ plan.postDeletes, ∀ reason,
        .remoteExtraDeleteSkipped a.remotePath a.relative reason ∈
            events (executed env plan options).2.log →
          ∀ reason, .pathDeferred a.relative reason ∉ events (executed env plan options).2.log := by
  let _ := charwise
  constructor
  · intro h
    have hevents : events (executed answers plan ⟨1, false⟩).2.log =
        [.remoteContentCopied copy.fromRemotePath copy.toRemotePath copy.expectedSize,
          .pathDeferred copy.toRelative .sourceChanged] := by decide +kernel
    have hnot := h answers plan ⟨1, false⟩ copy (.head _)
    generalize events (executed answers plan ⟨1, false⟩).2.log = evs at hevents hnot
    subst hevents
    exact hnot _ (.head _) .copy .sourceChanged (.tail _ (.head _))
  · intro h
    obtain ⟨plan, _, hrun⟩ := Loop.exists_of_okAnd
      (x := buildPlan root (locals []) KeptFile.remoteSide noRules mirror)
      (p := fun plan => decide ((executed KeptFile.answers plan ⟨1, false⟩).1 = .ok () ∧
        ∃ a ∈ plan.postDeletes,
          .remoteExtraDeleteSkipped a.remotePath a.relative .localPathExists ∈
              events (executed KeptFile.answers plan ⟨1, false⟩).2.log ∧
            .pathDeferred a.relative .unsupportedLocalEntry ∈
              events (executed KeptFile.answers plan ⟨1, false⟩).2.log))
      (by decide +kernel)
    obtain ⟨hok, a, ha, hskipped, hleft⟩ := of_decide_eq_true hrun
    exact h KeptFile.answers plan ⟨1, false⟩ hok a ha _ hskipped _ hleft

end CopiedThenLeft
end DriveSync
