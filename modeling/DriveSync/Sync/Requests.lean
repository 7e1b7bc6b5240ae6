import Mathlib.Data.List.Flatten
import DriveSync.Sync.Phases

/-!
# DriveSync.Sync.Requests

What a run asks the NAS to change. Every request of a run is one the plan holds, and is sent at most
once: however often a request fails, the run does not send it again.

* `Mutation`, `SyncPlan.mutations`: a request that changes the NAS, and all that a plan holds.
* `Sends`, `Asks`: a part of a run that asks for no more than a list of them.
* `asks_uploadWorkers`: the workers send each upload of the queue once.
* `executed_asks`: a whole run, and how many deletions it can ask for.
-/

namespace DriveSync

open Path Prog

/-- A change asked of the NAS. An upload is told by where it goes: what is sent may have been read
again. -/
inductive Mutation where
  | delete (remotePath : RelPath)
  | create (remotePath : RelPath)
  | copy (action : CopyAction)
  | upload (remotePath : RelPath)
  | rename (remotePath : RelPath) (newName : Name)
deriving DecidableEq, Repr

def Call.mutation? : Call → Option Mutation
  | .deleteNonRecursive remotePath => some (.delete remotePath)
  | .createFolder remotePath => some (.create remotePath)
  | .copyFileVerified action => some (.copy action)
  | .upload _ remotePath => some (.upload remotePath)
  | .rename remotePath newName => some (.rename remotePath newName)
  | _ => none

def mutation? : RunEntry → Option Mutation
  | .asked call _ => call.mutation?
  | .told _ => none

/-- The changes a log holds requests for, whatever was answered. -/
def mutations (log : List RunEntry) : List Mutation := log.filterMap mutation?

def Mutation.isDelete : Mutation → Bool
  | .delete _ => true
  | _ => false

/-- A server-side copy, and the upload that may take its place. -/
def CopyAction.mutations (action : CopyAction) : List Mutation :=
  [.copy action, .upload action.toRemotePath]

/-- A mirror deletion, and the upload over an entry that was kept. -/
def SyncPlan.mutations (plan : SyncPlan) : List Mutation :=
  plan.preDeletes.map (.delete ·.remotePath) ++
    (plan.creates.map (.create ·.remotePath) ++
      (plan.copies.flatMap CopyAction.mutations ++
        (plan.uploads.map (.upload ·.remotePath) ++
          (plan.postDeletes.map (.delete ·.remotePath) ++
            (plan.postDeletes.map (.upload ·.remotePath) ++
              plan.renames.map fun action => .rename action.fromRemotePath action.newName)))))

theorem mutation?_eq_none {call : Call} (h : call.mutates = false) : call.mutation? = none := by
  cases call with
  | deleteNonRecursive | createFolder | copyFileVerified | upload | rename => cases h
  | _ => rfl

theorem mutations_append (log log' : List RunEntry) :
    mutations (log ++ log') = mutations log ++ mutations log' := List.filterMap_append

section Run

variable [Unicode] {α β : Type} {env : Env runInterface} {w w' : World runInterface Run}
  {plan : SyncPlan} {sent sent' : List Mutation}

/-! ## What a part of a run asks for -/

/-- A part of a run from `w` to `w'` asked for each change at most as often as `sent` holds it. -/
def Sends (sent : List Mutation) (w w' : World runInterface Run) : Prop :=
  ∃ new, w'.log = w.log ++ new ∧ ∀ m, (mutations new).count m ≤ sent.count m

abbrev Asks (sent : List Mutation) (p : Exec α) : Prop := Spends Sends Sends sent p

theorem Sends.trans {w₁ w₂ w₃ : World runInterface Run} (h : Sends sent w₁ w₂)
    (h' : Sends sent' w₂ w₃) : Sends (sent ++ sent') w₁ w₃ := by
  obtain ⟨new, hlog, hle⟩ := h
  obtain ⟨new', hlog', hle'⟩ := h'
  refine ⟨new ++ new', by rw [hlog', hlog, List.append_assoc], ?_⟩
  intro m
  have := hle m
  have := hle' m
  rw [mutations_append, List.count_append, List.count_append]
  omega

theorem Sends.mono (h : Sends sent w w') (hle : ∀ m, sent.count m ≤ sent'.count m) :
    Sends sent' w w' := by
  obtain ⟨new, hlog, hnew⟩ := h
  exact ⟨new, hlog, fun m => Nat.le_trans (hnew m) (hle m)⟩

instance : Graded (I := runInterface) (σ := Run) Sends Sends where
  refl w := ⟨[], by simp, by simp [mutations]⟩
  fails h := h
  trans := Sends.trans
  after := Sends.trans
  pad sent' h := h.mono fun m => by simp

theorem Asks.mono {p : Exec α} (h : Asks sent p) (hle : ∀ m, sent.count m ≤ sent'.count m) :
    Asks sent' p := fun env w =>
  wp_mono (h env w) (fun _ _ h' => h'.mono hle) fun _ _ h' => h'.mono hle

/-- A part that asks for nothing may be allowed anything. -/
theorem Asks.idle {p : Exec α} (h : Asks [] p) : Asks sent p := h.mono fun m => by simp

theorem Asks.sublist {p : Exec α} (h : Asks sent p) (hsub : sent.Sublist sent') : Asks sent' p :=
  h.mono fun m => hsub.count_le m

/-- A report. -/
def Reports (e : RunEntry) : Prop := mutation? e = none

/-- What reads and reports asks for nothing. -/
theorem Failed.sends (h : Failed Reports w w') : Sends [] w w' := by
  obtain ⟨new, hadds, hacts⟩ := h
  refine ⟨new, hadds.log, fun m => ?_⟩
  have hnil : mutations new = [] := by
    refine List.filterMap_eq_nil_iff.mpr fun e he => ?_
    rcases hacts e he with hquiet | hreports
    · cases e with
      | told event => cases hquiet
      | asked call reply => exact mutation?_eq_none hquiet
    · exact hreports
  simp [hnil]

theorem asks_of_does {p : Exec α} (h : Does Reports p) : Asks [] p := fun env w =>
  wp_mono (h env w) (fun _ _ h' => h'.failed.sends) fun _ _ h' => h'.sends

/-- A request, and what follows each answer. -/
theorem asks_request {call : Call} {f : call.Reply → Exec α} {m : Mutation}
    (hcall : call.mutation? = some m) (h : ∀ reply, Asks sent (f reply)) :
    Asks (m :: sent) (request call >>= f) := by
  intro env w
  have hasked : Sends [m] w (w.push (.asked call (env w.log call))) := by
    refine ⟨[.asked call (env w.log call)], rfl, fun m' => ?_⟩
    simp [mutations, mutation?, hcall]
  rw [wp_bind, wp_request]
  exact wp_mono (h _ env _) (fun _ _ h' => hasked.trans h') fun _ _ h' => hasked.trans h'

/-- A call that only reads, and what follows each answer. -/
theorem asks_read {call : Call} {f : call.Reply → Exec α} (hcall : call.mutates = false)
    (h : ∀ reply, Asks sent (f reply)) : Asks sent (request call >>= f) := by
  intro env w
  have hasked : Sends [] w (w.push (.asked call (env w.log call))) := by
    refine ⟨[.asked call (env w.log call)], rfl, fun m => ?_⟩
    simp [mutations, mutation?, mutation?_eq_none hcall]
  rw [wp_bind, wp_request]
  exact wp_mono (h _ env _) (fun _ _ h' => hasked.trans h') fun _ _ h' => hasked.trans h'

theorem asks_lift {r : Except ExecError α} : Asks [] (lift r) := by
  cases r with
  | ok a => exact spends_pure
  | error e => exact spends_fail

theorem asks_report {event : ExecutionEvent} : Asks [] (report event) := fun _ _ =>
  ⟨[.told event], rfl, fun _ => Nat.le_of_eq rfl⟩

theorem asks_count {f : ExecutionReport → ExecutionReport} : Asks [] (count f) := fun _ w =>
  ⟨[], by simp, fun m => by simp [mutations]⟩

theorem asks_settle {write : Write} {settlement : Settlement} : Asks [] (settle write settlement) :=
  asks_of_does does_settle

theorem asks_checkCancelled : Asks [] checkCancelled := asks_of_does does_checkCancelled

theorem asks_checkBreaker : Asks [] checkBreaker := asks_of_does does_checkBreaker

theorem asks_defer {relative : RelPath} {reason : DeferReason} {detail : String} :
    Asks [] (defer relative reason detail) := asks_of_does (does_defer rfl)

theorem asks_deferLocal {relative : RelPath} {error : ExecError} :
    Asks [] (deferLocal relative error) := asks_of_does (does_deferLocal fun _ => rfl)

omit [Unicode] in
theorem map_fst_zip_sublist (actions : List α) (verdicts : List β) :
    ((actions.zip verdicts).map Prod.fst).Sublist actions := by
  induction actions generalizing verdicts with
  | nil => simp
  | cons action actions ih =>
    cases verdicts with
    | nil => simp
    | cons verdict verdicts => simpa using ih verdicts

/-- What the entries of a plan are asked for by, whatever verdict stands beside each. -/
theorem asks_zip {γ : Type} {asked : α → List Mutation} {actions : List α} {verdicts : List β}
    {body : γ → α × β → Exec γ} (h : ∀ c planned, Asks (asked planned.1) (body c planned)) (c : γ) :
    Asks (actions.flatMap asked) ((actions.zip verdicts).foldlM body c) := by
  have hall : Asks ((actions.zip verdicts).flatMap fun planned => asked planned.1)
      ((actions.zip verdicts).foldlM body c) :=
    spends_foldlM _ (fun c planned _ => h c planned) c
  refine hall.sublist ?_
  have hmap : ((actions.zip verdicts).flatMap fun planned => asked planned.1) =
      ((actions.zip verdicts).map Prod.fst).flatMap asked := by rw [List.flatMap_map]
  rw [hmap]
  exact (map_fst_zip_sublist actions verdicts).flatMap asked

/-! ## Sources, type conflicts and creates -/

theorem asks_preflight : Asks [] (preflight plan) :=
  asks_of_does (does_preflight (fun _ _ _ => rfl) fun _ _ _ => rfl)

theorem asks_preDeleteOne {kept : KeptSet} {planned : DeleteAction × SnapshotVerdict} :
    Asks [.delete planned.1.remotePath] (preDeleteOne kept planned) := by
  refine asks_checkCancelled.then fun _ =>
    (asks_of_does does_preDeleteChanged).then fun changed => ?_
  split
  · exact Asks.idle (asks_defer.then fun _ => spends_pure)
  · refine asks_request rfl fun reply => asks_lift.then fun _ => ?_
    exact asks_count.then fun _ => asks_report.then fun _ => spends_pure

theorem asks_preDeletePhase :
    Asks (plan.preDeletes.map (.delete ·.remotePath)) (preDeletePhase plan) := by
  refine spends_get.then fun run => asks_read rfl fun reply => asks_lift.then fun verdicts => ?_
  refine Spends.last ?_ fun _ => spends_pure
  have hall : Asks ((plan.preDeletes.filter fun action =>
      (run.deferrals.covering action.relative).isNone).flatMap fun action =>
        [.delete action.remotePath])
      (((plan.preDeletes.filter fun action =>
        (run.deferrals.covering action.relative).isNone).zip verdicts.list).foldlM preDeleteOne ∅) :=
    asks_zip (fun _ _ => asks_preDeleteOne) ∅
  rw [List.map_eq_flatMap]
  exact hall.sublist (List.filter_sublist.flatMap _)

theorem asks_createOne {slot : Slot CreateAction} :
    Asks (if slot.isOpen then [.create slot.action.remotePath] else []) (createOne slot) := by
  refine asks_checkCancelled.then fun _ => ?_
  cases hopen : slot.isOpen with
  | false => exact spends_pure
  | true =>
    simp only [Bool.not_true, Bool.false_eq_true, if_false, if_true]
    refine (asks_of_does does_covering).then fun covered => ?_
    split
    · exact Asks.idle (asks_settle.then fun _ => asks_checkBreaker)
    · refine asks_request rfl fun reply => ?_
      rcases reply with e | ⟨⟩
      · cases e with
        | remoteRefused operation path code description =>
          exact asks_settle.then fun _ => asks_defer.then fun _ => asks_checkBreaker
        | _ => exact spends_fail
      · exact asks_settle.then fun _ => asks_count.then fun _ => asks_report

/-! ## Server-side copies -/

theorem asks_excludeCopy {slot : Slot CopyAction} {leave : Exec Unit} (h : Asks [] leave) :
    Asks [] (excludeCopy slot leave) :=
  asks_settle.then fun _ => h.then fun _ => asks_checkBreaker

theorem asks_copyFallback {slot : Slot CopyAction} {copyError : ExecError} :
    Asks [.upload slot.action.toRemotePath] (copyFallback slot copyError) := by
  refine (asks_of_does does_uploadPreconditionHolds).then fun holds => ?_
  split
  · refine asks_request rfl fun reply => ?_
    rcases reply with e | ⟨⟩
    · exact asks_settle.then fun _ => asks_deferLocal.then fun _ =>
        asks_checkBreaker.then fun _ => spends_pure
    · exact asks_settle.then fun _ => asks_count.then fun _ =>
        asks_report.then fun _ => spends_pure
  · exact Asks.idle ((asks_excludeCopy asks_defer).then fun _ => spends_pure)

/-- The server is asked for a copy once, and an upload takes its place once. -/
theorem asks_copyVerified {slot : Slot CopyAction} :
    Asks slot.action.mutations (copyVerified slot) := by
  refine asks_request rfl fun reply => ?_
  rcases reply with e | ⟨⟩
  · cases e with
    | serverCopyNotStarted => exact asks_copyFallback
    | serverCopyFailed destination detail => exact asks_copyFallback
    | _ => exact spends_fail
  · refine Asks.idle ?_
    refine asks_settle.then fun _ => asks_count.then fun _ => asks_report.then fun _ => ?_
    refine asks_read rfl fun reply => ?_
    rcases reply with e | ⟨⟩
    · exact asks_deferLocal.then fun _ => spends_pure
    · exact spends_pure

theorem asks_copyOne {copied : List CopyAction} {planned : Slot CopyAction × SnapshotVerdict} :
    Asks planned.1.action.mutations (copyOne copied planned) := by
  refine asks_checkCancelled.then fun _ =>
    (asks_of_does (does_copyBlocked fun _ => rfl)).then fun blocked => ?_
  cases blocked with
  | true => exact Asks.idle spends_pure
  | false => exact asks_copyVerified.last fun _ => spends_pure

theorem asks_copies {slots : List (Slot CopyAction)} {verdicts : List SnapshotVerdict} :
    Asks (slots.flatMap fun slot => slot.action.mutations)
      ((slots.zip verdicts).foldlM copyOne []) :=
  asks_zip (fun _ _ => asks_copyOne) []

theorem asks_copyPhase {slots : List (Slot CopyAction)} :
    Asks ((openActions slots).flatMap fun slot => slot.action.mutations) (copyPhase plan slots) := by
  refine asks_read rfl fun reply => asks_lift.then fun verdicts => ?_
  refine asks_copies.last fun copied => ?_
  refine asks_read rfl fun reply => asks_lift.then fun verdicts => ?_
  exact spends_forM_nil _ fun _ _ => asks_of_does does_verifyCopied

/-! ## The upload workers -/

/-- The change an upload of the queue asks for. -/
def Job.mutation (job : Job) : Mutation := .upload job.action.remotePath

/-- The job a worker holds and has not sent. -/
def Stage.unsent? : Stage → Option Job
  | .checking job => some job
  | .ready job => some job
  | .sending job => some job
  | _ => none

/-- The jobs no worker has sent. -/
def Pool.unsent (pool : Pool) : List Job := pool.queue ++ pool.stages.filterMap Stage.unsent?

omit [Unicode] in
theorem Pool.count_unsent {pool : Pool} {before after : List Stage} {stage : Stage} (m : Mutation)
    (h : pool.stages = before ++ stage :: after) :
    (pool.unsent.map Job.mutation).count m = (pool.queue.map Job.mutation).count m +
      (((before.filterMap Stage.unsent?).map Job.mutation).count m +
        ((stage.unsent?.toList.map Job.mutation).count m +
          ((after.filterMap Stage.unsent?).map Job.mutation).count m)) := by
  rw [Pool.unsent, h, List.map_append, List.count_append, List.filterMap_append, List.map_append,
    List.count_append, List.filterMap_cons]
  cases stage.unsent? with
  | none => simp
  | some job => simp [List.count_cons]; omega

theorem Look.mutations_eq {pool : Pool} {goes : Bool} {entries : List RunEntry}
    (h : Look pool w goes w' entries) : mutations entries = [] := by
  cases h with
  | stopped => rfl
  | cancelled | goes => rfl

theorem Collected.mutations_eq {job : Job} {outcome : UploadOutcome} {entries : List RunEntry}
    (h : Collected w job outcome w' entries) : mutations entries = [] := by
  cases h <;> rfl

/-- What a worker sends in one turn is a job it held. -/
theorem Turn.count_le {pool next : Pool} {stage stage' : Stage} {entries : List RunEntry}
    {dropped : List Job} (h : Turn pool w stage stage' next w' entries dropped) (m : Mutation) :
    (mutations entries).count m + ((next.queue.map Job.mutation).count m +
      (stage'.unsent?.toList.map Job.mutation).count m) ≤
        (pool.queue.map Job.mutation).count m + (stage.unsent?.toList.map Job.mutation).count m := by
  cases h with
  | leaveIdle h => simp [h.mutations_eq, Stage.unsent?]
  | goIdle h => simp [h.mutations_eq, Stage.unsent?]
  | leaveReady h => simp [h.mutations_eq, Stage.unsent?]
  | goReady h => simp [h.mutations_eq, Stage.unsent?]
  | took hqueue => simp [mutations, hqueue, Stage.unsent?, List.count_cons]
  | answered reply =>
    simp [mutations, mutation?, Call.mutation?, Stage.unsent?, Job.mutation]
    omega
  | holds state =>
    show 0 + _ ≤ _
    simp [Stage.unsent?]
  | changed state detail =>
    show 0 + _ ≤ _
    simp [Stage.unsent?]
  | unread error =>
    show 0 + _ ≤ _
    simp [Stage.unsent?]
  | _ => simp [mutations, Stage.unsent?]

/-- What the workers sent and what they still hold is what the queue held. -/
def Unsent (jobs : List Job) (w₀ : World runInterface Run) (pool : Pool)
    (w : World runInterface Run) : Prop :=
  ∃ new, w.log = w₀.log ++ new ∧ ∀ m, (mutations new).count m +
    (pool.unsent.map Job.mutation).count m ≤ (jobs.map Job.mutation).count m

theorem Move.log_eq {pool pool' : Pool} {entries : List RunEntry}
    {done : List (Job × UploadOutcome)} {dropped : List Job}
    (h : Move pool w pool' w' entries done dropped) : w'.log = w.log ++ entries := by
  cases h with
  | worker hstages h => exact h.adds.log
  | collector hchannel h => exact h.adds.log

theorem Unsent.move {jobs : List Job} {w₀ : World runInterface Run} {pool pool' : Pool}
    {entries : List RunEntry} {done : List (Job × UploadOutcome)} {dropped : List Job}
    (h : Unsent jobs w₀ pool w) (hm : Move pool w pool' w' entries done dropped) :
    Unsent jobs w₀ pool' w' := by
  obtain ⟨new, hlog, hle⟩ := h
  refine ⟨new ++ entries, by rw [hm.log_eq, hlog, List.append_assoc], ?_⟩
  intro m
  have hbefore := hle m
  rw [mutations_append, List.count_append]
  cases hm with
  | @worker before after stage stage' next _ _ _ hstages hturn =>
    have hcount := hturn.count_le m
    rw [Pool.count_unsent m hstages] at hbefore
    rw [Pool.count_unsent m rfl]
    dsimp only
    omega
  | collector hchannel hcollected =>
    rw [hcollected.mutations_eq]
    simpa [Pool.unsent] using hbefore

/-- Each upload of the queue is sent at most once, whatever turns the workers take. -/
theorem asks_uploadWorkers {workers : Nat} {jobs : List Job} :
    Asks (jobs.map Job.mutation) (uploadWorkers workers jobs) := by
  intro env w
  unfold uploadWorkers
  split
  · exact ⟨[], by simp, by simp [mutations]⟩
  · rw [wp_bind]
    have hstart : Unsent jobs w (.start jobs (min (max 1 (min workers 16)) jobs.length)) w := by
      refine ⟨[], by simp, fun m => ?_⟩
      simp [mutations, Pool.unsent, Pool.start, List.filterMap_replicate, Stage.unsent?]
    refine wp_mono (wp_runPool (I := Unsent jobs w) (fun _ _ _ _ _ _ _ h hm => h.move hm)
      (fun pool w' parties turn h => ?_)
      (poolTurns jobs (min (max 1 (min workers 16)) jobs.length)) hstart
      (Nat.le_of_eq Pool.measure_start)) (fun pool w' h => ?_) fun _ _ h => h.elim
    rotate_left
    · obtain ⟨⟨new, hlog, hle⟩, _⟩ := h
      have hsends : Sends (jobs.map Job.mutation) w w' :=
        ⟨new, hlog, fun m => Nat.le_trans (Nat.le_add_right _ _) (hle m)⟩
      dsimp only
      split <;> exact hsends
    · obtain ⟨new, hlog, hle⟩ := h
      refine ⟨new ++ [.asked (.schedule parties) turn], by simp [hlog], fun m => ?_⟩
      rw [mutations_append, List.count_append]
      exact hle m

/-! ## The planned writes -/

theorem openActions_slotsOf_sublist {deferrals : DeferralIndex} {mk : Nat → Write}
    (relative : α → RelPath) {actions : List α} :
    ((openActions (slotsOf deferrals mk relative actions)).map (·.action)).Sublist actions := by
  have hall : (slotsOf deferrals mk relative actions).map (·.action) = actions := by
    rw [slotsOf, List.map_map]
    exact List.zipIdx_map_fst 0 actions
  conv_rhs => rw [← hall]
  exact List.filter_sublist.map _

/-- Closing slots leaves fewer of them open. -/
theorem returns_excludeCovered_sublist {relative : α → RelPath} {slots : List (Slot α)} :
    Returns (fun slots' => ((openActions slots').map (·.action)).Sublist
      ((openActions slots).map (·.action))) (excludeCovered relative slots) := by
  refine returns_bind fun run => returns_bind fun _ => returns_pure ?_
  show ((openActions (closeSlots _ slots)).map (·.action)).Sublist _
  rw [openActions_closeSlots]
  exact List.filter_sublist.map _

theorem asks_excludeCovered {relative : α → RelPath} {slots : List (Slot α)} :
    Asks [] (excludeCovered relative slots) := asks_of_does does_excludeCovered

omit [Unicode] in
theorem creates_flatMap {slots : List (Slot CreateAction)} :
    (slots.flatMap fun slot => if slot.isOpen then [Mutation.create slot.action.remotePath] else []) =
      ((openActions slots).map (·.action)).map (.create ·.remotePath) := by
  induction slots with
  | nil => rfl
  | cons slot slots ih =>
    rw [List.flatMap_cons, ih, openActions, openActions, List.filter_cons]
    cases slot.isOpen <;> simp

/-- What the open writes are asked for by. -/
def PlannedWrites.mutations (writes : PlannedWrites) : List Mutation :=
  ((openActions writes.creates).map (·.action)).map (.create ·.remotePath) ++
    (((openActions writes.copies).map (·.action)).flatMap CopyAction.mutations ++
      ((openActions writes.uploads).map (·.action)).map (.upload ·.remotePath))

theorem asks_openedWrites {jobs : Nat} {writes : PlannedWrites} :
    Asks writes.mutations (openedWrites plan jobs writes) := by
  have hcreates : Asks (((openActions writes.creates).map (·.action)).map (.create ·.remotePath))
      (writes.creates.forM createOne) := by
    rw [← creates_flatMap]
    exact spends_forM _ fun _ _ => asks_createOne
  have hcopies : ∀ copies : List (Slot CopyAction), ((openActions copies).map (·.action)).Sublist
      ((openActions writes.copies).map (·.action)) →
      Asks (((openActions writes.copies).map (·.action)).flatMap CopyAction.mutations)
        (copyPhase plan copies) := by
    intro copies hsub
    have hphase : Asks ((openActions copies).flatMap fun slot => slot.action.mutations)
      (copyPhase plan copies) := asks_copyPhase
    refine hphase.sublist ?_
    have hmap := hsub.flatMap CopyAction.mutations
    rwa [List.flatMap_map] at hmap
  have huploads : ∀ uploads : List (Slot UploadAction),
      ((openActions uploads).map (·.action)).Sublist ((openActions writes.uploads).map (·.action)) →
      Asks (((openActions writes.uploads).map (·.action)).map (.upload ·.remotePath))
        (uploadWorkers jobs ((openActions uploads).map fun slot => ⟨slot.write, slot.action⟩)) := by
    intro uploads hsub
    refine asks_uploadWorkers.sublist ?_
    rw [List.map_map]
    have hmap := hsub.map fun action : UploadAction => Mutation.upload action.remotePath
    rw [List.map_map] at hmap
    exact hmap
  refine hcreates.bind fun _ => ?_
  refine asks_excludeCovered.then_returns returns_excludeCovered_sublist fun copies hsub => ?_
  refine asks_excludeCovered.then_returns returns_excludeCovered_sublist fun uploads hsub' => ?_
  refine asks_checkBreaker.then fun _ => (hcopies copies hsub).bind fun _ => ?_
  refine asks_excludeCovered.then_returns returns_excludeCovered_sublist fun uploads' hsub'' => ?_
  refine asks_checkBreaker.then fun _ => ?_
  exact (huploads uploads' (hsub''.trans hsub')).last fun _ => asks_checkBreaker

theorem asks_plannedWrites {jobs : Nat} :
    Asks (plan.creates.map (.create ·.remotePath) ++ (plan.copies.flatMap CopyAction.mutations ++
      plan.uploads.map (.upload ·.remotePath))) (plannedWrites plan jobs) := by
  have hopen : Returns (fun writes => ∃ deferrals, writes = slotsAt deferrals plan)
      (openWrites plan) := by
    intro env w
    exact ⟨_, rfl⟩
  refine (asks_of_does does_openWrites).then_returns hopen fun writes hwrites => ?_
  obtain ⟨deferrals, rfl⟩ := hwrites
  have hall : Asks (slotsAt deferrals plan).mutations
    (openedWrites plan jobs (slotsAt deferrals plan)) := asks_openedWrites
  refine hall.sublist ?_
  refine List.Sublist.append ?_ (List.Sublist.append ?_ ?_)
  · exact (openActions_slotsOf_sublist fun action : CreateAction => action.relative).map _
  · exact (openActions_slotsOf_sublist fun action : CopyAction => action.toRelative).flatMap _
  · exact (openActions_slotsOf_sublist fun action : UploadAction => action.entry.relative).map _

/-! ## Mirror deletions, kept files and renames -/

theorem asks_postDelete {kept : Kept} {action : DeleteAction} :
    Asks [.delete action.remotePath] (postDelete kept action) := by
  refine asks_request rfl fun reply => ?_
  rcases reply with e | ⟨⟩
  · refine asks_defer.then fun _ => ?_
    split
    · exact spends_fail
    · exact spends_pure
  · exact asks_count.then fun _ => asks_report.then fun _ => spends_pure

theorem asks_skipDelete {action : DeleteAction} {reason : DeleteKeptReason} :
    Asks [] (skipDelete action reason) := asks_count.then fun _ => asks_report

theorem asks_postDeleteOne {kept : Kept} {planned : DeleteAction × Bool} :
    Asks [.delete planned.1.remotePath] (postDeleteOne kept planned) := by
  refine asks_checkCancelled.then fun _ => (asks_of_does does_deleteRuling).then fun ruling => ?_
  cases ruling with
  | keptDescendant => exact Asks.idle (asks_skipDelete.then fun _ => spends_pure)
  | related other reason => exact Asks.idle (asks_defer.then fun _ => spends_pure)
  | present spelling => exact Asks.idle (asks_skipDelete.then fun _ => spends_pure)
  | deferred reason detail => exact Asks.idle (asks_defer.then fun _ => spends_pure)
  | proceed => exact asks_postDelete

theorem asks_postDeletePhase :
    Asks (plan.postDeletes.map (.delete ·.remotePath)) (postDeletePhase plan) := by
  refine (asks_of_does does_judgeDeletes).then_returns returns_judgeDeletes
    fun deletes hdeletes => ?_
  have hall : Asks (deletes.flatMap fun planned => [.delete planned.1.remotePath])
      (deletes.foldlM postDeleteOne ⟨∅, ∅⟩) :=
    spends_foldlM deletes (fun _ _ _ => asks_postDeleteOne) ⟨∅, ∅⟩
  rw [← hdeletes, List.map_map, List.map_eq_flatMap]
  exact hall

/-- The upload over the entry whose deletion was kept for a path. -/
def followUpMutations (plan : SyncPlan) (relative : RelPath) : List Mutation :=
  (keptUploadTarget plan relative).toList.map (.upload ·.remotePath)

theorem asks_followUpUpload {relative : RelPath} {entry : LocalEntry} {target : DeleteAction} :
    Asks [.upload target.remotePath] (followUpUpload relative entry target) := by
  have hread : Asks [] (do
      let entry ← promoteToFullFingerprint entry
      lift (← request (.preflightUploadReadable entry))
      return entry) := by
    refine Spends.then ?_ fun entry => asks_read rfl fun reply => asks_lift.then fun _ => spends_pure
    unfold promoteToFullFingerprint
    split
    · exact spends_pure
    · exact asks_read rfl fun reply => asks_lift.then fun _ => spends_pure
  have hattempt : Asks [] (attempt (do
      let entry ← promoteToFullFingerprint entry
      lift (← request (.preflightUploadReadable entry))
      return entry)) := by
    intro env w
    rw [wp_attempt]
    exact hread env w
  refine hattempt.then fun result => ?_
  rcases result with e | entry
  · exact Asks.idle asks_deferLocal
  · refine (asks_of_does does_uploadPreconditionHolds).then fun holds => ?_
    split
    · refine asks_request rfl fun reply => ?_
      rcases reply with e | ⟨⟩
      · exact asks_deferLocal
      · exact asks_count.then fun _ => asks_report
    · exact Asks.idle asks_defer

theorem asks_leaveVanished {relative spelling : RelPath} :
    Asks [] (leaveVanished plan relative spelling) := by
  refine asks_read rfl fun reply => ?_
  rcases reply with ⟨kind, source⟩ | ⟨⟩
  · cases kind with
    | notFound => exact asks_defer
    | _ => exact asks_deferLocal
  · exact asks_defer

theorem asks_followUpOne {reappeared : RelPath × RelPath} :
    Asks (followUpMutations plan reappeared.1) (followUpOne plan reappeared) := by
  obtain ⟨relative, spelling⟩ := reappeared
  refine asks_checkCancelled.then fun _ => asks_read rfl fun reply => ?_
  rcases reply with e | entry
  · exact Asks.idle asks_deferLocal
  · cases entry with
    | none => exact Asks.idle asks_leaveVanished
    | some entry =>
      dsimp only
      split
      · exact Asks.idle spends_pure
      · split
        · exact Asks.idle asks_defer
        · split
          · exact Asks.idle spends_pure
          · rename_i target htarget
            rw [followUpMutations, htarget]
            exact asks_followUpUpload

omit [Unicode] in
/-- The uploads over kept entries, one a path, are among those of the plan's deletions. -/
theorem count_followUps {relatives : List RelPath} (hnodup : relatives.Nodup) (m : Mutation) :
    (relatives.flatMap (followUpMutations plan)).count m ≤
      (plan.postDeletes.map fun action => Mutation.upload action.remotePath).count m := by
  have htargets : (relatives.flatMap fun relative =>
      (keptUploadTarget plan relative).toList).Nodup := by
    rw [List.nodup_flatMap]
    constructor
    · intro relative _
      cases keptUploadTarget plan relative <;> simp
    · refine hnodup.imp ?_
      intro a b hne
      show List.Disjoint _ _
      rw [List.disjoint_left]
      intro target ha hb
      have hfound := (of_keptUploadTarget (Option.mem_toList.mp ha)).2
      have hfound' := (of_keptUploadTarget (Option.mem_toList.mp hb)).2
      exact hne (hfound.symm.trans hfound')
  have hsubset : (relatives.flatMap fun relative =>
      (keptUploadTarget plan relative).toList) ⊆ plan.postDeletes := by
    intro target htarget
    obtain ⟨relative, _, hmem⟩ := List.mem_flatMap.mp htarget
    exact (of_keptUploadTarget (Option.mem_toList.mp hmem)).1
  have hmap : relatives.flatMap (followUpMutations plan) =
      (relatives.flatMap fun relative => (keptUploadTarget plan relative).toList).map
        fun action => Mutation.upload action.remotePath := by
    rw [List.map_flatMap]
    rfl
  rw [hmap]
  obtain ⟨l, hperm, hsub⟩ := List.subperm_of_subset htargets hsubset
  rw [← (hperm.map _).count_eq]
  exact (hsub.map _).count_le m

theorem asks_followUpPhase {kept : Kept} :
    Asks (plan.postDeletes.map (.upload ·.remotePath)) (followUpPhase plan kept) := by
  have hall : Asks (kept.reappeared.toList.flatMap fun reappeared =>
      followUpMutations plan reappeared.1) (followUpPhase plan kept) :=
    spends_forM _ fun _ _ => asks_followUpOne
  refine hall.mono fun m => ?_
  have hnodup : (kept.reappeared.toList.map Prod.fst).Nodup := by
    rw [Std.TreeMap.map_fst_toList_eq_keys]
    exact kept.reappeared.nodup_keys
  have hcount : ((kept.reappeared.toList.map Prod.fst).flatMap (followUpMutations plan)).count m ≤
      (plan.postDeletes.map fun action => Mutation.upload action.remotePath).count m :=
    count_followUps hnodup m
  rwa [List.flatMap_map] at hcount

theorem asks_renameOne {action : RenameAction} :
    Asks [.rename action.fromRemotePath action.newName] (renameOne action) := by
  refine asks_checkCancelled.then fun _ => spends_get.then fun run => ?_
  split
  · exact Asks.idle asks_defer
  · refine asks_request rfl fun reply => ?_
    rcases reply with e | renamed
    · dsimp only
      split
      · exact spends_fail
      · exact asks_defer
    · exact asks_count.then fun _ => asks_report

theorem asks_executeRenames :
    Asks (plan.renames.map fun action => .rename action.fromRemotePath action.newName)
      (executeRenames plan) := by
  unfold executeRenames
  split
  · exact Asks.idle spends_pure
  · refine asks_read rfl fun supported => ?_
    split
    · rw [List.map_eq_flatMap]
      exact spends_forM _ fun _ _ => asks_renameOne
    · exact Asks.idle (spends_forM_nil _ fun _ _ => asks_defer)

/-! ## The whole run -/

theorem asks_execute {options : ExecuteOptions} : Asks plan.mutations (execute plan options) := by
  unfold execute
  split
  · exact Asks.idle spends_pure
  · have hwrites : Asks (plan.preDeletes.map (.delete ·.remotePath) ++
        (plan.creates.map (.create ·.remotePath) ++ (plan.copies.flatMap CopyAction.mutations ++
          plan.uploads.map (.upload ·.remotePath)))) (writePhases plan options.jobs) :=
      asks_preflight.then fun _ => asks_preDeletePhase.bind fun _ =>
        asks_plannedWrites.last fun _ => asks_checkCancelled
    have hdeletes : Asks (plan.postDeletes.map (.delete ·.remotePath) ++
        (plan.postDeletes.map (.upload ·.remotePath) ++
          plan.renames.map fun action => .rename action.fromRemotePath action.newName))
        (deletePhases plan) :=
      asks_postDeletePhase.bind fun _ => asks_followUpPhase.bind fun _ => asks_executeRenames
    have hall := hwrites.bind fun _ => hdeletes
    rw [SyncPlan.mutations]
    simpa only [List.append_assoc] using hall

/-- What an upload sends, and where: a planned upload, the upload in a copy's place, or a file read
again over the entry whose deletion was kept for it. -/
def Sourced (plan : SyncPlan) : RunEntry → Prop
  | .asked (.upload entry remotePath) _ =>
    (∃ a ∈ plan.uploads, a.entry = entry ∧ a.remotePath = remotePath) ∨
      (∃ a ∈ plan.copies, a.entry = entry ∧ a.toRemotePath = remotePath) ∨
        ∃ a ∈ plan.postDeletes, a.remotePath = remotePath
  | _ => True

theorem does_execute {options : ExecuteOptions} :
    Does (Sourced plan) (execute plan options) := by
  unfold execute
  split
  · exact takes_pure
  · have hplanned : Does (Sourced plan) (plannedWrites plan options.jobs) := fun env w =>
      wp_plannedWrites
        ⟨fun _ _ _ => ⟨fun _ => trivial, trivial, fun _ => trivial⟩,
          fun a ha _ => ⟨fun _ => trivial, trivial, fun _ => .inr (.inl ⟨a, ha, rfl, rfl⟩), trivial,
            fun _ => trivial⟩,
          fun a ha _ => ⟨fun _ => .inl ⟨a, ha, rfl, rfl⟩, trivial, fun _ => trivial⟩⟩
    have hwrites : Does (Sourced plan) (writePhases plan options.jobs) :=
      (does_preflight (fun _ _ _ => trivial) fun _ _ _ => trivial).bind fun _ =>
        (does_preDeletePhase fun _ _ => ⟨fun _ => trivial, trivial, fun _ => trivial⟩).bind fun _ =>
          hplanned.bind fun _ => does_checkCancelled
    refine hwrites.bind fun _ => does_deletePhases ?_ ?_ ?_
    · exact fun a _ => ⟨⟨fun _ => trivial, trivial, fun _ => trivial⟩, fun _ => trivial⟩
    · exact fun a ha => ⟨fun _ _ => .inr (.inr ⟨a, ha, rfl⟩), fun _ => trivial⟩
    · exact fun a _ => ⟨fun _ => trivial, fun _ => trivial, fun _ => trivial⟩

theorem mutations_executed (env : Env runInterface) (plan : SyncPlan) (options : ExecuteOptions) :
    (mutations (executed env plan options).2.log).Subperm plan.mutations := by
  have hall : Sends plan.mutations ⟨[], .start⟩ (executed env plan options).2 :=
    of_wp (asks_execute env ⟨[], .start⟩)
  obtain ⟨new, hlog, hle⟩ := hall
  rw [hlog]
  exact List.subperm_ext_iff.mpr fun m _ => hle m

omit [Unicode] in
theorem SyncPlan.countP_mutations (plan : SyncPlan) :
    plan.mutations.countP Mutation.isDelete = plan.deleteCount := by
  have hcopies : (plan.copies.flatMap CopyAction.mutations).countP Mutation.isDelete = 0 := by
    rw [List.countP_eq_zero]
    intro m hm
    obtain ⟨action, _, hm⟩ := List.mem_flatMap.mp hm
    simp only [CopyAction.mutations, List.mem_cons, List.not_mem_nil, or_false] at hm
    rcases hm with rfl | rfl <;> simp [Mutation.isDelete]
  simp only [SyncPlan.mutations, SyncPlan.deleteCount, List.countP_append, List.countP_map, hcopies]
  simp [Mutation.isDelete, Function.comp_def]

/-- Whatever the NAS answers, and however the run ends, it asks for each change at most as often as
the plan holds it, and for no other; and what it uploads is what the plan was made of, except over
an entry whose deletion it kept. -/
theorem executed_asks (env : Env runInterface) (plan : SyncPlan) (options : ExecuteOptions) :
    (mutations (executed env plan options).2.log).Subperm plan.mutations ∧
      ∀ entry remotePath reply,
        .asked (.upload entry remotePath) reply ∈ (executed env plan options).2.log →
          (∃ a ∈ plan.uploads, a.entry = entry ∧ a.remotePath = remotePath) ∨
            (∃ a ∈ plan.copies, a.entry = entry ∧ a.toRemotePath = remotePath) ∨
              ∃ a ∈ plan.postDeletes, a.remotePath = remotePath := by
  refine ⟨mutations_executed env plan options, ?_⟩
  intro entry remotePath reply hmem
  have hfailed : Failed (Sourced plan) ⟨[], .start⟩ (executed env plan options).2 :=
    of_wp (wp_mono (does_execute env ⟨[], .start⟩) (fun _ _ h => h.failed) fun _ _ h => h)
  obtain ⟨new, hadds, hacts⟩ := hfailed
  rw [hadds.log, List.nil_append] at hmem
  rcases hacts _ hmem with hquiet | hsourced
  · cases hquiet
  · exact hsourced

end Run
end DriveSync
