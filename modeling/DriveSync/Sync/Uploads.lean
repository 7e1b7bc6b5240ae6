import DriveSync.Sync.Pool

/-!
# DriveSync.Sync.Uploads

What the upload phase leaves. The invariant `PoolInv` follows every job of the queue to where it is:
still queued, held by a worker, reported, collected, or dropped by a worker that saw the pool stop.
-/

namespace DriveSync

open Path Prog

namespace Stage

/-- The outcome a worker holds: known, and not reported yet. -/
def result? : Stage → Option (Job × UploadOutcome)
  | judging job outcome => some (job, outcome)
  | reporting job outcome => some (job, outcome)
  | _ => none

variable {stage : Stage} {before after : List Stage}

theorem result?_eq_some {result : Job × UploadOutcome} : stage.result? = some result ↔
    stage = judging result.1 result.2 ∨ stage = reporting result.1 result.2 := by
  cases stage <;> simp [result?, Prod.ext_iff]

theorem mem_filterMap_split {β : Type} {f : Stage → Option β} {b : β} :
    b ∈ (before ++ stage :: after).filterMap f ↔
      f stage = some b ∨ b ∈ before.filterMap f ∨ b ∈ after.filterMap f := by
  rw [List.filterMap_append, List.mem_append, List.filterMap_cons]
  cases f stage with
  | none => simp
  | some c => simp [eq_comm, or_left_comm]

theorem countP_filterMap_split {β : Type} {f : Stage → Option β} {p : β → Bool} :
    ((before ++ stage :: after).filterMap f).countP p =
      (before.filterMap f).countP p + ((f stage).toList.countP p + (after.filterMap f).countP p) := by
  rw [List.filterMap_append, List.countP_append, List.filterMap_cons]
  cases f stage with
  | none => simp
  | some c => simp [List.countP_cons]; omega

end Stage

namespace Pool

def held (pool : Pool) : List Job := pool.stages.filterMap Stage.job?

/-- The outcomes not collected yet. -/
def pending (pool : Pool) : List (Job × UploadOutcome) :=
  pool.stages.filterMap Stage.result? ++ pool.channel

end Pool

/-- Whether an entry is an upload that succeeded. -/
def isUploadOk : RunEntry → Bool
  | .asked (.upload _ _) reply => Except.isOk (ε := ExecError) (α := Unit) reply
  | _ => false

def isUploadedEvent : RunEntry → Bool
  | .told (.uploaded _ _) => true
  | _ => false

def isUploaded : Job × UploadOutcome → Bool
  | (_, .uploaded) => true
  | _ => false

/-- The write a result settled, if it is no failure of the run. -/
def settledWrite? (result : Job × UploadOutcome) : Option Write :=
  if result.2.isFailed then none else some result.1.write

/-- The write of the outcome a worker is about to report. -/
def Stage.settled? : Stage → Option Write
  | .reporting job outcome => settledWrite? (job, outcome)
  | _ => none

/-- The writes of the outcomes that are settled and not collected yet. -/
def Pool.settledWrites (pool : Pool) : List Write :=
  pool.stages.filterMap Stage.settled? ++ pool.channel.filterMap settledWrite?

section Run

variable [Unicode] {w₀ w w' : World runInterface Run} {pool pool' : Pool}
  {entries new : List RunEntry} {done collected : List (Job × UploadOutcome)}
  {jobs dropped lost : List Job} {acts : RunEntry → Prop}

/-- The events of a log are stories of jobs, one a job. -/
def Told (jobs : List Job) (log : List RunEntry) : Prop :=
  ∃ stories : List Story, stories.map (·.task) = jobs.map (fun job => .upload job.action) ∧
    events log = stories.flatMap (·.events)

omit [Unicode] in
theorem Told.append {jobs' : List Job} {log log' : List RunEntry} (h : Told jobs log)
    (h' : Told jobs' log') : Told (jobs ++ jobs') (log ++ log') := by
  obtain ⟨stories, htasks, hevents⟩ := h
  obtain ⟨stories', htasks', hevents'⟩ := h'
  refine ⟨stories ++ stories', by simp [htasks, htasks'], ?_⟩
  rw [List.flatMap_append, ← hevents, ← hevents']
  exact List.filterMap_append

omit [Unicode] in
theorem told_nil {log : List RunEntry} (h : ∀ e ∈ log, told? e = none) : Told [] log :=
  ⟨[], rfl, List.filterMap_eq_nil_iff.mpr h⟩

/-- What a part may do about one upload of the queue. -/
structure UploadActs (acts : RunEntry → Prop) (action : UploadAction) : Prop where
  call : ∀ reply, acts (.asked (.upload action.entry action.remotePath) reply)
  event : acts (.told (.uploaded action.entry.relative action.entry.size))
  leaves : Leaves acts action.entry.relative

/-! ## What one move does -/

theorem Look.adds {goes : Bool} (h : Look pool w goes w' entries) : Adds w w' entries := by
  cases h with
  | stopped => exact .refl w
  | cancelled requested => exact ⟨rfl, by simp [looked], rfl⟩
  | goes requested => exact ⟨rfl, by simp [looked], rfl⟩

theorem Turn.adds {stage stage' : Stage} (h : Turn pool w stage stage' pool' w' entries dropped) :
    Adds w w' entries := by
  cases h with
  | leaveIdle h => exact h.adds
  | goIdle h => exact h.adds
  | leaveReady h => exact h.adds
  | goReady h => exact h.adds
  | holds | changed | unread | answered => exact adds_asked
  | judged | tripped => exact ⟨by simp [settledWith], by simp [settledWith], rfl⟩
  | emptied | took | failed | reported => exact .refl w

theorem Collected.adds {job : Job} {outcome : UploadOutcome}
    (h : Collected w job outcome w' entries) : Adds w w' entries := by
  cases h with
  | uploaded => exact ⟨rfl, by simp, rfl⟩
  | again => exact .refl w
  | deferred =>
    exact ⟨rfl, by simp [eq_comm], by
      simp [Summary.absorbEntry, Summary.absorb, ExecutionReport.summary]⟩
  | failed => exact .refl w

theorem Move.adds (h : Move pool w pool' w' entries done dropped) : Adds w w' entries := by
  cases h with
  | worker _ h => exact h.adds
  | collector _ h => exact h.adds

theorem Look.quiet {goes : Bool} (h : Look pool w goes w' entries) : ∀ e ∈ entries, Quiet e := by
  cases h <;> simp [Quiet, Call.mutates]

/-- A worker reports nothing itself. -/
theorem Turn.told {stage stage' : Stage} (h : Turn pool w stage stage' pool' w' entries dropped) :
    ∀ e ∈ entries, told? e = none := by
  have hlook : ∀ {goes : Bool} {w' : World runInterface Run} {entries : List RunEntry},
      Look pool w goes w' entries → ∀ e ∈ entries, told? e = none := by
    intro goes w' entries h
    cases h <;> simp [told?]
  cases h with
  | leaveIdle h => exact hlook h
  | goIdle h => exact hlook h
  | leaveReady h => exact hlook h
  | goReady h => exact hlook h
  | _ => simp [told?]

/-- What the collector takes it reports as the story of its job. -/
theorem Collected.told {job : Job} {outcome : UploadOutcome}
    (h : Collected w job outcome w' entries) : Told [job] entries := by
  cases h with
  | uploaded =>
    exact ⟨[⟨.upload job.action, [.uploaded job.action.entry.relative job.action.entry.size],
      .ended .upload⟩], rfl, rfl⟩
  | again => exact ⟨[.silent (.upload job.action)], rfl, rfl⟩
  | @deferred reason =>
    exact ⟨[⟨.upload job.action, [.pathDeferred job.action.entry.relative reason], .left⟩],
      rfl, rfl⟩
  | failed => exact ⟨[.silent (.upload job.action)], rfl, rfl⟩

theorem Move.told (h : Move pool w pool' w' entries done dropped) :
    Told (done.map (·.1)) entries := by
  cases h with
  | worker _ h => exact told_nil h.told
  | collector _ h => exact h.told

/-- A move calls and reports only what it may of the jobs in the pool. -/
theorem Move.within (h : Move pool w pool' w' entries done dropped)
    (hheld : ∀ job ∈ pool.held, UploadActs acts job.action)
    (hchannel : ∀ result ∈ pool.channel, UploadActs acts result.1.action) :
    ∀ e ∈ entries, Quiet e ∨ acts e := by
  cases h with
  | worker hstages h =>
    rw [Pool.held, hstages] at hheld
    cases h with
    | leaveIdle h => exact fun e he => .inl (h.quiet e he)
    | goIdle h => exact fun e he => .inl (h.quiet e he)
    | leaveReady h => exact fun e he => .inl (h.quiet e he)
    | goReady h => exact fun e he => .inl (h.quiet e he)
    | holds | changed | unread => simp [Quiet, Call.mutates]
    | @answered job reply =>
      have := hheld job (by simp [Stage.job?])
      simpa using .inr (this.call reply)
    | _ => simp
  | collector hc h =>
    rw [hc] at hchannel
    have := hchannel _ (.head _)
    cases h with
    | uploaded => simpa using .inr this.event
    | deferred => simpa using .inr (this.leaves _)
    | _ => simp

/-- A token once cancelled stays so. -/
theorem Look.cancelled_of_cancelled {goes : Bool} (h : Look pool w goes w' entries)
    (hc : w.state.cancelled = true) : w'.state.cancelled = true := by
  cases h <;> simp [looked, hc]

theorem Move.cancelled_of_cancelled (h : Move pool w pool' w' entries done dropped)
    (hc : w.state.cancelled = true) : w'.state.cancelled = true := by
  cases h with
  | worker _ h =>
    cases h with
    | leaveIdle h => exact h.cancelled_of_cancelled hc
    | goIdle h => exact h.cancelled_of_cancelled hc
    | leaveReady h => exact h.cancelled_of_cancelled hc
    | goReady h => exact h.cancelled_of_cancelled hc
    | _ => exact hc
  | collector _ h => cases h <;> exact hc

theorem Look.stopped_or_cancelled (h : Look pool w false w' entries) :
    pool.stop = true ∨ w'.state.cancelled = true := by
  cases h with
  | stopped h => exact .inl h
  | cancelled _ h => exact .inr h

/-- Only a token found cancelled ends the run by a look at it. -/
theorem Look.cancelled_of_fatal {goes : Bool} (h : Look pool w goes w' entries) :
    ∀ e ∈ entries, Fatal e → w'.state.cancelled = true := by
  cases h with
  | stopped => simp
  | cancelled _ h => exact fun _ _ _ => h
  | goes requested =>
    intro e he hfatal
    obtain rfl := List.mem_singleton.mp he
    exact (Bool.or_eq_true _ _).mpr (.inr hfatal)

/-- An answer that ends the run is a failure some party holds. -/
theorem Move.failed_of_fatal (h : Move pool w pool' w' entries done dropped) :
    ∀ e ∈ entries, Fatal e → w'.state.cancelled = true ∨
      ∃ result ∈ pool'.pending, result.2.isFailed = true := by
  cases h with
  | worker hstages h =>
    cases h with
    | leaveIdle h => exact fun e he hf => .inl (h.cancelled_of_fatal e he hf)
    | goIdle h => exact fun e he hf => .inl (h.cancelled_of_fatal e he hf)
    | leaveReady h => exact fun e he hf => .inl (h.cancelled_of_fatal e he hf)
    | goReady h => exact fun e he hf => .inl (h.cancelled_of_fatal e he hf)
    | holds | changed => simp [Fatal, Call.ends, failedWith]
    | @unread job error =>
      exact fun e he hf => .inr ⟨(job, .failed error), by simp [Pool.pending, Stage.result?], rfl⟩
    | @answered job reply =>
      intro e he hf
      obtain rfl := List.mem_singleton.mp he
      refine .inr ⟨(job, ofUploadReply reply), by simp [Pool.pending, Stage.result?], ?_⟩
      rcases reply with error | ⟨⟩
      · have : DeferReason.forPathError error = none := by
          simpa [Fatal, ends_upload] using hf
        simp [ofUploadReply, this, UploadOutcome.isFailed]
      · cases hf
    | _ => simp
  | collector _ h =>
    cases h with
    | uploaded | deferred => simp [Fatal]
    | _ => simp

/-- A failure some party holds is held on, or collected. -/
theorem Move.pending_kept (h : Move pool w pool' w' entries done dropped) :
    ∀ result ∈ pool.pending, result ∈ pool'.pending ∨ result ∈ done := by
  intro result
  cases h with
  | worker hstages h =>
    simp only [Pool.pending, hstages, List.mem_append, Stage.mem_filterMap_split,
      Stage.result?_eq_some]
    cases h <;> simp [Prod.ext_iff] <;> grind
  | collector hchannel h =>
    simp only [Pool.pending, hchannel, List.mem_append, List.mem_cons]
    grind

/-- A job is where it was, one place further, collected, or dropped. -/
theorem Move.count_job (h : Move pool w pool' w' entries done dropped) (job : Job) :
    pool.queue.count job + pool.held.count job + (pool.channel.map (·.1)).count job =
      pool'.queue.count job + pool'.held.count job + (pool'.channel.map (·.1)).count job +
        (done.map (·.1)).count job + dropped.count job := by
  cases h with
  | worker hstages h =>
    simp only [Pool.held, hstages, List.count, Stage.countP_filterMap_split]
    cases h with
    | took hqueue => simp [hqueue, Stage.job?, List.countP_cons]; omega
    | _ => simp [Stage.job?, List.countP_cons] <;> omega
  | collector hchannel h =>
    simp only [Pool.held, hchannel, List.count, List.map_cons, List.countP_cons]
    simp
    omega

/-- What is collected was reported. -/
theorem Move.done_pending (h : Move pool w pool' w' entries done dropped) :
    ∀ result ∈ done, result ∈ pool.pending := by
  cases h with
  | worker => simp
  | collector hchannel => simp [Pool.pending, hchannel]

/-- What a move settles it adds to the writes that are settled and not collected. -/
theorem Move.ledger (h : Move pool w pool' w' entries done dropped) :
    ∃ s, w'.state.settled = w.state.settled ++ s ∧
      w'.state.breaker = w.state.breaker.after (s.map (·.2)) ∧
      w'.state.opened = w.state.opened ∧
      ∀ write, (s.map (·.1)).count write + pool.settledWrites.count write =
        pool'.settledWrites.count write + (done.filterMap settledWrite?).count write := by
  cases h with
  | worker hstages h =>
    simp only [Pool.settledWrites, hstages, List.count, List.countP_append,
      Stage.countP_filterMap_split]
    cases h with
    | leaveIdle h | goIdle h | leaveReady h | goReady h =>
      cases h <;> exact ⟨[], by simp [looked], rfl, rfl, by simp [Stage.settled?]⟩
    | @judged job outcome hok | @tripped job outcome hok =>
      refine ⟨[(job.write, outcome.settlement job.action.entry.relative)], rfl, rfl, rfl, ?_⟩
      intro write
      simp [Stage.settled?, settledWrite?, hok]
      omega
    | failed =>
      exact ⟨[], by simp, rfl, rfl, by simp [Stage.settled?, settledWrite?, UploadOutcome.isFailed]⟩
    | @reported job outcome =>
      refine ⟨[], by simp, rfl, rfl, fun write => ?_⟩
      cases hok : outcome.isFailed
      · simp [Stage.settled?, settledWrite?, hok]; omega
      · simp [Stage.settled?, settledWrite?, hok]
    | _ => exact ⟨[], by simp, rfl, rfl, by simp [Stage.settled?]⟩
  | @collector job outcome channel _ _ hchannel h =>
    simp only [Pool.settledWrites, hchannel, List.count, List.countP_append]
    have hcount : ∀ write, (((job, outcome) :: channel).filterMap settledWrite?).countP (· == write) =
        (channel.filterMap settledWrite?).countP (· == write) +
          ([(job, outcome)].filterMap settledWrite?).countP (· == write) := by
      intro write
      cases hok : outcome.isFailed <;> simp [settledWrite?, hok, List.countP_cons]
    cases h <;> exact ⟨[], by simp, rfl, rfl, fun write => by rw [hcount]; simp; omega⟩

/-- An upload that succeeded is an outcome some party holds, until it is reported. -/
theorem Move.count_uploads (h : Move pool w pool' w' entries done dropped) :
    entries.countP isUploadOk + pool.pending.countP isUploaded =
      pool'.pending.countP isUploaded + entries.countP isUploadedEvent := by
  cases h with
  | worker hstages h =>
    simp only [Pool.pending, hstages, List.countP_append, Stage.countP_filterMap_split]
    cases h with
    | leaveIdle h | goIdle h | leaveReady h | goReady h =>
      cases h <;> simp [Stage.result?, isUploadOk, isUploadedEvent]
    | @answered job reply =>
      rcases reply with e | ⟨⟩
      · cases he : DeferReason.forPathError e <;>
          simp [Stage.result?, isUploadOk, isUploadedEvent, ofUploadReply, isUploaded, he, Except.isOk,
            Except.toBool]
      · simp [Stage.result?, isUploadOk, isUploadedEvent, ofUploadReply, isUploaded, Except.isOk,
          Except.toBool]
        omega
    | _ => simp [Stage.result?, isUploadOk, isUploadedEvent, isUploaded] <;> omega
  | collector hchannel h =>
    simp only [Pool.pending, hchannel, List.countP_append, List.countP_cons]
    cases h with
    | uploaded => simp [isUploadOk, isUploadedEvent, isUploaded]; omega
    | _ => simp [isUploadOk, isUploadedEvent, isUploaded]

/-- An outcome some party holds that says the file was uploaded has the answer behind it. -/
theorem Move.answered (h : Move pool w pool' w' entries done dropped) :
    ∀ result ∈ pool'.pending, result ∈ pool.pending ∨ (result.2 = .uploaded →
      .asked (.upload result.1.action.entry result.1.action.remotePath) (.ok ()) ∈ entries) := by
  intro result
  cases h with
  | worker hstages h =>
    simp only [Pool.pending, hstages, List.mem_append, Stage.mem_filterMap_split,
      Stage.result?_eq_some]
    cases h with
    | @answered job reply =>
      rintro ((h | h) | h)
      · rcases h with h | h
        · obtain ⟨rfl, houtcome⟩ := Stage.judging.inj h
          refine .inr fun hup => ?_
          rcases reply with e | ⟨⟩
          · rw [← houtcome] at hup
            cases he : DeferReason.forPathError e <;> simp [ofUploadReply, he] at hup
          · exact .head _
        · cases h
      · exact .inl (.inl (.inr h))
      · exact .inl (.inr h)
    | _ => simp [Prod.ext_iff]; grind
  | collector hchannel h =>
    simp only [Pool.pending, hchannel, List.mem_append, List.mem_cons]
    grind

/-- The pool stops for a verdict or for a failure some party holds. -/
theorem Move.stopped (h : Move pool w pool' w' entries done dropped) (hstop : pool'.stop = true) :
    pool.stop = true ∨ pool'.tripped.isSome = true ∨
      ∃ result ∈ pool'.pending, result.2.isFailed = true := by
  cases h with
  | worker hstages h =>
    cases h with
    | @failed job error =>
      exact .inr (.inr ⟨(job, .failed error), by simp [Pool.pending, Stage.result?], rfl⟩)
    | tripped => exact .inr (.inl (by simp))
    | _ => exact .inl hstop
  | collector => exact .inl hstop

theorem Move.stop_kept (h : Move pool w pool' w' entries done dropped) (hstop : pool.stop = true) :
    pool'.stop = true := by
  cases h with
  | worker _ h => cases h <;> first | exact hstop | rfl
  | collector => exact hstop

theorem Move.tripped_kept (h : Move pool w pool' w' entries done dropped)
    (ht : pool.tripped.isSome = true) : pool'.tripped.isSome = true := by
  cases h with
  | worker _ h => cases h <;> simp [ht]
  | collector => exact ht

theorem Move.queue_kept (h : Move pool w pool' w' entries done dropped) (hq : pool.queue = []) :
    pool'.queue = [] := by
  cases h with
  | worker _ h =>
    cases h with
    | took hqueue => rw [hq] at hqueue; cases hqueue
    | _ => exact hq
  | collector => exact hq

/-- A worker finishes when nothing is queued, or when it sees the pool stopped or cancelled. -/
theorem Move.finished (h : Move pool w pool' w' entries done dropped)
    (hf : Stage.finished ∈ pool'.stages) : Stage.finished ∈ pool.stages ∨ pool.queue = [] ∨
      pool.stop = true ∨ w'.state.cancelled = true := by
  cases h with
  | worker hstages h =>
    simp only [hstages, List.mem_append, List.mem_cons] at hf ⊢
    cases h with
    | leaveIdle h => exact .inr (.inr h.stopped_or_cancelled)
    | leaveReady h => exact .inr (.inr h.stopped_or_cancelled)
    | emptied h => exact .inr (.inl h)
    | _ => simp at hf ⊢; exact .inl hf
  | collector => exact .inl hf

theorem Move.dropped_of (h : Move pool w pool' w' entries done dropped) (hd : dropped ≠ []) :
    pool.stop = true ∨ w'.state.cancelled = true := by
  cases h with
  | worker _ h =>
    cases h with
    | leaveReady h => exact h.stopped_or_cancelled
    | _ => exact absurd rfl hd
  | collector => exact absurd rfl hd

omit [Unicode] in
theorem isSome_recordWorkerError (first : Option ExecError) (error : ExecError) :
    (recordWorkerError first error).isSome = true := by
  unfold recordWorkerError
  split <;> rfl

omit [Unicode] in
theorem recorded_kept {outcome : UploadOutcome} {first : Option ExecError}
    (h : first.isSome = true) : (outcome.recorded first).isSome = true := by
  cases outcome with
  | failed error => exact isSome_recordWorkerError first error
  | _ => exact h

theorem Move.firstError_kept (h : Move pool w pool' w' entries done dropped)
    (hf : pool.firstError.isSome = true) : pool'.firstError.isSome = true := by
  cases h with
  | worker _ h => cases h <;> exact hf
  | collector => exact recorded_kept hf

/-- A result collected is recorded: a failure as the run's, a path left as a deferral. -/
def ResultRecorded (pool : Pool) (w : World runInterface Run) (result : Job × UploadOutcome) : Prop :=
  match result.2 with
  | .uploaded => True
  | .deferred _ _ _ => result.1.action.entry.relative ∈ w.state.deferrals.exact
  | .failed _ => pool.firstError.isSome = true

theorem Move.recorded (h : Move pool w pool' w' entries done dropped) :
    ∀ result ∈ done, ResultRecorded pool' w' result := by
  cases h with
  | worker => simp
  | collector hchannel h =>
    intro result hresult
    obtain rfl := List.mem_singleton.mp hresult
    cases h with
    | uploaded => trivial
    | again h => exact h
    | deferred h => simp [ResultRecorded]
    | failed => exact isSome_recordWorkerError _ _

theorem Move.recorded_kept (h : Move pool w pool' w' entries done dropped)
    {result : Job × UploadOutcome} (hr : ResultRecorded pool w result) : ResultRecorded pool' w' result := by
  unfold ResultRecorded at hr ⊢
  split at hr
  · trivial
  · exact (h.adds.deferrals _).mpr (.inl hr)
  · exact h.firstError_kept hr

/-! ## What every turn keeps -/

/-- The pool and the run after some turns on a queue: `new` is on the log, the results in
`collected` are the report's, and the jobs in `lost` were dropped. -/
structure PoolInv (acts : RunEntry → Prop) (jobs : List Job) (w₀ : World runInterface Run)
    (pool : Pool) (w : World runInterface Run) (new : List RunEntry)
    (collected : List (Job × UploadOutcome)) (lost : List Job) : Prop where
  adds : Adds w₀ w new
  within : ∀ e ∈ new, Quiet e ∨ acts e
  cancelled : w₀.state.cancelled = true → w.state.cancelled = true
  fatal : ∀ e ∈ new, Fatal e → w.state.cancelled = true ∨
    ∃ result ∈ pool.pending ++ collected, result.2.isFailed = true
  count_job : ∀ job, jobs.count job = pool.queue.count job + pool.held.count job +
    (pool.channel.map (·.1)).count job + (collected.map (·.1)).count job + lost.count job
  lost : lost ≠ [] → pool.stop = true ∨ w.state.cancelled = true
  finished : Stage.finished ∈ pool.stages →
    pool.queue = [] ∨ pool.stop = true ∨ w.state.cancelled = true
  stop : pool.stop = true → pool.tripped.isSome = true ∨
    ∃ result ∈ pool.pending ++ collected, result.2.isFailed = true
  answered : ∀ result ∈ pool.pending ++ collected, result.2 = .uploaded →
    .asked (.upload result.1.action.entry result.1.action.remotePath) (.ok ()) ∈ new
  recorded : ∀ result ∈ collected, ResultRecorded pool w result
  ledger : ∃ s, w.state.settled = w₀.state.settled ++ s ∧
    w.state.breaker = w₀.state.breaker.after (s.map (·.2)) ∧ w.state.opened = w₀.state.opened ∧
    ∀ write, (s.map (·.1)).count write =
      pool.settledWrites.count write + (collected.filterMap settledWrite?).count write
  uploads : new.countP isUploadOk =
    pool.pending.countP isUploaded + new.countP isUploadedEvent
  told : Told (collected.map (·.1)) new

variable {queue : List Job} {workerCount : Nat}

theorem poolInv_start (w : World runInterface Run) :
    PoolInv acts queue w (.start queue workerCount) w [] [] [] where
  adds := .refl w
  within := by simp
  cancelled := id
  fatal := by simp
  count_job job := by
    have : (Pool.start queue workerCount).held = [] := by
      simp [Pool.held, Pool.start, List.filterMap_replicate, Stage.job?]
    rw [this]
    simp [Pool.start]
  lost := by simp
  finished := by simp [Pool.start, List.mem_replicate]
  stop := by simp [Pool.start]
  answered := by simp [Pool.pending, Pool.start, List.filterMap_replicate, Stage.result?]
  recorded := by simp
  ledger := by
    refine ⟨[], by simp, rfl, rfl, ?_⟩
    simp [Pool.settledWrites, Pool.start, List.filterMap_replicate, Stage.settled?]
  uploads := by simp [Pool.pending, Pool.start, List.filterMap_replicate, Stage.result?]
  told := told_nil (by simp)

/-- Every job in the pool is one of the queue it started with. -/
theorem PoolInv.mem_jobs (h : PoolInv acts jobs w₀ pool w new collected lost) :
    (∀ job ∈ pool.held, job ∈ jobs) ∧ ∀ result ∈ pool.channel, result.1 ∈ jobs := by
  constructor
  · intro job hjob
    have := h.count_job job
    have := List.count_pos_iff.mpr hjob
    exact List.count_pos_iff.mp (by omega)
  · intro result hresult
    have := h.count_job result.1
    have := List.count_pos_iff.mpr (List.mem_map_of_mem (f := (·.1)) hresult)
    exact List.count_pos_iff.mp (by omega)

theorem PoolInv.move (hacts : ∀ job ∈ jobs, UploadActs acts job.action)
    (h : PoolInv acts jobs w₀ pool w new collected lost)
    (hm : Move pool w pool' w' entries done dropped) :
    PoolInv acts jobs w₀ pool' w' (new ++ entries) (collected ++ done) (lost ++ dropped) := by
  have hfailed : (∃ result ∈ pool.pending ++ collected, result.2.isFailed = true) →
      ∃ result ∈ pool'.pending ++ (collected ++ done), result.2.isFailed = true := by
    rintro ⟨result, hresult, hf⟩
    refine ⟨result, ?_, hf⟩
    have := hm.pending_kept result
    simp only [List.mem_append] at hresult ⊢
    tauto
  have hpending : (∃ result ∈ pool'.pending, result.2.isFailed = true) →
      ∃ result ∈ pool'.pending ++ (collected ++ done), result.2.isFailed = true := by
    rintro ⟨result, hresult, hf⟩
    exact ⟨result, List.mem_append_left _ hresult, hf⟩
  constructor
  · exact h.adds.trans hm.adds
  · intro e he
    rcases List.mem_append.mp he with he | he
    · exact h.within e he
    · exact hm.within (fun job hjob => hacts job (h.mem_jobs.1 job hjob))
        (fun result hresult => hacts _ (h.mem_jobs.2 result hresult)) e he
  · exact fun hc => hm.cancelled_of_cancelled (h.cancelled hc)
  · intro e he hf
    rcases List.mem_append.mp he with he | he
    · exact (h.fatal e he hf).imp hm.cancelled_of_cancelled hfailed
    · exact (hm.failed_of_fatal e he hf).imp id hpending
  · intro job
    have := h.count_job job
    have := hm.count_job job
    simp only [List.map_append, List.count_append]
    omega
  · intro hlost
    have hkept : pool.stop = true ∨ w'.state.cancelled = true := by
      by_cases hold : lost = []
      · exact hm.dropped_of (by rintro rfl; simp [hold] at hlost)
      · exact (h.lost hold).imp id hm.cancelled_of_cancelled
    exact hkept.imp hm.stop_kept id
  · intro hfinished
    have hkept : pool.queue = [] ∨ pool.stop = true ∨ w'.state.cancelled = true := by
      rcases hm.finished hfinished with hold | hq | hstop
      · exact (h.finished hold).imp id (Or.imp id hm.cancelled_of_cancelled)
      · exact .inl hq
      · exact .inr hstop
    exact hkept.imp hm.queue_kept (Or.imp hm.stop_kept id)
  · intro hstop
    rcases hm.stopped hstop with hold | ht | hp
    · exact (h.stop hold).imp hm.tripped_kept hfailed
    · exact .inl ht
    · exact .inr (hpending hp)
  · intro result hresult hup
    rw [List.mem_append]
    rcases List.mem_append.mp hresult with hp | hc
    · rcases hm.answered result hp with hold | hnew
      · exact .inl (h.answered result (List.mem_append_left _ hold) hup)
      · exact .inr (hnew hup)
    · rcases List.mem_append.mp hc with hc | hd
      · exact .inl (h.answered result (List.mem_append_right _ hc) hup)
      · exact .inl (h.answered result (List.mem_append_left _ (hm.done_pending result hd)) hup)
  · intro result hresult
    rcases List.mem_append.mp hresult with hc | hd
    · exact hm.recorded_kept (h.recorded result hc)
    · exact hm.recorded result hd
  · obtain ⟨s, hsettled, hbreaker, hopened, hcount⟩ := h.ledger
    obtain ⟨s', hsettled', hbreaker', hopened', hcount'⟩ := hm.ledger
    refine ⟨s ++ s', by rw [hsettled', hsettled, List.append_assoc], ?_,
      hopened'.trans hopened, fun write => ?_⟩
    · rw [hbreaker', hbreaker, List.map_append, RefusalBreaker.after_append]
    · have := hcount write
      have := hcount' write
      simp only [List.map_append, List.count_append, List.filterMap_append]
      omega
  · have := h.uploads
    have := hm.count_uploads
    simp only [List.countP_append]
    omega
  · rw [List.map_append]
    exact h.told.append hm.told

/-- The scheduler's choice changes nothing but the log. -/
theorem PoolInv.turn (h : PoolInv acts jobs w₀ pool w new collected lost) (parties turn : Nat) :
    PoolInv acts jobs w₀ pool (w.push (.asked (.schedule parties) turn))
      (new ++ [.asked (.schedule parties) turn]) collected lost where
  adds := h.adds.trans adds_asked
  within := by
    intro e he
    rcases List.mem_append.mp he with he | he
    · exact h.within e he
    · obtain rfl := List.mem_singleton.mp he
      exact .inl rfl
  cancelled := h.cancelled
  fatal := by
    intro e he hf
    rcases List.mem_append.mp he with he | he
    · exact h.fatal e he hf
    · obtain rfl := List.mem_singleton.mp he
      cases hf
  count_job := h.count_job
  lost := h.lost
  finished := h.finished
  stop := h.stop
  answered := fun result hresult hup => List.mem_append_left _ (h.answered result hresult hup)
  recorded := h.recorded
  ledger := h.ledger
  uploads := by
    have := h.uploads
    simp [isUploadOk, isUploadedEvent]
    omega
  told := by
    have hturn : Told [] [.asked (.schedule parties) turn] := told_nil (by simp [told?])
    simpa using h.told.append hturn

/-! ## The whole phase -/

/-- What the upload phase leaves, however it ends; `settled` are the settlements it adds. -/
structure UploadsEnded (acts : RunEntry → Prop) (jobs : List Job) (w w' : World runInterface Run)
    (new : List RunEntry) (settled : List (Write × Settlement)) : Prop where
  adds : Adds w w' new
  within : ∀ e ∈ new, Quiet e ∨ acts e
  uploads : new.countP isUploadOk = new.countP isUploadedEvent
  settled_eq : w'.state.settled = w.state.settled ++ settled
  breaker_eq : w'.state.breaker = w.state.breaker.after (settled.map (·.2))
  opened_eq : w'.state.opened = w.state.opened
  settled_le : ∀ write, (settled.map (·.1)).count write ≤ (jobs.map (·.write)).count write
  told : ∃ stories : List Story, (stories.map (·.task)).Perm
      (jobs.map fun job => .upload job.action) ∧ events new = stories.flatMap (·.events)
  sticky : w.state.cancelled = true → w'.state.cancelled = true

/-- What it leaves when it succeeds and the token is not cancelled: every job landed. -/
structure UploadsLanded (jobs : List Job) (w w' : World runInterface Run) (new : List RunEntry)
    (settled : List (Write × Settlement)) : Prop where
  cancelled : w.state.cancelled = false
  fatal : ∀ e ∈ new, ¬Fatal e
  settled_all : ∀ write, (settled.map (·.1)).count write = (jobs.map (·.write)).count write
  landed : ∀ job ∈ jobs,
    .asked (.upload job.action.entry job.action.remotePath) (.ok ()) ∈ new ∨
      job.action.entry.relative ∈ w'.state.deferrals.exact

omit [Unicode] in
theorem filterMap_eq_nil_of_finished {β : Type} {f : Stage → Option β} (hf : f .finished = none)
    {stages : List Stage} (h : ∀ stage ∈ stages, stage = .finished) : stages.filterMap f = [] := by
  rw [List.filterMap_eq_nil_iff]
  intro stage hstage
  rw [h stage hstage, hf]

omit [Unicode] in
/-- At the pool's end nothing is held, reported or settled that is not collected. -/
theorem Pool.AtEnd.drained (h : pool.AtEnd) :
    pool.held = [] ∧ pool.pending = [] ∧ pool.settledWrites = [] := by
  have hheld : pool.stages.filterMap Stage.job? = [] := filterMap_eq_nil_of_finished rfl h.finished
  have hresult : pool.stages.filterMap Stage.result? = [] :=
    filterMap_eq_nil_of_finished rfl h.finished
  have hsettled : pool.stages.filterMap Stage.settled? = [] :=
    filterMap_eq_nil_of_finished rfl h.finished
  simp [Pool.held, Pool.pending, Pool.settledWrites, h.collected, hheld, hresult, hsettled]

omit [Unicode] in
theorem count_settledWrite? {results : List (Job × UploadOutcome)} (write : Write) :
    (results.filterMap settledWrite?).count write ≤ (results.map (·.1.write)).count write ∧
      ((∀ result ∈ results, result.2.isFailed = false) →
        (results.filterMap settledWrite?).count write = (results.map (·.1.write)).count write) := by
  induction results with
  | nil => simp
  | cons result results ih =>
    obtain ⟨hle, heq⟩ := ih
    simp only [List.filterMap_cons, List.map_cons, List.count_cons]
    cases hf : result.2.isFailed with
    | true =>
      simp only [settledWrite?, hf, if_true]
      refine ⟨Nat.le_add_right_of_le hle, fun h => ?_⟩
      rw [h result (.head _)] at hf
      cases hf
    | false =>
      simp only [settledWrite?, hf, Bool.false_eq_true, if_false, List.count_cons]
      refine ⟨by omega, fun h => ?_⟩
      rw [heq fun r hr => h r (.tail _ hr)]

theorem PoolInv.ended (h : PoolInv acts jobs w₀ pool w new collected lost) (hend : pool.AtEnd) :
    ∃ settled, UploadsEnded acts jobs w₀ w new settled ∧
      ∀ write, (settled.map (·.1)).count write = (collected.filterMap settledWrite?).count write := by
  obtain ⟨hheld, hpending, hsettled⟩ := hend.drained
  obtain ⟨s, hs, hb, ho, hcount⟩ := h.ledger
  simp only [hsettled, List.count_nil, Nat.zero_add] at hcount
  have hperm : jobs.Perm (collected.map (·.1) ++ (pool.queue ++ lost)) := by
    rw [List.perm_iff_count]
    intro job
    have := h.count_job job
    simp only [hheld, hend.collected, List.map_nil, List.count_nil] at this
    simp only [List.count_append]
    omega
  refine ⟨s, ⟨h.adds, h.within, ?_, hs, hb, ho, fun write => ?_, ?_, h.cancelled⟩, hcount⟩
  · simpa [hpending] using h.uploads
  · rw [hcount]
    refine Nat.le_trans (count_settledWrite? write).1 ?_
    rw [(hperm.map (·.write)).count_eq]
    simp [Function.comp_def]
  · -- the jobs that were not collected have no events
    obtain ⟨stories, htasks, hevents⟩ := h.told
    refine ⟨stories ++ (pool.queue ++ lost).map fun job => .silent (.upload job.action), ?_, ?_⟩
    · have := (hperm.map fun job => Task.upload job.action).symm
      simpa [htasks, Story.silent, Function.comp_def] using this
    · rw [List.flatMap_append, hevents]
      simp [Story.silent]

/-- With no failure recorded and the token not cancelled, every job was collected. -/
theorem PoolInv.landed (h : PoolInv acts jobs w₀ pool w new collected lost) (hend : pool.AtEnd)
    (hstages : pool.stages ≠ []) (htripped : pool.tripped = none) (hfirst : pool.firstError = none)
    (hc : w.state.cancelled = false) {settled : List (Write × Settlement)}
    (hsettled : ∀ write,
      (settled.map (·.1)).count write = (collected.filterMap settledWrite?).count write) :
    UploadsLanded jobs w₀ w new settled := by
  obtain ⟨hheld, hpending, _⟩ := hend.drained
  have hok : ∀ result ∈ collected, result.2.isFailed = false := by
    intro result hresult
    have := h.recorded result hresult
    unfold ResultRecorded at this
    cases ho : result.2 with
    | failed error => rw [ho] at this; simp [hfirst] at this
    | _ => rfl
  have hnone : ¬∃ result ∈ pool.pending ++ collected, result.2.isFailed = true := by
    rintro ⟨result, hresult, hf⟩
    rw [hpending, List.nil_append] at hresult
    rw [hok result hresult] at hf
    cases hf
  have hstop : pool.stop = false := by
    cases hs : pool.stop with
    | false => rfl
    | true =>
      rcases h.stop hs with ht | hf
      · simp [htripped] at ht
      · exact absurd hf hnone
  have hlost : lost = [] := by
    by_contra hne
    rcases h.lost hne with hs | hs
    · simp [hstop] at hs
    · simp [hc] at hs
  have hqueue : pool.queue = [] := by
    obtain ⟨stage, stages, hcons⟩ := List.exists_cons_of_ne_nil hstages
    have hfinished : Stage.finished ∈ pool.stages := by
      have hmem : stage ∈ pool.stages := hcons ▸ .head _
      exact hend.finished stage hmem ▸ hmem
    rcases h.finished hfinished with hq | hs | hs
    · exact hq
    · simp [hstop] at hs
    · simp [hc] at hs
  have hperm : jobs.Perm (collected.map (·.1)) := by
    rw [List.perm_iff_count]
    intro job
    have := h.count_job job
    simpa [hheld, hend.collected, hqueue, hlost] using this
  constructor
  · cases hw : w₀.state.cancelled with
    | false => rfl
    | true => rw [h.cancelled hw] at hc; cases hc
  · intro e he hf
    rcases h.fatal e he hf with hcancelled | hfailed
    · rw [hcancelled] at hc; cases hc
    · exact hnone hfailed
  · intro write
    rw [hsettled, (count_settledWrite? write).2 hok, (hperm.map (·.write)).count_eq, List.map_map]
    rfl
  · intro job hjob
    obtain ⟨result, hresult, rfl⟩ := List.mem_map.mp (hperm.mem_iff.mp hjob)
    have hrecorded := h.recorded result hresult
    have hresultOk := hok result hresult
    unfold ResultRecorded at hrecorded
    cases ho : result.2 with
    | uploaded => exact .inl (h.answered result (List.mem_append_right _ hresult) ho)
    | deferred reason detail refusal => rw [ho] at hrecorded; exact .inr hrecorded
    | failed error => rw [ho] at hresultOk; cases hresultOk

theorem wp_uploadWorkers {env : Env runInterface} {workers : Nat}
    (hacts : ∀ job ∈ jobs, UploadActs acts job.action) :
    wp env (uploadWorkers workers jobs)
      (fun _ w' => ∃ new settled, UploadsEnded acts jobs w w' new settled ∧
        (w'.state.cancelled = false → UploadsLanded jobs w w' new settled))
      (fun _ w' => ∃ new settled, UploadsEnded acts jobs w w' new settled) w := by
  unfold uploadWorkers
  split
  · rename_i hempty
    obtain rfl : jobs = [] := by simpa using hempty
    refine ⟨[], [], ⟨.refl w, by simp, rfl, by simp, rfl, rfl, by simp, ⟨[], .nil, rfl⟩, id⟩,
      fun hc => ?_⟩
    exact ⟨hc, by simp, by simp, by simp⟩
  · rename_i hempty
    rw [wp_bind]
    have hstart : PoolInv acts jobs w (.start jobs (min (max 1 (min workers 16)) jobs.length)) w
        [] [] [] := poolInv_start w
    have hworkers : (Pool.start jobs (min (max 1 (min workers 16)) jobs.length)).stages ≠ [] := by
      have : 0 < jobs.length := List.length_pos_iff.mpr (by simpa using hempty)
      simp only [Pool.start, ne_eq, List.replicate_eq_nil_iff]
      omega
    refine wp_mono (wp_runPool
      (I := fun pool w' => (∃ new collected lost, PoolInv acts jobs w pool w' new collected lost) ∧
        pool.stages ≠ [])
      (fun pool w pool' w' entries done dropped h hm => ?_) (fun pool w parties turn h => ?_)
      (poolTurns jobs (min (max 1 (min workers 16)) jobs.length)) ⟨⟨[], [], [], hstart⟩, hworkers⟩
      (Nat.le_of_eq Pool.measure_start)) (fun pool w' h => ?_) fun _ _ h => h.elim
    · obtain ⟨⟨new, collected, lost, hinv⟩, hstages⟩ := h
      refine ⟨⟨_, _, _, hinv.move hacts hm⟩, ?_⟩
      cases hm with
      | worker => simp
      | collector => exact hstages
    · obtain ⟨⟨new, collected, lost, hinv⟩, hstages⟩ := h
      exact ⟨⟨_, _, _, hinv.turn parties turn⟩, hstages⟩
    · obtain ⟨⟨⟨new, collected, lost, hinv⟩, hstages⟩, hend⟩ := h
      obtain ⟨settled, hended, hsettled⟩ := hinv.ended hend
      cases ht : pool.tripped with
      | some error =>
        obtain ⟨first, hfirst⟩ := Option.isSome_iff_exists.mp
          (isSome_recordWorkerError pool.firstError error)
        simp only [hfirst]
        exact ⟨new, settled, hended⟩
      | none =>
        cases hfirst : pool.firstError with
        | some error => exact ⟨new, settled, hended⟩
        | none =>
          exact ⟨new, settled, hended, fun hc => hinv.landed hend hstages ht hfirst hc hsettled⟩

theorem does_uploadWorkers {workers : Nat} (hacts : ∀ job ∈ jobs, UploadActs acts job.action) :
    Does acts (uploadWorkers workers jobs) := by
  intro env w
  refine wp_mono (wp_uploadWorkers hacts) (fun _ w' h => ?_) fun _ w' h => ?_
  · obtain ⟨new, settled, hended, hlanded⟩ := h
    exact ⟨new, hended.adds, hended.within, fun hc => ⟨(hlanded hc).cancelled, (hlanded hc).fatal⟩⟩
  · obtain ⟨new, settled, hended⟩ := h
    exact ⟨new, hended.adds, hended.within⟩

end Run
end DriveSync
