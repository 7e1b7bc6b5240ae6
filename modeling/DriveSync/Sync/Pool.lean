import DriveSync.Sync.Trace

/-!
# DriveSync.Sync.Pool

The upload phase as a machine of its own. `Move` lists what one turn of one party can do to the pool
and to the run, and `partyStep` does one of them (`moves_partyStep`); each takes the pool nearer its
end (`Move.lt`), so the turns it is given are enough for every party (`wp_uploadWorkers`). What holds
of the phase is then kept by each move.
-/

namespace DriveSync

open Path Prog

namespace Stage

/-- How many turns a worker may still take. -/
def weight : Stage → Nat
  | idle => 2
  | taking => 1
  | checking _ => 9
  | ready _ => 8
  | sending _ => 7
  | judging _ _ => 6
  | reporting _ _ => 5
  | finished => 0

/-- The job a worker holds. -/
def job? : Stage → Option Job
  | checking job => some job
  | ready job => some job
  | sending job => some job
  | judging job _ => some job
  | reporting job _ => some job
  | _ => none

end Stage

namespace Pool

def weights : List Stage → Nat
  | [] => 0
  | stage :: stages => stage.weight + weights stages

def measure (pool : Pool) : Nat :=
  9 * pool.queue.length + weights pool.stages + pool.channel.length

theorem weights_append (l l' : List Stage) : weights (l ++ l') = weights l + weights l' := by
  induction l with
  | nil => simp [weights]
  | cons stage l ih => simp [weights, ih]; omega

theorem weights_replicate (n : Nat) : weights (List.replicate n .idle) = 2 * n := by
  induction n with
  | zero => rfl
  | succ n ih => simp only [List.replicate_succ, weights, Stage.weight, ih]; omega

end Pool

section Run

variable [Unicode] {env : Env runInterface} {w w' : World runInterface Run} {pool pool' : Pool}

/-- The token was looked at. -/
def looked (w : World runInterface Run) (requested : Bool) : World runInterface Run :=
  (w.push (.asked .cancelRequested requested)).put
    { w.state with cancelled := w.state.cancelled || requested }

def settledWith (w : World runInterface Run) (write : Write) (settlement : Settlement) :
    World runInterface Run :=
  w.put { w.state with
    breaker := w.state.breaker.settle settlement
    settled := w.state.settled ++ [(write, settlement)] }

/-- How an outcome that is no failure of the run settles its write. -/
def UploadOutcome.settlement (outcome : UploadOutcome) (relative : RelPath) : Settlement :=
  match outcome with
  | .deferred _ _ refusal => .ofRefusal refusal relative
  | _ => .accepted

def UploadOutcome.isFailed : UploadOutcome → Bool
  | .failed _ => true
  | _ => false

/-- A worker's look before its next step: it leaves where the pool stopped or the run is
cancelled. -/
inductive Look (pool : Pool) (w : World runInterface Run) :
    Bool → World runInterface Run → List RunEntry → Prop
  | stopped (h : pool.stop = true) : Look pool w false w []
  | cancelled (requested : Bool) (h : (looked w requested).state.cancelled = true) :
      Look pool w false (looked w requested) [.asked .cancelRequested requested]
  | goes (requested : Bool) (hstop : pool.stop = false)
      (h : (looked w requested).state.cancelled = false) :
      Look pool w true (looked w requested) [.asked .cancelRequested requested]

/-- One worker's step from a stage to the next: the pool beside the stage, the run, what it put on
the log, and the job it drops. -/
inductive Turn (pool : Pool) (w : World runInterface Run) :
    Stage → Stage → Pool → World runInterface Run → List RunEntry → List Job → Prop
  | leaveIdle {w' : World runInterface Run} {entries : List RunEntry}
      (h : Look pool w false w' entries) : Turn pool w .idle .finished pool w' entries []
  | goIdle {w' : World runInterface Run} {entries : List RunEntry}
      (h : Look pool w true w' entries) : Turn pool w .idle .taking pool w' entries []
  | emptied (h : pool.queue = []) : Turn pool w .taking .finished pool w [] []
  | took {job : Job} {queue : List Job} (h : pool.queue = job :: queue) :
      Turn pool w .taking (.checking job) { pool with queue := queue } w [] []
  | holds {job : Job} (state : RemotePathState) :
      Turn pool w (.checking job) (.ready job) pool
        (w.push (.asked (.remotePathState job.action.remotePath) (.ok state)))
        [.asked (.remotePathState job.action.remotePath) (.ok state)] []
  | changed {job : Job} (state : RemotePathState) (detail : String) :
      Turn pool w (.checking job) (.judging job (.deferred .remoteChanged detail none)) pool
        (w.push (.asked (.remotePathState job.action.remotePath) (.ok state)))
        [.asked (.remotePathState job.action.remotePath) (.ok state)] []
  | unread {job : Job} (error : ExecError) :
      Turn pool w (.checking job) (.judging job (.failed error)) pool
        (w.push (.asked (.remotePathState job.action.remotePath) (.error error)))
        [.asked (.remotePathState job.action.remotePath) (.error error)] []
  | leaveReady {job : Job} {w' : World runInterface Run} {entries : List RunEntry}
      (h : Look pool w false w' entries) :
      Turn pool w (.ready job) .finished pool w' entries [job]
  | goReady {job : Job} {w' : World runInterface Run} {entries : List RunEntry}
      (h : Look pool w true w' entries) :
      Turn pool w (.ready job) (.sending job) pool w' entries []
  | answered {job : Job} (reply : Except ExecError Unit) :
      Turn pool w (.sending job) (.judging job (ofUploadReply reply)) pool
        (w.push (.asked (.upload job.action.entry job.action.remotePath) reply))
        [.asked (.upload job.action.entry job.action.remotePath) reply] []
  | failed {job : Job} {error : ExecError} :
      Turn pool w (.judging job (.failed error)) (.reporting job (.failed error))
        { pool with stop := true } w [] []
  | judged {job : Job} {outcome : UploadOutcome} (h : outcome.isFailed = false) :
      Turn pool w (.judging job outcome) (.reporting job outcome) pool
        (settledWith w job.write (outcome.settlement job.action.entry.relative)) [] []
  | tripped {job : Job} {outcome : UploadOutcome} (h : outcome.isFailed = false)
      (error : ExecError) :
      Turn pool w (.judging job outcome) (.reporting job outcome)
        { pool with stop := true, tripped := pool.tripped.or (some error) }
        (settledWith w job.write (outcome.settlement job.action.entry.relative)) [] []
  | reported {job : Job} {outcome : UploadOutcome} :
      Turn pool w (.reporting job outcome) .idle
        { pool with channel := pool.channel ++ [(job, outcome)] } w [] []

/-- What the collector does with one result. -/
inductive Collected (w : World runInterface Run) (job : Job) :
    UploadOutcome → World runInterface Run → List RunEntry → Prop
  | uploaded : Collected w job .uploaded
      ((w.put { w.state with completed := { w.state.completed with
        uploaded := w.state.completed.uploaded + 1
        uploadedBytes := saturatingAdd w.state.completed.uploadedBytes job.action.entry.size } }).push
          (.told (.uploaded job.action.entry.relative job.action.entry.size)))
      [.told (.uploaded job.action.entry.relative job.action.entry.size)]
  | again {reason : DeferReason} {detail : String} {refusal : Option Refusal}
      (h : job.action.entry.relative ∈ w.state.deferrals.exact) :
      Collected w job (.deferred reason detail refusal) w []
  | deferred {reason : DeferReason} {detail : String} {refusal : Option Refusal}
      (h : job.action.entry.relative ∉ w.state.deferrals.exact) :
      Collected w job (.deferred reason detail refusal)
        ((w.put { w.state with
          deferrals := w.state.deferrals.insert job.action.entry.relative reason
          completed.deferred := w.state.completed.deferred ++
            [⟨job.action.entry.relative, reason, detail⟩] }).push
          (.told (.pathDeferred job.action.entry.relative reason)))
        [.told (.pathDeferred job.action.entry.relative reason)]
  | failed {error : ExecError} : Collected w job (.failed error) w []

/-- The first failure the collector was told of. -/
def UploadOutcome.recorded (outcome : UploadOutcome) (firstError : Option ExecError) :
    Option ExecError :=
  match outcome with
  | .failed error => recordWorkerError firstError error
  | _ => firstError

/-- One turn of one party: also the results it collects. -/
inductive Move (pool : Pool) (w : World runInterface Run) : Pool → World runInterface Run →
    List RunEntry → List (Job × UploadOutcome) → List Job → Prop
  | worker {before after : List Stage} {stage stage' : Stage} {next : Pool}
      {w' : World runInterface Run} {entries : List RunEntry} {dropped : List Job}
      (hstages : pool.stages = before ++ stage :: after)
      (h : Turn pool w stage stage' next w' entries dropped) :
      Move pool w { next with stages := before ++ stage' :: after } w' entries [] dropped
  | collector {job : Job} {outcome : UploadOutcome} {channel : List (Job × UploadOutcome)}
      {w' : World runInterface Run} {entries : List RunEntry}
      (hchannel : pool.channel = (job, outcome) :: channel)
      (h : Collected w job outcome w' entries) :
      Move pool w { pool with
        channel := channel
        firstError := outcome.recorded pool.firstError } w' entries [(job, outcome)] []

variable {entries : List RunEntry} {done : List (Job × UploadOutcome)} {dropped : List Job}

theorem Turn.next_stages {stage stage' : Stage}
    (h : Turn pool w stage stage' pool' w' entries dropped) : pool'.stages = pool.stages := by
  cases h <;> rfl

/-- Every turn takes the pool nearer its end. -/
theorem Move.lt (h : Move pool w pool' w' entries done dropped) :
    pool'.measure < pool.measure := by
  cases h with
  | worker hstages h =>
    simp only [Pool.measure, hstages, Pool.weights_append, Pool.weights]
    cases h with
    | took hqueue => simp [hqueue, Stage.weight]; omega
    | _ => simp [Stage.weight] <;> omega
  | collector hchannel h =>
    simp [Pool.measure, hchannel]

/-! ## Each party's step is a move -/

theorem wp_look {a b : Pool} {Q : Pool → World runInterface Run → Prop}
    {E : ExecError → World runInterface Run → Prop}
    (hleave : ∀ w' entries, Look pool w false w' entries → Q a w')
    (hgo : ∀ w' entries, Look pool w true w' entries → Q b w') :
    wp env (if pool.stop then pure a else
      isCancelled >>= fun cancelled => if cancelled then pure a else pure b) Q E w := by
  by_cases hstop : pool.stop = true
  · rw [if_pos hstop]
    exact hleave w _ (.stopped hstop)
  · rw [if_neg hstop, wp_bind, wp_isCancelled]
    have hstop : pool.stop = false := by simpa using hstop
    let requested : Bool := env w.log .cancelRequested
    show wp env (if (looked w requested).state.cancelled then pure a else pure b) Q E
      (looked w requested)
    by_cases hc : (looked w requested).state.cancelled = true
    · rw [if_pos hc]
      exact hleave _ _ (.cancelled _ hc)
    · rw [if_neg hc]
      exact hgo _ _ (.goes _ hstop (by simpa using hc))

/-- A write is settled, and a breaker that trips on it stops the pool. -/
theorem wp_judge {write : Write} {settlement : Settlement} : wp env (judge pool write settlement)
    (fun next w' => w' = settledWith w write settlement ∧ (next = pool ∨ ∃ error, next =
      { pool with stop := true, tripped := pool.tripped.or (some error) }))
    (fun _ _ => False) w := by
  simp only [judge, wp_bind, wp_settle, wp_get]
  split
  · exact ⟨rfl, .inr ⟨_, rfl⟩⟩
  · exact ⟨rfl, .inl rfl⟩

theorem wp_workerStep {index : Nat} {stage : Stage} (h : stage ≠ .finished) :
    wp env (workerStep pool index stage)
      (fun pool' w' => ∃ stage' next entries dropped,
        Turn pool w stage stage' next w' entries dropped ∧ pool' = next.setStage index stage')
      (fun _ _ => False) w := by
  cases stage with
  | idle =>
    exact wp_look (fun _ _ h => ⟨_, _, _, _, .leaveIdle h, rfl⟩)
      fun _ _ h => ⟨_, _, _, _, .goIdle h, rfl⟩
  | taking =>
    unfold workerStep
    cases hqueue : pool.queue with
    | nil => exact ⟨_, _, _, _, .emptied hqueue, rfl⟩
    | cons job queue => exact ⟨_, _, _, _, .took hqueue, rfl⟩
  | checking job =>
    simp only [workerStep, uploadPreconditionHolds, wp_bind, wp_attempt, wp_request]
    rcases hreply : (env w.log (.remotePathState job.action.remotePath) :
      Except ExecError RemotePathState) with e | state
    · exact ⟨_, _, _, _, .unread e, rfl⟩
    · cases hexpected : destinationExpected state job.action.expectedRemote with
      | true =>
        simp only [wp_lift_ok, wp_pure, hexpected]
        exact ⟨_, _, _, _, .holds state, rfl⟩
      | false =>
        simp only [wp_lift_ok, wp_pure, hexpected]
        exact ⟨_, _, _, _, .changed state _, rfl⟩
  | ready job =>
    exact wp_look (fun _ _ h => ⟨_, _, _, _, .leaveReady h, rfl⟩)
      fun _ _ h => ⟨_, _, _, _, .goReady h, rfl⟩
  | sending job =>
    simp only [workerStep, wp_bind, wp_request, wp_pure]
    exact ⟨_, _, _, _, .answered _, rfl⟩
  | judging job outcome =>
    cases outcome with
    | failed error => exact ⟨_, _, _, _, .failed, rfl⟩
    | uploaded =>
      refine wp_mono wp_judge (fun next w' h => ?_) fun _ _ h => h
      obtain ⟨rfl, rfl | ⟨error, rfl⟩⟩ := h
      · exact ⟨_, _, _, _, .judged rfl, rfl⟩
      · exact ⟨_, _, _, _, .tripped rfl error, rfl⟩
    | deferred reason detail refusal =>
      refine wp_mono wp_judge (fun next w' h => ?_) fun _ _ h => h
      obtain ⟨rfl, rfl | ⟨error, rfl⟩⟩ := h
      · exact ⟨_, _, _, _, .judged rfl, rfl⟩
      · exact ⟨_, _, _, _, .tripped rfl error, rfl⟩
  | reporting job outcome => exact ⟨_, _, _, _, .reported, rfl⟩
  | finished => exact absurd rfl h

theorem wp_collect {job : Job} {outcome : UploadOutcome} {channel : List (Job × UploadOutcome)}
    (hchannel : pool.channel = (job, outcome) :: channel) :
    wp env (collect pool)
      (fun pool' w' => ∃ entries done dropped, Move pool w pool' w' entries done dropped)
      (fun _ _ => False) w := by
  unfold collect
  rw [hchannel]
  dsimp only
  cases outcome with
  | uploaded => exact ⟨_, _, _, .collector hchannel .uploaded⟩
  | deferred reason detail refusal =>
    simp only [wp_bind, defer, wp_get]
    split
    · rename_i hdeferred
      exact ⟨_, _, _, .collector hchannel (.again hdeferred)⟩
    · rename_i hdeferred
      exact ⟨_, _, _, .collector hchannel (.deferred hdeferred)⟩
  | failed error => exact ⟨_, _, _, .collector hchannel .failed⟩

/-- A party that can move takes one turn. -/
theorem moves_partyStep {party : Party} (h : party ∈ pool.parties) :
    wp env (partyStep pool party)
      (fun pool' w' => ∃ entries done dropped, Move pool w pool' w' entries done dropped)
      (fun _ _ => False) w := by
  cases party with
  | collector =>
    have hchannel : pool.channel ≠ [] := by
      simp only [Pool.parties, List.mem_append, List.mem_map, reduceCtorEq, and_false,
        exists_false, false_or] at h
      rintro hnil
      simp [hnil] at h
    obtain ⟨⟨job, outcome⟩, channel, hchannel⟩ := List.exists_cons_of_ne_nil hchannel
    exact wp_collect hchannel
  | worker index =>
    have hindex : index < pool.stages.length ∧ pool.stages[index]? ≠ some .finished := by
      simp only [Pool.parties, List.mem_append, List.mem_map, List.mem_filter, List.mem_range,
        decide_eq_true_eq, Party.worker.injEq, exists_eq_right] at h
      rcases h with h | h
      · exact h
      · split at h <;> simp at h
    obtain ⟨before, stage, after, hstages, rfl⟩ : ∃ before stage after,
        pool.stages = before ++ stage :: after ∧ before.length = index := by
      refine ⟨pool.stages.take index, pool.stages[index], pool.stages.drop (index + 1), ?_, ?_⟩
      · rw [← List.drop_eq_getElem_cons hindex.1, List.take_append_drop]
      · simp; omega
    have hget : pool.stages[before.length]? = some stage := by simp [hstages]
    have hstage : stage ≠ .finished := by rintro rfl; exact hindex.2 hget
    simp only [partyStep, hget]
    refine wp_mono (wp_workerStep hstage) (fun pool' w' h => ?_) fun _ _ h => h
    obtain ⟨stage', next, entries, dropped, hturn, rfl⟩ := h
    have hset : next.setStage before.length stage' =
        { next with stages := before ++ stage' :: after } := by
      simp [Pool.setStage, hturn.next_stages, hstages]
    rw [hset]
    exact ⟨_, _, _, .worker hstages hturn⟩

/-! ## The whole phase -/

/-- Every worker has finished and every result is collected. -/
structure Pool.AtEnd (pool : Pool) : Prop where
  finished : ∀ stage ∈ pool.stages, stage = .finished
  collected : pool.channel = []

omit [Unicode] in
theorem Pool.atEnd_of_parties (h : pool.parties = []) : pool.AtEnd := by
  simp only [Pool.parties, List.append_eq_nil_iff, List.map_eq_nil_iff, List.filter_eq_nil_iff,
    List.mem_range, decide_eq_true_eq, not_not] at h
  constructor
  · intro stage hstage
    obtain ⟨index, hindex, rfl⟩ := List.mem_iff_getElem.mp hstage
    have := h.1 index hindex
    rw [List.getElem?_eq_getElem hindex] at this
    exact Option.some.inj this
  · by_contra hne
    simp [hne] at h

omit [Unicode] in
theorem Pool.atEnd_of_measure (h : pool.measure = 0) : pool.AtEnd := by
  simp only [Pool.measure, Nat.add_eq_zero_iff, List.length_eq_zero_iff] at h
  refine ⟨fun stage hstage => ?_, h.2⟩
  obtain ⟨before, after, hstages⟩ := List.append_of_mem hstage
  have hweight : stage.weight = 0 := by
    have := h.1.2
    rw [hstages, Pool.weights_append, Pool.weights] at this
    omega
  cases stage <;> simp_all [Stage.weight]

omit [Unicode] in
theorem getD_turn_mem {party : Party} {others : List Party} (turn : Nat) :
    (party :: others).getD (turn % (others.length + 1)) party ∈ party :: others := by
  have hlt : turn % (others.length + 1) < (party :: others).length :=
    Nat.mod_lt _ (Nat.succ_pos _)
  rw [List.getD_eq_getElem?_getD, List.getElem?_eq_getElem hlt]
  exact List.getElem_mem hlt

theorem wp_schedule {parties : Nat} {Q : Nat → World runInterface Run → Prop}
    {E : ExecError → World runInterface Run → Prop} : wp env (schedule parties) Q E w ↔
      Q (env w.log (.schedule parties)) (w.push (.asked (.schedule parties)
        (env w.log (.schedule parties)))) := Iff.rfl

variable {I : Pool → World runInterface Run → Prop}

/-- The rule of the pool: what every move keeps, and the scheduler's turns, holds at its end. -/
theorem wp_runPool
    (hmove : ∀ pool w pool' w' entries done dropped, I pool w →
      Move pool w pool' w' entries done dropped → I pool' w')
    (hturn : ∀ pool w parties turn, I pool w → I pool (w.push (.asked (.schedule parties) turn)))
    (fuel : Nat) (hI : I pool w) (hfuel : pool.measure ≤ fuel) :
    wp env (runPool fuel pool) (fun pool' w' => I pool' w' ∧ pool'.AtEnd) (fun _ _ => False) w := by
  induction fuel generalizing pool w with
  | zero => exact ⟨hI, Pool.atEnd_of_measure (by omega)⟩
  | succ fuel ih =>
    unfold runPool
    split
    · rename_i hparties
      exact ⟨hI, Pool.atEnd_of_parties hparties⟩
    · rename_i party others hparties
      rw [wp_bind, wp_schedule, wp_bind]
      refine wp_mono (moves_partyStep ?_) (fun pool' w' h => ?_) fun _ _ h => h
      · rw [hparties]
        exact getD_turn_mem _
      · obtain ⟨_, _, _, h⟩ := h
        have hlt := h.lt
        exact ih (hmove _ _ _ _ _ _ _ (hturn _ _ _ _ hI) h) (by omega)

omit [Unicode] in
theorem Pool.measure_start {queue : List Job} {workerCount : Nat} :
    (Pool.start queue workerCount).measure = poolTurns queue workerCount := by
  simp [Pool.measure, Pool.start, poolTurns, weights_replicate]

end Run
end DriveSync
