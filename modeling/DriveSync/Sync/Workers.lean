import DriveSync.Sync.Run

/-!
# DriveSync.Sync.Workers

The upload phase: workers that take uploads from one queue, and the collector that adds up what they
report. The parties take turns as the scheduler says, one step of one party at a time: between a
worker's look at the stop flag and its request any other party may move. The breaker is judged by
the workers, in the order DSM answered; the report and the deferrals are the collector's.
-/

namespace DriveSync

open Prog

/-- An upload of the queue, with the planned write it is. -/
structure Job where
  write : Write
  action : UploadAction
deriving DecidableEq, Repr

/-- What one upload worker settled for one file. -/
inductive UploadOutcome where
  | uploaded
  | deferred (reason : DeferReason) (detail : String) (refusal : Option Refusal)
  | failed (error : ExecError)
deriving DecidableEq, Repr

/-- Where a worker is between two of its steps. -/
inductive Stage where
  | idle
  | taking
  | checking (job : Job)
  | ready (job : Job)
  | sending (job : Job)
  | judging (job : Job) (outcome : UploadOutcome)
  | reporting (job : Job) (outcome : UploadOutcome)
  | finished
deriving DecidableEq, Repr

structure Pool where
  queue : List Job
  stop : Bool
  stages : List Stage
  channel : List (Job × UploadOutcome)
  tripped : Option ExecError
  firstError : Option ExecError

inductive Party where
  | worker (index : Nat)
  | collector
deriving DecidableEq, Repr

namespace Pool

def start (queue : List Job) (workerCount : Nat) : Pool :=
  ⟨queue, false, List.replicate workerCount .idle, [], none, none⟩

def setStage (pool : Pool) (index : Nat) (stage : Stage) : Pool :=
  { pool with stages := pool.stages.set index stage }

/-- The parties that can move: every worker that has not finished, and the collector while
something was reported. -/
def parties (pool : Pool) : List Party :=
  ((List.range pool.stages.length).filter fun index =>
      decide (pool.stages[index]? ≠ some .finished)).map .worker ++
    if pool.channel.isEmpty then [] else [.collector]

end Pool

/-- Keep the first failure, except that a substantive one outranks a cancellation. -/
def recordWorkerError (firstError : Option ExecError) (error : ExecError) : Option ExecError :=
  match firstError with
  | none => some error
  | some .cancelled => some error
  | some first => some first

section Run

variable [Unicode]

def ofUploadReply (reply : Except ExecError Unit) : UploadOutcome :=
  match reply with
  | .ok () => .uploaded
  | .error error =>
    match DeferReason.forPathError error with
    | some reason => .deferred reason error.message (refusalOf error)
    | none => .failed error

/-- Settle an upload DSM answered, and stop every worker if the breaker trips on it. -/
def judge (pool : Pool) (write : Write) (settlement : Settlement) : Exec Pool := do
  settle write settlement
  match (← get).breaker.check with
  | some error => return { pool with stop := true, tripped := pool.tripped.or (some error) }
  | none => return pool

def workerStep (pool : Pool) (index : Nat) : Stage → Exec Pool
  | .idle => do
    if pool.stop then return pool.setStage index .finished
    else if ← isCancelled then return pool.setStage index .finished
    else return pool.setStage index .taking
  | .taking =>
    match pool.queue with
    | [] => return pool.setStage index .finished
    | job :: queue => return { pool with queue := queue }.setStage index (.checking job)
  | .checking job => do
    match ← attempt (uploadPreconditionHolds job.action.remotePath job.action.expectedRemote) with
    | .ok true => return pool.setStage index (.ready job)
    | .ok false =>
      return pool.setStage index (.judging job
        (.deferred .remoteChanged (remoteChangedDetail job.action.remotePath) none))
    | .error error => return pool.setStage index (.judging job (.failed error))
  | .ready job => do
    -- the last look before the request: a verdict reached meanwhile is honoured here
    if pool.stop then return pool.setStage index .finished
    else if ← isCancelled then return pool.setStage index .finished
    else return pool.setStage index (.sending job)
  | .sending job => do
    let reply ← request (.upload job.action.entry job.action.remotePath)
    return pool.setStage index (.judging job (ofUploadReply reply))
  | .judging job outcome =>
    let next := pool.setStage index (.reporting job outcome)
    match outcome with
    | .failed _ => return { next with stop := true }
    | .uploaded => judge next job.write .accepted
    | .deferred _ _ refusal =>
      judge next job.write (.ofRefusal refusal job.action.entry.relative)
  | .reporting job outcome =>
    return { pool with channel := pool.channel ++ [(job, outcome)] }.setStage index .idle
  | .finished => return pool

/-- The collector takes one result. -/
def collect (pool : Pool) : Exec Pool :=
  match pool.channel with
  | [] => return pool
  | (job, outcome) :: channel => do
    let next := { pool with channel := channel }
    match outcome with
    | .uploaded =>
      count fun completed => { completed with
        uploaded := completed.uploaded + 1
        uploadedBytes := saturatingAdd completed.uploadedBytes job.action.entry.size }
      report (.uploaded job.action.entry.relative job.action.entry.size)
      return next
    | .deferred reason detail _ =>
      defer job.action.entry.relative reason detail
      return next
    | .failed error =>
      return { next with firstError := recordWorkerError next.firstError error }

def partyStep (pool : Pool) : Party → Exec Pool
  | .collector => collect pool
  | .worker index =>
    match pool.stages[index]? with
    | none => return pool
    | some stage => workerStep pool index stage

/-- Which party moves next. -/
def schedule (parties : Nat) : Exec Nat := request (.schedule parties)

/-- The parties take turns until none can move. -/
def runPool : Nat → Pool → Exec Pool
  | 0, pool => return pool
  | fuel + 1, pool =>
    match pool.parties with
    | [] => return pool
    | party :: others => do
      let turn ← schedule (others.length + 1)
      let pool ← partyStep pool ((party :: others).getD (turn % (others.length + 1)) party)
      runPool fuel pool

/-- Turns enough for every party to come to its end. -/
def poolTurns (queue : List Job) (workerCount : Nat) : Nat := 9 * queue.length + 2 * workerCount

def uploadWorkers (jobs : Nat) (queue : List Job) : Exec Unit := do
  if queue.isEmpty then pure ()
  else
    let workerCount := min (max 1 (min jobs 16)) queue.length
    let pool ← runPool (poolTurns queue workerCount) (.start queue workerCount)
    let firstError :=
      match pool.tripped with
      | some error => recordWorkerError pool.firstError error
      | none => pool.firstError
    match firstError with
    | some error => fail error
    | none => pure ()

end Run
end DriveSync
