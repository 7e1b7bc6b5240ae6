import DriveSync.Run.Prepare
import DriveSync.Sync.Requests

/-!
# DriveSync.Run.Job

A run of a job from its settings to its verdict: it is prepared, carried out, and then both sides are
walked once more, to see whether the destination holds what the source did when the run began.

* `buildReconciliationPlan`: what is still to do, by the second look.
* `carryOut`: a plan is carried out, and the run gets its verdict.
* `runSyncJob`: the whole of it, with what is left of it when it fails.
-/

namespace DriveSync

open Path Prog

def RunError.isCancelled : RunError → Bool
  | .local .cancelled | .remote .cancelled | .digest .cancelled => true
  | _ => false

/-! ## What a run did -/

/-- What a run did, and what the look after it established. -/
structure SyncCompletion where
  report : ExecutionReport
  /-- What the second look still holds because the source changed while the run worked. -/
  changedDuringRun : Nat
  /-- Whether the run failed after some of this work. -/
  failed : Bool
  /-- What the run left for the next one, each path once. -/
  deferred : List DeferredPath
  mtimeNotKept : Nat
  /-- How many paths the plan does not carry for a lasting reason. -/
  skipped : Nat
  incompleteListings : List RelPath
  linkGuardUnchecked : Nat

namespace SyncCompletion

def deferredOnly (deferred : List DeferredPath) (skipped : Nat) : SyncCompletion :=
  ⟨.empty, 0, false, deferred, 0, skipped, [], 0⟩

/-- Something is left that the next run is expected to pick up. -/
def isPartial (completion : SyncCompletion) : Bool :=
  completion.deferred.any fun record => !record.reason.isLasting

def addRecord (s : Std.TreeSet RelPath × List DeferredPath) (record : DeferredPath) :
    Std.TreeSet RelPath × List DeferredPath :=
  if s.1.contains record.relative then s else (s.1.insert record.relative, s.2 ++ [record])

/-- Record more, keeping the first reason for a path. -/
def addDeferred (completion : SyncCompletion) (extra : List DeferredPath) : SyncCompletion :=
  let named := Std.TreeSet.ofList (completion.deferred.map (·.relative)) compare
  { completion with deferred := (extra.foldl addRecord (named, completion.deferred)).2 }

end SyncCompletion

def lastingSkips (plan : SyncPlan) : Nat :=
  plan.skipped.countP fun skip =>
    match skip.reason with
    | .deferred _ => false
    | _ => true

def runIsPartial (plan : SyncPlan) (completion : Option SyncCompletion) : Bool :=
  match completion with
  | some completion => completion.isPartial
  | none => plan.skipped.any skipIsTransientDeferral

/-! ## What is asked of a run -/

structure ResolvedSync where
  root : RemoteRoot
  rules : IgnoreRules
  scope : Scope
  delete : Bool
  allowEmptySource : Bool
  maxDelete : Nat
  compare : CompareMode
  forceResync : Bool
  jobs : Nat

namespace ResolvedSync

def effectiveCompareMode (settings : ResolvedSync) : CompareMode :=
  if settings.forceResync then .force else settings.compare

def run (settings : ResolvedSync) : RunSettings :=
  ⟨settings.root, settings.rules, settings.scope, settings.delete, settings.allowEmptySource,
    settings.maxDelete, settings.effectiveCompareMode⟩

end ResolvedSync

/-- The options a plan is rebuilt with after a run: nothing a plan that is never carried out could
refuse. -/
def reconciliationOptions (run : PlanOptions) (compare : CompareMode) : PlanOptions :=
  { run with allowEmptySource := true, maxDelete := 18446744073709551615, compare := compare }

inductive JobCheckpoint where
  | started
  | nothingToDo
  | executing
  | executed
  | reconciling
  | reconciled
  | logged
deriving DecidableEq, Repr

/-- What the file system, DSM and the operator answer in the course of a run. -/
structure JobSite where
  site : Site
  environment : Env runInterface
  /-- What the cancellation token and the event log have to say on the way. -/
  checkpoint : JobCheckpoint → Except RunError Unit
  /-- How many times of uploads DSM did not keep, as the client saw it. -/
  mtimeUnhonoured : Nat
  /-- The second look at both sides. -/
  again : Site
  /-- When a local path was changed last, as it is now. -/
  modified : RelPath → Option Int
  startedAt : Int

section Job

variable [Unicode] (settings : ResolvedSync) (job : JobSite)

/-! ## The second look -/

/-- From the second walks to what is still to do, with the paths left out of it. -/
def rebuildPlan (serverCopy : Bool) (L : LocalInventory) (walk : Walk) :
    Except RunError (SyncPlan × List DeferredPath) := do
  checkLinkBoundaries walk
  job.again.checkpoint .remoteScanned
  let prepared ← populatePlanDigests job.again.digests settings.rules settings.compare serverCopy
    settings.delete walk.incompleteDirectories L ⟨walk.rootExists, walk.entries⟩
  let plan ← (buildPlan settings.root prepared.L prepared.R settings.rules
    (reconciliationOptions (runPlanOptions settings.run serverCopy) settings.compare)).mapError .plan
  let rebuilt ← withholdDoubtful job.again walk prepared.R
    { plan with linkGuardUnchecked := walk.linkGuardUnchecked }
    (prepared.deferred ++ vanishedRemoteFolderDeferrals walk.vanishedDirectories)
  job.again.checkpoint .planned
  return rebuilt

def buildReconciliationPlan (serverCopy : Bool) :
    Option (Except RunError (SyncPlan × List DeferredPath)) :=
  match job.again.checkpoint .started with
  | .error error => some (.error error)
  | .ok () =>
    match Scan.scanScoped ⟨job.again.tree, settings.rules, settings.scope, false⟩ unbounded
        job.again.source with
    | none => none
    | some (.error error) => some (.error (.local error))
    | some (.ok scan) =>
      match job.again.checkpoint .localScanned with
      | .error error => some (.error error)
      | .ok () =>
        match remoteInventoryScoped job.again.station settings.root settings.rules settings.scope
            unbounded job.again.fuel with
        | none => none
        | some (.error error) => some (.error (.remote error))
        | some (.ok walk) => some (rebuildPlan settings job serverCopy scan.inventory walk)

/-! ## Carrying a plan out -/

/-- What a run leaves, and what it asked the NAS to change on the way. -/
structure SyncRun where
  /-- The plan the guard was shown. -/
  asked : Option SyncPlan
  plan : Option SyncPlan
  completion : Option SyncCompletion
  result : Except RunError Unit
  changes : List Mutation

/-- What a run that carried its plan out knows before the second look. -/
def completionOf (ready : Ready) (report : ExecutionReport) : SyncCompletion :=
  let completion := SyncCompletion.deferredOnly ready.deferred (lastingSkips ready.plan)
  let completion := { completion with
    incompleteListings := ready.incomplete
    linkGuardUnchecked := ready.plan.linkGuardUnchecked }
  let completion := completion.addDeferred report.deferred
  { completion with
    mtimeNotKept := saturatingAdd report.mtimeNotKept job.mtimeUnhonoured
    report := { report with deferred := [] } }

/-- The plan holds nothing to do; what was left out has still to be told. -/
def completionOfNothing (ready : Ready) : Option SyncCompletion :=
  if !ready.deferred.isEmpty || decide (0 < lastingSkips ready.plan) || !ready.incomplete.isEmpty ||
      decide (0 < ready.plan.linkGuardUnchecked) then
    some { SyncCompletion.deferredOnly ready.deferred (lastingSkips ready.plan) with
      incompleteListings := ready.incomplete
      linkGuardUnchecked := ready.plan.linkGuardUnchecked }
  else none

/-- The verdict on a plan that was carried out. -/
def concludeRun (ready : Ready) (execution : Except ExecError Unit) (completion : SyncCompletion) :
    Option (SyncCompletion × Except RunError Unit) :=
  let ended : Except RunError Unit := do
    job.checkpoint .executed
    execution.mapError .local
    job.checkpoint .reconciling
  match ended with
  | .error error => some (completion, .error error)
  | .ok () =>
    match buildReconciliationPlan settings job ready.serverCopy with
    | none => none
    | some (.error error) => some (completion, .error error)
    | some (.ok (rebuilt, deferred)) =>
      let completion := completion.addDeferred deferred
      match ensureReconciled job.modified ready.plan rebuilt job.startedAt
          (.fromRecords completion.deferred) with
      | .error pending => some (completion, .error (.reconciliationPending pending))
      | .ok verdict =>
        some ({ completion with changedDuringRun := verdict.changedDuringRun },
          job.checkpoint .reconciled)

def carryOut (planOnly : Bool) (ready : Ready) : Option SyncRun :=
  if planOnly then some ⟨ready.plan, ready.plan, none, .ok (), []⟩
  else if ready.plan.isEmpty then
    some ⟨ready.plan, ready.plan, completionOfNothing ready, job.checkpoint .nothingToDo, []⟩
  else
    match job.checkpoint .executing with
    | .error error => some ⟨ready.plan, ready.plan, none, .error error, []⟩
    | .ok () =>
      let (execution, world) := executed job.environment ready.plan ⟨settings.jobs, false⟩
      (concludeRun settings job ready execution (completionOf job ready world.state.completed)).map
        fun (completion, result) =>
          ⟨ready.plan, ready.plan, some completion, result, mutations world.log⟩

def prepareAndRunSync (planOnly : Bool) (guard : SyncPlan → Except RunError Unit) : Option SyncRun :=
  match propose settings.run job.site with
  | none => none
  | some (.error error) => some ⟨none, none, none, .error error, []⟩
  | some (.ok proposed) =>
    match approve job.site guard proposed with
    | .error error => some ⟨proposed.plan, none, none, .error error, []⟩
    | .ok ready => carryOut settings job planOnly ready

/-! ## The whole job -/

/-- A run that had a plan, and the failure after it, if there was one. -/
structure SyncResult where
  plan : SyncPlan
  completion : Option SyncCompletion
  failure : Option RunError

/-- A run of a job: how it ended, the plan its guard was shown, and what it asked the NAS to change. -/
structure JobRun where
  asked : Option SyncPlan
  outcome : Except RunError SyncResult
  changes : List Mutation

/-- A failure does not take away the account of what was done before it. -/
def SyncRun.close (run : SyncRun) : JobRun :=
  let result : Except RunError Unit := run.result.bind fun _ => job.checkpoint .logged
  match run.plan, result with
  | none, .error error => ⟨run.asked, .error error, run.changes⟩
  | none, .ok () =>
    ⟨run.asked, .error (.message "a sync run produced neither a plan nor a failure"), run.changes⟩
  | some plan, .ok () => ⟨run.asked, .ok ⟨plan, run.completion, none⟩, run.changes⟩
  | some plan, .error error =>
    ⟨run.asked, .ok ⟨plan, run.completion.map ({ · with failed := true }), some error⟩, run.changes⟩

def runSyncJob (planOnly : Bool) (guard : SyncPlan → Except RunError Unit) : Option JobRun :=
  match job.checkpoint .started with
  | .error error => some (SyncRun.close job ⟨none, none, none, .error error, []⟩)
  | .ok () => (prepareAndRunSync settings job planOnly guard).map (SyncRun.close job)

/-! ## How the program ends -/

inductive ExitCode where
  | success
  | changes
  | partialRun
deriving DecidableEq, Repr

def changesCompletion (changes cancelled changesExitCode : Bool) : Except RunError ExitCode :=
  if cancelled then .error (.local .cancelled)
  else if changesExitCode && changes then .ok .changes
  else .ok .success

/-- A run that deferred a path ends by its own exit code where it would have ended well. -/
def partialCompletion (plan : SyncPlan) (completion : Option SyncCompletion)
    (result : Except RunError ExitCode) : Except RunError ExitCode :=
  match result with
  | .ok code => if runIsPartial plan completion then .ok .partialRun else .ok code
  | .error error => .error error

def SyncResult.exit (result : SyncResult) (cancelled changesExitCode : Bool) :
    Except RunError ExitCode :=
  match result.failure with
  | some failure => .error failure
  | none => partialCompletion result.plan result.completion
    (changesCompletion (!result.plan.isEmpty) cancelled changesExitCode)

end Job

end DriveSync
