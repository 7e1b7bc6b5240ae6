import DriveSync.Run.Settled
import DriveSync.Batch.Jobs

/-!
# DriveSync.Batch.Run

A batch: every job is planned first, and nothing is changed before all of them are. Then each is
planned anew and carried out, one after the other, while what they delete together stays within one
limit.

* `runSyncBatch`: the two passes over the jobs, and how the batch ends.
* `changes_of_runSyncJob`: what a run of one job can have changed.
* `runSyncBatch_bounded`: what a batch never changes.
* `runSyncBatch_apart`: no two jobs of a batch change anything in one place.
* `runSyncBatch_leaves`: when a job of a batch is left out.
* `runSyncBatch_settles`: what a batch that ends well has done.
-/

namespace DriveSync

open Path Prog

/-! ## The two passes -/

/-- A job of a batch, with what answers its run in either pass. -/
structure NamedSyncSettings where
  name : String
  /-- The address of the NAS, as a batch compares it. -/
  endpoint : String
  username : String
  passwordStdin : Bool
  settings : ResolvedSync
  preflight : JobSite
  execution : JobSite

def NamedSyncSettings.batchJob (job : NamedSyncSettings) : BatchJob :=
  ⟨job.name, job.endpoint, job.username, job.settings.root, job.settings.delete,
    job.settings.maxDelete⟩

inductive SyncBatchStatus where
  | preflighted
  | success
  | partialRun
  | failed
  | notRun
deriving DecidableEq, Repr

/-- What became of a job, and what it asked its NAS to change. -/
structure SyncBatchOutcome where
  name : String
  status : SyncBatchStatus
  preflightPlan : Option SyncPlan
  executionPlan : Option SyncPlan
  mutationAuthorized : Bool
  report : Option SyncCompletion
  error : Option RunError
  changes : List Mutation

inductive BatchFailure where
  | passwordStdin
  | configuration (error : BatchError)
  | deletions (error : BatchError)
  | run (error : RunError)

structure SyncBatchRun where
  outcomes : List SyncBatchOutcome
  result : Except BatchFailure ExitCode

/-- Where a batch looks whether it is cancelled. -/
inductive BatchPoint where
  | preflight (name : String)
  | preflighted
  | execution (name : String)
  | executed
  | ended
deriving DecidableEq, Repr

def validateSyncBatch (jobs : List NamedSyncSettings) : Except BatchFailure ValidatedBatch :=
  if jobs.any (·.passwordStdin) then .error .passwordStdin
  else (ValidatedBatch.new (jobs.map (·.batchJob))).mapError .configuration

def reserveBatchDeletions (reserved planned maximum : Nat) (profile : String) :
    Except RunError Nat :=
  let next := reserved + planned
  if maxCount < next then
    .error (.message "aggregate batch deletion counts exceed this platform's numeric range")
  else if maximum < next then
    .error (.message ("fresh execution plans would delete " ++ toString next ++
      " entries across the batch, exceeding --max-total-delete " ++ toString maximum ++
      "; no mutations for profile " ++ profile.quote ++ " were attempted"))
  else .ok next

section Batch

variable [Unicode] (maxTotalDelete : Nat) (cancelled : BatchPoint → Bool)

def preflightTarget (job : NamedSyncSettings) : Option SyncBatchOutcome :=
  if cancelled (.preflight job.name) then
    some ⟨job.name, .notRun, none, none, false, none, none, []⟩
  else
    (runSyncJob job.settings job.preflight true fun _ => .ok ()).map fun run =>
      match run.outcome with
      | .ok ⟨plan, _, none⟩ =>
        ⟨job.name, .preflighted, some plan, none, false, none, none, run.changes⟩
      | .ok ⟨_, _, some failure⟩ =>
        ⟨job.name, .failed, none, none, false, none, some failure, run.changes⟩
      | .error error => ⟨job.name, .failed, none, none, false, none, some error, run.changes⟩

/-- Whether a target was cancelled, or left out for a cancellation. -/
def SyncBatchOutcome.wasCancelled (outcome : SyncBatchOutcome) : Bool :=
  decide (outcome.status = .notRun) || outcome.error.any (·.isCancelled)

def SyncBatchOutcome.plannedDeletions (outcome : SyncBatchOutcome) : Nat :=
  (outcome.preflightPlan.map (·.deleteCount)).getD 0

/-- The batch between two of its targets. -/
structure BatchState where
  reservedDeletions : Nat
  stopped : Bool
  cancelled : Bool
  outcomes : List SyncBatchOutcome

/-- What the guard of a target did with the plan it was shown: the deletions reserved after it,
whether the target may change anything, and whether it was refused for its deletions. -/
def grantOf (reserved : Nat) (job : NamedSyncSettings) : Option SyncPlan → Nat × Bool × Bool
  | none => (reserved, false, false)
  | some plan =>
    match reserveBatchDeletions reserved plan.deleteCount maxTotalDelete job.name with
    | .ok next => (next, !plan.isEmpty, false)
    | .error _ => (reserved, false, true)

def closeTarget (state : BatchState) (job : NamedSyncSettings) (outcome : SyncBatchOutcome)
    (run : JobRun) : BatchState :=
  let grant := grantOf maxTotalDelete state.reservedDeletions job run.asked
  let authorized := grant.2.1
  let failedStatus : SyncBatchStatus := if authorized then .partialRun else .failed
  match run.outcome with
  | .ok ⟨plan, completion, some failure⟩ =>
    let wasCancelled := state.cancelled || failure.isCancelled
    ⟨grant.1, grant.2.2 || wasCancelled, wasCancelled, state.outcomes ++
      [⟨job.name, failedStatus, outcome.preflightPlan, some plan, authorized, completion,
        some failure, run.changes⟩]⟩
  | .ok ⟨plan, completion, none⟩ =>
    ⟨grant.1, state.stopped, state.cancelled, state.outcomes ++
      [⟨job.name, .success, outcome.preflightPlan, some plan, authorized, completion, none,
        run.changes⟩]⟩
  | .error error =>
    let wasCancelled := state.cancelled || error.isCancelled
    ⟨grant.1, grant.2.2 || wasCancelled, wasCancelled, state.outcomes ++
      [⟨job.name, failedStatus, outcome.preflightPlan, run.asked, authorized, none, some error,
        run.changes⟩]⟩

def executeTarget (state : BatchState) (target : NamedSyncSettings × SyncBatchOutcome) :
    Option BatchState :=
  let (job, outcome) := target
  if state.stopped || cancelled (.execution job.name) then
    some { state with
      cancelled := state.cancelled || cancelled (.execution job.name)
      outcomes := state.outcomes ++ [{ outcome with status := .notRun, report := none }] }
  else
    (runSyncJob job.settings job.execution false fun plan =>
      (reserveBatchDeletions state.reservedDeletions plan.deleteCount maxTotalDelete job.name).map
        fun _ => ()).map (closeTarget maxTotalDelete state job outcome)

def syncBatchCompletion (outcomes : List SyncBatchOutcome) (cancelled : Bool) :
    Except BatchFailure ExitCode :=
  if cancelled then .error (.run (.local .cancelled))
  else if outcomes.any fun outcome =>
      decide (outcome.status = .failed) || decide (outcome.status = .partialRun) then
    .error (.run (.message (
      if outcomes.any fun outcome => decide (outcome.status = .notRun) then
        "batch sync stopped after a target failed; completed targets were retained and later " ++
          "targets were not run"
      else
        "one or more batch targets failed; every other target ran and its result was retained")))
  else if outcomes.any fun outcome => outcome.report.any (·.isPartial) then .ok .partialRun
  else .ok .success

/-- The second pass, once the first has let every job through. -/
def executeBatch (jobs : List NamedSyncSettings) (outcomes : List SyncBatchOutcome) :
    Option SyncBatchRun :=
  ((jobs.zip outcomes).foldlM (executeTarget maxTotalDelete cancelled) ⟨0, false, false, []⟩).map
    fun state => ⟨state.outcomes, syncBatchCompletion state.outcomes
      (state.cancelled || cancelled .executed || cancelled .ended)⟩

/-- What the first pass comes to. -/
def concludePreflight (planOnly changesExitCode : Bool) (validated : ValidatedBatch)
    (jobs : List NamedSyncSettings) (outcomes : List SyncBatchOutcome) : Option SyncBatchRun :=
  let wasCancelled := outcomes.any (·.wasCancelled) || cancelled .preflighted
  if outcomes.any (fun outcome => decide (outcome.status = .failed)) || wasCancelled then
    some ⟨outcomes, .error (.run (
      if wasCancelled || cancelled .ended then .local .cancelled
      else .message "one or more batch preflights failed; no remote mutations were attempted"))⟩
  else
    match validated.preflightDeletions (outcomes.map fun o => (o.name, o.plannedDeletions))
        (some maxTotalDelete) with
    | .error error => some ⟨outcomes, .error (.deletions error)⟩
    | .ok _ =>
      if planOnly then
        some ⟨outcomes, (changesCompletion
          (outcomes.any fun o => o.preflightPlan.any fun plan => !plan.isEmpty) (cancelled .ended)
          changesExitCode).mapError .run⟩
      else executeBatch maxTotalDelete cancelled jobs outcomes

def sortTargets (jobs : List NamedSyncSettings) : List NamedSyncSettings :=
  jobs.mergeSort fun left right => decide (left.name ≤ right.name)

def runSyncBatch (planOnly changesExitCode : Bool) (jobs : List NamedSyncSettings) :
    Option SyncBatchRun :=
  match validateSyncBatch (sortTargets jobs) with
  | .error error => some ⟨[], .error error⟩
  | .ok validated =>
    match (sortTargets jobs).mapM (preflightTarget cancelled) with
    | none => none
    | some outcomes =>
      concludePreflight maxTotalDelete cancelled planOnly changesExitCode validated
        (sortTargets jobs) outcomes

end Batch

/-! ## What one run changes -/

section Changes

variable [Unicode] {settings : ResolvedSync} {job : JobSite} {planOnly : Bool}
  {guard : SyncPlan → Except RunError Unit} {run : JobRun} {ready : Ready}

/-- Changes a plan holds, all of them at or below the destination of the run. -/
structure ChangesOf (settings : ResolvedSync) (plan : SyncPlan) (changes : List Mutation) :
    Prop where
  planned : changes.Subperm plan.mutations
  below : ∀ m ∈ changes, ∃ p, m.place = settings.root.path.append p

omit [Unicode] in
theorem ChangesOf.countP_le {plan : SyncPlan} {changes : List Mutation}
    (h : ChangesOf settings plan changes) :
    changes.countP Mutation.isDelete ≤ plan.deleteCount := by
  rw [← plan.countP_mutations]
  exact h.planned.countP_le _

theorem changesOf_executed {site : Site} {run : RunSettings}
    (h : propose run site = some (.ok ready)) (hroot : run.root = settings.root)
    (env : Env runInterface) (options : ExecuteOptions) :
    ChangesOf settings ready.plan (mutations (executed env ready.plan options).2.log) := by
  refine ⟨mutations_executed env ready.plan options, fun m hm => ?_⟩
  obtain ⟨scan, serverCopy, walk, hscan, hwalk, hrun⟩ := exists_of_propose h
  obtain ⟨prepared, plan, hof, hplan, hnarrow, _⟩ := planRun_ok hrun
  obtain ⟨hlocated, hsealed⟩ := hof.located hwalk
  have hheld : m ∈ ready.plan.mutations := (mutations_executed env ready.plan options).subset hm
  rw [← hroot]
  rcases (planned_of_buildPlan hplan).reaches hlocated hsealed
      ((narrowPlan_ok hnarrow).within.mutations m hheld) with ⟨hcreate, _⟩ | ⟨p, hplace, _⟩
  · exact ⟨.root, by rw [hcreate]; rfl⟩
  · exact ⟨p, hplace⟩

omit [Unicode] in
theorem close_fields (job : JobSite) (run : SyncRun) : (run.close job).changes = run.changes ∧
    (run.close job).asked = run.asked ∧
      ∀ result, (run.close job).outcome = .ok result → run.plan = some result.plan := by
  simp only [SyncRun.close]
  split
  · exact ⟨rfl, rfl, fun _ h => by cases h⟩
  · exact ⟨rfl, rfl, fun _ h => by cases h⟩
  · rename_i plan hplan _
    refine ⟨rfl, rfl, fun result h => ?_⟩
    obtain rfl := Except.ok.inj h
    exact hplan
  · rename_i plan hplan _
    refine ⟨rfl, rfl, fun result h => ?_⟩
    obtain rfl := Except.ok.inj h
    exact hplan

theorem asked_of_runSyncJob (h : runSyncJob settings job planOnly guard = some run)
    (result : SyncResult) (hrun : run.outcome = .ok result) : run.asked = some result.plan := by
  simp only [runSyncJob] at h
  split at h
  · obtain rfl := Option.some.inj h
    cases (close_fields job _).2.2 result hrun
  · obtain ⟨sync, hsync, rfl⟩ := Option.map_eq_some_iff.mp h
    obtain ⟨_, hasked, hplan⟩ := close_fields job sync
    have hheld := hplan result hrun
    rw [hasked, ← hheld]
    simp only [prepareAndRunSync] at hsync
    split at hsync
    · cases hsync
    · cases hsync
      cases hheld
    · split at hsync
      · cases hsync
        cases hheld
      · simp only [carryOut] at hsync
        split at hsync
        · cases hsync
          rfl
        · split at hsync
          · cases hsync
            rfl
          · split at hsync
            · cases hsync
              rfl
            · obtain ⟨_, _, rfl⟩ := Option.map_eq_some_iff.mp hsync
              rfl

/-- A run asks for no change, or its guard let the plan pass that it changes something by. -/
theorem changes_of_runSyncJob (h : runSyncJob settings job planOnly guard = some run) :
    run.changes = [] ∨ planOnly = false ∧ ∃ plan, run.asked = some plan ∧ guard plan = .ok () ∧
      plan.isEmpty = false ∧ ChangesOf settings plan run.changes ∧
      ∀ result, run.outcome = .ok result → result.plan = plan := by
  simp only [runSyncJob] at h
  split at h
  · obtain rfl := Option.some.inj h
    exact .inl (close_fields job _).1
  · obtain ⟨sync, hsync, rfl⟩ := Option.map_eq_some_iff.mp h
    obtain ⟨hchanges, hasked, hplan⟩ := close_fields job sync
    rw [hchanges, hasked]
    simp only [prepareAndRunSync] at hsync
    split at hsync
    · cases hsync
    · cases hsync
      exact .inl rfl
    · rename_i proposed hproposed
      split at hsync
      · cases hsync
        exact .inl rfl
      · rename_i ready happrove
        obtain ⟨_, hguard, hok⟩ := Loop.bind_eq_ok.mp happrove
        obtain ⟨_, _, hok⟩ := Loop.bind_eq_ok.mp hok
        obtain rfl : proposed = ready := Except.ok.inj hok
        simp only [carryOut] at hsync
        split at hsync
        · cases hsync
          exact .inl rfl
        · rename_i hcarries
          split at hsync
          · cases hsync
            exact .inl rfl
          · rename_i hfull
            split at hsync
            · cases hsync
              exact .inl rfl
            · obtain ⟨⟨completion, result⟩, _, rfl⟩ := Option.map_eq_some_iff.mp hsync
              have hof := changesOf_executed hproposed rfl job.environment ⟨settings.jobs, false⟩
              refine .inr ⟨by simpa using hcarries, proposed.plan, rfl, hguard,
                by simpa using hfull, hof, fun result hresult => ?_⟩
              exact (Option.some.inj (hplan result hresult)).symm

end Changes

/-! ## What the batch changes -/

section Bounds

variable [Unicode] {maxTotalDelete : Nat} {cancelled : BatchPoint → Bool}

omit [Unicode] in
theorem reserveBatchDeletions_eq_ok {reserved planned maximum next : Nat} {profile : String} :
    reserveBatchDeletions reserved planned maximum profile = .ok next ↔
      reserved + planned ≤ maxCount ∧ reserved + planned ≤ maximum ∧ next = reserved + planned := by
  simp only [reserveBatchDeletions]
  split
  · rename_i hover
    simp [Nat.not_le_of_lt hover]
  · rename_i hroom
    split
    · rename_i hover
      simp [Nat.not_le_of_lt hover]
    · rename_i hwithin
      simp [Nat.le_of_not_lt hroom, Nat.le_of_not_lt hwithin, eq_comm]

omit [Unicode] in
/-- What is granted stays within the limit, and nothing that was granted is taken back. -/
theorem grantOf_within {reserved : Nat} (job : NamedSyncSettings) (asked : Option SyncPlan)
    (h : reserved ≤ maxTotalDelete) :
    reserved ≤ (grantOf maxTotalDelete reserved job asked).1 ∧
      (grantOf maxTotalDelete reserved job asked).1 ≤ maxTotalDelete := by
  cases asked with
  | none => exact ⟨Nat.le_refl _, h⟩
  | some plan =>
    simp only [grantOf]
    split
    · rename_i next hnext
      obtain ⟨_, hwithin, rfl⟩ := reserveBatchDeletions_eq_ok.mp hnext
      exact ⟨Nat.le_add_right _ _, hwithin⟩
    · exact ⟨Nat.le_refl _, h⟩

omit [Unicode] in
theorem grantOf_of_passed {reserved : Nat} {job : NamedSyncSettings} {plan : SyncPlan}
    (hpassed : (reserveBatchDeletions reserved plan.deleteCount maxTotalDelete job.name).map
      (fun _ => ()) = .ok ()) (hfull : plan.isEmpty = false) :
    (grantOf maxTotalDelete reserved job (some plan)).1 = reserved + plan.deleteCount ∧
      (grantOf maxTotalDelete reserved job (some plan)).2.1 = true := by
  cases hreserve : reserveBatchDeletions reserved plan.deleteCount maxTotalDelete job.name with
  | error error =>
    rw [hreserve] at hpassed
    cases hpassed
  | ok next =>
    obtain ⟨_, _, rfl⟩ := reserveBatchDeletions_eq_ok.mp hreserve
    simp [grantOf, hreserve, hfull]

/-- What an outcome tells of a target: it asked for no change, or it was let through, and what it
asked for is in the plan the outcome holds. -/
structure TargetTold (target : NamedSyncSettings × SyncBatchOutcome) (outcome : SyncBatchOutcome) :
    Prop where
  name : outcome.name = target.1.name
  preflightPlan : outcome.preflightPlan = target.2.preflightPlan
  changes : outcome.changes = [] ∨ outcome.mutationAuthorized = true ∧
    (outcome.status = .success ∨ outcome.status = .partialRun) ∧
    ∃ plan, outcome.executionPlan = some plan ∧ ChangesOf target.1.settings plan outcome.changes

/-- The deletions the targets so far asked for. -/
def deletionsOf (outcomes : List SyncBatchOutcome) : Nat :=
  (outcomes.map fun outcome => outcome.changes.countP Mutation.isDelete).sum

structure WithinLimit (maxTotalDelete : Nat) (done : List (NamedSyncSettings × SyncBatchOutcome))
    (state : BatchState) : Prop where
  reserved : state.reservedDeletions ≤ maxTotalDelete
  deleted : deletionsOf state.outcomes ≤ state.reservedDeletions
  told : List.Forall₂ TargetTold done state.outcomes

omit [Unicode] in
theorem closeTarget_fields (maxTotalDelete : Nat) (state : BatchState) (job : NamedSyncSettings)
    (outcome : SyncBatchOutcome) (run : JobRun) :
    (closeTarget maxTotalDelete state job outcome run).reservedDeletions =
        (grantOf maxTotalDelete state.reservedDeletions job run.asked).1 ∧
      ∃ closed : SyncBatchOutcome,
        (closeTarget maxTotalDelete state job outcome run).outcomes = state.outcomes ++ [closed] ∧
        closed.name = job.name ∧ closed.preflightPlan = outcome.preflightPlan ∧
        closed.changes = run.changes ∧
        closed.mutationAuthorized =
          (grantOf maxTotalDelete state.reservedDeletions job run.asked).2.1 ∧
        (closed.mutationAuthorized = true →
          closed.status = .success ∨ closed.status = .partialRun) ∧
        (closed.executionPlan = run.asked ∨
          ∃ result, run.outcome = .ok result ∧ closed.executionPlan = some result.plan) := by
  have hfailed : ∀ authorized : Bool, authorized = true →
      (if authorized then SyncBatchStatus.partialRun else .failed) = .success ∨
        (if authorized then SyncBatchStatus.partialRun else .failed) = .partialRun := by
    intro authorized h
    simp [h]
  simp only [closeTarget]
  split
  · rename_i plan completion failure houtcome
    exact ⟨rfl, _, rfl, rfl, rfl, rfl, rfl, hfailed _, .inr ⟨_, houtcome, rfl⟩⟩
  · rename_i plan completion houtcome
    exact ⟨rfl, _, rfl, rfl, rfl, rfl, rfl, fun _ => .inl rfl, .inr ⟨_, houtcome, rfl⟩⟩
  · exact ⟨rfl, _, rfl, rfl, rfl, rfl, rfl, hfailed _, .inl rfl⟩

omit [Unicode] in
theorem deletionsOf_append (outcomes : List SyncBatchOutcome) (outcome : SyncBatchOutcome) :
    deletionsOf (outcomes ++ [outcome]) =
      deletionsOf outcomes + outcome.changes.countP Mutation.isDelete := by
  simp [deletionsOf]

theorem executeTarget_bounded {done : List (NamedSyncSettings × SyncBatchOutcome)}
    {target : NamedSyncSettings × SyncBatchOutcome} {state state' : BatchState}
    (h : WithinLimit maxTotalDelete done state) (hname : target.2.name = target.1.name)
    (hidle : target.2.changes = [])
    (hstep : executeTarget maxTotalDelete cancelled state target = some state') :
    WithinLimit maxTotalDelete (done ++ [target]) state' := by
  obtain ⟨job, outcome⟩ := target
  simp only [executeTarget] at hstep
  split at hstep
  · obtain rfl := Option.some.inj hstep
    refine ⟨h.reserved, ?_, List.rel_append h.told (.cons ⟨hname, rfl, .inl hidle⟩ .nil)⟩
    rw [deletionsOf_append, hidle]
    exact h.deleted
  · obtain ⟨run, hrun, rfl⟩ := Option.map_eq_some_iff.mp hstep
    obtain ⟨hreserved, closed, houtcomes, hclosed, hpreflight, hchanges, hauthorized, hstatus,
      hplan⟩ := closeTarget_fields maxTotalDelete state job outcome run
    obtain ⟨hgrows, hwithin⟩ := grantOf_within job run.asked h.reserved
    have hdone := h.deleted
    rcases changes_of_runSyncJob hrun with hnone | ⟨_, plan, hasked, hguard, hfull, hof, hsame⟩
    · refine ⟨hreserved ▸ hwithin, ?_, houtcomes ▸ List.rel_append h.told
        (.cons ⟨hclosed, hpreflight, .inl (hchanges.trans hnone)⟩ .nil)⟩
      rw [houtcomes, deletionsOf_append, hchanges, hnone, hreserved]
      simp only [List.countP_nil]
      omega
    · obtain ⟨hnext, hgranted⟩ := grantOf_of_passed hguard hfull
      rw [hasked] at hreserved hauthorized hwithin
      have hheld : closed.executionPlan = some plan := by
        rcases hplan with hplan | ⟨result, hresult, hplan⟩
        · rw [hplan, hasked]
        · rw [hplan, hsame result hresult]
      have hlet : closed.mutationAuthorized = true := hauthorized.trans hgranted
      have htold : TargetTold (job, outcome) closed :=
        ⟨hclosed, hpreflight, .inr ⟨hlet, hstatus hlet, plan, hheld, hchanges ▸ hof⟩⟩
      refine ⟨hreserved ▸ hwithin, ?_, houtcomes ▸ List.rel_append h.told (.cons htold .nil)⟩
      have hcount := hof.countP_le
      rw [houtcomes, deletionsOf_append, hchanges, hreserved, hnext]
      omega

/-- What every target keeps, the second pass keeps. -/
theorem executeTargets_done {I : List (NamedSyncSettings × SyncBatchOutcome) → BatchState → Prop}
    {targets done : List (NamedSyncSettings × SyncBatchOutcome)} {state state' : BatchState}
    (h : I done state)
    (hstep : ∀ target ∈ targets, ∀ done state state', I done state →
      executeTarget maxTotalDelete cancelled state target = some state' →
      I (done ++ [target]) state')
    (hrun : targets.foldlM (executeTarget maxTotalDelete cancelled) state = some state') :
    I (done ++ targets) state' := by
  induction targets generalizing done state with
  | nil =>
    obtain rfl := Option.some.inj hrun
    rw [List.append_nil]
    exact h
  | cons target targets ih =>
    rw [List.foldlM_cons, Option.bind_eq_bind, Option.bind_eq_some_iff] at hrun
    obtain ⟨next, hnext, hrun⟩ := hrun
    obtain ⟨hfirst, hrest⟩ := List.forall_mem_cons.mp hstep
    rw [List.append_cons]
    exact ih (hfirst done state next h hnext) hrest hrun

/-- The first pass changes nothing. -/
theorem preflightTarget_idle {job : NamedSyncSettings} {outcome : SyncBatchOutcome}
    (h : preflightTarget cancelled job = some outcome) :
    outcome.name = job.name ∧ outcome.changes = [] ∧
      (outcome.wasCancelled = false → outcome.status ≠ .failed →
        ∃ plan, outcome.preflightPlan = some plan) := by
  simp only [preflightTarget] at h
  split at h
  · obtain rfl := Option.some.inj h
    exact ⟨rfl, rfl, fun hrun _ => by simp [SyncBatchOutcome.wasCancelled] at hrun⟩
  · obtain ⟨run, hrun, rfl⟩ := Option.map_eq_some_iff.mp h
    have hnone : run.changes = [] := by
      rcases changes_of_runSyncJob hrun with hnone | ⟨hplanOnly, _⟩
      · exact hnone
      · cases hplanOnly
    split
    · exact ⟨rfl, hnone, fun _ _ => ⟨_, rfl⟩⟩
    · exact ⟨rfl, hnone, fun _ hfailed => absurd rfl hfailed⟩
    · exact ⟨rfl, hnone, fun _ hfailed => absurd rfl hfailed⟩

theorem forall₂_preflight {jobs : List NamedSyncSettings} {outcomes : List SyncBatchOutcome}
    (h : jobs.mapM (preflightTarget cancelled) = some outcomes) :
    List.Forall₂ (fun job outcome => preflightTarget cancelled job = some outcome) jobs
      outcomes := by
  induction jobs generalizing outcomes with
  | nil =>
    obtain rfl := Option.some.inj h
    exact .nil
  | cons job jobs ih =>
    rw [List.mapM_cons, Option.bind_eq_bind, Option.bind_eq_some_iff] at h
    obtain ⟨outcome, houtcome, h⟩ := h
    rw [Option.bind_eq_bind, Option.bind_eq_some_iff] at h
    obtain ⟨rest, hrest, h⟩ := h
    obtain rfl := Option.some.inj h
    exact .cons houtcome (ih hrest)

omit [Unicode] in
theorem exists_of_forall₂ {α β : Type} {R : α → β → Prop} {l : List α} {l' : List β}
    (h : List.Forall₂ R l l') : ∀ b ∈ l', ∃ a ∈ l, R a b := by
  induction h with
  | nil => simp
  | cons hab _ ih =>
    rw [List.forall_mem_cons]
    refine ⟨⟨_, .head _, hab⟩, fun b hb => ?_⟩
    obtain ⟨a, ha, hrel⟩ := ih b hb
    exact ⟨a, .tail _ ha, hrel⟩

/-- What a batch that came to an end has been through: it was refused before it began, it stopped
after the first pass, or it went on to the second, with a plan for every target. -/
theorem runSyncBatch_cases {planOnly changesExitCode : Bool} {jobs : List NamedSyncSettings}
    {run : SyncBatchRun}
    (h : runSyncBatch maxTotalDelete cancelled planOnly changesExitCode jobs = some run) :
    run.outcomes = [] ∧ (∃ error, run.result = .error error) ∨ ∃ validated outcomes,
      validateSyncBatch (sortTargets jobs) = .ok validated ∧
      List.Forall₂ (fun job outcome => preflightTarget cancelled job = some outcome)
        (sortTargets jobs) outcomes ∧
      (run.outcomes = outcomes ∧ (planOnly = true ∨ ∃ error, run.result = .error error) ∧
          (outcomes.any (·.wasCancelled) = true → run.result = .error (.run (.local .cancelled))) ∨
        planOnly = false ∧
        (∀ outcome ∈ outcomes, ∃ plan, outcome.preflightPlan = some plan) ∧
        (∃ report, validated.preflightDeletions
          (outcomes.map fun o => (o.name, o.plannedDeletions)) (some maxTotalDelete) = .ok report) ∧
        executeBatch maxTotalDelete cancelled (sortTargets jobs) outcomes = some run) := by
  simp only [runSyncBatch] at h
  split at h
  · obtain rfl := Option.some.inj h
    exact .inl ⟨rfl, _, rfl⟩
  · rename_i validated hvalid
    split at h
    · cases h
    · rename_i outcomes houtcomes
      have hpreflight := forall₂_preflight houtcomes
      refine .inr ⟨validated, outcomes, hvalid, hpreflight, ?_⟩
      simp only [concludePreflight] at h
      split at h
      · obtain rfl := Option.some.inj h
        exact .inl ⟨rfl, .inr ⟨_, rfl⟩, fun hcancelled => by simp [hcancelled]⟩
      · rename_i hclear
        have hgoes : outcomes.any (·.wasCancelled) ≠ true := by
          intro hcancelled
          simp [hcancelled] at hclear
        split at h
        · obtain rfl := Option.some.inj h
          exact .inl ⟨rfl, .inr ⟨_, rfl⟩, fun hcancelled => absurd hcancelled hgoes⟩
        · rename_i report hreport
          split at h
          · rename_i hplanOnly
            obtain rfl := Option.some.inj h
            exact .inl ⟨rfl, .inl hplanOnly, fun hcancelled => absurd hcancelled hgoes⟩
          · rename_i hexecutes
            refine .inr ⟨by simpa using hexecutes, fun outcome houtcome => ?_, ⟨report, hreport⟩, h⟩
            obtain ⟨job, _, hjob⟩ := exists_of_forall₂ hpreflight outcome houtcome
            simp only [Bool.or_eq_true, List.any_eq_true, decide_eq_true_eq, not_or, not_exists,
              not_and] at hclear
            exact (preflightTarget_idle hjob).2.2
              (by simpa using hclear.2.1 outcome houtcome) (hclear.1 outcome houtcome)

/-- What a job of a batch has changed, as its outcome tells it. -/
structure JobTold (job : NamedSyncSettings) (outcome : SyncBatchOutcome) : Prop where
  name : outcome.name = job.name
  changes : outcome.changes = [] ∨ outcome.mutationAuthorized = true ∧
    (outcome.status = .success ∨ outcome.status = .partialRun) ∧
    ∃ plan, outcome.executionPlan = some plan ∧ ChangesOf job.settings plan outcome.changes

omit [Unicode] in
theorem forall₂_of_zip {α β γ : Type} {R : α × β → γ → Prop} {S : α → γ → Prop}
    {jobs : List α} {first : List β} {second : List γ} (hlength : jobs.length = first.length)
    (h : List.Forall₂ R (jobs.zip first) second)
    (himp : ∀ job before, ∀ outcome ∈ second, R (job, before) outcome → S job outcome) :
    List.Forall₂ S jobs second := by
  induction jobs generalizing first second with
  | nil =>
    cases h
    exact .nil
  | cons job jobs ih =>
    cases first with
    | nil => cases hlength
    | cons before first =>
      cases h with
      | cons hfirst hrest =>
        obtain ⟨hone, hall⟩ := forall_and.mp fun job => forall_and.mp fun before =>
          List.forall_mem_cons.mp (himp job before)
        exact .cons (hone job before hfirst) (ih (Nat.succ.inj hlength) hrest fun j b => hall j b)

omit [Unicode] in
theorem plans_of_zip {jobs : List NamedSyncSettings} {first second : List SyncBatchOutcome}
    (hlength : jobs.length = first.length)
    (h : List.Forall₂ TargetTold (jobs.zip first) second) :
    second.map (·.preflightPlan) = first.map (·.preflightPlan) := by
  have hplans : List.Forall₂ (fun target outcome => target.2.preflightPlan = outcome.preflightPlan)
      (jobs.zip first) second := h.imp fun _ _ htold => htold.preflightPlan.symm
  have hsame : (jobs.zip first).map (·.2.preflightPlan) = second.map (·.preflightPlan) := by
    rw [← List.forall₂_eq_eq_eq, List.forall₂_map_left_iff, List.forall₂_map_right_iff]
    exact hplans
  have hfirst : (jobs.zip first).map (·.2) = first := List.map_snd_zip (Nat.le_of_eq hlength.symm)
  have hmap := congrArg (List.map (·.preflightPlan)) hfirst
  rw [List.map_map] at hmap
  exact hsame.symm.trans hmap

omit [Unicode] in
theorem deletionsOf_idle {outcomes : List SyncBatchOutcome}
    (h : ∀ outcome ∈ outcomes, outcome.changes = []) : deletionsOf outcomes = 0 := by
  rw [deletionsOf, List.sum_eq_zero]
  intro count hcount
  obtain ⟨outcome, houtcome, rfl⟩ := List.mem_map.mp hcount
  rw [h outcome houtcome, List.countP_nil]

/-- What a batch that was not refused before it began has changed. -/
structure BatchTold (jobs : List NamedSyncSettings) (planOnly : Bool) (maxTotalDelete : Nat)
    (outcomes : List SyncBatchOutcome) : Prop where
  apart : jobs.Pairwise fun left right => left.batchJob.Apart right.batchJob
  told : List.Forall₂ JobTold jobs outcomes
  deleted : deletionsOf outcomes ≤ maxTotalDelete
  planned : (∀ outcome ∈ outcomes, outcome.changes = []) ∨ planOnly = false ∧
    (∀ outcome ∈ outcomes, ∃ plan, outcome.preflightPlan = some plan) ∧
    (outcomes.map (·.plannedDeletions)).sum ≤ maxTotalDelete

omit [Unicode] in
theorem valid_of_validateSyncBatch {jobs : List NamedSyncSettings} {validated : ValidatedBatch}
    (h : validateSyncBatch jobs = .ok validated) :
    jobs ≠ [] ∧ jobs.Pairwise fun left right => left.batchJob.Apart right.batchJob := by
  rw [validateSyncBatch] at h
  split at h
  · cases h
  · cases hnew : ValidatedBatch.new (jobs.map (·.batchJob)) with
    | error error =>
      rw [hnew] at h
      cases h
    | ok batch =>
      obtain ⟨hfull, _, hapart, _⟩ := ValidatedBatch.new_ok_iff.mp hnew
      exact ⟨fun hnone => hfull (List.map_eq_nil_iff.mpr hnone), List.pairwise_map.mp hapart⟩

theorem told_of_runSyncBatch {planOnly changesExitCode : Bool} {jobs : List NamedSyncSettings}
    {run : SyncBatchRun}
    (h : runSyncBatch maxTotalDelete cancelled planOnly changesExitCode jobs = some run) :
    run.outcomes = [] ∨ BatchTold (sortTargets jobs) planOnly maxTotalDelete run.outcomes := by
  rcases runSyncBatch_cases h with ⟨hnone, _⟩ | ⟨validated, first, hvalid, hpreflight, hrun⟩
  · exact .inl hnone
  · have hapart := (valid_of_validateSyncBatch hvalid).2
    have hidle : ∀ outcome ∈ first, outcome.changes = [] := by
      intro outcome houtcome
      obtain ⟨job, _, hjob⟩ := exists_of_forall₂ hpreflight outcome houtcome
      exact (preflightTarget_idle hjob).2.1
    refine .inr ?_
    rcases hrun with ⟨hstopped, _⟩ | ⟨hexecutes, hplans, ⟨report, hreport⟩, hrun⟩
    · rw [hstopped]
      refine ⟨hapart, hpreflight.imp fun job outcome hjob => ?_,
        (deletionsOf_idle hidle).trans_le (Nat.zero_le _), .inl hidle⟩
      exact ⟨(preflightTarget_idle hjob).1, .inl (preflightTarget_idle hjob).2.1⟩
    · obtain ⟨state, hstate, rfl⟩ := Option.map_eq_some_iff.mp hrun
      have htargets : ∀ target ∈ (sortTargets jobs).zip first,
          target.2.name = target.1.name ∧ target.2.changes = [] := by
        intro target htarget
        have hjob := List.forall₂_zip hpreflight htarget
        exact ⟨(preflightTarget_idle hjob).1, (preflightTarget_idle hjob).2.1⟩
      have hbounded : WithinLimit maxTotalDelete ([] ++ (sortTargets jobs).zip first) state := by
        refine executeTargets_done ⟨Nat.zero_le _, Nat.zero_le _, .nil⟩ ?_ hstate
        intro target htarget done before after hbefore hstep
        exact executeTarget_bounded hbefore (htargets target htarget).1 (htargets target htarget).2
          hstep
      have htold : List.Forall₂ JobTold (sortTargets jobs) state.outcomes :=
        forall₂_of_zip hpreflight.length_eq hbounded.told
          fun _ _ _ _ htarget => ⟨htarget.name, htarget.changes⟩
      have hsame := plans_of_zip hpreflight.length_eq hbounded.told
      have hcounts : state.outcomes.map (·.plannedDeletions) = first.map (·.plannedDeletions) := by
        have hcount := congrArg (List.map fun plan : Option SyncPlan =>
          (plan.map (·.deleteCount)).getD 0) hsame
        rw [List.map_map, List.map_map] at hcount
        exact hcount
      refine ⟨hapart, htold, hbounded.deleted.trans hbounded.reserved,
        .inr ⟨hexecutes, fun outcome houtcome => ?_, ?_⟩⟩
      · have hmem := List.mem_map_of_mem (f := (·.preflightPlan)) houtcome
        rw [hsame] at hmem
        obtain ⟨before, hbefore, hplan⟩ := List.mem_map.mp hmem
        obtain ⟨plan, hheld⟩ := hplans before hbefore
        exact ⟨plan, hplan.symm.trans hheld⟩
      · have hsum := (ValidatedBatch.of_preflightDeletions hreport).2.2.2.1 maxTotalDelete rfl
        rw [List.map_map] at hsum
        rw [hcounts]
        exact hsum

omit [Unicode] in
theorem atOrUnder_append_right (root : RemoteRoot) (p : RelPath) :
    AtOrUnder root.path (root.path.append p) := by
  by_cases hp : p = .root
  · subst hp
    exact .inl rfl
  · exact .inr ((encloses_iff_mem_ancestors root.path_ne_root).mp ⟨p, hp, rfl⟩)

omit [Unicode] in
theorem rootsOverlap_of_atOrUnder {root root' : RemoteRoot} (h : AtOrUnder root.path root'.path) :
    rootsOverlap root root' = true ∧ rootsOverlap root' root = true := by
  simp only [rootsOverlap, Bool.or_eq_true, decide_eq_true_eq]
  rcases h with hsame | habove
  · have heq : root' = root := by
      show RemoteRoot.mk root'.path root'.path_ne_root = ⟨root.path, root.path_ne_root⟩
      simp only [hsame]
    exact ⟨.inl (.inl heq.symm), .inl (.inl heq)⟩
  · have hencloses : Encloses root.path root'.path :=
      (encloses_iff_mem_ancestors root.path_ne_root).mpr habove
    have hcontains := RemoteRoot.containsChild_iff_encloses.mpr hencloses
    exact ⟨.inl (.inr hcontains), .inr hcontains⟩

omit [Unicode] in
/-- Below destinations that do not overlap, no place is in another. -/
theorem not_atOrUnder_of_apart {root root' : RemoteRoot} {p q : RelPath}
    (h : rootsOverlap root root' = false) :
    ¬AtOrUnder (root.path.append p) (root'.path.append q) := by
  intro hbelow
  have hroot := (atOrUnder_append_right root p).trans hbelow
  rcases atOrUnder_total hroot (atOrUnder_append_right root' q) with habove | habove
  · rw [(rootsOverlap_of_atOrUnder habove).1] at h
    cases h
  · rw [(rootsOverlap_of_atOrUnder habove).2] at h
    cases h

end Bounds

/-! ## How a batch ends -/

section Ending

variable [Unicode] {maxTotalDelete : Nat} {cancelled : BatchPoint → Bool}

def SyncBatchOutcome.Fell (outcome : SyncBatchOutcome) : Prop :=
  outcome.status = .failed ∨ outcome.status = .partialRun

/-- The job was carried out and did not fail; the outcome holds its plan and its account. -/
def Succeeded (job : NamedSyncSettings) (outcome : SyncBatchOutcome) : Prop :=
  outcome.status = .success ∧ ∃ guard run plan,
    runSyncJob job.settings job.execution false guard = some run ∧
    run.outcome = .ok ⟨plan, outcome.report, none⟩ ∧ outcome.executionPlan = some plan

/-- What the plan of a target deletes that was made for its execution. -/
def SyncBatchOutcome.executedDeletions (outcome : SyncBatchOutcome) : Nat :=
  (outcome.executionPlan.map (·.deleteCount)).getD 0

/-- A job failed, and the plans so far delete more together than there is room for. -/
def Overdrawn (maxTotalDelete : Nat) (outcomes : List SyncBatchOutcome) : Prop :=
  (∃ outcome ∈ outcomes, outcome.Fell) ∧
    min maxTotalDelete maxCount < (outcomes.map (·.executedDeletions)).sum

omit [Unicode] in
theorem Overdrawn.append {outcomes : List SyncBatchOutcome} (h : Overdrawn maxTotalDelete outcomes)
    (more : List SyncBatchOutcome) : Overdrawn maxTotalDelete (outcomes ++ more) := by
  obtain ⟨⟨outcome, houtcome, hfell⟩, hover⟩ := h
  refine ⟨⟨outcome, List.mem_append_left _ houtcome, hfell⟩, ?_⟩
  rw [List.map_append, List.sum_append]
  omega

/-- A job is left out only after a cancellation, or where the plans before it delete too much. -/
structure Progress (maxTotalDelete : Nat) (done : List (NamedSyncSettings × SyncBatchOutcome))
    (state : BatchState) : Prop where
  ended : List.Forall₂ (fun target outcome => outcome.name = target.1.name ∧
    (outcome.status = .notRun ∨ outcome.Fell ∨ Succeeded target.1 outcome)) done state.outcomes
  reserved : state.reservedDeletions ≤ (state.outcomes.map (·.executedDeletions)).sum
  stopped : state.stopped = true → state.cancelled = true ∨ Overdrawn maxTotalDelete state.outcomes
  left : ∀ before outcome after, state.outcomes = before ++ outcome :: after →
    outcome.status = .notRun → state.cancelled = true ∨ Overdrawn maxTotalDelete before

omit [Unicode] in
theorem left_append {P : List SyncBatchOutcome → Prop} {outcomes : List SyncBatchOutcome}
    {last : SyncBatchOutcome}
    (h : ∀ before outcome after, outcomes = before ++ outcome :: after →
      outcome.status = .notRun → P before)
    (hlast : last.status = .notRun → P outcomes) (before : List SyncBatchOutcome)
    (outcome : SyncBatchOutcome) (after : List SyncBatchOutcome)
    (hsplit : outcomes ++ [last] = before ++ outcome :: after) (hleft : outcome.status = .notRun) :
    P before := by
  rcases List.eq_nil_or_concat after with rfl | ⟨init, final, rfl⟩
  · obtain ⟨rfl, hsame⟩ := List.append_inj' hsplit rfl
    obtain rfl := (List.cons.inj hsame).1
    exact hlast hleft
  · rw [List.concat_eq_append, ← List.cons_append, ← List.append_assoc] at hsplit
    obtain ⟨hbefore, _⟩ := List.append_inj' hsplit rfl
    exact h before outcome init hbefore hleft

omit [Unicode] in
theorem grantOf_reserved (maxTotalDelete reserved : Nat) (job : NamedSyncSettings)
    (asked : Option SyncPlan) :
    (grantOf maxTotalDelete reserved job asked).1 ≤
        reserved + (asked.map (·.deleteCount)).getD 0 ∧
      ((grantOf maxTotalDelete reserved job asked).2.2 = true →
        min maxTotalDelete maxCount < reserved + (asked.map (·.deleteCount)).getD 0) := by
  cases asked with
  | none => simp [grantOf]
  | some plan =>
    simp only [grantOf, Option.map_some, Option.getD_some]
    cases hreserve : reserveBatchDeletions reserved plan.deleteCount maxTotalDelete job.name with
    | ok next =>
      obtain ⟨_, _, rfl⟩ := reserveBatchDeletions_eq_ok.mp hreserve
      simp
    | error error =>
      refine ⟨Nat.le_add_right _ _, fun _ => ?_⟩
      by_contra hroom
      have hok : reserveBatchDeletions reserved plan.deleteCount maxTotalDelete job.name =
          .ok (reserved + plan.deleteCount) :=
        reserveBatchDeletions_eq_ok.mpr ⟨by omega, by omega, rfl⟩
      rw [hreserve] at hok
      cases hok

omit [Unicode] in
theorem closeTarget_ended (maxTotalDelete : Nat) (state : BatchState) (job : NamedSyncSettings)
    (outcome : SyncBatchOutcome) {run : JobRun}
    (hasked : ∀ result, run.outcome = .ok result → run.asked = some result.plan) :
    ∃ closed : SyncBatchOutcome,
      (closeTarget maxTotalDelete state job outcome run).outcomes = state.outcomes ++ [closed] ∧
      closed.name = job.name ∧ closed.executionPlan = run.asked ∧ (closed.Fell ∧
        ((closeTarget maxTotalDelete state job outcome run).stopped = true →
          (closeTarget maxTotalDelete state job outcome run).cancelled = true ∨
            (grantOf maxTotalDelete state.reservedDeletions job run.asked).2.2 = true) ∧
        (state.cancelled = true →
          (closeTarget maxTotalDelete state job outcome run).cancelled = true) ∨
        (closeTarget maxTotalDelete state job outcome run).stopped = state.stopped ∧
        (closeTarget maxTotalDelete state job outcome run).cancelled = state.cancelled ∧
        closed.status = .success ∧ ∃ plan, run.outcome = .ok ⟨plan, closed.report, none⟩ ∧
          closed.executionPlan = some plan) := by
  have hfell : ∀ authorized : Bool,
      (if authorized then SyncBatchStatus.partialRun else .failed) = .failed ∨
        (if authorized then SyncBatchStatus.partialRun else .failed) = .partialRun := by
    intro authorized
    cases authorized with
    | false => exact .inl rfl
    | true => exact .inr rfl
  have hstops : ∀ refused wasCancelled : Bool, (refused || wasCancelled) = true →
      wasCancelled = true ∨ refused = true := by
    intro refused wasCancelled h
    exact (Bool.or_eq_true_iff.mp h).symm
  simp only [closeTarget]
  split
  · rename_i plan completion failure houtcome
    refine ⟨_, rfl, rfl, (hasked _ houtcome).symm, .inl ⟨hfell _, hstops _ _, fun h => ?_⟩⟩
    rw [h, Bool.true_or]
  · rename_i plan completion houtcome
    exact ⟨_, rfl, rfl, (hasked _ houtcome).symm, .inr ⟨rfl, rfl, rfl, plan, houtcome, rfl⟩⟩
  · refine ⟨_, rfl, rfl, rfl, .inl ⟨hfell _, hstops _ _, fun h => ?_⟩⟩
    rw [h, Bool.true_or]

theorem executeTarget_progress {done : List (NamedSyncSettings × SyncBatchOutcome)}
    {target : NamedSyncSettings × SyncBatchOutcome} {state state' : BatchState}
    (h : Progress maxTotalDelete done state) (hname : target.2.name = target.1.name)
    (hstep : executeTarget maxTotalDelete cancelled state target = some state') :
    Progress maxTotalDelete (done ++ [target]) state' := by
  obtain ⟨job, outcome⟩ := target
  simp only [executeTarget] at hstep
  split at hstep
  · rename_i hskip
    obtain rfl := Option.some.inj hstep
    have hwhy : (state.cancelled || cancelled (.execution job.name)) = true ∨
        Overdrawn maxTotalDelete state.outcomes := by
      rcases Bool.or_eq_true_iff.mp hskip with hstopped | hcancelled
      · exact (h.stopped hstopped).imp_left fun hcancelled => by rw [hcancelled, Bool.true_or]
      · exact .inl (by rw [hcancelled, Bool.or_true])
    refine ⟨List.rel_append h.ended (.cons ⟨hname, .inl rfl⟩ .nil), ?_, fun _ => ?_, ?_⟩
    · have hbefore := h.reserved
      simp only [List.map_append, List.sum_append]
      omega
    · exact hwhy.imp_right fun hover => hover.append _
    · refine left_append (fun before other after hsplit hleft => ?_) fun _ => hwhy
      exact (h.left before other after hsplit hleft).imp_left fun hcancelled => by
        rw [hcancelled, Bool.true_or]
  · rename_i hgoes
    simp only [Bool.or_eq_true, not_or, Bool.not_eq_true] at hgoes
    obtain ⟨run, hrun, rfl⟩ := Option.map_eq_some_iff.mp hstep
    obtain ⟨closed, houtcomes, hclosed, hplanned, hend⟩ :=
      closeTarget_ended maxTotalDelete state job outcome (asked_of_runSyncJob hrun)
    obtain ⟨hreserved, hrefused⟩ :=
      grantOf_reserved maxTotalDelete state.reservedDeletions job run.asked
    have hbefore := h.reserved
    have hcount : closed.executedDeletions = (run.asked.map (·.deleteCount)).getD 0 := by
      rw [SyncBatchOutcome.executedDeletions, hplanned]
    have hsum : ((state.outcomes ++ [closed]).map (·.executedDeletions)).sum =
        (state.outcomes.map (·.executedDeletions)).sum + closed.executedDeletions := by
      simp
    have hgrant := (closeTarget_fields maxTotalDelete state job outcome run).1
    rcases hend with ⟨hfell, hstops, hstays⟩ | ⟨hstopped, hcancelled, hsuccess, plan, hok, hplan⟩
    · refine ⟨houtcomes ▸ List.rel_append h.ended (.cons ⟨hclosed, .inr (.inl hfell)⟩ .nil),
        ?_, ?_, ?_⟩
      · rw [houtcomes, hsum, hgrant]
        omega
      · intro hstopped
        refine (hstops hstopped).imp_right fun hover => ?_
        rw [houtcomes]
        refine ⟨⟨closed, List.mem_append_right _ (.head _), hfell⟩, ?_⟩
        have hpast := hrefused hover
        rw [hsum]
        omega
      · rw [houtcomes]
        refine left_append (fun before other after hsplit hleft => ?_) fun hleft => ?_
        · exact (h.left before other after hsplit hleft).imp_left hstays
        · rcases hfell with hfell | hfell
          · rw [hfell] at hleft
            cases hleft
          · rw [hfell] at hleft
            cases hleft
    · have hsucceeded : Succeeded job closed := ⟨hsuccess, _, run, plan, hrun, hok, hplan⟩
      refine ⟨houtcomes ▸ List.rel_append h.ended (.cons ⟨hclosed, .inr (.inr hsucceeded)⟩ .nil),
        ?_, ?_, ?_⟩
      · rw [houtcomes, hsum, hgrant]
        omega
      · intro hstops
        rw [hstopped, hgoes.1] at hstops
        cases hstops
      · rw [houtcomes, hcancelled]
        refine left_append h.left fun hleft => ?_
        rw [hsuccess] at hleft
        cases hleft

omit [Unicode] in
theorem syncBatchCompletion_eq_ok {outcomes : List SyncBatchOutcome} {cancelled : Bool}
    {code : ExitCode} (h : syncBatchCompletion outcomes cancelled = .ok code) :
    cancelled = false ∧ (∀ outcome ∈ outcomes, ¬outcome.Fell) ∧
      (code ≠ .partialRun → ∀ outcome ∈ outcomes, ∀ completion ∈ outcome.report,
        completion.isPartial = false) := by
  simp only [syncBatchCompletion] at h
  split at h
  · cases h
  · rename_i hgoes
    split at h
    · cases h
    · rename_i hclear
      refine ⟨by simpa using hgoes, ?_, ?_⟩
      · intro outcome houtcome hfell
        refine hclear (List.any_eq_true.mpr ⟨outcome, houtcome, ?_⟩)
        simpa [SyncBatchOutcome.Fell] using hfell
      · intro hcode outcome houtcome completion hreport
        split at h
        · obtain rfl := Except.ok.inj h
          exact absurd rfl hcode
        · rename_i hwhole
          by_contra hpartial
          refine hwhole (List.any_eq_true.mpr ⟨outcome, houtcome, ?_⟩)
          rw [Option.mem_def] at hreport
          simpa [hreport] using hpartial

end Ending

namespace ClearedBatch

open Small

def target (name : String) (settings : ResolvedSync) (job : JobSite) : NamedSyncSettings :=
  ⟨name, "https://nas:5001/", "sync", false, settings, job, job⟩

/-- The one job deletes a file. -/
def docs : NamedSyncSettings := target "docs" ClearedFolder.settings ClearedFolder.job

/-- The other, with the same NAS, creates its destination. -/
def music : NamedSyncSettings := target "music" MissingFolder.settings
  (CalmRun.job MissingFolder.tree MissingFolder.before MissingFolder.after)

def never (_ : BatchPoint) : Bool := false

theorem sort_targets : sortTargets [docs, music] = [docs, music] :=
  List.mergeSort_of_pairwise (by simp [docs, music, target])

theorem valid_targets : ∃ validated, validateSyncBatch [docs, music] = .ok validated ∧
    validated.jobs = [docs.batchJob, music.batchJob] := by
  have hsort : sortJobs [docs.batchJob, music.batchJob] = [docs.batchJob, music.batchJob] :=
    List.mergeSort_of_pairwise (by decide)
  obtain ⟨validated, hnew, hjobs⟩ := @ValidatedBatch.new_of_clear
    [docs.batchJob, music.batchJob] (by simp) (by rw [hsort]; decide) (by rw [hsort]; decide)
  refine ⟨validated, ?_, hjobs.trans hsort⟩
  have hnew' : ValidatedBatch.new ([docs, music].map (·.batchJob)) = .ok validated := hnew
  rw [validateSyncBatch, hnew']
  rfl

section Target

variable [Unicode] {name : String} {settings : ResolvedSync} {tree : Scan.SourceTree}
  {station station' : FileStation} {ready : Ready}

theorem preflight_target (hproposed : propose settings.run (CalmRun.job tree station station').site =
      some (.ok ready)) :
    preflightTarget never (target name settings (CalmRun.job tree station station')) =
      some ⟨name, .preflighted, some ready.plan, none, false, none, none, []⟩ := by
  have hrun : runSyncJob settings (CalmRun.job tree station station') true (fun _ => .ok ()) =
      some ⟨some ready.plan, .ok ⟨ready.plan, none, none⟩, []⟩ := by
    simp only [runSyncJob, prepareAndRunSync, hproposed]
    rfl
  simp only [preflightTarget, target, hrun]
  rfl

theorem execute_target {completion : SyncCompletion} {changes : List Mutation} {reserved next : Nat}
    {outcomes : List SyncBatchOutcome} {outcome : SyncBatchOutcome}
    (hproposed : propose settings.run (CalmRun.job tree station station').site = some (.ok ready))
    (hcarried : carryOut settings (CalmRun.job tree station station') false ready =
      some ⟨some ready.plan, some ready.plan, some completion, .ok (), changes⟩)
    (hfull : ready.plan.isEmpty = false)
    (hreserve : reserveBatchDeletions reserved ready.plan.deleteCount 1 name = .ok next) :
    executeTarget 1 never ⟨reserved, false, false, outcomes⟩
        (target name settings (CalmRun.job tree station station'), outcome) =
      some ⟨next, false, false, outcomes ++ [⟨name, .success, outcome.preflightPlan, some ready.plan,
        true, some completion, none, changes⟩]⟩ := by
  have hrun : runSyncJob settings (CalmRun.job tree station station') false (fun plan =>
      (reserveBatchDeletions reserved plan.deleteCount 1 name).map fun _ => ()) =
        some ⟨some ready.plan, .ok ⟨ready.plan, some completion, none⟩, changes⟩ := by
    have happrove : approve (CalmRun.job tree station station').site (fun plan =>
        (reserveBatchDeletions reserved plan.deleteCount 1 name).map fun _ => ()) ready =
          .ok ready := by
      rw [approve, hreserve]
      rfl
    simp only [runSyncJob, prepareAndRunSync, hproposed, happrove]
    exact congrArg (Option.map (SyncRun.close _)) hcarried
  have hgrant : grantOf 1 reserved (target name settings (CalmRun.job tree station station'))
      (some ready.plan) = (next, true, false) := by
    have hreserve' : reserveBatchDeletions reserved ready.plan.deleteCount 1
        (target name settings (CalmRun.job tree station station')).name = .ok next := hreserve
    simp only [grantOf, hreserve', hfull]
    rfl
  have hrun' : runSyncJob (target name settings (CalmRun.job tree station station')).settings
      (target name settings (CalmRun.job tree station station')).execution false (fun plan =>
        (reserveBatchDeletions reserved plan.deleteCount 1
          (target name settings (CalmRun.job tree station station')).name).map fun _ => ()) =
        some ⟨some ready.plan, .ok ⟨ready.plan, some completion, none⟩, changes⟩ := hrun
  simp only [executeTarget, never, Bool.or_false, Bool.false_eq_true, if_false, hrun',
    Option.map_some, closeTarget, hgrant]
  rfl

end Target

/-- Both jobs are planned, let through and carried out, and each of them changes something. -/
theorem exists_run : letI := charwise
    ∃ (run : SyncBatchRun) (first second : SyncBatchOutcome),
      runSyncBatch 1 never false false [docs, music] = some run ∧ run.result = .ok .success ∧
        run.outcomes = [first, second] ∧ first.changes ≠ [] ∧ second.changes ≠ [] := by
  let _ := charwise
  obtain ⟨ready, completion, changes, hproposed, hcarried, hfull, hcount, hchanges, hnone⟩ :=
    ClearedFolder.exists_carried
  obtain ⟨ready', completion', changes', hproposed', hcarried', hfull', hcount', hchanges',
    hnone'⟩ := MissingFolder.exists_carried
  let planned : SyncBatchOutcome :=
    ⟨"docs", .preflighted, some ready.plan, none, false, none, none, []⟩
  let planned' : SyncBatchOutcome :=
    ⟨"music", .preflighted, some ready'.plan, none, false, none, none, []⟩
  let ended : SyncBatchOutcome :=
    ⟨"docs", .success, some ready.plan, some ready.plan, true, some completion, none, changes⟩
  let ended' : SyncBatchOutcome :=
    ⟨"music", .success, some ready'.plan, some ready'.plan, true, some completion', none, changes'⟩
  have hpreflight : [docs, music].mapM (preflightTarget never) = some [planned, planned'] := by
    have hdocs : preflightTarget never docs = some planned := preflight_target hproposed
    have hmusic : preflightTarget never music = some planned' := preflight_target hproposed'
    simp only [List.mapM_cons, hdocs, hmusic]
    rfl
  have hexecute : executeTarget 1 never ⟨0, false, false, []⟩ (docs, planned) =
      some ⟨1, false, false, [ended]⟩ :=
    execute_target hproposed hcarried hfull (by rw [hcount]; rfl)
  have hexecute' : executeTarget 1 never ⟨1, false, false, [ended]⟩ (music, planned') =
      some ⟨1, false, false, [ended, ended']⟩ :=
    execute_target hproposed' hcarried' hfull' (by rw [hcount']; rfl)
  obtain ⟨validated, hvalid, hjobs⟩ := valid_targets
  have hlet : ∃ report, validated.preflightDeletions
      [("docs", planned.plannedDeletions), ("music", planned'.plannedDeletions)] (some 1) =
        .ok report := by
    have hplanned : planned.plannedDeletions = 1 := hcount
    have hplanned' : planned'.plannedDeletions = 0 := hcount'
    rw [hplanned, hplanned']
    refine ⟨_, ValidatedBatch.preflightDeletions_of (by rw [hjobs]; exact .refl _) ?_ ?_ ?_⟩
    · rw [hjobs]
      intro job hjob count hmem
      simp only [List.mem_cons, List.not_mem_nil, or_false, Prod.mk.injEq] at hjob hmem
      rcases hjob with rfl | rfl
      all_goals
        rcases hmem with ⟨_, rfl⟩ | ⟨_, rfl⟩
        all_goals decide
    · rw [hjobs]
      decide
    · simp
  obtain ⟨report, hreport⟩ := hlet
  have hwhole : completion.isPartial = false := by simp [SyncCompletion.isPartial, hnone]
  have hwhole' : completion'.isPartial = false := by simp [SyncCompletion.isPartial, hnone']
  refine ⟨⟨[ended, ended'], .ok .success⟩, ended, ended', ?_, rfl, rfl, hchanges, hchanges'⟩
  have hbatch : executeBatch 1 never [docs, music] [planned, planned'] =
      some ⟨[ended, ended'], .ok .success⟩ := by
    have hended : syncBatchCompletion [ended, ended'] false = .ok .success := by
      simp [syncBatchCompletion, ended, ended', hwhole, hwhole']
    simp only [executeBatch, List.zip_cons_cons, List.zip_nil_right, List.foldlM_cons, hexecute,
      Option.bind_eq_bind, Option.bind_some, hexecute']
    exact congrArg (fun result => some (SyncBatchRun.mk [ended, ended'] result)) hended
  simp only [runSyncBatch, sort_targets, hvalid, hpreflight]
  rw [← hbatch]
  have hnames : ([planned, planned'].map fun o => (o.name, o.plannedDeletions)) =
      [("docs", planned.plannedDeletions), ("music", planned'.plannedDeletions)] := rfl
  simp only [concludePreflight, hnames, hreport]
  rfl

end ClearedBatch

/-- A batch never deletes more than its limit, however many jobs it has. A job changes something
only once every job has a plan and the plans together delete no more than that, in a run that is not
for the plans only; what it changes is in the plan its outcome holds and below its own destination,
and the outcome says that it was let change something. -/
theorem runSyncBatch_bounded [Unicode] {maxTotalDelete : Nat} {cancelled : BatchPoint → Bool}
    {planOnly changesExitCode : Bool} {jobs : List NamedSyncSettings} {run : SyncBatchRun}
    (h : runSyncBatch maxTotalDelete cancelled planOnly changesExitCode jobs = some run) :
    deletionsOf run.outcomes ≤ maxTotalDelete ∧
      ∀ outcome ∈ run.outcomes, outcome.changes ≠ [] → planOnly = false ∧
        (∀ other ∈ run.outcomes, ∃ plan, other.preflightPlan = some plan) ∧
        (run.outcomes.map (·.plannedDeletions)).sum ≤ maxTotalDelete ∧
        outcome.mutationAuthorized = true ∧
        (outcome.status = .success ∨ outcome.status = .partialRun) ∧
        ∃ job ∈ jobs, outcome.name = job.name ∧ ∃ plan, outcome.executionPlan = some plan ∧
          outcome.changes.Subperm plan.mutations ∧
          ∀ m ∈ outcome.changes, ∃ p, m.place = job.settings.root.path.append p := by
  rcases told_of_runSyncBatch h with hnone | htold
  · rw [hnone]
    exact ⟨Nat.zero_le _, by simp⟩
  · refine ⟨htold.deleted, fun outcome houtcome hchanges => ?_⟩
    obtain ⟨job, hjob, hname, hjobChanges⟩ := exists_of_forall₂ htold.told outcome houtcome
    obtain ⟨hauthorized, hstatus, plan, hplan, hof⟩ := hjobChanges.resolve_left hchanges
    have hmem : job ∈ jobs := (List.mergeSort_perm jobs _).mem_iff.mp hjob
    rcases htold.planned with hidle | ⟨hexecutes, hplans, hsum⟩
    · exact absurd (hidle outcome houtcome) hchanges
    · exact ⟨hexecutes, hplans, hsum, hauthorized, hstatus, job, hmem, hname, plan, hplan,
        hof.planned, hof.below⟩

namespace ClearedBatch

theorem bounded_target : letI := charwise
    ∃ (run : SyncBatchRun) (first second : SyncBatchOutcome),
      runSyncBatch 1 never false false [docs, music] = some run ∧ run.outcomes = [first, second] ∧
      first.changes ≠ [] ∧ second.changes ≠ [] ∧ deletionsOf run.outcomes ≤ 1 ∧
      ∀ outcome ∈ run.outcomes, outcome.changes ≠ [] →
        (run.outcomes.map (·.plannedDeletions)).sum ≤ 1 ∧ outcome.mutationAuthorized = true ∧
        ∃ job ∈ [docs, music], outcome.name = job.name ∧
          ∃ plan, outcome.executionPlan = some plan ∧ outcome.changes.Subperm plan.mutations ∧
          ∀ m ∈ outcome.changes, ∃ p, m.place = job.settings.root.path.append p := by
  let _ := charwise
  obtain ⟨run, first, second, hrun, _, houtcomes, hfirst, hsecond⟩ := exists_run
  obtain ⟨hdeleted, hall⟩ := runSyncBatch_bounded hrun
  refine ⟨run, first, second, hrun, houtcomes, hfirst, hsecond, hdeleted,
    fun outcome hmem hchanges => ?_⟩
  obtain ⟨_, _, hplanned, hauthorized, _, hjob⟩ := hall outcome hmem hchanges
  exact ⟨hplanned, hauthorized, hjob⟩

end ClearedBatch

/-- No two jobs of a batch with one NAS change anything in one place, or one of them anything below
a place that the other changes. -/
theorem runSyncBatch_apart [Unicode] {maxTotalDelete : Nat} {cancelled : BatchPoint → Bool}
    {planOnly changesExitCode : Bool} {jobs : List NamedSyncSettings} {run : SyncBatchRun}
    (h : runSyncBatch maxTotalDelete cancelled planOnly changesExitCode jobs = some run) :
    ((sortTargets jobs).zip run.outcomes).Pairwise fun left right =>
      left.1.endpoint = right.1.endpoint → ∀ m ∈ left.2.changes, ∀ m' ∈ right.2.changes,
        ¬AtOrUnder m.place m'.place ∧ ¬AtOrUnder m'.place m.place := by
  rcases told_of_runSyncBatch h with hnone | htold
  · rw [hnone, List.zip_nil_right]
    exact .nil
  · have hbelow : ∀ target ∈ (sortTargets jobs).zip run.outcomes, ∀ m ∈ target.2.changes,
        ∃ p, m.place = target.1.settings.root.path.append p := by
      intro target htarget m hm
      rcases (List.forall₂_zip htold.told htarget).changes with hnone | ⟨_, _, _, _, hof⟩
      · rw [hnone] at hm
        cases hm
      · exact hof.below m hm
    have hapart : ((sortTargets jobs).zip run.outcomes).Pairwise fun left right =>
        left.1.batchJob.Apart right.1.batchJob := by
      have hjobs : ((sortTargets jobs).zip run.outcomes).map (·.1) = sortTargets jobs :=
        List.map_fst_zip (Nat.le_of_eq htold.told.length_eq)
      rw [← List.pairwise_map (f := fun target : NamedSyncSettings × SyncBatchOutcome => target.1)
        (R := fun left right => left.batchJob.Apart right.batchJob), hjobs]
      exact htold.apart
    refine hapart.imp_of_mem fun {left right} hleft hright hclear hendpoint m hm m' hm' => ?_
    obtain ⟨p, hp⟩ := hbelow left hleft m hm
    obtain ⟨q, hq⟩ := hbelow right hright m' hm'
    rw [hp, hq]
    exact ⟨not_atOrUnder_of_apart (hclear hendpoint),
      not_atOrUnder_of_apart (hclear.symm hendpoint.symm)⟩

namespace ClearedBatch

/-- Nothing one of the two jobs changes is at, above or below what the other changes. -/
theorem apart_target : letI := charwise
    ∃ (run : SyncBatchRun) (first second : SyncBatchOutcome),
      runSyncBatch 1 never false false [docs, music] = some run ∧ run.outcomes = [first, second] ∧
      first.changes ≠ [] ∧ second.changes ≠ [] ∧
      ∀ m ∈ first.changes, ∀ m' ∈ second.changes,
        ¬AtOrUnder m.place m'.place ∧ ¬AtOrUnder m'.place m.place := by
  let _ := charwise
  obtain ⟨run, first, second, hrun, _, houtcomes, hfirst, hsecond⟩ := exists_run
  have hapart := runSyncBatch_apart hrun
  rw [sort_targets, houtcomes] at hapart
  refine ⟨run, first, second, hrun, houtcomes, hfirst, hsecond, ?_⟩
  exact (List.pairwise_cons.mp hapart).1 (music, second) (.head _) rfl

end ClearedBatch

theorem progress_of_executeBatch [Unicode] {maxTotalDelete : Nat} {cancelled : BatchPoint → Bool}
    {jobs : List NamedSyncSettings} {first : List SyncBatchOutcome} {run : SyncBatchRun}
    (hpreflight : List.Forall₂ (fun job outcome => preflightTarget cancelled job = some outcome)
      jobs first)
    (h : executeBatch maxTotalDelete cancelled jobs first = some run) :
    ∃ state, Progress maxTotalDelete (jobs.zip first) state ∧ run.outcomes = state.outcomes ∧
      run.result = syncBatchCompletion state.outcomes
        (state.cancelled || cancelled .executed || cancelled .ended) := by
  obtain ⟨state, hstate, rfl⟩ := Option.map_eq_some_iff.mp h
  refine ⟨state, ?_, rfl, rfl⟩
  have hstart : Progress maxTotalDelete [] ⟨0, false, false, []⟩ := by
    refine ⟨.nil, Nat.zero_le _, fun hstops => ?_, fun before outcome after hsplit => ?_⟩
    · cases hstops
    · exact absurd hsplit (by simp)
  have hdone : Progress maxTotalDelete ([] ++ jobs.zip first) state := by
    refine executeTargets_done hstart ?_ hstate
    intro target htarget done before after hbefore hstep
    exact executeTarget_progress hbefore
      (preflightTarget_idle (List.forall₂_zip hpreflight htarget)).1 hstep
  exact hdone

/-- A job of a batch is left out only where the batch was cancelled, or where the plans of the jobs
before it, as they were made for their execution, together delete more than the limit. That a job
failed is no reason to leave out another. -/
theorem runSyncBatch_leaves [Unicode] {maxTotalDelete : Nat} {cancelled : BatchPoint → Bool}
    {planOnly changesExitCode : Bool} {jobs : List NamedSyncSettings} {run : SyncBatchRun}
    {before after : List SyncBatchOutcome} {outcome : SyncBatchOutcome}
    (h : runSyncBatch maxTotalDelete cancelled planOnly changesExitCode jobs = some run)
    (hsplit : run.outcomes = before ++ outcome :: after) (hleft : outcome.status = .notRun) :
    run.result = .error (.run (.local .cancelled)) ∨ Overdrawn maxTotalDelete before := by
  rcases runSyncBatch_cases h with ⟨hnone, _⟩ | ⟨validated, first, _, hpreflight, hrun⟩
  · rw [hnone] at hsplit
    exact absurd hsplit (by simp)
  · rcases hrun with ⟨hsame, _, hcancels⟩ | ⟨_, _, _, hrun⟩
    · refine .inl (hcancels (List.any_eq_true.mpr ⟨outcome, ?_, ?_⟩))
      · rw [← hsame, hsplit]
        simp
      · rw [SyncBatchOutcome.wasCancelled, hleft]
        rfl
    · obtain ⟨state, hprogress, houtcomes, hresult⟩ := progress_of_executeBatch hpreflight hrun
      refine (hprogress.left before outcome after (houtcomes ▸ hsplit) hleft).imp_left
        fun hcancelled => ?_
      rw [hresult, hcancelled]
      rfl

namespace ClearedBatch

def skipped (name : String) : SyncBatchOutcome :=
  ⟨name, .notRun, none, none, false, none, none, []⟩

/-- The batch is cancelled before its jobs are planned. -/
theorem leaves_target : letI := charwise
    ∃ run, runSyncBatch 1 (fun _ => true) false false [docs, music] = some run ∧
      run.outcomes = [skipped "docs", skipped "music"] ∧
      (run.result = .error (.run (.local .cancelled)) ∨ Overdrawn 1 [skipped "docs"]) := by
  let _ := charwise
  obtain ⟨validated, hvalid, _⟩ := valid_targets
  have hrun : runSyncBatch 1 (fun _ => true) false false [docs, music] =
      some ⟨[skipped "docs", skipped "music"], .error (.run (.local .cancelled))⟩ := by
    have hmap : [docs, music].mapM (preflightTarget fun _ => true) =
        some [skipped "docs", skipped "music"] := rfl
    simp only [runSyncBatch, sort_targets, hvalid, hmap]
    rfl
  exact ⟨_, hrun, rfl, @runSyncBatch_leaves _ _ _ _ _ _ _ [skipped "docs"] [] (skipped "music") hrun
    rfl rfl⟩

end ClearedBatch

/-- A batch that ends well, and was not asked for its plans only, has run every one of its jobs,
none of which failed. If it does not end as a partial one, each of them has settled its source. -/
theorem runSyncBatch_settles [Unicode] {maxTotalDelete : Nat} {cancelled : BatchPoint → Bool}
    {changesExitCode : Bool} {jobs : List NamedSyncSettings} {run : SyncBatchRun} {code : ExitCode}
    (h : runSyncBatch maxTotalDelete cancelled false changesExitCode jobs = some run)
    (hend : run.result = .ok code) :
    jobs ≠ [] ∧ List.Forall₂ (fun job outcome => outcome.name = job.name ∧
      outcome.status = .success ∧ ∃ result : SyncResult, result.failure = none ∧
        outcome.executionPlan = some result.plan ∧ outcome.report = result.completion ∧
        (code ≠ .partialRun → SettledBy job.settings job.execution result))
      (sortTargets jobs) run.outcomes := by
  rcases runSyncBatch_cases h with ⟨_, error, hfails⟩ | ⟨validated, first, hvalid, hpreflight, hrun⟩
  · rw [hfails] at hend
    cases hend
  · have hfull : jobs ≠ [] := by
      rintro rfl
      exact (valid_of_validateSyncBatch hvalid).1 List.mergeSort_nil
    refine ⟨hfull, ?_⟩
    rcases hrun with ⟨_, hplanOnly | ⟨error, hfails⟩, _⟩ | ⟨_, _, _, hrun⟩
    · cases hplanOnly
    · rw [hfails] at hend
      cases hend
    · obtain ⟨state, hprogress, houtcomes, hresult⟩ := progress_of_executeBatch hpreflight hrun
      rw [hresult] at hend
      obtain ⟨hgoes, hclear, hwhole⟩ := syncBatchCompletion_eq_ok hend
      simp only [Bool.or_eq_false_iff] at hgoes
      have hran : ∀ outcome ∈ state.outcomes, outcome.status ≠ .notRun := by
        intro outcome houtcome hleft
        obtain ⟨before, after, hsplit⟩ := List.append_of_mem houtcome
        rcases hprogress.left before outcome after hsplit hleft with hcancelled | ⟨hfell, _⟩
        · rw [hgoes.1.1] at hcancelled
          cases hcancelled
        · obtain ⟨other, hother, hfell⟩ := hfell
          have hmem : other ∈ state.outcomes := by
            rw [hsplit]
            exact List.mem_append_left _ hother
          exact hclear other hmem hfell
      rw [houtcomes]
      refine forall₂_of_zip hpreflight.length_eq hprogress.ended
        fun job _ outcome houtcome hended => ?_
      obtain ⟨hname, hended⟩ := hended
      obtain ⟨hsuccess, guard, jobRun, plan, hjob, hok, hplan⟩ :=
        (hended.resolve_left (hran outcome houtcome)).resolve_left (hclear outcome houtcome)
      refine ⟨hname, hsuccess, ⟨plan, outcome.report, none⟩, rfl, hplan, rfl, fun hcode => ?_⟩
      refine settledBy_of_runSyncJob hjob hok rfl fun record hrecord => ?_
      cases hreport : outcome.report with
      | none => simp [SyncResult.deferred, hreport] at hrecord
      | some completion =>
        have hpartial := hwhole hcode outcome houtcome completion hreport
        simp only [SyncResult.deferred, hreport] at hrecord
        simp only [SyncCompletion.isPartial, List.any_eq_false] at hpartial
        simpa using hpartial record hrecord

namespace ClearedBatch

theorem settles_target : letI := charwise
    ∃ (run : SyncBatchRun) (first second : SyncBatchOutcome),
      runSyncBatch 1 never false false [docs, music] = some run ∧ run.outcomes = [first, second] ∧
      (∃ result : SyncResult, first.executionPlan = some result.plan ∧
        SettledBy ClearedFolder.settings ClearedFolder.job result) ∧
      ∃ result : SyncResult, second.executionPlan = some result.plan ∧
        SettledBy MissingFolder.settings
          (CalmRun.job MissingFolder.tree MissingFolder.before MissingFolder.after) result := by
  let _ := charwise
  obtain ⟨run, first, second, hrun, hend, houtcomes, _⟩ := exists_run
  obtain ⟨_, hall⟩ := runSyncBatch_settles hrun hend
  rw [sort_targets, houtcomes] at hall
  obtain ⟨⟨_, _, result, _, hplan, _, hsettled⟩, hrest⟩ := List.forall₂_cons.mp hall
  obtain ⟨⟨_, _, result', _, hplan', _, hsettled'⟩, _⟩ := List.forall₂_cons.mp hrest
  exact ⟨run, first, second, hrun, houtcomes, ⟨result, hplan, hsettled (by decide)⟩,
    ⟨result', hplan', hsettled' (by decide)⟩⟩

end ClearedBatch

end DriveSync
