import DriveSync.Audit.Types
import DriveSync.Lib.Proc
import Mathlib.Data.List.Sort

/-!
# DriveSync.Audit.Outbox

The audit outbox: a record for each transaction, written before what it is about and removed once
its end is on the audit log. Every operation works under the outbox lock, reads the job's files, and
is cut off wherever its process ends.

A call is answered as `act` says. A read fails or tells what is there; a write that fails may have
put the whole record in place, and an append that fails may be on the log. The history is what was
done to the records and the log, and which operations were called.
-/

namespace DriveSync
namespace Audit

inductive Folder where
  | requests | processing
deriving DecidableEq, Repr

inductive Call where
  | lockOutbox
  | unlockOutbox
  | recoverAuditOutboxTemps
  | recordExists (transaction : String)
  | readRecord (transaction : String)
  | writeRecord (record : AuditOutboxRecord)
  | removeRecord (transaction : String)
  | listRecords
  | append (record : AuditOutboxRecord) (state : String)
  | currentIdentity
  | parentIdentity
  | identityIsLive (identity : Identity)
  | readJob (folder : Folder) (jobId : String)
  | readResponse (jobId : String)
  | replaceResponse (jobId : String) (old new : QueuedResponse)

def Call.Reply : Call → Type
  | lockOutbox => BridgeResult Unit
  | unlockOutbox => Unit
  | recoverAuditOutboxTemps => BridgeResult Unit
  | recordExists _ => Bool
  | readRecord _ => BridgeResult AuditOutboxRecord
  | writeRecord _ => BridgeResult Unit
  | removeRecord _ => BridgeResult Unit
  | listRecords => BridgeResult (List String)
  | append _ _ => BridgeResult Unit
  | currentIdentity => BridgeResult Identity
  | parentIdentity => BridgeResult Identity
  | identityIsLive _ => BridgeResult Bool
  | readJob _ _ => BridgeResult (Option ParsedJob)
  | readResponse _ => BridgeResult (Option QueuedResponse)
  | replaceResponse _ _ _ => BridgeResult Unit

def controlSignature : Signature := ⟨Call, Call.Reply⟩

abbrev Exec (α : Type) : Type := Proc controlSignature ErrorKind α

/-! ## Calls -/

open Proc (lift fail)

def openAuditOutboxLock : Exec Unit := .call .lockOutbox .done

def dropOutboxLock : Exec Unit := .call .unlockOutbox fun _ => .done (.ok ())

def recoverAuditOutboxTemps : Exec Unit := .call .recoverAuditOutboxTemps .done

def recordExists (transaction : String) : Exec Bool :=
  .call (.recordExists transaction) fun present => .done (.ok present)

def listRecords : Exec (List String) := .call .listRecords .done

def append (record : AuditOutboxRecord) (state : String) : Exec Unit :=
  .call (.append record state) .done

def currentProcessIdentity : Exec Identity := .call .currentIdentity .done

def parentProcessIdentity : Exec Identity := .call .parentIdentity .done

def processIdentityIsLive (identity : Identity) : Exec Bool :=
  .call (.identityIsLive identity) .done

def readTransientJob (folder : Folder) (jobId : String) : Exec (Option ParsedJob) :=
  .call (.readJob folder jobId) .done

def readTransientResponse (jobId : String) : Exec (Option QueuedResponse) :=
  .call (.readResponse jobId) .done

def replaceResponse (jobId : String) (old new : QueuedResponse) : Exec Unit :=
  .call (.replaceResponse jobId old new) .done

def guardExec (condition : Bool) (error : ErrorKind) : Exec Unit :=
  lift (guardThat condition error)

/-- The outbox lock is held while the body runs, however it ends. -/
def locked {α : Type} (body : Exec α) : Exec α := do
  openAuditOutboxLock
  let result ← body.attempt
  dropOutboxLock
  lift result

def readAuditOutboxRecord (transaction : String) : Exec AuditOutboxRecord := do
  guardExec (validAuditTransaction transaction) .badRequest
  let record ← (.call (.readRecord transaction) .done : Exec AuditOutboxRecord)
  lift (validateAuditOutboxRecord record)
  guardExec (record.transaction == transaction) .unsafeRuntime
  pure record

def writeAuditOutboxRecord (record : AuditOutboxRecord) : Exec Unit := do
  lift (validateAuditOutboxRecord record)
  .call (.writeRecord record) .done

def removeAuditOutboxRecord (transaction : String) : Exec Unit := do
  guardExec (validAuditTransaction transaction) .badRequest
  .call (.removeRecord transaction) .done

/-! ## Job states -/

inductive BridgeJobState where
  | active
  | complete (succeeded : Bool)
  | missing
deriving DecidableEq, Repr

/-- A job's file, if it is there and this transaction's. -/
def activeIn (record : AuditOutboxRecord) (jobId : String) (folder : Folder) : Exec Bool := do
  match ← readTransientJob folder jobId with
  | none => pure false
  | some job =>
    guardExec (validJob job) .badRequest
    guardExec (job.requestId == jobId && job.auditTransaction == record.transaction) .unsafeRuntime
    pure true

def bridgeJobState (record : AuditOutboxRecord) : Exec BridgeJobState := do
  match record.jobId with
  | none => pure .missing
  | some jobId =>
    if ← activeIn record jobId .requests then pure .active
    else if ← activeIn record jobId .processing then pure .active
    else
      -- the response last: it is published before the processing job is removed
      match ← readTransientResponse jobId with
      | none => pure .missing
      | some response =>
        let response ← lift (parseQueuedResponse response jobId)
        guardExec (response.auditTransaction == record.transaction) .unsafeRuntime
        pure (.complete (response.auditTerminalState == "succeeded"))

def markResponseAuditReconciled (record : AuditOutboxRecord) : Exec Unit := do
  match record.jobId with
  | none => pure ()
  | some jobId =>
    match ← readTransientResponse jobId with
    | none => pure ()
    | some response =>
      let parsed ← lift (parseQueuedResponse response jobId)
      guardExec (parsed.auditTransaction == record.transaction) .unsafeRuntime
      if parsed.auditPending then
        let rewritten := { response with auditPending := false }
        guardExec (rewritten.length ≤ maxManagerOutputBytes) .unsafeRuntime
        replaceResponse jobId response rewritten
      else pure ()

/-! ## The operations -/

def AuditOutboxRecord.inPhase (record : AuditOutboxRecord) (phase : AuditOutboxPhase) :
    AuditOutboxRecord := { record with phase := phase }

/-- Both appends went through, the second only tried after the first. -/
def appendBoth (record : AuditOutboxRecord) (state : String) : Exec Bool := do
  match ← (append record "requested").attempt with
  | .error _ => pure false
  | .ok () =>
    match ← (append record state).attempt with
    | .error _ => pure false
    | .ok () => pure true

def auditTransactionBegin (record : AuditOutboxRecord) (readyPhase : AuditOutboxPhase) :
    Exec Unit := do
  lift (validateAuditOutboxRecord record)
  guardExec (record.phase == .prepared &&
    (readyPhase == .prepared || readyPhase == .publishing || readyPhase == .executing) &&
    (readyPhase == .publishing) == record.jobId.isSome) .badRequest
  locked do
    recoverAuditOutboxTemps
    if ← recordExists record.transaction then fail .conflict
    else
      writeAuditOutboxRecord record
      let failed := record.inPhase .failed
      match ← (append record "requested").attempt with
      | .error error =>
        writeAuditOutboxRecord failed
        if ← appendBoth failed "failed" then removeAuditOutboxRecord record.transaction
        fail error
      | .ok () =>
        match ← (writeAuditOutboxRecord (record.inPhase readyPhase)).attempt with
        | .ok () => pure ()
        | .error error =>
          match ← (writeAuditOutboxRecord failed).attempt with
          | .error _ => fail error
          | .ok () =>
            if ← appendBoth failed "failed" then
              -- what is left over is retired by a later reconciliation
              let _ ← (removeAuditOutboxRecord record.transaction).attempt
              fail error
            else fail error

/-- What is left once a record is in its terminal phase: whether the log still lacks its end. -/
def appendTerminal (record : AuditOutboxRecord) : Exec Bool := do
  let state ← lift (orElse record.phase.terminalState .unsafeRuntime)
  if ← appendBoth record state then
    markResponseAuditReconciled record
    removeAuditOutboxRecord record.transaction
    pure false
  else pure true

/-- The caller's verdict on a record, by the phase it is in. -/
def concludeRecord (record : AuditOutboxRecord) (terminal : AuditOutboxPhase) :
    Exec AuditOutboxRecord := do
  let concluded := record.inPhase terminal
  if record.phase = .executing then
    writeAuditOutboxRecord concluded
    pure concluded
  else if record.phase = .prepared ∧ terminal = .failed then
    writeAuditOutboxRecord concluded
    pure concluded
  else if record.phase = .publishing ∧ terminal = .failed then
    let owner ← currentProcessIdentity
    guardExec (record.owner == owner) .unsafeRuntime
    let state ← bridgeJobState record
    guardExec (state == .missing) .unsafeRuntime
    writeAuditOutboxRecord concluded
    pure concluded
  else if record.phase = terminal then pure record
  else fail .unsafeRuntime

def auditTransactionComplete (transaction : String) (terminal : AuditOutboxPhase) : Exec Bool := do
  guardExec (terminal.terminalState.isSome && validAuditTransaction transaction) .badRequest
  locked do
    recoverAuditOutboxTemps
    let record ← readAuditOutboxRecord transaction
    let record ← concludeRecord record terminal
    appendTerminal record

def markAuditTransactionExecuting (transaction : String) : Exec Unit := do
  guardExec (validAuditTransaction transaction) .badRequest
  locked do
    recoverAuditOutboxTemps
    let record ← readAuditOutboxRecord transaction
    let owner ← parentProcessIdentity
    guardExec (record.phase == .prepared && record.jobId.isNone && record.owner == owner)
      .unsafeRuntime
    writeAuditOutboxRecord (record.inPhase .executing)

def claimQueuedAuditTransaction (transaction expectedJobId : String) : Exec Unit := do
  guardExec (validServerJobId expectedJobId) .badRequest
  locked do
    recoverAuditOutboxTemps
    let record ← readAuditOutboxRecord transaction
    guardExec ((record.phase == .publishing || record.phase == .queued) &&
      record.jobId == some expectedJobId) .unsafeRuntime
    let state ← bridgeJobState record
    guardExec (state == .active) .unsafeRuntime
    let owner ← currentProcessIdentity
    writeAuditOutboxRecord { record with owner := owner, phase := .executing }

def markAuditTransactionQueued (transaction expectedJobId : String) : Exec Unit :=
  locked do
    recoverAuditOutboxTemps
    let record ← readAuditOutboxRecord transaction
    guardExec (record.phase == .publishing && record.jobId == some expectedJobId) .unsafeRuntime
    let state ← bridgeJobState record
    guardExec (state == .active) .unsafeRuntime
    writeAuditOutboxRecord (record.inPhase .queued)

def verdict (succeeded : Bool) : AuditOutboxPhase := if succeeded then .succeeded else .failed

/-- What the reconciler makes of a record: the record as written, unless it is still someone's. -/
def inferRecord (record : AuditOutboxRecord) : Exec (Option AuditOutboxRecord) := do
  let settle (phase : AuditOutboxPhase) : Exec (Option AuditOutboxRecord) := do
    writeAuditOutboxRecord (record.inPhase phase)
    pure (some (record.inPhase phase))
  match record.phase with
  | .prepared =>
    if ← processIdentityIsLive record.owner then pure none else settle .failed
  | .publishing =>
    match ← bridgeJobState record with
    | .active =>
      writeAuditOutboxRecord (record.inPhase .queued)
      pure none
    | .complete succeeded => settle (verdict succeeded)
    | .missing => if ← processIdentityIsLive record.owner then pure none else settle .failed
  | .queued =>
    match ← bridgeJobState record with
    | .active => pure none
    | .complete succeeded => settle (verdict succeeded)
    | .missing => settle .failed
  | .executing =>
    match ← bridgeJobState record with
    | .complete succeeded => settle (verdict succeeded)
    | .active | .missing =>
      if ← processIdentityIsLive record.owner then pure none else settle .outcomeUnknown
  | .succeeded | .failed | .outcomeUnknown => pure (some record)

def reconcileRecord (transaction : String) : Exec Nat := do
  let record ← readAuditOutboxRecord transaction
  match ← inferRecord record with
  | none => pure 0
  | some record =>
    let state ← lift (orElse record.phase.terminalState .unsafeRuntime)
    append record "requested"
    append record state
    markResponseAuditReconciled record
    removeAuditOutboxRecord transaction
    pure 1

def reconcileAuditTransactions : Exec Nat :=
  locked do
    recoverAuditOutboxTemps
    let names ← listRecords
    names.foldlM (fun reconciled transaction => do
      let one ← reconcileRecord transaction
      pure (reconciled + one)) 0

/-! ## What a call does -/

inductive Operation where
  | begin (record : AuditOutboxRecord) (readyPhase : AuditOutboxPhase)
  | complete (transaction : String) (terminal : AuditOutboxPhase)
  | markExecuting (transaction : String)
  | claimQueued (transaction jobId : String)
  | markQueued (transaction jobId : String)
  | reconcile
deriving DecidableEq, Repr

/-- What was done, for the record, and whether the process was told so. -/
inductive Event where
  | called (by_ : Identity) (operation : Operation)
  | wrote (by_ : Identity) (record : AuditOutboxRecord) (confirmed : Bool)
  | removed (record : AuditOutboxRecord)
  | appended (transaction state : String) (confirmed : Bool)
deriving DecidableEq, Repr

/-- The files, with what was done so far. -/
structure Store where
  outboxLock : Option Identity
  outbox : List AuditOutboxRecord
  requests : String → Option ParsedJob
  processing : String → Option ParsedJob
  responses : String → Option QueuedResponse
  alive : Identity → Bool
  history : List Event

namespace Store

variable (s : Store)

def note (event : Event) : Store := { s with history := s.history ++ [event] }

def folder : Folder → String → Option ParsedJob
  | .requests => s.requests
  | .processing => s.processing

def record? (transaction : String) : Option AuditOutboxRecord :=
  s.outbox.find? fun record => record.transaction == transaction

def without (transaction : String) : List AuditOutboxRecord :=
  s.outbox.filter fun record => record.transaction != transaction

def write (i : Identity) (record : AuditOutboxRecord) (confirmed : Bool) : Store :=
  { s with outbox := record :: s.without record.transaction }.note (.wrote i record confirmed)

def remove (record : AuditOutboxRecord) : Store :=
  { s with outbox := s.without record.transaction }.note (.removed record)

def setResponse (jobId : String) (response : Option QueuedResponse) : Store :=
  { s with responses := Function.update s.responses jobId response }

def lock (i : Identity) : Store := { s with outboxLock := some i }

/-- A lock goes with the process that holds it. -/
def unlock (i : Identity) : Store :=
  if s.outboxLock = some i then { s with outboxLock := none } else s

def transactions : List String := (s.outbox.map (·.transaction)).insertionSort (· ≤ ·)

variable {s} {transaction : String} {record : AuditOutboxRecord}

theorem record?_transaction (h : s.record? transaction = some record) :
    record.transaction = transaction := by
  have := List.find?_some h
  simpa using this

theorem find?_without (s : Store) (t u : String) :
    (s.without t).find? (fun record => record.transaction == u) =
      if u = t then none else s.record? u := by
  unfold without record?
  rw [List.find?_filter]
  split
  · rename_i hu
    subst hu
    simp
  · rename_i hu
    congr 1
    funext record
    by_cases h : record.transaction = u
    · simp [h, hu]
    · simp [h]

@[simp] theorem record?_write (i : Identity) (confirmed : Bool) (t : String) :
    (s.write i record confirmed).record? t =
    if t = record.transaction then some record else s.record? t := by
  unfold record? write note
  simp only [List.find?_cons]
  by_cases h : t = record.transaction
  · simp [h]
  · have : (record.transaction == t) = false := by simpa using fun heq => h heq.symm
    rw [this, if_neg h]
    exact (find?_without s _ _).trans (if_neg h)

@[simp] theorem record?_remove (t : String) : (s.remove record).record? t =
    if t = record.transaction then none else s.record? t := find?_without s _ _

@[simp] theorem record?_note (event : Event) (t : String) :
    (s.note event).record? t = s.record? t := rfl

end Store

/-- A failure that changes nothing. -/
def Refused {α : Type} (s : Store) (reply : BridgeResult α) (s' : Store) : Prop :=
  (∃ error, reply = .error error) ∧ s' = s

/-- What a process's call may be answered, and what it leaves. -/
def act (i : Identity) : (c : Call) → Store → c.Reply → Store → Prop
  | .lockOutbox, s, reply, s' => Refused s reply s' ∨
      (s.outboxLock = none ∧ reply = .ok () ∧ s' = s.lock i)
  | .unlockOutbox, s, _, s' => s' = s.unlock i
  | .recoverAuditOutboxTemps, s, _, s' => s' = s
  | .recordExists transaction, s, reply, s' => reply = (s.record? transaction).isSome ∧ s' = s
  | .readRecord transaction, s, reply, s' => Refused s reply s' ∨
      (∃ record, s.record? transaction = some record ∧ reply = .ok record ∧ s' = s)
  | .writeRecord record, s, reply, s' => Refused s reply s' ∨
      ((∃ error, reply = .error error) ∧ s' = s.write i record false) ∨
      (reply = .ok () ∧ s' = s.write i record true)
  | .removeRecord transaction, s, reply, s' => Refused s reply s' ∨
      (∃ record, s.record? transaction = some record ∧ s' = s.remove record)
  | .listRecords, s, reply, s' => Refused s reply s' ∨ (reply = .ok s.transactions ∧ s' = s)
  | .append record state, s, reply, s' => Refused s reply s' ∨
      ((∃ error, reply = .error error) ∧ s' = s.note (.appended record.transaction state false)) ∨
      (reply = .ok () ∧ s' = s.note (.appended record.transaction state true))
  | .currentIdentity, s, reply, s' => Refused s reply s' ∨ (reply = .ok i ∧ s' = s)
  | .parentIdentity, s, _, s' => s' = s
  | .identityIsLive identity, s, reply, s' => Refused s reply s' ∨
      (reply = .ok (s.alive identity) ∧ s' = s)
  | .readJob folder jobId, s, reply, s' => Refused s reply s' ∨
      (reply = .ok (s.folder folder jobId) ∧ s' = s)
  | .readResponse jobId, s, reply, s' => Refused s reply s' ∨
      (reply = .ok (s.responses jobId) ∧ s' = s)
  | .replaceResponse jobId old new, s, reply, s' => Refused s reply s' ∨
      (s.responses jobId = some old ∧ s' = s.setResponse jobId (some new))

def Operation.program : Operation → Exec Unit
  | begin record readyPhase => auditTransactionBegin record readyPhase
  | complete transaction terminal => do
    let _ ← auditTransactionComplete transaction terminal
  | markExecuting transaction => markAuditTransactionExecuting transaction
  | claimQueued transaction jobId => claimQueuedAuditTransaction transaction jobId
  | markQueued transaction jobId => markAuditTransactionQueued transaction jobId
  | reconcile => do
    let _ ← reconcileAuditTransactions

end Audit
end DriveSync
