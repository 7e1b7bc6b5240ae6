import DriveSync.Audit.Result
import DriveSync.Lib.Loop

/-!
# DriveSync.Audit.Types

The documents of the control queue: an outbox record, a job, and the response published for it. A
document stands for the file that holds it; what the bridge checks when it reads one is here, and
what a response takes in bytes.
-/

namespace DriveSync
namespace Audit

/-- A process, by its number, when it started, and the boot it runs under. -/
structure Identity where
  pid : Nat
  start : Nat
  boot : String
deriving DecidableEq, Repr

inductive AuditOutboxPhase where
  | prepared | publishing | queued | executing | succeeded | failed | outcomeUnknown
deriving DecidableEq, Repr

def AuditOutboxPhase.terminalState : AuditOutboxPhase → Option String
  | succeeded => some "succeeded"
  | failed => some "failed"
  | outcomeUnknown => some "outcome_unknown"
  | prepared | publishing | queued | executing => none

structure AuditOutboxRecord where
  schema : String
  transaction : String
  operation : String
  profile : String
  actor : String
  actorUid : Nat
  origin : String
  clientRequestId : Option String
  jobId : Option String
  owner : Identity
  phase : AuditOutboxPhase
deriving DecidableEq, Repr

/-! ## Names -/

def validAuditTransaction (value : String) : Bool :=
  !value.isEmpty && value.utf8ByteSize ≤ 96 &&
    value.toList.all fun c => asciiAlphanumeric c || c = '_' || c = '-'

def validAuditOperation (value : String) : Bool :=
  ["configure-profile", "remove-profile", "set-default", "set-secret", "set-password",
    "remove-password", "set-totp", "remove-totp", "set-remote-log-token",
    "remove-remote-log-token", "test-profile-auth", "browse-remote", "schedule", "routine",
    "remove-routine", "alert-policy", "performance-policy", "security-policy",
    "interface-settings", "session-notifications", "rejected-post", "doctor", "plan", "run",
    "sync-status", "resync", "clear-logs"].contains value

def validAuditProfile (value : String) : Bool :=
  value == "all" || value == "none" || validExistingName value

def validAuditOrigin (value : String) : Bool :=
  ["bridge", "cli", "manager", "scheduler", "controller"].contains value

/-- Marks that change the direction or the reading of the text around them. -/
def invisibleMark (c : Char) : Bool :=
  c.toNat == 0x61c || (0x200b ≤ c.toNat && c.toNat ≤ 0x200f) ||
    (0x202a ≤ c.toNat && c.toNat ≤ 0x202e) || (0x2060 ≤ c.toNat && c.toNat ≤ 0x206f) ||
    c.toNat == 0xfeff || (0xfff9 ≤ c.toNat && c.toNat ≤ 0xfffb)

def validAuthenticatedUsername (value : String) : Bool :=
  !value.isEmpty && value.utf8ByteSize ≤ 256 &&
    value.toList.all fun c => !isControl c && c != '|' && !invisibleMark c

def validLowerHex (length : Nat) (value : String) : Bool :=
  value.utf8ByteSize == length && value.toList.all lowerHexDigit

def validClientRequestId (value : String) : Bool := validLowerHex 32 value

def validServerJobId (value : String) : Bool := validLowerHex 48 value

def validRequestFingerprint (value : String) : Bool := validLowerHex 64 value

/-- The dashes of a boot id stand at 8, 13, 18 and 23. -/
def validBootId (value : String) : Bool :=
  value.utf8ByteSize == 36 && value.toList.zipIdx.all fun entry =>
    if [8, 13, 18, 23].contains entry.2 then entry.1 = '-' else lowerHexDigit entry.1

def validateAuditIdentity (record : AuditOutboxRecord) : BridgeResult Unit :=
  guardThat (record.schema == "sdsync.dsm-audit-outbox.v1" &&
    validAuditTransaction record.transaction && validAuditOperation record.operation &&
    validAuditProfile record.profile && validAuthenticatedUsername record.actor &&
    record.actorUid != 0 && validAuditOrigin record.origin &&
    (record.clientRequestId.map validClientRequestId).getD true) .unsafeRuntime

def validateAuditOutboxRecord (record : AuditOutboxRecord) : BridgeResult Unit := do
  validateAuditIdentity record
  guardThat ((record.jobId.map validServerJobId).getD true &&
    (record.origin == "bridge") == record.jobId.isSome &&
    (record.origin == "bridge") == record.clientRequestId.isSome &&
    1 < record.owner.pid && record.owner.start != 0 && validBootId record.owner.boot) .unsafeRuntime

/-! ## Jobs and responses -/

/-- What a queued job does, by the id its response carries. -/
inductive Mutation where
  | configureProfile | removeProfile | setDefault | setSecret | testProfileAuth | browseRemote
  | schedule | routine | removeRoutine | alertPolicy | securityPolicy | clientEvent | action
  | syncStatus | resync | clearLogs
deriving DecidableEq, Repr

def Mutation.operationId : Mutation → String
  | configureProfile => "configure-profile"
  | removeProfile => "remove-profile"
  | setDefault => "set-default"
  | setSecret => "set-secret"
  | testProfileAuth => "test-profile-auth"
  | browseRemote => "browse-remote"
  | schedule => "schedule"
  | routine => "routine"
  | removeRoutine => "remove-routine"
  | alertPolicy => "alert-policy"
  | securityPolicy => "security-policy"
  | clientEvent => "client-event"
  | action => "action"
  | syncStatus => "sync-status"
  | resync => "resync"
  | clearLogs => "clear-logs"

def queuedOperationIds : List String :=
  ["configure-profile", "remove-profile", "set-default", "set-secret", "test-profile-auth",
    "browse-remote", "schedule", "routine", "remove-routine", "alert-policy", "security-policy",
    "client-event", "action", "sync-status", "resync", "clear-logs"]

/-- Every operation the writer names is one the reader knows. -/
theorem operationId_queued (mutation : Mutation) :
    queuedOperationIds.contains mutation.operationId = true := by
  cases mutation <;> decide

structure ParsedJob where
  requestId : String
  clientRequestId : String
  requestedBy : String
  requestedUid : Nat
  sessionBinding : String
  auditTransaction : String
  requestFingerprint : String
  issuedAtEpoch : Nat
  mutation : Mutation
deriving DecidableEq, Repr

/-- What the bridge checks of every job it reads, apart from its arguments. -/
def validJob (job : ParsedJob) : Bool :=
  validServerJobId job.requestId && validClientRequestId job.clientRequestId &&
    validAuthenticatedUsername job.requestedBy && job.requestedUid != 0 &&
    validServerJobId job.auditTransaction && validRequestFingerprint job.requestFingerprint &&
    validLowerHex 64 job.sessionBinding

structure QueuedResponse where
  jobId : String
  operation : Option String
  clientRequestId : String
  requestedBy : String
  requestedUid : Nat
  sessionBinding : String
  requestFingerprint : String
  auditTransaction : String
  auditPending : Bool
  auditTerminalState : String
  issuedAtEpoch : Nat
  completedAtEpoch : Nat
  result : Json

def terminalStateOf (result : Json) : String := if result.isOk then "succeeded" else "failed"

/-- What the bridge checks of every response it reads back. -/
def parseQueuedResponse (response : QueuedResponse) (expectedJobId : String) :
    BridgeResult QueuedResponse := do
  guardThat (response.jobId == expectedJobId && validServerJobId response.jobId &&
    (response.operation.map queuedOperationIds.contains).getD true &&
    validClientRequestId response.clientRequestId &&
    validAuthenticatedUsername response.requestedBy && response.requestedUid != 0 &&
    validRequestFingerprint response.requestFingerprint &&
    validAuditTransaction response.auditTransaction &&
    (response.auditTerminalState == "succeeded" || response.auditTerminalState == "failed") &&
    response.issuedAtEpoch ≤ response.completedAtEpoch &&
    validLowerHex 64 response.sessionBinding) .unavailable
  let result ← parseManagerResultForOperation response.result none response.operation
  guardThat (response.auditTerminalState == terminalStateOf result) .unavailable
  pure response

theorem guardThat_ok {condition : Bool} {error : ErrorKind} :
    guardThat condition error = .ok () ↔ condition = true := by
  cases condition <;> simp [guardThat]

theorem parseQueuedResponse_ok {response parsed : QueuedResponse} {jobId : String}
    (h : parseQueuedResponse response jobId = .ok parsed) : parsed = response ∧
      (response.auditTerminalState = "succeeded" ∨ response.auditTerminalState = "failed") := by
  obtain ⟨_, hguard, h⟩ := Loop.bind_eq_ok.mp h
  obtain ⟨result, _, h⟩ := Loop.bind_eq_ok.mp h
  obtain ⟨_, _, h⟩ := Loop.bind_eq_ok.mp h
  refine ⟨(Except.ok.inj h).symm, ?_⟩
  have := guardThat_ok.mp hguard
  simp only [Bool.and_eq_true, Bool.or_eq_true, beq_iff_eq] at this
  exact this.1.1.2

def fieldLength (name : String) (value : Nat) : Nat := Json.stringLength name + 1 + value

/-- The bytes of a response as it is written: its fields between braces, commas between them. -/
def QueuedResponse.length (response : QueuedResponse) : Nat :=
  let operation := match response.operation with
    | some operation => [fieldLength "schema" (Json.stringLength "sdsync.dsm-queued-response.v2"),
        fieldLength "operation" (Json.stringLength operation)]
    | none => [fieldLength "schema" (Json.stringLength "sdsync.dsm-queued-response.v1")]
  let fields := operation ++ [
    fieldLength "job_id" (Json.stringLength response.jobId),
    fieldLength "client_request_id" (Json.stringLength response.clientRequestId),
    fieldLength "requested_by" (Json.stringLength response.requestedBy),
    fieldLength "requested_uid" (toString response.requestedUid).length,
    fieldLength "session_binding" (Json.stringLength response.sessionBinding),
    fieldLength "request_fingerprint" (Json.stringLength response.requestFingerprint),
    fieldLength "audit_transaction" (Json.stringLength response.auditTransaction),
    fieldLength "audit_pending" (if response.auditPending then 4 else 5),
    fieldLength "audit_terminal_state" (Json.stringLength response.auditTerminalState),
    fieldLength "issued_at_epoch" (toString response.issuedAtEpoch).length,
    fieldLength "completed_at_epoch" (toString response.completedAtEpoch).length,
    fieldLength "result" response.result.length]
  fields.foldl (· + ·) (2 + (fields.length - 1))

/-- The response to a job, if it is one the reader takes and not too long. -/
def canonicalQueuedResponse (job : ParsedJob) (completedAtEpoch : Nat) (result : Json)
    (auditPending : Bool) : BridgeResult QueuedResponse := do
  guardThat (job.issuedAtEpoch ≤ completedAtEpoch) .unavailable
  let _ ← parseManagerResultForOperation result none (some job.mutation.operationId)
  let response : QueuedResponse :=
    { jobId := job.requestId
      operation := some job.mutation.operationId
      clientRequestId := job.clientRequestId
      requestedBy := job.requestedBy
      requestedUid := job.requestedUid
      sessionBinding := job.sessionBinding
      requestFingerprint := job.requestFingerprint
      auditTransaction := job.auditTransaction
      auditPending := auditPending
      auditTerminalState := terminalStateOf result
      issuedAtEpoch := job.issuedAtEpoch
      completedAtEpoch := completedAtEpoch
      result := result }
  guardThat (response.length ≤ maxManagerOutputBytes) .unavailable
  pure response

theorem lowerHexDigit_asciiAlphanumeric {c : Char} (h : lowerHexDigit c = true) :
    asciiAlphanumeric c = true := by
  simp only [lowerHexDigit, asciiDigit, Bool.or_eq_true, Bool.and_eq_true, decide_eq_true_eq] at h
  simp only [asciiAlphanumeric, Bool.or_eq_true, Bool.and_eq_true, decide_eq_true_eq]
  rcases h with h | ⟨hlow, hhigh⟩
  · exact .inl (.inl h)
  · exact .inl (.inr ⟨hlow, Char.le_trans hhigh (by decide)⟩)

/-- An id the bridge gave out names a transaction as well. -/
theorem validAuditTransaction_of_serverJobId {value : String} (h : validServerJobId value = true) :
    validAuditTransaction value = true := by
  unfold validServerJobId validLowerHex at h
  obtain ⟨hsize, hdigits⟩ := Bool.and_eq_true_iff.mp h
  rw [beq_iff_eq] at hsize
  unfold validAuditTransaction
  simp only [Bool.and_eq_true, Bool.or_eq_true, Bool.not_eq_true', decide_eq_true_eq,
    List.all_eq_true]
  refine ⟨⟨?_, by omega⟩, fun c hc => .inl (.inl ?_)⟩
  · cases hempty : value.isEmpty with
    | false => rfl
    | true =>
      rw [String.isEmpty_iff.mp hempty] at hsize
      cases hsize
  · exact lowerHexDigit_asciiAlphanumeric (List.all_eq_true.mp hdigits c hc)

theorem parseManagerResultForOperation_ok {value result : Json} {operation : Option String}
    (h : parseManagerResultForOperation value none operation = .ok result) : result = value := by
  obtain ⟨_, _, h⟩ := Loop.bind_eq_ok.mp h
  obtain ⟨_, _, h⟩ := Loop.bind_eq_ok.mp h
  split at h
  · obtain ⟨_, _, h⟩ := Loop.bind_eq_ok.mp h
    exact (Except.ok.inj h).symm
  · obtain ⟨_, _, h⟩ := Loop.bind_eq_ok.mp h
    exact (Except.ok.inj h).symm
  · repeat
      obtain ⟨_, _, h⟩ := Loop.bind_eq_ok.mp h
    exact (Except.ok.inj h).symm

/-- What is written for a job that was read is read back. -/
theorem parseQueuedResponse_canonical {job : ParsedJob} {completedAtEpoch : Nat} {result : Json}
    {auditPending : Bool} {response : QueuedResponse} (hjob : validJob job = true)
    (h : canonicalQueuedResponse job completedAtEpoch result auditPending = .ok response) :
    parseQueuedResponse response job.requestId = .ok response := by
  obtain ⟨_, hissued, h⟩ := Loop.bind_eq_ok.mp h
  obtain ⟨parsed, hparsed, h⟩ := Loop.bind_eq_ok.mp h
  obtain ⟨_, _, h⟩ := Loop.bind_eq_ok.mp h
  obtain rfl := Except.ok.inj h
  obtain rfl := parseManagerResultForOperation_ok hparsed
  have hterminal : (terminalStateOf parsed == "succeeded" || terminalStateOf parsed == "failed") =
      true := by
    unfold terminalStateOf
    split <;> rfl
  simp only [validJob, Bool.and_eq_true] at hjob
  obtain ⟨⟨⟨⟨⟨⟨hrequest, hclient⟩, hname⟩, huid⟩, htransaction⟩, hfingerprint⟩, hbinding⟩ := hjob
  refine Loop.bind_eq_ok.mpr ⟨(), guardThat_ok.mpr ?_, Loop.bind_eq_ok.mpr ⟨parsed, hparsed, ?_⟩⟩
  · simp only [Bool.and_eq_true]
    exact ⟨⟨⟨⟨⟨⟨⟨⟨⟨⟨beq_self_eq_true _, hrequest⟩, operationId_queued job.mutation⟩, hclient⟩, hname⟩,
      huid⟩, hfingerprint⟩, validAuditTransaction_of_serverJobId htransaction⟩, hterminal⟩,
      guardThat_ok.mp hissued⟩, hbinding⟩
  · exact Loop.bind_eq_ok.mpr ⟨(), guardThat_ok.mpr (beq_self_eq_true _), rfl⟩

end Audit
end DriveSync
