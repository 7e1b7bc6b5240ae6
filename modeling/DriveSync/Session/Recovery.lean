import DriveSync.Session.Ledger
import DriveSync.Sync.Errors

/-!
# DriveSync.Session.Recovery

Workers that share one client, and the session they share. A worker runs each request through
`with_session_recovery`: it takes note of the session, sends, and where DSM refused the session
recovers under the ledger's lock and sends once more. What DSM, the liveness probe and the re-login
answer is part of the move that asks.

An attempt is the closure the source passes, with whatever it retries inside. A move that is not the
worker's next one does nothing, so that every list of moves is a run.
-/

namespace DriveSync
namespace Session

variable {Worker Sid : Type} [DecidableEq Worker] [DecidableEq Sid]

/-- A request on its way: its number, whether it is a keepalive, and the session noted before it. -/
structure Request (Sid : Type) where
  number : Nat
  keepalive : Bool
  sent : Option Sid
deriving DecidableEq, Repr

/-- How far a worker is with its request. -/
inductive Phase (Sid : Type) where
  | idle
  | first (request : Request Sid)
  | refused (request : Request Sid) (error : ExecError)
  | holding (request : Request Sid) (error : ExecError)
  | probing (request : Request Sid) (error : ExecError)
  | admitting (request : Request Sid) (error : ExecError)
  | loggingIn (request : Request Sid) (error : ExecError)
  | second (request : Request Sid)

/-- What happened, by request. -/
inductive Event (Sid : Type) where
  | sent (number : Nat) (noted : Option Sid)
  | answered (number : Nat) (result : Except ExecError Unit)
  | probed (number : Nat) (alive : Bool)
  | admitted (number now : Nat)
  | stopped (number now : Nat)
  | installed (number : Nat) (old : Option Sid) (new : Sid)
  | loginFailed (number : Nat)
  | returned (number : Nat) (result : Except ExecError Unit)

structure Client (Worker Sid : Type) where
  reauthenticator : Bool
  session : Option Sid
  ledger : ReauthenticationLedger
  holder : Option Worker
  phase : Worker → Phase Sid
  requests : Nat
  clock : Nat
  reauthentications : Nat
  reauthenticationFailures : Nat
  keepaliveFailures : Nat
  log : List (Event Sid)

/-- What a worker does next, with what it is answered. -/
inductive Move (Sid : Type) where
  | begin (keepalive : Bool)
  | attempted (result : Except ExecError Unit)
  | lock
  | compare
  | probed (alive : Bool)
  | admission (waited : Nat)
  | loggedIn (result : Except ExecError (Option Sid))

/-- The codes with which DSM refuses a session, 105 only where a probe says so too. -/
def sessionCode (error : ExecError) : Bool :=
  match error.apiCode with
  | some code => code == 105 || code == 106 || code == 107 || code == 119
  | none => false

def sessionErrorNaming (error : ExecError) (reason : String) : ExecError :=
  match error with
  | .api service operation code description =>
    .api service operation code (description ++ "; " ++ reason)
  | other => .other (other.message ++ "; " ++ reason)

namespace Client

variable (client : Client Worker Sid) (worker : Worker)

def setPhase (phase : Phase Sid) : Client Worker Sid :=
  { client with phase := fun w => if w = worker then phase else client.phase w }

def note (event : Event Sid) : Client Worker Sid := { client with log := client.log ++ [event] }

def unlock : Client Worker Sid := { client with holder := none }

/-- The request's own result; a keepalive's failure is counted, and a cancellation is not one. -/
def finish (request : Request Sid) (result : Except ExecError Unit) : Client Worker Sid :=
  let client := (client.setPhase worker .idle).note (.returned request.number result)
  match result with
  | .error error =>
    if request.keepalive && decide (error ≠ .cancelled) then
      { client with keepaliveFailures := client.keepaliveFailures + 1 }
    else client
  | .ok () => client

/-- `Recovery::Resend`. -/
def resend (request : Request Sid) : Client Worker Sid :=
  (client.unlock.setPhase worker (.second request)).note (.sent request.number client.session)

/-- `recover_session`, as far as the ledger's lock. -/
def recoverSession (request : Request Sid) (error : ExecError) : Client Worker Sid :=
  if client.reauthenticator && sessionCode error then
    client.setPhase worker (.refused request error)
  else client.finish worker request (.error error)

/-- The session that came back replaces the shared one. -/
def install (request : Request Sid) (sid : Sid) : Client Worker Sid :=
  let client := client.note (.installed request.number client.session sid)
  { client with session := some sid, reauthentications := client.reauthentications + 1 }

def countFailure (request : Request Sid) : Client Worker Sid :=
  { client.note (.loginFailed request.number) with
    holder := none
    reauthenticationFailures := client.reauthenticationFailures + 1 }

/-- `Recovery::LoginFailed` of a login. -/
def loginFailed (request : Request Sid) (error : ExecError) : Client Worker Sid :=
  (client.countFailure request).finish worker request (.error error)

def noSession : ExecError := .other "re-authentication completed without a session"

/-- One move of one worker. -/
def act (move : Move Sid) : Client Worker Sid :=
  match client.phase worker, move with
  | .idle, .begin keepalive =>
    let request := ⟨client.requests, keepalive, client.session⟩
    ({ client with requests := client.requests + 1 }.setPhase worker (.first request)).note
      (.sent request.number client.session)
  | .first request, .attempted result =>
    let client := client.note (.answered request.number result)
    match result with
    | .ok () => client.finish worker request (.ok ())
    | .error error => client.recoverSession worker request error
  | .refused request error, .lock =>
    match client.holder with
    | none => { client with holder := some worker }.setPhase worker (.holding request error)
    | some _ => client
  | .holding request error, .compare =>
    if client.session ≠ request.sent then client.resend worker request
    else if error.apiCode = some 105 then client.setPhase worker (.probing request error)
    else client.setPhase worker (.admitting request error)
  | .probing request error, .probed alive =>
    let client := client.note (.probed request.number alive)
    if alive then client.unlock.finish worker request (.error error)
    else client.setPhase worker (.admitting request error)
  | .admitting request error, .admission waited =>
    let now := client.clock + waited
    let (admission, ledger) := client.ledger.admitNow now
    let client := { client with ledger := ledger, clock := now }
    match admission with
    | .ok () =>
      (client.setPhase worker (.loggingIn request error)).note (.admitted request.number now)
    | .error reason =>
      (client.note (.stopped request.number now)).unlock.finish worker request
        (.error (sessionErrorNaming error reason))
  | .loggingIn request _, .loggedIn result =>
    match result with
    | .ok (some sid) => (client.install request sid).resend worker request
    | .ok none => client.loginFailed worker request noSession
    | .error error => client.loginFailed worker request error
  | .second request, .attempted result =>
    (client.note (.answered request.number result)).finish worker request result
  | _, _ => client

/-- A client with a session or none, before its first request. -/
def new (reauthenticator : Bool) (session : Option Sid) (started : Nat) : Client Worker Sid :=
  ⟨reauthenticator, session, .new started, none, fun _ => .idle, 0, started, 0, 0, 0, []⟩

/-- Any number of workers, each move of any of them. -/
def run (moves : List (Worker × Move Sid)) : Client Worker Sid :=
  moves.foldl (fun client move => client.act move.1 move.2) client

end Client

/-! ## What a move can do -/

section Steps

variable {client client' : Client Worker Sid} {worker : Worker}

/-- What one move of a worker makes of the client, by the phase the worker was in. -/
inductive Step (client : Client Worker Sid) (worker : Worker) : Client Worker Sid → Prop where
  | begin (keepalive : Bool) (h : client.phase worker = .idle) :
    Step client worker (({ client with requests := client.requests + 1 }.setPhase worker
      (.first ⟨client.requests, keepalive, client.session⟩)).note
        (.sent client.requests client.session))
  | answered (request : Request Sid) (result : Except ExecError Unit)
    (h : client.phase worker = .first request ∨ client.phase worker = .second request) :
    Step client worker
      ((client.note (.answered request.number result)).finish worker request result)
  | refused (request : Request Sid) (error : ExecError)
    (h : client.phase worker = .first request) (hcode : sessionCode error = true) :
    Step client worker ((client.note (.answered request.number (.error error))).setPhase worker
      (.refused request error))
  | locked (request : Request Sid) (error : ExecError)
    (h : client.phase worker = .refused request error) (hfree : client.holder = none) :
    Step client worker
      ({ client with holder := some worker }.setPhase worker (.holding request error))
  | replaced (request : Request Sid) (error : ExecError)
    (h : client.phase worker = .holding request error) (hsid : client.session ≠ request.sent) :
    Step client worker (client.resend worker request)
  | doubted (request : Request Sid) (error : ExecError)
    (h : client.phase worker = .holding request error) (hsid : client.session = request.sent)
    (hcode : error.apiCode = some 105) :
    Step client worker (client.setPhase worker (.probing request error))
  | condemned (request : Request Sid) (error : ExecError)
    (h : client.phase worker = .holding request error) (hsid : client.session = request.sent)
    (hcode : error.apiCode ≠ some 105) :
    Step client worker (client.setPhase worker (.admitting request error))
  | alive (request : Request Sid) (error : ExecError)
    (h : client.phase worker = .probing request error) :
    Step client worker ((client.note (.probed request.number true)).unlock.finish worker request
      (.error error))
  | dead (request : Request Sid) (error : ExecError)
    (h : client.phase worker = .probing request error) :
    Step client worker ((client.note (.probed request.number false)).setPhase worker
      (.admitting request error))
  | admitted (request : Request Sid) (error : ExecError) (now : Nat)
    (h : client.phase worker = .admitting request error) (hnow : client.clock ≤ now)
    (hok : (client.ledger.admitNow now).1 = .ok ()) :
    Step client worker (({ client with ledger := (client.ledger.admitNow now).2, clock := now }.setPhase
      worker (.loggingIn request error)).note (.admitted request.number now))
  | stopped (request : Request Sid) (error : ExecError) (now : Nat) (reason : String)
    (h : client.phase worker = .admitting request error) (hnow : client.clock ≤ now)
    (hstop : (client.ledger.admitNow now).1 = .error reason) :
    Step client worker
      (({ client with ledger := (client.ledger.admitNow now).2, clock := now }.note
        (.stopped request.number now)).unlock.finish worker request
          (.error (sessionErrorNaming error reason)))
  | loggedIn (request : Request Sid) (error : ExecError) (sid : Sid)
    (h : client.phase worker = .loggingIn request error) :
    Step client worker ((client.install request sid).resend worker request)
  | loginFailed (request : Request Sid) (error failure : ExecError)
    (h : client.phase worker = .loggingIn request error) :
    Step client worker (client.loginFailed worker request failure)

theorem act_step (client : Client Worker Sid) (worker : Worker) (move : Move Sid) :
    client.act worker move = client ∨ Step client worker (client.act worker move) := by
  unfold Client.act
  cases hphase : client.phase worker <;> cases move <;> try exact .inl rfl
  case idle.begin keepalive => exact .inr (.begin keepalive hphase)
  case first.attempted request result =>
    right
    cases result with
    | ok => exact .answered request (.ok ()) (.inl hphase)
    | error error =>
      show Step client worker ((client.note _).recoverSession worker request error)
      unfold Client.recoverSession
      split
      · rename_i hcode
        exact .refused request error hphase (Bool.and_eq_true_iff.mp hcode).2
      · exact .answered request (.error error) (.inl hphase)
  case refused.lock request error =>
    dsimp only
    split
    · rename_i hfree
      exact .inr (.locked request error hphase hfree)
    · exact .inl rfl
  case holding.compare request error =>
    right
    dsimp only
    split
    · rename_i hsid
      exact .replaced request error hphase hsid
    · rename_i hsid
      split
      · rename_i hcode
        exact .doubted request error hphase (not_not.mp hsid) hcode
      · rename_i hcode
        exact .condemned request error hphase (not_not.mp hsid) hcode
  case probing.probed request error alive =>
    right
    cases alive with
    | true => exact .alive request error hphase
    | false => exact .dead request error hphase
  case admitting.admission request error waited =>
    right
    have hnow : client.clock ≤ client.clock + waited := Nat.le_add_right _ _
    dsimp only
    cases hgrant : (client.ledger.admitNow (client.clock + waited)).1 with
    | ok =>
      have heq : client.ledger.admitNow (client.clock + waited) =
        (.ok (), (client.ledger.admitNow (client.clock + waited)).2) := Prod.ext hgrant rfl
      rw [heq]
      exact .admitted request error _ hphase hnow hgrant
    | error reason =>
      have heq : client.ledger.admitNow (client.clock + waited) =
        (.error reason, (client.ledger.admitNow (client.clock + waited)).2) := Prod.ext hgrant rfl
      rw [heq]
      exact .stopped request error _ reason hphase hnow hgrant
  case loggingIn.loggedIn request error result =>
    right
    match result with
    | .ok (some sid) => exact .loggedIn request error sid hphase
    | .ok none => exact .loginFailed request error _ hphase
    | .error failure => exact .loginFailed request error failure hphase
  case second.attempted request result => exact .inr (.answered request result (.inr hphase))

end Steps

end Session
end DriveSync
