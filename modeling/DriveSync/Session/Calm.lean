import DriveSync.Session.Recovery

/-!
# DriveSync.Session.Calm

Session recovery never storms, however the workers' moves follow one another and whatever they are
answered. A request's events are those of the one worker that has it, so what a worker may do next
is known from its phase and the log (`Owes`), and no other worker's move changes that: the session
in particular stands still while the ledger's lock is held.
-/

namespace DriveSync
namespace Session

open ReauthenticationLedger

variable {Worker Sid : Type}

/-! ## What the log says -/

/-- The request an event belongs to. -/
def Event.number : Event Sid → Nat
  | .sent number _ => number
  | .answered number _ => number
  | .probed number _ => number
  | .admitted number _ => number
  | .stopped number _ => number
  | .installed number _ _ => number
  | .loginFailed number => number
  | .returned number _ => number

/-- A re-login: let, made, or failed. -/
def Event.isRelogin : Event Sid → Bool
  | .admitted _ _ => true
  | .installed _ _ _ => true
  | .loginFailed _ => true
  | _ => false

def isSent (number : Nat) : Event Sid → Bool
  | .sent n _ => decide (n = number)
  | _ => false

def isInstalled [DecidableEq Sid] (sid : Sid) : Event Sid → Bool
  | .installed _ _ new => decide (new = sid)
  | _ => false

def isReplaced [DecidableEq Sid] (sid : Sid) : Event Sid → Bool
  | .installed _ old _ => decide (old = some sid)
  | _ => false

def admittedAt : Event Sid → Option Nat
  | .admitted _ now => some now
  | _ => none

/-- How often a request was sent. -/
def sends (number : Nat) (log : List (Event Sid)) : Nat := log.countP (isSent number)

/-- How often a re-login came back with a session. -/
def installations [DecidableEq Sid] (sid : Sid) (log : List (Event Sid)) : Nat :=
  log.countP (isInstalled sid)

/-- How often a re-login replaced a session. -/
def replacements [DecidableEq Sid] (sid : Sid) (log : List (Event Sid)) : Nat :=
  log.countP (isReplaced sid)

/-- When re-logins were let. -/
def admissions (log : List (Event Sid)) : List Nat := log.filterMap admittedAt

/-- Why a request led to a re-login: DSM refused the session it noted, by a code or, where the code
says less, by failing the probe too. -/
def Cause (log : List (Event Sid)) (number : Nat) : Prop :=
  ∃ error, .answered number (.error error) ∈ log ∧ sessionCode error = true ∧
    (error.apiCode = some 105 → .probed number false ∈ log)

/-- No re-login for a request. -/
def Quiet (log : List (Event Sid)) (number : Nat) : Prop :=
  ∀ event ∈ log, event.number = number → event.isRelogin = false

/-- What the requests did: each is sent at most twice, a re-login has its cause and replaces the
session its request noted, and where the probe is answered there is none. -/
structure Traced (log : List (Event Sid)) : Prop where
  twice : ∀ number, sends number log ≤ 2
  cause : ∀ event ∈ log, event.isRelogin = true → Cause log event.number
  replaced : ∀ number old new, .installed number old new ∈ log → .sent number old ∈ log
  alive : ∀ number, .probed number true ∈ log → Quiet log number

/-- No re-login is refused that would have kept both bounds, but at the counter's end. -/
def StopsForCause (started : Nat) (log : List (Event Sid)) : Prop :=
  ∀ before number now after, log = before ++ .stopped number now :: after →
    ¬ Bounded started (admissions before ++ [now]) ∨ (admissions before).length = u32Max

/-- Recovery that does not storm, of a client that began with a session. -/
structure Calm [DecidableEq Sid] (session : Option Sid) (started : Nat)
    (log : List (Event Sid)) : Prop where
  traced : Traced log
  replaced : ∀ sid, replacements sid log ≤
    installations sid log + if session = some sid then 1 else 0
  bounded : Bounded started (admissions log)
  stops : StopsForCause started log

/-! ## One more event -/

/-- What an event needs of the log before it. -/
def Allowed (log : List (Event Sid)) : Event Sid → Prop
  | .sent number _ => sends number log ≤ 1
  | .probed number true => Quiet log number
  | .admitted number _ => Cause log number ∧ .probed number true ∉ log
  | .installed number old _ => (Cause log number ∧ .probed number true ∉ log) ∧ .sent number old ∈ log
  | .loginFailed number => Cause log number ∧ .probed number true ∉ log
  | _ => True

variable {log : List (Event Sid)} {event : Event Sid} {number : Nat}

theorem Cause.append (h : Cause log number) (more : List (Event Sid)) : Cause (log ++ more) number := by
  obtain ⟨error, hanswered, hcode, hprobe⟩ := h
  exact ⟨error, List.mem_append_left _ hanswered, hcode, fun h => List.mem_append_left _ (hprobe h)⟩

theorem Quiet.push (h : Quiet log number) (he : event.number = number → event.isRelogin = false) :
    Quiet (log ++ [event]) number := by
  intro e hmem hn
  rcases List.mem_append.mp hmem with hmem | hmem
  · exact h e hmem hn
  · rw [List.mem_singleton.mp hmem] at hn ⊢
    exact he hn

theorem sends_push : sends number (log ++ [event]) =
    sends number log + if isSent number event then 1 else 0 := by
  unfold sends
  rw [List.countP_append, List.countP_singleton]

theorem sends_push_le : sends number (log ++ [event]) ≤ sends number log + 1 := by
  rw [sends_push]
  split
  · exact Nat.le_refl _
  · exact Nat.le_succ _

theorem sends_push_other (h : event.number ≠ number) :
    sends number (log ++ [event]) = sends number log := by
  rw [sends_push, if_neg]
  · rfl
  · cases event with
    | sent n noted => simpa [isSent, Event.number] using h
    | _ => simp [isSent]

/-- An event that is a re-login has its cause, and its request's probe was not answered. -/
theorem Allowed.relogin (h : Allowed log event) (he : event.isRelogin = true) :
    Cause log event.number ∧ .probed event.number true ∉ log := by
  cases event with
  | admitted number now => exact h
  | installed number old new => exact h.1
  | loginFailed number => exact h
  | _ => cases he

theorem Traced.push (h : Traced log) (ha : Allowed log event) : Traced (log ++ [event]) where
  twice number := by
    by_cases hn : event.number = number
    · subst hn
      cases event with
      | sent n noted =>
        have hsent : sends n log ≤ 1 := ha
        rw [sends_push]
        simp only [Event.number, isSent, decide_true, if_true]
        omega
      | _ => simpa [sends_push, isSent] using h.twice _
    · rw [sends_push_other hn]
      exact h.twice number
  cause e hmem hr := by
    rcases List.mem_append.mp hmem with hmem | hmem
    · exact (h.cause e hmem hr).append _
    · rw [List.mem_singleton.mp hmem] at hr ⊢
      exact (ha.relogin hr).1.append _
  replaced number old new hmem := by
    rcases List.mem_append.mp hmem with hmem | hmem
    · exact List.mem_append_left _ (h.replaced number old new hmem)
    · rw [← List.mem_singleton.mp hmem] at ha
      exact List.mem_append_left _ ha.2
  alive number hmem := by
    rcases List.mem_append.mp hmem with hmem | hmem
    · refine (h.alive number hmem).push fun hn => ?_
      cases hr : event.isRelogin
      · rfl
      · exact absurd (hn ▸ hmem) (ha.relogin hr).2
    · rw [← List.mem_singleton.mp hmem] at ha ⊢
      exact Quiet.push ha fun _ => rfl

theorem traced_nil : Traced ([] : List (Event Sid)) :=
  ⟨fun _ => Nat.zero_le _, fun _ h => (by cases h), fun _ _ _ h => (by cases h), fun _ h => (by cases h)⟩

/-! ## What each worker may do next -/

def Phase.request? : Phase Sid → Option (Request Sid)
  | .idle => none
  | .first request => some request
  | .refused request _ => some request
  | .holding request _ => some request
  | .probing request _ => some request
  | .admitting request _ => some request
  | .loggingIn request _ => some request
  | .second request => some request

/-- Whether a worker in this phase holds the ledger's lock. -/
def Phase.locked : Phase Sid → Bool
  | .holding _ _ => true
  | .probing _ _ => true
  | .admitting _ _ => true
  | .loggingIn _ _ => true
  | _ => false

/-- A request that was sent once and not found alive. -/
structure Asked (log : List (Event Sid)) (request : Request Sid) : Prop where
  sent : .sent request.number request.sent ∈ log
  once : sends request.number log ≤ 1
  alive : .probed request.number true ∉ log

/-- A request whose session DSM refused. -/
structure Denied (log : List (Event Sid)) (request : Request Sid) (error : ExecError) : Prop
    extends Asked log request where
  answered : .answered request.number (.error error) ∈ log
  code : sessionCode error = true

/-- What the log and the session say of a worker in a phase. -/
def Owes (log : List (Event Sid)) (session : Option Sid) : Phase Sid → Prop
  | .idle => True
  | .first request => Asked log request ∧ Quiet log request.number
  | .refused request error => Denied log request error ∧ Quiet log request.number
  | .holding request error => Denied log request error ∧ Quiet log request.number
  | .probing request error =>
    (Denied log request error ∧ Quiet log request.number) ∧ session = request.sent
  | .admitting request error =>
    (Denied log request error ∧ (error.apiCode = some 105 → .probed request.number false ∈ log)) ∧
      session = request.sent
  | .loggingIn request error =>
    (Denied log request error ∧ Cause log request.number) ∧ session = request.sent
  | .second _ => True

/-- Each worker is where the log says, each request is one worker's, and the lock is its holder's. -/
structure Steady (client : Client Worker Sid) : Prop where
  numbers : ∀ worker request, (client.phase worker).request? = some request →
    request.number < client.requests
  apart : ∀ worker worker' request request', (client.phase worker).request? = some request →
    (client.phase worker').request? = some request' → request.number = request'.number →
      worker = worker'
  unused : ∀ event ∈ client.log, event.number < client.requests
  owes : ∀ worker, Owes client.log client.session (client.phase worker)
  locked : ∀ worker, (client.phase worker).locked = true → client.holder = some worker

section Moves

variable [DecidableEq Worker] {client client' : Client Worker Sid} {worker : Worker} {request : Request Sid}
  {error : ExecError} {session session' : Option Sid} {phase : Phase Sid}

/-- An event that a request that was sent once, and not found alive, may still have. -/
def Event.plain : Event Sid → Bool
  | .sent _ _ => false
  | .probed _ true => false
  | _ => true

theorem Asked.push (h : Asked log request)
    (he : event.number ≠ request.number ∨ event.plain = true) :
    Asked (log ++ [event]) request where
  sent := List.mem_append_left _ h.sent
  once := by
    have hsent : isSent request.number event = false := by
      cases event with
      | sent n noted => simpa [isSent, Event.number, Event.plain] using he
      | _ => rfl
    rw [sends_push, hsent]
    exact h.once
  alive hmem := by
    rcases List.mem_append.mp hmem with hmem | hmem
    · exact h.alive hmem
    · rw [← List.mem_singleton.mp hmem] at he
      simp [Event.number, Event.plain] at he

theorem Denied.push (h : Denied log request error)
    (he : event.number ≠ request.number ∨ event.plain = true) :
    Denied (log ++ [event]) request error :=
  ⟨h.toAsked.push he, List.mem_append_left _ h.answered, h.code⟩

/-- Another request's event changes nothing for a worker. -/
theorem Owes.push (h : Owes log session phase)
    (he : ∀ request, phase.request? = some request → event.number ≠ request.number) :
    Owes (log ++ [event]) session phase := by
  cases phase with
  | idle => trivial
  | second request => trivial
  | first request =>
    have hn := he request rfl
    exact ⟨h.1.push (.inl hn), h.2.push fun heq => absurd heq hn⟩
  | refused request error =>
    have hn := he request rfl
    exact ⟨h.1.push (.inl hn), h.2.push fun heq => absurd heq hn⟩
  | holding request error =>
    have hn := he request rfl
    exact ⟨h.1.push (.inl hn), h.2.push fun heq => absurd heq hn⟩
  | probing request error =>
    have hn := he request rfl
    exact ⟨⟨h.1.1.push (.inl hn), h.1.2.push fun heq => absurd heq hn⟩, h.2⟩
  | admitting request error =>
    exact ⟨⟨h.1.1.push (.inl (he request rfl)), fun hc => List.mem_append_left _ (h.1.2 hc)⟩, h.2⟩
  | loggingIn request error =>
    exact ⟨⟨h.1.1.push (.inl (he request rfl)), h.1.2.append _⟩, h.2⟩

theorem Owes.standing (h : Owes log session phase) (hs : phase.locked = true → session' = session) :
    Owes log session' phase := by
  cases phase with
  | probing request error => exact ⟨h.1, (hs rfl).trans h.2⟩
  | admitting request error => exact ⟨h.1, (hs rfl).trans h.2⟩
  | loggingIn request error => exact ⟨h.1, (hs rfl).trans h.2⟩
  | _ => exact h

/-- A worker's move: its own phase, and events of its own request. -/
theorem Steady.move (h : Steady client) (events : List (Event Sid)) {number : Nat}
    (hphase : ∀ w, client'.phase w = if w = worker then phase else client.phase w)
    (hlog : client'.log = client.log ++ events)
    (hevents : ∀ event ∈ events, event.number = number)
    (hrequests : client.requests ≤ client'.requests ∧ number < client'.requests)
    (hothers : ∀ w request, w ≠ worker → (client.phase w).request? = some request →
      request.number ≠ number)
    (hown : ∀ request, phase.request? = some request → request.number = number)
    (hsession : client'.session = client.session ∨ (client.phase worker).locked = true)
    (hholder : (∀ w, w ≠ worker → client.holder = some w → client'.holder = some w) ∧
      (phase.locked = true → client'.holder = some worker))
    (howes : Owes client'.log client'.session phase) : Steady client' := by
  have hother : ∀ w, w ≠ worker → client'.phase w = client.phase w := by
    intro w hw
    rw [hphase, if_neg hw]
  have hmine : client'.phase worker = phase := by rw [hphase, if_pos rfl]
  have hnumber : ∀ w request, (client'.phase w).request? = some request →
      w = worker ∧ request.number = number ∨
        w ≠ worker ∧ (client.phase w).request? = some request ∧ request.number ≠ number := by
    intro w request hr
    by_cases hw : w = worker
    · subst hw
      rw [hmine] at hr
      exact .inl ⟨rfl, hown request hr⟩
    · rw [hother w hw] at hr
      exact .inr ⟨hw, hr, hothers w request hw hr⟩
  refine ⟨fun w request hr => ?_, fun w w' request request' hr hr' heq => ?_, fun event hmem => ?_,
    fun w => ?_, fun w hl => ?_⟩
  · rcases hnumber w request hr with ⟨_, hn⟩ | ⟨_, hr, _⟩
    · exact hn ▸ hrequests.2
    · exact Nat.lt_of_lt_of_le (h.numbers w request hr) hrequests.1
  · rcases hnumber w request hr with ⟨rfl, hn⟩ | ⟨_, hr, hn⟩ <;>
      rcases hnumber w' request' hr' with ⟨rfl, hn'⟩ | ⟨_, hr', hn'⟩
    · rfl
    · exact absurd (heq.symm.trans hn) hn'
    · exact absurd (heq.trans hn') hn
    · exact h.apart w w' request request' hr hr' heq
  · rw [hlog] at hmem
    rcases List.mem_append.mp hmem with hmem | hmem
    · exact Nat.lt_of_lt_of_le (h.unused event hmem) hrequests.1
    · exact hevents event hmem ▸ hrequests.2
  · by_cases hw : w = worker
    · subst hw
      rw [hmine]
      exact howes
    · rw [hother w hw, hlog]
      have hsame : (client.phase w).locked = true → client'.session = client.session := by
        intro hl
        rcases hsession with hs | hl'
        · exact hs
        · exact absurd (Option.some.inj ((h.locked w hl).symm.trans (h.locked worker hl'))) hw
      refine Owes.standing ?_ hsame
      clear hlog
      induction events using List.reverseRecOn with
      | nil =>
        rw [List.append_nil]
        exact h.owes w
      | append_singleton events event ih =>
        rw [← List.append_assoc]
        refine (ih fun e hmem => hevents e (List.mem_append_left _ hmem)).push fun request hr => ?_
        rw [hevents event (List.mem_append_right _ (.head _))]
        exact (hothers w request hw hr).symm
  · by_cases hw : w = worker
    · subst hw
      rw [hmine] at hl
      exact hholder.2 hl
    · rw [hother w hw] at hl
      exact hholder.1 w hw (h.locked w hl)

/-- A move of a worker with the request it has. -/
theorem Steady.proceed (h : Steady client)
    (hr : (client.phase worker).request? = some request) (events : List (Event Sid))
    (hphase : ∀ w, client'.phase w = if w = worker then phase else client.phase w)
    (hlog : client'.log = client.log ++ events)
    (hevents : ∀ event ∈ events, event.number = request.number)
    (hrequests : client'.requests = client.requests)
    (hown : phase.request? = none ∨ phase.request? = some request)
    (hsession : client'.session = client.session ∨ (client.phase worker).locked = true)
    (hholder : client'.holder = client.holder ∧ phase.locked = (client.phase worker).locked ∨
      client'.holder = none ∧ phase.locked = false ∧ (client.phase worker).locked = true ∨
      client.holder = none ∧ client'.holder = some worker)
    (howes : Owes client'.log client'.session phase) : Steady client' := by
  have hn := h.numbers worker request hr
  refine h.move events hphase hlog hevents ⟨Nat.le_of_eq hrequests.symm, hrequests ▸ hn⟩ ?_ ?_ hsession
    ⟨fun w hw hw' => ?_, fun hl => ?_⟩ howes
  · exact fun w request' hw hr' heq => hw (h.apart w worker request' request hr' hr heq)
  · intro request' hr'
    rcases hown with hnone | hsome
    · rw [hnone] at hr'
      cases hr'
    · rw [hsome] at hr'
      rw [Option.some.inj hr']
  · rcases hholder with ⟨heq, _⟩ | ⟨_, _, hl⟩ | ⟨hfree, _⟩
    · rw [heq]
      exact hw'
    · exact absurd (Option.some.inj (hw'.symm.trans (h.locked worker hl))) hw
    · rw [hfree] at hw'
      cases hw'
  · rcases hholder with ⟨heq, hlocked⟩ | ⟨_, hlocked, _⟩ | ⟨_, hmine⟩
    · rw [heq]
      exact h.locked worker (hlocked ▸ hl)
    · rw [hlocked] at hl
      cases hl
    · exact hmine

/-- The end of a request, but for the count of failed keepalives. -/
theorem finish_eq (client : Client Worker Sid) (worker : Worker) (request : Request Sid)
    (result : Except ExecError Unit) : ∃ failures, client.finish worker request result =
      { (client.setPhase worker .idle).note (.returned request.number result) with
        keepaliveFailures := failures } := by
  unfold Client.finish
  dsimp only
  split
  · split
    · exact ⟨_, rfl⟩
    · exact ⟨_, rfl⟩
  · exact ⟨_, rfl⟩

omit [DecidableEq Worker] in
theorem Steady.sends_unused (h : Steady client) : sends client.requests client.log = 0 := by
  refine List.countP_eq_zero.mpr fun event hmem => ?_
  have := h.unused event hmem
  cases event with
  | sent n noted =>
    simp only [Event.number] at this
    simp only [isSent, decide_eq_true_eq]
    omega
  | _ => simp [isSent]

/-- What a move keeps of the workers and of the log. -/
theorem Step.steady (hs : Step client worker client') (h : Steady client) (ht : Traced client.log) :
    Steady client' ∧ Traced client'.log := by
  have howed := h.owes worker
  cases hs with
  | begin keepalive hidle =>
    have hzero := h.sends_unused
    constructor
    · refine h.move [.sent client.requests client.session] (fun _ => rfl) rfl ?_
        ⟨Nat.le_succ _, Nat.lt_succ_self _⟩ ?_ ?_ (.inl rfl) ⟨fun _ _ h => h, fun h => by cases h⟩ ?_
      · intro event hmem
        rw [List.mem_singleton.mp hmem]
        rfl
      · exact fun w request _ hr => Nat.ne_of_lt (h.numbers w request hr)
      · intro request hr
        rw [← Option.some.inj hr]
      · have hfresh : ∀ event ∈ client.log, event.number ≠ client.requests :=
          fun event hmem => Nat.ne_of_lt (h.unused event hmem)
        refine ⟨⟨List.mem_append_right _ (.head _), ?_, fun hmem => ?_⟩, fun event hmem hn => ?_⟩
        · exact sends_push_le.trans (Nat.le_of_eq (congrArg Nat.succ hzero))
        · rcases List.mem_append.mp hmem with hmem | hmem
          · exact hfresh _ hmem rfl
          · cases List.mem_singleton.mp hmem
        · rcases List.mem_append.mp hmem with hmem | hmem
          · exact absurd hn (hfresh event hmem)
          · rw [List.mem_singleton.mp hmem]
            rfl
    · exact ht.push (Nat.le_succ_of_le (Nat.le_of_eq hzero))
  | answered request result hphase =>
    obtain ⟨failures, heq⟩ := finish_eq (client.note (.answered request.number result)) worker request
      result
    have hr : (client.phase worker).request? = some request := by
      rcases hphase with hp | hp <;> rw [hp] <;> rfl
    have hfree : (client.phase worker).locked = false := by
      rcases hphase with hp | hp <;> rw [hp] <;> rfl
    rw [heq]
    constructor
    · exact h.proceed hr [.answered request.number result, .returned request.number result]
        (fun _ => rfl) (List.append_assoc _ _ _) (by simp [Event.number]) rfl (.inl rfl) (.inl rfl)
        (.inl ⟨rfl, hfree.symm⟩) trivial
    · have hmid : Traced (client.log ++ [.answered request.number result]) := ht.push trivial
      exact hmid.push trivial
  | refused request error hphase hcode =>
    rw [hphase] at howed
    constructor
    · refine h.proceed (by rw [hphase]; rfl) [.answered request.number (.error error)] (fun _ => rfl)
        rfl (by simp [Event.number]) rfl (.inr rfl) (.inl rfl) (.inl ⟨rfl, by rw [hphase]; rfl⟩) ?_
      refine ⟨⟨howed.1.push (.inr rfl), List.mem_append_right _ (.head _), hcode⟩, ?_⟩
      exact howed.2.push fun _ => rfl
    · exact ht.push trivial
  | locked request error hphase hfree =>
    rw [hphase] at howed
    refine ⟨h.proceed (by rw [hphase]; rfl) [] (fun _ => rfl) (List.append_nil _).symm (by simp) rfl
      (.inr rfl) (.inl rfl) (.inr (.inr ⟨hfree, rfl⟩)) howed, ht⟩
  | replaced request error hphase hsid =>
    rw [hphase] at howed
    constructor
    · exact h.proceed (by rw [hphase]; rfl) [.sent request.number client.session] (fun _ => rfl) rfl
        (by simp [Event.number]) rfl (.inr rfl) (.inl rfl)
        (.inr (.inl ⟨rfl, rfl, by rw [hphase]; rfl⟩)) trivial
    · exact ht.push howed.1.once
  | doubted request error hphase hsid hcode =>
    rw [hphase] at howed
    refine ⟨h.proceed (by rw [hphase]; rfl) [] (fun _ => rfl) (List.append_nil _).symm (by simp) rfl
      (.inr rfl) (.inl rfl) (.inl ⟨rfl, by rw [hphase]; rfl⟩) ⟨howed, hsid⟩, ht⟩
  | condemned request error hphase hsid hcode =>
    rw [hphase] at howed
    refine ⟨h.proceed (by rw [hphase]; rfl) [] (fun _ => rfl) (List.append_nil _).symm (by simp) rfl
      (.inr rfl) (.inl rfl) (.inl ⟨rfl, by rw [hphase]; rfl⟩)
      ⟨⟨howed.1, fun h => absurd h hcode⟩, hsid⟩, ht⟩
  | alive request error hphase =>
    rw [hphase] at howed
    obtain ⟨failures, heq⟩ := finish_eq (client.note (.probed request.number true)).unlock worker
      request (.error error)
    rw [heq]
    constructor
    · exact h.proceed (by rw [hphase]; rfl)
        [.probed request.number true, .returned request.number (.error error)] (fun _ => rfl)
        (List.append_assoc _ _ _) (by simp [Event.number]) rfl (.inl rfl) (.inl rfl)
        (.inr (.inl ⟨rfl, rfl, by rw [hphase]; rfl⟩)) trivial
    · have hmid : Traced (client.log ++ [.probed request.number true]) := ht.push howed.1.2
      exact hmid.push trivial
  | dead request error hphase =>
    rw [hphase] at howed
    constructor
    · refine h.proceed (by rw [hphase]; rfl) [.probed request.number false] (fun _ => rfl) rfl
        (by simp [Event.number]) rfl (.inr rfl) (.inl rfl) (.inl ⟨rfl, by rw [hphase]; rfl⟩) ?_
      exact ⟨⟨howed.1.1.push (.inr rfl), fun _ => List.mem_append_right _ (.head _)⟩, howed.2⟩
    · exact ht.push trivial
  | admitted request error now hphase hnow hok =>
    rw [hphase] at howed
    have hcause : Cause client.log request.number :=
      ⟨error, howed.1.1.answered, howed.1.1.code, howed.1.2⟩
    constructor
    · refine h.proceed (by rw [hphase]; rfl) [.admitted request.number now] (fun _ => rfl) rfl
        (by simp [Event.number]) rfl (.inr rfl) (.inl rfl) (.inl ⟨rfl, by rw [hphase]; rfl⟩) ?_
      exact ⟨⟨howed.1.1.push (.inr rfl), hcause.append _⟩, howed.2⟩
    · exact ht.push ⟨hcause, howed.1.1.alive⟩
  | stopped request error now reason hphase hnow hstop =>
    obtain ⟨failures, heq⟩ := finish_eq (({ client with
      ledger := (client.ledger.admitNow now).2, clock := now }.note
        (.stopped request.number now)).unlock) worker request
        (.error (sessionErrorNaming error reason))
    rw [heq]
    constructor
    · exact h.proceed (by rw [hphase]; rfl) [.stopped request.number now,
        .returned request.number (.error (sessionErrorNaming error reason))] (fun _ => rfl)
        (List.append_assoc _ _ _) (by simp [Event.number]) rfl (.inl rfl) (.inl rfl)
        (.inr (.inl ⟨rfl, rfl, by rw [hphase]; rfl⟩)) trivial
    · have hmid : Traced (client.log ++ [.stopped request.number now]) := ht.push trivial
      exact hmid.push trivial
  | loggedIn request error sid hphase =>
    rw [hphase] at howed
    have hsent : .sent request.number client.session ∈ client.log := by
      rw [howed.2]
      exact howed.1.1.sent
    constructor
    · exact h.proceed (by rw [hphase]; rfl)
        [.installed request.number client.session sid, .sent request.number (some sid)]
        (fun _ => rfl) (List.append_assoc _ _ _) (by simp [Event.number]) rfl (.inr rfl)
        (.inr (by rw [hphase]; rfl)) (.inr (.inl ⟨rfl, rfl, by rw [hphase]; rfl⟩)) trivial
    · have hmid : Traced (client.log ++ [.installed request.number client.session sid]) :=
        ht.push ⟨⟨howed.1.2, howed.1.1.alive⟩, hsent⟩
      refine hmid.push ?_
      exact (howed.1.1.toAsked.push (.inr rfl)).once
  | loginFailed request error failure hphase =>
    rw [hphase] at howed
    obtain ⟨failures, heq⟩ := finish_eq (client.countFailure request) worker request (.error failure)
    rw [Client.loginFailed, heq]
    constructor
    · exact h.proceed (by rw [hphase]; rfl)
        [.loginFailed request.number, .returned request.number (.error failure)] (fun _ => rfl)
        (List.append_assoc _ _ _) (by simp [Event.number]) rfl (.inl rfl) (.inl rfl)
        (.inr (.inl ⟨rfl, rfl, by rw [hphase]; rfl⟩)) trivial
    · have hmid : Traced (client.log ++ [.loginFailed request.number]) :=
        ht.push ⟨howed.1.2, howed.1.1.alive⟩
      exact hmid.push trivial

/-! ## The sessions and the ledger -/

/-- An event the bounds are about. -/
def Event.isBooked : Event Sid → Bool
  | .admitted _ _ => true
  | .stopped _ _ => true
  | .installed _ _ _ => true
  | _ => false

/-- Every session that was installed was replaced or is the current one, and the ledger is that of
the re-logins that were let. -/
structure Booked [DecidableEq Sid] (session : Option Sid) (started : Nat)
    (client : Client Worker Sid) : Prop where
  sessions : ∀ sid, replacements sid client.log + (if client.session = some sid then 1 else 0) =
    installations sid client.log + if session = some sid then 1 else 0
  records : Records client.ledger client.clock (admissions client.log)
  since : client.ledger.started = started
  stops : StopsForCause started client.log

omit [DecidableEq Worker] in
theorem StopsForCause.push {started : Nat} (h : StopsForCause started log)
    (he : ∀ number now, event = .stopped number now →
      ¬ Bounded started (admissions log ++ [now]) ∨ (admissions log).length = u32Max) :
    StopsForCause started (log ++ [event]) := by
  intro before number now after heq
  rcases List.eq_nil_or_concat after with rfl | ⟨rest, last, rfl⟩
  · obtain ⟨rfl, he'⟩ := List.append_inj' heq rfl
    exact he number now (List.cons.inj he').1
  · rw [List.concat_eq_append, ← List.cons_append, ← List.append_assoc] at heq
    exact h before number now rest (List.append_inj_left' heq rfl)

omit [DecidableEq Worker] in
theorem StopsForCause.append {started : Nat} (h : StopsForCause started log)
    (events : List (Event Sid)) (he : ∀ event ∈ events, event.isBooked = false) :
    StopsForCause started (log ++ events) := by
  induction events using List.reverseRecOn with
  | nil =>
    rw [List.append_nil]
    exact h
  | append_singleton events event ih =>
    rw [← List.append_assoc]
    refine (ih fun e hmem => he e (List.mem_append_left _ hmem)).push fun number now heq => ?_
    have := he event (List.mem_append_right _ (.head _))
    rw [heq] at this
    cases this

omit [DecidableEq Worker] in
theorem admissions_append (more : List (Event Sid)) :
    admissions (log ++ more) = admissions log ++ admissions more := List.filterMap_append

section Books

variable [DecidableEq Sid] {started : Nat}

omit [DecidableEq Worker] in
theorem replacements_push {sid : Sid} : replacements sid (log ++ [event]) =
    replacements sid log + if isReplaced sid event then 1 else 0 := by
  rw [replacements, List.countP_append, List.countP_singleton]
  rfl

omit [DecidableEq Worker] in
theorem installations_push {sid : Sid} : installations sid (log ++ [event]) =
    installations sid log + if isInstalled sid event then 1 else 0 := by
  rw [installations, List.countP_append, List.countP_singleton]
  rfl

omit [DecidableEq Worker] in
/-- A move that neither lets, refuses nor makes a re-login. -/
theorem Booked.beside (h : Booked session started client) (events : List (Event Sid))
    (hlog : client'.log = client.log ++ events) (hevents : ∀ event ∈ events, event.isBooked = false)
    (hsession : client'.session = client.session) (hledger : client'.ledger = client.ledger)
    (hclock : client'.clock = client.clock) : Booked session started client' := by
  have hnone : ∀ {p : Event Sid → Bool}, (∀ event, event.isBooked = false → p event = false) →
      events.countP p = 0 := by
    intro p hp
    refine List.countP_eq_zero.mpr fun event hmem => ?_
    rw [hp event (hevents event hmem)]
    exact Bool.false_ne_true
  have hreplaced : ∀ sid, replacements sid client'.log = replacements sid client.log := by
    intro sid
    rw [hlog, replacements, List.countP_append, hnone fun event he => ?_]
    · rfl
    · cases event <;> first | rfl | cases he
  have hinstalled : ∀ sid, installations sid client'.log = installations sid client.log := by
    intro sid
    rw [hlog, installations, List.countP_append, hnone fun event he => ?_]
    · rfl
    · cases event <;> first | rfl | cases he
  have hadmitted : admissions client'.log = admissions client.log := by
    have : admissions events = [] := by
      refine List.filterMap_eq_nil_iff.mpr fun event hmem => ?_
      have he := hevents event hmem
      cases event <;> first | rfl | cases he
    rw [hlog, admissions_append, this, List.append_nil]
  refine ⟨fun sid => ?_, ?_, hledger ▸ h.since, ?_⟩
  · rw [hreplaced, hinstalled, hsession]
    exact h.sessions sid
  · rw [hledger, hclock, hadmitted]
    exact h.records
  · rw [hlog]
    exact h.stops.append events hevents

/-- What a move keeps of the sessions and of the ledger. -/
theorem Step.booked (hs : Step client worker client') (h : Booked session started client) :
    Booked session started client' := by
  cases hs with
  | begin keepalive hidle =>
    exact h.beside [.sent client.requests client.session] rfl (by simp [Event.isBooked]) rfl rfl rfl
  | answered request result hphase =>
    obtain ⟨failures, heq⟩ := finish_eq (client.note (.answered request.number result)) worker request
      result
    rw [heq]
    exact h.beside [.answered request.number result, .returned request.number result]
      (List.append_assoc _ _ _) (by simp [Event.isBooked]) rfl rfl rfl
  | refused request error hphase hcode =>
    exact h.beside [.answered request.number (.error error)] rfl (by simp [Event.isBooked]) rfl rfl rfl
  | locked request error hphase hfree =>
    exact h.beside [] (List.append_nil _).symm (by simp) rfl rfl rfl
  | replaced request error hphase hsid =>
    exact h.beside [.sent request.number client.session] rfl (by simp [Event.isBooked]) rfl rfl rfl
  | doubted request error hphase hsid hcode =>
    exact h.beside [] (List.append_nil _).symm (by simp) rfl rfl rfl
  | condemned request error hphase hsid hcode =>
    exact h.beside [] (List.append_nil _).symm (by simp) rfl rfl rfl
  | alive request error hphase =>
    obtain ⟨failures, heq⟩ := finish_eq (client.note (.probed request.number true)).unlock worker
      request (.error error)
    rw [heq]
    exact h.beside [.probed request.number true, .returned request.number (.error error)]
      (List.append_assoc _ _ _) (by simp [Event.isBooked]) rfl rfl rfl
  | dead request error hphase =>
    exact h.beside [.probed request.number false] rfl (by simp [Event.isBooked]) rfl rfl rfl
  | admitted request error now hphase hnow hok =>
    have hrecords := h.records.admit_ok hnow hok
    refine ⟨fun sid => ?_, ?_, admit_started.trans h.since, h.stops.push fun _ _ heq => by cases heq⟩
    · rw [Client.note, replacements_push, installations_push]
      exact h.sessions sid
    · rw [Client.note, admissions_append]
      exact hrecords
  | stopped request error now reason hphase hnow hstop =>
    obtain ⟨failures, heq⟩ := finish_eq (({ client with
      ledger := (client.ledger.admitNow now).2, clock := now }.note
        (.stopped request.number now)).unlock) worker request
        (.error (sessionErrorNaming error reason))
    rw [heq]
    obtain ⟨hrecords, hbroken⟩ := h.records.admit_error hnow hstop
    have hstopped : Booked session started ({ client with
        ledger := (client.ledger.admitNow now).2, clock := now }.note (.stopped request.number now)) := by
      refine ⟨fun sid => ?_, ?_, admit_started.trans h.since, h.stops.push fun n now' heq => ?_⟩
      · rw [Client.note, replacements_push, installations_push]
        exact h.sessions sid
      · rw [Client.note, admissions_append]
        exact (List.append_nil (admissions client.log)).symm ▸ hrecords
      · cases heq
        exact h.since ▸ hbroken
    exact hstopped.beside [.returned request.number (.error (sessionErrorNaming error reason))] rfl
      (by simp [Event.isBooked]) rfl rfl rfl
  | loggedIn request error sid hphase =>
    have hinstalled : Booked session started (client.install request sid) := by
      refine ⟨fun s => ?_, ?_, h.since, h.stops.push fun _ _ heq => by cases heq⟩
      · have := h.sessions s
        rw [Client.install, Client.note, replacements_push, installations_push]
        simp only [isReplaced, isInstalled, decide_eq_true_eq, Option.some.injEq]
        omega
      · rw [Client.install, Client.note, admissions_append]
        exact (List.append_nil (admissions client.log)).symm ▸ h.records
    exact hinstalled.beside [.sent request.number (some sid)] rfl (by simp [Event.isBooked]) rfl rfl rfl
  | loginFailed request error failure hphase =>
    obtain ⟨failures, heq⟩ := finish_eq (client.countFailure request) worker request (.error failure)
    rw [Client.loginFailed, heq]
    exact h.beside [.loginFailed request.number, .returned request.number (.error failure)]
      (List.append_assoc _ _ _) (by simp [Event.isBooked]) rfl rfl rfl

omit [DecidableEq Worker] [DecidableEq Sid] in
theorem steady_new (reauthenticator : Bool) (session : Option Sid) (started : Nat) :
    Steady (.new reauthenticator session started : Client Worker Sid) :=
  ⟨fun _ _ h => (by cases h), fun _ _ _ _ h => (by cases h), fun _ h => (by cases h),
    fun _ => trivial, fun _ h => (by cases h)⟩

omit [DecidableEq Worker] in
theorem booked_new (reauthenticator : Bool) (session : Option Sid) (started : Nat) :
    Booked session started (.new reauthenticator session started : Client Worker Sid) := by
  refine ⟨fun _ => rfl, records_new started, rfl, fun before number now after heq => ?_⟩
  simp [Client.new] at heq

/-- However many workers share a client, and whatever they do and are answered, its recovery does not
storm. -/
theorem run_calm (reauthenticator : Bool) (session : Option Sid) (started : Nat)
    (moves : List (Worker × Move Sid)) :
    Calm session started ((Client.new reauthenticator session started).run moves).log := by
  suffices h : ∀ client : Client Worker Sid, Steady client → Traced client.log →
      Booked session started client → Calm session started (client.run moves).log from
    h _ (steady_new reauthenticator session started) traced_nil
      (booked_new reauthenticator session started)
  induction moves with
  | nil =>
    intro client _ ht hb
    refine ⟨ht, fun sid => ?_, hb.since ▸ hb.records.bounded, hb.stops⟩
    have hsessions := hb.sessions sid
    have hle : replacements sid client.log ≤
        installations sid client.log + if session = some sid then 1 else 0 := by omega
    exact hle
  | cons move moves ih =>
    intro client h ht hb
    rw [Client.run, List.foldl_cons]
    rcases act_step client move.1 move.2 with heq | hstep
    · rw [heq]
      exact ih client h ht hb
    · obtain ⟨h', ht'⟩ := hstep.steady h ht
      exact ih _ h' ht' (hstep.booked hb)

end Books

end Moves

/-! DSM gives the same session id again: two workers' requests are refused under one id, and the second
sees the id it noted still there and logs in once more. And where the ledger's counter is full, it
refuses what both bounds allow. -/

namespace Reissued

def expired : ExecError := .api "SYNO.FileStation.List" "list" 119 ""

def moves : List (Bool × Move Nat) :=
  [(true, .begin false), (false, .begin false), (true, .attempted (.error expired)),
    (false, .attempted (.error expired)), (true, .lock), (true, .compare), (true, .admission 0),
    (true, .loggedIn (.ok (some 0))), (false, .lock), (false, .compare), (false, .admission 0),
    (false, .loggedIn (.ok (some 0)))]

theorem not_once : ¬ replacements 0 ((Client.new true (some 0) 0).run moves).log ≤ 1 ∧
    ¬ (Bounded 0 (spaced u32Max ++ [u32Max * reauthenticationAllowancePeriod]) →
      (((ReauthenticationLedger.new 0).after (spaced u32Max)).admitNow
        (u32Max * reauthenticationAllowancePeriod)).1 = .ok ()) := by
  obtain ⟨⟨reason, hrefused⟩, hbounded⟩ := refused_at_end
  refine ⟨by decide, fun h => ?_⟩
  cases hrefused.symm.trans (h hbounded)

end Reissued

end Session
end DriveSync
