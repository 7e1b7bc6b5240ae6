import DriveSync.Audit.Outbox
import DriveSync.Lib.History

/-!
# DriveSync.Audit.Terminal

Every transaction gets one end. A record only ever moves on, and out of a terminal phase it does not
move at all (`Advances`); what is appended as a transaction's end is the phase its record was
written in before (`Stands.appended`). So whatever the order of the operations, wherever their
processes end, and whatever becomes of an append, `OneEnd` holds of what was done.

A transaction that is begun again after its record was removed has a new life, and may end anew:
only a record that is there keeps its transaction from being begun.
-/

namespace DriveSync
namespace Audit

open Proc

def AuditOutboxPhase.isTerminal (phase : AuditOutboxPhase) : Bool := phase.terminalState.isSome

/-- Before anybody took the transaction up. -/
def AuditOutboxPhase.isUnclaimed : AuditOutboxPhase → Bool
  | prepared | publishing | queued => true
  | executing | succeeded | failed | outcomeUnknown => false

def Event.removes (transaction : String) : Event → Bool
  | .removed record => record.transaction == transaction
  | .called .. | .wrote .. | .appended .. => false

/-- What was done since the transaction's record was last removed. -/
def life (transaction : String) (events : List Event) : List Event :=
  since (Event.removes transaction) events

/-- A record of the transaction was written in this phase, whatever its writer was told. -/
def PhaseWritten (transaction : String) (phase : AuditOutboxPhase) (events : List Event) : Prop :=
  ∃ i record confirmed, .wrote i record confirmed ∈ events ∧ record.transaction = transaction ∧
    record.phase = phase

/-- The operation is the last one the process called. -/
def Running (i : Identity) (operation : Operation) (events : List Event) : Prop :=
  ∃ before after, events = before ++ .called i operation :: after ∧
    ∀ operation', .called i operation' ∉ after

/-- The response to the transaction's job says so. -/
def ResponseSays (s : Store) (record : AuditOutboxRecord) (state : String) : Prop :=
  ∃ jobId response, record.jobId = some jobId ∧ s.responses jobId = some response ∧
    response.auditTransaction = record.transaction ∧ response.auditTerminalState = state

/-- Nobody but the process took the transaction up, and its own write of that was reported to it as
failed. -/
def OwnClaims (i : Identity) (transaction : String) (events : List Event) : Prop :=
  ∀ {j record confirmed}, .wrote j record confirmed ∈ life transaction events →
    record.transaction = transaction → record.phase = .executing → j = i ∧ confirmed = false

/-- Why a process may write that a transaction failed: its job's response says so, the process was
called to say so, nobody took it up, or the process is giving up on having begun it. -/
def Excused (s : Store) (before : List Event) (i : Identity) (record : AuditOutboxRecord) : Prop :=
  ResponseSays s record "failed" ∨
    Running i (.complete record.transaction .failed) before ∨
      ¬ PhaseWritten record.transaction .executing (life record.transaction before) ∨
        ∃ begun readyPhase, Running i (.begin begun readyPhase) before ∧
          begun.transaction = record.transaction ∧ OwnClaims i record.transaction before

/-- The record was written as failed, for a reason, and has not been removed since. -/
def FailedBefore (s : Store) (transaction : String) (before : List Event) : Prop :=
  ∃ front i record confirmed rest, before = front ++ .wrote i record confirmed :: rest ∧
    (∀ event ∈ rest, event.removes transaction = false) ∧ record.transaction = transaction ∧
    record.phase = .failed ∧ Excused s front i record

/-- What may be done, of what was done before. -/
def Rightly (s : Store) (before : List Event) : Event → Prop
  | .called .. => True
  | .wrote i record _ =>
    -- out of a terminal phase no record moves
    (∀ phase, phase.isTerminal = true →
      PhaseWritten record.transaction phase (life record.transaction before) →
      record.phase = phase) ∧
    (record.phase = .failed → Excused s before i record)
  | .removed record =>
    ∃ state, record.phase.terminalState = some state ∧
      .appended record.transaction "requested" true ∈ life record.transaction before ∧
      .appended record.transaction state true ∈ life record.transaction before
  | .appended transaction state _ =>
    (∀ (phase phase' : AuditOutboxPhase) state' confirmed', phase.terminalState = some state →
      phase'.terminalState = some state' →
      .appended transaction state' confirmed' ∈ life transaction before → state' = state) ∧
    (state = "failed" → FailedBefore s transaction before)

/-- Every transaction gets one end, as often as it is begun. -/
def OneEnd (s : Store) : Prop := EachAfter (Rightly s) s.history

/-! ## What the processes keep -/

/-- What a transaction's record says of what was done since it was last removed. -/
structure Stands (transaction : String) (standing : Option AuditOutboxRecord)
    (events : List Event) : Prop where
  written : ∀ {record}, standing = some record → ∃ i confirmed, .wrote i record confirmed ∈ events
  unwritten : standing = none → ∀ phase, ¬ PhaseWritten transaction phase events
  unclaimed : ∀ {record}, standing = some record → record.phase.isUnclaimed = true →
    ¬ PhaseWritten transaction .executing events
  current : ∀ {record phase}, standing = some record → phase.isTerminal = true →
    PhaseWritten transaction phase events → record.phase = phase
  appended : ∀ {phase : AuditOutboxPhase} {state confirmed}, phase.terminalState = some state →
    .appended transaction state confirmed ∈ events → PhaseWritten transaction phase events

structure Sound (s : Store) : Prop where
  rightly : OneEnd s
  stands : ∀ transaction, Stands transaction (s.record? transaction) (life transaction s.history)

/-- What a published response says is not changed. -/
def Published (s s' : Store) : Prop :=
  ∀ jobId response, s.responses jobId = some response →
    ∃ response', s'.responses jobId = some response' ∧
      response'.auditTransaction = response.auditTransaction ∧
      response'.auditTerminalState = response.auditTerminalState

/-- What a process can rely on: what was done stays done, nobody else calls in its name, under its
lock nobody else writes, and a published response keeps its verdict. -/
structure Rely (i : Identity) (s s' : Store) : Prop where
  held : s.outboxLock = some i → s'.outboxLock = some i ∧ ∀ t, s'.record? t = s.record? t
  past : ∃ new, s'.history = s.history ++ new ∧ (∀ operation, .called i operation ∉ new) ∧
    (s.outboxLock = some i → ∀ event ∈ new, ∃ j operation, event = .called j operation)
  published : Published s s'

theorem Published.refl (s : Store) : Published s s := fun _ _ h => ⟨_, h, rfl, rfl⟩

theorem Published.trans {s₁ s₂ s₃ : Store} (h : Published s₁ s₂) (h' : Published s₂ s₃) :
    Published s₁ s₃ := fun jobId response hr => by
  obtain ⟨response₂, hr₂, htransaction, hstate⟩ := h jobId response hr
  obtain ⟨response₃, hr₃, htransaction', hstate'⟩ := h' jobId response₂ hr₂
  exact ⟨response₃, hr₃, htransaction'.trans htransaction, hstate'.trans hstate⟩

theorem Rely.refl (i : Identity) (s : Store) : Rely i s s :=
  ⟨fun h => ⟨h, fun _ => rfl⟩, ⟨[], by simp, by simp, by simp⟩, Published.refl s⟩

theorem Rely.trans {i : Identity} {s₁ s₂ s₃ : Store} (h : Rely i s₁ s₂) (h' : Rely i s₂ s₃) :
    Rely i s₁ s₃ where
  held hlock := by
    obtain ⟨hlock₂, hrecord⟩ := h.held hlock
    obtain ⟨hlock₃, hrecord'⟩ := h'.held hlock₂
    exact ⟨hlock₃, fun t => (hrecord' t).trans (hrecord t)⟩
  past := by
    obtain ⟨new, hnew, hcalled, honly⟩ := h.past
    obtain ⟨new', hnew', hcalled', honly'⟩ := h'.past
    refine ⟨new ++ new', by rw [hnew', hnew, List.append_assoc], fun operation hmem => ?_,
      fun hlock event hmem => ?_⟩
    · exact (List.mem_append.mp hmem).elim (hcalled operation) (hcalled' operation)
    · exact (List.mem_append.mp hmem).elim (honly hlock event)
        (honly' (h.held hlock).1 event)
  published := h.published.trans h'.published

/-- What the operations keep, whatever the processes. -/
def contract : Contract controlSignature Store Identity where
  act := act
  inv := Sound
  rely := Rely
  refl := Rely.refl
  trans := Rely.trans

variable {i : Identity} {s s' : Store} {record : AuditOutboxRecord}

/-! ## A transaction's life -/

section Life

variable {transaction : String} {phase : AuditOutboxPhase} {events new : List Event} {event : Event}

theorem life_push (h : event.removes transaction = false) :
    life transaction (events ++ [event]) = life transaction events ++ [event] := by
  unfold life
  rw [since_push, h]
  simp

theorem life_calls (h : ∀ event ∈ new, ∃ j operation, event = .called j operation) :
    life transaction (events ++ new) = life transaction events ++ new := by
  refine since_append fun event hmem => ?_
  obtain ⟨j, operation, rfl⟩ := h event hmem
  rfl

theorem phaseWritten_push : PhaseWritten transaction phase (events ++ [event]) ↔
    PhaseWritten transaction phase events ∨
      ∃ i record confirmed, event = .wrote i record confirmed ∧ record.transaction = transaction ∧
        record.phase = phase := by
  constructor
  · rintro ⟨i, record, confirmed, hmem, h⟩
    rcases List.mem_append.mp hmem with hmem | hmem
    · exact .inl ⟨i, record, confirmed, hmem, h⟩
    · exact .inr ⟨i, record, confirmed, (List.mem_singleton.mp hmem).symm, h⟩
  · rintro (⟨i, record, confirmed, hmem, h⟩ | ⟨i, record, confirmed, rfl, h⟩)
    · exact ⟨i, record, confirmed, List.mem_append_left _ hmem, h⟩
    · exact ⟨i, record, confirmed, List.mem_append_right _ (List.mem_singleton_self _), h⟩

/-- Something done that is no write of the transaction. -/
theorem phaseWritten_push_other
    (h : ∀ i record confirmed, event = .wrote i record confirmed →
      record.transaction ≠ transaction) :
    PhaseWritten transaction phase (events ++ [event]) ↔ PhaseWritten transaction phase events := by
  rw [phaseWritten_push, or_iff_left]
  rintro ⟨i, record, confirmed, heq, ht, _⟩
  exact h i record confirmed heq ht

theorem running_push {operation : Operation} (h : Running i operation events)
    (hevent : ∀ operation', event ≠ .called i operation') :
    Running i operation (events ++ [event]) := by
  obtain ⟨before, after, rfl, hafter⟩ := h
  refine ⟨before, after ++ [event], by simp, fun operation' hmem => ?_⟩
  rcases List.mem_append.mp hmem with hmem | hmem
  · exact hafter operation' hmem
  · exact hevent operation' (List.mem_singleton.mp hmem).symm

theorem running_calls {operation : Operation} (h : Running i operation events)
    (hnew : ∀ operation', .called i operation' ∉ new) : Running i operation (events ++ new) := by
  obtain ⟨before, after, rfl, hafter⟩ := h
  exact ⟨before, after ++ new, by simp, fun operation' hmem =>
    (List.mem_append.mp hmem).elim (hafter operation') (hnew operation')⟩

theorem running_called {operation : Operation} :
    Running i operation (events ++ [.called i operation]) :=
  ⟨events, [], rfl, fun _ h => by cases h⟩

/-! ## What a change of the store keeps -/

theorem stands_removed : Stands transaction none [] where
  written h := by cases h
  unwritten _ phase := by
    rintro ⟨_, _, _, hmem, _⟩
    cases hmem
  unclaimed h := by cases h
  current h := by cases h
  appended _ hmem := by cases hmem

variable {standing : Option AuditOutboxRecord}

/-- Something done that is neither a write of the transaction nor its end. -/
theorem Stands.push (h : Stands transaction standing events)
    (hwrote : ∀ i record confirmed, event = .wrote i record confirmed →
      record.transaction ≠ transaction)
    (happended : ∀ state confirmed phase, event = .appended transaction state confirmed →
      phase.terminalState = some state → PhaseWritten transaction phase events) :
    Stands transaction standing (events ++ [event]) where
  written hr := by
    obtain ⟨i, confirmed, hmem⟩ := h.written hr
    exact ⟨i, confirmed, List.mem_append_left _ hmem⟩
  unwritten hnone phase := by
    rw [phaseWritten_push_other hwrote]
    exact h.unwritten hnone phase
  unclaimed hr hphase := by
    rw [phaseWritten_push_other hwrote]
    exact h.unclaimed hr hphase
  current hr hterminal hwritten :=
    h.current hr hterminal ((phaseWritten_push_other hwrote).mp hwritten)
  appended {phase state confirmed} hphase hmem := by
    rw [phaseWritten_push_other hwrote]
    rcases List.mem_append.mp hmem with hmem | hmem
    · exact h.appended hphase hmem
    · exact happended state confirmed phase (List.mem_singleton.mp hmem).symm hphase

end Life

theorem ResponseSays.later {state : String} (h : ResponseSays s record state)
    (hpublished : Published s s') : ResponseSays s' record state := by
  obtain ⟨jobId, response, hjob, hresponse, htransaction, hstate⟩ := h
  obtain ⟨response', hresponse', htransaction', hstate'⟩ := hpublished jobId response hresponse
  exact ⟨jobId, response', hjob, hresponse', htransaction'.trans htransaction,
    hstate'.trans hstate⟩

theorem Excused.later {before : List Event} (h : Excused s before i record)
    (hpublished : Published s s') : Excused s' before i record :=
  h.imp_left fun h => h.later hpublished

theorem Rightly.later {before : List Event} {event : Event} (h : Rightly s before event)
    (hpublished : Published s s') : Rightly s' before event := by
  cases event with
  | called => trivial
  | wrote i record confirmed => exact ⟨h.1, fun hphase => (h.2 hphase).later hpublished⟩
  | removed record => exact h
  | appended transaction state confirmed =>
    refine ⟨h.1, fun hstate => ?_⟩
    obtain ⟨front, i, record, c, rest, hbefore, hrest, ht, hphase, hexcused⟩ := h.2 hstate
    exact ⟨front, i, record, c, rest, hbefore, hrest, ht, hphase, hexcused.later hpublished⟩

/-- A change that leaves the records and what was done as they are. -/
structure Quiet (s s' : Store) : Prop where
  records : ∀ t, s'.record? t = s.record? t
  history : s'.history = s.history
  published : Published s s'

theorem Sound.quiet (h : Sound s) (hquiet : Quiet s s') : Sound s' where
  rightly := by
    unfold OneEnd
    rw [hquiet.history]
    exact h.rightly.mono fun before event he => he.later hquiet.published
  stands transaction := by
    rw [hquiet.records, hquiet.history]
    exact h.stands transaction

/-- One more thing done that writes and removes no record. -/
theorem Sound.note (h : Sound s) {event : Event} (hrightly : Rightly s s.history event)
    (hwrote : ∀ i r confirmed, event ≠ .wrote i r confirmed)
    (hremoved : ∀ t, event.removes t = false)
    (happended : ∀ t state confirmed phase, event = .appended t state confirmed →
      phase.terminalState = some state → PhaseWritten t phase (life t s.history)) :
    Sound (s.note event) where
  rightly := EachAfter.push h.rightly hrightly
  stands transaction := by
    show Stands transaction (s.record? transaction) (life transaction (s.history ++ [event]))
    rw [life_push (hremoved transaction)]
    exact (h.stands transaction).push (fun i r c heq => absurd heq (hwrote i r c))
      fun state confirmed phase => happended transaction state confirmed phase

theorem Sound.called (h : Sound s) (operation : Operation) :
    Sound (s.note (.called i operation)) :=
  h.note trivial (fun _ _ _ h => by cases h) (fun _ => rfl) fun _ _ _ _ h => by cases h

/-- The end of the record that stands may be appended. -/
theorem Sound.append (h : Sound s) {state : String} {confirmed : Bool}
    (hrecord : s.record? record.transaction = some record)
    (hstate : ∀ phase : AuditOutboxPhase, phase.terminalState = some state →
      record.phase = phase) :
    Sound (s.note (.appended record.transaction state confirmed)) := by
  have hstands := h.stands record.transaction
  obtain ⟨i, c, hwritten⟩ := hstands.written hrecord
  refine h.note ⟨fun phase phase' state' confirmed' hphase hphase' hmem => ?_, fun hfailed => ?_⟩
    (fun _ _ _ h => by cases h) (fun _ => rfl) fun t st c' phase heq hphase => ?_
  · -- both are the phase of the record that stands
    have hcurrent : record.phase = phase' :=
      hstands.current hrecord (by rw [AuditOutboxPhase.isTerminal, hphase']; rfl)
        (hstands.appended hphase' hmem)
    rw [← hcurrent, hstate phase hphase, hphase] at hphase'
    exact (Option.some.inj hphase').symm
  · have hphase : record.phase = .failed := hstate .failed (by rw [hfailed]; rfl)
    obtain ⟨front, rest, hhistory, _, hrest⟩ := mem_since.mp hwritten
    exact ⟨front, i, record, c, rest, hhistory, hrest, rfl, hphase,
      (h.rightly front _ rest hhistory).2 hphase⟩
  · obtain ⟨rfl, rfl, rfl⟩ := Event.appended.inj heq
    exact ⟨i, record, c, hwritten, rfl, hstate phase hphase⟩

/-- How a record may be written: as the first of its transaction, or on from the phase it is in. -/
inductive Advances (i : Identity) (s : Store) (record : AuditOutboxRecord) : Prop where
  | first (hnone : s.record? record.transaction = none) (hphase : record.phase = .prepared)
  | next (old : AuditOutboxRecord) (hold : s.record? record.transaction = some old)
    (hterminal : old.phase.isTerminal = true → record.phase = old.phase)
    (hunclaimed : record.phase.isUnclaimed = true → old.phase.isUnclaimed = true)
    (hexcused : record.phase = .failed → Excused s s.history i record)

theorem Advances.terminal (h : Advances i s record) (hsound : Sound s) {phase : AuditOutboxPhase}
    (hterminal : phase.isTerminal = true)
    (hwritten : PhaseWritten record.transaction phase (life record.transaction s.history)) :
    record.phase = phase := by
  have hstands := hsound.stands record.transaction
  cases h with
  | first hnone _ => exact absurd hwritten (hstands.unwritten hnone phase)
  | next old hold hkept _ _ =>
    have hphase := hstands.current hold hterminal hwritten
    exact (hkept (hphase ▸ hterminal)).trans hphase

theorem Advances.unclaimed (h : Advances i s record) (hsound : Sound s)
    (hphase : record.phase.isUnclaimed = true) :
    ¬ PhaseWritten record.transaction .executing (life record.transaction s.history) := by
  have hstands := hsound.stands record.transaction
  cases h with
  | first hnone _ => exact hstands.unwritten hnone _
  | next old hold _ hunclaimed _ => exact hstands.unclaimed hold (hunclaimed hphase)

theorem Advances.excused (h : Advances i s record) (hfailed : record.phase = .failed) :
    Excused s s.history i record := by
  cases h with
  | first _ hprepared =>
    rw [hprepared] at hfailed
    cases hfailed
  | next _ _ _ _ hexcused => exact hexcused hfailed

/-- The record that was written stands for what is done of its transaction. -/
theorem Advances.stands (h : Advances i s record) (hsound : Sound s) (confirmed : Bool) :
    Stands record.transaction (some record)
      (life record.transaction s.history ++ [.wrote i record confirmed]) where
  written hr := by
    rw [← Option.some.inj hr]
    exact ⟨i, confirmed, List.mem_append_right _ (List.mem_singleton_self _)⟩
  unwritten hnone := by cases hnone
  unclaimed hr hphase := by
    rw [← Option.some.inj hr] at hphase
    rw [phaseWritten_push]
    rintro (hwritten | ⟨_, r, _, heq, _, hexecuting⟩)
    · exact h.unclaimed hsound hphase hwritten
    · rw [(Event.wrote.inj heq).2.1, hexecuting] at hphase
      cases hphase
  current hr hterminal hwritten := by
    rw [← Option.some.inj hr]
    rcases phaseWritten_push.mp hwritten with hwritten | ⟨_, r, _, heq, _, hphase⟩
    · exact h.terminal hsound hterminal hwritten
    · rw [(Event.wrote.inj heq).2.1]
      exact hphase
  appended hphase hmem := by
    rcases List.mem_append.mp hmem with hmem | hmem
    · exact phaseWritten_push.mpr (.inl ((hsound.stands _).appended hphase hmem))
    · cases List.mem_singleton.mp hmem

theorem sound_write (h : Sound s) (hadvances : Advances i s record) (confirmed : Bool) :
    Sound (s.write i record confirmed) where
  rightly := EachAfter.push h.rightly
    ⟨fun _ hterminal hwritten => hadvances.terminal h hterminal hwritten, hadvances.excused⟩
  stands t := by
    show Stands t ((s.write i record confirmed).record? t)
      (life t (s.history ++ [.wrote i record confirmed]))
    rw [Store.record?_write, life_push rfl]
    split
    · rename_i ht
      subst ht
      exact hadvances.stands h confirmed
    · rename_i ht
      refine (h.stands t).push (fun j r c heq hr => ?_) fun _ _ _ heq => by cases heq
      rw [← (Event.wrote.inj heq).2.1] at hr
      exact ht hr.symm

theorem sound_remove (h : Sound s) {state : String} (hstate : record.phase.terminalState = some state)
    (hrequested : .appended record.transaction "requested" true ∈
      life record.transaction s.history)
    (hended : .appended record.transaction state true ∈ life record.transaction s.history) :
    Sound (s.remove record) where
  rightly := EachAfter.push h.rightly ⟨state, hstate, hrequested, hended⟩
  stands t := by
    show Stands t ((s.remove record).record? t) (life t (s.history ++ [.removed record]))
    rw [Store.record?_remove]
    by_cases ht : t = record.transaction
    · have hlife : life t (s.history ++ [.removed record]) = [] := by
        unfold life
        rw [since_push, if_pos (by simp [Event.removes, ht])]
      rw [if_pos ht, hlife]
      exact stands_removed
    · have hremoves : (Event.removed record).removes t = false := by
        simpa [Event.removes] using fun heq => ht heq.symm
      rw [if_neg ht, life_push hremoves]
      exact (h.stands t).push (fun _ _ _ heq => by cases heq) fun _ _ _ heq => by cases heq

/-! ## What the others can rely on -/

theorem rely_quiet (hquiet : Quiet s s')
    (hlock : ∀ j, j ≠ i → s.outboxLock = some j → s'.outboxLock = some j) :
    ∀ j, j ≠ i → Rely j s s' := fun j hj => {
  held := fun h => ⟨hlock j hj h, hquiet.records⟩
  past := ⟨[], by rw [hquiet.history, List.append_nil], by simp, by simp⟩
  published := hquiet.published }

/-- What the lock's holder does, as far as the others see. -/
theorem rely_held (hheld : s.outboxLock = some i) {event : Event}
    (hhistory : s'.history = s.history ++ [event])
    (hevent : ∀ j operation, event ≠ .called j operation) (hresponses : s'.responses = s.responses) :
    ∀ j, j ≠ i → Rely j s s' := fun j hj => {
  held := fun h => absurd (Option.some.inj (hheld.symm.trans h)).symm hj
  past := ⟨[event], hhistory, fun operation hmem => hevent j operation
    (List.mem_singleton.mp hmem).symm,
    fun h => absurd (Option.some.inj (hheld.symm.trans h)).symm hj⟩
  published := fun _ _ h => ⟨_, hresponses ▸ h, rfl, rfl⟩ }

theorem rely_write (hheld : s.outboxLock = some i) (confirmed : Bool) :
    ∀ j, j ≠ i → Rely j s (s.write i record confirmed) :=
  rely_held hheld rfl (fun _ _ h => by cases h) rfl

theorem rely_append (hheld : s.outboxLock = some i) (transaction state : String)
    (confirmed : Bool) : ∀ j, j ≠ i → Rely j s (s.note (.appended transaction state confirmed)) :=
  rely_held hheld rfl (fun _ _ h => by cases h) rfl

theorem rely_remove (hheld : s.outboxLock = some i) : ∀ j, j ≠ i → Rely j s (s.remove record) :=
  rely_held hheld rfl (fun _ _ h => by cases h) rfl

/-- A call is seen by all but its own process. -/
theorem rely_called (operation : Operation) :
    ∀ j, j ≠ i → Rely j s (s.note (.called i operation)) := fun j hj => {
  held := fun h => ⟨h, fun _ => rfl⟩
  past := by
    refine ⟨[.called i operation], rfl, fun operation' hmem => ?_, fun _ event hmem => ?_⟩
    · exact hj (Event.called.inj (List.mem_singleton.mp hmem)).1
    · exact ⟨i, operation, List.mem_singleton.mp hmem⟩
  published := Published.refl s }

/-! ## The calls -/

def Held (i : Identity) (s : Store) : Prop := s.outboxLock = some i

/-- The lock is the process's, and the record is as it last saw it. -/
def Holding (i : Identity) (record : AuditOutboxRecord) (s : Store) : Prop :=
  Held i s ∧ s.record? record.transaction = some record

/-- The lock is the process's, and the state is on the log since the record was last removed. -/
def OnLog (i : Identity) (transaction state : String) (s : Store) : Prop :=
  Held i s ∧ .appended transaction state true ∈ life transaction s.history

/-- Both what was asked and how it ended are on the log. -/
def Logged (i : Identity) (record : AuditOutboxRecord) (s : Store) : Prop :=
  ∃ state, record.phase.terminalState = some state ∧ OnLog i record.transaction "requested" s ∧
    OnLog i record.transaction state s

section Triples

variable {α : Type} {P : Store → Prop} {E : ErrorKind → Store → Prop}

theorem held_stable : Stable contract i (Held i) := fun _ _ h hrely _ => (hrely.held h).1

theorem holding_stable : Stable contract i (Holding i record) := fun _ _ h hrely _ =>
  ⟨(hrely.held h.1).1, ((hrely.held h.1).2 _).trans h.2⟩

/-- Under its lock a process sees of a life what others call, and no more. -/
theorem Rely.life (h : Rely i s s') (hheld : Held i s) (transaction : String) :
    ∃ new, life transaction s'.history = life transaction s.history ++ new ∧
      ∀ event ∈ new, ∃ j operation, event = .called j operation := by
  obtain ⟨new, hnew, _, honly⟩ := h.past
  exact ⟨new, by rw [hnew, life_calls (honly hheld)], honly hheld⟩

theorem onLog_stable {transaction state : String} :
    Stable contract i (OnLog i transaction state) := fun _ _ h hrely _ => by
  obtain ⟨new, hlife, _⟩ := hrely.life h.1 transaction
  exact ⟨(hrely.held h.1).1, hlife ▸ List.mem_append_left _ h.2⟩

theorem logged_stable : Stable contract i (Logged i record) := fun s s' h hrely hinv => by
  obtain ⟨state, hstate, hrequested, hended⟩ := h
  exact ⟨state, hstate, onLog_stable s s' hrequested hrely hinv,
    onLog_stable s s' hended hrely hinv⟩

theorem onLog_note {transaction state : String} :
    .appended transaction state true ∈
      life transaction (s.note (.appended transaction state true)).history := by
  have hlife : life transaction (s.note (.appended transaction state true)).history =
      life transaction s.history ++ [.appended transaction state true] := life_push rfl
  rw [hlife]
  exact List.mem_append_right _ (List.mem_singleton_self _)

/-- Another append leaves what is on the log there. -/
theorem OnLog.note {transaction state t st : String} {confirmed : Bool}
    (h : OnLog i transaction state s) :
    OnLog i transaction state (s.note (.appended t st confirmed)) := by
  have hlife : life transaction (s.note (.appended t st confirmed)).history =
      life transaction s.history ++ [.appended t st confirmed] := life_push rfl
  exact ⟨h.1, hlife ▸ List.mem_append_left _ h.2⟩

/-- What a call does is one event at most, and no call of an operation. -/
theorem act_history {c : Call} {reply : c.Reply} (h : act i c s reply s') :
    s'.history = s.history ∨ ∃ event, s'.history = s.history ++ [event] ∧
      ∀ j operation, event ≠ .called j operation := by
  have hnote {event : Event} (hevent : ∀ j operation, event ≠ .called j operation)
      (heq : s'.history = s.history ++ [event]) : s'.history = s.history ∨ ∃ event,
        s'.history = s.history ++ [event] ∧ ∀ j operation, event ≠ .called j operation :=
    .inr ⟨event, heq, hevent⟩
  cases c with
  | lockOutbox => rcases h with ⟨_, rfl⟩ | ⟨_, _, rfl⟩ <;> exact .inl rfl
  | unlockOutbox =>
    obtain rfl : s' = s.unlock i := h
    unfold Store.unlock
    split <;> exact .inl rfl
  | recoverAuditOutboxTemps => exact .inl (congrArg _ h)
  | recordExists => exact .inl (congrArg _ h.2)
  | readRecord => rcases h with ⟨_, rfl⟩ | ⟨_, _, _, rfl⟩ <;> exact .inl rfl
  | writeRecord =>
    rcases h with ⟨_, rfl⟩ | ⟨_, rfl⟩ | ⟨_, rfl⟩
    · exact .inl rfl
    · exact hnote (fun _ _ h => by cases h) rfl
    · exact hnote (fun _ _ h => by cases h) rfl
  | removeRecord =>
    rcases h with ⟨_, rfl⟩ | ⟨_, _, rfl⟩
    · exact .inl rfl
    · exact hnote (fun _ _ h => by cases h) rfl
  | append =>
    rcases h with ⟨_, rfl⟩ | ⟨_, rfl⟩ | ⟨_, rfl⟩
    · exact .inl rfl
    · exact hnote (fun _ _ h => by cases h) rfl
    · exact hnote (fun _ _ h => by cases h) rfl
  | parentIdentity => exact .inl (congrArg _ h)
  | listRecords | currentIdentity | identityIsLive | readJob | readResponse =>
    rcases h with ⟨_, rfl⟩ | ⟨_, rfl⟩ <;> exact .inl rfl
  | replaceResponse => rcases h with ⟨_, rfl⟩ | ⟨_, rfl⟩ <;> exact .inl rfl

/-- A process works at one operation until it ends. -/
theorem running_act {operation : Operation} (c : Call) (s : Store) (reply : c.Reply) (s' : Store)
    (h : act i c s reply s') (hrunning : Running i operation s.history) :
    Running i operation s'.history := by
  rcases act_history h with heq | ⟨event, heq, hevent⟩
  · rwa [heq]
  · exact heq ▸ running_push hrunning (hevent i)

theorem running_stable {operation : Operation} :
    Stable contract i fun s => Running i operation s.history := fun _ _ h hrely _ => by
  obtain ⟨new, hnew, hcalled, _⟩ := hrely.past
  exact hnew ▸ running_calls h hcalled

/-- While the process holds the lock nobody else takes the transaction up. -/
theorem ownClaims_stable {transaction : String} :
    Stable contract i fun s => Held i s ∧ OwnClaims i transaction s.history :=
  fun _ _ h hrely _ => by
    obtain ⟨new, hlife, honly⟩ := hrely.life h.1 transaction
    refine ⟨(hrely.held h.1).1, fun hmem => ?_⟩
    rw [hlife] at hmem
    rcases List.mem_append.mp hmem with hmem | hmem
    · exact h.2 hmem
    · obtain ⟨_, _, heq⟩ := honly _ hmem
      cases heq

theorem responseSays_stable {state : String} :
    Stable contract i (fun s => ResponseSays s record state) :=
  fun _ _ h hrely _ => h.later hrely.published

/-- A call that leaves the store as it is. -/
theorem triple_read {c : Call} {result : c.Reply → BridgeResult α}
    {Q : α → Store → Prop} (hP : Stable contract i P)
    (hact : ∀ s reply s', act i c s reply s' → s' = s)
    (h : ∀ s reply, Sound s → P s → act i c s reply s → post Q E (result reply) s)
    (hQ : ∀ a, Stable contract i (Q a)) (hE : ∀ e, Stable contract i (E e)) :
    Triple contract i P (.call (S := controlSignature) c fun reply => .done (result reply)) Q E := by
  refine triple_call (S := controlSignature) hP (fun s reply s' hinv hs hstep => ?_) hQ hE
  obtain rfl := hact s reply s' hstep
  exact ⟨⟨fun j _ => Rely.refl j _, hinv⟩, h _ reply hinv hs hstep⟩

theorem triple_same {c : Call} {result : c.Reply → BridgeResult α} (hP : Stable contract i P)
    (hact : ∀ s reply s', act i c s reply s' → s' = s) :
    Triple contract i P (.call (S := controlSignature) c fun reply => .done (result reply))
      (fun _ => P) (fun _ => P) := by
  refine triple_read hP hact (fun s reply _ hs _ => ?_) (fun _ => hP) fun _ => hP
  cases result reply <;> exact hs

theorem triple_keep {r : BridgeResult α} (hP : Stable contract i P) :
    Triple contract i P (lift r) (fun _ => P) (fun _ => P) :=
  triple_lift hP (fun _ _ _ _ hs => hs) fun _ _ _ _ hs => hs

theorem triple_guard {condition : Bool} {error : ErrorKind} (hP : Stable contract i P) :
    Triple contract i P (guardExec condition error) (fun _ s => P s ∧ condition = true)
      (fun _ => P) := by
  unfold guardExec guardThat
  cases condition with
  | true => exact triple_pure hP fun _ _ hs => ⟨hs, rfl⟩
  | false => exact triple_fail hP fun _ _ hs => hs

theorem triple_recover (hP : Stable contract i P) :
    Triple contract i P recoverAuditOutboxTemps (fun _ => P) (fun _ => P) :=
  triple_same hP fun _ _ _ h => h

/-- That a transaction has no record stays so while the lock is held. -/
theorem absent_stable {transaction : String} {present : Bool} : Stable contract i fun s =>
    Held i s ∧ (present = false → s.record? transaction = none) := fun _ _ h hrely _ =>
  ⟨(hrely.held h.1).1, fun habsent => ((hrely.held h.1).2 transaction).trans (h.2 habsent)⟩

theorem triple_recordExists {transaction : String} :
    Triple contract i (Held i) (recordExists transaction)
      (fun present s => Held i s ∧ (present = false → s.record? transaction = none))
      (fun _ => Held i) := by
  refine triple_read held_stable (fun _ _ _ h => h.2) (fun s reply _ hs hstep => ⟨hs, ?_⟩)
    (fun _ => absent_stable) fun _ => held_stable
  obtain ⟨rfl, _⟩ := hstep
  intro habsent
  cases hrecord : s.record? transaction with
  | none => rfl
  | some _ => simp [hrecord] at habsent

theorem triple_currentIdentity (hP : Stable contract i P) :
    Triple contract i P currentProcessIdentity (fun _ => P) (fun _ => P) :=
  triple_same hP fun _ _ _ h => h.elim (fun h => h.2) fun h => h.2

theorem triple_parentIdentity (hP : Stable contract i P) :
    Triple contract i P parentProcessIdentity (fun _ => P) (fun _ => P) :=
  triple_same hP fun _ _ _ h => h

theorem triple_identityIsLive {identity : Identity} (hP : Stable contract i P) :
    Triple contract i P (processIdentityIsLive identity) (fun _ => P) (fun _ => P) :=
  triple_same hP fun _ _ _ h => h.elim (fun h => h.2) fun h => h.2

theorem triple_listRecords (hP : Stable contract i P) :
    Triple contract i P listRecords (fun _ => P) (fun _ => P) :=
  triple_same hP fun _ _ _ h => h.elim (fun h => h.2) fun h => h.2

theorem triple_readJob {folder : Folder} {jobId : String} (hP : Stable contract i P) :
    Triple contract i P (readTransientJob folder jobId) (fun _ => P) (fun _ => P) :=
  triple_same hP fun _ _ _ h => h.elim (fun h => h.2) fun h => h.2

/-- A response that was read is there, with this verdict, from then on. -/
def Read (jobId : String) (response : Option QueuedResponse) (s : Store) : Prop :=
  ∀ r, response = some r → ∃ r', s.responses jobId = some r' ∧
    r'.auditTransaction = r.auditTransaction ∧ r'.auditTerminalState = r.auditTerminalState

theorem read_stable {jobId : String} {response : Option QueuedResponse} :
    Stable contract i (Read jobId response) := fun _ _ h hrely _ r hr => by
  obtain ⟨r', hr', htransaction, hstate⟩ := h r hr
  obtain ⟨r'', hr'', htransaction', hstate'⟩ := hrely.published jobId r' hr'
  exact ⟨r'', hr'', htransaction'.trans htransaction, hstate'.trans hstate⟩

theorem triple_readResponse {jobId : String} (hP : Stable contract i P) :
    Triple contract i P (readTransientResponse jobId)
      (fun response s => P s ∧ Read jobId response s) (fun _ => P) := by
  refine triple_read hP (fun _ _ _ h => h.elim (fun h => h.2) fun h => h.2)
    (fun s reply _ hs hstep => ?_) (fun _ => hP.and read_stable) fun _ => hP
  rcases hstep with ⟨⟨error, rfl⟩, _⟩ | ⟨rfl, _⟩
  · exact hs
  · exact ⟨hs, fun r hr => ⟨r, hr, rfl, rfl⟩⟩

/-- A record as it is read under the lock. -/
theorem triple_readRecord {transaction : String} (hP : Stable contract i P)
    (hheld : ∀ s, P s → Held i s) :
    Triple contract i P (readAuditOutboxRecord transaction)
      (fun record s => (P s ∧ Holding i record s) ∧ record.transaction = transaction)
      (fun _ => Held i) := by
  have hstable {record : AuditOutboxRecord} : Stable contract i fun s =>
      (P s ∧ Holding i record s) ∧ record.transaction = transaction :=
    (hP.and holding_stable).and .const
  refine ((triple_guard hP).weaken (fun _ _ h => h) (fun _ _ h => h.1)
    fun _ s h => hheld s h).bind fun _ => ?_
  have hread : Triple contract i P (.call (S := controlSignature) (.readRecord transaction) .done)
      (fun record s => (P s ∧ Holding i record s) ∧ record.transaction = transaction)
      (fun _ => Held i) := by
    refine triple_read hP (fun _ _ _ h => ?_) (fun s reply _ hs hstep => ?_)
      (fun _ => hstable) fun _ => held_stable
    · exact h.elim (fun h => h.2) fun ⟨_, _, _, h⟩ => h
    · rcases hstep with ⟨⟨error, rfl⟩, _⟩ | ⟨record, hrecord, rfl, _⟩
      · exact hheld s hs
      · have htransaction := Store.record?_transaction hrecord
        exact ⟨⟨hs, hheld s hs, htransaction ▸ hrecord⟩, htransaction⟩
  refine hread.bind fun record => ?_
  refine ((triple_keep hstable).weaken (fun _ _ h => h) (fun _ _ h => h)
    fun _ s h => hheld s h.1.1).bind fun _ => ?_
  refine (((triple_guard hstable).weaken (fun _ _ h => h) (fun _ _ h => h.1)
    fun _ s h => hheld s h.1.1).bind fun _ => ?_)
  exact triple_pure hstable fun _ _ hs => hs

/-- A record that may be written is written, or the process is told that it is not. -/
theorem triple_writeRecord {Q : Store → Prop} (hP : Stable contract i P) (hQ : Stable contract i Q)
    (hheld : ∀ s, P s → Held i s) (hadvances : ∀ s, Sound s → P s → Advances i s record)
    (hrefused : ∀ s, Sound s → P s → Q s)
    (hunconfirmed : ∀ s, Sound s → P s → Q (s.write i record false)) :
    Triple contract i P (writeAuditOutboxRecord record) (fun _ => Holding i record)
      (fun _ => Q) := by
  refine (triple_lift hP (fun _ _ _ _ hs => hs) fun _ _ s hinv hs => hrefused s hinv hs).bind
    fun _ => ?_
  refine triple_call (S := controlSignature) hP (fun s reply s' hinv hs hstep => ?_)
    (fun _ => holding_stable) fun _ => hQ
  have hkept (confirmed : Bool) : (∀ j, j ≠ i → Rely j s (s.write i record confirmed)) ∧
      Sound (s.write i record confirmed) :=
    ⟨rely_write (hheld s hs) confirmed, sound_write hinv (hadvances s hinv hs) confirmed⟩
  rcases hstep with ⟨⟨error, rfl⟩, rfl⟩ | ⟨⟨error, rfl⟩, rfl⟩ | ⟨rfl, rfl⟩
  · exact ⟨⟨fun j _ => Rely.refl j _, hinv⟩, hrefused _ hinv hs⟩
  · exact ⟨hkept false, hunconfirmed s hinv hs⟩
  · exact ⟨hkept true, hheld s hs, by rw [Store.record?_write, if_pos rfl]⟩

/-- An append of what the record says. -/
theorem triple_append {state : String}
    (hstate : ∀ phase : AuditOutboxPhase, phase.terminalState = some state → record.phase = phase)
    (hP : Stable contract i P) (hheld : ∀ s, P s → Holding i record s)
    (hnote : ∀ s confirmed, P s → P (s.note (.appended record.transaction state confirmed))) :
    Triple contract i P (append record state)
      (fun _ s => P s ∧ OnLog i record.transaction state s) (fun _ => P) := by
  refine triple_call (S := controlSignature) hP (fun s reply s' hinv hs hstep => ?_)
    (fun _ => hP.and onLog_stable) fun _ => hP
  have hkept (confirmed : Bool) :
      (∀ j, j ≠ i → Rely j s (s.note (.appended record.transaction state confirmed))) ∧
        Sound (s.note (.appended record.transaction state confirmed)) :=
    ⟨rely_append (hheld s hs).1 _ _ _, hinv.append (hheld s hs).2 hstate⟩
  rcases hstep with ⟨⟨error, rfl⟩, rfl⟩ | ⟨⟨error, rfl⟩, rfl⟩ | ⟨rfl, rfl⟩
  · exact ⟨⟨fun j _ => Rely.refl j _, hinv⟩, hs⟩
  · exact ⟨hkept false, hnote s false hs⟩
  · exact ⟨hkept true, hnote s true hs, (hheld s hs).1, onLog_note⟩

theorem triple_removeRecord (record : AuditOutboxRecord) :
    Triple contract i (fun s => Holding i record s ∧ Logged i record s)
      (removeAuditOutboxRecord record.transaction) (fun _ => Held i) (fun _ => Held i) := by
  refine ((triple_guard (holding_stable.and logged_stable)).weaken (fun _ _ h => h)
    (fun _ _ h => h.1) fun _ _ h => h.1.1).bind fun _ => ?_
  refine triple_call (S := controlSignature) (holding_stable.and logged_stable)
    (fun s reply s' hinv hs hstep => ?_) (fun _ => held_stable) fun _ => held_stable
  rcases hstep with ⟨⟨error, rfl⟩, rfl⟩ | ⟨record', hrecord, rfl⟩
  · exact ⟨⟨fun j _ => Rely.refl j _, hinv⟩, hs.1.1⟩
  · obtain rfl : record' = record := Option.some.inj (hrecord.symm.trans hs.1.2)
    obtain ⟨state, hstate, hrequested, hended⟩ := hs.2
    refine ⟨⟨rely_remove hs.1.1, sound_remove hinv hstate hrequested.2 hended.2⟩, ?_⟩
    rcases reply with error | ⟨⟩ <;> exact hs.1.1

/-! ## The operations -/

theorem triple_openLock (hP : Stable contract i P) :
    Triple contract i P openAuditOutboxLock (fun _ s => Held i s ∧ P s) (fun _ _ => True) := by
  refine triple_call (S := controlSignature) hP (fun s reply s' hinv hs hstep => ?_)
    (fun _ => held_stable.and hP) fun _ => .const
  rcases hstep with ⟨⟨error, rfl⟩, rfl⟩ | ⟨hfree, rfl, rfl⟩
  · exact ⟨⟨fun j _ => Rely.refl j _, hinv⟩, trivial⟩
  · have hquiet : Quiet s (s.lock i) := ⟨fun _ => rfl, rfl, Published.refl s⟩
    have hinv' : Sound (s.lock i) := hinv.quiet hquiet
    have hrely : Rely i s (s.lock i) :=
      ⟨fun h => by simp [hfree] at h, ⟨[], by simp [Store.lock], by simp, by simp⟩,
        Published.refl s⟩
    refine ⟨⟨rely_quiet hquiet fun j _ h => ?_, hinv'⟩, rfl, hP s _ hs hrely hinv'⟩
    rw [hfree] at h
    cases h

theorem triple_dropLock {Q : Store → Prop} :
    Triple contract i (fun _ => True) dropOutboxLock (fun _ _ => True) (fun _ => Q) := by
  intro s _ _ s' _ hinv' reply s'' hstep
  have hquiet : Quiet s' (s'.unlock i) := by
    unfold Store.unlock
    split <;> exact ⟨fun _ => rfl, rfl, Published.refl s'⟩
  obtain rfl : s'' = s'.unlock i := hstep
  refine ⟨⟨rely_quiet hquiet fun j hj h => ?_, hinv'.quiet hquiet⟩, fun _ _ _ => trivial⟩
  unfold Store.unlock
  rw [if_neg fun hi => hj (Option.some.inj (h.symm.trans hi))]
  exact h

theorem triple_locked {body : Exec α} (hP : Stable contract i P)
    (hbody : Triple contract i (fun s => Held i s ∧ P s) body (fun _ => Held i)
      (fun _ => Held i)) :
    Triple contract i P (locked body) (fun _ _ => True) (fun _ _ => True) := by
  refine (triple_openLock hP).bind fun _ => ?_
  refine (hbody.attempt (F := fun _ _ => True)).bind fun result => ?_
  refine (triple_dropLock.pre fun _ _ _ => trivial).bind fun _ => ?_
  exact triple_lift .const (fun _ _ _ _ _ => trivial) fun _ _ _ _ _ => trivial

theorem triple_activeIn {jobId : String} {folder : Folder} (hP : Stable contract i P) :
    Triple contract i P (activeIn record jobId folder) (fun _ => P) (fun _ => P) := by
  refine (triple_readJob hP).bind fun job => ?_
  cases job with
  | none => exact triple_pure hP fun _ _ hs => hs
  | some job =>
    refine ((triple_guard hP).result fun _ _ h => h.1).bind fun _ => ?_
    refine ((triple_guard hP).result fun _ _ h => h.1).bind fun _ => ?_
    exact triple_pure hP fun _ _ hs => hs

/-- What is concluded of a response was in the response. -/
theorem triple_bridgeJobState (hP : Stable contract i P) :
    Triple contract i P (bridgeJobState record)
      (fun state s => P s ∧ (state = .complete false → ResponseSays s record "failed"))
      (fun _ => P) := by
  have hsays (state : BridgeJobState) : Stable contract i fun s =>
      P s ∧ (state = .complete false → ResponseSays s record "failed") :=
    hP.and fun s s' h hrely hinv heq => responseSays_stable s s' (h heq) hrely hinv
  unfold bridgeJobState
  cases hjob : record.jobId with
  | none => exact triple_pure hP fun _ _ hs => ⟨hs, fun h => by cases h⟩
  | some jobId =>
    refine (triple_activeIn hP).bind fun queued => ?_
    split
    · exact triple_pure hP fun _ _ hs => ⟨hs, fun h => by cases h⟩
    refine (triple_activeIn hP).bind fun processing => ?_
    split
    · exact triple_pure hP fun _ _ hs => ⟨hs, fun h => by cases h⟩
    refine (triple_readResponse hP).bind fun response => ?_
    cases response with
    | none => exact triple_pure (hP.and read_stable) fun _ _ hs => ⟨hs.1, fun h => by cases h⟩
    | some response =>
      dsimp only
      cases hparse : parseQueuedResponse response jobId with
      | error e => exact triple_fail (hP.and read_stable) fun _ _ hs => hs.1
      | ok parsed =>
        obtain ⟨rfl, hstate⟩ := parseQueuedResponse_ok hparse
        show Triple contract i _ (guardExec _ _ >>= _) _ _
        refine ((triple_guard (hP.and read_stable)).weaken (fun _ _ h => h) (fun _ _ h => h)
          fun _ _ h => h.1).bind fun _ => ?_
        refine triple_pure ((hP.and read_stable).and .const) fun s _ hs => ⟨hs.1.1, fun heq => ?_⟩
        obtain ⟨r', hr', htransaction, hr'state⟩ := hs.1.2 _ rfl
        refine ⟨jobId, r', hjob, hr', htransaction.trans (beq_iff_eq.mp hs.2), hr'state.trans ?_⟩
        have hnot : ¬ parsed.auditTerminalState = "succeeded" := by simpa using heq
        exact hstate.resolve_left hnot

theorem quiet_setResponse {jobId : String} {old new : QueuedResponse}
    (hold : s.responses jobId = some old) (htransaction : new.auditTransaction = old.auditTransaction)
    (hstate : new.auditTerminalState = old.auditTerminalState) :
    Quiet s (s.setResponse jobId (some new)) := by
  refine ⟨fun _ => rfl, rfl, fun {j r} h => ?_⟩
  by_cases hj : j = jobId
  · subst hj
    obtain rfl := Option.some.inj (hold.symm.trans h)
    exact ⟨new, Function.update_self .., htransaction, hstate⟩
  · exact ⟨r, (Function.update_of_ne hj ..).trans h, rfl, rfl⟩

theorem triple_markReconciled (hP : Stable contract i P)
    (hquiet : ∀ s s', P s → Quiet s s' → s'.outboxLock = s.outboxLock → P s') :
    Triple contract i P (markResponseAuditReconciled record) (fun _ => P) (fun _ => P) := by
  unfold markResponseAuditReconciled
  split
  · exact triple_pure hP fun _ _ hs => hs
  rename_i jobId hjob
  refine ((triple_readResponse hP).result fun _ _ h => h.1).bind fun response => ?_
  cases response with
  | none => exact triple_pure hP fun _ _ hs => hs
  | some response =>
    refine (triple_keep hP).bind fun parsed => ?_
    refine ((triple_guard hP).result fun _ _ h => h.1).bind fun _ => ?_
    split
    · refine ((triple_guard hP).result fun _ _ h => h.1).bind fun _ => ?_
      refine triple_call (S := controlSignature) hP (fun s reply s' hinv hs hstep => ?_)
        (fun _ => hP) fun _ => hP
      rcases hstep with ⟨⟨error, rfl⟩, rfl⟩ | ⟨hold, rfl⟩
      · exact ⟨⟨fun j _ => Rely.refl j _, hinv⟩, hs⟩
      · have hq : Quiet s (s.setResponse jobId (some { response with auditPending := false })) :=
          quiet_setResponse hold rfl rfl
        refine ⟨⟨rely_quiet hq fun _ _ h => h, hinv.quiet hq⟩, ?_⟩
        have hs' := hquiet s _ hs hq rfl
        rcases reply with error | ⟨⟩ <;> exact hs'
    · exact triple_pure hP fun _ _ hs => hs

theorem terminalState_inj {p q : AuditOutboxPhase} {state : String}
    (hp : p.terminalState = some state) (hq : q.terminalState = some state) : p = q := by
  cases p <;> cases hp <;> cases q <;> simp [AuditOutboxPhase.terminalState] at hq ⊢

theorem terminalState_requested (phase : AuditOutboxPhase)
    (h : phase.terminalState = some "requested") : record.phase = phase := by
  cases phase <;> simp [AuditOutboxPhase.terminalState] at h

/-- Both appends went through, or the record is still as it was. -/
theorem triple_appendBoth {state : String} (hstate : record.phase.terminalState = some state) :
    Triple contract i (Holding i record) (appendBoth record state)
      (fun both s => Holding i record s ∧ (both = true → Logged i record s))
      (fun _ => Held i) := by
  unfold appendBoth
  refine ((triple_append terminalState_requested holding_stable (fun _ h => h)
    fun s confirmed h => h).attempt).bind fun first => ?_
  cases first with
  | error e => exact triple_pure holding_stable fun _ _ hs => ⟨hs, fun h => by cases h⟩
  | ok =>
    refine ((triple_append (fun _ h => terminalState_inj hstate h)
      (holding_stable.and onLog_stable) (fun _ h => h.1)
      fun s confirmed h => ⟨h.1, h.2.note⟩).attempt).bind fun second => ?_
    cases second with
    | error e =>
      exact triple_pure (holding_stable.and onLog_stable) fun _ _ hs => ⟨hs.1, fun h => by cases h⟩
    | ok =>
      exact triple_pure ((holding_stable.and onLog_stable).and onLog_stable) fun _ _ hs =>
        ⟨hs.1.1, fun _ => ⟨state, hstate, hs.1.2, hs.2⟩⟩

/-- A record in its terminal phase, as it stands. -/
def Concluded (i : Identity) (record : AuditOutboxRecord) (s : Store) : Prop :=
  Holding i record s ∧ record.phase.isTerminal = true

/-- The record goes on from the one that is held. -/
theorem triple_writePhase (phase : AuditOutboxPhase) {P : Store → Prop} (hP : Stable contract i P)
    (hheld : ∀ s, P s → Holding i record s)
    (hterminal : record.phase.isTerminal = true → phase = record.phase)
    (hunclaimed : phase.isUnclaimed = true → record.phase.isUnclaimed = true)
    (hexcused : ∀ s, Sound s → P s → phase = .failed → Excused s s.history i record) :
    Triple contract i P (writeAuditOutboxRecord (record.inPhase phase))
      (fun _ => Holding i (record.inPhase phase)) (fun _ => Held i) :=
  triple_writeRecord hP held_stable (fun s hs => (hheld s hs).1)
    (fun s hinv hs => .next record (hheld s hs).2 hterminal hunclaimed (hexcused s hinv hs))
    (fun s _ hs => (hheld s hs).1) fun s _ hs => (hheld s hs).1

/-- A transaction nobody has taken up may fail. -/
theorem Sound.excused_unclaimed (h : Sound s) (hrecord : s.record? record.transaction = some record)
    (hphase : record.phase.isUnclaimed = true) : Excused s s.history i record :=
  .inr (.inr (.inl ((h.stands _).unclaimed hrecord hphase)))

theorem triple_logged {P : Store → Prop} (hP : ∀ s, P s → Holding i record s ∧ Logged i record s) :
    Triple contract i P (markResponseAuditReconciled record)
      (fun _ s => Holding i record s ∧ Logged i record s) (fun _ => Held i) := by
  refine (triple_markReconciled (holding_stable.and logged_stable)
    fun s s' h hquiet hlock => ?_).weaken (fun s _ h => hP s h) (fun _ _ h => h)
      fun _ _ h => h.1.1
  obtain ⟨⟨hheld, hrecord⟩, state, hstate, hrequested, hended⟩ := h
  have hheld' : Held i s' := hlock.trans hheld
  exact ⟨⟨hheld', (hquiet.records _).trans hrecord⟩, state, hstate,
    ⟨hheld', hquiet.history ▸ hrequested.2⟩, hheld', hquiet.history ▸ hended.2⟩

theorem triple_appendTerminal : Triple contract i (Concluded i record) (appendTerminal record)
    (fun _ => Held i) (fun _ => Held i) := by
  intro s hinv hs
  revert s
  show Triple contract i _ _ _ _
  by_cases hphase : record.phase.isTerminal = true
  · obtain ⟨state, hstate⟩ := Option.isSome_iff_exists.mp hphase
    unfold appendTerminal
    rw [hstate]
    show Triple contract i _ (appendBoth record state >>= _) _ _
    refine ((triple_appendBoth hstate).pre fun _ _ h => h.1).bind fun both => ?_
    cases both with
    | false =>
      exact triple_pure (holding_stable.and logged_stable.imp) fun _ _ hs => hs.1.1
    | true =>
      refine (triple_logged fun s h => ⟨h.1, h.2 rfl⟩).bind fun _ => ?_
      refine (triple_removeRecord _).bind fun _ => ?_
      exact triple_pure held_stable fun _ _ hs => hs
  · intro s _ h
    exact absurd h.2 hphase

theorem triple_concludeRecord {terminal : AuditOutboxPhase}
    (hterminal : terminal.isTerminal = true) :
    Triple contract i (fun s => Holding i record s ∧
        Running i (.complete record.transaction terminal) s.history)
      (concludeRecord record terminal) (fun concluded s => Concluded i concluded s ∧
        concluded.transaction = record.transaction) (fun _ => Held i) := by
  have hstable : Stable contract i fun s => Holding i record s ∧
      Running i (.complete record.transaction terminal) s.history :=
    holding_stable.and running_stable
  have hwrite (hphase : record.phase.isTerminal = false) :
      Triple contract i (fun s => Holding i record s ∧
          Running i (.complete record.transaction terminal) s.history)
        (do writeAuditOutboxRecord (record.inPhase terminal); pure (record.inPhase terminal))
        (fun concluded s => Concluded i concluded s ∧ concluded.transaction = record.transaction)
        (fun _ => Held i) := by
    refine (triple_writePhase _ hstable (fun _ h => h.1) (fun h => ?_) (fun h => ?_)
      fun s _ h hfailed => .inr (.inl (hfailed ▸ h.2))).bind fun _ => ?_
    · rw [hphase] at h
      cases h
    · cases terminal <;> simp [AuditOutboxPhase.isUnclaimed, AuditOutboxPhase.isTerminal,
        AuditOutboxPhase.terminalState] at h hterminal
    · exact triple_pure holding_stable fun _ _ hs => ⟨⟨hs, hterminal⟩, rfl⟩
  unfold concludeRecord
  dsimp only
  split
  · rename_i hexecuting
    exact hwrite (by rw [hexecuting]; rfl)
  split
  · rename_i hprepared
    exact hwrite (by rw [hprepared.1]; rfl)
  split
  · rename_i hpublishing
    refine ((triple_currentIdentity hstable).weaken (fun _ _ h => h) (fun _ _ h => h)
      fun _ _ h => h.1.1).bind fun owner => ?_
    refine ((triple_guard hstable).weaken (fun _ _ h => h) (fun _ _ h => h.1)
      fun _ _ h => h.1.1).bind fun _ => ?_
    refine ((triple_bridgeJobState hstable).weaken (fun _ _ h => h) (fun _ _ h => h.1)
      fun _ _ h => h.1.1).bind fun state => ?_
    refine ((triple_guard hstable).weaken (fun _ _ h => h) (fun _ _ h => h.1)
      fun _ _ h => h.1.1).bind fun _ => ?_
    exact hwrite (by rw [hpublishing.1]; rfl)
  split
  · rename_i hsame
    exact triple_pure hstable fun _ _ hs => ⟨⟨hs.1, hsame ▸ hterminal⟩, rfl⟩
  · exact triple_fail hstable fun _ _ hs => hs.1.1

/-- What is made of a record: nothing, or its end, as it stands. -/
def Inferred (i : Identity) (record : AuditOutboxRecord) (inferred : Option AuditOutboxRecord)
    (s : Store) : Prop :=
  Held i s ∧ ∀ concluded, inferred = some concluded →
    Concluded i concluded s ∧ concluded.transaction = record.transaction

theorem triple_inferNone (hP : Stable contract i P) (hheld : ∀ s, P s → Held i s) :
    Triple contract i P (pure none : Exec (Option AuditOutboxRecord)) (Inferred i record)
      (fun _ => Held i) :=
  triple_pure hP fun _ _ hs => ⟨hheld _ hs, fun _ h => by cases h⟩

/-- A record that has not ended is given its end. -/
theorem triple_settle {phase : AuditOutboxPhase} (hP : Stable contract i P)
    (hheld : ∀ s, P s → Holding i record s) (hphase : record.phase.isTerminal = false)
    (hterminal : phase.isTerminal = true)
    (hexcused : ∀ s, Sound s → P s → phase = .failed → Excused s s.history i record) :
    Triple contract i P
      (do writeAuditOutboxRecord (record.inPhase phase); pure (some (record.inPhase phase)))
      (Inferred i record) (fun _ => Held i) := by
  refine (triple_writePhase _ hP hheld (fun h => ?_) (fun h => ?_) hexcused).bind fun _ => ?_
  · rw [hphase] at h
    cases h
  · cases phase <;> simp [AuditOutboxPhase.isUnclaimed, AuditOutboxPhase.isTerminal,
      AuditOutboxPhase.terminalState] at h hterminal
  · refine triple_pure holding_stable fun s _ hs => ⟨hs.1, fun concluded heq => ?_⟩
    obtain rfl := Option.some.inj heq
    exact ⟨⟨hs, hterminal⟩, rfl⟩

/-- The end of a job that published its response is what the response says. -/
theorem triple_settleVerdict (succeeded : Bool) (hphase : record.phase.isTerminal = false) :
    Triple contract i (fun s => Holding i record s ∧
        (BridgeJobState.complete succeeded = .complete false → ResponseSays s record "failed"))
      (do writeAuditOutboxRecord (record.inPhase (verdict succeeded))
          pure (some (record.inPhase (verdict succeeded))))
      (Inferred i record) (fun _ => Held i) := by
  refine triple_settle (holding_stable.and responseSays_stable.imp) (fun _ h => h.1) hphase
    (by cases succeeded <;> rfl) fun s _ h hfailed => .inl (h.2 ?_)
  cases succeeded with
  | false => rfl
  | true => cases hfailed

/-- What was never claimed has failed. -/
theorem triple_settleUnclaimed (hunclaimed : record.phase.isUnclaimed = true) :
    Triple contract i (Holding i record)
      (do writeAuditOutboxRecord (record.inPhase .failed); pure (some (record.inPhase .failed)))
      (Inferred i record) (fun _ => Held i) := by
  refine triple_settle holding_stable (fun _ h => h) ?_ rfl
    fun _ hinv h _ => hinv.excused_unclaimed h.2 hunclaimed
  cases hphase : record.phase <;> rw [hphase] at hunclaimed <;> first | rfl | cases hunclaimed

theorem triple_holdingState : Triple contract i (Holding i record) (bridgeJobState record)
    (fun state s => Holding i record s ∧
      (state = .complete false → ResponseSays s record "failed")) (fun _ => Held i) :=
  (triple_bridgeJobState holding_stable).weaken (fun _ _ h => h) (fun _ _ h => h) fun _ _ h => h.1

/-- Nothing is made of a record whose process lives. -/
theorem triple_unlessLive {program : Exec (Option AuditOutboxRecord)}
    (h : Triple contract i (Holding i record) program (Inferred i record) (fun _ => Held i)) :
    Triple contract i (Holding i record)
      (do if ← processIdentityIsLive record.owner then pure none else program)
      (Inferred i record) (fun _ => Held i) := by
  refine ((triple_identityIsLive holding_stable).weaken (fun _ _ h => h) (fun _ _ h => h)
    fun _ _ h => h.1).bind fun live => ?_
  split
  · exact triple_inferNone holding_stable fun _ h => h.1
  · exact h

theorem triple_inferRecord : Triple contract i (Holding i record) (inferRecord record)
    (Inferred i record) (fun _ => Held i) := by
  unfold inferRecord
  dsimp only
  split
  · rename_i hphase
    exact triple_unlessLive (triple_settleUnclaimed (by rw [hphase]; rfl))
  · rename_i hphase
    refine triple_holdingState.bind fun state => ?_
    cases state with
    | active =>
      refine ((triple_writePhase .queued holding_stable (fun _ h => h) (fun h => ?_)
        (fun _ => by rw [hphase]; rfl) fun _ _ _ h => by cases h).pre fun _ _ h => h.1).bind
          fun _ => ?_
      · rw [hphase] at h
        cases h
      · exact triple_inferNone holding_stable fun _ h => h.1
    | complete succeeded => exact triple_settleVerdict succeeded (by rw [hphase]; rfl)
    | missing =>
      exact (triple_unlessLive (triple_settleUnclaimed (by rw [hphase]; rfl))).pre fun _ _ h => h.1
  · rename_i hphase
    refine triple_holdingState.bind fun state => ?_
    cases state with
    | active => exact (triple_inferNone holding_stable fun _ h => h.1).pre fun _ _ h => h.1
    | complete succeeded => exact triple_settleVerdict succeeded (by rw [hphase]; rfl)
    | missing => exact (triple_settleUnclaimed (by rw [hphase]; rfl)).pre fun _ _ h => h.1
  · rename_i hphase
    refine triple_holdingState.bind fun state => ?_
    have hdead := triple_unlessLive (@triple_settle i record _ .outcomeUnknown
      holding_stable (fun _ h => h) (show record.phase.isTerminal = false by rw [hphase]; rfl) rfl
      fun _ _ _ h => by cases h)
    cases state with
    | active => exact hdead.pre fun _ _ h => h.1
    | complete succeeded => exact triple_settleVerdict succeeded (by rw [hphase]; rfl)
    | missing => exact hdead.pre fun _ _ h => h.1
  all_goals
    rename_i hphase
    refine triple_pure holding_stable fun s _ hs => ⟨hs.1, fun concluded heq => ?_⟩
    obtain rfl := Option.some.inj heq
    exact ⟨⟨hs, by rw [hphase]; rfl⟩, rfl⟩

theorem triple_reconcileRecord {transaction : String} :
    Triple contract i (Held i) (reconcileRecord transaction) (fun _ => Held i)
      (fun _ => Held i) := by
  refine (triple_readRecord held_stable fun _ h => h).bind fun record =>
    Triple.assuming fun htransaction => ?_
  refine (triple_inferRecord.pre fun _ _ h => h.2).bind fun inferred => ?_
  cases inferred with
  | none =>
    refine Triple.pre (P := Held i) ?_ fun _ _ h => h.1
    exact triple_pure held_stable fun _ _ hs => hs
  | some concluded =>
    have hconcluded : Triple contract i (Holding i concluded) (do
          let state ← lift (orElse concluded.phase.terminalState .unsafeRuntime)
          append concluded "requested"
          append concluded state
          markResponseAuditReconciled concluded
          removeAuditOutboxRecord concluded.transaction
          pure 1) (fun _ => Held i) (fun _ => Held i) := by
      cases hstate : concluded.phase.terminalState with
      | none => exact triple_fail holding_stable fun _ _ hs => hs.1
      | some state =>
        show Triple contract i _ (append concluded "requested" >>= _) _ _
        refine ((triple_append terminalState_requested holding_stable (fun _ h => h)
          fun _ _ h => h).weaken (fun _ _ h => h) (fun _ _ h => h) fun _ _ h => h.1).bind
            fun _ => ?_
        refine ((triple_append (fun _ h => terminalState_inj hstate h)
          (holding_stable.and onLog_stable) (fun _ h => h.1) fun _ _ h =>
            ⟨h.1, h.2.note⟩).weaken (fun _ _ h => h) (fun _ _ h => h)
              fun _ _ h => h.1.1).bind fun _ => ?_
        refine (triple_logged fun s h => ⟨h.1.1, state, hstate, h.1.2, h.2⟩).bind fun _ => ?_
        refine (triple_removeRecord _).bind fun _ => ?_
        exact triple_pure held_stable fun _ _ hs => hs
    refine Triple.pre (P := fun s => Holding i concluded s ∧
      concluded.transaction = record.transaction) (Triple.assuming fun hsame => ?_)
        fun s _ h => ⟨(h.2 concluded rfl).1.1, (h.2 concluded rfl).2⟩
    rw [hsame.trans htransaction] at hconcluded
    exact hconcluded

theorem triple_reconcile {P : Store → Prop} (hP : Stable contract i P) :
    Triple contract i P reconcileAuditTransactions (fun _ _ => True) (fun _ _ => True) := by
  refine triple_locked hP (Triple.pre ?_ fun _ _ h => h.1)
  refine (triple_recover held_stable).bind fun _ => ?_
  refine (triple_listRecords held_stable).bind fun names => ?_
  refine (triple_foldlM (J := fun _ => Held i) names (fun _ => held_stable) (fun _ _ _ => ?_) 0)
  refine triple_reconcileRecord.bind fun _ => ?_
  exact triple_pure held_stable fun _ _ hs => hs

theorem triple_complete {transaction : String} {terminal : AuditOutboxPhase} :
    Triple contract i (fun s => Running i (.complete transaction terminal) s.history)
      (auditTransactionComplete transaction terminal) (fun _ _ => True) (fun _ _ => True) := by
  have hrunning : Stable contract i fun s => Running i (.complete transaction terminal) s.history :=
    running_stable
  refine ((triple_guard hrunning).weaken (fun _ _ h => h) (fun _ _ h => h)
    fun _ _ _ => trivial).bind fun _ => Triple.assuming fun hguard => ?_
  have hterminal : terminal.isTerminal = true := (Bool.and_eq_true_iff.mp hguard).1
  refine triple_locked hrunning ?_
  refine ((triple_recover (held_stable.and hrunning)).weaken (fun _ _ h => h) (fun _ _ h => h)
    fun _ _ h => h.1).bind fun _ => ?_
  refine (triple_readRecord (held_stable.and hrunning) fun _ h => h.1).bind fun record =>
    Triple.assuming fun htransaction => ?_
  subst htransaction
  refine ((triple_concludeRecord hterminal).pre fun s _ h => ⟨h.2, h.1.2⟩).bind fun concluded => ?_
  exact triple_appendTerminal.pre fun _ _ h => h.1

theorem triple_markExecuting {transaction : String} {P : Store → Prop} (hP : Stable contract i P) :
    Triple contract i P (markAuditTransactionExecuting transaction) (fun _ _ => True)
      (fun _ _ => True) := by
  refine ((triple_guard hP).weaken (fun _ _ h => h) (fun _ _ h => h.1)
    fun _ _ _ => trivial).bind fun _ => triple_locked hP (Triple.pre ?_ fun _ _ h => h.1)
  refine (triple_recover held_stable).bind fun _ => ?_
  refine (triple_readRecord held_stable fun _ h => h).bind fun record =>
    Triple.pre ?_ fun _ _ h => h.1.2
  refine ((triple_parentIdentity holding_stable).weaken (fun _ _ h => h) (fun _ _ h => h)
    fun _ _ h => h.1).bind fun owner => ?_
  refine ((triple_guard holding_stable).weaken (fun _ _ h => h) (fun _ _ h => h)
    fun _ _ h => h.1).bind fun _ => Triple.assuming fun hguard => ?_
  simp only [Bool.and_eq_true, beq_iff_eq] at hguard
  refine (triple_writePhase _ holding_stable (fun _ h => h) (fun h => ?_) (fun h => by cases h)
    fun _ _ _ h => by cases h).result fun _ _ h => h.1
  rw [hguard.1.1] at h
  cases h

/-- A step on a queued record, once its job is known to be active. -/
theorem triple_advanceQueued {transaction expectedJobId : String}
    (guarded : AuditOutboxRecord → Bool) (write : AuditOutboxRecord → Exec Unit)
    {P : Store → Prop} (hP : Stable contract i P)
    (hwrite : ∀ record, guarded record = true →
      Triple contract i (Holding i record) (write record) (fun _ => Held i) (fun _ => Held i)) :
    Triple contract i P (locked do
        recoverAuditOutboxTemps
        let record ← readAuditOutboxRecord transaction
        guardExec (guarded record && record.jobId == some expectedJobId) .unsafeRuntime
        let state ← bridgeJobState record
        guardExec (state == .active) .unsafeRuntime
        write record) (fun _ _ => True) (fun _ _ => True) := by
  refine triple_locked hP (Triple.pre ?_ fun _ _ h => h.1)
  refine (triple_recover held_stable).bind fun _ => ?_
  refine (triple_readRecord held_stable fun _ h => h).bind fun record =>
    Triple.pre ?_ fun _ _ h => h.1.2
  refine ((triple_guard holding_stable).weaken (fun _ _ h => h) (fun _ _ h => h)
    fun _ _ h => h.1).bind fun _ => Triple.assuming fun hguard => ?_
  refine ((triple_bridgeJobState holding_stable).weaken (fun _ _ h => h) (fun _ _ h => h.1)
    fun _ _ h => h.1).bind fun state => ?_
  refine ((triple_guard holding_stable).weaken (fun _ _ h => h) (fun _ _ h => h.1)
    fun _ _ h => h.1).bind fun _ => ?_
  exact hwrite record (Bool.and_eq_true_iff.mp hguard).1

theorem triple_markQueued {transaction expectedJobId : String} {P : Store → Prop}
    (hP : Stable contract i P) :
    Triple contract i P (markAuditTransactionQueued transaction expectedJobId) (fun _ _ => True)
      (fun _ _ => True) := by
  refine triple_advanceQueued (fun record => record.phase == .publishing)
    (fun record => writeAuditOutboxRecord (record.inPhase .queued)) hP
      fun record hguard => ?_
  refine (triple_writePhase _ holding_stable (fun _ h => h) (fun h => ?_) (fun _ => ?_)
    fun _ _ _ h => by cases h).result fun _ _ h => h.1
  · rw [beq_iff_eq.mp hguard] at h
    cases h
  · rw [beq_iff_eq.mp hguard]
    rfl

theorem triple_claimQueued {transaction expectedJobId : String} {P : Store → Prop}
    (hP : Stable contract i P) :
    Triple contract i P (claimQueuedAuditTransaction transaction expectedJobId) (fun _ _ => True)
      (fun _ _ => True) := by
  refine ((triple_guard hP).weaken (fun _ _ h => h) (fun _ _ h => h.1)
    fun _ _ _ => trivial).bind fun _ => ?_
  refine triple_advanceQueued
    (fun record => record.phase == .publishing || record.phase == .queued)
    (fun record => do
      let owner ← currentProcessIdentity
      writeAuditOutboxRecord { record with owner := owner, phase := .executing }) hP
        fun record hguard => ?_
  refine ((triple_currentIdentity holding_stable).weaken (fun _ _ h => h) (fun _ _ h => h)
    fun _ _ h => h.1).bind fun owner => ?_
  refine (triple_writeRecord holding_stable held_stable (fun _ h => h.1) (fun s _ hs => ?_)
    (fun _ _ h => h.1) fun _ _ h => h.1).result fun _ _ h => h.1
  refine .next record hs.2 (fun h => ?_) (fun h => by cases h) fun h => by cases h
  rcases Bool.or_eq_true_iff.mp hguard with hphase | hphase <;>
  · rw [beq_iff_eq.mp hphase] at h
    cases h

/-- The request was not appended, or what followed was not written: the transaction has failed. -/
theorem triple_beginFailed {error : ErrorKind} :
    Triple contract i (Holding i (record.inPhase .failed)) (do
        if ← appendBoth (record.inPhase .failed) "failed" then
          removeAuditOutboxRecord record.transaction
        fail error : Exec Unit) (fun _ => Held i) (fun _ => Held i) := by
  refine (triple_appendBoth rfl).bind fun both => ?_
  cases both with
  | false =>
    exact triple_fail (holding_stable.and logged_stable.imp) fun _ _ hs => hs.1.1
  | true =>
    refine ((triple_removeRecord (record.inPhase .failed)).pre
      fun _ _ h => ⟨h.1, h.2 rfl⟩).bind fun _ => ?_
    exact triple_fail held_stable fun _ _ hs => hs

/-- A record that is on its way, and of which the process knows who took it up. -/
def Unclaimed (i : Identity) (record : AuditOutboxRecord) (s : Store) : Prop :=
  record.phase.isTerminal = false ∧ Holding i record s ∧
    (Held i s ∧ OwnClaims i record.transaction s.history)

theorem unclaimed_stable : Stable contract i (Unclaimed i record) :=
  Stable.const.and (holding_stable.and ownClaims_stable)

/-- What a process has begun it may give up on. -/
theorem triple_giveUp {begun : AuditOutboxRecord} {readyPhase : AuditOutboxPhase}
    (hbegun : begun.transaction = record.transaction) :
    Triple contract i
      (fun s => Unclaimed i record s ∧ Running i (.begin begun readyPhase) s.history)
      (writeAuditOutboxRecord (record.inPhase .failed))
      (fun _ => Holding i (record.inPhase .failed)) (fun _ => Held i) := by
  intro s hinv hs
  have hphase : ¬ record.phase.isTerminal = true := by simp [hs.1.1]
  refine triple_writePhase _ (unclaimed_stable.and running_stable) (fun _ h => h.1.2.1)
    (fun h => absurd h hphase) (fun h => by cases h) (fun s _ h _ => ?_) s hinv hs
  exact .inr (.inr (.inr ⟨begun, readyPhase, h.2, hbegun, h.1.2.2.2⟩))

/-- The phase the record was to be in next: it is in it, or in the one before, as the process was
told that the write failed. -/
theorem triple_readyPhase {readyPhase : AuditOutboxPhase} (hphase : record.phase = .prepared)
    (hready : readyPhase.isTerminal = false) :
    Triple contract i (Holding i record) (writeAuditOutboxRecord (record.inPhase readyPhase))
      (fun _ => Holding i (record.inPhase readyPhase))
      (fun _ s => ∃ phase, Unclaimed i (record.inPhase phase) s) := by
  have hnotTerminal : ¬ record.phase.isTerminal = true := by rw [hphase]; decide
  have hunclaimed : record.phase.isUnclaimed = true := by rw [hphase]; rfl
  have hnobody {s : Store} (hinv : Sound s) (hs : Holding i record s) :
      ¬ PhaseWritten record.transaction .executing (life record.transaction s.history) :=
    (hinv.stands _).unclaimed hs.2 hunclaimed
  refine triple_writeRecord holding_stable (fun s s' ⟨phase, h⟩ hrely hinv =>
    ⟨phase, unclaimed_stable s s' h hrely hinv⟩) (fun _ h => h.1) (fun s hinv hs => ?_)
    (fun s hinv hs => ⟨record.phase, by rw [hphase]; rfl, hs, hs.1, fun {j r c} hmem ht hr => ?_⟩)
    fun s hinv hs => ⟨readyPhase, hready, ⟨hs.1, ?_⟩, hs.1, fun {j r c} hmem ht hr => ?_⟩
  · refine .next record hs.2 (fun h => absurd h hnotTerminal) (fun _ => hunclaimed) fun h => ?_
    rw [show readyPhase = .failed from h] at hready
    cases hready
  · exact absurd ⟨j, r, c, hmem, ht, hr⟩ (hnobody hinv hs)
  · rw [Store.record?_write, if_pos rfl]
  · have hlife : life record.transaction (s.write i (record.inPhase readyPhase) false).history =
        life record.transaction s.history ++ [.wrote i (record.inPhase readyPhase) false] :=
      life_push rfl
    rw [show (record.inPhase readyPhase).transaction = record.transaction from rfl, hlife] at hmem
    rcases List.mem_append.mp hmem with hmem | hmem
    · exact absurd ⟨j, r, c, hmem, ht, hr⟩ (hnobody hinv hs)
    · obtain ⟨rfl, _, rfl⟩ := Event.wrote.inj (List.mem_singleton.mp hmem)
      exact ⟨rfl, rfl⟩

theorem triple_begin {readyPhase : AuditOutboxPhase} :
    Triple contract i (fun s => Running i (.begin record readyPhase) s.history)
      (auditTransactionBegin record readyPhase) (fun _ _ => True) (fun _ _ => True) := by
  have hrunning : Stable contract i fun s => Running i (.begin record readyPhase) s.history :=
    running_stable
  refine ((triple_keep hrunning).weaken (fun _ _ h => h) (fun _ _ h => h)
    fun _ _ _ => trivial).bind fun _ => ?_
  refine ((triple_guard hrunning).weaken (fun _ _ h => h) (fun _ _ h => h)
    fun _ _ _ => trivial).bind fun _ => Triple.assuming fun hguard => ?_
  simp only [Bool.and_eq_true, Bool.or_eq_true, beq_iff_eq] at hguard
  have hprepared : record.phase = .prepared := hguard.1.1
  have hready : readyPhase.isTerminal = false := by
    rcases hguard.1.2 with (h | h) | h <;> rw [h] <;> rfl
  have hunclaimed : record.phase.isUnclaimed = true := by rw [hprepared]; rfl
  refine triple_locked hrunning ?_
  refine ((triple_recover held_stable).frame running_stable running_act).weaken
    (fun _ _ h => h) (fun _ _ h => h) (fun _ _ h => h.1) |>.bind fun _ => ?_
  refine (triple_recordExists.frame running_stable running_act).weaken
    (fun _ _ h => h) (fun _ _ h => h) (fun _ _ h => h.1) |>.bind fun present => ?_
  have hpresent : Stable contract i fun s =>
      Held i s ∧ (present = false → s.record? record.transaction = none) := absent_stable
  cases present with
  | true => exact triple_fail (hpresent.and running_stable) fun _ _ hs => hs.1.1
  | false =>
    have hfirst : Triple contract i
        (fun s => Held i s ∧ (false = false → s.record? record.transaction = none))
        (writeAuditOutboxRecord record) (fun _ => Holding i record) (fun _ => Held i) :=
      triple_writeRecord hpresent held_stable (fun _ h => h.1)
        (fun _ _ h => .first (h.2 rfl) hprepared) (fun _ _ h => h.1) fun _ _ h => h.1
    refine (hfirst.frame running_stable running_act).weaken
      (fun _ _ h => h) (fun _ _ h => h) (fun _ _ h => h.1) |>.bind fun _ => ?_
    refine ((triple_append terminalState_requested holding_stable (fun _ h => h)
      fun _ _ h => h).frame running_stable running_act).attempt.bind fun requested => ?_
    cases requested with
    | error error =>
      have hfailed : Triple contract i (Holding i record)
          (writeAuditOutboxRecord (record.inPhase .failed))
          (fun _ => Holding i (record.inPhase .failed)) (fun _ => Held i) :=
        triple_writePhase _ holding_stable (fun _ h => h)
          (fun h => by rw [hprepared] at h; cases h) (fun h => by cases h)
          fun _ hinv h _ => hinv.excused_unclaimed h.2 hunclaimed
      refine (hfailed.pre fun _ _ h => h.1).bind fun _ => ?_
      exact triple_beginFailed
    | ok =>
      refine (((triple_readyPhase hprepared hready).frame running_stable running_act).pre
        fun _ _ h => ⟨h.1.1, h.2⟩).attempt.bind fun written => ?_
      cases written with
      | ok => exact triple_pure (holding_stable.and running_stable) fun _ _ hs => hs.1.1
      | error error =>
        have hgiveUp : Triple contract i (fun s => ∃ phase, Unclaimed i (record.inPhase phase) s ∧
            Running i (.begin record readyPhase) s.history)
            (writeAuditOutboxRecord (record.inPhase .failed))
            (fun _ => Holding i (record.inPhase .failed)) (fun _ => Held i) :=
          Triple.exists fun phase => @triple_giveUp i (record.inPhase phase) record readyPhase rfl
        refine (hgiveUp.attempt (F := fun _ => Held i)).pre (fun s _ h => ?_) |>.bind
          fun failed => ?_
        · obtain ⟨⟨phase, hphase⟩, hs⟩ := h
          exact ⟨phase, hphase, hs⟩
        cases failed with
        | error _ => exact triple_fail held_stable fun _ _ hs => hs
        | ok =>
          refine (triple_appendBoth rfl).bind fun both => ?_
          cases both with
          | false =>
            exact triple_fail (holding_stable.and logged_stable.imp) fun _ _ hs => hs.1.1
          | true =>
            refine (((triple_removeRecord (record.inPhase .failed)).pre
              fun _ _ h => ⟨h.1, h.2 rfl⟩).attempt (F := fun _ => Held i)).bind fun removed => ?_
            cases removed <;> exact triple_fail held_stable fun _ _ hs => hs

end Triples

/-! ## Runs -/

/-- A job appears in the requests, is taken up, answered, and put away; a process comes and goes. -/
inductive JobMove (s : Store) : Store → Prop where
  | queue (jobId : String) (job : ParsedJob) (hrequests : s.requests jobId = none)
    (hprocessing : s.processing jobId = none) (hresponses : s.responses jobId = none) :
    JobMove s { s with requests := Function.update s.requests jobId (some job) }
  | claim (jobId : String) (job : ParsedJob) (hrequests : s.requests jobId = some job) :
    JobMove s { s with
      requests := Function.update s.requests jobId none
      processing := Function.update s.processing jobId (some job) }
  | respond (jobId : String) (response : QueuedResponse) (hprocessing : s.processing jobId ≠ none)
    (hresponses : s.responses jobId = none) : JobMove s (s.setResponse jobId (some response))
  | retire (jobId : String) (hresponses : s.responses jobId ≠ none) :
    JobMove s { s with processing := Function.update s.processing jobId none }
  | live (alive : Identity → Bool) : JobMove s { s with alive := alive }

/-- Any process calls any operation, and may end at any time. -/
def outboxSurroundings : Surroundings controlSignature ErrorKind Unit Store Identity where
  starts i p s s' := ∃ operation : Operation, p = operation.program ∧
    s' = s.note (.called i operation)
  ends i s s' := s' = s.unlock i
  others := JobMove

theorem JobMove.quiet (h : JobMove s s') : Quiet s s' := by
  cases h with
  | respond jobId response _ hresponses =>
    refine ⟨fun _ => rfl, rfl, fun {j r} hr => ⟨r, ?_, rfl, rfl⟩⟩
    by_cases hj : j = jobId
    · subst hj
      rw [hresponses] at hr
      cases hr
    · exact (Function.update_of_ne hj ..).trans hr
  | _ => exact ⟨fun _ => rfl, rfl, Published.refl s⟩

theorem JobMove.lock (h : JobMove s s') : s'.outboxLock = s.outboxLock := by
  cases h <;> rfl

theorem quiet_unlock : Quiet s (s.unlock i) := by
  unfold Store.unlock
  split <;> exact ⟨fun _ => rfl, rfl, Published.refl s⟩

theorem unlock_lock {j : Identity} (hj : j ≠ i) (h : s.outboxLock = some j) :
    (s.unlock i).outboxLock = some j := by
  unfold Store.unlock
  rw [if_neg fun hi => hj (Option.some.inj (h.symm.trans hi))]
  exact h

theorem program_keeps {operation : Operation} (hsound : Sound s)
    (hrunning : Running i operation s.history) :
    Keeps contract i (fun _ _ => True) operation.program s := by
  have hdone {p : Exec Unit} {P : Store → Prop}
      (h : Triple contract i P p (fun _ _ => True) fun _ _ => True) (hs : P s) :
      Keeps contract i (fun _ _ => True) p s := (h s hsound hs).mono fun _ _ _ => trivial
  have htrue : Stable contract i fun _ => True := .const
  cases operation with
  | begin record readyPhase => exact hdone triple_begin hrunning
  | complete transaction terminal =>
    refine hdone (triple_complete.bind fun _ => ?_) hrunning
    exact triple_pure .const fun _ _ _ => trivial
  | markExecuting transaction => exact hdone (triple_markExecuting htrue) trivial
  | claimQueued transaction jobId => exact hdone (triple_claimQueued htrue) trivial
  | markQueued transaction jobId => exact hdone (triple_markQueued htrue) trivial
  | reconcile =>
    refine hdone ((triple_reconcile htrue).bind fun _ => ?_) trivial
    exact triple_pure .const fun _ _ _ => trivial

theorem contract_admits :
    contract.Admits outboxSurroundings fun _ (_ : Except ErrorKind Unit) _ => True where
  starts {i p s s'} h hsound := by
    obtain ⟨operation, rfl, rfl⟩ := h
    exact ⟨⟨rely_called operation, hsound.called operation⟩,
      program_keeps (hsound.called operation) running_called⟩
  ends {i s s'} h hsound := by
    obtain rfl : s' = s.unlock i := h
    exact ⟨rely_quiet quiet_unlock fun j hj h => unlock_lock hj h, hsound.quiet quiet_unlock⟩
  others {s s'} h hsound := by
    have hrely (j : Identity) : Rely j s s' :=
      ⟨fun hheld => ⟨h.lock.trans hheld, h.quiet.records⟩,
        ⟨[], by rw [h.quiet.history, List.append_nil], by simp, by simp⟩, h.quiet.published⟩
    exact ⟨hrely, hsound.quiet h.quiet⟩

/-- Nothing was done yet. -/
structure Store.Fresh (s : Store) : Prop where
  outbox : s.outbox = []
  history : s.history = []

theorem Store.Fresh.sound (h : s.Fresh) : Sound s where
  rightly := by
    unfold OneEnd
    rw [h.history]
    exact eachAfter_nil
  stands t := by
    rw [h.history, Store.record?, h.outbox]
    exact stands_removed

/-- Whatever the operations, their order, the failures of writes and appends and the ends of
processes, every transaction gets one end, as often as it is begun. -/
theorem run_oneEnd {sys sys' : System controlSignature ErrorKind Unit Store Identity}
    (hfresh : sys.store.Fresh) (hidle : ∀ i, sys.procs i = none)
    (hrun : System.Reaches act outboxSurroundings sys sys') : OneEnd sys'.store :=
  (System.Reaches.kept (K := contract) contract_admits hrun
    ⟨hfresh.sound, fun {i} _ h => by rw [hidle i] at h; cases h⟩).inv.rightly


/-! ## Two lives, and a begin given up -/

/-- What a process finds of a store it has to itself, when nothing fails but the sync after some of
its writes. -/
def answered (slips : AuditOutboxRecord → Bool) (i : Identity) :
    (c : Call) → Store → c.Reply × Store
  | .lockOutbox, s =>
    match s.outboxLock with
    | none => (.ok (), s.lock i)
    | some _ => (.error .unavailable, s)
  | .unlockOutbox, s => ((), s.unlock i)
  | .recoverAuditOutboxTemps, s => (.ok (), s)
  | .recordExists transaction, s => ((s.record? transaction).isSome, s)
  | .readRecord transaction, s => (orElse (s.record? transaction) .unavailable, s)
  | .writeRecord record, s =>
    if slips record then (.error .unavailable, s.write i record false)
    else (.ok (), s.write i record true)
  | .removeRecord transaction, s =>
    match s.record? transaction with
    | some record => (.ok (), s.remove record)
    | none => (.error .unavailable, s)
  | .listRecords, s => (.ok s.transactions, s)
  | .append record state, s => (.ok (), s.note (.appended record.transaction state true))
  | .currentIdentity, s => (.ok i, s)
  | .parentIdentity, s => (.ok i, s)
  | .identityIsLive identity, s => (.ok (s.alive identity), s)
  | .readJob folder jobId, s => (.ok (s.folder folder jobId), s)
  | .readResponse jobId, s => (.ok (s.responses jobId), s)
  | .replaceResponse _ _ _, s => (.error .unavailable, s)

theorem act_answered {slips : AuditOutboxRecord → Bool} (c : Call) (s : Store) :
    act i c s (answered slips i c s).1 (answered slips i c s).2 := by
  cases c with
  | lockOutbox =>
    unfold act answered
    cases h : s.outboxLock with
    | none => exact .inr ⟨h, by simp only [h]; rfl, by simp only [h]⟩
    | some _ => exact .inl ⟨⟨_, by simp only [h]; rfl⟩, by simp only [h]⟩
  | readRecord transaction =>
    unfold act answered
    cases h : s.record? transaction with
    | none => exact .inl ⟨⟨_, by simp only [h]; rfl⟩, rfl⟩
    | some record => exact .inr ⟨record, h, by simp only [h]; rfl, rfl⟩
  | removeRecord transaction =>
    unfold act answered
    cases h : s.record? transaction with
    | none => exact .inl ⟨⟨_, by simp only [h]; rfl⟩, by simp only [h]⟩
    | some record => exact .inr ⟨record, h, by simp only [h]⟩
  | replaceResponse jobId old new => exact .inl ⟨⟨_, rfl⟩, rfl⟩
  | append record state => exact .inr (.inr ⟨rfl, rfl⟩)
  | unlockOutbox => rfl
  | recoverAuditOutboxTemps => rfl
  | recordExists transaction => exact ⟨rfl, rfl⟩
  | parentIdentity => rfl
  | writeRecord record =>
    unfold act answered
    cases h : slips record with
    | true => exact .inr (.inl ⟨⟨_, by simp only [h]; rfl⟩, by simp only [h]; rfl⟩)
    | false => exact .inr (.inr ⟨by simp only [h]; rfl, by simp only [h]; rfl⟩)
  | listRecords => exact .inr ⟨rfl, rfl⟩
  | currentIdentity => exact .inr ⟨rfl, rfl⟩
  | identityIsLive identity => exact .inr ⟨rfl, rfl⟩
  | readJob folder jobId => exact .inr ⟨rfl, rfl⟩
  | readResponse jobId => exact .inr ⟨rfl, rfl⟩

def cliProcess : Identity := ⟨2, 1, "00000000-0000-0000-0000-000000000000"⟩

def cliRecord : AuditOutboxRecord :=
  { schema := "sdsync.dsm-audit-outbox.v1"
    transaction := "tx"
    operation := "run"
    profile := "all"
    actor := "root"
    actorUid := 1
    origin := "cli"
    clientRequestId := none
    jobId := none
    owner := cliProcess
    phase := .prepared }

def emptyOutbox : Store := ⟨none, [], fun _ => none, fun _ => none, fun _ => none, fun _ => true, []⟩

/-- One operation of a process on its own. -/
def afterCall (slips : AuditOutboxRecord → Bool) (s : Store) (operation : Operation) : Store :=
  (operation.program.runWith (answered slips cliProcess) 40
    (s.note (.called cliProcess operation))).2.unlock cliProcess

theorem reaches_afterCall (slips : AuditOutboxRecord → Bool)
    {sys : System controlSignature ErrorKind Unit Store Identity} (operation : Operation)
    (hidle : sys.procs cliProcess = none) :
    System.Reaches act outboxSurroundings sys
      ⟨afterCall slips sys.store operation, sys.procs⟩ := by
  have hidle' (p q : Exec Unit) : Function.update (Function.update (Function.update sys.procs
      cliProcess (some p)) cliProcess (some q)) cliProcess none = sys.procs := by
    rw [Function.update_idem, Function.update_idem, ← hidle, Function.update_eq_self]
  let started : System controlSignature ErrorKind Unit Store Identity :=
    ⟨sys.store.note (.called cliProcess operation),
      Function.update sys.procs cliProcess (some operation.program)⟩
  have hstart : System.Step act outboxSurroundings sys started :=
    .start cliProcess _ _ hidle ⟨operation, rfl, rfl⟩
  have hrun : System.Reaches act outboxSurroundings started _ :=
    .runWith _ (@act_answered cliProcess slips) 40 (Function.update_self ..)
  have hstop (p : Exec Unit) (s : Store) : System.Step act outboxSurroundings
      ⟨s, Function.update started.procs cliProcess (some p)⟩ ⟨s.unlock cliProcess, sys.procs⟩ := by
    have hself : Function.update started.procs cliProcess (some p) cliProcess = some p := by
      rw [Function.update_self]
    have h : System.Step act outboxSurroundings
        ⟨s, Function.update started.procs cliProcess (some p)⟩ ⟨s.unlock cliProcess, _⟩ :=
      .stop cliProcess p _ hself rfl
    rwa [hidle'] at h
  exact .head hstart (.tail hrun (hstop _ _))

/-- The operations of a process on its own, one after another, from an empty outbox. -/
def afterCalls (slips : AuditOutboxRecord → Bool) (operations : List Operation) : Store :=
  operations.foldl (afterCall slips) emptyOutbox

theorem reaches_afterCalls (slips : AuditOutboxRecord → Bool) (operations : List Operation) :
    System.Reaches act outboxSurroundings ⟨emptyOutbox, fun _ => none⟩
      ⟨afterCalls slips operations, fun _ => none⟩ := by
  unfold afterCalls
  induction operations using List.reverseRecOn with
  | nil => exact .refl
  | append_singleton operations operation ih =>
    rw [List.foldl_append]
    exact ih.trans (reaches_afterCall slips operation rfl)

/-- A transaction begun, taken up and completed, and begun again and completed as failed. -/
def twoLives : List Operation :=
  [.begin cliRecord .prepared, .markExecuting "tx", .complete "tx" .succeeded,
    .begin cliRecord .prepared, .complete "tx" .failed]

theorem run_oneEnd_twoLives : OneEnd (afterCalls (fun _ => false) twoLives) :=
  @run_oneEnd ⟨emptyOutbox, fun _ => none⟩ _ ⟨rfl, rfl⟩ (fun _ => rfl)
    (reaches_afterCalls (fun _ => false) twoLives)

/-- No two terminal states of one transaction, ever. -/
def OneEndEver (s : Store) : Prop :=
  ∀ (transaction : String) (phase phase' : AuditOutboxPhase) (state state' : String)
    (confirmed confirmed' : Bool), phase.terminalState = some state →
    phase'.terminalState = some state' → .appended transaction state confirmed ∈ s.history →
    .appended transaction state' confirmed' ∈ s.history → state = state'

/-- No transaction fails once its record was written as taken up, unless its job's response or its
caller says so. -/
def FailsUnclaimed (s : Store) : Prop :=
  ∀ transaction confirmed, .appended transaction "failed" confirmed ∈ s.history →
    ∃ i record c, .wrote i record c ∈ s.history ∧ record.transaction = transaction ∧
      (ResponseSays s record "failed" ∨
        (∃ j, .called j (.complete transaction .failed) ∈ s.history) ∨
          ¬ PhaseWritten transaction .executing s.history)

/-- A transaction that was begun again has two ends, and one that was given up on while it was begun
had been written as taken up, by a write its process was told had failed. -/
theorem not_oneEndEver :
    (∃ sys', System.Reaches act outboxSurroundings ⟨emptyOutbox, fun _ => none⟩ sys' ∧
      ¬ OneEndEver sys'.store) ∧
    ∃ sys', System.Reaches act outboxSurroundings ⟨emptyOutbox, fun _ => none⟩ sys' ∧
      ¬ FailsUnclaimed sys'.store := by
  refine ⟨⟨_, reaches_afterCalls (fun _ => false) twoLives, fun h => ?_⟩,
    ⟨_, reaches_afterCalls (fun record => record.phase == .executing)
      [.begin cliRecord .executing], fun h => ?_⟩⟩
  · have hends : "succeeded" = "failed" :=
      h "tx" .succeeded .failed _ _ true true rfl rfl (by decide +kernel) (by decide +kernel)
    exact absurd hends (by decide)
  · have hhistory : (afterCalls (fun record => record.phase == .executing)
        [.begin cliRecord .executing]).history =
        [.called cliProcess (.begin cliRecord .executing), .wrote cliProcess cliRecord true,
          .appended "tx" "requested" true, .wrote cliProcess (cliRecord.inPhase .executing) false,
          .wrote cliProcess (cliRecord.inPhase .failed) true, .appended "tx" "requested" true,
          .appended "tx" "failed" true, .removed (cliRecord.inPhase .failed)] := by decide +kernel
    obtain ⟨i, record, c, _, _, hexcuse⟩ := h "tx" true (by rw [hhistory]; decide +kernel)
    rcases hexcuse with ⟨jobId, response, _, hresponse, _⟩ | ⟨j, hcalled⟩ | hnever
    · cases hresponse
    · rw [hhistory] at hcalled
      simp at hcalled
    · rw [hhistory] at hnever
      exact hnever ⟨cliProcess, cliRecord.inPhase .executing, false, by decide, rfl, rfl⟩

end Audit
end DriveSync
