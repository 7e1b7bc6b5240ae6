import DriveSync.Autosave.Coordinator

/-!
# DriveSync.Autosave.Serial

One dispatch at a time, and only of what is due. Where every timer fires no earlier than the
coordinator's own clock says, what is queued is due (`EntryOk.due`), so that a scan of the queue arms
nothing and calls nothing, and the flag `drain` looks at before the scan still holds after it.
-/

namespace DriveSync
namespace Autosave

open Prog

variable {Scope Sig : Type} [DecidableEq Scope]

/-! ## What the steps do to the entries -/

namespace Coordinator

variable {c : Coordinator Scope Sig} {scope s : Scope} {f : Entry Sig → Entry Sig}

theorem setEntry_entries : (c.setEntry scope f).entries s =
    if s = scope then (c.entries s).map f else c.entries s := rfl

theorem register_entries : (c.register scope).entries s =
    if s = scope then some ((c.entries s).getD .new) else c.entries s := rfl

theorem dequeue_entries {index : Nat} : (c.dequeue index scope).entries s =
    if s = scope then (c.entries s).map (fun entry => { entry with queued := false })
    else c.entries s := rfl

theorem clearPending_entries : (c.clearPending scope).entries s =
    if s = scope then (c.entries s).map (fun entry => { entry with timer := none, queued := false })
    else c.entries s := by
  unfold clearPending removeQueued
  split
  · simp only [setEntry_entries]
    split
    · rw [Option.map_map]
      rfl
    · rfl
  · rename_i h
    simp only [setEntry_entries] at h ⊢
    split
    · rename_i hs
      subst hs
      cases he : c.entries s with
      | none => rfl
      | some entry => simp [he] at h ⊢; exact h
    · rfl

theorem clearPending_setEntry_entries : ((c.clearPending scope).setEntry scope f).entries s =
    if s = scope then (c.entries s).map (fun entry => f { entry with timer := none, queued := false })
    else c.entries s := by
  rw [setEntry_entries, clearPending_entries]
  split
  · rw [Option.map_map]
    rfl
  · rfl

@[simp] theorem clearPending_clock : (c.clearPending scope).clock = c.clock := by
  unfold clearPending removeQueued; split <;> rfl

@[simp] theorem clearPending_delayMs : (c.clearPending scope).delayMs = c.delayMs := by
  unfold clearPending removeQueued; split <;> rfl

@[simp] theorem clearPending_activeScope :
    (c.clearPending scope).activeScope = c.activeScope := by
  unfold clearPending removeQueued; split <;> rfl

@[simp] theorem clearPending_promises : (c.clearPending scope).promises = c.promises := by
  unfold clearPending removeQueued; split <;> rfl

@[simp] theorem clearPending_globalBusy : (c.clearPending scope).globalBusy = c.globalBusy := by
  unfold clearPending removeQueued; split <;> rfl

@[simp] theorem clearPending_disposed : (c.clearPending scope).disposed = c.disposed := by
  unfold clearPending removeQueued; split <;> rfl

end Coordinator

/-! ## What the log says -/

abbrev LogEntry (Scope Sig : Type) : Type := DriveSync.Entry (coordinatorInterface Scope Sig)

def isDispatch : LogEntry Scope Sig → Bool
  | .asked (.dispatch _ _) _ => true
  | _ => false

def isSettled : LogEntry Scope Sig → Bool
  | .told (.settled _ _) => true
  | _ => false

/-- The value an accepted update of a scope gave. -/
def updatedOf (scope : Scope) : LogEntry Scope Sig → Option Sig
  | .told (.updated s signature) => if s = scope then some signature else none
  | _ => none

/-- The value of a scope's latest accepted update. -/
def latestUpdate (log : List (LogEntry Scope Sig)) (scope : Scope) : Option Sig :=
  (log.filterMap (updatedOf scope)).getLast?

omit [DecidableEq Scope] in
theorem getLast?_filterMap_append {α : Type} {f : LogEntry Scope Sig → Option α}
    {log : List (LogEntry Scope Sig)} {e : LogEntry Scope Sig} :
    ((log ++ [e]).filterMap f).getLast? = (f e).or (log.filterMap f).getLast? := by
  rw [List.filterMap_append, List.getLast?_append]
  cases h : f e <;> simp [h]

theorem latestUpdate_append {log : List (LogEntry Scope Sig)} {e : LogEntry Scope Sig}
    {scope : Scope} : latestUpdate (log ++ [e]) scope =
      (updatedOf scope e).or (latestUpdate log scope) := getLast?_filterMap_append

/-- What a dispatch is of: the scope's latest update, due, wanted, and not what the baseline is. -/
structure Eligible (before : List (LogEntry Scope Sig)) (task : Task Scope Sig)
    (seen : Coordinator Scope Sig) (entry : Entry Sig) : Prop where
  entry_eq : seen.entries task.scope = some entry
  latest : latestUpdate before task.scope = some task.signature
  due : entry.dueAt ≤ seen.clock
  touched : entry.lastTouchedAt.map (· + seen.delayMs) = some entry.dueAt
  active : entry.cancelled = false ∧ entry.busy = false ∧ entry.blocked = false
  idle : seen.globalBusy = false ∧ seen.disposed = false
  changed : entry.baselineSignature ≠ some task.signature

/-- At no time are two dispatches unsettled, and every dispatch is of what is due. -/
structure Serialised (log : List (LogEntry Scope Sig)) : Prop where
  single : ∀ before after, log = before ++ after →
    before.countP isDispatch ≤ before.countP isSettled + 1
  eligible : ∀ before task seen threw after,
    log = before ++ .asked (.dispatch task seen) threw :: after →
      ∃ entry, Eligible before task seen entry

omit [DecidableEq Scope] in
theorem countP_push {p : LogEntry Scope Sig → Bool} {log : List (LogEntry Scope Sig)}
    {e : LogEntry Scope Sig} : (log ++ [e]).countP p = log.countP p + if p e then 1 else 0 := by
  rw [List.countP_append, List.countP_singleton]

theorem Serialised.push {log : List (LogEntry Scope Sig)} {e : LogEntry Scope Sig}
    (h : Serialised log)
    (hcount : (log ++ [e]).countP isDispatch ≤ (log ++ [e]).countP isSettled + 1)
    (helig : ∀ task seen threw, e = .asked (.dispatch task seen) threw →
      ∃ entry, Eligible log task seen entry) : Serialised (log ++ [e]) where
  single before after heq := by
    rcases List.eq_nil_or_concat after with rfl | ⟨rest, last, rfl⟩
    · rw [List.append_nil] at heq
      exact heq ▸ hcount
    · rw [List.concat_eq_append, ← List.append_assoc] at heq
      exact h.single before rest (List.append_inj_left' heq rfl)
  eligible before task seen threw after heq := by
    rcases List.eq_nil_or_concat after with rfl | ⟨rest, last, rfl⟩
    · obtain ⟨rfl, he⟩ := List.append_inj' heq rfl
      exact helig task seen threw (List.cons.inj he).1
    · rw [List.concat_eq_append, ← List.cons_append, ← List.append_assoc] at heq
      exact h.eligible before task seen threw rest (List.append_inj_left' heq rfl)

section Steps

variable [DecidableEq Sig]

abbrev CoordinatorWorld (Scope Sig : Type) : Type :=
  World (coordinatorInterface Scope Sig) (Coordinator Scope Sig)

/-- What holds of a scope's entry between the steps, with the dispatch that is in flight. -/
structure EntryOk (log : List (LogEntry Scope Sig)) (c : Coordinator Scope Sig)
    (flying : Option (Task Scope Sig)) (scope : Scope) (entry : Entry Sig) : Prop where
  pending : entry.timer.isSome = true ∨ entry.queued = true →
    entry.lastTouchedAt.isSome = true ∧ entry.cancelled = false
  latest : entry.lastTouchedAt.isSome = true →
    entry.signature.isSome = true ∧ latestUpdate log scope = entry.signature
  touched : entry.cancelled = false → ∀ at_, entry.lastTouchedAt = some at_ →
    entry.dueAt = at_ + c.delayMs
  due : entry.queued = true → entry.dueAt ≤ c.clock
  flight : entry.inFlight = true → flying.map (·.scope) = some scope

/-- What holds of the coordinator between the steps, with the dispatch that is in flight. -/
structure Serial (flying : Option (Task Scope Sig)) (w : CoordinatorWorld Scope Sig) : Prop where
  past : Serialised w.log
  entries : ∀ scope entry, w.state.entries scope = some entry →
    EntryOk w.log w.state flying scope entry
  active : w.state.activeScope = flying.map (·.scope)
  count : w.log.countP isDispatch = w.log.countP isSettled + if flying.isSome then 1 else 0

/-- The coordinator at rest: what is in flight is a promise that has not settled. -/
def Rest (w : CoordinatorWorld Scope Sig) : Prop :=
  ∃ flying, Serial flying w ∧ w.state.promises = flying.toList

variable {env : Env (coordinatorInterface Scope Sig)} {w : CoordinatorWorld Scope Sig}
  {flying : Option (Task Scope Sig)} {scope : Scope} {entry : Entry Sig}
  {log log' : List (LogEntry Scope Sig)} {c c' : Coordinator Scope Sig}

omit [DecidableEq Sig] in
/-- The latest update is the same in a log that says nothing new of the scope. -/
theorem EntryOk.latest_of (h : EntryOk log c flying scope entry)
    (hlog : latestUpdate log' scope = latestUpdate log scope)
    (ht : entry.lastTouchedAt.isSome = true) :
    entry.signature.isSome = true ∧ latestUpdate log' scope = entry.signature :=
  ⟨(h.latest ht).1, hlog.trans (h.latest ht).2⟩

omit [DecidableEq Sig] in
theorem EntryOk.later (h : EntryOk log c flying scope entry)
    (hlog : latestUpdate log' scope = latestUpdate log scope) (hclock : c.clock ≤ c'.clock)
    (hdelay : c'.delayMs = c.delayMs) : EntryOk log' c' flying scope entry where
  pending := h.pending
  latest := h.latest_of hlog
  touched hc at_ ht := hdelay ▸ h.touched hc at_ ht
  due hq := Nat.le_trans (h.due hq) hclock
  flight := h.flight

omit [DecidableEq Sig] in
/-- Off the queue and without a timer. -/
theorem EntryOk.unpend (h : EntryOk log c flying scope entry) :
    EntryOk log c flying scope { entry with timer := none, queued := false } where
  pending hp := by simp at hp
  latest := h.latest
  touched := h.touched
  due hq := by cases hq
  flight := h.flight

omit [DecidableEq Sig] in
theorem EntryOk.dequeue (h : EntryOk log c flying scope entry) :
    EntryOk log c flying scope { entry with queued := false } where
  pending hp := h.pending (hp.imp id fun h => by cases h)
  latest := h.latest
  touched := h.touched
  due hq := by cases hq
  flight := h.flight

omit [DecidableEq Sig] in
/-- A change of one entry that keeps it in order. -/
theorem Serial.change (h : Serial flying w) {c' : Coordinator Scope Sig} {f : Entry Sig → Entry Sig}
    (hentries : ∀ s, c'.entries s =
      if s = scope then (w.state.entries s).map f else w.state.entries s)
    (hclock : c'.clock = w.state.clock) (hdelay : c'.delayMs = w.state.delayMs)
    (hactive : c'.activeScope = w.state.activeScope)
    (hf : ∀ entry, w.state.entries scope = some entry →
      EntryOk w.log w.state flying scope entry → EntryOk w.log c' flying scope (f entry)) :
    Serial flying (w.put c') where
  past := h.past
  active := hactive.trans h.active
  count := h.count
  entries s entry' he := by
    rw [World.put_state, hentries] at he
    split at he
    · rename_i hs
      subst hs
      obtain ⟨entry, hentry, rfl⟩ := Option.map_eq_some_iff.mp he
      exact hf entry hentry (h.entries _ _ hentry)
    · exact (h.entries s entry' he).later rfl (Nat.le_of_eq hclock.symm) hdelay

omit [DecidableEq Sig] in
theorem Serial.clearPending (h : Serial flying w) :
    Serial flying (w.put (w.state.clearPending scope)) :=
  h.change (fun _ => Coordinator.clearPending_entries) (by simp) (by simp) (by simp)
    fun _ _ hok => hok.unpend.later rfl (by simp) (by simp)

omit [DecidableEq Sig] in
theorem Serial.dequeue (h : Serial flying w) {index : Nat} :
    Serial flying (w.put (w.state.dequeue index scope)) :=
  h.change (fun _ => Coordinator.dequeue_entries) rfl rfl rfl
    fun _ _ hok => hok.dequeue.later rfl (Nat.le_refl _) rfl

/-- How far the clock moves on with the next reading. -/
def moved (env : Env (coordinatorInterface Scope Sig)) (log : List (LogEntry Scope Sig)) : Nat :=
  env log .now

omit [DecidableEq Scope] [DecidableEq Sig] in
theorem wp_request_bind {α : Type} {call : Call Scope Sig} {f : call.Reply → Exec Scope Sig α}
    {Q : α → CoordinatorWorld Scope Sig → Prop}
    {E : OutOfFuel → CoordinatorWorld Scope Sig → Prop} :
    wp env (request call >>= f) Q E w ↔
      wp env (f (env w.log call)) Q E (w.push (.asked call (env w.log call))) := Iff.rfl

omit [DecidableEq Scope] [DecidableEq Sig] in
@[simp] theorem wp_time {Q : Nat → CoordinatorWorld Scope Sig → Prop}
    {E : OutOfFuel → CoordinatorWorld Scope Sig → Prop} :
    wp env time Q E w ↔ Q (w.state.clock + moved env w.log)
      ((w.push (.asked .now (moved env w.log))).put
        { w.state with clock := w.state.clock + moved env w.log }) := Iff.rfl

/-! ## What each function keeps -/

/-- An entry the queue may hold. -/
def Ready (c : Coordinator Scope Sig) (scope : Scope) : Prop :=
  ∀ entry, c.entries scope = some entry →
    entry.dueAt ≤ c.clock ∧ entry.lastTouchedAt.isSome = true

/-- An entry just taken off the queue to be sent. -/
structure Chosen (c : Coordinator Scope Sig) (scope : Scope) (entry : Entry Sig) : Prop where
  entry_eq : c.entries scope = some { entry with queued := false }
  dirty : entry.dirty = true
  due : entry.dueAt ≤ c.clock
  touched : entry.lastTouchedAt.isSome = true
  wanted : entry.cancelled = false ∧ entry.busy = false ∧ entry.blocked = false

/-- Nothing is in flight, and something may be. -/
structure Open (w : CoordinatorWorld Scope Sig) : Prop where
  serial : Serial none w
  promises : w.state.promises = []
  idle : w.state.globalBusy = false ∧ w.state.disposed = false

variable {fuel : Nat}

omit [DecidableEq Sig] in
theorem Rest.past (h : Rest w) : Serialised w.log := by
  obtain ⟨flying, hs, _⟩ := h
  exact hs.past

omit [DecidableEq Sig] in
/-- An entry taken out of what is pending, and changed so that it may be. -/
theorem Rest.clear (h : Rest w) {f : Entry Sig → Entry Sig}
    (hf : ∀ entry flying, EntryOk w.log w.state flying scope entry →
      entry.timer = none → entry.queued = false → EntryOk w.log w.state flying scope (f entry)) :
    Rest (w.put ((w.state.clearPending scope).setEntry scope f)) := by
  obtain ⟨flying, hs, hp⟩ := h
  refine ⟨flying, hs.change (fun _ => Coordinator.clearPending_setEntry_entries) ?_ ?_ ?_ ?_, ?_⟩
  · exact Coordinator.clearPending_clock
  · exact Coordinator.clearPending_delayMs
  · exact Coordinator.clearPending_activeScope
  · intro entry _ hok
    refine (hf _ flying hok.unpend rfl rfl).later rfl ?_ Coordinator.clearPending_delayMs
    exact Nat.le_of_eq Coordinator.clearPending_clock.symm
  · exact Coordinator.clearPending_promises.trans hp

omit [DecidableEq Sig] in
theorem Rest.clearPending (h : Rest w) : Rest (w.put (w.state.clearPending scope)) := by
  obtain ⟨flying, hs, hp⟩ := h
  exact ⟨flying, hs.clearPending, Coordinator.clearPending_promises.trans hp⟩

omit [DecidableEq Sig] in
theorem Open.dequeue (h : Open w) {index : Nat} :
    Open (w.put (w.state.dequeue index scope)) := ⟨h.serial.dequeue, h.promises, h.idle⟩

/-- A dispatch of an entry that was chosen. -/
theorem Open.launched (h : Open w) (hc : Chosen w.state scope entry) {signature : Sig}
    (hsig : entry.signature = some signature) (threw : Bool) :
    let task : Task Scope Sig := ⟨scope, signature, entry.revision, entry.epoch⟩
    Serial (some task) ((w.put (w.state.launch task)).push
      (.asked (.dispatch task (w.state.launch task)) threw)) := by
  intro task
  have hok := h.serial.entries scope _ hc.entry_eq
  have hlaunch : ∀ s, (w.state.launch task).entries s = if s = scope then
      (w.state.entries s).map (fun entry => { entry with
        inFlight := true
        inFlightSignature := some signature
        inFlightEpoch := task.epoch }) else w.state.entries s := fun _ => rfl
  have hcount := h.serial.count
  refine ⟨h.serial.past.push ?_ fun task' seen threw' heq => ?_, fun s entry' he => ?_, rfl, ?_⟩
  · simp only [countP_push, isDispatch, isSettled]
    simp at hcount ⊢
    omega
  · obtain ⟨rfl, rfl⟩ : task' = task ∧ seen = w.state.launch task := by
      cases heq
      exact ⟨rfl, rfl⟩
    refine ⟨{ entry with
      queued := false
      inFlight := true
      inFlightSignature := some signature
      inFlightEpoch := task.epoch }, ?_, (hok.latest hc.touched).2.trans hsig, hc.due, ?_,
      hc.wanted, h.idle, ?_⟩
    · rw [hlaunch, if_pos rfl, hc.entry_eq]
      rfl
    · obtain ⟨touched, ht⟩ := Option.isSome_iff_exists.mp hc.touched
      have hdue : entry.dueAt = touched + w.state.delayMs := hok.touched hc.wanted.1 touched ht
      simp only [ht, Option.map_some, hdue]
      rfl
    · have hland : entry.inFlight = false := by
        cases hf : entry.inFlight
        · rfl
        · cases hok.flight hf
      have hdirty := hc.dirty
      simp only [Entry.dirty, Entry.effectiveBaseline, hland, hsig] at hdirty
      simp at hdirty
      exact fun heq => hdirty heq.symm
  · have hlog : latestUpdate (w.log ++ [.asked (.dispatch task (w.state.launch task)) threw]) s =
        latestUpdate w.log s := latestUpdate_append
    rw [World.push_state, World.put_state, hlaunch] at he
    split at he
    · rename_i hs
      obtain ⟨entry₀, hentry, rfl⟩ := Option.map_eq_some_iff.mp he
      have hok := h.serial.entries s entry₀ hentry
      exact ⟨hok.pending, hok.latest_of hlog, hok.touched, hok.due,
        fun _ => congrArg some hs.symm⟩
    · have hok := h.serial.entries s entry' he
      refine ⟨hok.pending, hok.latest_of hlog, hok.touched, hok.due, ?_⟩
      intro ht
      cases hok.flight ht
  · simp only [World.push_log, World.put_log, countP_push, isDispatch, isSettled]
    simp at hcount ⊢
    omega

omit [DecidableEq Sig] in
theorem Rest.register (h : Rest w) (scope : Scope) : Rest (w.put (w.state.register scope)) := by
  obtain ⟨flying, hs, hp⟩ := h
  refine ⟨flying, ⟨hs.past, fun s entry he => ?_, hs.active, hs.count⟩, hp⟩
  rw [World.put_state, Coordinator.register_entries] at he
  split at he
  · cases hentry : w.state.entries s with
    | none =>
      rw [hentry] at he
      obtain rfl := Option.some.inj he
      exact ⟨fun hp => by simp [Entry.new] at hp, fun ht => by simp [Entry.new] at ht,
        fun _ _ ht => by simp [Entry.new] at ht, fun hq => by simp [Entry.new] at hq,
        fun hf => by simp [Entry.new] at hf⟩
    | some entry' =>
      rw [hentry] at he
      obtain rfl := Option.some.inj he
      exact (hs.entries s _ hentry).later rfl (Nat.le_refl _) rfl
  · exact (hs.entries s entry he).later rfl (Nat.le_refl _) rfl

omit [DecidableEq Sig] in
/-- A change of one entry in place. -/
theorem Rest.setEntry (h : Rest w) {f : Entry Sig → Entry Sig}
    (hf : ∀ entry flying, w.state.entries scope = some entry →
      EntryOk w.log w.state flying scope entry → EntryOk w.log w.state flying scope (f entry)) :
    Rest (w.put (w.state.setEntry scope f)) := by
  obtain ⟨flying, hs, hp⟩ := h
  refine ⟨flying, hs.change (fun _ => rfl) rfl rfl rfl fun entry he hok => ?_, hp⟩
  exact (hf entry flying he hok).later rfl (Nat.le_refl _) rfl

omit [DecidableEq Sig] in
/-- An event that is neither an update nor the end of a dispatch. -/
theorem Rest.note (h : Rest w) (event : Event Scope Sig)
    (hsettled : isSettled (.told event : LogEntry Scope Sig) = false)
    (hupdated : ∀ s, updatedOf s (.told event : LogEntry Scope Sig) = none) :
    Rest (w.push (.told event)) := by
  obtain ⟨flying, hs, hp⟩ := h
  refine ⟨flying, ⟨hs.past.push ?_ ?_, fun s entry he => ?_, hs.active, ?_⟩, hp⟩
  · have := hs.past.single w.log [] (List.append_nil _).symm
    simpa [countP_push, isDispatch, hsettled] using this
  · intro _ _ _ heq
    cases heq
  · refine (hs.entries s entry he).later ?_ (Nat.le_refl _) rfl
    rw [World.push_log, latestUpdate_append, hupdated]
    rfl
  · simpa [countP_push, isDispatch, hsettled] using hs.count

omit [DecidableEq Sig] in
/-- An accepted update, with what it does to its scope's entry. -/
theorem Rest.updated (h : Rest w) {signature : Sig} {c' : Coordinator Scope Sig}
    {f : Entry Sig → Entry Sig}
    (hentries : ∀ s, c'.entries s =
      if s = scope then (w.state.entries s).map f else w.state.entries s)
    (hclock : c'.clock = w.state.clock) (hdelay : c'.delayMs = w.state.delayMs)
    (hactive : c'.activeScope = w.state.activeScope) (hpromises : c'.promises = w.state.promises)
    (hf : ∀ entry flying, w.state.entries scope = some entry →
      EntryOk w.log w.state flying scope entry →
      EntryOk (w.log ++ [.told (.updated scope signature)]) w.state flying scope (f entry)) :
    Rest ((w.push (.told (.updated scope signature))).put c') := by
  obtain ⟨flying, hs, hp⟩ := h
  refine ⟨flying, ⟨hs.past.push ?_ ?_, fun s entry' he => ?_, hactive.trans hs.active, ?_⟩,
    hpromises.trans hp⟩
  · have := hs.past.single w.log [] (List.append_nil _).symm
    simpa [countP_push, isDispatch, isSettled] using this
  · intro _ _ _ heq
    cases heq
  · rw [World.put_state, hentries] at he
    split at he
    · rename_i hscope
      subst hscope
      obtain ⟨entry, hentry, rfl⟩ := Option.map_eq_some_iff.mp he
      exact (hf entry flying hentry (hs.entries s entry hentry)).later rfl
        (Nat.le_of_eq hclock.symm) hdelay
    · rename_i hscope
      refine (hs.entries s entry' he).later ?_ (Nat.le_of_eq hclock.symm) hdelay
      rw [World.put_log, World.push_log, latestUpdate_append, updatedOf, if_neg (Ne.symm hscope)]
      rfl
  · simpa [countP_push, isDispatch, isSettled] using hs.count

omit [DecidableEq Sig] in
/-- A change beside the entries. -/
theorem Rest.beside (h : Rest w) {c' : Coordinator Scope Sig}
    (hentries : c'.entries = w.state.entries) (hclock : c'.clock = w.state.clock)
    (hdelay : c'.delayMs = w.state.delayMs) (hactive : c'.activeScope = w.state.activeScope)
    (hpromises : c'.promises = w.state.promises) : Rest (w.put c') := by
  obtain ⟨flying, hs, hp⟩ := h
  refine ⟨flying, ⟨hs.past, fun s entry he => ?_, hactive.trans hs.active, hs.count⟩,
    hpromises.trans hp⟩
  rw [World.put_state, hentries] at he
  exact (hs.entries s entry he).later rfl (Nat.le_of_eq hclock.symm) hdelay

omit [DecidableEq Sig] in
/-- Every entry out of what is pending, and cancelled. -/
theorem Rest.cancelled (h : Rest w) {c' : Coordinator Scope Sig} {f : Entry Sig → Entry Sig}
    (hentries : ∀ s, c'.entries s = (w.state.entries s).map f)
    (hf : ∀ entry, (f entry).timer = none ∧ (f entry).queued = false ∧
      (f entry).cancelled = true ∧ (f entry).lastTouchedAt = entry.lastTouchedAt ∧
      (f entry).signature = entry.signature ∧ (f entry).inFlight = entry.inFlight)
    (hactive : c'.activeScope = w.state.activeScope)
    (hpromises : c'.promises = w.state.promises) : Rest (w.put c') := by
  obtain ⟨flying, hs, hp⟩ := h
  refine ⟨flying, ⟨hs.past, fun s entry' he => ?_, hactive.trans hs.active, hs.count⟩,
    hpromises.trans hp⟩
  rw [World.put_state, hentries] at he
  obtain ⟨entry, hentry, rfl⟩ := Option.map_eq_some_iff.mp he
  have hok := hs.entries s entry hentry
  obtain ⟨htimer, hqueued, hc, ht, hsig, hin⟩ := hf entry
  refine ⟨fun hpend => by simp [htimer, hqueued] at hpend, ?_, fun hnc => ?_, fun hq => ?_, ?_⟩
  · rw [ht, hsig]
    exact hok.latest
  · rw [hc] at hnc
    cases hnc
  · rw [hqueued] at hq
    cases hq
  · rw [hin]
    exact hok.flight

omit [DecidableEq Scope] [DecidableEq Sig] in
theorem wp_whileActive {operation : Exec Scope Sig Unit} {P : CoordinatorWorld Scope Sig → Prop}
    {E : OutOfFuel → CoordinatorWorld Scope Sig → Prop} (h : P w)
    (hop : w.state.disposed = false → wp env operation (fun _ => P) E w) :
    wp env (whileActive operation) (fun _ => P) E w := by
  simp only [whileActive, wp_bind, wp_get]
  split
  · exact h
  · rename_i hactive
    exact hop (by simpa using hactive)

end Steps

/-! Two timers fire while the clock still stands before their entries are due, and the clock moves on
between two of its readings in the scan of the queue: the entry that is armed again is due at once,
and its nested drain starts a dispatch beneath the scan, which then starts another. -/

namespace EarlyTimers

/-- How often the clock was read. -/
def readings (log : List (LogEntry Bool Nat)) : Nat :=
  log.countP fun
    | .asked .now _ => true
    | _ => false

/-- The clock moves by one with its sixth reading, and no dispatch throws. -/
def env : Env (coordinatorInterface Bool Nat)
  | log, .now => if readings log = 5 then (1 : Nat) else (0 : Nat)
  | _, .dispatch _ _ => false

def ops : List (Op Bool Nat) :=
  [.hydrate true 0, .hydrate false 0, .setGlobalBusy true, .update true 1, .update false 1,
    .fire true, .fire false, .setGlobalBusy false]

/-- The clock moves by one with every reading. -/
def steady : Env (coordinatorInterface Bool Nat)
  | _, .now => (1 : Nat)
  | _, .dispatch _ _ => false

end EarlyTimers

end Autosave
end DriveSync
