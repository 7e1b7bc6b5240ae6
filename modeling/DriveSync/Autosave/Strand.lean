import DriveSync.Autosave.Serial

/-!
# DriveSync.Autosave.Strand

No edit is left behind. Between the steps every scope that is dirty is armed (`Armed`), except the
one a function has in hand (`Kept`); what it hands to `arm` it hands over with a touch time
(`Rearmable`), for without one `arm` forgets it. The touch time goes when a value looks clean, which
it does beside a value in flight: whether it is still there when the flight ends is what the runs are
held to.
-/

namespace DriveSync
namespace Autosave

open Prog

variable {Scope Sig : Type} [DecidableEq Scope]

/-! ## What the log says -/

/-- The value an event leaves a scope with on the other side. -/
def confirmedOf (scope : Scope) : LogEntry Scope Sig → Option Sig
  | .told (.hydrated s signature) => if s = scope then some signature else none
  | .told (.replaced s signature) => if s = scope then some signature else none
  | .told (.settled task true) => if task.scope = scope then some task.signature else none
  | _ => none

/-- The value of a scope's last successful dispatch, or its baseline if that is later. -/
def confirmed (log : List (LogEntry Scope Sig)) (scope : Scope) : Option Sig :=
  (log.filterMap (confirmedOf scope)).getLast?

theorem confirmed_append {log : List (LogEntry Scope Sig)} {e : LogEntry Scope Sig} {scope : Scope} :
    confirmed (log ++ [e]) scope = (confirmedOf scope e).or (confirmed log scope) :=
  getLast?_filterMap_append

section Steps

variable [DecidableEq Sig]

/-- A dirty scope has a timer, or is queued. -/
def Armed (entry : Entry Sig) : Prop :=
  entry.cancelled = false → entry.dirty = true → entry.timer.isSome = true ∨ entry.queued = true

/-- A dirty scope has a touch time. -/
def Rearmable (entry : Entry Sig) : Prop :=
  entry.cancelled = false → entry.dirty = true → entry.lastTouchedAt.isSome = true

/-- What holds of a scope's entry at any point. -/
structure Sound (w : CoordinatorWorld Scope Sig) (scope : Scope) (entry : Entry Sig) : Prop where
  pending : entry.timer.isSome = true ∨ entry.queued = true → entry.lastTouchedAt.isSome = true
  baseline : confirmed w.log scope = entry.baselineSignature
  current : ∀ task ∈ w.state.promises, task.scope = scope → task.epoch = entry.epoch
  flight : entry.inFlightEpoch ≤ entry.epoch
  disposed : w.state.disposed = true → entry.cancelled = true

/-- What holds of the coordinator, beside the scope a function has in hand. -/
structure Kept (hand : Option Scope) (w : CoordinatorWorld Scope Sig) : Prop where
  sound : ∀ scope entry, w.state.entries scope = some entry → Sound w scope entry
  armed : ∀ scope entry, w.state.entries scope = some entry → hand ≠ some scope → Armed entry
  absent : ∀ scope, w.state.entries scope = none →
    confirmed w.log scope = none ∧ ∀ task ∈ w.state.promises, task.scope ≠ scope

variable {env : Env (coordinatorInterface Scope Sig)} {w w' : CoordinatorWorld Scope Sig}
  {hand : Option Scope} {scope : Scope} {entry : Entry Sig}

omit [DecidableEq Sig] in
theorem Sound.congr (h : Sound w scope entry)
    (hlog : confirmed w'.log scope = confirmed w.log scope)
    (hpromises : w'.state.promises = w.state.promises)
    (hdisposed : w'.state.disposed = w.state.disposed) : Sound w' scope entry where
  pending := h.pending
  baseline := hlog.trans h.baseline
  current := hpromises ▸ h.current
  flight := h.flight
  disposed := hdisposed ▸ h.disposed

theorem Sound.rearmable (h : Sound w scope entry) (ha : Armed entry) : Rearmable entry :=
  fun hc hd => h.pending (ha hc hd)

/-- Take a scope in hand. -/
theorem Kept.take (h : Kept none w) (scope : Scope) : Kept (some scope) w :=
  ⟨h.sound, fun s entry he _ => h.armed s entry he (by simp), h.absent⟩

/-- Put the scope in hand down, armed. -/
theorem Kept.lay (h : Kept (some scope) w)
    (ha : ∀ entry, w.state.entries scope = some entry → Armed entry) : Kept none w := by
  refine ⟨h.sound, fun s entry he _ => ?_, h.absent⟩
  by_cases hs : s = scope
  · exact ha entry (hs ▸ he)
  · exact h.armed s entry he (by simpa using Ne.symm hs)

/-- A change beside the entries. -/
theorem Kept.beside (h : Kept hand w) (hlog : ∀ s, confirmed w'.log s = confirmed w.log s)
    (hentries : w'.state.entries = w.state.entries)
    (hpromises : w'.state.promises = w.state.promises)
    (hdisposed : w'.state.disposed = w.state.disposed) : Kept hand w' where
  sound s entry he := (h.sound s entry (hentries ▸ he)).congr (hlog s) hpromises hdisposed
  armed s entry he := h.armed s entry (hentries ▸ he)
  absent s he := by
    rw [hlog, hpromises]
    exact h.absent s (hentries ▸ he)

/-- A change of the entry in hand. -/
theorem Kept.change (h : Kept (some scope) w) {f : Entry Sig → Entry Sig}
    (hlog : ∀ s, s ≠ scope → confirmed w'.log s = confirmed w.log s)
    (hentries : ∀ s, w'.state.entries s =
      if s = scope then (w.state.entries s).map f else w.state.entries s)
    (hpromises : w'.state.promises = w.state.promises)
    (hdisposed : w'.state.disposed = w.state.disposed)
    (habsent : w.state.entries scope = none → confirmed w'.log scope = none)
    (hf : ∀ entry, w.state.entries scope = some entry → Sound w scope entry →
      Sound w' scope (f entry)) : Kept (some scope) w' := by
  have hother : ∀ s, s ≠ scope → w'.state.entries s = w.state.entries s := by
    intro s hs
    rw [hentries, if_neg hs]
  refine ⟨fun s entry' he => ?_, fun s entry' he hs => ?_, fun s he => ?_⟩
  · by_cases hs : s = scope
    · subst hs
      rw [hentries, if_pos rfl] at he
      obtain ⟨entry, hentry, rfl⟩ := Option.map_eq_some_iff.mp he
      exact hf entry hentry (h.sound s entry hentry)
    · rw [hother s hs] at he
      exact (h.sound s entry' he).congr (hlog s hs) hpromises hdisposed
  · have hne : s ≠ scope := fun heq => hs (congrArg some heq.symm)
    rw [hother s hne] at he
    exact h.armed s entry' he hs
  · rw [hpromises]
    by_cases hs : s = scope
    · subst hs
      rw [hentries, if_pos rfl] at he
      have hnone := Option.map_eq_none_iff.mp he
      exact ⟨habsent hnone, (h.absent s hnone).2⟩
    · rw [hother s hs] at he
      rw [hlog s hs]
      exact h.absent s he

/-- A change of the entry in hand that no one is told of. -/
theorem Kept.changed (h : Kept (some scope) w) {c' : Coordinator Scope Sig}
    {f : Entry Sig → Entry Sig}
    (hentries : ∀ s, c'.entries s =
      if s = scope then (w.state.entries s).map f else w.state.entries s)
    (hpromises : c'.promises = w.state.promises) (hdisposed : c'.disposed = w.state.disposed)
    (hf : ∀ entry, w.state.entries scope = some entry → Sound w scope entry →
      Sound w scope (f entry)) : Kept (some scope) (w.put c') := by
  refine h.change (fun _ _ => rfl) hentries hpromises hdisposed
    (fun hnone => (h.absent scope hnone).1) fun entry he hs => ?_
  exact (hf entry he hs).congr rfl hpromises hdisposed

/-- A change of the entry in hand, with what is told of it, that leaves it armed. -/
theorem Kept.told (h : Kept (some scope) w) {f : Entry Sig → Entry Sig}
    (hlog : ∀ s, s ≠ scope → confirmed w'.log s = confirmed w.log s)
    (hentries : ∀ s, w'.state.entries s =
      if s = scope then (w.state.entries s).map f else w.state.entries s)
    (hpromises : w'.state.promises = w.state.promises)
    (hdisposed : w'.state.disposed = w.state.disposed)
    (habsent : w.state.entries scope = none → confirmed w'.log scope = none)
    (hf : ∀ entry, w.state.entries scope = some entry → Sound w scope entry →
      Sound w' scope (f entry) ∧ Armed (f entry)) : Kept none w' := by
  refine (h.change hlog hentries hpromises hdisposed habsent fun entry he hs => (hf entry he hs).1).lay ?_
  intro entry' he
  rw [hentries, if_pos rfl] at he
  obtain ⟨entry, hentry, rfl⟩ := Option.map_eq_some_iff.mp he
  exact (hf entry hentry (h.sound scope entry hentry)).2

/-- A change that leaves the entry in hand armed. -/
theorem Kept.filled (h : Kept (some scope) w) {c' : Coordinator Scope Sig}
    {f : Entry Sig → Entry Sig}
    (hentries : ∀ s, c'.entries s =
      if s = scope then (w.state.entries s).map f else w.state.entries s)
    (hpromises : c'.promises = w.state.promises) (hdisposed : c'.disposed = w.state.disposed)
    (hf : ∀ entry, w.state.entries scope = some entry → Sound w scope entry →
      Sound w scope (f entry) ∧ Armed (f entry)) : Kept none (w.put c') := by
  refine h.told (fun _ _ => rfl) hentries hpromises hdisposed
    (fun hnone => (h.absent scope hnone).1) fun entry he hs => ?_
  obtain ⟨hsound, harmed⟩ := hf entry he hs
  exact ⟨hsound.congr rfl hpromises hdisposed, harmed⟩

/-- Out of what is pending, and changed so that it need not be. -/
theorem Kept.cleared (h : Kept (some scope) w) {f : Entry Sig → Entry Sig}
    (hf : ∀ entry, w.state.entries scope = some entry →
      Sound w scope { entry with timer := none, queued := false } →
      Sound w scope (f { entry with timer := none, queued := false }) ∧
        Armed (f { entry with timer := none, queued := false })) :
    Kept none (w.put ((w.state.clearPending scope).setEntry scope f)) := by
  refine h.filled (fun _ => Coordinator.clearPending_setEntry_entries)
    Coordinator.clearPending_promises Coordinator.clearPending_disposed fun entry he hs => ?_
  exact hf entry he ⟨fun hp => by simp at hp, hs.baseline, hs.current, hs.flight, hs.disposed⟩

theorem Armed.of_clean (h : entry.dirty = false) : Armed entry := by
  intro _ hd
  rw [h] at hd
  cases hd

omit [DecidableEq Scope] in
theorem Armed.of_cancelled (h : entry.cancelled = true) : Armed entry := by
  intro hc
  rw [h] at hc
  cases hc

/-! ## What each function keeps -/

/-- The scope in hand can be armed. -/
def Handed (c : Coordinator Scope Sig) (scope : Scope) : Prop :=
  ∀ entry, c.entries scope = some entry → Rearmable entry

/-- An entry just taken off the queue to be sent. -/
structure Picked (c : Coordinator Scope Sig) (scope : Scope) (entry : Entry Sig) : Prop where
  entry_eq : c.entries scope = some { entry with queued := false }
  dirty : entry.dirty = true
  touched : entry.lastTouchedAt.isSome = true

/-- A dispatch whose end leaves its scope with a touch time, or clean. -/
def Ending (c : Coordinator Scope Sig) (task : Task Scope Sig) (succeeded : Bool) : Prop :=
  ∃ entry, c.entries task.scope = some entry ∧ task.epoch = entry.epoch ∧
    (entry.cancelled = false → entry.lastTouchedAt.isSome = true ∨
      entry.signature = if succeeded then some task.signature else entry.baselineSignature)

/-- What each function keeps with some fuel. -/
structure Keeps (env : Env (coordinatorInterface Scope Sig)) (fuel : Nat) : Prop where
  enqueue : ∀ scope w, Kept (some scope) w → Handed w.state scope →
    wp env (enqueue fuel scope) (fun _ => Kept none) (fun _ _ => True) w
  arm : ∀ scope w, Kept (some scope) w → Handed w.state scope →
    wp env (arm fuel scope) (fun _ => Kept none) (fun _ _ => True) w
  nextEligibleEntry : ∀ index w, Kept none w →
    wp env (nextEligibleEntry fuel index) (fun found w' => Kept (found.map (·.1)) w' ∧
      ∀ scope entry, found = some (scope, entry) → Picked w'.state scope entry)
      (fun _ _ => True) w
  finishDispatch : ∀ task succeeded w, Kept none w → Ending w.state task succeeded →
    wp env (finishDispatch fuel task succeeded) (fun _ => Kept none) (fun _ _ => True) w
  startDispatch : ∀ scope entry w, Kept (some scope) w → Picked w.state scope entry →
    wp env (startDispatch fuel scope entry) (fun _ => Kept none) (fun _ _ => True) w
  drain : ∀ w, Kept none w → wp env (drain fuel) (fun _ => Kept none) (fun _ _ => True) w

variable {fuel : Nat}

theorem kept_enqueue (ih : Keeps env fuel) (h : Kept (some scope) w) (hh : Handed w.state scope) :
    wp env (enqueue (fuel + 1) scope) (fun _ => Kept none) (fun _ _ => True) w := by
  simp only [enqueue, wp_bind, wp_get]
  cases he : w.state.entries scope with
  | none =>
    refine h.lay fun entry hentry => ?_
    rw [he] at hentry
    cases hentry
  | some entry =>
    dsimp only
    have hsound := h.sound scope entry he
    split
    · rename_i hguard
      refine h.lay fun entry' hentry hc hd => ?_
      obtain rfl : entry = entry' := Option.some.inj (he.symm.trans hentry)
      have hdisposed : w.state.disposed = false := by
        cases hw : w.state.disposed
        · rfl
        · exact absurd (hsound.disposed hw) (by simp [hc])
      simp only [hdisposed, hc, hd, Bool.or_false, Bool.not_true, Bool.false_or] at hguard
      exact .inr hguard
    · rename_i hguard
      simp only [Bool.or_eq_true, not_or, Bool.not_eq_true, Bool.not_eq_false'] at hguard
      obtain ⟨⟨⟨_, hc⟩, hd⟩, _⟩ := hguard
      simp only [wp_bind, wp_modify]
      refine ih.drain _ (h.filled (fun _ => rfl) rfl rfl fun entry' he' hs => ?_)
      obtain rfl : entry = entry' := Option.some.inj (he.symm.trans he')
      exact ⟨⟨fun _ => hh entry he hc hd, hs.baseline, hs.current, hs.flight, hs.disposed⟩,
        fun _ _ => .inr rfl⟩

theorem kept_tick (h : Kept hand w) (moved : Nat) :
    Kept hand ((w.push (.asked .now moved)).put { w.state with clock := w.state.clock + moved }) :=
  h.beside (fun _ => confirmed_append) rfl rfl rfl

theorem kept_arm (ih : Keeps env fuel) (h : Kept (some scope) w) (hh : Handed w.state scope) :
    wp env (arm (fuel + 1) scope) (fun _ => Kept none) (fun _ _ => True) w := by
  simp only [arm, wp_bind, wp_get]
  cases he : w.state.entries scope with
  | none =>
    refine h.lay fun entry hentry => ?_
    rw [he] at hentry
    cases hentry
  | some entry =>
    dsimp only
    have hsound := h.sound scope entry he
    have hpick : ∀ entry', w.state.entries scope = some entry' → entry = entry' :=
      fun entry' he' => Option.some.inj (he.symm.trans he')
    split
    · rename_i hguard
      rw [wp_modify]
      split
      · rename_i hclean
        refine h.cleared fun entry' he' hs => ?_
        obtain rfl := hpick entry' he'
        refine ⟨⟨fun hp => by simp at hp, hs.baseline, hs.current, hs.flight, hs.disposed⟩, ?_⟩
        have hd : entry.dirty = false := by simpa using hclean
        exact .of_clean hd
      · rename_i hdirty
        refine h.filled (fun _ => Coordinator.clearPending_entries) Coordinator.clearPending_promises
          Coordinator.clearPending_disposed fun entry' he' hs => ?_
        obtain rfl := hpick entry' he'
        refine ⟨⟨fun hp => by simp at hp, hs.baseline, hs.current, hs.flight, hs.disposed⟩, ?_⟩
        -- a dirty scope that is not cancelled has its touch time, so the coordinator is disposed
        refine .of_cancelled ?_
        have hd : entry.dirty = true := by simpa using hdirty
        cases hc : entry.cancelled
        · have htouched := Option.isSome_iff_ne_none.mp (hh entry he hc hd)
          simp [hc, hd, htouched] at hguard
          exact absurd (hsound.disposed hguard) (by simp [hc])
        · rfl
    · rename_i hguard
      simp only [Bool.or_eq_true, not_or, Bool.not_eq_true, Option.isNone_eq_false_iff,
        Bool.not_eq_false'] at hguard
      obtain ⟨⟨⟨_, hc⟩, ht⟩, hd⟩ := hguard
      split
      · rename_i hpending
        refine h.lay fun entry' he' _ _ => ?_
        obtain rfl := hpick entry' he'
        exact Bool.or_eq_true_iff.mp hpending
      · rw [wp_bind, wp_time]
        have htick := kept_tick h (moved env w.log)
        split
        · exact ih.enqueue scope _ htick hh
        · rw [wp_modify]
          refine htick.filled (fun _ => rfl) rfl rfl fun entry' he' hs => ?_
          obtain rfl := hpick entry' he'
          exact ⟨⟨fun _ => ht, hs.baseline, hs.current, hs.flight, hs.disposed⟩,
            fun _ _ => .inl rfl⟩

theorem kept_drain (ih : Keeps env fuel) (h : Kept none w) :
    wp env (drain (fuel + 1)) (fun _ => Kept none) (fun _ _ => True) w := by
  simp only [drain, wp_bind, wp_get]
  split
  · exact h
  · rw [wp_bind]
    refine wp_mono (ih.nextEligibleEntry 0 w h) (fun found w' h' => ?_) fun _ _ h' => h'
    obtain ⟨hkept, hpicked⟩ := h'
    cases found with
    | none => exact hkept
    | some found => exact ih.startDispatch found.1 found.2 w' hkept (hpicked _ _ rfl)

/-- Off the queue, the entry is in hand. -/
theorem Kept.dequeue (h : Kept none w) {index : Nat} :
    Kept (some scope) (w.put (w.state.dequeue index scope)) := by
  refine (h.take scope).changed (fun _ => Coordinator.dequeue_entries) rfl rfl fun entry he hs => ?_
  exact ⟨fun hp => hs.pending (hp.imp id fun hq => by cases hq), hs.baseline, hs.current, hs.flight,
    hs.disposed⟩

/-- Off the queue, where the entry was not to be sent. -/
theorem Kept.dropped (h : Kept none w) {index : Nat} (he : w.state.entries scope = some entry)
    (hdrop : (!entry.queued || entry.cancelled || !entry.dirty) = true) :
    Kept none (w.put (w.state.dequeue index scope)) := by
  refine h.dequeue.lay fun entry' he' hc hd => ?_
  rw [World.put_state, Coordinator.dequeue_entries, if_pos rfl, he] at he'
  obtain rfl := Option.some.inj he'
  have hcancelled : entry.cancelled = false := hc
  have hdirty : entry.dirty = true := hd
  simp only [hcancelled, hdirty, Bool.or_false, Bool.not_true, Bool.not_eq_true'] at hdrop
  exact (h.armed scope entry he (by simp) hc hd).imp id fun hq => absurd hq (by simp [hdrop])

theorem kept_nextEligibleEntry (ih : Keeps env fuel) (h : Kept none w) {index : Nat} :
    wp env (nextEligibleEntry (fuel + 1) index) (fun found w' => Kept (found.map (·.1)) w' ∧
      ∀ scope entry, found = some (scope, entry) → Picked w'.state scope entry)
      (fun _ _ => True) w := by
  simp only [nextEligibleEntry, wp_bind, wp_get]
  cases w.state.queue[index]? with
  | none => exact ⟨h, fun _ _ hnone => by cases hnone⟩
  | some scope =>
    dsimp only
    cases he : w.state.entries scope with
    | none =>
      simp only [wp_bind, wp_modify]
      refine ih.nextEligibleEntry index _ (h.dequeue.lay fun entry he' => ?_)
      rw [World.put_state, Coordinator.dequeue_entries, if_pos rfl, he] at he'
      cases he'
    | some entry =>
      dsimp only
      split
      · rename_i hdrop
        simp only [wp_bind, wp_modify]
        exact ih.nextEligibleEntry index _ (h.dropped he hdrop)
      · rename_i hguard
        simp only [Bool.or_eq_true, not_or, Bool.not_eq_true, Bool.not_eq_false'] at hguard
        obtain ⟨⟨hqueued, hc⟩, hd⟩ := hguard
        rw [wp_bind, wp_time]
        have htouched := (h.sound scope entry he).pending (.inr hqueued)
        have htick := kept_tick h (moved env w.log)
        have hdequeued : ∀ entry', (w.state.dequeue index scope).entries scope = some entry' →
            entry' = { entry with queued := false } := by
          intro entry' he'
          rw [Coordinator.dequeue_entries, if_pos rfl, he] at he'
          exact (Option.some.inj he').symm
        split
        · -- not yet due: in hand until it is armed again
          simp only [wp_bind, wp_modify]
          refine wp_mono (ih.arm scope _ htick.dequeue fun entry' he' _ _ => ?_)
            (fun _ w' h' => ih.nextEligibleEntry index w' h') fun _ _ h' => h'
          rw [hdequeued entry' he']
          exact htouched
        · split
          · exact ih.nextEligibleEntry (index + 1) _ htick
          · rw [wp_bind, wp_modify]
            refine ⟨htick.dequeue, fun scope' entry' hfound => ?_⟩
            obtain ⟨rfl, rfl⟩ := Prod.mk.inj (Option.some.inj hfound)
            refine ⟨?_, hd, htouched⟩
            simp only [World.put_state, Coordinator.dequeue_entries, if_true, he, Option.map_some]

/-- What the end of a dispatch of an entry's own epoch makes of the entry. -/
structure Settled (task : Task Scope Sig) (succeeded : Bool) (entry entry' : Entry Sig) : Prop where
  timer : entry'.timer = entry.timer
  queued : entry'.queued = entry.queued
  touched : entry'.lastTouchedAt = entry.lastTouchedAt
  cancelled : entry'.cancelled = entry.cancelled
  signature : entry'.signature = entry.signature
  epoch : entry'.epoch = entry.epoch
  landed : entry'.inFlight = false ∧ entry'.inFlightEpoch = 0
  baseline : entry'.baselineSignature =
    if succeeded then some task.signature else entry.baselineSignature

omit [DecidableEq Sig] in
theorem settle_entries {c : Coordinator Scope Sig} {task : Task Scope Sig} (succeeded : Bool)
    (he : c.entries task.scope = some entry) (hepoch : task.epoch = entry.epoch) :
    ∃ entry', (∀ s, (c.settle task succeeded).entries s =
      if s = task.scope then (c.entries s).map (fun _ => entry') else c.entries s) ∧
      Settled task succeeded entry entry' := by
  have hsettle : ∀ entry' : Entry Sig, (c.settle task succeeded).entries task.scope = some entry' →
      ∀ s, (c.settle task succeeded).entries s =
        if s = task.scope then (c.entries s).map (fun _ => entry') else c.entries s := by
    intro entry' he' s
    by_cases hs : s = task.scope
    · subst hs
      rw [he', if_pos rfl, he]
      rfl
    · rw [if_neg hs]
      exact if_neg hs
  have hfound : ∀ f, (c.settle task succeeded).entries task.scope = (some entry).map f →
      Settled task succeeded entry (f entry) → ∃ entry', (∀ s, (c.settle task succeeded).entries s =
        if s = task.scope then (c.entries s).map (fun _ => entry') else c.entries s) ∧
        Settled task succeeded entry entry' := fun f hf hs => ⟨f entry, hsettle _ hf, hs⟩
  refine hfound _ ((if_pos rfl).trans (congrArg (Option.map _) he)) ?_
  dsimp only
  rw [if_neg (not_not.mpr hepoch)]
  cases succeeded with
  | true => exact ⟨rfl, rfl, rfl, rfl, rfl, rfl, ⟨rfl, rfl⟩, rfl⟩
  | false =>
    rw [if_neg Bool.false_ne_true]
    split <;> exact ⟨rfl, rfl, rfl, rfl, rfl, rfl, ⟨rfl, rfl⟩, rfl⟩

theorem kept_finishDispatch (ih : Keeps env fuel) {task : Task Scope Sig} {succeeded : Bool}
    (h : Kept none w) (hend : Ending w.state task succeeded) :
    wp env (finishDispatch (fuel + 1) task succeeded) (fun _ => Kept none) (fun _ _ => True) w := by
  obtain ⟨entry, he, hepoch, htouch⟩ := hend
  obtain ⟨entry', hentries, hs⟩ := settle_entries succeeded he hepoch
  have hsound := h.sound task.scope entry he
  have hscope : (w.state.settle task succeeded).entries task.scope = some entry' := by
    rw [hentries, if_pos rfl, he]
    rfl
  have hsettled : Kept (some task.scope) ((w.push (.told (.settled task succeeded))).put
      (w.state.settle task succeeded)) := by
    refine (h.take task.scope).change (fun s hne => ?_) hentries rfl rfl (fun hnone => ?_) ?_
    · refine confirmed_append.trans ?_
      cases succeeded with
      | true => simp [confirmedOf, Ne.symm hne]
      | false => rfl
    · rw [he] at hnone
      cases hnone
    · intro _ _ _
      refine ⟨fun hp => ?_, ?_, ?_, ?_, fun hdisposed => ?_⟩
      · rw [hs.touched]
        rw [hs.timer, hs.queued] at hp
        exact hsound.pending hp
      · refine confirmed_append.trans ?_
        rw [hs.baseline, ← hsound.baseline]
        cases succeeded with
        | true => simp [confirmedOf]
        | false => rfl
      · rw [hs.epoch]
        exact hsound.current
      · rw [hs.landed.2]
        exact Nat.zero_le _
      · rw [hs.cancelled]
        exact hsound.disposed hdisposed
  have hdrain : ∀ w', Kept none w' →
      wp env (if !w'.state.disposed then drain fuel else pure PUnit.unit)
        (fun _ => Kept none) (fun _ _ => True) w' := by
    intro w' hkept
    split
    · exact ih.drain w' hkept
    · exact hkept
  simp only [finishDispatch, note, wp_bind, wp_tell, wp_modify, wp_get]
  split
  · rw [wp_bind]
    refine wp_mono (ih.arm _ _ hsettled fun e hscope' hc hd => ?_) (fun _ w' h' => hdrain w' h')
      fun _ _ h' => h'
    obtain rfl : entry' = e := Option.some.inj (hscope.symm.trans hscope')
    rw [hs.cancelled] at hc
    rw [hs.touched]
    -- what is clean beside its new baseline is not dirty
    refine (htouch hc).resolve_right fun hclean => ?_
    rw [← hs.baseline, ← hs.signature] at hclean
    simp [Entry.dirty, Entry.effectiveBaseline, hs.landed.1, hclean] at hd
  · rename_i hguard
    refine hdrain _ (hsettled.lay fun e hscope' => .of_cancelled ?_)
    obtain rfl : entry' = e := Option.some.inj (hscope.symm.trans hscope')
    simp only [World.push_state, World.put_state, hscope] at hguard
    cases hc : entry'.cancelled
    · simp [hc] at hguard
      rw [← hc, hs.cancelled]
      exact hsound.disposed hguard
    · rfl

/-- A value on its way is clean beside itself. -/
theorem Kept.launched (h : Kept (some scope) w) (hp : Picked w.state scope entry) {signature : Sig}
    (hsig : entry.signature = some signature) (threw : Bool) :
    let task : Task Scope Sig := ⟨scope, signature, entry.revision, entry.epoch⟩
    Kept none ((w.put (w.state.launch task)).push
      (.asked (.dispatch task (w.state.launch task)) threw)) := by
  intro task
  have hfilled : Kept none (w.put (w.state.launch task)) := by
    refine h.filled (fun _ => rfl) rfl rfl fun entry' he hs => ?_
    obtain rfl := Option.some.inj (hp.entry_eq.symm.trans he)
    refine ⟨⟨hs.pending, hs.baseline, hs.current, Nat.le_refl _, hs.disposed⟩, .of_clean ?_⟩
    simp [Entry.dirty, Entry.effectiveBaseline, hsig, task]
  exact hfilled.beside (fun _ => confirmed_append) rfl rfl rfl

/-- A dispatch that has not settled, of its entry's own epoch. -/
theorem Kept.promised (h : Kept none w) {task : Task Scope Sig}
    (he : w.state.entries task.scope = some entry) (hepoch : task.epoch = entry.epoch) :
    Kept none (w.put { w.state with promises := task :: w.state.promises }) where
  sound s entry' he' := by
    have hs := h.sound s entry' he'
    refine ⟨hs.pending, hs.baseline, fun task' hmem hscope => ?_, hs.flight, hs.disposed⟩
    rcases List.mem_cons.mp hmem with rfl | hmem
    · subst hscope
      obtain rfl : entry = entry' := Option.some.inj (he.symm.trans he')
      exact hepoch
    · exact hs.current task' hmem hscope
  armed := h.armed
  absent s hnone := by
    refine ⟨(h.absent s hnone).1, fun task' hmem hscope => ?_⟩
    rcases List.mem_cons.mp hmem with rfl | hmem
    · subst hscope
      exact absurd (he.symm.trans hnone) (by simp)
    · exact (h.absent s hnone).2 task' hmem hscope

theorem kept_startDispatch (ih : Keeps env fuel) (h : Kept (some scope) w)
    (hp : Picked w.state scope entry) :
    wp env (startDispatch (fuel + 1) scope entry) (fun _ => Kept none) (fun _ _ => True) w := by
  unfold startDispatch
  cases hsig : entry.signature with
  | none =>
    have hd := hp.dirty
    simp [Entry.dirty, hsig] at hd
  | some signature =>
    simp only [wp_bind, wp_modify, wp_get, World.put_state]
    refine wp_request_bind.mpr ?_
    generalize env (w.put (w.state.launch ⟨scope, signature, entry.revision, entry.epoch⟩)).log
      (.dispatch ⟨scope, signature, entry.revision, entry.epoch⟩
        (w.state.launch ⟨scope, signature, entry.revision, entry.epoch⟩)) = threw
    have hlaunched := h.launched hp hsig threw
    have hscope : (w.state.launch ⟨scope, signature, entry.revision, entry.epoch⟩).entries scope =
        some { entry with
          queued := false
          inFlight := true
          inFlightSignature := some signature
          inFlightEpoch := entry.epoch } := by
      refine (if_pos rfl).trans ?_
      rw [hp.entry_eq]
      rfl
    split
    · exact ih.finishDispatch _ _ _ hlaunched ⟨_, hscope, rfl, fun _ => .inl hp.touched⟩
    · exact hlaunched.promised hscope rfl

theorem keeps (env : Env (coordinatorInterface Scope Sig)) (fuel : Nat) : Keeps env fuel := by
  induction fuel with
  | zero =>
    exact ⟨fun _ _ _ _ => trivial, fun _ _ _ _ => trivial, fun _ _ _ => trivial,
      fun _ _ _ _ _ => trivial, fun _ _ _ _ _ => trivial, fun _ _ => trivial⟩
  | succ fuel ih =>
    exact ⟨fun _ _ h hh => kept_enqueue ih h hh, fun _ _ h hh => kept_arm ih h hh,
      fun _ _ h => kept_nextEligibleEntry ih h, fun _ _ _ h he => kept_finishDispatch ih h he,
      fun _ _ _ h hp => kept_startDispatch ih h hp, fun _ h => kept_drain ih h⟩

/-! ## What each operation keeps -/

theorem Kept.register (h : Kept none w) (hactive : w.state.disposed = false) (scope : Scope) :
    Kept none (w.put (w.state.register scope)) := by
  have hfound : ∀ s entry, (w.state.register scope).entries s = some entry →
      w.state.entries s = some entry ∨ w.state.entries s = none ∧ entry = .new := by
    intro s entry he
    rw [Coordinator.register_entries] at he
    split at he
    · cases hentry : w.state.entries s with
      | none =>
        rw [hentry] at he
        exact .inr ⟨rfl, (Option.some.inj he).symm⟩
      | some entry' =>
        rw [hentry] at he
        exact .inl he
    · exact .inl he
  refine ⟨fun s entry he => ?_, fun s entry he _ => ?_, fun s hnone => h.absent s ?_⟩
  · rcases hfound s entry he with he | ⟨hnone, rfl⟩
    · exact (h.sound s entry he).congr rfl rfl rfl
    · obtain ⟨hlog, hpromises⟩ := h.absent s hnone
      refine ⟨fun hp => by simp [Entry.new] at hp, hlog, fun task hmem hscope => ?_, Nat.le_refl _,
        fun hd => ?_⟩
      · exact absurd hscope (hpromises task hmem)
      · exact absurd (hactive.symm.trans hd) (by simp)
  · rcases hfound s entry he with he | ⟨_, rfl⟩
    · exact h.armed s entry he (by simp)
    · exact .of_clean rfl
  · rw [World.put_state, Coordinator.register_entries] at hnone
    split at hnone
    · cases hnone
    · exact hnone

omit [DecidableEq Sig] in
theorem Coordinator.register_ne_none {c : Coordinator Scope Sig} :
    (c.register scope).entries scope ≠ none := by
  rw [Coordinator.register_entries, if_pos rfl]
  exact Option.some_ne_none _

/-- No dispatch of the scope is in flight where its baseline is given. -/
def Op.Apart (c : Coordinator Scope Sig) : Op Scope Sig → Prop
  | .hydrate scope _ => ∀ task ∈ c.promises, task.scope ≠ scope
  | .replaceBaseline scope _ => ∀ task ∈ c.promises, task.scope ≠ scope
  | _ => True

/-- Where a baseline is given or a dispatch ends, a scope that is not cancelled has its touch time,
or its value is the baseline it is left with. -/
def Op.Recoverable (c : Coordinator Scope Sig) : Op Scope Sig → Prop
  | .replaceBaseline scope signature => ∀ entry, c.entries scope = some entry →
      entry.cancelled = false → entry.lastTouchedAt.isSome = true ∨
        entry.signature = none ∨ entry.signature = some signature
  | .complete task succeeded => ∀ entry, c.entries task.scope = some entry →
      entry.cancelled = false → entry.lastTouchedAt.isSome = true ∨
        entry.signature = if succeeded then some task.signature else entry.baselineSignature
  | _ => True

theorem kept_hydrate (h : Kept none w) (hactive : w.state.disposed = false) {signature : Sig}
    (ha : ∀ task ∈ w.state.promises, task.scope ≠ scope) :
    wp env (hydrate scope signature) (fun _ => Kept none) (fun _ _ => True) w := by
  simp only [hydrate, note, wp_bind, wp_modify, wp_tell]
  have hreg := (h.register hactive scope).take scope
  have hpromises : ((w.state.register scope).clearPending scope).promises = w.state.promises :=
    Coordinator.clearPending_promises
  have hdisposed : ((w.state.register scope).clearPending scope).disposed = w.state.disposed :=
    Coordinator.clearPending_disposed
  refine hreg.told (fun s hne => ?_) (fun _ => Coordinator.clearPending_setEntry_entries) hpromises
    hdisposed (fun hnone => ?_) fun entry he hs => ⟨⟨?_, ?_, ?_, ?_, ?_⟩, .of_clean ?_⟩
  · exact confirmed_append.trans (by simp [confirmedOf, Ne.symm hne])
  · exact absurd hnone Coordinator.register_ne_none
  · exact fun hp => by simp at hp
  · exact confirmed_append.trans (by simp [confirmedOf])
  · intro task hmem hscope
    exact absurd hscope (ha task (hpromises ▸ hmem))
  · exact Nat.le_succ_of_le hs.flight
  · intro hd
    exact absurd (hactive.symm.trans (hdisposed.symm.trans hd)) (by simp)
  · have hold : entry.inFlightEpoch ≠ entry.epoch + 1 := Nat.ne_of_lt (Nat.lt_succ_of_le hs.flight)
    simp [Entry.dirty, Entry.effectiveBaseline, hold]

theorem Kept.handed (h : Kept none w) (scope : Scope) : Handed w.state scope :=
  fun entry he => (h.sound scope entry he).rearmable (h.armed scope entry he (by simp))

theorem kept_replaceBaseline (h : Kept none w) (hactive : w.state.disposed = false)
    {signature : Sig} (ha : ∀ task ∈ w.state.promises, task.scope ≠ scope)
    (hr : (Op.replaceBaseline scope signature : Op Scope Sig).Recoverable w.state) :
    wp env (replaceBaseline fuel scope signature) (fun _ => Kept none) (fun _ _ => True) w := by
  simp only [replaceBaseline, note, wp_bind, wp_modify, wp_tell, wp_get]
  have hreg := (h.register hactive scope).take scope
  generalize hf : (fun entry : Entry Sig =>
    let entry := { entry with epoch := entry.epoch + 1, baselineSignature := some signature }
    if entry.signature.isNone then
      { entry with signature := some signature, revision := entry.revision + 1 }
    else entry) = f
  have hset : Kept (some scope) ((w.put ((w.state.register scope).setEntry scope f)).push
      (.told (.replaced scope signature))) := by
    refine hreg.change (fun s hne => ?_) (fun _ => rfl) rfl rfl (fun hnone => ?_) fun entry he hs => ?_
    · exact confirmed_append.trans (by simp [confirmedOf, Ne.symm hne])
    · exact absurd hnone Coordinator.register_ne_none
    · have hbase : confirmed (w.log ++ [.told (.replaced scope signature)]) scope = some signature :=
        confirmed_append.trans (by simp [confirmedOf])
      have hcurrent : ∀ task ∈ w.state.promises, task.scope = scope → task.epoch = entry.epoch + 1 :=
        fun task hmem hscope => absurd hscope (ha task hmem)
      subst hf
      dsimp only
      split
      · exact ⟨hs.pending, hbase, hcurrent, Nat.le_succ_of_le hs.flight, hs.disposed⟩
      · exact ⟨hs.pending, hbase, hcurrent, Nat.le_succ_of_le hs.flight, hs.disposed⟩
  split
  · rename_i hclean
    rw [wp_modify]
    refine hset.cleared fun entry he hs => ⟨⟨?_, hs.baseline, hs.current, hs.flight, hs.disposed⟩, ?_⟩
    · exact fun hp => by simp at hp
    · have hclean :
          (((w.state.register scope).setEntry scope f).entries scope).any (·.dirty) = false := by
        simpa [Coordinator.dirty] using hclean
      rw [show ((w.state.register scope).setEntry scope f).entries scope = some entry from he] at hclean
      exact .of_clean hclean
  · refine (keeps env fuel).arm scope _ hset fun entry' he' hc hd => ?_
    have hflight := (hset.sound scope entry' he').flight
    cases he : w.state.entries scope with
    | none =>
      -- a new scope's value is its baseline
      rw [World.push_state, World.put_state, Coordinator.setEntry_entries,
        Coordinator.register_entries, if_pos rfl, if_pos rfl, he, ← hf] at he'
      obtain rfl := Option.some.inj he'
      simp [Entry.new, Entry.dirty, Entry.effectiveBaseline] at hd
    | some entry =>
      rw [World.push_state, World.put_state, Coordinator.setEntry_entries,
        Coordinator.register_entries, if_pos rfl, if_pos rfl, he, ← hf] at he'
      obtain rfl := Option.some.inj he'
      have hold := Nat.ne_of_lt (Nat.lt_succ_of_le (h.sound scope entry he).flight)
      cases hsig : entry.signature with
      | none => simp [Entry.dirty, Entry.effectiveBaseline, hsig, hold] at hd
      | some value =>
        simp [Entry.dirty, Entry.effectiveBaseline, hsig, hold] at hd
        simp [hsig] at hc ⊢
        rcases hr entry he hc with htouched | hnone | hsame
        · exact htouched
        · rw [hsig] at hnone
          cases hnone
        · exact absurd (Option.some.inj (hsig.symm.trans hsame)) hd

theorem kept_update (h : Kept none w) (hactive : w.state.disposed = false) {signature : Sig} :
    wp env (update fuel scope signature) (fun _ => Kept none) (fun _ _ => True) w := by
  simp only [update, note, wp_bind, wp_modify, wp_get]
  have hreg := h.register hactive scope
  have htold : Kept none ((w.put (w.state.register scope)).push
      (.told (.updated scope signature))) :=
    hreg.beside (fun _ => confirmed_append) rfl rfl rfl
  cases he : (w.state.register scope).entries scope with
  | none =>
    rw [World.put_state, he]
    exact hreg
  | some entry =>
    rw [World.put_state, he]
    dsimp only
    split
    · exact hreg
    · rw [wp_bind, wp_tell]
      split
      · exact htold
      · simp only [wp_bind, wp_modify, wp_time]
        have hrevised : Kept (some scope) (((w.put (w.state.register scope)).push
            (.told (.updated scope signature))).put
              ((w.state.register scope).revise scope signature)) := by
          refine (htold.take scope).changed
            (fun _ => Coordinator.clearPending_setEntry_entries) Coordinator.clearPending_promises
            Coordinator.clearPending_disposed fun entry' _ hs => ?_
          exact ⟨fun hp => by simp at hp, hs.baseline, hs.current, hs.flight, hs.disposed⟩
        have hdisposed : ((w.state.register scope).revise scope signature).disposed = false :=
          Coordinator.clearPending_disposed.trans hactive
        refine (keeps env fuel).arm scope _ ((kept_tick hrevised _).changed (fun _ => rfl) rfl rfl
          fun entry' _ hs => ?_) fun entry' he' _ _ => ?_
        · refine ⟨fun _ => rfl, hs.baseline, hs.current, hs.flight, fun hd => ?_⟩
          exact absurd (hdisposed.symm.trans hd) (by simp)
        · rw [World.put_state, Coordinator.touch, Coordinator.setEntry_entries, if_pos rfl] at he'
          obtain ⟨_, _, rfl⟩ := Option.map_eq_some_iff.mp he'
          rfl

theorem kept_armDrain (h : Kept none w) : wp env (do arm fuel scope; drain fuel)
    (fun _ => Kept none) (fun _ _ => True) w := by
  rw [wp_bind]
  exact wp_mono ((keeps env fuel).arm scope w (h.take scope) (h.handed scope))
    (fun _ w' h' => (keeps env fuel).drain w' h') fun _ _ h' => h'

theorem kept_setScopeBusy (h : Kept none w) (hactive : w.state.disposed = false) {busy : Bool} :
    wp env (setScopeBusy fuel scope busy) (fun _ => Kept none) (fun _ _ => True) w := by
  simp only [setScopeBusy, wp_bind, wp_modify]
  have hset : Kept none (w.put ((w.state.register scope).setEntry scope fun entry =>
      { entry with busy := busy })) := by
    have hreg := h.register hactive scope
    refine (hreg.take scope).filled (fun _ => rfl) rfl rfl fun entry he hs => ?_
    exact ⟨⟨hs.pending, hs.baseline, hs.current, hs.flight, hs.disposed⟩,
      hreg.armed scope entry he (by simp)⟩
  cases busy with
  | true => exact hset
  | false => exact kept_armDrain hset

theorem kept_setScopeBlocked (h : Kept none w) (hactive : w.state.disposed = false)
    {blocked : Bool} :
    wp env (setScopeBlocked fuel scope blocked) (fun _ => Kept none) (fun _ _ => True) w := by
  simp only [setScopeBlocked, wp_bind, wp_modify]
  have hset : Kept none (w.put ((w.state.register scope).setEntry scope fun entry =>
      { entry with blocked := blocked })) := by
    have hreg := h.register hactive scope
    refine (hreg.take scope).filled (fun _ => rfl) rfl rfl fun entry he hs => ?_
    exact ⟨⟨hs.pending, hs.baseline, hs.current, hs.flight, hs.disposed⟩,
      hreg.armed scope entry he (by simp)⟩
  cases blocked with
  | true => exact hset
  | false => exact kept_armDrain hset

theorem kept_setGlobalBusy (h : Kept none w) {busy : Bool} :
    wp env (setGlobalBusy fuel busy) (fun _ => Kept none) (fun _ _ => True) w := by
  simp only [setGlobalBusy, wp_bind, wp_modify]
  have hset : Kept none (w.put { w.state with globalBusy := busy }) :=
    h.beside (fun _ => rfl) rfl rfl rfl
  cases busy with
  | true => exact hset
  | false => exact (keeps env fuel).drain _ hset

/-- Every entry cancelled, with nothing pending. -/
theorem Kept.cancelled (h : Kept none w) {c' : Coordinator Scope Sig} {f : Entry Sig → Entry Sig}
    (hentries : ∀ s, c'.entries s = (w.state.entries s).map f)
    (hpromises : c'.promises = w.state.promises)
    (hf : ∀ entry, (f entry).timer = none ∧ (f entry).queued = false ∧
      (f entry).cancelled = true ∧ (f entry).baselineSignature = entry.baselineSignature ∧
      (f entry).epoch = entry.epoch ∧ (f entry).inFlightEpoch = entry.inFlightEpoch) :
    Kept none (w.put c') := by
  refine ⟨fun s entry' he => ?_, fun s entry' he _ => ?_, fun s hnone => ?_⟩
  · rw [World.put_state, hentries] at he
    obtain ⟨entry, hentry, rfl⟩ := Option.map_eq_some_iff.mp he
    obtain ⟨htimer, hqueued, hc, hbase, hepoch, hflight⟩ := hf entry
    have hs := h.sound s entry hentry
    refine ⟨fun hp => by simp [htimer, hqueued] at hp, hs.baseline.trans hbase.symm, ?_, ?_,
      fun _ => hc⟩
    · rw [World.put_state, hpromises, hepoch]
      exact hs.current
    · rw [hepoch, hflight]
      exact hs.flight
  · rw [World.put_state, hentries] at he
    obtain ⟨entry, _, rfl⟩ := Option.map_eq_some_iff.mp he
    exact .of_cancelled (hf entry).2.2.1
  · rw [World.put_state, hentries] at hnone
    rw [World.put_state, hpromises]
    exact h.absent s (Option.map_eq_none_iff.mp hnone)

theorem kept_fire (h : Kept none w) :
    wp env (fire fuel scope) (fun _ => Kept none) (fun _ _ => True) w := by
  simp only [fire, wp_bind, wp_get]
  split
  · rename_i htimer
    have hset : Kept (some scope) (w.put (w.state.setEntry scope fun entry =>
        { entry with timer := none })) := by
      refine (h.take scope).changed (fun _ => rfl) rfl rfl fun entry _ hs => ?_
      exact ⟨fun hp => hs.pending (hp.imp (by simp) id), hs.baseline, hs.current, hs.flight,
        hs.disposed⟩
    have hentry : ∀ entry', (w.state.setEntry scope fun entry =>
        { entry with timer := none }).entries scope = some entry' →
        ∃ entry, w.state.entries scope = some entry ∧ entry' = { entry with timer := none } := by
      intro entry' he'
      rw [Coordinator.setEntry_entries, if_pos rfl] at he'
      obtain ⟨entry, he, rfl⟩ := Option.map_eq_some_iff.mp he'
      exact ⟨entry, he, rfl⟩
    simp only [wp_bind, wp_modify]
    split
    · rename_i hdisposed
      refine hset.lay fun entry' he' => .of_cancelled ?_
      exact (hset.sound scope entry' he').disposed hdisposed
    · refine (keeps env fuel).enqueue scope _ hset fun entry' he' _ _ => ?_
      obtain ⟨entry, he, rfl⟩ := hentry entry' he'
      rw [he] at htimer
      exact (h.sound scope entry he).pending (.inl htimer)
  · exact h

theorem kept_complete (h : Kept none w) {task : Task Scope Sig} {succeeded : Bool}
    (hr : (Op.complete task succeeded : Op Scope Sig).Recoverable w.state) :
    wp env (complete fuel task succeeded) (fun _ => Kept none) (fun _ _ => True) w := by
  simp only [complete, wp_bind, wp_get]
  split
  · rename_i hmem
    simp only [wp_bind, wp_modify]
    have herased : Kept none (w.put { w.state with promises := w.state.promises.erase task }) := by
      refine ⟨fun s entry he => ?_, h.armed, fun s hnone => ?_⟩
      · have hs := h.sound s entry he
        exact ⟨hs.pending, hs.baseline, fun t ht => hs.current t (List.mem_of_mem_erase ht),
          hs.flight, hs.disposed⟩
      · obtain ⟨hlog, hpromises⟩ := h.absent s hnone
        exact ⟨hlog, fun t ht => hpromises t (List.mem_of_mem_erase ht)⟩
    refine (keeps env fuel).finishDispatch task succeeded _ herased ?_
    cases he : w.state.entries task.scope with
    | none => exact absurd rfl ((h.absent task.scope he).2 task hmem)
    | some entry =>
      exact ⟨entry, he, (h.sound task.scope entry he).current task hmem rfl, hr entry he⟩
  · exact h

/-- Every operation that leaves its scope recoverable keeps every scope armed. -/
theorem kept_perform (op : Op Scope Sig) (h : Kept none w)
    (ho : op.Apart w.state ∧ op.Recoverable w.state) :
    wp env (perform fuel op) (fun _ => Kept none) (fun _ _ => True) w := by
  obtain ⟨ha, hr⟩ := ho
  cases op with
  | hydrate scope signature => exact wp_whileActive h fun hactive => kept_hydrate h hactive ha
  | replaceBaseline scope signature =>
    exact wp_whileActive h fun hactive => kept_replaceBaseline h hactive ha hr
  | update scope signature => exact wp_whileActive h fun hactive => kept_update h hactive
  | setScopeBusy scope busy => exact wp_whileActive h fun hactive => kept_setScopeBusy h hactive
  | setScopeBlocked scope blocked =>
    exact wp_whileActive h fun hactive => kept_setScopeBlocked h hactive
  | setGlobalBusy busy => exact wp_whileActive h fun _ => kept_setGlobalBusy h
  | cancel scope =>
    refine wp_whileActive h fun hactive => (h.take scope).cleared fun entry _ hs => ?_
    exact ⟨⟨hs.pending, hs.baseline, hs.current, hs.flight, fun _ => rfl⟩, .of_cancelled rfl⟩
  | cancelAll =>
    exact wp_whileActive h fun _ =>
      h.cancelled (fun _ => rfl) rfl fun _ => ⟨rfl, rfl, rfl, rfl, rfl, rfl⟩
  | dispose =>
    exact wp_whileActive h fun _ =>
      h.cancelled (fun _ => rfl) rfl fun _ => ⟨rfl, rfl, rfl, rfl, rfl, rfl⟩
  | fire scope => exact kept_fire h
  | complete task succeeded => exact kept_complete h hr

omit [DecidableEq Scope] in
theorem Op.recoverable_complete {c : Coordinator Scope Sig} {task : Task Scope Sig}
    {succeeded : Bool} (h : (c.entries task.scope).all (fun entry => entry.lastTouchedAt.isSome ||
      decide (entry.signature = if succeeded then some task.signature else entry.baselineSignature))) :
    (Op.complete task succeeded : Op Scope Sig).Recoverable c := by
  intro entry he _
  rw [he] at h
  exact (Bool.or_eq_true_iff.mp h).imp id of_decide_eq_true

theorem kept_new (delayMs : Nat) : Kept none ⟨[], (.new delayMs : Coordinator Scope Sig)⟩ :=
  ⟨fun _ _ he => (by cases he), fun _ _ he => (by cases he), fun _ _ => ⟨rfl, fun _ h => by cases h⟩⟩

/-- Nothing is under way for a scope that nothing holds back. -/
structure Idle (c : Coordinator Scope Sig) (entry : Entry Sig) : Prop where
  pending : entry.timer = none ∧ entry.queued = false ∧ entry.inFlight = false
  free : entry.blocked = false ∧ entry.busy = false ∧ entry.cancelled = false
  idle : c.globalBusy = false

/-- Every idle scope's value is on the other side. -/
def Unstranded (w : CoordinatorWorld Scope Sig) : Prop :=
  ∀ scope entry value, w.state.entries scope = some entry → Idle w.state entry →
    entry.signature = some value → confirmed w.log scope = some value

theorem Kept.unstranded (h : Kept none w) : Unstranded w := by
  intro scope entry value he hidle hvalue
  obtain ⟨htimer, hqueued, hflight⟩ := hidle.pending
  have harmed := h.armed scope entry he (by simp) hidle.free.2.2
  rw [htimer, hqueued] at harmed
  have hclean : entry.dirty = false := by
    cases hd : entry.dirty
    · rfl
    · simpa using harmed hd
  rw [(h.sound scope entry he).baseline]
  unfold Entry.dirty Entry.effectiveBaseline at hclean
  rw [hflight, hvalue] at hclean
  simp at hclean
  exact hclean.symm

/-- In every run that gives a scope its baseline only between its dispatches, and leaves it
recoverable there, no edit is left behind. -/
theorem performed_unstranded (fuel delayMs : Nat) (ops : List (Op Scope Sig))
    (h : EachMet env (perform fuel)
      (fun op w => op.Apart w.state ∧ op.Recoverable w.state) ops ⟨[], .new delayMs⟩)
    (hrun : (performed env fuel delayMs ops).1 = .ok ()) :
    Unstranded (performed env fuel delayMs ops).2 := by
  have hkept : wp env (ops.forM (perform fuel)) (fun _ => Kept none) (fun _ _ => True)
      ⟨[], .new delayMs⟩ := wp_forM_met (kept_new delayMs) (fun op w h => kept_perform op h) h
  exact (wp_of_eq_ok hkept (Prod.ext hrun rfl)).unstranded

end Steps

/-! While a value is in flight, the scope is edited and changed back to it. That looks clean, so the
touch time goes; the dispatch fails, and unblocking the scope finds nothing to arm. -/

namespace RevertedEdit

/-- The debounce passes with every reading of the clock, and no dispatch throws. -/
def env : Env (coordinatorInterface Bool Nat)
  | _, .now => (1300 : Nat)
  | _, .dispatch _ _ => false

def sent : Task Bool Nat := ⟨true, 1, 2, 1⟩

def ops : List (Op Bool Nat) :=
  [.hydrate true 0, .update true 1, .update true 2, .update true 1, .complete sent false,
    .setScopeBlocked true false]

theorem ok_of_isOk {r : Except OutOfFuel Unit} (h : r.isOk = true) : r = .ok () := by
  cases r with
  | ok _ => rfl
  | error _ => cases h

theorem not_unstranded :
    EachMet env (perform 9) (fun op w => op.Apart w.state) ops ⟨[], .new 1300⟩ ∧
      (performed env 9 1300 ops).1 = .ok () ∧ ¬ Unstranded (performed env 9 1300 ops).2 := by
  refine ⟨?_, ok_of_isOk (by decide +kernel), fun h => ?_⟩
  · refine .cons (fun _ hmem => (by cases hmem)) ?_
    exact .cons trivial (.cons trivial (.cons trivial (.cons trivial (.cons trivial trivial))))
  · have hentry : (performed env 9 1300 ops).2.state.entries true = some
        ⟨some 0, some 1, 4, 1, none, 0, none, false, false, false, false, false, none, 0⟩ := by
      decide +kernel
    have hbusy : (performed env 9 1300 ops).2.state.globalBusy = false := by decide +kernel
    have hconfirmed : confirmed (performed env 9 1300 ops).2.log true = some 0 := by decide +kernel
    have hlost := h true _ 1 hentry ⟨⟨rfl, rfl, rfl⟩, ⟨rfl, rfl, rfl⟩, hbusy⟩ rfl
    rw [hconfirmed] at hlost
    cases hlost

/-- The edit is not changed back: the dispatch fails, and the edit is sent again. -/
def kept : List (Op Bool Nat) :=
  [.hydrate true 0, .update true 1, .update true 2, .complete sent false,
    .setScopeBlocked true false, .complete ⟨true, 2, 3, 1⟩ true]

theorem unstranded_kept : Unstranded (performed env 9 1300 kept).2 := by
  refine performed_unstranded 9 1300 kept ?_ (ok_of_isOk (by decide +kernel))
  refine .cons ⟨(fun _ hmem => by cases hmem), trivial⟩ ?_
  refine .cons ⟨trivial, trivial⟩ (.cons ⟨trivial, trivial⟩ (.cons ⟨trivial, ?_⟩ ?_))
  · exact Op.recoverable_complete (by decide +kernel)
  · refine .cons ⟨trivial, trivial⟩ (.cons ⟨trivial, ?_⟩ trivial)
    exact Op.recoverable_complete (by decide +kernel)

end RevertedEdit

end Autosave
end DriveSync
