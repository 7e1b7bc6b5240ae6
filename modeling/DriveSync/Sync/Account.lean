import DriveSync.Sync.Uploads

/-!
# DriveSync.Sync.Account

What a run accounts for. `Handles items p` says that `p` settles each write of `items` in the
breaker, once, and reports a story of each task of `items`, and nothing else; that every answer of
success is reported; and that a task whose part of the run succeeds is `Done`. When `p` fails it may
have settled fewer.

The rules of `Graded` put it together for a whole phase from the items of its parts.
-/

namespace DriveSync

open Path Prog

/-- What is accounted for: a write of the breaker, or what the events are about. -/
inductive Item where
  | write (w : Write)
  | task (t : Task)

namespace Item

def write? : Item → Option Write
  | .write w => some w
  | .task _ => none

def task? : Item → Option Task
  | .write _ => none
  | .task t => some t

end Item

section Run

variable [Unicode] {α : Type} {w w' w₁ w₂ w₃ : World runInterface Run}
  {new new' : List RunEntry} {settled settled' : List (Write × Settlement)}
  {stories stories' : List Story} {items items' : List Item} {env : Env runInterface}

/-- A deferral covers a path. -/
def Covered (w : World runInterface Run) (relative : RelPath) : Prop :=
  (w.state.deferrals.covering relative).isSome = true

/-- What holds of a task once its part of the run succeeded with these events. The workers leave
uploads undone when the token is cancelled, and report nothing. -/
def Task.Done (w : World runInterface Run) : Task → List ExecutionEvent → Prop
  | .create a, _ => .asked (.createFolder a.remotePath) (.ok ()) ∈ w.log ∨ Covered w a.relative
  | .copy a, _ => .asked (.copyFileVerified a) (.ok ()) ∈ w.log ∨
      .asked (.upload a.entry a.toRemotePath) (.ok ()) ∈ w.log ∨ Covered w a.toRelative
  | .upload a, _ => .asked (.upload a.entry a.remotePath) (.ok ()) ∈ w.log ∨
      Covered w a.entry.relative ∨ w.state.cancelled = true
  | .preDelete a, events => events ≠ [] ∨ Covered w a.relative
  | .postDelete a, events => events ≠ [] ∨ a.relative ∈ w.state.deferrals.exact
  | .rename a, events => events ≠ [] ∨ a.relative ∈ w.state.deferrals.exact
  | .source _, _ => True
  | .followUp _, _ => True

/-- A part of a run from `w` to `w'`: what it put on the log, what it settled, and its stories. -/
structure Accounts (w w' : World runInterface Run) (new : List RunEntry)
    (settled : List (Write × Settlement)) (stories : List Story) : Prop where
  adds : Adds w w' new
  settled_eq : w'.state.settled = w.state.settled ++ settled
  breaker_eq : w'.state.breaker = w.state.breaker.after (settled.map (·.2))
  opened_eq : w'.state.opened = w.state.opened
  sticky : w.state.cancelled = true → w'.state.cancelled = true
  balanced : Balanced new
  told : (events new).Perm (stories.flatMap (·.events))

/-- What a part that fails accounts for: no write twice. -/
def Begins (items : List Item) (w w' : World runInterface Run) : Prop :=
  ∃ new settled stories, Accounts w w' new settled stories ∧
    (∀ write, (settled.map (·.1)).count write ≤ (items.filterMap Item.write?).count write) ∧
    (stories.map (·.task)).Perm (items.filterMap Item.task?)

/-- What a part that succeeds accounts for: every item, unless the token was cancelled. -/
def Finishes (items : List Item) (w w' : World runInterface Run) : Prop :=
  ∃ new settled stories, Accounts w w' new settled stories ∧
    (∀ write, (settled.map (·.1)).count write ≤ (items.filterMap Item.write?).count write) ∧
    (stories.map (·.task)).Perm (items.filterMap Item.task?) ∧
    (w'.state.cancelled = true ∨ (settled.map (·.1)).Perm (items.filterMap Item.write?)) ∧
    ∀ story ∈ stories, story.task.Done w' story.events

abbrev Handles (items : List Item) (p : Exec α) : Prop := Spends Finishes Begins items p

theorem Accounts.refl (w : World runInterface Run) : Accounts w w [] [] [] :=
  ⟨.refl w, by simp, rfl, rfl, id, .nil, .nil⟩

theorem Accounts.trans (h : Accounts w₁ w₂ new settled stories)
    (h' : Accounts w₂ w₃ new' settled' stories') :
    Accounts w₁ w₃ (new ++ new') (settled ++ settled') (stories ++ stories') where
  adds := h.adds.trans h'.adds
  settled_eq := by rw [h'.settled_eq, h.settled_eq, List.append_assoc]
  breaker_eq := by rw [h'.breaker_eq, h.breaker_eq, List.map_append, RefusalBreaker.after_append]
  opened_eq := h'.opened_eq.trans h.opened_eq
  sticky hc := h'.sticky (h.sticky hc)
  balanced := h.balanced.append h'.balanced
  told := by
    unfold events
    rw [List.filterMap_append, List.flatMap_append]
    exact h.told.append h'.told

theorem Adds.covered (h : Adds w w' new) {relative : RelPath} (hc : Covered w relative) :
    Covered w' relative := by
  obtain ⟨f, hf, hrel⟩ := DeferralIndex.covering_isSome.mp hc
  exact DeferralIndex.covering_isSome.mpr ⟨f, (h.deferrals f).mpr (.inl hf), hrel⟩

theorem covered_of_mem {relative : RelPath} (h : relative ∈ w.state.deferrals.exact) :
    Covered w relative := DeferralIndex.covering_isSome.mpr ⟨relative, h, .inl rfl⟩

/-- What is done stays done. -/
theorem Task.Done.kept {task : Task} {evs : List ExecutionEvent} (hd : task.Done w evs)
    (h : Adds w w' new) (hc : w.state.cancelled = true → w'.state.cancelled = true) :
    task.Done w' evs := by
  have hlog : ∀ e ∈ w.log, e ∈ w'.log := fun e he => h.log ▸ List.mem_append_left _ he
  have hexact : ∀ p ∈ w.state.deferrals.exact, p ∈ w'.state.deferrals.exact :=
    fun p hp => (h.deferrals p).mpr (.inl hp)
  cases task with
  | create a => exact hd.imp (hlog _) h.covered
  | copy a => exact hd.imp (hlog _) (Or.imp (hlog _) h.covered)
  | upload a => exact hd.imp (hlog _) (Or.imp h.covered hc)
  | preDelete a => exact hd.imp id h.covered
  | postDelete a => exact hd.imp id (hexact _)
  | rename a => exact hd.imp id (hexact _)
  | source relative => trivial
  | followUp relative => trivial

/-- A task whose path is deferred is done with. -/
theorem Task.done_of_deferred {task : Task} {evs : List ExecutionEvent}
    (h : task.relative ∈ w.state.deferrals.exact) : task.Done w evs := by
  cases task with
  | create a => exact .inr (covered_of_mem h)
  | copy a => exact .inr (.inr (covered_of_mem h))
  | upload a => exact .inr (.inl (covered_of_mem h))
  | preDelete a => exact .inr (covered_of_mem h)
  | postDelete a => exact .inr h
  | rename a => exact .inr h
  | source relative => trivial
  | followUp relative => trivial

instance : Graded (I := runInterface) (σ := Run) Finishes Begins where
  refl w := ⟨[], [], [], .refl w, by simp, .nil, .inr .nil, by simp⟩
  fails := by
    rintro l w w' ⟨new, settled, stories, h, hle, htasks, _, _⟩
    exact ⟨new, settled, stories, h, hle, htasks⟩
  trans := by
    rintro l l' w₁ w₂ w₃ ⟨new, settled, stories, h, hle, htasks, hall, hdone⟩
      ⟨new', settled', stories', h', hle', htasks', hall', hdone'⟩
    refine ⟨_, _, _, h.trans h', fun write => ?_, ?_, ?_, fun story hstory => ?_⟩
    · have := hle write
      have := hle' write
      simp only [List.map_append, List.filterMap_append, List.count_append]
      omega
    · rw [List.map_append, List.filterMap_append]
      exact htasks.append htasks'
    · rw [List.map_append, List.filterMap_append]
      rcases hall with hc | hall
      · exact .inl (h'.sticky hc)
      · exact hall'.imp id hall.append
    · rcases List.mem_append.mp hstory with hstory | hstory
      · exact (hdone story hstory).kept h'.adds h'.sticky
      · exact hdone' story hstory
  after := by
    rintro l l' w₁ w₂ w₃ ⟨new, settled, stories, h, hle, htasks, _, _⟩
      ⟨new', settled', stories', h', hle', htasks'⟩
    refine ⟨_, _, _, h.trans h', fun write => ?_, ?_⟩
    · have := hle write
      have := hle' write
      simp only [List.map_append, List.filterMap_append, List.count_append]
      omega
    · rw [List.map_append, List.filterMap_append]
      exact htasks.append htasks'
  pad := by
    rintro l w w' l' ⟨new, settled, stories, h, hle, htasks⟩
    refine ⟨new, settled, stories ++ (l'.filterMap Item.task?).map .silent,
      { h with told := ?_ }, fun write => ?_, ?_⟩
    · rw [List.flatMap_append, flatMap_silent, List.append_nil]
      exact h.told
    · have := hle write
      simp only [List.filterMap_append, List.count_append]
      omega
    · rw [List.map_append, List.filterMap_append, map_task_silent]
      exact htasks.append_right _

theorem Accounts.finishes (h : Accounts w w' new settled stories)
    (hall : (settled.map (·.1)).Perm (items.filterMap Item.write?))
    (htasks : (stories.map (·.task)).Perm (items.filterMap Item.task?))
    (hdone : ∀ story ∈ stories, story.task.Done w' story.events) : Finishes items w w' :=
  ⟨new, settled, stories, h, fun write => Nat.le_of_eq (hall.count_eq write), htasks, .inr hall,
    hdone⟩

/-- The order of the items does not matter. -/
theorem Finishes.perm (h : Finishes items w w') (hp : items.Perm items') :
    Finishes items' w w' := by
  obtain ⟨new, settled, stories, h, hle, htasks, hall, hdone⟩ := h
  have hwrites := hp.filterMap Item.write?
  refine ⟨new, settled, stories, h, fun write => ?_, htasks.trans (hp.filterMap _),
    hall.imp id fun hall => hall.trans hwrites, hdone⟩
  rw [← hwrites.count_eq]
  exact hle write

theorem Begins.perm (h : Begins items w w') (hp : items.Perm items') : Begins items' w w' := by
  obtain ⟨new, settled, stories, h, hle, htasks⟩ := h
  refine ⟨new, settled, stories, h, fun write => ?_, htasks.trans (hp.filterMap _)⟩
  rw [← (hp.filterMap Item.write?).count_eq]
  exact hle write

theorem Handles.perm {p : Exec α} (h : Handles items p) (hp : items.Perm items') :
    Handles items' p := fun env w =>
  wp_mono (h env w) (fun _ _ h => h.perm hp) fun _ _ h => h.perm hp

/-- Tasks that are done with as they stand have the empty story. -/
theorem Finishes.silent (h : Finishes items w w') {tasks : List Task}
    (hdone : ∀ task ∈ tasks, task.Done w []) : Finishes (items ++ tasks.map .task) w w' := by
  obtain ⟨new, settled, stories, h, hle, htasks, hall, hd⟩ := h
  have hwrites : (tasks.map Item.task).filterMap Item.write? = [] := by
    rw [List.filterMap_map]
    exact List.filterMap_eq_nil_iff.mpr fun _ _ => rfl
  have hall' : (tasks.map Item.task).filterMap Item.task? = tasks := by
    rw [List.filterMap_map]
    exact List.filterMap_some
  refine ⟨new, settled, stories ++ tasks.map .silent, { h with told := ?_ }, ?_, ?_, ?_, ?_⟩
  · rw [List.flatMap_append, flatMap_silent, List.append_nil]
    exact h.told
  · rwa [List.filterMap_append, hwrites, List.append_nil]
  · rw [List.map_append, List.filterMap_append, map_task_silent, hall']
    exact htasks.append_right _
  · rwa [List.filterMap_append, hwrites, List.append_nil]
  · intro story hstory
    rcases List.mem_append.mp hstory with hstory | hstory
    · exact hd story hstory
    · obtain ⟨task, htask, rfl⟩ := List.mem_map.mp hstory
      exact (hdone task htask).kept h.adds h.sticky

/-! ## The smallest parts -/

/-- What the breaker's ledger, the deferrals and the counters do not see. -/
theorem finishes_put {s : Run} (hd : s.deferrals = w.state.deferrals)
    (hsum : s.completed.summary = w.state.completed.summary)
    (hs : s.settled = w.state.settled) (hb : s.breaker = w.state.breaker)
    (ho : s.opened = w.state.opened) (hc : w.state.cancelled = true → s.cancelled = true) :
    Finishes [] w (w.put s) := by
  have h : Accounts w (w.put s) [] [] [] :=
    ⟨⟨by simp, by simp [hd], by simpa using hsum⟩, by simp [hs], hb, ho, hc, .nil, .nil⟩
  exact h.finishes .nil .nil (by simp)

/-- A call that did nothing to the NAS. -/
theorem accounts_asked {call : Call} {reply : call.Reply}
    (h : answered? (.asked call reply) = none) :
    Accounts w (w.push (.asked call reply)) [.asked call reply] [] [] :=
  ⟨adds_asked, by simp, rfl, rfl, id, by simp [Balanced, events, told?, h],
    by simp [events, told?]⟩

theorem finishes_asked {call : Call} {reply : call.Reply}
    (h : answered? (.asked call reply) = none) : Finishes [] w (w.push (.asked call reply)) :=
  (accounts_asked h).finishes .nil .nil (by simp)

/-- What follows a call, by its answer. -/
theorem handles_request {call : Call} {f : call.Reply → Exec α}
    (h : ∀ reply env w, wp env (f reply) (fun _ w' => Finishes items w w')
      (fun _ w' => Begins items w w') (w.push (.asked call reply))) :
    Handles items (request call >>= f) := fun env w => h _ env w

/-- An answer that did nothing to the NAS, and what follows it. -/
theorem handled {call : Call} {reply : call.Reply} {p : Exec α} (hp : Handles items p)
    (h : answered? (.asked call reply) = none) (env : Env runInterface) (w : World runInterface Run) :
    wp env p (fun _ w' => Finishes items w w') (fun _ w' => Begins items w w')
      (w.push (.asked call reply)) := by
  have hasked : Finishes [] w (w.push (.asked call reply)) := finishes_asked h
  exact wp_mono (hp env _) (fun _ _ h' => Graded.trans Begins hasked h')
    fun _ _ h' => Graded.after hasked h'

/-- A call that only reads, and what follows each answer. -/
theorem handles_read {call : Call} {f : call.Reply → Exec α} (hread : call.mutates = false)
    (h : ∀ reply, Handles items (f reply)) : Handles items (request call >>= f) := by
  refine handles_request fun reply => handled (h reply) ?_
  cases call <;> first | rfl | cases hread

/-- An event, behind the answer of success it reports if it reports one, with what is settled for
it. -/
theorem accounts_ended {entries : List RunEntry} {event : ExecutionEvent} {s : Run} {task : Task}
    (hends : task.Ends event) (hanswered : entries.filterMap answered? = event.work?.toList)
    (htold : ∀ e ∈ entries, told? e = none)
    (hd : s.deferrals = w.state.deferrals)
    (hsum : s.completed.summary = w.state.completed.summary.absorb event)
    (hs : s.settled = w.state.settled ++ settled)
    (hb : s.breaker = w.state.breaker.after (settled.map (·.2)))
    (ho : s.opened = w.state.opened) (hc : s.cancelled = w.state.cancelled) :
    Accounts w ⟨w.log ++ (entries ++ [.told event]), s⟩ (entries ++ [.told event]) settled
      [⟨task, [event], .ended hends⟩] := by
  have hevents : events entries = [] := List.filterMap_eq_nil_iff.mpr htold
  have hmem : ∀ p reason, .told (.pathDeferred p reason) ∉ entries ++ [.told event] := by
    intro p reason h
    rcases List.mem_append.mp h with h | h
    · cases htold _ h
    · obtain rfl := Entry.told.inj (List.mem_singleton.mp h)
      cases hends
  have hfold : ∀ summary : Summary, entries.foldl Summary.absorbEntry summary = summary := by
    clear hanswered hevents hmem
    induction entries with
    | nil => exact fun _ => rfl
    | cons e entries ih =>
      intro summary
      have htail := ih (fun e he => htold e (.tail _ he))
      cases e with
      | asked call reply => exact htail summary
      | told event => cases htold _ (.head _)
  refine ⟨⟨rfl, fun p => ?_, ?_⟩, hs, hb, ho, fun h => hc.trans h, ?_, ?_⟩
  · simp only [hd]
    exact ⟨.inl, fun h => h.resolve_right fun ⟨reason, h⟩ => hmem p reason h⟩
  · rw [List.foldl_append, hfold]
    exact hsum
  · unfold Balanced events at *
    rw [List.filterMap_append, List.filterMap_append, hevents, hanswered]
    cases h : event.work? <;> simp [told?, answered?, h]
  · unfold events at *
    rw [List.filterMap_append, hevents]
    simp [told?]

omit [Unicode] in
theorem settled_eq_nil (h : ∀ write, (settled.map (·.1)).count write ≤ ([] : List Write).count write) :
    settled = [] := by
  have hnone : settled.map (·.1) = [] := by
    refine List.eq_nil_iff_forall_not_mem.mpr fun write hmem => ?_
    have hcount := List.count_pos_iff.mpr hmem
    have hle : (settled.map (·.1)).count write ≤ 0 := h write
    omega
  exact List.map_eq_nil_iff.mp hnone

theorem Begins.finishes (h : Begins [] w w') : Finishes [] w w' := by
  obtain ⟨new, settled, stories, h, hsettled, htasks⟩ := h
  have hstories : stories = [] := List.map_eq_nil_iff.mp htasks.eq_nil
  have hnone : settled = [] := settled_eq_nil hsettled
  subst hstories
  exact h.finishes (by rw [hnone]; exact .nil) .nil (by simp)

/-- Going on from how a part ended that accounts for nothing. -/
theorem handles_attempt {p : Exec α} (h : Handles [] p) : Handles [] (attempt p) := by
  intro env w
  rw [wp_attempt]
  exact wp_mono (h env w) (fun _ _ h => h) fun _ _ h => h.finishes

theorem handles_lift {r : Except ExecError α} : Handles [] (lift r) := by
  cases r with
  | ok a => exact spends_pure
  | error e => exact spends_fail

theorem handles_isCancelled : Handles [] isCancelled := by
  refine handles_read rfl fun requested => ?_
  intro env w
  exact finishes_put rfl rfl rfl rfl rfl fun h =>
    (Bool.or_eq_true _ _).mpr (.inl h)

theorem handles_checkCancelled : Handles [] checkCancelled := by
  refine handles_isCancelled.then fun cancelled => ?_
  split
  · exact spends_fail
  · exact spends_pure

theorem handles_covering {relative : RelPath} : Handles [] (covering relative) :=
  spends_get.then fun _ => spends_pure

theorem handles_checkBreaker : Handles [] checkBreaker := by
  refine spends_get.then fun run => ?_
  split
  · exact spends_fail
  · exact spends_pure

theorem handles_countSilent {f : ExecutionReport → ExecutionReport}
    (h : ∀ c, (f c).summary = c.summary) : Handles [] (count f) :=
  fun _ _ => finishes_put rfl (h _) rfl rfl rfl id

theorem handles_settle {write : Write} {settlement : Settlement} :
    Handles [.write write] (settle write settlement) := by
  intro env w
  rw [wp_settle]
  have h : Accounts w (w.put { w.state with
      breaker := w.state.breaker.settle settlement
      settled := w.state.settled ++ [(write, settlement)] }) [] [(write, settlement)] [] :=
    ⟨⟨by simp, by simp, rfl⟩, rfl, rfl, rfl, id, .nil, .nil⟩
  exact h.finishes .rfl .nil (by simp)

/-- A path left for the next run: the story of the task it is left by. -/
theorem accounts_left (task : Task) (reason : DeferReason) (detail : String)
    (w : World runInterface Run) :
    Accounts w ((w.put { w.state with
      deferrals := w.state.deferrals.insert task.relative reason
      completed.deferred := w.state.completed.deferred ++ [⟨task.relative, reason, detail⟩] }).push
        (.told (.pathDeferred task.relative reason)))
      [.told (.pathDeferred task.relative reason)] []
      [⟨task, [.pathDeferred task.relative reason], .left⟩] := by
  refine ⟨⟨rfl, fun p => ?_, ?_⟩, (List.append_nil _).symm, rfl, rfl, id, .nil, .rfl⟩
  · simp [eq_comm]
  · simp [Summary.absorbEntry, Summary.absorb, ExecutionReport.summary]

/-- A path is left once. -/
theorem handles_defer (task : Task) {reason : DeferReason} {detail : String} :
    Handles [.task task] (defer task.relative reason detail) := by
  intro env w
  simp only [defer, wp_bind, wp_get]
  split
  · rename_i hmem
    have hdone : ∀ t ∈ [task], t.Done w [] := by
      intro t ht
      obtain rfl := List.mem_singleton.mp ht
      exact Task.done_of_deferred hmem
    have hidle : Finishes [] w w := Graded.refl Begins w
    exact hidle.silent hdone
  · simp only [wp_bind, wp_modify, wp_report]
    refine (accounts_left task reason detail w).finishes .nil .rfl fun story hstory => ?_
    obtain rfl := List.mem_singleton.mp hstory
    exact Task.done_of_deferred (by simp)

theorem handles_deferLocal (task : Task) {error : ExecError} :
    Handles [.task task] (deferLocal task.relative error) := by
  unfold deferLocal
  split
  · exact handles_defer task
  · exact spends_fail

theorem handles_verifyLiveSnapshot {check : SnapshotCheck} :
    Handles [] (verifyLiveSnapshot check) := by
  refine handles_read rfl fun reply => handles_lift.then fun _ => ?_
  split
  · exact spends_pure
  · exact handles_read rfl fun _ => handles_lift
  · exact handles_read rfl fun _ => handles_lift

theorem handles_uploadPreconditionHolds {remotePath : RelPath} {expected : Option RemoteSnapshot} :
    Handles [] (uploadPreconditionHolds remotePath expected) :=
  handles_read rfl fun _ => handles_lift.then fun _ => spends_pure

end Run
end DriveSync
