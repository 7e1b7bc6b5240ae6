import DriveSync.Sync.Mirror
import DriveSync.Sync.Narrowed

/-!
# DriveSync.Sync.Originals

Whether a run keeps what it could not replace. A deletion that comes first waits on the deferrals of
its own path, and so do the writes that follow it; both are right about the entry that replaces it
as long as that entry is spelled alike on both sides.

* `MakesRoom`: a deletion comes first only while nothing covers its path, and a write beneath it
  only once it was carried out.
* `executed_makesRoom`: every run does so.
* `KeepsOriginals`: the same, of what is to replace an entry.
* `keepsOriginals_of_spelledAlike`: where replaced entries are spelled alike, every run does that
  too.
-/

namespace DriveSync

open Path Prog

/-- The path of the NAS a call writes to. -/
def Call.written? : Call → Option RelPath
  | .createFolder p => some p
  | .copyFileVerified a => some a.toRemotePath
  | .upload _ p => some p
  | _ => none

def Writes (p : RelPath) : RunEntry → Prop
  | .asked call _ => call.written? = some p
  | .told _ => False

/-- Neither a write nor a deletion. -/
structure Idle (e : RunEntry) : Prop where
  writes : ∀ p, ¬Writes p e
  deletes : ∀ p reply, e ≠ .asked (.deleteNonRecursive p) reply

/-- What the log shows before one entry of it: nothing covers the path of a deletion that comes
first when it is asked for, and the deletions above a write were carried out. -/
structure Roomy (plan : SyncPlan) (before : List RunEntry) (e : RunEntry) : Prop where
  deletes : ∀ p reply, e = .asked (.deleteNonRecursive p) reply →
    (∃ b ∈ plan.postDeletes, b.remotePath = p) ∨ ∃ d ∈ plan.preDeletes, d.remotePath = p ∧
      ∀ f reason, .told (.pathDeferred f reason) ∈ before → ¬AtOrUnder f d.relative
  writes : ∀ p, Writes p e → (∃ b ∈ plan.postDeletes, b.remotePath = p) ∨
    ∃ t ∈ plan.writeTargets, t.remotePath = p ∧
      ∀ d ∈ plan.preDeletes, AtOrUnder d.relative t.relative →
        .asked (.deleteNonRecursive d.remotePath) (.ok ()) ∈ before

def MakesRoom (plan : SyncPlan) : List RunEntry → Prop := EachAfter (Roomy plan)

/-- Of the deletions that come first, none is of what lies beneath an earlier one. -/
def ChildrenFirst (plan : SyncPlan) : Prop :=
  plan.preDeletes.Pairwise fun c b => ¬AtOrUnder c.relative b.relative

variable {plan : SyncPlan} {log new before : List RunEntry} {e : RunEntry}

theorem written_of_reads {call : Call} (h : call.mutates = false) : call.written? = none := by
  cases call <;> first | rfl | cases h

theorem idle_of_quiet (h : Quiet e ∨ Telling e) : Idle e := by
  refine ⟨fun p hp => ?_, not_delete_of h⟩
  cases e with
  | told event => exact hp
  | asked call reply =>
    have hnone := written_of_reads (h.resolve_right id : call.mutates = false)
    rw [show call.written? = some p from hp] at hnone
    cases hnone

theorem Idle.roomy (h : Idle e) : Roomy plan before e :=
  ⟨fun p reply heq => absurd heq (h.deletes p reply), fun p hp => absurd hp (h.writes p)⟩

theorem MakesRoom.append (h : MakesRoom plan log)
    (hnew : ∀ e ∈ new, ∀ before, log ⊆ before → Roomy plan before e) :
    MakesRoom plan (log ++ new) :=
  EachAfter.append h (eachAfter_of_forall fun e he mid =>
    hnew e he (log ++ mid) (List.subset_append_left _ _))

section Run

variable [Unicode] {env : Env runInterface} {w w' : World runInterface Run} {kept : KeptSet}
  {sources : DeferralIndex} {done : List DeleteAction} {b : DeleteAction}

theorem MakesRoom.failed (h : MakesRoom plan w.log) (hf : Failed Telling w w') :
    MakesRoom plan w'.log := by
  obtain ⟨new, hadds, htelling⟩ := hf
  rw [hadds.log]
  exact h.append fun e he _ _ => (idle_of_quiet (htelling e he)).roomy

/-! ## The deletions that come first -/

/-- What holds after the first deletions of `done`. What was left before them is a source. -/
structure Opening (plan : SyncPlan) (sources : DeferralIndex) (done : List DeleteAction)
    (w : World runInterface Run) : Prop where
  room : MakesRoom plan w.log
  told : ∀ f reason, .told (.pathDeferred f reason) ∈ w.log → f ∈ w.state.deferrals.exact
  base : ∀ f ∈ sources.exact, f ∈ w.state.deferrals.exact
  left : ∀ f ∈ w.state.deferrals.exact, f ∈ sources.exact ∨ ∃ c ∈ done, c.relative = f
  settled : ∀ c ∈ done, c.relative ∈ w.state.deferrals.exact ∨
    .asked (.deleteNonRecursive c.remotePath) (.ok ()) ∈ w.log

theorem told_of_adds (h : ∀ f reason, .told (.pathDeferred f reason) ∈ w.log →
    f ∈ w.state.deferrals.exact) (hadds : Adds w w' new) :
    ∀ f reason, .told (.pathDeferred f reason) ∈ w'.log → f ∈ w'.state.deferrals.exact := by
  intro f reason hmem
  rw [hadds.log] at hmem
  exact (hadds.deferrals f).mpr ((List.mem_append.mp hmem).imp (h f reason) fun h => ⟨reason, h⟩)

/-- What reads, and tells of no deferral. -/
theorem Opening.did {acts : RunEntry → Prop} (h : Opening plan sources done w) (hd : Did acts w w')
    (htells : ∀ e, acts e → Telling e)
    (hleaves : ∀ f reason, ¬acts (.told (.pathDeferred f reason))) :
    Opening plan sources done w' := by
  have hroom := h.room.failed (hd.failed.mono htells)
  obtain ⟨new, hadds, hquiet, _⟩ := hd
  have hexact : ∀ f, f ∈ w'.state.deferrals.exact ↔ f ∈ w.state.deferrals.exact := by
    intro f
    rw [hadds.deferrals, or_iff_left_iff_imp]
    rintro ⟨reason, hmem⟩
    exact (hquiet _ hmem).elim (fun h => h.elim) fun h => absurd h (hleaves f reason)
  refine ⟨hroom, told_of_adds h.told hadds, fun f hf => (hexact f).mpr (h.base f hf),
    fun f hf => h.left f ((hexact f).mp hf), fun c hc => ?_⟩
  rw [hadds.log]
  exact (h.settled c hc).imp (hexact c.relative).mpr (List.mem_append_left _)

theorem Opening.reads (h : Opening plan sources done w) (hd : Did (fun _ => False) w w') :
    Opening plan sources done w' := h.did hd (fun _ => False.elim) fun _ _ => id

theorem Opening.keep (h : Opening plan sources done w) (hd : Did Telling w w')
    (hexact : ∀ f, f ∈ w'.state.deferrals.exact ↔
      f ∈ w.state.deferrals.exact ∨ f = b.relative) :
    Opening plan sources (done ++ [b]) w' := by
  have hroom := h.room.failed hd.failed
  obtain ⟨new, hadds, _, _⟩ := hd
  refine ⟨hroom, told_of_adds h.told hadds, fun f hf => (hexact f).mpr (.inl (h.base f hf)),
    fun f hf => ?_, fun c hc => ?_⟩
  · rcases (hexact f).mp hf with hf | rfl
    · refine (h.left f hf).imp id ?_
      rintro ⟨c, hc, rfl⟩
      exact ⟨c, List.mem_append_left _ hc, rfl⟩
    · exact .inr ⟨b, by simp, rfl⟩
  · rcases List.mem_append.mp hc with hc | hc
    · rw [hadds.log]
      exact (h.settled c hc).imp (fun h => (hexact _).mpr (.inl h)) (List.mem_append_left _)
    · obtain rfl := List.mem_singleton.mp hc
      exact .inl ((hexact _).mpr (.inr rfl))

/-- A deletion that comes first is asked for: no deferral covers it. -/
theorem Opening.roomy (h : Opening plan sources done w)
    (hb : b ∈ plan.preDeletes) (huncovered : (sources.covering b.relative).isNone = true)
    (hdone : ∀ c ∈ done, ¬AtOrUnder c.relative b.relative) {reply : Except ExecError Unit} :
    Roomy plan w.log (.asked (.deleteNonRecursive b.remotePath) reply) := by
  refine ⟨fun p reply' heq => .inr ⟨b, hb, ?_, fun f reason hf hfd => ?_⟩,
    fun p hp => (by cases hp)⟩
  · cases heq
    rfl
  · rcases h.left f (h.told f reason hf) with hsource | ⟨c, hc, rfl⟩
    · have hcovers := DeferralIndex.covering_isSome.mpr ⟨f, hsource, hfd⟩
      rw [← Option.not_isSome, hcovers] at huncovered
      cases huncovered
    · exact hdone c hc hfd

theorem Opening.carried (h : Opening plan sources done w)
    (hroomy : Roomy plan w.log (.asked (.deleteNonRecursive b.remotePath) (.ok ()))) :
    Opening plan sources (done ++ [b])
      (w.push (.asked (.deleteNonRecursive b.remotePath) (.ok ()))) := by
  refine ⟨EachAfter.push h.room hroomy, fun f reason hmem => ?_, h.base, fun f hf => ?_,
    fun c hc => ?_⟩
  · rcases List.mem_append.mp hmem with hmem | hmem
    · exact h.told f reason hmem
    · cases List.mem_singleton.mp hmem
  · refine (h.left f hf).imp id ?_
    rintro ⟨c, hc, rfl⟩
    exact ⟨c, List.mem_append_left _ hc, rfl⟩
  · rcases List.mem_append.mp hc with hc | hc
    · exact (h.settled c hc).imp id (List.mem_append_left _)
    · obtain rfl := List.mem_singleton.mp hc
      exact .inr (by simp)

theorem wp_preDeleteOne_room {planned : DeleteAction × SnapshotVerdict}
    (h : Opening plan sources done w) (hb : planned.1 ∈ plan.preDeletes)
    (huncovered : (sources.covering planned.1.relative).isNone = true)
    (hdone : ∀ c ∈ done, ¬AtOrUnder c.relative planned.1.relative) :
    wp env (preDeleteOne kept planned) (fun _ => Opening plan sources (done ++ [planned.1]))
      (fun _ w' => MakesRoom plan w'.log) w := by
  obtain ⟨b, verdict⟩ := planned
  have hcancelled : wp env checkCancelled (fun _ w' => Did (fun _ => False) w w')
      (fun _ w' => Failed (fun _ => False) w w') w := does_checkCancelled env w
  unfold preDeleteOne
  dsimp only
  rw [wp_bind]
  refine wp_mono hcancelled (fun _ w₁ h₁ => ?_) fun _ _ h₁ =>
    h.room.failed (h₁.mono fun _ => False.elim)
  replace h := h.reads h₁
  rw [wp_bind]
  refine wp_mono wp_preDeleteChanged (fun changed w₂ h₂ => ?_) fun _ _ h₂ =>
    h.room.failed (h₂.mono fun _ => False.elim)
  replace h := h.reads h₂.1
  cases changed with
  | true =>
    simp only [if_true, wp_bind]
    refine wp_mono wp_defer_exact (fun _ w₃ h₃ => ?_) fun _ _ h₃ => h₃.elim
    refine h.keep (h₃.1.mono ?_) h₃.2
    rintro _ ⟨reason, rfl⟩
    trivial
  | false =>
    have hroomy : ∀ reply, Roomy plan w₂.log (.asked (.deleteNonRecursive b.remotePath) reply) :=
      fun reply => h.roomy hb huncovered hdone
    simp only [Bool.false_eq_true, if_false]
    rw [wp_bind, wp_request]
    rcases (env w₂.log (.deleteNonRecursive b.remotePath) : Except ExecError Unit) with error | ⟨⟩
    · exact EachAfter.push h.room (hroomy (.error error))
    · have htell : Does (fun e => e = .told (.typeConflictDeleted b.remotePath)) (do
          count fun completed => { completed with deleted := completed.deleted + 1 }
          report (.typeConflictDeleted b.remotePath)
          return kept) := does_count_report (fun _ => rfl) (by simp) rfl takes_pure
      have h' := h.carried (hroomy (.ok ()))
      rw [lift_ok_bind]
      have htelling : ∀ e, e = .told (.typeConflictDeleted b.remotePath) → Telling e := by
        rintro _ rfl
        trivial
      exact wp_mono (htell env _) (fun _ w₃ h₃ => h'.did h₃ htelling (by simp)) fun _ w₃ h₃ =>
        h'.room.failed (h₃.mono htelling)

/-- Once the first deletions are done with, each is carried out or left. -/
structure Opened (plan : SyncPlan) (w : World runInterface Run) : Prop where
  room : MakesRoom plan w.log
  settled : ∀ d ∈ plan.preDeletes, Covered w d.relative ∨
    .asked (.deleteNonRecursive d.remotePath) (.ok ()) ∈ w.log

theorem wp_preDeletePhase_room (hsorted : ChildrenFirst plan) (hroom : MakesRoom plan w.log)
    (htold : ∀ f reason, .told (.pathDeferred f reason) ∈ w.log → f ∈ w.state.deferrals.exact) :
    wp env (preDeletePhase plan) (fun _ => Opened plan) (fun _ w' => MakesRoom plan w'.log) w := by
  have hstart : Opening plan w.state.deferrals [] w :=
    ⟨hroom, htold, fun f hf => hf, fun f hf => .inl hf, by simp⟩
  unfold preDeletePhase
  rw [wp_bind, wp_get]
  dsimp only
  generalize hfirst : (plan.preDeletes.filter fun action =>
    (w.state.deferrals.covering action.relative).isNone) = first
  have hbatch : ∀ reply : Except ExecError (Verdicts (first.map deleteSnapshotCheck)),
      wp env (lift reply >>= fun verdicts =>
          (first.zip verdicts.list).foldlM preDeleteOne ∅ >>= fun _ => pure ())
        (fun _ => Opened plan) (fun _ w' => MakesRoom plan w'.log)
        (w.push (.asked (.verifyRemoteSnapshotBatch plan.scope plan.rules
          (first.map deleteSnapshotCheck)) reply)) := by
    rintro (error | verdicts)
    · exact hroom.failed (failed_asked (.inl rfl))
    · have hall : (first.zip verdicts.list).map (·.1) = first :=
        List.map_fst_zip (by rw [verdicts.length_eq, List.length_map])
      have hsorted : first.Pairwise fun c b => ¬AtOrUnder c.relative b.relative := by
        rw [← hfirst]
        exact List.Pairwise.filter _ hsorted
      have hread := hstart.reads (did_asked (.inl rfl) rfl : Did (fun _ => False) w
        (w.push (.asked (.verifyRemoteSnapshotBatch plan.scope plan.rules
          (first.map deleteSnapshotCheck)) (.ok verdicts))))
      rw [lift_ok_bind, wp_bind]
      generalize first.zip verdicts.list = judged at hall ⊢
      have hloop : ∀ w₁, Opening plan w.state.deferrals [] w₁ →
          wp env (judged.foldlM preDeleteOne ∅)
            (fun _ => Opening plan w.state.deferrals (judged.map (·.1)))
            (fun _ w' => MakesRoom plan w'.log) w₁ := by
        intro w₁ h₁
        apply wp_foldlM judged
        · exact h₁
        · intro done planned rest kept w₂ hl h₂
          rw [hl, List.map_append, List.map_cons] at hall
          have hmem : planned.1 ∈ first := by
            rw [← hall]
            simp
          rw [← hfirst] at hmem
          obtain ⟨hb, huncovered⟩ := List.mem_filter.mp hmem
          rw [List.map_append]
          refine wp_preDeleteOne_room h₂ hb huncovered fun c hc => ?_
          rw [← hall] at hsorted
          exact (List.pairwise_append.mp hsorted).2.2 c hc planned.1 (.head _)
      refine wp_mono (hloop _ hread) (fun _ w₁ h₁ => ?_) fun _ _ h => h
      rw [hall] at h₁
      refine ⟨h₁.room, fun d hd => ?_⟩
      cases hcovers : w.state.deferrals.covering d.relative with
      | none =>
        have hmem : d ∈ first := by
          rw [← hfirst]
          exact List.mem_filter.mpr ⟨hd, by rw [hcovers]; rfl⟩
        exact (h₁.settled d hmem).imp covered_of_mem id
      | some reason =>
        obtain ⟨f, hf, hfd⟩ := DeferralIndex.covering_isSome.mp (Option.isSome_of_eq_some hcovers)
        exact .inl (DeferralIndex.covering_isSome.mpr ⟨f, h₁.base f hf, hfd⟩)
  exact hbatch (env w.log (.verifyRemoteSnapshotBatch plan.scope plan.rules
    (first.map deleteSnapshotCheck)))

/-- The sources are opened, and the first deletions done with. -/
theorem wp_opening_room (hsorted : ChildrenFirst plan) :
    wp env (opening plan) (fun _ => Opened plan) (fun _ w' => MakesRoom plan w'.log)
      ⟨[], .start⟩ := by
  have hpreflight : Does Telling (preflight plan) :=
    does_preflight (fun _ _ _ => trivial) fun _ _ _ => trivial
  have hnone : MakesRoom plan (⟨[], .start⟩ : World runInterface Run).log := eachAfter_nil
  rw [opening, wp_bind]
  refine wp_mono (hpreflight env _) (fun _ w₁ h₁ => ?_) fun _ w₁ h₁ => hnone.failed h₁
  refine wp_preDeletePhase_room hsorted (hnone.failed h₁.failed) ?_
  obtain ⟨new, hadds, _⟩ := h₁
  exact told_of_adds (by simp) hadds

/-! ## The writes -/

/-- Reading and telling, and the writes that no deferral covers. -/
def WritesUncovered (plan : SyncPlan) (w : World runInterface Run) (e : RunEntry) : Prop :=
  Idle e ∨ ∃ t ∈ plan.writeTargets, Writes t.remotePath e ∧ ¬Covered w t.relative

theorem plannedActs_uncovered :
    PlannedActs (WritesUncovered plan w) w.state.deferrals plan := by
  have htold : ∀ event, WritesUncovered plan w (.told event) := fun event =>
    .inl (idle_of_quiet (.inr trivial))
  have huncovered : ∀ {p : RelPath}, (w.state.deferrals.covering p).isNone = true →
      ¬Covered w p := by
    intro p hp
    rw [Covered, Option.not_isSome_iff_eq_none]
    exact Option.isNone_iff_eq_none.mp hp
  refine ⟨fun a ha hopen => ⟨fun _ => .inr ⟨a.target, ?_, rfl, huncovered hopen⟩, htold _,
    fun _ => htold _⟩, fun a ha hopen => ⟨fun _ => .inr ⟨a.target, ?_, rfl, huncovered hopen⟩,
    htold _, fun _ => .inr ⟨a.target, ?_, rfl, huncovered hopen⟩, htold _, fun _ => htold _⟩,
    fun a ha hopen => ⟨fun _ => .inr ⟨a.target, ?_, rfl, huncovered hopen⟩, htold _,
      fun _ => htold _⟩⟩
  · exact List.mem_append_left _ (List.mem_map_of_mem ha)
  · exact List.mem_append_right _ (List.mem_append_left _ (List.mem_map_of_mem ha))
  · exact List.mem_append_right _ (List.mem_append_left _ (List.mem_map_of_mem ha))
  · exact List.mem_append_right _ (List.mem_append_right _ (List.mem_map_of_mem ha))

theorem Opened.writes (h : Opened plan w) (hf : Failed (WritesUncovered plan w) w w') :
    MakesRoom plan w'.log := by
  obtain ⟨new, hadds, hacts⟩ := hf
  rw [hadds.log]
  refine h.room.append fun e he before hbefore => ?_
  rcases hacts e he with hquiet | hidle | ⟨t, ht, hwrites, huncovered⟩
  · exact (idle_of_quiet (.inl hquiet)).roomy
  · exact hidle.roomy
  · refine ⟨fun p reply heq => ?_, fun p hp => .inr ⟨t, ht, ?_, fun d hd hdt => ?_⟩⟩
    · subst heq
      cases hwrites
    · cases e with
      | told event => exact hp.elim
      | asked call reply => exact Option.some.inj (hwrites.symm.trans hp)
    · refine hbefore ((h.settled d hd).resolve_left fun hcovered => huncovered ?_)
      obtain ⟨f, hf, hfd⟩ := DeferralIndex.covering_isSome.mp hcovered
      exact DeferralIndex.covering_isSome.mpr ⟨f, hf, hfd.trans hdt⟩

/-! ## The run -/

/-- Deletions and writes of what the source does not have. -/
def Mirrors (plan : SyncPlan) (e : RunEntry) : Prop :=
  (∀ p reply, e = .asked (.deleteNonRecursive p) reply → ∃ b ∈ plan.postDeletes, b.remotePath = p) ∧
    ∀ p, Writes p e → ∃ b ∈ plan.postDeletes, b.remotePath = p

theorem MakesRoom.mirrors (h : MakesRoom plan w.log) (hf : Failed (Mirrors plan) w w') :
    MakesRoom plan w'.log := by
  obtain ⟨new, hadds, hacts⟩ := hf
  rw [hadds.log]
  refine h.append fun e he _ _ => ?_
  rcases hacts e he with hquiet | ⟨hdeletes, hwrites⟩
  · exact (idle_of_quiet (.inl hquiet)).roomy
  · exact ⟨fun p reply heq => .inl (hdeletes p reply heq), fun p hp => .inl (hwrites p hp)⟩

theorem does_deletePhases_mirrors : Does (Mirrors plan) (deletePhases plan) := by
  have hidle : ∀ {e : RunEntry}, Idle e → Mirrors plan e := fun h =>
    ⟨fun p reply heq => absurd heq (h.deletes p reply), fun p hp => absurd hp (h.writes p)⟩
  have htold : ∀ event, Mirrors plan (.told event) := fun event =>
    hidle (idle_of_quiet (.inr trivial))
  refine does_deletePhases (fun a ha => ⟨⟨fun _ => ⟨?_, ?_⟩, htold _, fun _ => htold _⟩,
    fun _ => htold _⟩) (fun a ha => ⟨fun _ _ => ⟨?_, ?_⟩, fun _ => htold _⟩)
    fun a _ => ⟨fun _ => ⟨?_, ?_⟩, fun _ => htold _, fun _ => htold _⟩
  · rintro p reply heq
    cases heq
    exact ⟨a, ha, rfl⟩
  · rintro p hp
    cases hp
  · rintro p reply heq
    cases heq
  · rintro p hp
    exact ⟨a, ha, Option.some.inj hp⟩
  · rintro p reply heq
    cases heq
  · rintro p hp
    cases hp

/-- Every run makes room before it writes, and leaves what it deletes first alone while a deferral
covers it. -/
theorem executed_makesRoom (hsorted : ChildrenFirst plan) (env : Env runInterface)
    (options : ExecuteOptions) : MakesRoom plan (executed env plan options).2.log := by
  cases hdry : options.dryRun with
  | true =>
    unfold executed execute
    rw [hdry]
    exact eachAfter_nil
  | false =>
    have hrun : wp env (execute plan options) (fun _ w' => MakesRoom plan w'.log)
        (fun _ w' => MakesRoom plan w'.log) ⟨[], .start⟩ := by
      rw [execute_eq hdry, wp_bind]
      refine wp_mono (wp_opening_room hsorted) (fun _ w₁ h₁ => ?_) fun _ _ h => h
      have hwrites : wp env (plannedWrites plan options.jobs >>= fun _ => checkCancelled)
          (fun _ w' => Did (WritesUncovered plan w₁) w₁ w')
          (fun _ w' => Failed (WritesUncovered plan w₁) w₁ w') w₁ := by
        rw [wp_bind]
        refine wp_mono (wp_plannedWrites plannedActs_uncovered) (fun _ w₂ h₂ => ?_)
          fun _ _ h => h
        exact wp_mono (does_checkCancelled env w₂) (fun _ _ h₃ => h₂.trans h₃)
          fun _ _ h₃ => h₂.failed.trans h₃
      rw [wp_bind]
      refine wp_mono hwrites (fun _ w₂ h₂ => ?_) fun _ _ h₂ => h₁.writes h₂
      exact wp_mono (does_deletePhases_mirrors env w₂)
        (fun _ _ h₃ => (h₁.writes h₂.failed).mirrors h₃.failed)
        fun _ _ h₃ => (h₁.writes h₂.failed).mirrors h₃
    exact of_wp hrun

end Run

/-! ## What is to replace an entry -/

/-- No entry is deleted to make room for what was left, and nothing is written where an entry that
was to make room stands. -/
def KeepsOriginals (plan : SyncPlan) (left : RelPath → Prop) : List RunEntry → Prop :=
  EachAfter fun before e =>
    (∀ d ∈ plan.preDeletes, ∀ reply, e = .asked (.deleteNonRecursive d.remotePath) reply →
      ∀ t ∈ plan.replacements, AtOrUnder t.remotePath d.remotePath →
        ∀ f, (left f ∨ ∃ reason, .told (.pathDeferred f reason) ∈ before) →
          ¬AtOrUnder f t.relative) ∧
    ∀ p, Writes p e → ∀ d ∈ plan.preDeletes, AtOrUnder d.remotePath p →
      .asked (.deleteNonRecursive d.remotePath) (.ok ()) ∈ before

section Plan

variable [Unicode] {ε : Type} {root : RemoteRoot} {L : LocalInventory} {R : RemoteInventory}
  {rules : IgnoreRules} {options : PlanOptions} {plan' : SyncPlan} {left : RelPath → Prop}
  (closed : L.entries.ParentClosed LocalEntry.kind) (distinct : L.entries.DistinctFolds)
  (walked : R.Walked root)

include closed distinct walked in
/-- Where every replaced entry is spelled alike, no run loses an original. -/
theorem keepsOriginals_of_spelledAlike (h : buildPlan root L R rules options = .ok plan)
    (halike : SpelledAlike L R (planResolution root L R rules options))
    (hnarrowed : NarrowedTo ε plan left plan') (env : Env runInterface)
    (executeOptions : ExecuteOptions) :
    KeepsOriginals plan left (executed env plan' executeOptions).2.log := by
  have hp := planned_of_buildPlan h
  have horder := orderly_of_buildPlan closed distinct walked h
  have hn := narrowed_of_narrowedTo (fun c hc => hp.copy_entry hc)
    (fun f hf c hc => hp.create_apart closed hf hc) hnarrowed
  have hroom := executed_makesRoom (horder.sorted.sublist hn.pre) env executeOptions
  refine EachAfter.mono hroom fun before e hroomy => ⟨?_, ?_⟩
  · intro d hd reply heq t ht hreplaces f hf hft
    obtain ⟨x, hx, hne, rfl⟩ := hp.exists_of_mem_replacements ht
    obtain ⟨_, _, _, _, _, _, _, hpath, _⟩ := hp.exists_of_mem_preDeletes walked hd
    rw [targetOf, destination, halike x hx hne, hpath,
      atOrUnder_append (EntryMap.relative_ne_root hx)] at hreplaces
    have hfd : AtOrUnder f d.relative := AtOrUnder.trans hft hreplaces
    rcases hroomy.deletes _ reply heq with ⟨b, hb, hpath⟩ | ⟨d', hd', hpath, huncovered⟩
    · exact hp.postDelete_apart walked hd (hn.post.subset hb) (.inl hpath)
    · rw [← horder.same d' (List.mem_append_left _ (hn.pre.subset hd')) d
        (List.mem_append_left _ hd) hpath] at hfd
      rcases hf with hf | ⟨reason, hf⟩
      · exact hn.left f hf d' hd' hfd
      · exact huncovered f reason hf hfd
  · intro p hwrites d hd hbelow
    rcases hroomy.writes p hwrites with ⟨b, hb, rfl⟩ | ⟨t, ht, rfl, hdone⟩
    · exact absurd hbelow (hp.postDelete_apart walked hd (hn.post.subset hb))
    · obtain ⟨x, hx, hne, hdx, hxt⟩ :=
        hp.made_room closed distinct walked hd (hn.targets t ht) hbelow
      rw [halike x hx hne] at hdx
      rw [← hdx] at hxt
      by_cases hd' : d ∈ plan'.preDeletes
      · exact hdone d hd' hxt
      · exact absurd hxt (hn.kept d hd hd' t ht)

end Plan

end DriveSync
