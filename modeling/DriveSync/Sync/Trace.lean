import DriveSync.Sync.Execute
import DriveSync.Sync.Stories

/-!
# DriveSync.Sync.Trace

What a part of a run leaves behind, whatever it was answered. `Adds` is what holds of every part:
the log only grows, the deferrals are those that were reported, and the report is the sum of the
events. `Does acts p` says in addition which calls and reports `p` is limited to beside reading the
two sides, and that no answer that ends a run lies behind it when it succeeds.

One lemma says so of each function of `Sync.Execute`; what a whole phase does is put together from
them by the rules of `Lib.Prog`.
-/

namespace DriveSync

open Path Prog

/-- Whether a call changes the NAS. -/
def Call.mutates : Call → Bool
  | .deleteNonRecursive _ => true
  | .createFolder _ => true
  | .rename _ _ => true
  | .copyFileVerified _ => true
  | .upload _ _ => true
  | _ => false

/-- A failure that says a remote entry is not what it was. -/
def ExecError.isChange : ExecError → Bool
  | .remoteSnapshotChanged _ => true
  | .contentVerificationFailed _ => true
  | _ => false

/-- A failure that concerns one local file. -/
def ExecError.isLocalError (error : ExecError) : Bool := (DeferReason.forLocalError error).isSome

/-- A failure that concerns one path, which a run goes on after. -/
def ExecError.isPathError (error : ExecError) : Bool := (DeferReason.forPathError error).isSome

/-- Whether a call failed with a failure in `p`. -/
def failedWith {α : Type} (p : ExecError → Bool) : Except ExecError α → Bool
  | .ok _ => false
  | .error e => p e

def ExecError.isRemoteRefused : ExecError → Bool
  | .remoteRefused _ _ _ _ => true
  | _ => false

/-- A server-side copy that DSM did not start, or says has ended. -/
def ExecError.isCopyEnded : ExecError → Bool
  | .serverCopyNotStarted => true
  | .serverCopyFailed _ _ => true
  | _ => false

/-- Whether an answer ends the run, now or as soon as it is looked at. -/
def Call.ends : (call : Call) → call.Reply → Bool
  | .preflightUploadReadable _ => failedWith fun e => !e.isPathError
  | .preflightUploadSource _ => failedWith fun e => !e.isPathError && !e.isChange
  | .deleteNonRecursive _ => failedWith concernsRun
  | .createFolder _ => failedWith fun e => !e.isRemoteRefused
  | .supportsRename => fun _ => false
  | .rename _ _ => failedWith renameConcernsRun
  | .copyFileVerified _ => failedWith fun e => !e.isCopyEnded
  | .verifyRemoteSnapshotBatch _ _ _ => failedWith fun _ => true
  | .verifyRemoteMetadataSnapshot _ _ => failedWith fun e => !e.isChange && !e.isLocalError
  | .verifyRemoteContent _ _ _ => failedWith fun e => !e.isChange && !e.isLocalError
  | .verifyUploadedContent _ _ _ => failedWith fun e => !e.isChange && !e.isLocalError
  | .remotePathState _ => failedWith fun _ => true
  | .upload _ _ => failedWith fun e => !e.isPathError
  | .localPresence _ => fun _ => false
  | .entryAt _ => failedWith fun e => !e.isPathError
  | .symlinkMetadata _ => fun _ => false
  | .hashFileSnapshot _ => failedWith fun e => !e.isPathError
  | .cancelRequested => fun requested => requested
  | .schedule _ => fun _ => false

/-- A call that only reads. -/
def Quiet : RunEntry → Prop
  | .asked call _ => call.mutates = false
  | .told _ => False

/-- An answer after which the run ends. -/
def Fatal : RunEntry → Prop
  | .asked call reply => call.ends reply = true
  | .told _ => False

/-! ## The report as a sum of events -/

/-- The counters of a report that events are reported for. -/
structure Summary where
  deleted : Nat
  created : Nat
  copied : Nat
  uploaded : Nat
  uploadedBytes : Nat
  deletesSkipped : Nat
  keptDeletesUploaded : Nat
  deferred : List (RelPath × DeferReason)
  copyFallbacks : Nat
  renamed : Nat

def ExecutionReport.summary (r : ExecutionReport) : Summary :=
  ⟨r.deleted, r.created, r.copied, r.uploaded, r.uploadedBytes, r.deletesSkipped,
    r.keptDeletesUploaded, r.deferred.map fun record => (record.relative, record.reason),
    r.copyFallbacks, r.renamed⟩

/-- What one event says was done. -/
def Summary.absorb (s : Summary) : ExecutionEvent → Summary
  | .typeConflictDeleted _ => { s with deleted := s.deleted + 1 }
  | .directoryCreated _ => { s with created := s.created + 1 }
  | .remoteContentCopied _ _ _ => { s with copied := s.copied + 1 }
  | .copyFallbackUploaded _ bytes => { s with
      uploaded := s.uploaded + 1
      uploadedBytes := saturatingAdd s.uploadedBytes bytes
      copyFallbacks := s.copyFallbacks + 1 }
  | .uploaded _ bytes => { s with
      uploaded := s.uploaded + 1
      uploadedBytes := saturatingAdd s.uploadedBytes bytes }
  | .remoteExtraDeleted _ => { s with deleted := s.deleted + 1 }
  | .remoteExtraDeleteSkipped _ _ _ => { s with deletesSkipped := s.deletesSkipped + 1 }
  | .keptDeleteUploaded _ bytes => { s with
      uploaded := s.uploaded + 1
      uploadedBytes := saturatingAdd s.uploadedBytes bytes
      keptDeletesUploaded := s.keptDeletesUploaded + 1 }
  | .pathDeferred relative reason => { s with deferred := s.deferred ++ [(relative, reason)] }
  | .renamed _ _ => { s with renamed := s.renamed + 1 }

def Summary.absorbEntry (s : Summary) : RunEntry → Summary
  | .told event => s.absorb event
  | .asked _ _ => s

section Run

variable [Unicode] {α β : Type} {acts acts' : RunEntry → Prop} {w w' w₁ w₂ w₃ : World runInterface Run}
  {env : Env runInterface}

/-! ## What every part of a run does -/

/-- A part of a run from `w` to `w'` that put `new` on the log. -/
structure Adds (w w' : World runInterface Run) (new : List RunEntry) : Prop where
  log : w'.log = w.log ++ new
  deferrals : ∀ p, p ∈ w'.state.deferrals.exact ↔
    p ∈ w.state.deferrals.exact ∨ ∃ reason, .told (.pathDeferred p reason) ∈ new
  summary : w'.state.completed.summary = new.foldl Summary.absorbEntry w.state.completed.summary

theorem Adds.refl (w : World runInterface Run) : Adds w w [] := ⟨by simp, by simp, rfl⟩

theorem Adds.trans {new new' : List RunEntry} (h : Adds w₁ w₂ new) (h' : Adds w₂ w₃ new') :
    Adds w₁ w₃ (new ++ new') where
  log := by rw [h'.log, h.log, List.append_assoc]
  deferrals p := by
    rw [h'.deferrals, h.deferrals]
    simp only [List.mem_append, exists_or, or_assoc]
  summary := by rw [h'.summary, h.summary, List.foldl_append]

/-- A part that failed: every call it made reads, or is one it is limited to. -/
def Failed (acts : RunEntry → Prop) (w w' : World runInterface Run) : Prop :=
  ∃ new, Adds w w' new ∧ ∀ e ∈ new, Quiet e ∨ acts e

/-- A part that succeeded: while the token is not cancelled, no answer in it ends the run. -/
def Did (acts : RunEntry → Prop) (w w' : World runInterface Run) : Prop :=
  ∃ new, Adds w w' new ∧ (∀ e ∈ new, Quiet e ∨ acts e) ∧
    (w'.state.cancelled = false → w.state.cancelled = false ∧ ∀ e ∈ new, ¬Fatal e)

abbrev Does (acts : RunEntry → Prop) (p : Exec α) : Prop := Takes (Did acts) (Failed acts) p

theorem Did.failed (h : Did acts w w') : Failed acts w w' := by
  obtain ⟨new, hadds, hmut, _⟩ := h
  exact ⟨new, hadds, hmut⟩

theorem Did.refl (w : World runInterface Run) : Did acts w w :=
  ⟨[], .refl w, by simp, fun h => ⟨h, by simp⟩⟩

theorem Did.trans (h : Did acts w₁ w₂) (h' : Did acts w₂ w₃) : Did acts w₁ w₃ := by
  obtain ⟨new, hadds, hmut, hend⟩ := h
  obtain ⟨new', hadds', hacts', hend'⟩ := h'
  refine ⟨new ++ new', hadds.trans hadds', ?_, fun hc => ?_⟩
  · intro e he
    exact (List.mem_append.mp he).elim (hmut e) (hacts' e)
  · obtain ⟨hc₂, hno'⟩ := hend' hc
    obtain ⟨hc₁, hno⟩ := hend hc₂
    exact ⟨hc₁, fun e he => (List.mem_append.mp he).elim (hno e) (hno' e)⟩

theorem Failed.trans (h : Failed acts w₁ w₂) (h' : Failed acts w₂ w₃) : Failed acts w₁ w₃ := by
  obtain ⟨new, hadds, hmut⟩ := h
  obtain ⟨new', hadds', hacts'⟩ := h'
  refine ⟨new ++ new', hadds.trans hadds', fun e he => ?_⟩
  exact (List.mem_append.mp he).elim (hmut e) (hacts' e)

instance : Framed (Did acts) (Failed acts) where
  refl := Did.refl
  fails w := (Did.refl w).failed
  trans := Did.trans
  after h h' := h.failed.trans h'

theorem Did.mono (h : Did acts w w') (hm : ∀ e, acts e → acts' e) : Did acts' w w' := by
  obtain ⟨new, hadds, hmut, hend⟩ := h
  exact ⟨new, hadds, fun e he => (hmut e he).imp id (hm e), hend⟩

theorem Failed.mono (h : Failed acts w w') (hm : ∀ e, acts e → acts' e) : Failed acts' w w' := by
  obtain ⟨new, hadds, hmut⟩ := h
  exact ⟨new, hadds, fun e he => (hmut e he).imp id (hm e)⟩

theorem Does.mono {p : Exec α} (h : Does acts p) (hm : ∀ e, acts e → acts' e) : Does acts' p :=
  Takes.mono h (fun _ _ h => h.mono hm) fun _ _ h => h.mono hm

/-! ## The smallest parts -/

section Wp

variable {Q : Unit → World runInterface Run → Prop} {E : ExecError → World runInterface Run → Prop}

@[simp] theorem wp_request {call : Call} {Q : call.Reply → World runInterface Run → Prop} :
    wp env (request call) Q E w ↔ Q (env w.log call) (w.push (.asked call (env w.log call))) :=
  Iff.rfl

@[simp] theorem wp_report {event : ExecutionEvent} :
    wp env (report event) Q E w ↔ Q () (w.push (.told event)) := Iff.rfl

@[simp] theorem wp_count {f : ExecutionReport → ExecutionReport} :
    wp env (count f) Q E w ↔
      Q () (w.put { w.state with completed := f w.state.completed }) := Iff.rfl

@[simp] theorem wp_settle {write : Write} {settlement : Settlement} :
    wp env (settle write settlement) Q E w ↔
      Q () (w.put { w.state with
        breaker := w.state.breaker.settle settlement
        settled := w.state.settled ++ [(write, settlement)] }) := Iff.rfl

@[simp] theorem wp_isCancelled {Q : Bool → World runInterface Run → Prop} :
    wp env isCancelled Q E w ↔
      Q (w.state.cancelled || env w.log .cancelRequested)
        ((w.push (.asked .cancelRequested (env w.log .cancelRequested))).put
          { w.state with cancelled := w.state.cancelled || env w.log .cancelRequested }) := Iff.rfl

end Wp

/-- A change of the state that neither the deferrals nor the report's counters see. -/
theorem did_put {s : Run} (hd : s.deferrals = w.state.deferrals)
    (hs : s.completed.summary = w.state.completed.summary)
    (hc : s.cancelled = false → w.state.cancelled = false) : Did acts w (w.put s) :=
  ⟨[], ⟨by simp, by simp [hd], by simpa using hs⟩, by simp, fun h => ⟨hc h, by simp⟩⟩

theorem adds_asked {call : Call} {reply : call.Reply} :
    Adds w (w.push (.asked call reply)) [.asked call reply] :=
  ⟨rfl, by simp, rfl⟩

theorem did_asked {call : Call} {reply : call.Reply}
    (h : call.mutates = false ∨ acts (.asked call reply))
    (hend : call.ends reply = false) : Did acts w (w.push (.asked call reply)) :=
  ⟨_, adds_asked, by simpa [Quiet] using h, fun hc => ⟨hc, by simp [Fatal, hend]⟩⟩

theorem failed_asked {call : Call} {reply : call.Reply}
    (h : call.mutates = false ∨ acts (.asked call reply)) :
    Failed acts w (w.push (.asked call reply)) :=
  ⟨_, adds_asked, by simpa [Quiet] using h⟩

/-- A part that never succeeds. -/
def Fails (acts : RunEntry → Prop) (p : Exec α) : Prop :=
  ∀ env w, wp env p (fun _ _ => False) (fun _ w' => Failed acts w w') w

theorem fails_fail {e : ExecError} : Fails acts (fail e : Exec α) := fun _ w => (Did.refl w).failed

theorem Does.bind_fails {p : Exec α} {f : α → Exec β} (hp : Does acts p)
    (hf : ∀ a, Fails acts (f a)) : Fails acts (p >>= f) := by
  intro env w
  rw [wp_bind]
  refine wp_mono (hp env w) (fun a w' h => ?_) fun _ _ h => h
  exact wp_mono (hf a env w') (fun _ _ h' => h') fun _ _ h' => h.failed.trans h'

theorem Fails.bind {p : Exec α} {f : α → Exec β} (hp : Fails acts p) : Fails acts (p >>= f) := by
  intro env w
  rw [wp_bind]
  exact wp_mono (hp env w) (fun _ _ h => h.elim) fun _ _ h => h

theorem Fails.does {p : Exec α} (hp : Fails acts p) : Does acts p :=
  fun env w => wp_mono (hp env w) (fun _ _ h => h.elim) fun _ _ h => h

/-- A call: each answer either is gone on with, or ends the run. -/
theorem does_request {call : Call} {f : call.Reply → Exec α}
    (hcall : call.mutates = false ∨ ∀ reply, acts (.asked call reply))
    (h : ∀ reply, (call.ends reply = false ∧ Does acts (f reply)) ∨ Fails acts (f reply)) :
    Does acts (request call >>= f) := by
  intro env w
  rw [wp_bind, wp_request]
  have hentry := hcall.imp id fun h => h (env w.log call)
  rcases h (env w.log call) with ⟨hend, hf⟩ | hf
  · have hd : Did acts w (w.push (.asked call (env w.log call))) := did_asked hentry hend
    exact wp_mono (hf env _) (fun _ _ h' => hd.trans h') fun _ _ h' => hd.failed.trans h'
  · exact wp_mono (hf env _) (fun _ _ h' => h'.elim) fun _ _ h' => (failed_asked hentry).trans h'

/-- Counters raised with the event that says so. -/
theorem does_count_report {f : ExecutionReport → ExecutionReport} {event : ExecutionEvent}
    {k : Unit → Exec α} (hf : ∀ c, (f c).summary = c.summary.absorb event)
    (hevent : ∀ p reason, event ≠ .pathDeferred p reason)
    (hacts : acts (.told event)) (hk : Does acts (k ())) :
    Does acts (count f >>= fun _ => report event >>= k) := by
  have hblock : ∀ w, Did acts w ((w.put { w.state with completed := f w.state.completed }).push
      (.told event)) := by
    intro w
    refine ⟨[.told event], ⟨rfl, fun p => ?_, ?_⟩, ?_, fun hc => ⟨hc, ?_⟩⟩
    · have hne : ∀ reason, ExecutionEvent.pathDeferred p reason ≠ event :=
        fun reason h => hevent p reason h.symm
      simp [hne]
    · simp [hf, Summary.absorbEntry]
    · simp [hacts]
    · simp [Fatal]
  intro env w
  simp only [wp_bind, wp_count, wp_report]
  exact wp_mono (hk env _) (fun _ _ h => (hblock w).trans h) fun _ _ h => (hblock w).failed.trans h

theorem does_defer {relative : RelPath} {reason : DeferReason} {detail : String}
    (h : acts (.told (.pathDeferred relative reason))) :
    Does acts (defer relative reason detail) := by
  intro env w
  simp only [defer, wp_bind, wp_get]
  split
  · exact Did.refl w
  · simp only [wp_bind, wp_modify, wp_report]
    refine ⟨[.told (.pathDeferred relative reason)], ⟨rfl, fun p => ?_, ?_⟩,
      ?_, fun hc => ⟨hc, ?_⟩⟩
    · simp [eq_comm]
    · simp [Summary.absorbEntry, Summary.absorb, ExecutionReport.summary]
    · simp [h]
    · simp [Fatal]

theorem does_deferLocal {relative : RelPath} {error : ExecError}
    (h : ∀ reason, acts (.told (.pathDeferred relative reason))) :
    Does acts (deferLocal relative error) := by
  unfold deferLocal
  split
  · exact does_defer (h _)
  · exact takes_fail

theorem fails_deferLocal {relative : RelPath} {error : ExecError}
    (h : DeferReason.forPathError error = none) : Fails acts (deferLocal relative error) := by
  unfold deferLocal
  rw [h]
  exact fails_fail

/-- Looking at the token: an answer that cancels it is remembered. -/
theorem does_isCancelled : Does acts isCancelled := by
  intro env w
  rw [wp_isCancelled]
  refine ⟨[.asked .cancelRequested (env w.log .cancelRequested)],
    ⟨rfl, by simp, rfl⟩, by simp [Quiet, Call.mutates], fun hc => ?_⟩
  obtain ⟨hw, hreply⟩ := Bool.or_eq_false_iff.mp hc
  refine ⟨hw, fun e he => ?_⟩
  obtain rfl := List.mem_singleton.mp he
  exact fun h => Bool.noConfusion (hreply.symm.trans h)

theorem does_checkCancelled : Does acts checkCancelled := by
  refine does_isCancelled.bind fun cancelled => ?_
  split
  · exact takes_fail
  · exact takes_pure

theorem does_covering {relative : RelPath} : Does acts (covering relative) :=
  takes_get.bind fun _ => takes_pure

theorem does_settle {write : Write} {settlement : Settlement} :
    Does acts (settle write settlement) := fun _ _ => did_put rfl rfl id

theorem does_checkBreaker : Does acts checkBreaker := by
  refine takes_get.bind fun run => ?_
  split
  · exact takes_fail
  · exact takes_pure

/-- A part that succeeds, or fails with a failure in `good`, has no answer behind it that ends the
run. -/
def Survives (good : ExecError → Bool) (acts : RunEntry → Prop) (p : Exec α) : Prop :=
  ∀ env w, wp env p (fun _ w' => Did acts w w')
    (fun e w' => Failed acts w w' ∧ (good e = true → Did acts w w')) w

variable {good : ExecError → Bool}

theorem survives_pure {a : α} : Survives good acts (pure a : Exec α) := fun _ w => Did.refl w

theorem Survives.bind {p : Exec α} {f : α → Exec β} (hp : Survives good acts p)
    (hf : ∀ a, Survives good acts (f a)) : Survives good acts (p >>= f) := by
  intro env w
  rw [wp_bind]
  refine wp_mono (hp env w) (fun a w' h => ?_) fun _ _ h => h
  exact wp_mono (hf a env w') (fun _ _ h' => h.trans h') fun _ _ h' =>
    ⟨h.failed.trans h'.1, fun hgood => h.trans (h'.2 hgood)⟩

/-- A reading call whose failure is the program's. -/
theorem survives_request {call : Call} {f : call.Reply → Exec α} (hread : call.mutates = false)
    (h : ∀ reply, (call.ends reply = false ∧ Survives good acts (f reply)) ∨
      ∃ e, f reply = fail e ∧ (good e = true → call.ends reply = false)) :
    Survives good acts (request call >>= f) := by
  intro env w
  rw [wp_bind, wp_request]
  rcases h (env w.log call) with ⟨hend, hf⟩ | ⟨e, hf, hgood⟩
  · have hd : Did acts w (w.push (.asked call (env w.log call))) := did_asked (.inl hread) hend
    exact wp_mono (hf env _) (fun _ _ h' => hd.trans h') fun _ _ h' =>
      ⟨hd.failed.trans h'.1, fun hg => hd.trans (h'.2 hg)⟩
  · rw [hf]
    exact ⟨failed_asked (.inl hread), fun hg => did_asked (.inl hread) (hgood hg)⟩

/-- Going on from how a part ended: from some failures, or not at all. -/
theorem Survives.attempt_bind {p : Exec α} {f : Except ExecError α → Exec β}
    (hp : Survives good acts p) (hok : ∀ a, Does acts (f (.ok a)))
    (herror : ∀ e, (good e = true ∧ Does acts (f (.error e))) ∨ Fails acts (f (.error e))) :
    Does acts (attempt p >>= f) := by
  intro env w
  rw [wp_bind, wp_attempt]
  refine wp_mono (hp env w) (fun a w' h => ?_) fun e w' h => ?_
  · exact wp_mono (hok a env w') (fun _ _ h' => h.trans h') fun _ _ h' => h.failed.trans h'
  · rcases herror e with ⟨hgood, hf⟩ | hf
    · have hd := h.2 hgood
      exact wp_mono (hf env w') (fun _ _ h' => hd.trans h') fun _ _ h' => h.1.trans h'
    · exact wp_mono (hf env w') (fun _ _ h' => h'.elim) fun _ _ h' => h.1.trans h'

theorem survives_verifyLiveSnapshot {check : SnapshotCheck}
    (hgood : ∀ e, good e = true → e.isChange = true ∨ e.isLocalError = true) :
    Survives good acts (verifyLiveSnapshot check) := by
  have hends : ∀ e, good e = true → (!e.isChange && !e.isLocalError) = false := by
    intro e he
    rcases hgood e he with h | h <;> simp [h]
  have hlast : ∀ {call : Call} {f : call.Reply → Except ExecError Unit},
      call.mutates = false →
      (∀ reply, call.ends reply = failedWith (fun e => !e.isChange && !e.isLocalError) (f reply)) →
      Survives good acts (request call >>= fun reply => lift (f reply)) := by
    intro call f hread hreply
    refine survives_request hread fun reply => ?_
    rw [hreply]
    rcases f reply with e | ⟨⟩
    · exact .inr ⟨e, rfl, hends e⟩
    · exact .inl ⟨rfl, survives_pure⟩
  unfold verifyLiveSnapshot
  refine survives_request rfl fun reply => ?_
  rcases reply with e | ⟨⟩
  · exact .inr ⟨e, rfl, hends e⟩
  · refine .inl ⟨rfl, ?_⟩
    rw [lift_ok_bind]
    split
    · exact survives_pure
    · exact hlast rfl fun _ => rfl
    · exact hlast rfl fun _ => rfl

/-- A batch, whose failure is the run's. -/
theorem does_batch {plan : SyncPlan} {checks : List SnapshotCheck}
    {f : Verdicts checks → Exec α} (h : ∀ verdicts, Does acts (f verdicts)) :
    Does acts (request (.verifyRemoteSnapshotBatch plan.scope plan.rules checks) >>=
      fun reply : Except ExecError (Verdicts checks) => lift reply >>= f) := by
  refine does_request (.inl rfl) fun reply => ?_
  rcases reply with e | verdicts
  · exact .inr fails_fail
  · exact .inl ⟨rfl, h verdicts⟩

/-! ## Sources and type conflicts -/

/-- A part that may leave a path for the next run. -/
abbrev Leaves (acts : RunEntry → Prop) (relative : RelPath) : Prop :=
  ∀ reason, acts (.told (.pathDeferred relative reason))

theorem does_preflightOne {entry : LocalEntry} {relative : RelPath} (h : Leaves acts relative) :
    Does acts (preflightOne entry relative) := by
  refine does_checkCancelled.bind fun _ => does_request (.inl rfl) fun reply => ?_
  rcases reply with e | ⟨⟩
  · cases he : DeferReason.forPathError e with
    | none => exact .inr (fails_deferLocal he)
    | some reason =>
      exact .inl ⟨by simp [Call.ends, failedWith, ExecError.isPathError, he], does_deferLocal h⟩
  · exact .inl ⟨rfl, takes_pure⟩

theorem does_preflight {plan : SyncPlan} (huploads : ∀ a ∈ plan.uploads, Leaves acts a.entry.relative)
    (hcopies : ∀ a ∈ plan.copies, Leaves acts a.toRelative) : Does acts (preflight plan) :=
  (takes_forM _ fun a ha => does_preflightOne (huploads a ha)).bind fun _ =>
    takes_forM _ fun a ha => does_preflightOne (hcopies a ha)

theorem does_preDeleteChanged {kept : KeptSet} {action : DeleteAction} {verdict : SnapshotVerdict} :
    Does acts (preDeleteChanged kept action verdict) := by
  unfold preDeleteChanged
  split
  · exact takes_pure
  · have hlive : Survives ExecError.isChange acts (verifyLiveSnapshot (deleteSnapshotCheck action)) :=
      survives_verifyLiveSnapshot fun _ h => .inl h
    refine hlive.attempt_bind (fun _ => takes_pure) fun e => ?_
    cases e with
    | remoteSnapshotChanged path => exact .inl ⟨rfl, takes_pure⟩
    | _ => exact .inr fails_fail

/-- What a part may do about one deletion: send it, report it, and leave it. -/
structure DeleteActs (acts : RunEntry → Prop) (action : DeleteAction) (event : ExecutionEvent) :
    Prop where
  call : ∀ reply, acts (.asked (.deleteNonRecursive action.remotePath) reply)
  event : acts (.told event)
  leaves : Leaves acts action.relative

theorem does_preDeleteOne {kept : KeptSet} {planned : DeleteAction × SnapshotVerdict}
    (h : DeleteActs acts planned.1 (.typeConflictDeleted planned.1.remotePath)) :
    Does acts (preDeleteOne kept planned) := by
  refine does_checkCancelled.bind fun _ => does_preDeleteChanged.bind fun changed => ?_
  split
  · exact (does_defer (h.leaves _)).bind fun _ => takes_pure
  · refine does_request (.inr h.call) fun reply => ?_
    rcases reply with e | ⟨⟩
    · exact .inr fails_fail
    · refine .inl ⟨rfl, ?_⟩
      rw [lift_ok_bind]
      exact does_count_report (fun _ => rfl) (by simp) h.event takes_pure

theorem does_preDeletePhase {plan : SyncPlan}
    (h : ∀ a ∈ plan.preDeletes, DeleteActs acts a (.typeConflictDeleted a.remotePath)) :
    Does acts (preDeletePhase plan) := by
  refine Takes.get_bind fun run => does_batch fun verdicts => ?_
  refine (takes_foldlM _ (fun kept planned hp => does_preDeleteOne ?_) _).bind fun _ => takes_pure
  exact h _ (List.mem_filter.mp (List.of_mem_zip hp).1).1

/-! ## Planned writes -/

theorem does_openWrites {plan : SyncPlan} : Does acts (openWrites plan) :=
  takes_get.bind fun _ => Takes.bind (fun _ _ => did_put rfl rfl id) fun _ => takes_pure

theorem does_excludeCovered {γ : Type} {relative : γ → RelPath} {slots : List (Slot γ)} :
    Does acts (excludeCovered relative slots) :=
  takes_get.bind fun _ => (takes_forM _ fun _ _ => does_settle).bind fun _ => takes_pure

/-- What a part may do about one folder to create. -/
structure CreateActs (acts : RunEntry → Prop) (action : CreateAction) : Prop where
  call : ∀ reply, acts (.asked (.createFolder action.remotePath) reply)
  event : acts (.told (.directoryCreated action.remotePath))
  leaves : Leaves acts action.relative

theorem does_createOne {slot : Slot CreateAction} (h : slot.isOpen = true → CreateActs acts slot.action) :
    Does acts (createOne slot) := by
  refine does_checkCancelled.bind fun _ => ?_
  split
  · exact takes_pure
  · rename_i hopen
    have hacts := h (by simpa using hopen)
    refine does_covering.bind fun covered => ?_
    split
    · exact does_settle.bind fun _ => does_checkBreaker
    · refine does_request (.inr hacts.call) fun reply => ?_
      rcases reply with e | ⟨⟩
      · cases e with
        | remoteRefused operation path code description =>
          exact .inl ⟨rfl, does_settle.bind fun _ =>
            (does_defer (hacts.leaves _)).bind fun _ => does_checkBreaker⟩
        | _ => exact .inr fails_fail
      · exact .inl ⟨rfl, does_settle.bind fun _ =>
          does_count_report (fun _ => rfl) (by simp) hacts.event takes_pure⟩

/-- What a part may do about one server-side copy: ask for it, or upload in its place. -/
structure CopyActs (acts : RunEntry → Prop) (action : CopyAction) : Prop where
  call : ∀ reply, acts (.asked (.copyFileVerified action) reply)
  event : acts (.told (.remoteContentCopied action.fromRemotePath action.toRemotePath
    action.expectedSize))
  upload : ∀ reply, acts (.asked (.upload action.entry action.toRemotePath) reply)
  uploaded : acts (.told (.copyFallbackUploaded action.entry.relative action.expectedSize))
  leaves : Leaves acts action.toRelative

theorem does_excludeCopy {slot : Slot CopyAction} {leave : Exec Unit} (h : Does acts leave) :
    Does acts (excludeCopy slot leave) :=
  does_settle.bind fun _ => h.bind fun _ => does_checkBreaker

theorem does_uploadPreconditionHolds {remotePath : RelPath} {expected : Option RemoteSnapshot} :
    Does acts (uploadPreconditionHolds remotePath expected) := by
  refine does_request (.inl rfl) fun reply => ?_
  rcases reply with e | state
  · exact .inr fails_fail
  · exact .inl ⟨rfl, takes_pure⟩

omit [Unicode] in
/-- The answers of an upload: a failure of the path is left for the next run. -/
theorem ends_upload {entry : LocalEntry} {remotePath : RelPath} {error : ExecError} :
    Call.ends (.upload entry remotePath) (.error error) = (DeferReason.forPathError error).isNone := by
  simp [Call.ends, failedWith, ExecError.isPathError]

theorem does_copyFallback {slot : Slot CopyAction} {copyError : ExecError}
    (h : CopyActs acts slot.action) : Does acts (copyFallback slot copyError) := by
  refine does_uploadPreconditionHolds.bind fun holds => ?_
  split
  · refine does_request (.inr h.upload) fun reply => ?_
    rcases reply with e | ⟨⟩
    · cases he : DeferReason.forPathError e with
      | none => exact .inr (does_settle.bind_fails fun _ => (fails_deferLocal he).bind)
      | some reason =>
        exact .inl ⟨by simp [ends_upload, he], does_settle.bind fun _ =>
          (does_deferLocal h.leaves).bind fun _ => does_checkBreaker.bind fun _ => takes_pure⟩
    · exact .inl ⟨rfl, does_settle.bind fun _ =>
        does_count_report (fun _ => rfl) (by simp) h.uploaded takes_pure⟩
  · exact (does_excludeCopy (does_defer (h.leaves _))).bind fun _ => takes_pure

omit [Unicode] in
theorem ends_preflightUploadSource {entry : LocalEntry} {error : ExecError}
    (h : Call.ends (.preflightUploadSource entry) (.error error) = true) :
    DeferReason.forPathError error = none := by
  have : (DeferReason.forPathError error).isSome = false := by
    simpa [Call.ends, failedWith, ExecError.isPathError] using (Bool.and_eq_true_iff.mp h).1
  simpa using this

/-- A failure is left for the next run, or ends this one. -/
theorem does_or_fails_deferLocal {relative : RelPath} {error : ExecError} {ends : Bool}
    (h : Leaves acts relative) (hends : ends = true → DeferReason.forPathError error = none) :
    (ends = false ∧ Does acts (deferLocal relative error)) ∨
      Fails acts (deferLocal relative error) := by
  cases ends with
  | false => exact .inl ⟨rfl, does_deferLocal h⟩
  | true => exact .inr (fails_deferLocal (hends rfl))

theorem does_copyVerified {slot : Slot CopyAction} (h : CopyActs acts slot.action) :
    Does acts (copyVerified slot) := by
  refine does_request (.inr h.call) fun reply => ?_
  rcases reply with e | ⟨⟩
  · cases e with
    | serverCopyNotStarted => exact .inl ⟨rfl, does_copyFallback h⟩
    | serverCopyFailed destination detail => exact .inl ⟨rfl, does_copyFallback h⟩
    | _ => exact .inr fails_fail
  · refine .inl ⟨rfl, does_settle.bind fun _ =>
      does_count_report (fun _ => rfl) (by simp) h.event ?_⟩
    refine does_request (.inl rfl) fun reply => ?_
    rcases reply with e | ⟨⟩
    · exact (does_or_fails_deferLocal h.leaves ends_preflightUploadSource).imp
        (And.imp id fun h => h.bind fun _ => takes_pure) Fails.bind
    · exact .inl ⟨rfl, takes_pure⟩

theorem does_copyBlocked {slot : Slot CopyAction} {verdict : SnapshotVerdict}
    (h : Leaves acts slot.action.toRelative) : Does acts (copyBlocked slot verdict) := by
  have hleave : ∀ {detail : String}, Does acts (do
      excludeCopy slot (defer slot.action.toRelative .remoteChanged detail)
      return true) := (does_excludeCopy (does_defer (h _))).bind fun _ => takes_pure
  unfold copyBlocked
  split
  · exact hleave
  · refine does_request (.inl rfl) fun reply => ?_
    rcases reply with e | ⟨⟩
    · refine (does_or_fails_deferLocal h ends_preflightUploadSource).imp
        (And.imp id fun h => (does_excludeCopy h).bind fun _ => takes_pure) fun h => ?_
      exact (does_settle.bind_fails fun _ => h.bind).bind
    · have hlive : Survives ExecError.isChange acts
          (verifyLiveSnapshot (copySourceCheck slot.action)) :=
        survives_verifyLiveSnapshot fun _ h => .inl h
      refine .inl ⟨rfl, hlive.attempt_bind (fun _ => takes_pure) fun e => ?_⟩
      cases e with
      | remoteSnapshotChanged path => exact .inl ⟨rfl, hleave⟩
      | _ => exact .inr fails_fail

theorem does_copyOne {copied : List CopyAction} {planned : Slot CopyAction × SnapshotVerdict}
    (h : CopyActs acts planned.1.action) : Does acts (copyOne copied planned) := by
  refine does_checkCancelled.bind fun _ => (does_copyBlocked h.leaves).bind fun blocked => ?_
  split
  · exact takes_pure
  · exact (does_copyVerified h).bind fun _ => takes_pure

/-- A live check whose failure, whatever it is, is the run's. -/
theorem does_verifyLiveSnapshot {check : SnapshotCheck} : Does acts (verifyLiveSnapshot check) := by
  have hlive : Survives (fun _ => false) acts (verifyLiveSnapshot check) :=
    survives_verifyLiveSnapshot fun _ h => by simp at h
  exact fun env w => wp_mono (hlive env w) (fun _ _ h => h) fun _ _ h => h.1

theorem does_countSilent {f : ExecutionReport → ExecutionReport}
    (h : ∀ c, (f c).summary = c.summary) : Does acts (count f) :=
  fun _ _ => did_put rfl (h _) id

theorem does_verifyCopied {planned : SnapshotCheck × SnapshotVerdict} :
    Does acts (verifyCopied planned) := by
  obtain ⟨check, verdict⟩ := planned
  cases verdict with
  | changed => exact fails_fail.bind.does
  | mtimeNotKept =>
    refine Takes.bind ?_ fun _ => does_verifyLiveSnapshot
    exact does_countSilent fun _ => rfl
  | matching => exact does_verifyLiveSnapshot

theorem does_copyPhase {plan : SyncPlan} {slots : List (Slot CopyAction)}
    (h : ∀ slot ∈ openActions slots, CopyActs acts slot.action) : Does acts (copyPhase plan slots) :=
  does_batch fun _ => (takes_foldlM _ (fun _ _ hp => does_copyOne
    (h _ (List.of_mem_zip hp).1)) _).bind fun _ => does_batch fun _ =>
      takes_forM _ fun _ _ => does_verifyCopied

/-! ## Mirror deletions -/

omit [Unicode] in
theorem isPathError_of_isLocalError {error : ExecError} (h : error.isLocalError = true) :
    error.isPathError = true := by
  cases error <;> simp_all [ExecError.isLocalError, ExecError.isPathError,
    DeferReason.forPathError, DeferReason.forLocalError]

theorem does_landedChecks {plan : SyncPlan} : Does acts (landedChecks plan) := by
  refine Takes.get_bind fun run => ?_
  split
  · exact takes_pure
  · refine (takes_forM _ fun action _ => ?_).bind fun _ => takes_pure
    refine does_checkCancelled.bind fun _ => does_request (.inl rfl) fun reply => ?_
    rcases reply with e | ⟨⟩
    · cases hlocal : (DeferReason.forLocalError e).isSome with
      | true =>
        refine .inl ⟨?_, by simpa [hlocal] using takes_pure⟩
        have hpath : e.isPathError = true := isPathError_of_isLocalError hlocal
        simp [Call.ends, failedWith, hpath]
      | false => exact .inr (by simpa [hlocal] using fails_fail)
    · exact .inl ⟨rfl, takes_pure⟩

/-- What follows the batch of the deletions: it is counted, and the uploads are looked at. -/
def afterBatch (guards : List SnapshotVerdict) (uploads : List (SnapshotCheck × SnapshotVerdict))
    (checks : List SnapshotCheck) (result : α) : Exec α := do
  guards.forM fun verdict =>
    if verdict = .mtimeNotKept then
      count fun completed => { completed with mtimeNotKept := completed.mtimeNotKept + 1 }
    else pure ()
  uploads.forM fun planned =>
    if planned.2 = .changed then fail (.remoteSnapshotChanged planned.1.remotePath) else pure ()
  checks.forM verifyLiveSnapshot
  return result

section AfterBatch

variable {guards : List SnapshotVerdict} {uploads : List (SnapshotCheck × SnapshotVerdict)}
  {checks : List SnapshotCheck} {result : α}

theorem does_afterBatch : Does acts (afterBatch guards uploads checks result) := by
  refine Takes.bind (takes_forM _ fun verdict _ => ?_) fun _ => ?_
  · split
    · exact does_countSilent fun _ => rfl
    · exact takes_pure
  refine Takes.bind (takes_forM _ fun planned _ => ?_) fun _ => ?_
  · split
    · exact takes_fail
    · exact takes_pure
  · exact (takes_forM _ fun _ _ => does_verifyLiveSnapshot).bind fun _ => takes_pure

end AfterBatch

theorem does_judgeDeletes {plan : SyncPlan} : Does acts (judgeDeletes plan) :=
  does_landedChecks.bind fun _ => does_batch fun _ => does_afterBatch

theorem does_or_fails_localRuling {error : ExecError} :
    ((error.isChange || error.isLocalError) = true ∧ Does acts (localRuling error)) ∨
      Fails acts (localRuling error) := by
  unfold localRuling
  cases h : DeferReason.forLocalError error with
  | some reason => exact .inl ⟨by simp [ExecError.isLocalError, h], takes_pure⟩
  | none => exact .inr fails_fail

theorem does_guardRuling {guard : DestinationGuard} : Does acts (guardRuling guard) := by
  refine does_covering.bind fun covered => ?_
  split
  · exact takes_pure
  · have hproof : Survives (fun e => e.isChange || e.isLocalError) acts (do
        lift (← request (.preflightUploadSource guard.entry))
        verifyLiveSnapshot (guardSnapshotCheck guard)) := by
      refine survives_request rfl fun reply => ?_
      rcases reply with e | ⟨⟩
      · refine .inr ⟨e, rfl, fun h => ?_⟩
        rcases (Bool.or_eq_true _ _).mp h with h | h
        · simp [Call.ends, failedWith, h]
        · simp [Call.ends, failedWith, isPathError_of_isLocalError h]
      · exact .inl ⟨rfl, survives_verifyLiveSnapshot fun e h => (Bool.or_eq_true _ _).mp h⟩
    refine hproof.attempt_bind (fun _ => takes_pure) fun e => ?_
    cases e with
    | remoteSnapshotChanged path => exact .inl ⟨rfl, takes_pure⟩
    | contentVerificationFailed path => exact .inl ⟨rfl, takes_pure⟩
    | _ => exact does_or_fails_localRuling

theorem does_liveRuling {action : DeleteAction} : Does acts (liveRuling action) := by
  have hlive : Survives ExecError.isChange acts (verifyLiveSnapshot (deleteSnapshotCheck action)) :=
    survives_verifyLiveSnapshot fun _ h => .inl h
  refine hlive.attempt_bind (fun _ => takes_pure) fun e => ?_
  cases e with
  | remoteSnapshotChanged path => exact .inl ⟨rfl, takes_pure⟩
  | contentVerificationFailed path => exact .inl ⟨rfl, takes_pure⟩
  | _ => exact .inr fails_fail

theorem does_guardAndLiveRuling {action : DeleteAction} : Does acts (guardAndLiveRuling action) := by
  unfold guardAndLiveRuling
  split
  · exact does_liveRuling
  · refine does_guardRuling.bind fun ruling => ?_
    split
    · exact takes_pure
    · exact does_liveRuling

theorem does_deleteRuling {kept : KeptSet} {action : DeleteAction} {changed : Bool} :
    Does acts (deleteRuling kept action changed) := by
  unfold deleteRuling
  split
  · exact takes_pure
  · refine Takes.get_bind fun run => ?_
    split
    · exact takes_pure
    · refine does_request (.inl rfl) fun presence => .inl ⟨rfl, ?_⟩
      split
      · exact takes_pure
      · split
        · exact takes_pure
        · exact does_guardAndLiveRuling

theorem does_skipDelete {action : DeleteAction} {reason : DeleteKeptReason}
    (h : acts (.told (.remoteExtraDeleteSkipped action.remotePath action.relative reason))) :
    Does acts (skipDelete action reason) :=
  does_count_report (fun _ => rfl) (by simp) h takes_pure

theorem does_postDelete {kept : Kept} {action : DeleteAction}
    (h : DeleteActs acts action (.remoteExtraDeleted action.remotePath)) :
    Does acts (postDelete kept action) := by
  refine does_request (.inr h.call) fun reply => ?_
  rcases reply with e | ⟨⟩
  · cases he : concernsRun e with
    | true =>
      refine .inr ((does_defer (h.leaves _)).bind_fails fun _ => ?_)
      simpa [he] using fails_fail
    | false =>
      refine .inl ⟨by simpa [Call.ends, failedWith] using he, ?_⟩
      exact (does_defer (h.leaves _)).bind fun _ => by simpa [he] using takes_pure
  · exact .inl ⟨rfl, does_count_report (fun _ => rfl) (by simp) h.event takes_pure⟩

/-- What a part may do about one mirror deletion. -/
structure MirrorActs (acts : RunEntry → Prop) (action : DeleteAction) : Prop where
  deletes : DeleteActs acts action (.remoteExtraDeleted action.remotePath)
  skips : ∀ reason, acts (.told (.remoteExtraDeleteSkipped action.remotePath action.relative reason))

theorem does_postDeleteOne {kept : Kept} {planned : DeleteAction × Bool}
    (h : MirrorActs acts planned.1) : Does acts (postDeleteOne kept planned) := by
  refine does_checkCancelled.bind fun _ => does_deleteRuling.bind fun ruling => ?_
  cases ruling with
  | keptDescendant => exact (does_skipDelete (h.skips _)).bind fun _ => takes_pure
  | related other reason => exact (does_defer (h.deletes.leaves _)).bind fun _ => takes_pure
  | present spelling => exact (does_skipDelete (h.skips _)).bind fun _ => takes_pure
  | deferred reason detail => exact (does_defer (h.deletes.leaves _)).bind fun _ => takes_pure
  | proceed => exact does_postDelete h.deletes

omit [Unicode] in
theorem length_changedDeletes {actions : List DeleteAction} {verdicts guards : List SnapshotVerdict} :
    (changedDeletes actions verdicts guards).length = actions.length := by
  induction actions generalizing verdicts guards with
  | nil => rfl
  | cons action actions ih =>
    unfold changedDeletes
    dsimp only
    split <;> simp [ih]

/-- Every planned deletion is judged, in the plan's order. -/
theorem returns_judgeDeletes {plan : SyncPlan} :
    Returns (fun deletes => deletes.map (·.1) = plan.postDeletes) (judgeDeletes plan) :=
  returns_bind fun _ => returns_bind fun _ => returns_bind fun _ => returns_bind fun _ =>
    returns_bind fun _ => returns_bind fun _ => returns_pure
      (List.map_fst_zip (by rw [length_changedDeletes]))

theorem does_postDeletePhase {plan : SyncPlan} (h : ∀ a ∈ plan.postDeletes, MirrorActs acts a) :
    Does acts (postDeletePhase plan) := by
  refine does_judgeDeletes.bind_returns returns_judgeDeletes fun deletes hdeletes => ?_
  refine takes_foldlM _ (fun kept planned hp => does_postDeleteOne (h _ ?_)) _
  rw [← hdeletes]
  exact List.mem_map_of_mem hp

/-! ## Follow-up uploads and renames -/

/-- What a part may do about one kept deletion whose file is back. -/
structure FollowUpActs (acts : RunEntry → Prop) (relative : RelPath) (target : RelPath) : Prop where
  upload : ∀ entry reply, acts (.asked (.upload entry target) reply)
  event : ∀ bytes, acts (.told (.keptDeleteUploaded relative bytes))

theorem does_leaveVanished {plan : SyncPlan} {relative spelling : RelPath}
    (h : Leaves acts relative) : Does acts (leaveVanished plan relative spelling) := by
  refine does_request (.inl rfl) fun reply => .inl ⟨rfl, ?_⟩
  rcases reply with ⟨kind, source⟩ | ⟨⟩
  · cases kind with
    | notFound => exact does_defer (h _)
    | _ => exact does_deferLocal h
  · exact does_defer (h _)

theorem does_followUpUpload {relative : RelPath} {entry : LocalEntry} {target : DeleteAction}
    (h : FollowUpActs acts relative target.remotePath) (hl : Leaves acts relative) :
    Does acts (followUpUpload relative entry target) := by
  have hsource : Survives ExecError.isPathError acts (do
      let entry ← promoteToFullFingerprint entry
      lift (← request (.preflightUploadReadable entry))
      return entry) := by
    refine Survives.bind ?_ fun entry => survives_request rfl fun reply => ?_
    · unfold promoteToFullFingerprint
      split
      · exact survives_pure
      · refine survives_request rfl fun reply => ?_
        rcases reply with e | fingerprint
        · exact .inr ⟨e, rfl, fun h => by simp [Call.ends, failedWith, h]⟩
        · exact .inl ⟨rfl, survives_pure⟩
    · rcases reply with e | ⟨⟩
      · exact .inr ⟨e, rfl, fun h => by simp [Call.ends, failedWith, h]⟩
      · exact .inl ⟨rfl, survives_pure⟩
  refine hsource.attempt_bind (fun entry => ?_) fun e => ?_
  · refine does_uploadPreconditionHolds.bind fun holds => ?_
    split
    · refine does_request (.inr (h.upload entry)) fun reply => ?_
      rcases reply with e | ⟨⟩
      · refine does_or_fails_deferLocal hl fun hends => ?_
        simpa [ends_upload] using hends
      · exact .inl ⟨rfl, does_count_report (fun _ => rfl) (by simp) (h.event _) takes_pure⟩
    · exact does_defer (hl _)
  · cases he : DeferReason.forPathError e with
    | some reason => exact .inl ⟨by simp [ExecError.isPathError, he], does_deferLocal hl⟩
    | none => exact .inr (fails_deferLocal he)

theorem does_followUpOne {plan : SyncPlan} {reappeared : RelPath × RelPath}
    (h : ∀ target, keptUploadTarget plan reappeared.1 = some target →
      FollowUpActs acts reappeared.1 target.remotePath) (hl : Leaves acts reappeared.1) :
    Does acts (followUpOne plan reappeared) := by
  refine does_checkCancelled.bind fun _ => does_request (.inl rfl) fun reply => ?_
  rcases reply with e | _ | entry
  · refine does_or_fails_deferLocal hl fun hends => ?_
    simpa [Call.ends, failedWith, ExecError.isPathError] using hends
  · exact .inl ⟨rfl, does_leaveVanished hl⟩
  · refine .inl ⟨rfl, ?_⟩
    dsimp only
    split
    · exact takes_pure
    · split
      · exact does_defer (hl _)
      · split
        · exact takes_pure
        · rename_i target htarget
          exact does_followUpUpload (h target htarget) hl

/-- What a part may do about one case-only rename. -/
structure RenameActs (acts : RunEntry → Prop) (action : RenameAction) : Prop where
  call : ∀ reply, acts (.asked (.rename action.fromRemotePath action.newName) reply)
  event : ∀ renamed, acts (.told (.renamed action.fromRemotePath renamed))
  leaves : Leaves acts action.relative

theorem does_renameOne {action : RenameAction} (h : RenameActs acts action) :
    Does acts (renameOne action) := by
  refine does_checkCancelled.bind fun _ => Takes.get_bind fun run => ?_
  split
  · exact does_defer (h.leaves _)
  · refine does_request (.inr h.call) fun reply => ?_
    rcases reply with e | renamed
    · cases he : renameConcernsRun e with
      | true => exact .inr (by simpa [he] using fails_fail)
      | false =>
        refine .inl ⟨by simpa [Call.ends, failedWith] using he, ?_⟩
        simpa [he] using does_defer (h.leaves _)
    · exact .inl ⟨rfl, does_count_report (fun _ => rfl) (by simp) (h.event _) takes_pure⟩

theorem does_executeRenames {plan : SyncPlan} (h : ∀ a ∈ plan.renames, RenameActs acts a) :
    Does acts (executeRenames plan) := by
  unfold executeRenames
  split
  · exact takes_pure
  · refine does_request (.inl rfl) fun supported => .inl ⟨rfl, ?_⟩
    split
    · exact takes_forM _ fun a ha => does_renameOne (h a ha)
    · exact takes_forM _ fun a ha => does_defer ((h a ha).leaves _)

end Run
end DriveSync
