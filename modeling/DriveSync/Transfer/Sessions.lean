import DriveSync.Lib.Loop
import DriveSync.Transfer.Evidence

/-!
# DriveSync.Transfer.Sessions

What the attempts under one session come to.

* `Session`  — the budget of a session, and what stands before each of its further attempts.
* `Underway` — the invariant of the loop over the attempts: what the log shows before each of them.
* `Ended`    — the session with its result: the evidence for a success, and what a change of the
  source is reported as.
-/

namespace DriveSync
namespace Transfer

open Prog

section Definitions

variable (client : Client) (job : Job)

/-- What the log shows after the last attempt it holds. -/
def AfterLastSend (P : Log → Prop) (log : Log) : Prop :=
  ∃ pre form transmission post,
    log = pre ++ answered (.runUploadRequest form) transmission :: post ∧ sends post = [] ∧ P post

/-- The last attempt was sent to repair an overwrite that the attempt before it had torn. -/
def RepairsTear (log : Log) : Prop :=
  ∃ pre post, log = pre ++ post ∧ (sends post).length = 1 ∧ AfterLastSend (Torn client job) pre

/-- What another attempt may follow: attempts that failed, and no failure that may not be tried
again. -/
structure Unfinished (log : Log) : Prop where
  mayRetry : ∀ entry ∈ log, MayRetry client job entry
  failed : ∀ transmission ∈ sends log, ∃ e, outcomeOf client job transmission = .error e ∧
    e.retryable = true

/-- The attempts of one session. -/
structure Session (log : Log) : Prop where
  bounded : (sends log).length ≤ client.retries + 1 ∨
    (sends log).length = client.retries + 2 ∧ RepairsTear client job log
  retried : ∀ pre post, log = pre ++ post → sends post ≠ [] → Unfinished client job pre

/-- Bytes that are known not to be the planned ones: DSM accepted others, or the reader refused to
end the body and the attempt failed. -/
def NotAsPlanned (transmission : Transmission) : Prop :=
  transmission.answer client.describe = .ok () ∧ Differs client job transmission ∨
    outcomeOf client job transmission = .error (.sourceChanged job.source.fullPath)

/-- What a change of the source is reported as: itself, a cancelled run, a source that is gone, or
where the attempt was to repair a tear, the tear. -/
def ReportsChange (log : Log) (e : Error) : Prop :=
  e = .sourceChanged job.source.fullPath ∨ e = .cancelled ∨
    (∃ text, e = .fileIo job.source.fullPath text) ∨
    RepairsTear client job log ∧
      ∃ e' : Error, (e' = .sourceChanged job.source.fullPath ∨ e' = .cancelled) ∧
        e = e'.tornOverwriteError (absolute job.remoteFile)

/-- A session, and what it ends with. -/
structure Ended (log : Log) (result : Except Error Unit) : Prop where
  session : Session client job log
  verified : result = .ok () → AfterLastSend (Verified client job) log
  changed : ∀ transmission, (sends log).getLast? = some transmission →
    NotAsPlanned client job transmission →
      ∃ e, result = .error e ∧ ReportsChange client job log e
  blames : ∀ e, result = .error e → e.sessionCode = true →
    ∃ entry ∈ log, failure client job entry = some e

/-- What the log shows before an attempt. -/
structure Underway (attempts : Attempts) (log : Log) : Prop where
  unfinished : Unfinished client job log
  within : attempts.tearFound = none → attempts.lastAttempt = client.retries ∧
    attempts.attempt ≤ client.retries ∧ (sends log).length = attempts.attempt
  extra : attempts.tearFound ≠ none → ¬attempts.attempt < attempts.lastAttempt ∧
    (sends log).length = client.retries + 1 ∧ AfterLastSend (Torn client job) log

end Definitions

variable {client : Client} {job : Job} {l l' : Log} {attempts : Attempts}

theorem sends_singleton {form : UploadRequest} {transmission : Transmission} :
    sends [answered (.runUploadRequest form) transmission] = [transmission] := rfl

theorem Unfinished.of_append (h : Unfinished client job (l ++ l')) : Unfinished client job l :=
  ⟨fun entry hentry => h.mayRetry entry (List.mem_append_left _ hentry),
    fun transmission ht => h.failed transmission (by simp [ht])⟩

theorem Unfinished.append_calm (h : Unfinished client job l) (h' : Calm client job l') :
    Unfinished client job (l ++ l') := by
  refine ⟨fun entry hentry => ?_, fun transmission ht => h.failed transmission ?_⟩
  · rcases List.mem_append.mp hentry with hentry | hentry
    · exact h.mayRetry entry hentry
    · exact h'.mayRetry entry hentry
  · simpa [h'.unsent] using ht

theorem Unfinished.append_send (h : Unfinished client job l) {form : UploadRequest}
    {transmission : Transmission} {e : Error} (he : outcomeOf client job transmission = .error e)
    (hr : e.retryable = true) :
    Unfinished client job (l ++ [answered (.runUploadRequest form) transmission]) := by
  refine ⟨fun entry hentry => ?_, fun t ht => ?_⟩
  · rcases List.mem_append.mp hentry with hentry | hentry
    · exact h.mayRetry entry hentry
    · obtain rfl := List.mem_singleton.mp hentry
      intro e' he'
      have : failure client job (answered (.runUploadRequest form) transmission) = some e := by
        simp only [failure, he]
        rfl
      rw [this] at he'
      exact Option.some.inj he' ▸ hr
  · rw [sends_append, sends_singleton] at ht
    rcases List.mem_append.mp ht with ht | ht
    · exact h.failed t ht
    · obtain rfl := List.mem_singleton.mp ht
      exact ⟨e, he, hr⟩

theorem Unfinished.append_attempt (h : Unfinished client job l) {a rest : Log}
    {form : UploadRequest} {transmission : Transmission} {e : Error} (ha : Calm client job a)
    (he : outcomeOf client job transmission = .error e) (hr : e.retryable = true)
    (hrest : Calm client job rest) :
    Unfinished client job (l ++ (a ++ answered (.runUploadRequest form) transmission :: rest)) := by
  have hall : Unfinished client job
      (l ++ a ++ [answered (.runUploadRequest form) transmission] ++ rest) :=
    ((h.append_calm ha).append_send he hr).append_calm hrest
  simpa using hall

/-- Nothing more is sent after the first entry of what follows: what stands before an attempt is
what was unfinished. -/
theorem retried_of {rest : Log} (h : Unfinished client job l)
    (hrest : ∀ pre post, rest = pre ++ post → sends post ≠ [] → pre = []) :
    ∀ pre post, l ++ rest = pre ++ post → sends post ≠ [] → Unfinished client job pre := by
  intro pre post heq hpost
  rcases List.append_eq_append_iff.mp heq with ⟨c, rfl, hc⟩ | ⟨c, rfl, hc⟩
  · rw [hrest c post hc hpost, List.append_nil]
    exact h
  · exact h.of_append

theorem sends_suffix_nil {pre post : Log} (h : sends (pre ++ post) = []) : sends post = [] := by
  rw [sends_append] at h
  exact (List.append_eq_nil_iff.mp h).2

theorem session_of_unsent (h : Underway client job attempts l) (hl' : sends l' = []) :
    Session client job (l ++ l') := by
  refine ⟨.inl ?_, retried_of h.unfinished ?_⟩
  · rw [sends_append, hl', List.append_nil]
    by_cases htear : attempts.tearFound = none
    · have := h.within htear
      omega
    · rw [(h.extra htear).2.1]
  · rintro pre post rfl hpost
    exact absurd (sends_suffix_nil hl') hpost

theorem sends_sent {a rest : Log} {form : UploadRequest} {transmission : Transmission}
    (ha : Calm client job a) (hrest : sends rest = []) :
    sends (a ++ answered (.runUploadRequest form) transmission :: rest) = [transmission] := by
  rw [sends_append, ha.unsent, sends_cons, hrest]
  rfl

/-- The attempt after a torn one is there to repair it. -/
theorem repairsTear_of_sent (h : Underway client job attempts l) (htear : attempts.tearFound ≠ none)
    {a rest : Log} {form : UploadRequest} {transmission : Transmission} (ha : Calm client job a)
    (hrest : sends rest = []) :
    RepairsTear client job (l ++ (a ++ answered (.runUploadRequest form) transmission :: rest)) :=
  ⟨l, _, rfl, by rw [sends_sent ha hrest]; rfl, (h.extra htear).2.2⟩

theorem session_of_sent (h : Underway client job attempts l) {a rest : Log} {form : UploadRequest}
    {transmission : Transmission} (ha : Calm client job a) (hrest : sends rest = []) :
    Session client job (l ++ (a ++ answered (.runUploadRequest form) transmission :: rest)) := by
  refine ⟨?_, ?_⟩
  · rw [sends_append, sends_sent ha hrest, List.length_append, List.length_singleton]
    by_cases htear : attempts.tearFound = none
    · have := h.within htear
      exact .inl (by omega)
    · rw [(h.extra htear).2.1]
      exact .inr ⟨rfl, repairsTear_of_sent h htear ha hrest⟩
  · rw [← List.append_assoc]
    refine retried_of (h.unfinished.append_calm ha) ?_
    rintro (_ | ⟨entry, pre⟩) post heq hpost
    · rfl
    · obtain ⟨-, rfl⟩ := List.cons.inj heq
      exact absurd (sends_suffix_nil hrest) hpost

/-! ## What an attempt says of the bytes it sent -/

variable (job) in
/-- An answer that accepts the attempt stands, unless the reader noticed something. -/
theorem outcome_of_accepted {transmission : Transmission}
    (h : transmission.answer client.describe = .ok ()) :
    outcomeOf client job transmission = .ok () ∨ outcomeOf client job transmission =
      .error .cancelled ∨ outcomeOf client job transmission =
        .error (.sourceChanged job.source.fullPath) := by
  simp only [outcomeOf, Transmission.outcome, h, prioritizeObserverCancellation]
  split
  · simp only [prioritizeSourceChange]
    split
    · exact .inr (.inr rfl)
    · exact .inr (.inl rfl)
  · exact .inl rfl

/-- An attempt that may be sent again says nothing against its bytes. -/
theorem Unfinished.notAsPlanned (h : Unfinished client job l) {transmission : Transmission}
    (ht : transmission ∈ sends l) : ¬NotAsPlanned client job transmission := by
  obtain ⟨e, he, hr⟩ := h.failed transmission ht
  rintro (⟨haccepted, -⟩ | hchanged)
  · rcases outcome_of_accepted job haccepted with h | h | h <;>
      rw [h] at he <;> cases he <;> cases hr
  · rw [hchanged] at he
    cases he
    cases hr

theorem verifyLocalSnapshot_error {reply : Except String Metadata} {e : Error}
    (h : job.source.verifyLocalSnapshot reply = .error e) :
    e = .sourceChanged job.source.fullPath ∨ ∃ text, e = .fileIo job.source.fullPath text := by
  unfold Source.verifyLocalSnapshot Source.verifyMetadata at h
  split at h
  · cases h; exact .inr ⟨_, rfl⟩
  split at h
  · cases h; exact .inr ⟨_, rfl⟩
  split at h <;> cases h
  exact .inl rfl

/-- After bytes that were not planned were accepted, the session fails, and says why. -/
theorem appends_acceptAttempt {transmission : Transmission} (h : Differs client job transmission) :
    Appends (fun _ _ => False) (fun _ e => e = .sourceChanged job.source.fullPath ∨ e = .cancelled ∨
      ∃ text, e = .fileIo job.source.fullPath text) (acceptAttempt client job transmission) := by
  unfold acceptAttempt
  refine Appends.bind (P := fun _ _ => True) ?_ fun _ _ _ => ?_
  · refine appends_ask_bind fun reply => appends_lift (fun _ _ => trivial) fun e he => ?_
    rcases verifyLocalSnapshot_error he with h | h
    · exact .inl h
    · exact .inr (.inr h)
  unfold verifyUploadLanded
  refine Appends.bind (P := fun _ _ => True) ?_ fun _ _ _ => ?_
  · refine appends_ask_bind fun cancelled => ?_
    cases cancelled
    · exact appends_pure trivial
    · exact appends_fail (.inr (.inl rfl))
  refine Appends.bind (P := fun _ _ => False) ?_ fun _ _ h => h.elim
  unfold verifyBytesSent
  split
  · rw [if_neg (by simpa [Differs] using h)]
    exact appends_fail (.inl rfl)
  · rename_i hstreamed
    simp [Differs, streamedAsPlanned, hstreamed] at h
  · rename_i hnone
    have hentry : job.source.entry.contentMd5 = none := hnone
    simp [Differs, streamedAsPlanned, hentry] at h

/-! ## One attempt -/

theorem ended_of_sent (h : Underway client job attempts l) {a rest : Log} {form : UploadRequest}
    {transmission : Transmission} {result : Except Error Unit} (ha : Calm client job a)
    (hrest : sends rest = []) (hverified : result = .ok () → Verified client job rest)
    (hchanged : NotAsPlanned client job transmission → ∃ e, result = .error e ∧
      ReportsChange client job
        (l ++ (a ++ answered (.runUploadRequest form) transmission :: rest)) e)
    (hblames : ∀ e, result = .error e → e.sessionCode = true →
      outcomeOf client job transmission = .error e ∨
        ∃ entry ∈ rest, failure client job entry = some e) :
    Ended client job (l ++ (a ++ answered (.runUploadRequest form) transmission :: rest))
      result := by
  refine ⟨session_of_sent h ha hrest, fun hok => ?_, fun t ht hnot => ?_, fun e he hs => ?_⟩
  · exact ⟨l ++ a, form, transmission, rest, (List.append_assoc _ _ _).symm, hrest, hverified hok⟩
  · rw [sends_append, sends_sent ha hrest, List.getLast?_concat] at ht
    exact hchanged (Option.some.inj ht ▸ hnot)
  · rcases hblames e he hs with hsent | ⟨entry, hentry, hfailure⟩
    · refine ⟨answered (.runUploadRequest form) transmission, by simp, ?_⟩
      simp only [failure, hsent]
      rfl
    · exact ⟨entry, by simp [hentry], hfailure⟩

theorem ended_of_unsent (h : Underway client job attempts l) {e : Error}
    (hl' : Fails client job l' e) : Ended client job (l ++ l') (.error e) := by
  refine ⟨session_of_unsent h hl'.unsent, fun hok => (by cases hok), fun t ht hnot => ?_, ?_⟩
  · rw [sends_append, hl'.unsent, List.append_nil] at ht
    exact absurd hnot (h.unfinished.notAsPlanned (List.mem_of_getLast? ht))
  · intro e' he' hs
    cases he'
    obtain ⟨entry, hentry, hfailure⟩ := hl'.blames hs
    exact ⟨entry, List.mem_append_right _ hentry, hfailure⟩

theorem underway_next (h : Underway client job attempts l) {a rest : Log} {form : UploadRequest}
    {transmission : Transmission} {e : Error} (ha : Calm client job a)
    (hrest : Calm client job rest) (he : outcomeOf client job transmission = .error e)
    (hr : e.retryable = true) (hmore : attempts.attempt < attempts.lastAttempt) :
    Underway client job attempts.next
      (l ++ (a ++ answered (.runUploadRequest form) transmission :: rest)) := by
  have htear : attempts.tearFound = none := by
    by_contra htear
    exact (h.extra htear).1 hmore
  obtain ⟨hlast, hle, hcount⟩ := h.within htear
  refine ⟨h.unfinished.append_attempt ha he hr hrest, fun _ => ⟨hlast, ?_, ?_⟩,
    fun hne => absurd htear hne⟩
  · rw [Attempts.attempt_next hmore]
    omega
  · rw [sends_append, sends_sent ha hrest.unsent, Attempts.attempt_next hmore, List.length_append,
      hcount]
    rfl

theorem underway_repair (h : Underway client job attempts l) {a rest : Log} {form : UploadRequest}
    {transmission : Transmission} {e : Error} (ha : Calm client job a)
    (hrest : Calm client job rest) (he : outcomeOf client job transmission = .error e)
    (hr : e.retryable = true) (hlast : ¬attempts.attempt < attempts.lastAttempt)
    (htear : attempts.tearFound = none) (htorn : Torn client job rest) :
    Underway client job (attempts.repair e)
      (l ++ (a ++ answered (.runUploadRequest form) transmission :: rest)) := by
  obtain ⟨hretries, hle, hcount⟩ := h.within htear
  refine ⟨h.unfinished.append_attempt ha he hr hrest, fun hnone => (by cases hnone),
    fun _ => ⟨?_, ?_, ?_⟩⟩
  · simp only [Attempts.repair, saturatingIncrement]
    omega
  · rw [sends_append, sends_sent ha hrest.unsent, List.length_append, hcount, List.length_singleton]
    omega
  · exact ⟨l ++ a, form, transmission, rest, (List.append_assoc _ _ _).symm, hrest.unsent, htorn⟩

/-- What an attempt makes of the session whose log it brings about: its end, or the next attempt. -/
abbrev Goes (client : Client) (job : Job) {attempts : Attempts} (whole : Log → Log)
    (p : Upload (NextAttempt attempts)) : Prop :=
  Appends (fun l r => (∀ u, r = .inl u → Ended client job (whole l) (.ok u)) ∧
    ∀ next, r = .inr next → Underway client job next.1 (whole l))
    (fun l e => Ended client job (whole l) (.error e)) p

theorem goes_end {whole : Log → Log} (h : Ended client job (whole []) (.ok ())) :
    Goes client job whole (pure (.inl ()) : Upload (NextAttempt attempts)) :=
  appends_pure ⟨fun _ _ => h, fun _ hnext => (by cases hnext)⟩

theorem goes_next {whole : Log → Log} {next : { t : Attempts // t.left < attempts.left }}
    (h : Underway client job next.1 (whole [])) :
    Goes client job whole (pure (.inr next) : Upload (NextAttempt attempts)) :=
  appends_pure ⟨fun _ hu => (by cases hu), fun _ hnext => Sum.inr.inj hnext ▸ h⟩

section Failed

variable {a : Log} {form : UploadRequest} {transmission : Transmission} {e : Error}

/-- The log of a session whose attempt was sent. -/
abbrev sentLog (l a : Log) (form : UploadRequest) (transmission : Transmission) (rest : Log) :
    Log :=
  l ++ (a ++ answered (.runUploadRequest form) transmission :: rest)

theorem notAsPlanned_error (he : outcomeOf client job transmission = .error e)
    (h : NotAsPlanned client job transmission) :
    e = .sourceChanged job.source.fullPath ∨ e = .cancelled := by
  rcases h with ⟨haccepted, -⟩ | hchanged
  · rcases outcome_of_accepted job haccepted with h | h | h <;> rw [h] at he <;> cases he
    · exact .inr rfl
    · exact .inl rfl
  · rw [hchanged] at he
    cases he
    exact .inl rfl

theorem not_notAsPlanned (he : outcomeOf client job transmission = .error e)
    (hr : e.retryable = true) : ¬NotAsPlanned client job transmission := by
  intro h
  rcases notAsPlanned_error he h with rfl | rfl <;> cases hr

/-- A failure that is no change of the source ends the session. -/
theorem ended_of_retryable (h : Underway client job attempts l) (ha : Calm client job a)
    (he : outcomeOf client job transmission = .error e) (hr : e.retryable = true) {rest : Log}
    (hrest : sends rest = []) {result : Except Error Unit}
    (hverified : result = .ok () → Verified client job rest)
    (hblames : ∀ e, result = .error e → e.sessionCode = true →
      ∃ entry ∈ rest, failure client job entry = some e) :
    Ended client job (sentLog l a form transmission rest) result :=
  ended_of_sent h ha hrest hverified (fun hnot => absurd hnot (not_notAsPlanned he hr))
    fun e he hs => .inr (hblames e he hs)

theorem goes_afterLastAttempt (h : Underway client job attempts l) (ha : Calm client job a)
    (he : outcomeOf client job transmission = .error e) (hr : e.retryable = true)
    (hlast : ¬attempts.attempt < attempts.lastAttempt) :
    Goes client job (sentLog l a form transmission)
      (afterLastAttempt client job attempts e hlast) := by
  have hmessage : ∀ e', e' = e ∨ (∃ text, e' = .message text) →
      (tornError job attempts e').sessionCode = false := by
    intro e' he'
    unfold tornError
    split
    · rfl
    · rcases he' with rfl | ⟨text, rfl⟩
      · by_contra hs
        rw [Error.retryable_of_sessionCode (by simpa using hs)] at hr
        cases hr
      · rfl
  have hended : ∀ rest e', sends rest = [] → (e' = e ∨ ∃ text, e' = .message text) →
      Ended client job (sentLog l a form transmission rest)
        (.error (tornError job attempts e')) := by
    intro rest e' hrest he'
    refine ended_of_retryable h ha he hr hrest (fun hok => (by cases hok)) fun e'' heq hs => ?_
    cases heq
    rw [hmessage e' he'] at hs
    cases hs
  unfold afterLastAttempt
  refine Appends.bind appends_lastAttemptFailedInTransport ?_
  rintro rest ((e' | u) | e') hfound
  · exact appends_fail (by simpa using hended rest e' hfound.1 hfound.2)
  · refine goes_end ?_
    rw [List.append_nil]
    exact ended_of_retryable h ha he hr hfound.1 (fun _ => hfound.2) fun e' heq => (by cases heq)
  · obtain ⟨hcalm, htorn, rfl⟩ := hfound
    dsimp only
    split
    · rename_i htear
      refine appends_modify_bind (goes_next ?_)
      rw [List.append_nil]
      exact underway_repair h ha hcalm he hr hlast htear htorn
    · exact appends_fail (by simpa using hended rest e' hcalm.unsent (.inl rfl))

theorem goes_afterFailure (h : Underway client job attempts l) (ha : Calm client job a)
    (he : outcomeOf client job transmission = .error e) :
    Goes client job (sentLog l a form transmission) (afterFailure client job attempts e) := by
  unfold afterFailure
  split
  · -- the attempt that was to repair a tear failed for good
    rename_i hextra
    simp only [Bool.and_eq_true, Option.isSome_iff_ne_none] at hextra
    have htorn : tornError job attempts e = e.tornOverwriteError (absolute job.remoteFile) := by
      unfold tornError
      split
      · rfl
      · exact absurd ‹_› hextra.1
    rw [htorn]
    refine appends_fail (ended_of_sent h ha rfl (fun hok => (by cases hok)) (fun hnot => ?_) ?_)
    · exact ⟨_, rfl, .inr (.inr (.inr ⟨repairsTear_of_sent h hextra.1 ha rfl, e,
        notAsPlanned_error he hnot, rfl⟩))⟩
    · intro e' heq hs
      cases heq
      cases hs
  split
  · rename_i hretry
    refine Appends.bind (Appends.mono steps_landedBeforeRetry (fun _ _ h => h) fun rest e' hf => ?_) ?_
    · refine ended_of_retryable h ha he hretry.2 hf.unsent (fun hok => (by cases hok)) ?_
      intro e'' heq hs
      cases heq
      exact hf.blames hs
    rintro rest landed ⟨hcalm, hverified⟩
    cases landed with
    | true =>
      refine goes_end ?_
      rw [List.append_nil]
      exact ended_of_retryable h ha he hretry.2 hcalm.unsent (fun _ => hverified rfl)
        fun e' heq => (by cases heq)
    | false =>
      refine goes_next ?_
      rw [List.append_nil]
      exact underway_next h ha hcalm he hretry.2 hretry.1
  split
  · exact goes_afterLastAttempt h ha he ‹_› _
  · refine appends_fail (ended_of_sent h ha rfl (fun hok => (by cases hok)) (fun hnot => ?_) ?_)
    · refine ⟨_, rfl, ?_⟩
      rcases notAsPlanned_error he hnot with rfl | rfl
      · exact .inl rfl
      · exact .inr (.inl rfl)
    · rintro e' heq -
      cases heq
      exact .inl he

end Failed

/-- After an accepted attempt: the evidence for it, or what its bytes are reported as. -/
theorem goes_accepted (h : Underway client job attempts l) {a : Log} {form : UploadRequest}
    {transmission : Transmission} (ha : Calm client job a)
    (hok : outcomeOf client job transmission = .ok ()) :
    Goes client job (sentLog l a form transmission) (do
      acceptAttempt client job transmission
      pure (.inl ()) : Upload (NextAttempt attempts)) := by
  have hdiffers : NotAsPlanned client job transmission → Differs client job transmission := by
    rintro (h | h)
    · exact h.2
    · rw [hok] at h
      cases h
  by_cases hbytes : Differs client job transmission
  · refine Appends.bind (P := fun _ _ => False) (Appends.mono
      (steps_acceptAttempt.and (appends_acceptAttempt hbytes)) (fun _ _ h => h.2) ?_)
      fun _ _ h => h.elim
    rintro rest e ⟨hf, he⟩
    refine ended_of_sent h ha hf.unsent (fun hok => (by cases hok)) (fun _ => ⟨e, rfl, ?_⟩) ?_
    · rcases he with he | he | he
      · exact .inl he
      · exact .inr (.inl he)
      · exact .inr (.inr (.inl he))
    · rintro e' heq hs
      cases heq
      exact .inr (hf.blames hs)
  · refine Appends.bind (Appends.mono steps_acceptAttempt (fun _ _ h => h) fun rest e hf => ?_) ?_
    · refine ended_of_sent h ha hf.unsent (fun hok => (by cases hok))
        (fun hnot => absurd (hdiffers hnot) hbytes) ?_
      rintro e' heq hs
      cases heq
      exact .inr (hf.blames hs)
    · rintro rest _ ⟨hcalm, hverified⟩
      refine goes_end ?_
      rw [List.append_nil]
      exact ended_of_sent h ha hcalm.unsent (fun _ => hverified)
        (fun hnot => absurd (hdiffers hnot) hbytes) fun e heq => (by cases heq)

theorem goes_attemptOnce (h : Underway client job attempts l) {parent : RelPath} {name : Name}
    {firstAttempt : Nat} :
    Goes client job (l ++ ·) (attemptOnce client job parent name firstAttempt attempts) := by
  unfold attemptOnce
  refine Appends.bind
    (Appends.mono appends_sendAttempt (fun _ _ h => h) fun _ _ hf => ended_of_unsent h hf) ?_
  rintro _ transmission ⟨a, form, ha, rfl⟩
  have hlog : ∀ rest, l ++ (a ++ [answered (.runUploadRequest form) transmission] ++ rest) =
      sentLog l a form transmission rest := by simp
  simp only [hlog]
  cases houtcome : outcomeOf client job transmission with
  | ok u => exact goes_accepted h ha houtcome
  | error e => exact goes_afterFailure h ha houtcome

theorem appends_uploadObservedInner :
    Appends (fun l u => Ended client job l (.ok u)) (fun l e => Ended client job l (.error e))
      (uploadObservedInner client job) := by
  have hstart : Underway client job ⟨0, client.retries, none, client.retries_le⟩ [] :=
    ⟨⟨by simp, by simp⟩, fun _ => ⟨rfl, Nat.zero_le _, rfl⟩, fun h => absurd rfl h⟩
  unfold uploadObservedInner
  refine Appends.bind (P := fun l _ => l = []) (appends_lift (fun _ _ => rfl) fun e he => ?_) ?_
  · have hfails : Fails client job [] e := by
      obtain ⟨e', -, rfl⟩ := Loop.mapError_eq_error.mp he
      exact fails_of rfl rfl rfl
    exact ended_of_unsent hstart hfails
  · rintro _ ⟨parent, name⟩ rfl
    refine appends_get_bind fun counters => ?_
    simp only [List.nil_append]
    refine appends_descend (J := Underway client job) (fun attempts l h => ?_) hstart
    exact goes_attemptOnce h

end Transfer
end DriveSync
