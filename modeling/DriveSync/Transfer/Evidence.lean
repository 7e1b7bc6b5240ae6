import DriveSync.Lib.Appends
import DriveSync.Transfer.Upload

/-!
# DriveSync.Transfer.Evidence

What an upload's log shows, and what each of its steps adds to it.

* `sends`     — the attempts that were sent, by what each met.
* `Verified`, `Torn` — what the destination was found to hold.
* `failure`   — what an answer failed with; `Calm`: a step that sent nothing and met nothing that
  may not be tried again.
-/

namespace DriveSync
namespace Transfer

open Prog

abbrev Log : Type := List (Entry station)

abbrev answered (call : Call) (reply : call.Reply) : Entry station :=
  .asked (I := station) call reply

/-! ## What a log shows -/

def sent? : Entry station → Option Transmission
  | .asked (.runUploadRequest _) transmission => some transmission
  | _ => none

/-- The attempts that were sent, first to last. -/
def sends (log : Log) : List Transmission := log.filterMap sent?

@[simp] theorem sends_nil : sends [] = [] := rfl

@[simp] theorem sends_append (l l' : Log) : sends (l ++ l') = sends l ++ sends l' :=
  List.filterMap_append

theorem sends_cons (entry : Entry station) (l : Log) :
    sends (entry :: l) = (sent? entry).toList ++ sends l := by
  rw [sends, List.filterMap_cons]
  cases h : sent? entry <;> rfl

theorem unsent_cons {entry : Entry station} {l : Log} (h : sent? entry = none)
    (hl : sends l = []) : sends (entry :: l) = [] := by
  rw [sends_cons, h, hl]
  rfl

theorem unsent_append {l l' : Log} (h : sends l = []) (h' : sends l' = []) :
    sends (l ++ l') = [] := by
  rw [sends_append, h, h']
  rfl

section Evidence

variable (client : Client) (job : Job)

/-- Whether the bytes an attempt streamed are not the planned ones. -/
def Differs (transmission : Transmission) : Prop :=
  streamedAsPlanned client.fingerprint job.source (streamedOf client job transmission) = false

def errorOf {α : Type} : Except Error α → Option Error
  | .error e => some e
  | .ok _ => none

/-- What an answer failed with. That there is no file is an answer, and not a failure. -/
def failure : Entry station → Option Error
  | .asked (.runUploadRequest _) transmission => errorOf (outcomeOf client job transmission)
  | .asked (.getInfo path) reply => errorOf (fileFacts client path reply)
  | .asked (.remoteContentMd5 _) reply => errorOf reply
  | .asked (.remoteContentFingerprint _ _) reply => errorOf reply
  | .asked (.hashFileSnapshot _) reply => errorOf reply
  | .asked (.symlinkMetadata _) reply => errorOf (job.source.verifyLocalSnapshot reply)
  | .asked (.openMetadata _) reply => errorOf (job.source.verifyOpenFileSnapshot reply)
  | _ => none

/-- An answer after which an attempt may be sent. -/
def MayRetry (entry : Entry station) : Prop :=
  ∀ e, failure client job entry = some e → e.retryable = true

/-- A file was reported at the destination. -/
def Reported (log : Log) (facts : RemoteFileFacts) : Prop :=
  ∃ reply, answered (.getInfo job.remoteFile) reply ∈ log ∧
    fileFacts client job.remoteFile reply = .ok (some facts)

/-- The content at the destination was compared with the planned one: by DSM's MD5, or by the bytes
read back; content that cannot be proved is not the planned one. -/
def Compared (log : Log) (expected : ContentFingerprint) (same : Bool) : Prop :=
  if client.requireContentApi.isOk then
    ∃ actual, answered (.remoteContentMd5 job.remoteFile) (.ok actual) ∈ log ∧
      same = (expected.md5 == actual.md5)
  else if expected.hasFullProof then
    ∃ actual, answered (.remoteContentFingerprint job.remoteFile job.entry.size) (.ok actual) ∈
      log ∧ same = contentEvidenceMatches expected actual
  else same = false

/-- The destination was found to hold a file of the planned size and, where there is a digest, of
the planned content. -/
structure Verified (log : Log) : Prop where
  size : ∃ facts, Reported client job log facts ∧ facts.size = job.entry.size
  digest : ∀ expected, job.entry.contentMd5 = some expected → Compared client job log expected true

/-- The destination was found to hold a file of the planned size and time, and of other content. -/
def Torn (log : Log) : Prop :=
  (∃ facts, Reported client job log facts ∧ facts.size = job.entry.size ∧
    sentTimeKept job facts = true) ∧
  ∃ expected, job.entry.contentMd5 = some expected ∧ Compared client job log expected false

/-- A step that sent nothing, and that an attempt may follow. -/
structure Calm (log : Log) : Prop where
  unsent : sends log = []
  mayRetry : ∀ entry ∈ log, MayRetry client job entry

/-- A step that sent nothing and failed: what it failed with may be tried again only where nothing
else stands against it, and a refused session is what an answer said. -/
structure Fails (log : Log) (e : Error) : Prop where
  unsent : sends log = []
  calm : e.retryable = true → Calm client job log
  blames : e.sessionCode = true → ∃ entry ∈ log, failure client job entry = some e

end Evidence

variable {client : Client} {job : Job} {l l' : Log}

theorem Reported.mono {facts : RemoteFileFacts} (h : Reported client job l facts) (hl : l ⊆ l') :
    Reported client job l' facts := by
  obtain ⟨reply, hmem, hfacts⟩ := h
  exact ⟨reply, hl hmem, hfacts⟩

theorem Compared.mono {expected : ContentFingerprint} {same : Bool}
    (h : Compared client job l expected same) (hl : l ⊆ l') :
    Compared client job l' expected same := by
  unfold Compared at h ⊢
  split
  · rw [if_pos ‹_›] at h
    obtain ⟨actual, hmem, heq⟩ := h
    exact ⟨actual, hl hmem, heq⟩
  · rw [if_neg ‹_›] at h
    split
    · rw [if_pos ‹_›] at h
      obtain ⟨actual, hmem, heq⟩ := h
      exact ⟨actual, hl hmem, heq⟩
    · rwa [if_neg ‹_›] at h

theorem Verified.mono (h : Verified client job l) (hl : l ⊆ l') : Verified client job l' := by
  obtain ⟨facts, hfacts, hsize⟩ := h.size
  exact ⟨⟨facts, hfacts.mono hl, hsize⟩, fun expected he => (h.digest expected he).mono hl⟩

theorem Torn.mono (h : Torn client job l) (hl : l ⊆ l') : Torn client job l' := by
  obtain ⟨⟨facts, hfacts, hkept⟩, expected, he, hcompared⟩ := h
  exact ⟨⟨facts, hfacts.mono hl, hkept⟩, expected, he, hcompared.mono hl⟩

theorem calm_nil : Calm client job [] := ⟨rfl, by simp⟩

theorem Calm.append (h : Calm client job l) (h' : Calm client job l') :
    Calm client job (l ++ l') := by
  refine ⟨unsent_append h.unsent h'.unsent, fun entry hentry => ?_⟩
  rcases List.mem_append.mp hentry with hentry | hentry
  · exact h.mayRetry entry hentry
  · exact h'.mayRetry entry hentry

theorem Calm.cons {entry : Entry station} (hsent : sent? entry = none)
    (hretry : MayRetry client job entry) (h : Calm client job l) :
    Calm client job (entry :: l) := by
  refine ⟨unsent_cons hsent h.unsent, ?_⟩
  intro entry' hentry
  rcases List.mem_cons.mp hentry with rfl | hentry
  · exact hretry
  · exact h.mayRetry entry' hentry

theorem mayRetry_of_none {entry : Entry station} (h : failure client job entry = none) :
    MayRetry client job entry := by
  intro e he
  rw [h] at he
  cases he

/-- An answer that is neither an attempt nor a failure is calm. -/
theorem calm_singleton {entry : Entry station} (hsent : sent? entry = none)
    (h : failure client job entry = none) : Calm client job [entry] :=
  calm_nil.cons hsent (mayRetry_of_none h)

theorem Fails.after {e : Error} (h : Calm client job l) (h' : Fails client job l' e) :
    Fails client job (l ++ l') e := by
  refine ⟨unsent_append h.unsent h'.unsent, fun hr => h.append (h'.calm hr), ?_⟩
  intro hs
  obtain ⟨entry, hentry, he⟩ := h'.blames hs
  exact ⟨entry, List.mem_append_right _ hentry, he⟩

/-- A failure of the step's own, which says nothing of the session. -/
theorem fails_of {e : Error} (hsent : sends l = []) (hr : e.retryable = false)
    (hs : e.sessionCode = false) : Fails client job l e :=
  ⟨hsent, by simp [hr], by simp [hs]⟩

/-- A failure that is what one answer said. -/
theorem fails_singleton {entry : Entry station} {e : Error} (hsent : sent? entry = none)
    (h : failure client job entry = some e) : Fails client job [entry] e := by
  refine ⟨unsent_cons hsent rfl, fun hr => calm_nil.cons hsent fun e' he' => ?_,
    fun _ => ⟨entry, .head _, h⟩⟩
  rw [h] at he'
  exact Option.some.inj he' ▸ hr

/-! ## What each step adds -/

/-- A step that adds nothing an attempt may not follow, whatever else holds of what it adds. -/
abbrev Steps {α : Type} (client : Client) (job : Job) (Q : Log → α → Prop) (p : Upload α) : Prop :=
  Appends (fun l a => Calm client job l ∧ Q l a) (Fails client job) p

theorem Steps.bind {α β : Type} {P : Log → β → Prop} {Q : Log → α → Prop} {p : Upload β}
    {f : β → Upload α} (hp : Steps client job P p)
    (hf : ∀ l b, P l b → Steps client job (fun l' a => Q (l ++ l') a) (f b)) :
    Steps client job Q (p >>= f) := by
  refine Appends.bind hp ?_
  rintro l b ⟨hl, hb⟩
  refine Appends.mono (hf l b hb) ?_ ?_
  · rintro l' a ⟨hl', ha⟩
    exact ⟨hl.append hl', ha⟩
  · intro l' e he
    exact he.after hl

/-- A step before something that is not one. -/
theorem Steps.then {α β : Type} {P : Log → β → Prop} {Q : Log → α → Prop} {p : Upload β}
    {f : β → Upload α} (hp : Steps client job P p) (hf : ∀ l b, Calm client job l → P l b →
      Appends (fun l' a => Q (l ++ l') a) (Fails client job) (f b)) :
    Appends Q (Fails client job) (p >>= f) := by
  refine Appends.bind hp ?_
  rintro l b ⟨hl, hb⟩
  exact Appends.mono (hf l b hl hb) (fun _ _ h => h) fun _ _ he => he.after hl

theorem Steps.mono {α : Type} {Q Q' : Log → α → Prop} {p : Upload α} (h : Steps client job Q p)
    (hQ : ∀ l a, Calm client job l → Q l a → Q' l a) : Steps client job Q' p :=
  Appends.mono h (fun l a ha => ⟨ha.1, hQ l a ha.1 ha.2⟩) fun _ _ he => he

theorem steps_pure {α : Type} {Q : Log → α → Prop} {a : α} (h : Q [] a) :
    Steps client job Q (pure a) := appends_pure ⟨calm_nil, h⟩

theorem steps_fail {α : Type} {Q : Log → α → Prop} {e : Error} (hr : e.retryable = false)
    (hs : e.sessionCode = false) : Steps client job Q (fail e : Upload α) :=
  appends_fail (fails_of rfl hr hs)

/-- An answer that cannot fail. -/
theorem steps_request (call : Call) (hsent : ∀ reply, sent? (answered call reply) = none)
    (hfail : ∀ reply, failure client job (answered call reply) = none) :
    Steps client job (fun l reply => l = [answered call reply]) (request call) :=
  appends_ask fun reply => ⟨calm_singleton (hsent reply) (hfail reply), rfl⟩

/-- An answer that is a failure of its own, or what the step goes on with. -/
theorem steps_request_lift {α : Type} (call : Call) (read : call.Reply → Except Error α)
    (hsent : ∀ reply, sent? (answered call reply) = none)
    (hfail : ∀ reply, failure client job (answered call reply) = errorOf (read reply)) :
    Steps client job (fun l a => ∃ reply, l = [answered call reply] ∧ read reply = .ok a)
      (request call >>= fun reply => lift (read reply)) := by
  refine appends_ask_bind fun reply => appends_lift ?_ ?_
  · intro a ha
    exact ⟨calm_singleton (hsent reply) (by rw [hfail, ha]; rfl), reply, rfl, ha⟩
  · intro e he
    exact fails_singleton (hsent reply) (by rw [hfail, he]; rfl)

theorem steps_check : Steps client job (fun _ _ => True) check := by
  refine (steps_request .isCancelled (fun _ => rfl) fun _ => rfl).bind fun l cancelled _ => ?_
  cases cancelled
  · exact steps_pure trivial
  · exact steps_fail rfl rfl

theorem steps_verifyLocalSnapshot :
    Steps client job (fun _ _ => True) (verifyLocalSnapshot job) := by
  have h : Steps client job _ (verifyLocalSnapshot job) :=
    steps_request_lift (.symlinkMetadata _) job.source.verifyLocalSnapshot (fun _ => rfl)
      fun _ => rfl
  exact h.mono fun _ _ _ _ => trivial

theorem steps_remoteFileFacts :
    Steps client job (fun l facts => ∀ f, facts = some f → Reported client job l f)
      (remoteFileFacts client job.remoteFile) := by
  have h : Steps client job _ (remoteFileFacts client job.remoteFile) :=
    steps_request_lift (.getInfo _) (fileFacts client job.remoteFile) (fun _ => rfl) fun _ => rfl
  refine h.mono ?_
  rintro l facts - ⟨reply, rfl, hfacts⟩ f rfl
  exact ⟨reply, .head _, hfacts⟩

theorem appends_noteUploadedMtime {reported : Option Int} {E : Log → Error → Prop} :
    Appends (fun l _ => l = []) E (noteUploadedMtime job reported) := by
  unfold noteUploadedMtime
  split
  · split
    · exact appends_pure rfl
    · exact fun _ _ => ⟨[], (List.append_nil _).symm, rfl⟩
  · exact appends_pure rfl

theorem steps_noteUploadedMtime {reported : Option Int} :
    Steps client job (fun l _ => l = []) (noteUploadedMtime job reported) :=
  Appends.mono appends_noteUploadedMtime (fun _ _ h => ⟨h ▸ calm_nil, h⟩) fun _ _ h => h

/-- A fingerprint asked for, and what is made of it. -/
theorem steps_fingerprint {call : Call} {Q : Log → Bool → Prop}
    {reply : call.Reply → Except Error ContentFingerprint} {same : ContentFingerprint → Bool}
    (hsent : ∀ r, sent? (answered call r) = none)
    (hfail : ∀ r, failure client job (answered call r) = errorOf (reply r))
    (h : ∀ r actual, reply r = .ok actual → Q [answered call r] (same actual)) :
    Steps client job Q (request call >>= fun r => lift (reply r) >>= fun actual =>
      pure (same actual)) := by
  rw [← bind_assoc]
  refine (steps_request_lift call reply hsent hfail).bind ?_
  rintro _ actual ⟨r, rfl, hr⟩
  refine steps_pure ?_
  rw [List.append_nil]
  exact h r actual hr

theorem steps_uploadedDigestMatches {expected : ContentFingerprint} :
    Steps client job (fun l same => Compared client job l expected same)
      (uploadedDigestMatches client job.remoteFile job.entry.size expected) := by
  unfold uploadedDigestMatches
  refine steps_check.bind fun l₀ _ _ => ?_
  by_cases hapi : client.requireContentApi.isOk = true
  · simp only [hapi, Bool.not_true, Bool.false_eq_true, if_false, Compared, if_true]
    refine steps_fingerprint (fun _ => rfl) (fun _ => rfl) fun r actual hr => ?_
    exact ⟨actual, List.mem_append_right _ (hr ▸ .head _), rfl⟩
  · simp only [hapi, Bool.not_false, Compared, if_true]
    by_cases hproof : expected.hasFullProof = true
    · simp only [hproof, Bool.not_true, Bool.false_eq_true, if_false, if_true]
      refine steps_fingerprint (fun _ => rfl) (fun _ => rfl) fun r actual hr => ?_
      exact ⟨actual, List.mem_append_right _ (hr ▸ .head _), rfl⟩
    · simp only [hproof, Bool.not_false, if_true]
      exact steps_pure rfl

/-- Content found to be the planned one, after the facts of the file. -/
theorem verified_of {facts : RemoteFileFacts} (hfacts : Reported client job l facts)
    (hsize : facts.size = job.entry.size)
    (hdigest : ∀ expected, job.entry.contentMd5 = some expected →
      Compared client job l' expected true) : Verified client job (l ++ l') :=
  ⟨⟨facts, hfacts.mono (List.subset_append_left _ _), hsize⟩, fun expected he =>
    (hdigest expected he).mono (List.subset_append_right _ _)⟩

theorem steps_earlierAttemptLanded {expected : ContentFingerprint}
    (hexpected : job.entry.contentMd5 = some expected) :
    Steps client job (fun l landed => landed = true → Verified client job l)
      (earlierAttemptLanded client job expected) := by
  unfold earlierAttemptLanded
  refine steps_check.bind fun l₀ _ _ => ?_
  refine steps_remoteFileFacts.bind fun l₁ facts hfacts => ?_
  cases facts with
  | none => exact steps_pure (by simp)
  | some facts =>
    dsimp only
    split
    · exact steps_pure (by simp)
    · rename_i hlike
      refine steps_uploadedDigestMatches.bind fun l₂ same hsame => ?_
      cases same with
      | false => exact steps_pure (by simp)
      | true =>
        refine steps_noteUploadedMtime.bind ?_
        rintro _ - rfl
        refine steps_pure fun _ => ?_
        have hsize : facts.size = job.entry.size := by
          by_contra hne
          simp [hne] at hlike
        have hverified := verified_of (hfacts facts rfl) hsize fun e he => by
          rw [hexpected] at he
          exact Option.some.inj he ▸ hsame
        refine hverified.mono ?_
        simp [List.subset_def]
        tauto

/-- A step whose failure is looked at. -/
theorem Steps.attempt {α : Type} {Q : Log → α → Prop} {E : Log → Error → Prop} {p : Upload α}
    (h : Steps client job Q p) :
    Appends (fun l r => (∀ a, r = .ok a → Calm client job l ∧ Q l a) ∧
      ∀ e, r = .error e → Fails client job l e) E (Prog.attempt p) := by
  refine appends_attempt (Appends.mono h ?_ ?_)
  · rintro l a ha
    exact ⟨fun a' ha' => (by cases ha'; exact ha), fun e he => (by cases he)⟩
  · rintro l e he
    exact ⟨fun a ha => (by cases ha), fun e' he' => by cases he'; exact he⟩

/-- What the probe after the last attempt leaves: nothing sent, and the evidence for its answer. -/
def Found (client : Client) (job : Job) (error : Error) (l : Log) : LastAttempt → Prop
  | .settled (.ok ()) => sends l = [] ∧ Verified client job l
  | .settled (.error e) => sends l = [] ∧ (e = error ∨ ∃ text, e = .message text)
  | .torn e => Calm client job l ∧ Torn client job l ∧ e = error

theorem appends_lastAttemptFailedInTransport {error : Error} {E : Log → Error → Prop} :
    Appends (Found client job error) E (lastAttemptFailedInTransport client job error) := by
  unfold lastAttemptFailedInTransport
  split
  · exact appends_pure ⟨rfl, .inl rfl⟩
  rename_i expected hexpected
  refine appends_ask_bind fun cancelled => ?_
  cases cancelled with
  | true => exact appends_pure ⟨rfl, .inl rfl⟩
  | false =>
    refine Appends.bind steps_remoteFileFacts.attempt ?_
    rintro l₁ (probe | _ | facts) ⟨hok, herror⟩
    · have hunsent : sends (answered .isCancelled false :: l₁) = [] :=
        unsent_cons rfl (herror _ rfl).unsent
      dsimp only
      split
      · exact appends_pure ⟨by simpa using hunsent, .inl rfl⟩
      · exact appends_pure ⟨by simpa using hunsent, .inr ⟨_, rfl⟩⟩
    · exact appends_pure ⟨unsent_cons rfl (by simpa using (hok _ rfl).1.unsent), .inl rfl⟩
    · obtain ⟨hcalm, hfacts⟩ := hok _ rfl
      have hasked : Calm client job (answered .isCancelled false :: l₁) :=
        hcalm.cons rfl (mayRetry_of_none rfl)
      have hreported : Reported client job (answered .isCancelled false :: l₁) facts :=
        (hfacts facts rfl).mono (List.subset_cons_self _ _)
      dsimp only
      split
      · exact appends_pure ⟨by simpa using hasked.unsent, .inl rfl⟩
      rename_i hlike
      have hcomplete : facts.size = job.entry.size ∧ sentTimeKept job facts = true := by
        simpa using hlike
      refine Appends.bind steps_uploadedDigestMatches.attempt ?_
      rintro l₂ (probe | same) ⟨hok, herror⟩
      · have hunsent := unsent_append hasked.unsent (herror _ rfl).unsent
        exact appends_pure ⟨by simpa using hunsent, .inr ⟨_, rfl⟩⟩
      · obtain ⟨hcalm₂, hcompared⟩ := hok _ rfl
        have hall := hasked.append hcalm₂
        cases same with
        | false =>
          refine appends_pure
            ⟨by simpa using hall, ⟨⟨facts, ?_, hcomplete⟩, expected, hexpected, ?_⟩, rfl⟩
          · exact hreported.mono (by simp)
          · exact hcompared.mono (by simp)
        | true =>
          refine Appends.bind appends_noteUploadedMtime ?_
          rintro _ - rfl
          have hverified := verified_of hreported hcomplete.1 fun e he => by
            rw [hexpected] at he
            exact Option.some.inj he ▸ hcompared
          refine appends_pure ⟨by simpa using hall.unsent, hverified.mono ?_⟩
          simp

theorem steps_verifyBytesSent {streamed : Option StreamedBody} :
    Steps client job (fun _ _ => True) (verifyBytesSent client job streamed) := by
  unfold verifyBytesSent
  split
  · split
    · exact steps_pure trivial
    · exact steps_fail rfl rfl
  · rw [← bind_assoc]
    refine (steps_request_lift (.hashFileSnapshot _) id (fun _ => rfl) fun _ => rfl).bind ?_
    rintro _ actual -
    split
    · exact steps_pure trivial
    · exact steps_fail rfl rfl
  · exact steps_pure trivial

theorem steps_verifyDestination :
    Steps client job (fun l _ => Verified client job l) (verifyDestination client job) := by
  unfold verifyDestination
  refine steps_remoteFileFacts.bind fun l₁ facts hfacts => ?_
  cases facts with
  | none => exact steps_fail rfl rfl
  | some facts =>
    dsimp only
    split
    · exact steps_fail rfl rfl
    rename_i hsize
    refine steps_noteUploadedMtime.bind ?_
    rintro _ - rfl
    split
    · rename_i hnone
      refine steps_pure ?_
      simpa using (⟨⟨facts, hfacts facts rfl, not_not.mp hsize⟩, fun e he => by
        rw [hnone] at he
        cases he⟩ : Verified client job l₁)
    · rename_i expected hexpected
      refine steps_uploadedDigestMatches.bind fun l₂ same hsame => ?_
      cases same with
      | false => exact steps_fail rfl rfl
      | true =>
        refine steps_pure ?_
        simpa using verified_of (hfacts facts rfl) (not_not.mp hsize) fun e he => by
          rw [hexpected] at he
          exact Option.some.inj he ▸ hsame

theorem steps_verifyUploadLanded {streamed : Option StreamedBody} :
    Steps client job (fun l _ => Verified client job l)
      (verifyUploadLanded client job streamed) := by
  unfold verifyUploadLanded
  refine steps_check.bind fun l₀ _ _ => ?_
  refine steps_verifyBytesSent.bind fun l₁ _ _ => ?_
  refine steps_verifyDestination.mono fun l₂ _ _ h => h.mono ?_
  simp

/-- What comes after an accepted attempt ends the session: with the evidence, or in failure. -/
theorem steps_acceptAttempt {transmission : Transmission} :
    Steps client job (fun l _ => Verified client job l)
      (acceptAttempt client job transmission) := by
  unfold acceptAttempt
  refine steps_verifyLocalSnapshot.bind fun l₀ _ _ => ?_
  refine steps_verifyUploadLanded.mono fun l₁ _ _ h => h.mono ?_
  simp

theorem steps_probeEarlierAttempt :
    Steps client job (fun l landed => landed = true → Verified client job l)
      (probeEarlierAttempt client job) := by
  unfold probeEarlierAttempt
  split
  · exact steps_pure (by simp)
  rename_i expected hexpected
  rw [← bind_assoc]
  refine (steps_request_lift (.hashFileSnapshot _) id (fun _ => rfl) fun _ => rfl).bind ?_
  rintro l₀ actual -
  split
  · refine Appends.bind (steps_earlierAttemptLanded hexpected).attempt ?_
    rintro l₁ (probe | landed) ⟨hok, herror⟩
    · have hfails := herror _ rfl
      dsimp only
      split
      · rename_i hr
        exact appends_pure ⟨by simpa using hfails.calm hr, by simp⟩
      · exact appends_fail (by simpa using hfails)
    · obtain ⟨hcalm, hverified⟩ := hok _ rfl
      refine appends_pure ⟨by simpa using hcalm, fun h => (hverified h).mono ?_⟩
      simp
  · exact steps_fail rfl rfl

theorem steps_retryPause {attempt : Nat} :
    Steps client job (fun _ _ => True) (retryPause attempt) := by
  refine (steps_request (.sleep _) (fun _ => rfl) fun _ => rfl).bind fun l cut _ => ?_
  cases cut
  · exact steps_pure trivial
  · exact steps_fail rfl rfl

theorem steps_landedBeforeRetry {attempt : Nat} :
    Steps client job (fun l landed => landed = true → Verified client job l)
      (landedBeforeRetry client job attempt) := by
  unfold landedBeforeRetry
  refine appends_modify_bind ?_
  refine steps_verifyLocalSnapshot.bind fun l₀ _ _ => ?_
  refine steps_probeEarlierAttempt.bind fun l₁ landed hlanded => ?_
  cases landed with
  | true =>
    refine steps_pure fun _ => (hlanded rfl).mono ?_
    simp
  | false =>
    refine steps_retryPause.bind fun l₂ _ _ => ?_
    exact steps_pure (by simp)

theorem steps_startAttempt : Steps client job (fun _ _ => True) (startAttempt job) := by
  unfold startAttempt
  refine steps_check.bind fun l₀ _ _ => ?_
  refine appends_get_bind fun counters => appends_modify_bind ?_
  have hannounce : Steps client job (fun _ _ => True)
      (announceAttempt job (saturatingIncrement counters.sent)) := by
    unfold announceAttempt
    split
    · refine (steps_request (.observer _) (fun _ => rfl) fun _ => rfl).bind fun l on _ => ?_
      cases on
      · exact steps_fail rfl rfl
      · exact steps_pure trivial
    · exact steps_pure trivial
  refine hannounce.bind fun l₁ _ _ => ?_
  exact steps_pure trivial

theorem steps_openSource : Steps client job (fun _ _ => True) (openSource job) := by
  unfold openSource
  refine (steps_request (.openFile _) (fun _ => rfl) fun _ => rfl).bind fun l opened _ => ?_
  cases opened with
  | error text => exact steps_fail rfl rfl
  | ok u =>
    have h : Steps client job _ (request (.openMetadata job.source.fullPath) >>= fun reply =>
        lift (job.source.verifyOpenFileSnapshot reply)) :=
      steps_request_lift (.openMetadata _) _ (fun _ => rfl) fun _ => rfl
    exact h.mono fun _ _ _ _ => trivial

theorem steps_requiredSession : Steps client job (fun _ _ => True) requiredSession := by
  refine (steps_request .currentSession (fun _ => rfl) fun _ => rfl).bind fun l session _ => ?_
  cases session with
  | none => exact steps_fail rfl rfl
  | some session => exact steps_pure trivial

/-- A computation whose failures are the step's own. -/
theorem steps_lift {α : Type} {r : Except Error α}
    (h : ∀ e, r = .error e → e.retryable = false ∧ e.sessionCode = false) :
    Steps client job (fun _ _ => True) (lift r) :=
  appends_lift (fun _ _ => ⟨calm_nil, trivial⟩) fun e he => fails_of rfl (h e he).1 (h e he).2

theorem requestHeaders_error {session : SessionData} {e : Error}
    (h : session.requestHeaders = .error e) : e.retryable = false ∧ e.sessionCode = false := by
  simp only [SessionData.requestHeaders] at h
  split at h
  · cases h; exact ⟨rfl, rfl⟩
  split at h
  · cases h
  split at h <;> cases h
  exact ⟨rfl, rfl⟩

theorem apiUrl_error {api : String} {e : Error} (h : client.apiUrl api = .error e) :
    e.retryable = false ∧ e.sessionCode = false := by
  unfold Client.apiUrl Client.requiredSpec at h
  split at h
  · rename_i hspec
    split at hspec <;> cases hspec
    cases h
    exact ⟨rfl, rfl⟩
  simp only [Client.endpointUrl] at h
  split at h
  · cases h; exact ⟨rfl, rfl⟩
  split at h
  · cases h; exact ⟨rfl, rfl⟩
  split at h <;> cases h
  exact ⟨rfl, rfl⟩

theorem steps_sessionHeaders : Steps client job (fun _ _ => True) sessionHeaders := by
  refine (steps_request .currentSession (fun _ => rfl) fun _ => rfl).bind fun l session _ => ?_
  cases session with
  | none => exact steps_pure trivial
  | some session => exact steps_lift fun e he => requestHeaders_error he

theorem steps_tell {event : CallStarted} :
    Steps client job (fun _ _ => True) (tell (I := station) event) :=
  fun _ _ => ⟨_, rfl, calm_singleton rfl rfl, trivial⟩

theorem steps_prepareAttempt {parent : RelPath} {name : Name} {firstAttempt number : Nat}
    {attempts : Attempts} : Steps client job (fun _ _ => True)
      (prepareAttempt client job parent name firstAttempt number attempts) := by
  unfold prepareAttempt
  refine steps_verifyLocalSnapshot.bind fun _ _ _ => ?_
  refine steps_openSource.bind fun _ _ _ => ?_
  refine steps_requiredSession.bind fun _ session _ => ?_
  refine (steps_lift fun _ he => apiUrl_error he).bind fun _ url _ => ?_
  refine steps_tell.bind fun _ _ _ => ?_
  refine steps_sessionHeaders.bind fun _ _ _ => ?_
  exact steps_pure trivial

/-- An attempt is sent once, after what comes before it has let it through. -/
theorem appends_sendAttempt {parent : RelPath} {name : Name} {firstAttempt : Nat}
    {attempts : Attempts} :
    Appends (fun l transmission => ∃ pre form, Calm client job pre ∧
        l = pre ++ [answered (.runUploadRequest form) transmission]) (Fails client job)
      (sendAttempt client job parent name firstAttempt attempts) := by
  unfold sendAttempt
  refine steps_startAttempt.then fun l₀ number h₀ _ => ?_
  refine steps_prepareAttempt.then fun l₁ form h₁ _ => ?_
  refine appends_ask fun transmission => ⟨l₀ ++ l₁, form, h₀.append h₁, ?_⟩
  rw [List.append_assoc]

end Transfer
end DriveSync
