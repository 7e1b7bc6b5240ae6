import DriveSync.Transfer.Sessions

/-!
# DriveSync.Transfer.Settled

What an upload comes to, whatever the source, the network and DSM answer: its attempts keep to the
budget of a session, of which there is a second only where DSM refused the first (`Sessions`); it
succeeds on evidence of what the destination holds after its last attempt; and bytes that were not
the planned ones are reported (`Settles`).
-/

namespace DriveSync
namespace Transfer

open Prog

section Definitions

variable (client : Client) (job : Job)

/-- The attempts of one upload: none, those of one session, or those of two, where a request of the
first was refused for its session. -/
inductive Sessions : Log → Prop where
  | none {log : Log} (unsent : sends log = []) : Sessions log
  | one {before first after : Log} (hbefore : sends before = []) (hfirst : Session client job first)
    (hafter : sends after = []) : Sessions (before ++ (first ++ after))
  | two {before first between second after : Log} (hbefore : sends before = [])
    (hfirst : Session client job first) (hbetween : sends between = [])
    (hsecond : Session client job second) (hafter : sends after = [])
    (reauthenticates : client.reauthenticates = true)
    (refused : ∃ entry ∈ first, ∃ e, failure client job entry = some e ∧ e.sessionCode = true) :
    Sessions (before ++ (first ++ (between ++ (second ++ after))))

/-- What an upload added to the log, and what it returned. -/
structure Settles (log : Log) (result : Except Error Unit) : Prop where
  sessions : Sessions client job log
  verified : result = .ok () → AfterLastSend (Verified client job) log
  changed : ∀ transmission, (sends log).getLast? = some transmission →
    NotAsPlanned client job transmission →
      ∃ e, result = .error e ∧ ReportsChange client job log e

end Definitions

section Lemmas

variable {client : Client} {job : Job} {l l' : Log}

theorem AfterLastSend.around {P : Log → Prop} (before : Log) {after : Log} (h : AfterLastSend P l)
    (hafter : sends after = []) (mono : ∀ l l', P l → l ⊆ l' → P l') :
    AfterLastSend P (before ++ (l ++ after)) := by
  obtain ⟨pre, form, transmission, post, rfl, hpost, hP⟩ := h
  refine ⟨before ++ pre, form, transmission, post ++ after, by simp, unsent_append hpost hafter, ?_⟩
  exact mono _ _ hP (List.subset_append_left _ _)

theorem RepairsTear.around (before : Log) {after : Log} (h : RepairsTear client job l)
    (hafter : sends after = []) : RepairsTear client job (before ++ (l ++ after)) := by
  obtain ⟨pre, post, rfl, hone, htorn⟩ := h
  refine ⟨before ++ pre, post ++ after, by simp, by rw [sends_append, hafter]; simpa using hone, ?_⟩
  have hmoved := htorn.around before (rfl : sends [] = []) fun _ _ h hl => h.mono hl
  simpa using hmoved

theorem ReportsChange.around (before : Log) {after : Log} {e : Error}
    (h : ReportsChange client job l e) (hafter : sends after = []) : ReportsChange client job (before ++ (l ++ after)) e := by
  rcases h with h | h | h | ⟨htear, h⟩
  · exact .inl h
  · exact .inr (.inl h)
  · exact .inr (.inr (.inl h))
  · exact .inr (.inr (.inr ⟨htear.around before hafter, h⟩))

/-- A change of the source is no refusal of the session. -/
theorem ReportsChange.sessionCode {e : Error} (h : ReportsChange client job l e) :
    e.sessionCode = false := by
  rcases h with rfl | rfl | ⟨text, rfl⟩ | ⟨-, e', -, rfl⟩ <;> rfl

/-- It is reported as it is: it names no path to refuse. -/
theorem ReportsChange.pathRefusal {e : Error} (h : ReportsChange client job l e) :
    pathRefusal client job e = pure e := by
  rcases h with rfl | rfl | ⟨text, rfl⟩ | ⟨-, e', -, rfl⟩ <;> rfl

/-- The result of a session stands, or its refusal is replaced by the re-login's. -/
def Stands (ended result : Except Error Unit) : Prop :=
  result = ended ∨ ∃ e e', ended = .error e ∧ e.sessionCode = true ∧ result = .error e'

/-- An upload that ends with its first session. -/
theorem settles_one {before first after : Log} {ended result : Except Error Unit}
    (hbefore : sends before = []) (h : Ended client job first ended) (hafter : sends after = [])
    (hstands : Stands ended result) :
    Settles client job (before ++ (first ++ after)) result := by
  refine ⟨.one hbefore h.session hafter, fun hok => ?_, fun transmission ht hnot => ?_⟩
  · rcases hstands with rfl | ⟨e, e', -, -, rfl⟩
    · exact (h.verified hok).around _ hafter fun _ _ hv hl => hv.mono hl
    · cases hok
  · rw [sends_append, sends_append, hbefore, hafter, List.nil_append, List.append_nil] at ht
    obtain ⟨e, rfl, hreports⟩ := h.changed transmission ht hnot
    rcases hstands with rfl | ⟨e₀, e', heq, hs, -⟩
    · exact ⟨e, rfl, hreports.around _ hafter⟩
    · cases heq
      rw [hreports.sessionCode] at hs
      cases hs

/-- An upload that is sent again under a second session. -/
theorem settles_two {before first between second after : Log} {e : Error}
    {result : Except Error Unit} (hbefore : sends before = [])
    (hfirst : Ended client job first (.error e)) (hs : e.sessionCode = true)
    (hbetween : sends between = []) (hsecond : Ended client job second result)
    (hafter : sends after = []) (hre : client.reauthenticates = true) :
    Settles client job (before ++ (first ++ (between ++ (second ++ after)))) result := by
  have hrefused : ∃ entry ∈ first, ∃ e, failure client job entry = some e ∧
      e.sessionCode = true := by
    obtain ⟨entry, hentry, hfailure⟩ := hfirst.blames e rfl hs
    exact ⟨entry, hentry, e, hfailure, hs⟩
  have hshift : before ++ (first ++ (between ++ (second ++ after))) =
      (before ++ first ++ between) ++ (second ++ after) := by simp
  refine ⟨.two hbefore hfirst.session hbetween hsecond.session hafter hre hrefused, fun hok => ?_,
    fun transmission ht hnot => ?_⟩
  · rw [hshift]
    exact (hsecond.verified hok).around _ hafter fun _ _ hv hl => hv.mono hl
  · simp only [sends_append, hbefore, hbetween, hafter, List.nil_append, List.append_nil] at ht
    by_cases hunsent : sends second = []
    · -- the second session sent nothing, so the last attempt is one DSM refused for its session
      rw [hunsent, List.append_nil] at ht
      obtain ⟨e', heq, hreports⟩ := hfirst.changed transmission ht hnot
      cases heq
      rw [hreports.sessionCode] at hs
      cases hs
    · rw [List.getLast?_append_of_ne_nil _ hunsent] at ht
      obtain ⟨e', heq, hreports⟩ := hsecond.changed transmission ht hnot
      rw [hshift]
      exact ⟨e', heq, hreports.around _ hafter⟩

/-! ## The recovery of a session -/

/-- A step that sends nothing and does not fail. -/
abbrev Unsent {α : Type} (E : Log → Error → Prop) (p : Upload α) : Prop :=
  Appends (fun l _ => sends l = []) E p

theorem Unsent.bind {α β : Type} {E : Log → Error → Prop} {p : Upload α} {f : α → Upload β}
    (hp : ∀ E, Unsent E p) (hf : ∀ a E, Unsent E (f a)) : Unsent E (p >>= f) := by
  refine Appends.bind (hp E) fun l a hl => ?_
  exact Appends.mono (hf a _) (fun l' _ hl' => unsent_append hl hl') fun _ _ h => h

theorem unsent_pure {α : Type} {a : α} {E : Log → Error → Prop} : Unsent E (pure a) := appends_pure rfl

theorem unsent_request {call : Call} {E : Log → Error → Prop}
    (h : ∀ reply, sent? (answered call reply) = none) : Unsent E (request call) :=
  appends_ask fun reply => unsent_cons (h reply) rfl

theorem unsent_sessionAlive {e : Error} {E : Log → Error → Prop} : Unsent E (sessionAlive e) := by
  unfold sessionAlive
  split
  · exact Unsent.bind (fun _ => unsent_request fun _ => rfl) fun _ _ => unsent_pure
  · exact unsent_pure

theorem unsent_logInAgain {e : Error} {E : Log → Error → Prop} : Unsent E (logInAgain e) := by
  unfold logInAgain
  refine Unsent.bind (fun _ => unsent_request fun _ => rfl) fun admitted _ => ?_
  cases admitted with
  | error reason => exact unsent_pure
  | ok u =>
    refine Unsent.bind (fun _ => unsent_request fun _ => rfl) fun session _ => ?_
    rcases session with e | _ | session
    all_goals exact appends_modify_bind unsent_pure

theorem unsent_recoverSession {sentSid : Option String} {e : Error} {E : Log → Error → Prop} :
    Unsent E (recoverSession client sentSid e) := by
  unfold recoverSession
  split
  · exact unsent_pure
  refine Unsent.bind (fun _ => unsent_request fun _ => rfl) fun current _ => ?_
  split
  · exact unsent_pure
  refine Unsent.bind (fun _ => unsent_sessionAlive) fun alive _ => ?_
  split
  · exact unsent_pure
  · exact unsent_logInAgain

/-- Only a refused session of a client that can re-authenticate is recovered. -/
theorem recoverSession_notApplicable {sentSid : Option String} {e : Error}
    (h : ¬(client.reauthenticates = true ∧ e.sessionCode = true)) :
    recoverSession client sentSid e = pure .notApplicable := by
  unfold recoverSession
  rw [if_pos]
  simpa [Classical.or_iff_not_imp_left] using h

/-! ## The upload -/

theorem appends_withSessionRecovery :
    Appends (fun l u => Settles client job l (.ok u)) (fun l e => Settles client job l (.error e))
      (withSessionRecovery client (uploadObservedInner client job)) := by
  unfold withSessionRecovery
  refine appends_ask_bind fun sent => ?_
  have hsent : sends [answered .currentSession sent] = [] := rfl
  refine Appends.bind (P := fun l r => Ended client job l r) (appends_attempt appends_uploadObservedInner) ?_
  rintro first (e | u) hfirst
  · have hone : ∀ after result, sends after = [] → Stands (.error e) result →
        Settles client job (answered .currentSession sent :: (first ++ after)) result :=
      fun after result hafter => settles_one hsent hfirst hafter
    dsimp only
    by_cases hrefused : client.reauthenticates = true ∧ e.sessionCode = true
    · refine Appends.bind unsent_recoverSession fun between recovery hbetween => ?_
      cases recovery with
      | resend =>
        have htwo : ∀ second result, Ended client job second result → Settles client job
            (answered .currentSession sent :: (first ++ (between ++ second))) result := by
          intro second result hsecond
          have := settles_two hsent hfirst hrefused.2 hbetween hsecond (rfl : sends [] = [])
            hrefused.1
          simpa using this
        exact Appends.mono appends_uploadObservedInner (fun second u h => htwo second _ h)
          fun second e' h => htwo second _ h
      | notApplicable =>
        refine appends_fail ?_
        rw [List.append_nil]
        exact hone between _ hbetween (.inl rfl)
      | loginFailed loginError =>
        refine appends_fail ?_
        rw [List.append_nil]
        exact hone between _ hbetween (.inr ⟨e, loginError, rfl, hrefused.2, rfl⟩)
    · rw [recoverSession_notApplicable hrefused]
      exact appends_fail (hone [] _ rfl (.inl rfl))
  · refine appends_pure ?_
    exact settles_one hsent hfirst (rfl : sends [] = []) (.inl rfl)

theorem unsent_sessionGone {e : Error} {E : Log → Error → Prop} : Unsent E (sessionGone e) := by
  unfold sessionGone
  split
  · exact Unsent.bind (fun _ => unsent_request fun _ => rfl) fun _ _ => unsent_pure
  · exact unsent_pure

theorem unsent_pathRefusal {e : Error} {E : Log → Error → Prop} :
    Unsent E (pathRefusal client job e) := by
  unfold pathRefusal
  refine Unsent.bind (fun _ => unsent_sessionGone) fun gone _ => ?_
  split <;> exact unsent_pure

theorem unsent_observeEnd {completed : Bool} {E : Log → Error → Prop} :
    Unsent E (observeEnd job completed) := by
  unfold observeEnd
  split
  · exact Unsent.bind (fun _ => unsent_request fun _ => rfl) fun _ _ => unsent_pure
  · exact unsent_pure

theorem Sessions.append (h : Sessions client job l) (hl' : sends l' = []) :
    Sessions client job (l ++ l') := by
  cases h with
  | none hunsent => exact .none (unsent_append hunsent hl')
  | one hbefore hfirst hafter =>
    simpa using Sessions.one hbefore hfirst (unsent_append hafter hl')
  | two hbefore hfirst hbetween hsecond hafter hre hrefused =>
    simpa using
      Sessions.two hbefore hfirst hbetween hsecond (unsent_append hafter hl') hre hrefused

/-- What follows the attempts and sends nothing leaves what they came to. -/
theorem Settles.append {result result' : Except Error Unit} (h : Settles client job l result)
    (hl' : sends l' = []) (hok : result' = .ok () → result = .ok ())
    (hchange : ∀ e, result = .error e → ReportsChange client job l e → result' = .error e) :
    Settles client job (l ++ l') result' := by
  refine ⟨h.sessions.append hl', fun hok' => ?_, fun transmission ht hnot => ?_⟩
  · simpa using (h.verified (hok hok')).around [] hl' fun _ _ hv hl => hv.mono hl
  · rw [sends_append, hl', List.append_nil] at ht
    obtain ⟨e, he, hreports⟩ := h.changed transmission ht hnot
    exact ⟨e, hchange e he hreports, by simpa using hreports.around [] hl'⟩

theorem appends_uploadObservedWithPolicy :
    Appends (fun l u => Settles client job l (.ok u)) (fun l e => Settles client job l (.error e))
      (uploadObservedWithPolicy client job) := by
  unfold uploadObservedWithPolicy
  split
  · exact appends_fail ⟨.none rfl, fun hok => (by cases hok), fun _ ht => (by cases ht)⟩
  refine appends_modify_bind ?_
  refine Appends.bind (P := fun l r => Settles client job l r) (appends_attempt appends_withSessionRecovery)
    fun l result hsettles => ?_
  refine Appends.bind unsent_observeEnd fun after _ hafter => ?_
  cases result with
  | ok u =>
    refine appends_pure ?_
    rw [List.append_nil]
    exact hsettles.append hafter id fun e he => (by cases he)
  | error e =>
    by_cases hreports : ReportsChange client job l e
    · simp only [hreports.pathRefusal]
      refine appends_fail ?_
      rw [List.append_nil]
      exact hsettles.append hafter (fun hok => (by cases hok)) fun e' he' _ => he'
    · refine Appends.bind unsent_pathRefusal fun last e' hlast => appends_fail ?_
      rw [List.append_nil]
      refine hsettles.append (unsent_append hafter hlast) (fun hok => (by cases hok)) ?_
      intro e'' he'' h
      cases he''
      exact absurd h hreports

end Lemmas

/-- However the source, the network and DSM answer, an upload keeps to its sessions' budgets, it
succeeds only on evidence, and it reports bytes that were not the planned ones. -/
theorem uploadObserved_settles (client : Client) (source : Source) (remoteFile : RelPath)
    (observed : Bool) (env : Env station) (w : World station Counters) :
    ∃ added, (uploadObserved client source remoteFile observed env w).2.log = w.log ++ added ∧
      Settles client ⟨source, remoteFile, observed, true, true⟩ added
        (uploadObserved client source remoteFile observed env w).1 := by
  set job : Job := ⟨source, remoteFile, observed, true, true⟩
  have hadds : Appends (fun l u => Settles client job l (.ok u))
      (fun l e => Settles client job l (.error e)) (uploadObservedWithPolicy client job) :=
    appends_uploadObservedWithPolicy
  obtain ⟨added, hlog, hok, herror⟩ := hadds.run env w
  refine ⟨added, hlog, ?_⟩
  unfold uploadObserved
  cases hresult : (uploadObservedWithPolicy client job env w).1 with
  | ok u => exact hok u hresult
  | error e => exact herror e hresult

/-! ## A session refused between attempts, and a run cancelled before the bytes are compared -/

namespace Refused

/-- At most one attempt more than the retries, and one for a tear. -/
def WithinRetries (client : Client) (job : Job) (log : Log) : Prop :=
  (sends log).length ≤ client.retries + 1 ∨
    (sends log).length = client.retries + 2 ∧ RepairsTear client job log

/-- Each attempt but the last failed in a way that may be tried again. -/
def OnlyRetryable (client : Client) (job : Job) (log : Log) : Prop :=
  ∀ transmission ∈ (sends log).dropLast, ∃ e,
    outcomeOf client job transmission = .error e ∧ e.retryable = true

/-- Bytes that were not the planned ones are a changed source. -/
def ReportsSource (client : Client) (job : Job) (log : Log) (result : Except Error Unit) : Prop :=
  ∀ transmission, (sends log).getLast? = some transmission →
    NotAsPlanned client job transmission → result = .error (.sourceChanged job.source.fullPath)

def client : Client where
  describe _ _ := none
  joinUrl path := .ok path
  staysBelow _ := true
  fingerprint content := ⟨BitVec.ofNat 128 content.length, some ⟨0, 0⟩⟩
  apis api := some ⟨api, 1, 9⟩
  retries := 1
  retries_le := by decide
  uploadTimeout := seconds 60
  maxUploadRate := none
  reauthenticates := true

def fileName : Name := ⟨['a'], by decide⟩

def remoteFile : RelPath := .child (.child .root ⟨['s'], by decide⟩) fileName

def source : Source :=
  ⟨⟨.child .root fileName, .file, 1, 1000, some ⟨1, some ⟨0, 0⟩⟩⟩, "/a"⟩

def job : Job := ⟨source, remoteFile, false, true, true⟩

def metadata : Metadata := ⟨false, true, 1, .ok (some 1000)⟩

def readOf (bytes : List UInt8) : Read := ⟨false, false, .ok bytes, .ok metadata, false, true⟩

def responding (status : Nat) (envelope : Envelope) : Except Error CollectedResponse :=
  .ok ⟨⟨status, toString status⟩, .ok envelope⟩

/-- The first attempt under either session meets a proxy that cannot reach DSM, the second is
refused for the first session and accepted under the next. -/
def transmissionAt : Nat → Transmission
  | 1 => ⟨[], [], false, false, responding 200 ⟨false, some ⟨119, []⟩⟩⟩
  | 3 => ⟨[readOf [7], readOf []], [], false, false, responding 200 ⟨true, none⟩⟩
  | _ => ⟨[], [], false, false, responding 502 ⟨false, none⟩⟩

/-- The file is at the destination once the fourth attempt has been sent. -/
def itemsAfter (n : Nat) (path : RelPath) : List RemoteItemWire :=
  [⟨'/' :: path.render, some ['a'], some false, if n < 4 then some 408 else none,
    some ⟨some 1, some 1, none, none⟩⟩]

/-- What everything but an attempt answers: nothing stands against the upload. -/
def calmly (cancelled : Bool) (n : Nat) : (call : Call) → call.Reply
  | .isCancelled => cancelled
  | .observer _ => true
  | .symlinkMetadata _ => .ok metadata
  | .openFile _ => .ok ()
  | .openMetadata _ => .ok metadata
  | .currentSession => some ⟨"s", none⟩
  | .runUploadRequest _ => transmissionAt n
  | .hashFileSnapshot _ => .ok ⟨1, some ⟨0, 0⟩⟩
  | .getInfo path => .ok (some (itemsAfter n path))
  | .remoteContentMd5 _ => .ok ⟨1, none⟩
  | .remoteContentFingerprint _ _ => .ok ⟨1, some ⟨0, 0⟩⟩
  | .sleep _ => false
  | .confirmFileStationSession => .ok ()
  | .admitLogin => .ok ()
  | .reauthenticate => .ok (some ⟨"t", none⟩)

def refusing : Env station := fun log call => calmly false (sends log).length call

/-- An attempt that DSM accepts though nothing was read, in a run that is cancelled meanwhile. -/
def cancelling : Env station := fun log call =>
  match call with
  | .runUploadRequest _ => (⟨[], [], false, false, responding 200 ⟨true, none⟩⟩ : Transmission)
  | call => calmly (decide (0 < (sends log).length)) 0 call

def run (env : Env station) : Except Error Unit × World station Counters :=
  uploadObserved client source remoteFile false env ⟨[], ⟨0, 0, 0, 0, 0⟩⟩

theorem not_withinRetries : ¬WithinRetries client job (run refusing).2.log ∧
    ¬OnlyRetryable client job (run refusing).2.log ∧
      ¬ReportsSource client job (run cancelling).2.log (run cancelling).1 := by
  have herrors : ((sends (run refusing).2.log).map fun t => errorOf (outcomeOf client job t)) =
      [some (.httpStatus "SYNO.FileStation.Upload.upload" ⟨502, "502"⟩
        "reverse proxy could not reach the File Station backend"),
       some (.api "SYNO.FileStation.Upload" "upload" 119 "" []),
       some (.httpStatus "SYNO.FileStation.Upload.upload" ⟨502, "502"⟩
        "reverse proxy could not reach the File Station backend"), none] := by
    decide +kernel
  have hcancelled : (run cancelling).1 = .error .cancelled := by decide +kernel
  have hbytes : ((sends (run cancelling).2.log).map fun t => (t.answer client.describe,
      streamedAsPlanned client.fingerprint source (streamedOf client job t))) =
        [(.ok (), false)] := by decide +kernel
  refine ⟨?_, ?_, ?_⟩
  · have hlength : (sends (run refusing).2.log).length = 4 := by
      simpa using congrArg List.length herrors
    rintro (h | ⟨h, -⟩) <;> rw [hlength] at h <;> revert h <;> decide
  · intro h
    obtain ⟨t₁, rest, hsends, -, hrest⟩ := List.map_eq_cons_iff.mp herrors
    obtain ⟨t₂, rest, rfl, hrefused, hrest⟩ := List.map_eq_cons_iff.mp hrest
    obtain ⟨t₃, rest, rfl, -, -⟩ := List.map_eq_cons_iff.mp hrest
    obtain ⟨e, he, hr⟩ := h t₂ (by simp [hsends])
    rw [he] at hrefused
    cases hrefused
    cases hr
  · intro h
    obtain ⟨t, rest, hsends, hpair, hrest⟩ := List.map_eq_cons_iff.mp hbytes
    obtain rfl := List.map_eq_nil_iff.mp hrest
    obtain ⟨haccepted, hdiffers⟩ := Prod.ext_iff.mp hpair
    have := h t (by rw [hsends]; rfl) (.inl ⟨haccepted, hdiffers⟩)
    rw [hcancelled] at this
    cases this

end Refused

end Transfer
end DriveSync
