import DriveSync.Plan.Selection
import DriveSync.Sync.Narrow
import DriveSync.Sync.Errors
import DriveSync.Sync.Reconcile
import DriveSync.Transfer.Errors

/-!
# DriveSync.Run.Digest

The digests a run takes before it plans. A file that cannot be read for one, on either side, is
taken out of the run by name; a cause that many files share ends the run.

* `DigestBreaker`: what tells the one from the other. `breaker_trips_iff` says when.
* `populatePlanDigests`: the digests of both inventories, and what was left out for want of one.
-/

namespace DriveSync

open Path

/-! ## What a digest of a remote file fails with -/

inductive DigestError where
  | api (service operation : String) (code : Int) (description : String)
  | httpStatus (operation : String) (status : Transfer.StatusCode) (message : String)
  | transport (operation text : String)
  | operationTimedOut (operation : String)
  | invalidResponse (operation message : String)
  | invalidContentHash
  | contentVerificationFailed (path : RelPath)
  | remoteDigestsFailing (cause : DigestError) (paths : List RelPath)
  | cancelled
  | other (text : String)
deriving DecidableEq, Repr

namespace DigestError

def display : DigestError → String
  | api service operation code description =>
    "Synology API " ++ service ++ "." ++ operation ++ " failed with code " ++ toString code ++
      description
  | httpStatus operation status message =>
    "reverse proxy returned HTTP " ++ status.text ++ " during " ++ operation ++ ": " ++ message
  | transport operation text => "HTTP request failed during " ++ operation ++ ": " ++ text
  | operationTimedOut operation =>
    operation ++ " did not finish within the configured request timeout"
  | invalidResponse operation message =>
    "unexpected response during " ++ operation ++ ": " ++ message
  | invalidContentHash => "DSM returned an invalid MD5 content digest"
  | contentVerificationFailed path =>
    "remote content verification failed for " ++ quoteAbsolute path
  | remoteDigestsFailing cause paths =>
    toString paths.length ++ " remote checksums failed with the same cause, so the NAS rather " ++
      "than these files is the likely problem: " ++ cause.display ++ "; files: " ++
      ", ".intercalate (paths.map spelled)
  | cancelled => "operation cancelled"
  | other text => text

def apiCode : DigestError → Option Int
  | api _ _ code _ => some code
  | _ => none

/-- Whether a failed digest is about that one file, rather than about the run. -/
def isPerFile : DigestError → Bool
  | api _ _ code _ => [400, 401, 408, 599].contains code || decide (1000 ≤ code)
  | httpStatus _ status _ => status.code == 404 || status.code == 410
  | operationTimedOut _ | invalidResponse _ _ | invalidContentHash
  | contentVerificationFailed _ => true
  | _ => false

/-- The error kind, with its DSM code or HTTP status. -/
def causeClass : DigestError → String
  | api _ _ code _ => "dsm-" ++ toString code
  | httpStatus _ status _ => "http-" ++ toString status.code
  | operationTimedOut _ => "timeout"
  | invalidResponse _ _ => "invalid-response"
  | invalidContentHash => "invalid-digest"
  | contentVerificationFailed _ => "content-verification"
  | _ => "other"

/-- Attach the remote file a digest failure was for, keeping the error's kind and DSM code. -/
def namingRemoteFile (remotePath : RelPath) : DigestError → DigestError
  | api service operation code description =>
    .api service operation code (description ++ " (file " ++ quoteAbsolute remotePath ++ ")")
  | invalidResponse operation message =>
    .invalidResponse operation (message ++ " (file " ++ quoteAbsolute remotePath ++ ")")
  | httpStatus operation status message =>
    .httpStatus (operation ++ " of " ++ quoteAbsolute remotePath) status message
  | transport operation text => .transport (operation ++ " of " ++ quoteAbsolute remotePath) text
  | error => error

/-- An account refused this one file, or the NAS could not produce its checksum this time. -/
def deferReason (error : DigestError) : DeferReason :=
  if error.apiCode = some 105 then .remoteUnreadable else .remoteDigestUnavailable

end DigestError

/-- How far a failed digest reaches. -/
inductive DigestScope where
  | file
  | unreadable
  | run
deriving DecidableEq, Repr

/-- DSM's 105 is both "this session is gone" and "this account may not read this path": a request
that every account may make tells them apart. -/
def digestFailureScope (sessionAnswers : Bool) (error : DigestError) : DigestScope :=
  if error.apiCode = some 105 then if sessionAnswers then .unreadable else .run
  else if error.isPerFile then .file else .run

/-! ## The breaker -/

def digestBreakerThreshold : Nat := 3

/-- Stops a digest pass that is deferring files for a cause they share. -/
structure DigestBreaker where
  successes : Nat
  failures : List RelPath
  consecutiveClass : Option String
  consecutive : List RelPath

namespace DigestBreaker

def start : DigestBreaker := ⟨0, [], none, []⟩

def succeeded (breaker : DigestBreaker) : DigestBreaker :=
  { breaker with
    successes := breaker.successes + 1
    consecutiveClass := none
    consecutive := [] }

/-- A missing file (408) and a file the account may not read (105) are not counted. -/
def failed (breaker : DigestBreaker) (relative : RelPath) (error : DigestError) :
    Except DigestError DigestBreaker :=
  if error.apiCode = some 105 ∨ error.apiCode = some 408 then .ok breaker
  else
    let consecutive :=
      (if breaker.consecutiveClass = some error.causeClass then breaker.consecutive else []) ++
        [relative]
    let failures := breaker.failures ++ [relative]
    if digestBreakerThreshold ≤ consecutive.length then
      .error (.remoteDigestsFailing error consecutive)
    else if breaker.successes = 0 ∧ digestBreakerThreshold ≤ failures.length then
      .error (.remoteDigestsFailing error failures)
    else .ok ⟨breaker.successes, failures, some error.causeClass, consecutive⟩

/-- One digest that was asked for. -/
def note (breaker : DigestBreaker) (answer : RelPath × Except DigestError ContentFingerprint) :
    Except DigestError DigestBreaker :=
  match answer.2 with
  | .ok _ => .ok breaker.succeeded
  | .error error => breaker.failed answer.1 error

/-- What an answer counts as: `some none` a digest, `some (some cls)` a failure of that class. -/
def counted (answer : RelPath × Except DigestError ContentFingerprint) : Option (Option String) :=
  match answer.2 with
  | .ok _ => some none
  | .error error =>
    if error.apiCode = some 105 ∨ error.apiCode = some 408 then none else some (some error.causeClass)

end DigestBreaker

/-- The failures share their cause: three of one class in a row, or three before any digest. -/
def Shared (counts : List (Option String)) : Prop :=
  (∃ cls, List.replicate 3 (some cls) <:+: counts) ∨
    ∃ a b c, [some a, some b, some c] <+: counts

namespace DigestBreaker

/-- How many of the last answers are failures of a class; the last answer comes first. -/
def streak (cls : String) (history : List (Option String)) : Nat :=
  (history.takeWhile fun x => decide (x = some cls)).length

/-- What a breaker that has not tripped knows of the answers it counted, the last one first. -/
structure Tracks (breaker : DigestBreaker) (history : List (Option String)) : Prop where
  successes : breaker.successes = 0 ↔ none ∉ history
  failures : breaker.failures.length = history.countP Option.isSome
  consecutive : ∀ cls, streak cls history =
    if breaker.consecutiveClass = some cls then breaker.consecutive.length else 0
  calm : ¬Shared history.reverse

theorem replicate_prefix_iff {cls : String} {n : Nat} {history : List (Option String)} :
    List.replicate n (some cls) <+: history ↔ n ≤ streak cls history := by
  induction n generalizing history with
  | zero => simp
  | succ n ih =>
    cases history with
    | nil => simp [streak, List.replicate_succ]
    | cons x history =>
      rw [List.replicate_succ, List.cons_prefix_cons, ih]
      by_cases hx : x = some cls
      · simp [streak, hx]
      · simp [streak, hx, Ne.symm hx]

/-- One more answer shares a cause with those before where it makes three of a class in a row, or
three before any digest. -/
theorem shared_cons {x : Option String} {history : List (Option String)} :
    Shared (x :: history).reverse ↔ Shared history.reverse ∨
      (∃ cls, 3 ≤ streak cls (x :: history)) ∨ (history.length = 2 ∧ none ∉ x :: history) := by
  have hinfix : ∀ (l l' : List (Option String)), l <:+: l'.reverse ↔ l.reverse <:+: l' := by
    intro l l'
    rw [← List.reverse_infix, List.reverse_reverse]
  have hthree : ∀ l : List (Option String), (∃ a b c, [some a, some b, some c] <+: l.reverse) ↔
      ∃ a b c, [some a, some b, some c] <:+ l := by
    intro l
    have hfirst : ∀ l', l' <+: l.reverse ↔ l'.reverse <:+ l := by
      intro l'
      rw [← List.reverse_suffix, List.reverse_reverse]
    constructor
    · rintro ⟨a, b, c, h⟩
      exact ⟨c, b, a, by simpa using (hfirst _).mp h⟩
    · rintro ⟨a, b, c, h⟩
      exact ⟨c, b, a, by simpa [hfirst] using h⟩
  have hall : (∃ a b c, [some a, some b, some c] = x :: history) ↔
      history.length = 2 ∧ none ∉ x :: history := by
    constructor
    · rintro ⟨a, b, c, h⟩
      rw [← h]
      simp [← (List.cons.inj h).2]
    · rintro ⟨hlength, hnone⟩
      obtain ⟨y, z, rfl⟩ := List.length_eq_two.mp hlength
      cases x <;> cases y <;> cases z <;> simp at hnone ⊢
  simp only [Shared, hthree, hinfix, List.reverse_replicate, List.infix_cons_iff,
    List.suffix_cons_iff, exists_or, hall, replicate_prefix_iff]
  rw [or_or_or_comm]
  exact or_comm

theorem shared_of_no_digest {counts : List (Option String)} (hnone : none ∉ counts)
    (hlength : 3 ≤ counts.length) : Shared counts := by
  match counts, hlength with
  | none :: _, _ => simp at hnone
  | some _ :: none :: _, _ => simp at hnone
  | some _ :: some _ :: none :: _, _ => simp at hnone
  | some a :: some b :: some c :: rest, _ => exact .inr ⟨a, b, c, rest, rfl⟩

theorem tracks_start : start.Tracks [] := by
  refine ⟨by simp [start], rfl, by simp [streak, start], ?_⟩
  rintro (⟨cls, h⟩ | ⟨a, b, c, h⟩)
  · simp at h
  · simp at h

theorem Tracks.succeeded {breaker : DigestBreaker} {history : List (Option String)}
    (h : breaker.Tracks history) : breaker.succeeded.Tracks (none :: history) := by
  refine ⟨by simp [DigestBreaker.succeeded], by simp [DigestBreaker.succeeded, h.failures],
    by simp [streak, DigestBreaker.succeeded], fun hshared => ?_⟩
  rcases shared_cons.mp hshared with hshared | ⟨cls, hstreak⟩ | ⟨_, hnone⟩
  · exact h.calm hshared
  · simp [streak] at hstreak
  · simp at hnone

/-- A failure that counts trips the breaker just where the failures now share their cause. -/
theorem Tracks.failed {breaker : DigestBreaker} {history : List (Option String)}
    (h : breaker.Tracks history) (relative : RelPath) {error : DigestError}
    (hcounted : ¬(error.apiCode = some 105 ∨ error.apiCode = some 408)) :
    (∃ breaker', breaker.failed relative error = .ok breaker' ∧
      breaker'.Tracks (some error.causeClass :: history)) ∨
    (∃ e, breaker.failed relative error = .error e) ∧
      Shared (some error.causeClass :: history).reverse := by
  have hstreak : streak error.causeClass (some error.causeClass :: history) =
      ((if breaker.consecutiveClass = some error.causeClass then breaker.consecutive else []) ++
        [relative]).length := by
    have := h.consecutive error.causeClass
    simp only [streak] at this
    simp only [streak, List.takeWhile_cons, decide_true, if_true, List.length_cons, this]
    split <;> simp
  have hother : ∀ cls, cls ≠ error.causeClass →
      streak cls (some error.causeClass :: history) = 0 := by
    intro cls hne
    simp [streak, Ne.symm hne]
  have hfailures : (breaker.failures ++ [relative]).length =
      (some error.causeClass :: history).countP Option.isSome := by
    simp [h.failures]
  have hdigest : breaker.successes = 0 ↔ none ∉ some error.causeClass :: history := by
    simpa using h.successes
  have hlength : none ∉ some error.causeClass :: history →
      (breaker.failures ++ [relative]).length = history.length + 1 := by
    intro hnone
    rw [hfailures, List.countP_eq_length.mpr]
    · simp
    · intro x hx
      exact Option.isSome_iff_ne_none.mpr fun hx' => hnone (hx' ▸ hx)
  simp only [DigestBreaker.failed, if_neg hcounted, ← hstreak]
  by_cases hthree : digestBreakerThreshold ≤ streak error.causeClass (some error.causeClass :: history)
  · rw [if_pos hthree]
    exact .inr ⟨⟨_, rfl⟩, shared_cons.mpr (.inr (.inl ⟨_, hthree⟩))⟩
  · rw [if_neg hthree]
    by_cases hnone : breaker.successes = 0 ∧
        digestBreakerThreshold ≤ (breaker.failures ++ [relative]).length
    · rw [if_pos hnone]
      refine .inr ⟨⟨_, rfl⟩, shared_of_no_digest ?_ ?_⟩
      · simpa using hdigest.mp hnone.1
      · rw [List.length_reverse, List.length_cons, ← hlength (hdigest.mp hnone.1)]
        exact hnone.2
    · rw [if_neg hnone]
      refine .inl ⟨_, rfl, ⟨hdigest, hfailures, ?_, ?_⟩⟩
      · intro cls
        by_cases hcls : cls = error.causeClass
        · subst hcls
          simp only [if_true]
          exact hstreak
        · rw [hother cls hcls, if_neg]
          simpa using Ne.symm hcls
      · intro hshared
        rcases shared_cons.mp hshared with hshared | ⟨cls, hstreak⟩ | ⟨htwo, hfree⟩
        · exact h.calm hshared
        · by_cases hcls : cls = error.causeClass
          · exact hthree (hcls ▸ hstreak)
          · rw [hother cls hcls] at hstreak
            omega
        · exact hnone ⟨hdigest.mpr hfree, by rw [hlength hfree, htwo, digestBreakerThreshold]⟩

/-- Answers that end in a shared cause still do with more after them. -/
theorem shared_append {counts more : List (Option String)} (h : Shared counts) :
    Shared (counts ++ more) := by
  rcases h with ⟨cls, h⟩ | ⟨a, b, c, h⟩
  · exact .inl ⟨cls, h.trans (List.prefix_append _ _).isInfix⟩
  · exact .inr ⟨a, b, c, h.trans (List.prefix_append _ _)⟩

/-- By induction on the answers that are left. -/
theorem Tracks.trips_iff {breaker : DigestBreaker} {history : List (Option String)}
    (h : breaker.Tracks history)
    (answers : List (RelPath × Except DigestError ContentFingerprint)) :
    (∃ e, answers.foldlM note breaker = .error e) ↔
      Shared (history.reverse ++ answers.filterMap counted) := by
  induction answers generalizing breaker history with
  | nil =>
    simp only [List.foldlM_nil, List.filterMap_nil, List.append_nil]
    exact ⟨fun ⟨_, he⟩ => (by cases he), fun hshared => absurd hshared h.calm⟩
  | cons answer answers ih =>
    have hgoes : ∀ {x : Option String} {breaker' : DigestBreaker},
        note breaker answer = .ok breaker' → counted answer = some x →
        breaker'.Tracks (x :: history) →
        ((∃ e, (answer :: answers).foldlM note breaker = .error e) ↔
          Shared (history.reverse ++ (answer :: answers).filterMap counted)) := by
      intro x breaker' hnote hcounted htracks
      rw [List.foldlM_cons, hnote, List.filterMap_cons, hcounted]
      have := ih htracks
      rw [List.reverse_cons, List.append_assoc] at this
      exact this
    obtain ⟨relative, answered⟩ := answer
    cases answered with
    | ok digest => exact hgoes rfl rfl h.succeeded
    | error error =>
      by_cases hcounted : error.apiCode = some 105 ∨ error.apiCode = some 408
      · have hnote : note breaker (relative, .error error) = .ok breaker := by
          simp [note, DigestBreaker.failed, hcounted]
        have hskip : counted (relative, .error error) = none := by simp [counted, hcounted]
        rw [List.foldlM_cons, hnote, List.filterMap_cons, hskip]
        exact ih h
      · have hclass : counted (relative, .error error) = some (some error.causeClass) := by
          simp [counted, hcounted]
        rcases h.failed relative hcounted with ⟨breaker', hnote, htracks⟩ | ⟨⟨e, hnote⟩, hshared⟩
        · exact hgoes hnote hclass htracks
        · have hfails : note breaker (relative, .error error) = .error e := hnote
          rw [List.foldlM_cons, hfails, List.filterMap_cons, hclass]
          refine iff_of_true ⟨e, rfl⟩ ?_
          have : Shared (_ ++ answers.filterMap counted) := shared_append hshared
          rwa [List.reverse_cons, List.append_assoc] at this

/-- A pass over the digests of a run fails just where the failures that count share a cause: three
in a row of one class, or the first three answers. -/
theorem breaker_trips_iff (answers : List (RelPath × Except DigestError ContentFingerprint)) :
    (∃ e, answers.foldlM note start = .error e) ↔ Shared (answers.filterMap counted) := by
  simpa using tracks_start.trips_iff answers

end DigestBreaker

/-! ## The digests of the remote files -/

abbrev FullFingerprint := { digest : ContentFingerprint // digest.hasFullProof = true }

/-- What the two sides answer when files are read for their digests, each file once. -/
structure DigestSource where
  hash : LocalEntry → Except ExecError FullFingerprint
  hashMd5 : LocalEntry → Except ExecError ContentFingerprint
  fingerprintApi : Except DigestError Unit
  md5Api : Except DigestError Unit
  fingerprint : RelPath → Nat → Except DigestError FullFingerprint
  md5 : RelPath → Except DigestError ContentFingerprint
  /-- Whether DSM still answers for the session after a file was refused. -/
  sessionAnswers : RelPath → Bool

/-- A pass over the selected remote files. -/
structure DigestPass where
  entries : RemoteMap
  deferred : List (RelPath × DigestError)
  breaker : DigestBreaker

namespace DigestPass

def start (R : RemoteInventory) : DigestPass := ⟨R.entries, [], .start⟩

def selectedFile (pass : DigestPass) (relative : RelPath) : Except DigestError RemoteEntry :=
  match pass.entries.get? relative with
  | none => .error (.other ("remote content selection referenced missing inventory path " ++
      quoteRelative relative))
  | some entry =>
    if entry.kind = .file then .ok entry
    else .error (.other ("remote content selection referenced non-file path " ++
      quoteRelative relative))

/-- The digest goes into the inventory; a failure is one more deferred file, unless it is one too
many of its cause. -/
def record (pass : DigestPass) (asked : RemoteEntry × Except DigestError ContentFingerprint) :
    Except DigestError DigestPass := do
  let breaker ← pass.breaker.note (asked.1.relative, asked.2)
  match asked.2 with
  | .ok digest => return { pass with
      entries := pass.entries.insert { asked.1 with contentMd5 := some digest }
      breaker }
  | .error error => return { pass with
      deferred := pass.deferred ++ [(asked.1.relative, error)]
      breaker }

end DigestPass

section Passes

variable (source : DigestSource)

/-- What an answer says of its file; a failure that is not confined to it ends the pass. -/
def judgeDigest (entry : RemoteEntry) (answer : Except DigestError ContentFingerprint) :
    Except DigestError (RemoteEntry × Except DigestError ContentFingerprint) :=
  match answer with
  | .ok digest => .ok (entry, .ok digest)
  | .error error =>
    if digestFailureScope (source.sessionAnswers entry.remotePath) error = .run then
      .error (error.namingRemoteFile entry.remotePath)
    else .ok (entry, .error (error.namingRemoteFile entry.remotePath))

def fingerprintOne (pass : DigestPass) (relative : RelPath) : Except DigestError DigestPass := do
  let entry ← pass.selectedFile relative
  let answer := (source.fingerprint entry.remotePath entry.size).map (·.1)
  pass.record (← judgeDigest source entry answer)

/-- The files whose digest authorises a deletion or a server copy are downloaded. -/
def populateRemoteContentFingerprintsDeferring (R : RemoteInventory)
    (selected : Std.TreeSet RelPath) :
    Except DigestError (RemoteInventory × List (RelPath × DigestError)) := do
  source.fingerprintApi
  let pass ← selected.toList.foldlM (fingerprintOne source) (.start R)
  return ({ R with entries := pass.entries }, pass.deferred)

def remoteMd5Batch : Nat := 32

/-- A list in pieces of at most `n`. -/
def batches {α : Type} (n : Nat) (l : List α) : List (List α) :=
  (List.range ((l.length + (n - 1)) / n)).map fun i => (l.drop (n * i)).take n

/-- One batch of checksums taken on the NAS. Some of them are taken at once: of several failures
that each end the pass, the one reported is the first of the batch. -/
def md5Batch (pass : DigestPass) (batch : List RelPath) : Except DigestError DigestPass := do
  let files ← batch.mapM pass.selectedFile
  let answers ← files.mapM fun entry => judgeDigest source entry (source.md5 entry.remotePath)
  answers.foldlM DigestPass.record pass

def populateRemoteContentMd5With (R : RemoteInventory) (selected : List RelPath) :
    Except DigestError (RemoteInventory × List (RelPath × DigestError)) := do
  source.md5Api
  let pass ← (batches remoteMd5Batch selected).foldlM (md5Batch source) (.start R)
  return ({ R with entries := pass.entries }, pass.deferred)

/-- Each remote digest from the cheapest source that is strong enough for what it is used for. -/
def populateRemoteContentDigestsDeferring (R : RemoteInventory)
    (comparison strong : Std.TreeSet RelPath) :
    Except DigestError (RemoteInventory × List (RelPath × DigestError)) := do
  let (R, deferred) ← populateRemoteContentFingerprintsDeferring source R strong
  let (R, deferred') ← populateRemoteContentMd5With source R
    (comparison.toList.filter fun relative => !strong.contains relative)
  return (R, deferred ++ deferred')

/-! ## The digests of the local files -/

structure HashPass where
  entries : LocalMap
  failed : List (RelPath × ExecError)

def hashOne (comparison : Std.TreeSet RelPath) (pass : HashPass) (entry : LocalEntry) :
    Except ExecError HashPass :=
  if entry.kind ≠ .file ∨ entry.contentMd5.isSome = true then .ok pass
  else
    let digest := if comparison.contains entry.relative then source.hashMd5 entry
      else (source.hash entry).map (·.1)
    match digest with
    | .ok digest =>
      .ok { pass with entries := pass.entries.insert { entry with contentMd5 := some digest } }
    | .error .cancelled => .error .cancelled
    | .error error => .ok { pass with failed := pass.failed ++ [(entry.relative, error)] }

/-- MD5 where the remote side will only carry MD5, full strength everywhere else. -/
def populateContentMd5SelectiveDeferring (L : LocalInventory) (comparison : Std.TreeSet RelPath) :
    Except ExecError (LocalInventory × List (RelPath × ExecError)) := do
  let pass ← L.entries.values.foldlM (hashOne source comparison) ⟨L.entries, []⟩
  return ({ L with entries := pass.entries }, pass.failed)

end Passes

/-! ## The digests of a run -/

/-- What a run that is being prepared fails with, by the step that fails. -/
inductive RunError where
  | local (error : ExecError)
  | digest (error : DigestError)
  | remote (error : ApiError)
  | plan (error : PlanError)
  | scopeNotFound (scope : RelPath)
  | foldersUnlistable (refused folders : Nat) (shown : List RelPath)
  | remoteRealPathUnusable (kind : String) (linked checked : Nat) (sample : List RelPath)
      (more : Nat)
  | reconciliationPending (pending : ReconciliationPending)
  | message (text : String)
deriving DecidableEq, Repr

/-- What is being prepared: the two inventories, and the paths left out so far. -/
structure Prepared where
  L : LocalInventory
  R : RemoteInventory
  deferred : List DeferredPath

namespace Prepared

/-- Take one path out of the run, shielded rather than absent, and name it. -/
def withhold (prepared : Prepared) (relative : RelPath) (reason : DeferReason) (detail : String) :
    Prepared :=
  { prepared with
    L := prepared.L.withhold relative (.deferred (reason.asStr ++ ": " ++ detail))
    deferred := prepared.deferred ++ [⟨relative, reason, detail⟩] }

def withholdLocal (prepared : Prepared) (failed : RelPath × ExecError) : Prepared :=
  prepared.withhold failed.1 ((DeferReason.forLocalError failed.2).getD .sourceUnreadable)
    failed.2.message

def withholdRemote (prepared : Prepared) (failed : RelPath × DigestError) : Prepared :=
  prepared.withhold failed.1 failed.2.deferReason failed.2.display

end Prepared

section Populate

variable [Unicode] (source : DigestSource)

/-- The digests of a content-mode run. What could not be read locally is not asked of the NAS. -/
def populateContent (rules : IgnoreRules) (serverCopy delete : Bool) (incomplete : List RelPath)
    (prepared : Prepared) : Except RunError Prepared := do
  source.fingerprintApi.mapError .digest
  let selection := selectPlanDigests prepared.L prepared.R rules serverCopy delete incomplete
  let comparison := Std.TreeSet.ofList selection.1 compare
  let strong := Std.TreeSet.ofList selection.2 compare
  let (L, failed) ← (populateContentMd5SelectiveDeferring source prepared.L comparison).mapError
    .local
  let unread := failed.map (·.1)
  let prepared := failed.foldl Prepared.withholdLocal { prepared with L }
  let (R, failed) ← (populateRemoteContentDigestsDeferring source prepared.R
    (unread.foldl (·.erase ·) comparison) (unread.foldl (·.erase ·) strong)).mapError .digest
  return failed.foldl Prepared.withholdRemote { prepared with R }

/-- A forced run compares nothing: every digest guards a deletion. -/
def populateForced (rules : IgnoreRules) (incomplete : List RelPath) (prepared : Prepared) :
    Except RunError Prepared := do
  source.fingerprintApi.mapError .digest
  let selected := deletionGuardCandidates prepared.L prepared.R rules
    (resolve prepared.L prepared.R rules true []) incomplete
  let (R, failed) ← (populateRemoteContentFingerprintsDeferring source prepared.R
    (Std.TreeSet.ofList selected compare)).mapError .digest
  return failed.foldl Prepared.withholdRemote { prepared with R }

/-- Every digest a plan of the two inventories needs, and what had to be left out of the run. -/
def populatePlanDigests (rules : IgnoreRules) (mode : CompareMode) (serverCopy delete : Bool)
    (incomplete : List RelPath) (L : LocalInventory) (R : RemoteInventory) :
    Except RunError Prepared :=
  let guarded := delete && mode.requiresDeletionDigest
  let prepared : Prepared := ⟨withholdByListing L R rules guarded incomplete, R,
    if guarded then (deletionsWithheldByListing L R rules incomplete).map fun relative =>
      ⟨relative, .listingIncomplete, listingIncompleteDetail⟩
    else []⟩
  match mode with
  | .content => populateContent source rules serverCopy delete incomplete prepared
  | .force => if delete then populateForced source rules incomplete prepared else .ok prepared
  | .metadata | .sizeOnly => .ok prepared

end Populate

end DriveSync
