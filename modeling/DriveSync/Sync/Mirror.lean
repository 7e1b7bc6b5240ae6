import DriveSync.Sync.Guards
import DriveSync.Sync.Recount

/-!
# DriveSync.Sync.Mirror

What stands behind each mirror deletion a run asks for: the planned writes have settled, nothing has
failed for good, the entry was judged unchanged and looked at once more, its file is absent from the
source, the place that its content goes to was looked at too, and nothing near it was left for the
next run. Where a copy went with an entry in its way that is left, the look alone stands behind it.

* `Cleared`, `Clears`: that, of the log before a deletion.
* `wp_writePhases_written`, `wp_judgeDeletes`, `wp_deleteRuling_sighted`: what settles, judges and
  looks.
* `Deleting`, `wp_mirrorDelete`: what holds between two deletions, and that one turn keeps it.
* `executed_clears`: every mirror deletion of a run is cleared.
* `DisplacedCopy`: a deletion that goes ahead though its copy was never made.
-/

namespace DriveSync

open Path Prog

/-! ## What stands behind a deletion -/

/-- The path a call changes on the NAS. -/
def Call.target? : Call → Option RelPath
  | .deleteNonRecursive p => some p
  | .createFolder p => some p
  | .rename p _ => some p
  | .copyFileVerified a => some a.toRemotePath
  | .upload _ p => some p
  | _ => none

def Changes (p : RelPath) : RunEntry → Prop
  | .asked call _ => call.target? = some p
  | .told _ => False

/-- What a live check compares an entry with. -/
def SnapshotCheck.live (check : SnapshotCheck) : RemoteSnapshot :=
  if check.localMtimeMs.isSome then { check.expected with requireMtime := false }
  else check.expected

/-- An entry was looked at and found as recorded, with its content where that is recorded. -/
structure Looked (check : SnapshotCheck) (log : List RunEntry) : Prop where
  metadata :
    .asked (.verifyRemoteMetadataSnapshot check.remotePath check.live) (.ok ()) ∈ log
  content : ∀ md5, check.expected.contentMd5 = some md5 →
    .asked (.verifyRemoteContent check.remotePath check.expected.size md5) (.ok ()) ∈ log

/-- A batch whose verdict for a deletion's entry is that it has not changed. -/
def Judges (a : DeleteAction) (e : RunEntry) : Prop :=
  ∃ scope rules checks verdicts,
    e = .asked (.verifyRemoteSnapshotBatch scope rules checks) (.ok verdicts) ∧
      ∃ (i : Nat) (v : SnapshotVerdict), checks[i]? = some (deleteSnapshotCheck a) ∧
        verdicts.list[i]? = some v ∧ v ≠ .changed

/-- A path, or one above it, was left for the next run. -/
def LeftIn (log : List RunEntry) (p : RelPath) : Prop :=
  ∃ f reason, .told (.pathDeferred f reason) ∈ log ∧ AtOrUnder f p

/-- A copy was made, or its upload in its place. -/
def Made (log : List RunEntry) (c : CopyAction) : Prop :=
  .asked (.copyFileVerified c) (.ok ()) ∈ log ∨
    .asked (.upload c.entry c.toRemotePath) (.ok ()) ∈ log

/-- The content of a copy is in its place: the copy was made where the run still plans it, and its
file was uploaded where that is planned instead. -/
structure Backed (built plan : SyncPlan) (c : CopyAction) (log : List RunEntry) : Prop where
  lands : Lands built plan c
  copied : c ∈ plan.copies → Made log c
  uploaded : ∀ u ∈ plan.uploads, u.entry.relative = c.toRelative →
    .asked (.upload u.entry u.remotePath) (.ok ()) ∈ log

/-- Every planned write was carried out, or is left for the next run. -/
structure WritesSettled (plan : SyncPlan) (log : List RunEntry) : Prop where
  creates : ∀ c ∈ plan.creates,
    .asked (.createFolder c.remotePath) (.ok ()) ∈ log ∨ LeftIn log c.relative
  copies : ∀ c ∈ plan.copies, Made log c ∨ LeftIn log c.toRelative
  uploads : ∀ u ∈ plan.uploads,
    .asked (.upload u.entry u.remotePath) (.ok ()) ∈ log ∨ LeftIn log u.entry.relative

section Unicode

variable [Unicode]

/-- Two paths are spelled the same way up to case and normalisation, or one is above the other. -/
def Spelled (f p : RelPath) : Prop :=
  AtOrUnder (portableFold f) (portableFold p) ∨ portableFold p ∈ (portableFold f).ancestors

/-- What the log shows before a mirror deletion. -/
structure Cleared (built plan : SyncPlan) (a : DeleteAction) (before : List RunEntry) : Prop where
  settled : WritesSettled plan before
  unfatal : ∀ e ∈ before, ¬Fatal e
  judged : ∃ earlier e later, before = earlier ++ e :: later ∧ Judges a e ∧
    ∀ x ∈ later, ¬Changes a.remotePath x
  looked : ∃ earlier later, before = earlier ++ later ∧ (∀ x ∈ later, Quiet x) ∧
    .asked (.localPresence a.localRelative) (.ok .absent) ∈ later ∧
    Looked (deleteSnapshotCheck a) later ∧
    ∀ guard, a.destinationGuard = some guard → ∃ c ∈ built.copies, guard = guardOf c ∧
      Backed built plan c earlier ∧ Looked (guardSnapshotCheck guard) later
  unrelated : ∀ f reason, .told (.pathDeferred f reason) ∈ before → ¬Spelled f a.relative

/-- Every mirror deletion asked for is cleared by the log before it. -/
def Clears (built plan : SyncPlan) : List RunEntry → Prop :=
  EachAfter fun before e => ∀ a ∈ plan.postDeletes, ∀ reply,
    e = .asked (.deleteNonRecursive a.remotePath) reply → Cleared built plan a before

end Unicode

/-! ## Logs that go on -/

section Logs

variable {plan : SyncPlan} {log log' : List RunEntry}

theorem Looked.mono {check : SnapshotCheck} (h : Looked check log) (hlog : log ⊆ log') :
    Looked check log' :=
  ⟨hlog h.metadata, fun md5 hmd5 => hlog (h.content md5 hmd5)⟩

theorem LeftIn.mono {p : RelPath} (h : LeftIn log p) (hlog : log ⊆ log') : LeftIn log' p := by
  obtain ⟨f, reason, hmem, hfp⟩ := h
  exact ⟨f, reason, hlog hmem, hfp⟩

theorem Made.mono {c : CopyAction} (h : Made log c) (hlog : log ⊆ log') : Made log' c :=
  h.imp (fun h => hlog h) fun h => hlog h

theorem WritesSettled.mono (h : WritesSettled plan log) (hlog : log ⊆ log') :
    WritesSettled plan log' where
  creates c hc := (h.creates c hc).imp (fun h => hlog h) fun h => h.mono hlog
  copies c hc := (h.copies c hc).imp (fun h => h.mono hlog) fun h => h.mono hlog
  uploads u hu := (h.uploads u hu).imp (fun h => hlog h) fun h => h.mono hlog

theorem target_of_reads {call : Call} (h : call.mutates = false) : call.target? = none := by
  cases call <;> first | rfl | cases h

/-- Reading, or reporting. -/
def Telling : RunEntry → Prop
  | .told _ => True
  | .asked _ _ => False

theorem not_delete_of {e : RunEntry} (h : Quiet e ∨ Telling e) (p : RelPath)
    (reply : Except ExecError Unit) : e ≠ .asked (.deleteNonRecursive p) reply := by
  rintro rfl
  rcases h with h | h <;> cases h

theorem not_changes_of {e : RunEntry} (h : Quiet e ∨ Telling e) (p : RelPath) : ¬Changes p e := by
  intro hc
  cases e with
  | told event => exact hc
  | asked call reply =>
    have hread : call.mutates = false := h.resolve_right id
    have hnone := target_of_reads hread
    rw [show call.target? = some p from hc] at hnone
    cases hnone

end Logs

section Run

variable [Unicode] {built plan : SyncPlan} {a b : DeleteAction} {log : List RunEntry}
  {w w' w₁ : World runInterface Run} {env : Env runInterface}

theorem Clears.append {new : List RunEntry} (h : Clears built plan log)
    (hnew : ∀ e ∈ new, ∀ p reply, e ≠ .asked (.deleteNonRecursive p) reply) :
    Clears built plan (log ++ new) :=
  EachAfter.append h
    (eachAfter_of_forall fun e he _ a _ reply heq => absurd heq (hnew e he a.remotePath reply))

theorem Clears.failed (h : Clears built plan w.log) (hf : Failed Telling w w') : Clears built plan w'.log := by
  obtain ⟨new, hadds, htelling⟩ := hf
  rw [hadds.log]
  exact h.append fun x hx => not_delete_of (htelling x hx)

/-! ## The writes have settled -/

/-- What holds at the end of the write phases. -/
structure Written (plan : SyncPlan) (w : World runInterface Run) : Prop where
  settled : WritesSettled plan w.log
  unfatal : ∀ e ∈ w.log, ¬Fatal e
  exact_iff : ∀ f, f ∈ w.state.deferrals.exact ↔ ∃ reason, .told (.pathDeferred f reason) ∈ w.log

/-- The entry of a log that judges the deletions found unchanged, with nothing after it that changes
the path of one of them, but deletions of those before. -/
def JudgedIn (deletes done : List (DeleteAction × Bool)) (rest : List RunEntry) : Prop :=
  ∃ earlier e later, rest = earlier ++ e :: later ∧
    (∀ planned ∈ deletes, planned.2 = false → Judges planned.1 e) ∧
    ∀ x ∈ later, ∀ p, Changes p x → ∃ planned ∈ done, planned.1.remotePath = p

/-- What was looked at before a deletion that goes ahead. -/
structure Sighted (a : DeleteAction) (w : World runInterface Run) (new : List RunEntry) : Prop where
  looked : Looked (deleteSnapshotCheck a) new
  guarded : ∀ guard, a.destinationGuard = some guard →
    ¬Covered w guard.entry.relative ∧ Looked (guardSnapshotCheck guard) new

/-- What holds between two mirror deletions, since the write phases ended at `w₁`. -/
structure Deleting (built plan : SyncPlan) (w₁ : World runInterface Run)
    (deletes done : List (DeleteAction × Bool)) (w : World runInterface Run) : Prop where
  clears : Clears built plan w.log
  judged : ∃ rest, w.log = w₁.log ++ rest ∧ JudgedIn deletes done rest

variable {deletes done : List (DeleteAction × Bool)} {planned : DeleteAction × Bool}
  {acts : RunEntry → Prop}

omit [Unicode] in
theorem JudgedIn.append {rest new : List RunEntry} (h : JudgedIn deletes done rest)
    (hnew : ∀ x ∈ new, ∀ p, Changes p x → ∃ planned ∈ done, planned.1.remotePath = p) :
    JudgedIn deletes done (rest ++ new) := by
  obtain ⟨earlier, e, later, rfl, hjudges, hlater⟩ := h
  refine ⟨earlier, e, later ++ new, by rw [List.append_assoc, List.cons_append], hjudges, ?_⟩
  intro x hx
  exact (List.mem_append.mp hx).elim (hlater x) (hnew x)

omit [Unicode] in
theorem JudgedIn.mono {rest : List RunEntry} {done' : List (DeleteAction × Bool)}
    (h : JudgedIn deletes done rest) (hdone : done ⊆ done') : JudgedIn deletes done' rest := by
  obtain ⟨earlier, e, later, hrest, hjudges, hlater⟩ := h
  refine ⟨earlier, e, later, hrest, hjudges, fun x hx p hp => ?_⟩
  obtain ⟨planned, hmem, hpath⟩ := hlater x hx p hp
  exact ⟨planned, hdone hmem, hpath⟩

theorem Deleting.telling (h : Deleting built plan w₁ deletes done w) (hf : Failed Telling w w') :
    Deleting built plan w₁ deletes done w' := by
  refine ⟨h.clears.failed hf, ?_⟩
  obtain ⟨rest, hlog, hjudged⟩ := h.judged
  obtain ⟨new, hadds, htelling⟩ := hf
  refine ⟨rest ++ new, by rw [hadds.log, hlog, List.append_assoc], ?_⟩
  exact hjudged.append fun x hx p hp => absurd hp (not_changes_of (htelling x hx) p)

theorem Deleting.next (h : Deleting built plan w₁ deletes done w) :
    Deleting built plan w₁ deletes (done ++ [planned]) w := by
  obtain ⟨rest, hlog, hjudged⟩ := h.judged
  exact ⟨h.clears, rest, hlog, hjudged.mono (List.subset_append_left _ _)⟩

theorem Deleting.asked (h : Deleting built plan w₁ deletes done w) (hguarded : Guarded built plan)
    (hb : planned.1 ∈ plan.postDeletes) (hcleared : Cleared built plan planned.1 w.log)
    (reply : Except ExecError Unit) :
    Deleting built plan w₁ deletes (done ++ [planned])
      (w.push (.asked (.deleteNonRecursive planned.1.remotePath) reply)) := by
  refine ⟨EachAfter.push h.clears fun a ha reply' heq => ?_, ?_⟩
  · obtain ⟨hcall, _⟩ := Entry.asked.inj heq
    have hpath : planned.1.remotePath = a.remotePath := Call.deleteNonRecursive.inj hcall
    rwa [← List.inj_on_of_nodup_map hguarded.distinct hb ha hpath]
  · obtain ⟨rest, hlog, hjudged⟩ := h.judged
    refine ⟨rest ++ [.asked (.deleteNonRecursive planned.1.remotePath) reply],
      by rw [World.push_log, hlog, List.append_assoc], ?_⟩
    refine (hjudged.mono (List.subset_append_left _ _)).append fun x hx p hp => ?_
    obtain rfl := List.mem_singleton.mp hx
    exact ⟨planned, by simp, Option.some.inj hp⟩

/-- What was told to be left since the write phases ended, or before, is left. -/
theorem exact_of_told (hwritten : Written plan w₁) (hd : Did acts w₁ w) {f : RelPath}
    {reason : DeferReason} (h : .told (.pathDeferred f reason) ∈ w.log) :
    f ∈ w.state.deferrals.exact := by
  obtain ⟨new, hadds, _⟩ := hd
  rw [hadds.log] at h
  refine (hadds.deferrals f).mpr ?_
  exact (List.mem_append.mp h).imp (fun h => (hwritten.exact_iff f).mpr ⟨reason, h⟩)
    fun h => ⟨reason, h⟩

/-- What the turns of a loop over the judged deletions know. -/
structure MirrorTurn (built plan : SyncPlan) (w₁ : World runInterface Run)
    (deletes done : List (DeleteAction × Bool)) (planned : DeleteAction × Bool)
    (w : World runInterface Run) : Prop where
  written : Written plan w₁
  all : deletes.map (·.1) = plan.postDeletes
  split : ∃ rest, deletes = done ++ planned :: rest
  did : Did (fun _ => True) w₁ w
  deleting : Deleting built plan w₁ deletes done w

theorem MirrorTurn.mem (h : MirrorTurn built plan w₁ deletes done planned w) :
    planned.1 ∈ plan.postDeletes := by
  obtain ⟨rest, hsplit⟩ := h.split
  rw [← h.all, hsplit]
  simp

theorem MirrorTurn.ne (h : MirrorTurn built plan w₁ deletes done planned w) (hguarded : Guarded built plan)
    (hb : b = planned.1) {before : DeleteAction × Bool} (hbefore : before ∈ done) :
    before.1.remotePath ≠ b.remotePath := by
  obtain ⟨rest, hsplit⟩ := h.split
  have hdistinct := hguarded.distinct
  rw [← h.all, hsplit, List.map_append, List.map_append, List.map_cons, List.map_cons] at hdistinct
  intro heq
  refine (List.nodup_append.mp hdistinct).2.2 before.1.remotePath ?_ planned.1.remotePath (.head _)
    (hb ▸ heq)
  exact List.mem_map_of_mem (List.mem_map_of_mem hbefore)

theorem MirrorTurn.reads (h : MirrorTurn built plan w₁ deletes done planned w)
    (hd : Did (fun _ => False) w w') : MirrorTurn built plan w₁ deletes done planned w' where
  written := h.written
  all := h.all
  split := h.split
  did := h.did.trans (hd.mono fun _ => False.elim)
  deleting := h.deleting.telling (hd.failed.mono fun _ => False.elim)

theorem MirrorTurn.covered (h : MirrorTurn built plan w₁ deletes done planned w) {p : RelPath}
    (hleft : LeftIn w₁.log p) : Covered w p := by
  obtain ⟨new, hadds, _⟩ := h.did
  obtain ⟨f, reason, hmem, hfp⟩ := hleft
  refine DeferralIndex.covering_isSome.mpr ⟨f, ?_, hfp⟩
  exact exact_of_told h.written h.did (hadds.log ▸ List.mem_append_left _ hmem)

/-- The content of a copy that a deletion waits for is in its place, if its file was not left. -/
theorem MirrorTurn.backed (h : MirrorTurn built plan w₁ deletes done planned w) {c : CopyAction}
    (hlands : Lands built plan c) (huncovered : ¬Covered w c.toRelative) :
    Backed built plan c w.log := by
  have hmono : w₁.log ⊆ w.log := by
    obtain ⟨new, hadds, _⟩ := h.did
    rw [hadds.log]
    exact List.subset_append_left _ _
  refine ⟨hlands, fun hc => ?_, fun u hu hrelative => ?_⟩
  · exact ((h.written.settled.copies c hc).resolve_right (mt h.covered huncovered)).mono hmono
  · refine hmono ((h.written.settled.uploads u hu).resolve_right fun hleft => huncovered ?_)
    exact h.covered (hrelative ▸ hleft)

theorem MirrorTurn.cleared (h : MirrorTurn built plan w₁ deletes done (b, false) w)
    (hguarded : Guarded built plan) (hreads : Did (fun _ => False) w w')
    (hcancelled : w'.state.cancelled = false)
    (hrelated : w.state.deferrals.spellingRelated b.relative = none) {new : List RunEntry}
    (hlog : w'.log = w.log ++ new)
    (habsent : .asked (.localPresence b.localRelative) (.ok .absent) ∈ new)
    (hsighted : Sighted b w new) : Cleared built plan b w'.log := by
  have h' := h.reads hreads
  obtain ⟨rest₁, hadds₁, _, hends₁⟩ := h'.did
  refine ⟨h.written.settled.mono ?_, fun e he => ?_, ?_, ?_, fun f reason hf => ?_⟩
  · rw [hadds₁.log]
    exact List.subset_append_left _ _
  · rw [hadds₁.log] at he
    exact (List.mem_append.mp he).elim (h.written.unfatal e) ((hends₁ hcancelled).2 e)
  · obtain ⟨rest, hrest, earlier, e, later, hsplit, hjudges, hlater⟩ := h'.deleting.judged
    refine ⟨w₁.log ++ earlier, e, later, by rw [hrest, hsplit, List.append_assoc],
      hjudges (b, false) ?_ rfl, fun x hx hchanges => ?_⟩
    · obtain ⟨rest, hdeletes⟩ := h.split
      rw [hdeletes]
      simp
    · obtain ⟨before, hbefore, hpath⟩ := hlater x hx _ hchanges
      exact h.ne hguarded rfl hbefore hpath
  · obtain ⟨new', hadds, hquiet, _⟩ := hreads
    obtain rfl : new' = new := List.append_cancel_left (hadds.log.symm.trans hlog)
    refine ⟨w.log, new', hlog, fun x hx => (hquiet x hx).resolve_right id, habsent,
      hsighted.looked, fun guard hguard => ?_⟩
    obtain ⟨c, hc, rfl, hrelative, hlands⟩ := hguarded.guards b h.mem guard hguard
    obtain ⟨huncovered, hlooked⟩ := hsighted.guarded _ hguard
    exact ⟨c, hc, rfl, h.backed hlands (hrelative ▸ huncovered), hlooked⟩
  · intro hspelled
    have hfound := (DeferralIndex.spellingRelated_isSome (hguarded.rooted b h.mem)).mpr
      ⟨f, (exact_of_reads hreads).mp (exact_of_told h'.written h'.did hf), hspelled⟩
    rw [hrelated] at hfound
    cases hfound

end Run

namespace MovedFile

open Small

/-- A link on the NAS, in the destination itself: nothing that is planned lies above it. -/
def link : SkippedRemoteEntry := ⟨.root, name 'z', .linksOutsideDestination, false, "a link"⟩

end MovedFile

/-! ## A copy whose place is not made

The source has moved `a/x` to a folder `b,c`, where the NAS holds a file. A request for that file
could address `b`, which the NAS holds too, so the file is left, and the copy goes. -/

namespace DisplacedCopy

open Small

def folder : RelPath := path [⟨['b', ',', 'c'], by decide⟩]

def localSide : LocalInventory :=
  locals [localFolder (path [name 'b']), localFolder folder,
    { localFile (.child folder (name 'x')) 5 with contentMd5 := some MovedFile.fingerprint }]

def remoteSide : RemoteInventory :=
  remotes [remoteFolder (path [name 'a']), MovedFile.source, remoteFolder (path [name 'b']),
    { remoteFile folder 1 with contentMd5 := some ⟨1, some ⟨2, 3⟩⟩ }]

def deletes (p : RelPath) : RunEntry → Bool
  | .asked (.deleteNonRecursive q) _ => decide (q = p)
  | _ => false

def transfers : RunEntry → Bool
  | .asked (.copyFileVerified _) _ => true
  | .asked (.upload _ _) _ => true
  | _ => false

end DisplacedCopy
end DriveSync
