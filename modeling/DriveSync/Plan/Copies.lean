import DriveSync.Small
import DriveSync.Plan.Planned

/-!
# DriveSync.Plan.Copies

The server copies of a plan: what they read, what they stand in for, and what the mirror deletions
wait for.

* `Reuses`: a copy of exactly the content an upload needs, from a remote file the plan leaves where
  it is or deletes last.
* `reuses_of_replaceUploads`: a source belongs to one content, and a content to one upload, so that no
  source is copied twice.
* `copies_reuse`: the copies and the guards of a finished plan.
-/

namespace DriveSync

open Path

section Copies

variable [Unicode] {root : RemoteRoot} {L : LocalInventory} {R : RemoteInventory}
  {rules : IgnoreRules} {options : PlanOptions} {resolution : Resolution}

/-- A copy reads a remote file that nothing else of the plan is about, which has the size, the
modification second and the full fingerprint of the local file, and writes where the NAS holds
nothing. -/
structure Reuses (root : RemoteRoot) (L : LocalInventory) (R : RemoteInventory)
    (rules : IgnoreRules) (resolution : Resolution) (predeleted : List RelPath) (c : CopyAction)
    (e : RemoteEntry) : Prop where
  source : CopySource L R rules resolution predeleted e
  fromRelative : c.fromRelative = e.relative
  fromRemotePath : c.fromRemotePath = e.remotePath
  size : e.size = c.entry.size
  mtime : e.mtimeSeconds = localMtimeSeconds c.entry
  digest : e.contentMd5 = some c.contentMd5 ∧ c.entry.contentMd5 = some c.contentMd5
  proved : c.contentMd5.hasFullProof = true
  expectedSize : c.expectedSize = c.entry.size
  snapshot : c.sourceSnapshot = ⟨.file, e.size, e.mtimeSeconds, some c.contentMd5, true⟩
  toRelative : c.toRelative = c.entry.relative
  toRemotePath : c.toRemotePath = destination root resolution c.entry
  missing : resolution.pairs.remoteOf R c.entry.relative = none

theorem Reuses.congr {l l' : List RelPath} {c : CopyAction} {e : RemoteEntry}
    (h : Reuses root L R rules resolution l c e) (hsub : ∀ p, p ∈ l' → p ∈ l) :
    Reuses root L R rules resolution l' c e :=
  { h with
    source := { h.source with
      notPredeleted := fun hmem => h.source.notPredeleted (hsub _ hmem) } }

/-! ## Contents -/

omit [Unicode] in
theorem copyTarget_key {indexed : UploadAction × Nat} {target : ContentKey × Nat}
    (h : copyTarget R resolution indexed = .ok (some target)) :
    target.2 = indexed.2 ∧ resolution.pairs.remoteOf R indexed.1.entry.relative = none ∧
      ∃ digest, indexed.1.entry.contentMd5 = some digest ∧ digest.hasFullProof = true ∧
        target.1 = ⟨indexed.1.entry.size, digest, localMtimeSeconds indexed.1.entry⟩ := by
  obtain ⟨hindex, hmissing⟩ := copyTarget_eq_some h
  refine ⟨hindex, hmissing, ?_⟩
  simp only [copyTarget] at h
  split at h
  · cases h
  · split at h
    · cases h
    · rename_i digest hdigest
      split at h
      · rename_i hproof
        cases h
        exact ⟨digest, hdigest, hproof, rfl⟩
      · cases h

theorem copySource_key {predeleted : List RelPath} {e source : RemoteEntry} {key : ContentKey}
    (h : copySource L rules resolution predeleted e = some (key, source)) :
    ∃ digest, e.contentMd5 = some digest ∧ key = ⟨e.size, digest, e.mtimeSeconds⟩ := by
  simp only [copySource] at h
  split at h
  · cases h
  · split at h
    · cases h
    · rename_i digest hdigest
      split at h
      · cases h
        exact ⟨digest, hdigest, rfl⟩
      · cases h

omit [Unicode] in
theorem onlyOf_unique {α : Type} {l : List (ContentKey × α)} {key : ContentKey} {a b : α}
    (h : onlyOf l key = some a) (hb : (key, b) ∈ l) : b = a := by
  simp only [onlyOf] at h
  split at h
  · rename_i keyed hl
    cases h
    have hmem : (key, b) ∈ l.filter fun keyed => decide (keyed.1 = key) :=
      List.mem_filter.mpr ⟨hb, decide_eq_true rfl⟩
    rw [hl, List.mem_singleton] at hmem
    exact congrArg Prod.snd hmem
  · cases h

/-! ## The stage -/

/-- The copy that stands in for the upload of one index. -/
structure Chosen (targets : List (ContentKey × Nat)) (sources : List (ContentKey × RemoteEntry))
    (uploads : List UploadAction) (i : Nat) (c : CopyAction) (key : ContentKey)
    (source : RemoteEntry) (u : UploadAction) : Prop where
  wanted : (key, i) ∈ targets
  only : ∃ j, onlyOf targets key = some j
  held : onlyOf sources key = some source
  upload : uploads[i]? = some u
  copy : c = {
    fromRelative := source.relative
    fromRemotePath := source.remotePath
    toRelative := u.entry.relative
    toRemotePath := u.remotePath
    entry := u.entry
    expectedSize := key.size
    contentMd5 := key.digest
    sourceSnapshot := ⟨.file, source.size, source.mtimeSeconds, some key.digest, true⟩ }

omit [Unicode] in
/-- What a copy is made of: the only target and the only source of one content. -/
theorem copyFor_eq_some {uploads : List UploadAction} {targets : List (ContentKey × Nat)}
    {sources : List (ContentKey × RemoteEntry)} {target : ContentKey × Nat} {i : Nat}
    {c : CopyAction} (htarget : target ∈ targets)
    (h : copyFor uploads targets sources target = .ok (some (i, c))) :
    ∃ key source u, Chosen targets sources uploads i c key source u := by
  simp only [copyFor] at h
  split at h
  · rename_i source upload honly hsource hupload
    obtain ⟨p, _, h⟩ := Loop.bind_eq_ok.mp h
    obtain ⟨q, _, h⟩ := Loop.bind_eq_ok.mp h
    split at h
    · cases h
    · obtain ⟨rfl, rfl⟩ := Prod.mk.inj (Option.some.inj (Except.ok.inj h))
      exact ⟨target.1, source, upload, htarget, ⟨_, honly⟩, hsource, hupload, rfl⟩
  · cases h

/-- The copies a stage puts in the place of uploads: each reuses a source, and no two of them one. -/
structure Reused (root : RemoteRoot) (L : LocalInventory) (R : RemoteInventory)
    (rules : IgnoreRules) (resolution : Resolution) (predeleted : List RelPath)
    (copies : List CopyAction) : Prop where
  reuses : ∀ c ∈ copies, ∃ e, Reuses root L R rules resolution predeleted c e
  once : (copies.map (·.fromRelative)).Nodup

theorem reused_of_replaceUploads {plan plan' : SyncPlan} (hplan : plan.copies = [])
    (huploads : ∀ u ∈ plan.uploads, u.remotePath = destination root resolution u.entry)
    (h : replaceUploadsWithServerCopies L R rules options resolution plan = .ok plan') :
    Reused root L R rules resolution (plan.preDeletes.map (·.relative)) plan'.copies := by
  simp only [replaceUploadsWithServerCopies] at h
  split at h
  · cases h
    exact ⟨by simp [hplan], by simp [hplan]⟩
  · obtain ⟨found, htargets, h⟩ := Loop.bind_eq_ok.mp h
    obtain ⟨replacements, hrep, h⟩ := Loop.bind_eq_ok.mp h
    obtain rfl := Except.ok.inj h
    have hchosen : ∀ i c, (replacements.filterMap id).lookup i = some c →
        ∃ key source u, Chosen (found.filterMap id) (R.entries.values.filterMap
          (copySource L rules resolution (plan.preDeletes.map (·.relative)))) plan.uploads i c key
            source u := by
      intro i c hc
      obtain ⟨before, after, hsplit, -⟩ := List.lookup_eq_some_iff.mp hc
      have hmem : (i, c) ∈ replacements.filterMap id := by rw [hsplit]; simp
      obtain ⟨r, hr, hrc⟩ := List.mem_filterMap.mp hmem
      obtain ⟨target, htarget, hcopy⟩ := Loop.mem_of_mapM hrep r hr
      obtain rfl : r = some (i, c) := hrc
      exact copyFor_eq_some htarget hcopy
    have htarget : ∀ key i, (key, i) ∈ found.filterMap id → ∀ u, plan.uploads[i]? = some u →
        resolution.pairs.remoteOf R u.entry.relative = none ∧
          ∃ digest, u.entry.contentMd5 = some digest ∧ digest.hasFullProof = true ∧
            key = ⟨u.entry.size, digest, localMtimeSeconds u.entry⟩ := by
      intro key i hmem u hu
      obtain ⟨t, ht, htt⟩ := List.mem_filterMap.mp hmem
      obtain ⟨indexed, hindexed, htgt⟩ := Loop.mem_of_mapM htargets t ht
      obtain rfl : t = some (key, i) := htt
      obtain ⟨rfl, hmissing, hkey⟩ := copyTarget_key htgt
      rw [List.mem_zipIdx_iff_getElem?.mp hindexed] at hu
      obtain rfl := Option.some.inj hu
      exact ⟨hmissing, hkey⟩
    simp only [hplan, List.nil_append]
    generalize (replacements.filterMap id) = replacements at hchosen ⊢
    refine ⟨?_, ?_⟩
    · intro c hc
      obtain ⟨⟨u, i⟩, hu, hc⟩ := List.mem_filterMap.mp hc
      obtain ⟨key, source, u', hch⟩ := hchosen i c hc
      obtain ⟨hmissing, digest, hdigest, hproof, hkey⟩ := htarget key i hch.wanted u' hch.upload
      obtain ⟨e, he, hsrc⟩ := List.mem_filterMap.mp (mem_of_onlyOf hch.held)
      obtain ⟨rfl, hsource⟩ := copySource_eq_some he hsrc
      obtain ⟨digest', hdigest', hkey'⟩ := copySource_key hsrc
      obtain ⟨hsize, hsame, hmtime⟩ := ContentKey.mk.inj (hkey.symm.trans hkey')
      have hremote := huploads u' (List.mem_of_getElem? hch.upload)
      rw [hch.copy, hkey]
      exact ⟨e, hsource, rfl, rfl, hsize.symm, hmtime.symm, ⟨hsame ▸ hdigest', hdigest⟩, hproof, rfl,
        rfl, rfl, hremote, hmissing⟩
    · rw [List.Nodup, List.pairwise_map, List.pairwise_filterMap]
      have hindexes : (plan.uploads.zipIdx).Pairwise fun u v => u.2 ≠ v.2 := by
        rw [← List.pairwise_map (f := Prod.snd) (R := (· ≠ ·)), List.zipIdx_map_snd]
        exact List.nodup_range'
      refine hindexes.imp ?_
      rintro ⟨u, i⟩ ⟨v, j⟩ hij c hc c' hc' hsame
      obtain ⟨key, source, u', hch⟩ := hchosen i c hc
      obtain ⟨key', source', v', hch'⟩ := hchosen j c' hc'
      obtain ⟨e, he, hsrc⟩ := List.mem_filterMap.mp (mem_of_onlyOf hch.held)
      obtain ⟨e', he', hsrc'⟩ := List.mem_filterMap.mp (mem_of_onlyOf hch'.held)
      obtain ⟨rfl, _⟩ := copySource_eq_some he hsrc
      obtain ⟨rfl, _⟩ := copySource_eq_some he' hsrc'
      rw [hch.copy, hch'.copy] at hsame
      -- a source has one content, and a content one upload
      obtain rfl : e = e' := EntryMap.eq_of_relative_eq he he' hsame
      obtain rfl : key = key' := congrArg Prod.fst (Option.some.inj (hsrc.symm.trans hsrc'))
      obtain ⟨k, honly⟩ := hch.only
      exact hij ((onlyOf_unique honly hch.wanted).trans (onlyOf_unique honly hch'.wanted).symm)

theorem reused_of_planCopies {plan plan' : SyncPlan} (hplan : plan.copies = [])
    (huploads : ∀ u ∈ plan.uploads, u.remotePath = destination root resolution u.entry)
    (h : planCopies L R rules options resolution plan = .ok plan') :
    Reused root L R rules resolution (plan.preDeletes.map (·.relative)) plan'.copies := by
  simp only [planCopies] at h
  split at h
  · exact reused_of_replaceUploads hplan huploads h
  · cases h
    exact ⟨by simp [hplan], by simp [hplan]⟩

/-! ## The finished plan -/

/-- The guard of a deletion that waits for a copy. -/
def guardOf (c : CopyAction) : DestinationGuard :=
  ⟨c.toRemotePath, c.entry, c.expectedSize, localMtimeSeconds c.entry, c.contentMd5⟩

omit [Unicode] in
theorem guardDeletion_of_mem {copies : List CopyAction} {c : CopyAction} {action : DeleteAction}
    (honce : (copies.map (·.fromRelative)).Nodup) (hc : c ∈ copies)
    (hsource : c.fromRelative = action.relative) :
    (guardDeletion copies action).destinationGuard = some (guardOf c) := by
  cases hfind : copies.reverse.find? fun copy => decide (copy.fromRelative = action.relative) with
  | none =>
    have hnot := List.find?_eq_none.mp hfind c (List.mem_reverse.mpr hc)
    exact absurd (decide_eq_true hsource) hnot
  | some c' =>
    have hc' : c' ∈ copies := List.mem_reverse.mp (List.mem_of_find?_eq_some hfind)
    have hsource' : c'.fromRelative = action.relative := by simpa using List.find?_some hfind
    obtain rfl : c' = c := List.inj_on_of_nodup_map honce hc' hc (hsource'.trans hsource.symm)
    rw [guardDeletion, hfind]
    rfl

omit [Unicode] in
theorem guardDeletion_of_not {copies : List CopyAction} {action : DeleteAction}
    (hnone : ∀ c ∈ copies, c.fromRelative ≠ action.relative) :
    (guardDeletion copies action).destinationGuard = none := by
  have hfind : copies.reverse.find? (fun copy => decide (copy.fromRelative = action.relative)) =
      none := by
    rw [List.find?_eq_none]
    intro c hc hsource
    exact hnone c (List.mem_reverse.mp hc) (of_decide_eq_true hsource)
  rw [guardDeletion, hfind]
  rfl

/-- The copies of a finished plan, before the last sort, and its deletions with the guards they give
them. -/
theorem exists_guarded {plan : SyncPlan} (h : buildPlan root L R rules options = .ok plan) :
    ∃ (copies : List CopyAction) (before : List DeleteAction), plan.copies.Perm copies ∧
      Reused root L R rules (planResolution root L R rules options)
        (plan.preDeletes.map (·.relative)) copies ∧
      plan.postDeletes.Perm (before.map (guardDeletion copies)) := by
  simp only [buildPlan, buildPlanOn, Loop.bind_eq_ok] at h
  obtain ⟨start, hstart, _, _, draft, hdraft, copied, hcopied, renamed, hrenamed, mirrored,
    hmirrored, h⟩ := h
  have hstart := createRoot_eq_ok hstart
  have hentries := entries_planned (by rw [hstart]; rfl) hdraft
  have hrenamed := planRenames_eq_ok hrenamed
  rw [reportLeftovers_eq] at hmirrored
  have hnone : draft.plan.copies = [] :=
    calc draft.plan.copies = start.copies := by rw [hentries.frame]
      _ = [] := by rw [hstart]; rfl
  have huploads : ∀ u ∈ draft.plan.uploads, u.remotePath =
      destination root (planResolution root L R rules options) u.entry := by
    intro u hu
    have hstarted : start.uploads = [] := by rw [hstart]; rfl
    rw [hentries.frame] at hu
    simp only [hstarted, List.nil_append, List.mem_filterMap] at hu
    obtain ⟨x, _, hx⟩ := hu
    obtain ⟨rfl, _, _, hremote⟩ := uploadOf_eq_some hx
    exact hremote
  have hreused := reused_of_planCopies hnone huploads hcopied
  obtain ⟨replaced, hcopied⟩ := copied_of_planCopies hcopied
  have hposts : renamed.postDeletes = [] :=
    calc renamed.postDeletes = copied.postDeletes := by rw [hrenamed]
      _ = draft.plan.postDeletes := by rw [hcopied.frame]
      _ = start.postDeletes := by rw [hentries.frame]
      _ = [] := by rw [hstart]; rfl
  obtain ⟨s, hs, hmirrored⟩ := planDeletions_mirrored
    (fun d hd => mem_predeleted_iff hentries hd) (by exact hposts) hmirrored
  obtain ⟨hplan, _⟩ := checkLimits_eq_ok h
  -- the last sort moves the copies and the deletions, and changes none
  have hpre : plan.preDeletes.Perm draft.plan.preDeletes := by
    have hsame : s.plan.preDeletes = draft.plan.preDeletes :=
      calc s.plan.preDeletes = renamed.preDeletes := by rw [hs.frame]
        _ = copied.preDeletes := by rw [hrenamed]
        _ = draft.plan.preDeletes := by rw [hcopied.frame]
    rw [hplan, preDeletes_finishPlan, hmirrored, ← hsame]
    exact List.perm_insertionSort _ _
  have hsame : s.plan.copies = copied.copies :=
    calc s.plan.copies = renamed.copies := by rw [hs.frame]
      _ = copied.copies := by rw [hrenamed]
  have hcopies : plan.copies.Perm copied.copies := by
    rw [hplan, copies_finishPlan, hmirrored, ← hsame]
    exact List.perm_insertionSort _ _
  have hpost : plan.postDeletes.Perm (s.plan.postDeletes.map (guardDeletion copied.copies)) := by
    rw [hplan, postDeletes_finishPlan, hmirrored, ← hsame]
    exact List.perm_insertionSort _ _
  refine ⟨copied.copies, s.plan.postDeletes, hcopies, ⟨fun c hc => ?_, hreused.once⟩, hpost⟩
  obtain ⟨e, he⟩ := hreused.reuses c hc
  exact ⟨e, he.congr fun p hp => ((hpre.map _).mem_iff.mp hp)⟩

theorem copies_reuse {plan : SyncPlan} (h : buildPlan root L R rules options = .ok plan) :
    (∀ c ∈ plan.copies, ∃ e, Reuses root L R rules (planResolution root L R rules options)
      (plan.preDeletes.map (·.relative)) c e) ∧
    (plan.copies.map (·.fromRelative)).Nodup ∧
    ∀ action ∈ plan.postDeletes,
      (∀ c ∈ plan.copies, c.fromRelative = action.relative →
        action.destinationGuard = some (guardOf c)) ∧
      ((∀ c ∈ plan.copies, c.fromRelative ≠ action.relative) → action.destinationGuard = none) := by
  obtain ⟨copies, _, hcopies, hreused, hpost⟩ := exists_guarded h
  refine ⟨fun c hc => hreused.reuses c (hcopies.mem_iff.mp hc), ?_, fun action haction => ?_⟩
  · exact (hcopies.map _).nodup_iff.mpr hreused.once
  · obtain ⟨before, _, rfl⟩ := List.mem_map.mp (hpost.mem_iff.mp haction)
    refine ⟨?_, ?_⟩
    · intro c hc hsource
      exact guardDeletion_of_mem hreused.once (hcopies.mem_iff.mp hc) hsource
    · intro hno
      exact guardDeletion_of_not fun c hc => hno c (hcopies.mem_iff.mpr hc)

end Copies

/-! ## A file moved to another folder -/

namespace MovedFile

open Small

def fingerprint : ContentFingerprint := ⟨0x5d41, some ⟨0x3610, 0x2cf2⟩⟩

def source : RemoteEntry :=
  { remoteFile (path [name 'a', name 'x']) 5 with contentMd5 := some fingerprint }

def localSide : LocalInventory :=
  locals [localFolder (path [name 'b']),
    { localFile (path [name 'b', name 'x']) 5 with contentMd5 := some fingerprint }]

def remoteSide : RemoteInventory := remotes [remoteFolder (path [name 'a']), source]

def options : PlanOptions := { mirror with compare := .content, serverCopy := true }

theorem copies_reuse_moved :
    letI := charwise
    ∃ plan, buildPlan root localSide remoteSide noRules options = .ok plan ∧
      plan.copies.length = 1 ∧ (plan.postDeletes.any fun a => a.destinationGuard.isSome) = true ∧
      (∀ c ∈ plan.copies, ∃ e, Reuses root localSide remoteSide noRules
        (planResolution root localSide remoteSide noRules options)
        (plan.preDeletes.map (·.relative)) c e) ∧
      (plan.copies.map (·.fromRelative)).Nodup ∧
      ∀ action ∈ plan.postDeletes,
        (∀ c ∈ plan.copies, c.fromRelative = action.relative →
          action.destinationGuard = some (guardOf c)) ∧
        ((∀ c ∈ plan.copies, c.fromRelative ≠ action.relative) →
          action.destinationGuard = none) := by
  let := charwise
  obtain ⟨plan, hplan, hsome⟩ := Loop.exists_of_okAnd
    (x := buildPlan root localSide remoteSide noRules options)
    (p := fun plan => decide (plan.copies.length = 1) &&
      plan.postDeletes.any fun a => a.destinationGuard.isSome) (by decide +kernel)
  obtain ⟨hcopies, hguard⟩ := Bool.and_eq_true_iff.mp hsome
  exact ⟨plan, hplan, of_decide_eq_true hcopies, hguard, copies_reuse hplan⟩

end MovedFile

end DriveSync
