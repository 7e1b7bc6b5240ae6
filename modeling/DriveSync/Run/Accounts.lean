import DriveSync.Plan.Coverage
import DriveSync.Sync.Related
import DriveSync.Run.Prepared

/-!
# DriveSync.Run.Accounts

Nothing is left out of a run without a word: what the source lists is passed over by a rule, named, in
the plan, or on the NAS already; and what is taken out of a finished plan is named.

* `SyncPlan.Accounted`: a plan, and the same with actions taken out of it and named.
* `narrowPlan_accounted`: the operations a run applies leave such a plan.
* `prepare_accounts`: the whole of it, from the listing of the source on.
-/

namespace DriveSync

open Path

/-- Every path a plan writes a local entry for. -/
def SyncPlan.carried (plan : SyncPlan) : List RelPath :=
  plan.creates.map (·.relative) ++
    (plan.copies.map (·.toRelative) ++ plan.uploads.map (·.entry.relative))

/-- A record names a path, or one above it. -/
def NamedIn (deferred : List DeferredPath) (p : RelPath) : Prop :=
  ∃ record ∈ deferred, AtOrUnder record.relative p

theorem NamedIn.mono {deferred deferred' : List DeferredPath} {p : RelPath}
    (h : NamedIn deferred p) (hsub : deferred ⊆ deferred') : NamedIn deferred' p := by
  obtain ⟨record, hrecord, hat⟩ := h
  exact ⟨record, hsub hrecord, hat⟩

namespace SyncPlan

/-- `plan'` is `plan` with actions taken out of it, each of which the records name. -/
structure Accounted (plan plan' : SyncPlan) (deferred : List DeferredPath) : Prop where
  writes : ∀ p ∈ plan.carried, p ∈ plan'.carried ∨ NamedIn deferred p
  deletes : ∀ a ∈ plan.deletes, a ∈ plan'.deletes ∨ NamedIn deferred a.relative
  renames : ∀ a ∈ plan.renames, a ∈ plan'.renames ∨ NamedIn deferred a.relative

variable {plan plan' plan'' : SyncPlan} {deferred deferred' : List DeferredPath}

theorem Accounted.refl (plan : SyncPlan) (deferred : List DeferredPath) :
    plan.Accounted plan deferred :=
  ⟨fun _ h => .inl h, fun _ h => .inl h, fun _ h => .inl h⟩

theorem Accounted.trans (h : plan.Accounted plan' deferred) (h' : plan'.Accounted plan'' deferred) :
    plan.Accounted plan'' deferred where
  writes p hp := (h.writes p hp).elim (h'.writes p) .inr
  deletes a ha := (h.deletes a ha).elim (h'.deletes a) .inr
  renames a ha := (h.renames a ha).elim (h'.renames a) .inr

theorem Accounted.mono (h : plan.Accounted plan' deferred) (hsub : deferred ⊆ deferred') :
    plan.Accounted plan' deferred' where
  writes p hp := (h.writes p hp).imp_right (·.mono hsub)
  deletes a ha := (h.deletes a ha).imp_right (·.mono hsub)
  renames a ha := (h.renames a ha).imp_right (·.mono hsub)

theorem mem_carried {p : RelPath} : p ∈ plan.carried ↔
    (∃ c ∈ plan.creates, c.relative = p) ∨ (∃ c ∈ plan.copies, c.toRelative = p) ∨
      ∃ u ∈ plan.uploads, u.entry.relative = p := by
  simp only [carried, List.mem_append, List.mem_map]

/-- What a test holds back is named, and so is what the deletions it holds back were to make room
for. -/
theorem accounted_of_held (keep : DeleteAction → Bool) {replacements : List RelPath}
    (hreplacements : replacements = (plan.preDeletes.filter fun d => !keep d).map (·.relative))
    (hnamed : ∀ d ∈ plan.deletes, keep d = false → ∃ record ∈ deferred,
      record.relative = d.relative) :
    plan.Accounted (withoutReplacements { plan with
      postDeletes := plan.postDeletes.filter keep
      preDeletes := plan.preDeletes.filter keep } replacements) deferred := by
  have hbelow : ∀ {p : RelPath}, replacedBelow replacements p = true → NamedIn deferred p := by
    intro p hp
    obtain ⟨r, hr, hrp⟩ := replacedBelow_iff.mp hp
    rw [hreplacements] at hr
    obtain ⟨d, hd, rfl⟩ := List.mem_map.mp hr
    obtain ⟨hd, hkeep⟩ := List.mem_filter.mp hd
    obtain ⟨record, hrecord, hrel⟩ := hnamed d (List.mem_append_left _ hd) (by simpa using hkeep)
    exact ⟨record, hrecord, hrel ▸ hrp⟩
  have hself : ∀ d ∈ plan.deletes, keep d = false → NamedIn deferred d.relative := by
    intro d hd hkeep
    obtain ⟨record, hrecord, hrel⟩ := hnamed d hd hkeep
    exact ⟨record, hrecord, .inl hrel.symm⟩
  refine ⟨fun p hp => ?_, fun a ha => ?_, fun a ha => .inl ha⟩
  · cases hfree : replacedBelow replacements p with
    | true => exact .inr (hbelow hfree)
    | false =>
      refine .inl (mem_carried.mpr ?_)
      rcases mem_carried.mp hp with ⟨c, hc, rfl⟩ | ⟨c, hc, rfl⟩ | ⟨u, hu, rfl⟩
      · exact .inl ⟨c, List.mem_filter.mpr ⟨hc, by simp [hfree]⟩, rfl⟩
      · exact .inr (.inl ⟨c, List.mem_filter.mpr ⟨hc, by simp [hfree]⟩, rfl⟩)
      · exact .inr (.inr ⟨u, List.mem_filter.mpr ⟨hu, by simp [hfree]⟩, rfl⟩)
  · cases hkeep : keep a with
    | false => exact .inr (hself a ha hkeep)
    | true =>
      rcases List.mem_append.mp ha with hpre | hpost
      · cases hfree : replacedBelow replacements a.relative with
        | true => exact .inr (hbelow hfree)
        | false =>
          refine .inl (List.mem_append_left _ (List.mem_filter.mpr ⟨?_, by simp [hfree]⟩))
          exact List.mem_filter.mpr ⟨hpre, hkeep⟩
      · exact .inl (List.mem_append_right _ (List.mem_filter.mpr ⟨hpost, hkeep⟩))

theorem accounted_of_held_last (keep : DeleteAction → Bool)
    (hnamed : ∀ d ∈ plan.deletes, keep d = false → ∃ record ∈ deferred,
      record.relative = d.relative) :
    plan.Accounted { plan with
      postDeletes := plan.postDeletes.filter keep
      preDeletes := plan.preDeletes.filter keep } deferred := by
  refine ⟨fun p hp => .inl hp, fun a ha => ?_, fun a ha => .inl ha⟩
  cases hkeep : keep a with
  | false =>
    obtain ⟨record, hrecord, hrel⟩ := hnamed a ha hkeep
    exact .inr ⟨record, hrecord, .inl hrel.symm⟩
  | true =>
    rcases List.mem_append.mp ha with hpre | hpost
    · exact .inl (List.mem_append_left _ (List.mem_filter.mpr ⟨hpre, hkeep⟩))
    · exact .inl (List.mem_append_right _ (List.mem_filter.mpr ⟨hpost, hkeep⟩))

end SyncPlan

section Narrow

variable {plan plan' : SyncPlan} {deferred deferred' : List DeferredPath}

theorem withholdIncomplete_accounted (plan : SyncPlan) (incomplete : List RelPath) :
    plan.Accounted (withholdDeletionsInIncompleteListings plan incomplete).1
      (withholdDeletionsInIncompleteListings plan incomplete).2 := by
  simp only [withholdDeletionsInIncompleteListings]
  split
  · exact .refl plan _
  · refine ⟨fun p hp => .inl hp, fun a ha => ?_, fun a ha => .inl ha⟩
    rcases List.mem_append.mp ha with hpre | hpost
    · exact .inl (List.mem_append_left _ hpre)
    · cases hshort : listingWithholds a.relative incomplete with
      | false =>
        exact .inl (List.mem_append_right _ (List.mem_filter.mpr ⟨hpost, by simp [hshort]⟩))
      | true =>
        exact .inr ⟨_, List.mem_map_of_mem (List.mem_filter.mpr ⟨hpost, hshort⟩), .inl rfl⟩

theorem protectSkipped_accounted (plan : SyncPlan) (skipped : List SkippedRemoteEntry) :
    plan.Accounted (protectSkippedRemoteEntries plan skipped).1
      (protectSkippedRemoteEntries plan skipped).2 := by
  simp only [protectSkippedRemoteEntries]
  split
  · exact .refl plan _
  · generalize hnamed : List.map _ (List.filter _ skipped) = named
    have hheld : ∀ d ∈ plan.deletes, (keptBySkipped skipped d.relative).isNone = false →
        ∃ record ∈ named ++ plan.postDeletes.filterMap (keptRecord skipped) ++
          plan.preDeletes.filterMap (keptRecord skipped), record.relative = d.relative := by
      intro d hd hkept
      obtain ⟨holding, hholding⟩ := Option.isSome_iff_exists.mp
        (show (keptBySkipped skipped d.relative).isSome = true by simpa using hkept)
      have hrecord : keptRecord skipped d =
          some ⟨d.relative, .remoteSkipped, keptBySkippedDetail holding⟩ := by
        rw [keptRecord, hholding]
        rfl
      rcases List.mem_append.mp hd with hd | hd
      · exact ⟨_, List.mem_append_right _ (List.mem_filterMap.mpr ⟨d, hd, hrecord⟩), rfl⟩
      · exact ⟨_, List.mem_append_left _ (List.mem_append_right _
          (List.mem_filterMap.mpr ⟨d, hd, hrecord⟩)), rfl⟩
    split
    · exact SyncPlan.accounted_of_held_last _ hheld
    · have haccounted := SyncPlan.accounted_of_held _ rfl hheld
      exact ⟨haccounted.writes, haccounted.deletes, haccounted.renames⟩

/-- What a comma keeps is named, and so is every deletion above it. -/
theorem named_of_commaWithholds {ambiguous : List RelPath} {a : DeleteAction}
    (h : commaWithholds ambiguous a = true) :
    a.relative ∈ ambiguous ∨ ∃ record, aboveRecord ambiguous a = some record ∧
      record.relative = a.relative := by
  by_cases hself : a.relative ∈ ambiguous
  · exact .inl hself
  · have hany : (ambiguous.any fun relative => decide (relative = a.relative)) = false := by
      simpa [List.any_eq_false] using fun x hx (heq : x = a.relative) => hself (heq ▸ hx)
    rw [commaWithholds, hany, Bool.false_or] at h
    obtain ⟨beneath, hbeneath⟩ := Option.isSome_iff_exists.mp h
    refine .inr ⟨⟨a.relative, .remoteSkipped, aboveAmbiguousDetail beneath⟩, ?_, rfl⟩
    simp [aboveRecord, hany, hbeneath]

theorem withholdAmbiguous_accounted (plan : SyncPlan) (ambiguous : List RelPath)
    (hnamed : ∀ d ∈ plan.deletes, commaWithholds ambiguous d = true →
      ∃ record ∈ deferred, record.relative = d.relative) :
    plan.Accounted (withholdAmbiguousDeletions plan ambiguous) deferred := by
  have hheld : ∀ d ∈ plan.deletes, (!commaWithholds ambiguous d) = false →
      ∃ record ∈ deferred, record.relative = d.relative :=
    fun d hd hkeep => hnamed d hd (by simpa using hkeep)
  simp only [withholdAmbiguousDeletions]
  split
  · exact .refl plan _
  · split
    · exact SyncPlan.accounted_of_held_last _ hheld
    · have hreplaced : (plan.preDeletes.filter (commaWithholds ambiguous)).map (·.relative) =
          (plan.preDeletes.filter fun d => !!commaWithholds ambiguous d).map (·.relative) := by
        simp only [Bool.not_not]
      have haccounted := SyncPlan.accounted_of_held _ hreplaced hheld
      exact ⟨haccounted.writes, haccounted.deletes, haccounted.renames⟩

theorem withholdComma_accounted {ε : Type} {lookup : List Char → Except ε Bool}
    {R : RemoteInventory} (hcopies : ∀ c ∈ plan.copies, c.entry.relative = c.toRelative)
    (h : withholdCommaAmbiguousMutations lookup plan R = .ok (plan', deferred)) :
    plan.Accounted plan' deferred := by
  obtain ⟨deletions, hdeletions, h⟩ := Loop.bind_eq_ok.mp h
  obtain ⟨renames, hrenames, h⟩ := Loop.bind_eq_ok.mp h
  obtain ⟨copies, hambiguous, h⟩ := Loop.bind_eq_ok.mp h
  obtain ⟨rfl, rfl⟩ := Prod.mk.inj (Except.ok.inj h)
  have hthin := withholdAmbiguous_thinned plan (deletions.map (·.1.relative))
  refine SyncPlan.Accounted.trans 
    (withholdAmbiguous_accounted plan (deletions.map (·.1.relative)) fun d hd hheld => ?_) ?_
  · rcases named_of_commaWithholds hheld with hself | ⟨record, hrecord, hrel⟩
    · obtain ⟨deletion, hdeletion, hrel⟩ := List.mem_map.mp hself
      exact ⟨_, List.mem_append_left _ (List.mem_append_left _ (List.mem_map_of_mem hdeletion)), hrel⟩
    · refine ⟨record, List.mem_append_left _ (List.mem_append_right _
        (List.mem_filterMap.mpr ⟨d, ?_, hrecord⟩)), hrel⟩
      exact List.mem_append.mpr (List.mem_append.mp hd).symm
  · generalize withholdAmbiguousDeletions plan (deletions.map (·.1.relative)) = narrowed
      at hthin
    refine ⟨fun p hp => .inl (SyncPlan.mem_carried.mpr ?_), fun a ha => .inl ha, fun a ha => ?_⟩
    · rcases SyncPlan.mem_carried.mp hp with ⟨c, hc, rfl⟩ | ⟨c, hc, rfl⟩ | ⟨u, hu, rfl⟩
      · exact .inl ⟨c, hc, rfl⟩
      · by_cases hcopy : c ∈ copies.map (·.1)
        · refine .inr (.inr ⟨uploadInstead c, ?_, hcopies c (hthin.copies hc)⟩)
          exact List.mem_append_right _ (List.mem_map_of_mem hcopy)
        · refine .inr (.inl ⟨c, List.mem_filter.mpr ⟨hc, ?_⟩, rfl⟩)
          simpa [List.any_eq_false] using fun x start hx (heq : x = c) =>
            hcopy (List.mem_map.mpr ⟨(x, start), hx, heq⟩)
      · exact .inr (.inr ⟨u, List.mem_append_left _ hu, rfl⟩)
    · by_cases hrename : a ∈ renames.map (·.1)
      · obtain ⟨rename, hmem, rfl⟩ := List.mem_map.mp hrename
        exact .inr ⟨_, List.mem_append_right _ (List.mem_map_of_mem hmem), .inl rfl⟩
      · refine .inl (List.mem_filter.mpr ⟨ha, ?_⟩)
        simpa [List.any_eq_false] using fun x start hx (heq : x = a) =>
          hrename (List.mem_map.mpr ⟨(x, start), hx, heq⟩)

theorem removeDeferred_accounted [Unicode] (plan : SyncPlan) {records : List DeferredPath} :
    plan.Accounted (removeDeferredFromPlan plan (.fromRecords records)).1
      (records ++ (removeDeferredFromPlan plan (.fromRecords records)).2) := by
  have hcovered : ∀ {p : RelPath}, ((DeferralIndex.fromRecords records).covering p).isNone = false →
      ∃ record ∈ records, AtOrUnder record.relative p := by
    intro p hp
    have hsome : ((DeferralIndex.fromRecords records).covering p).isSome = true := by simpa using hp
    obtain ⟨f, hf, hfp⟩ := DeferralIndex.covering_isSome.mp hsome
    obtain ⟨record, hrecord, rfl⟩ := mem_fromRecords.mp hf
    exact ⟨record, hrecord, hfp⟩
  have hnamed : ∀ {p : RelPath}, ((DeferralIndex.fromRecords records).covering p).isNone = false →
      NamedIn (records ++ (removeDeferredFromPlan plan (.fromRecords records)).2) p := by
    intro p hp
    obtain ⟨record, hrecord, hat⟩ := hcovered hp
    exact ⟨record, List.mem_append_left _ hrecord, hat⟩
  revert hnamed
  simp only [removeDeferredFromPlan]
  split
  · exact fun _ => .refl plan _
  · intro hnamed
    refine ⟨fun p hp => ?_, fun a ha => ?_, fun a ha => .inl ha⟩
    · rcases SyncPlan.mem_carried.mp hp with ⟨c, hc, rfl⟩ | ⟨c, hc, rfl⟩ | ⟨u, hu, rfl⟩
      · exact .inl (SyncPlan.mem_carried.mpr (.inl ⟨c, hc, rfl⟩))
      · cases hfree : ((DeferralIndex.fromRecords records).covering c.toRelative).isNone with
        | false => exact .inr (hnamed hfree)
        | true =>
          refine .inl (SyncPlan.mem_carried.mpr (.inr (.inl ⟨c, ?_, rfl⟩)))
          exact List.mem_filter.mpr ⟨hc, hfree⟩
      · cases hfree : ((DeferralIndex.fromRecords records).covering u.entry.relative).isNone with
        | false => exact .inr (hnamed hfree)
        | true =>
          refine .inl (SyncPlan.mem_carried.mpr (.inr (.inr ⟨u, ?_, rfl⟩)))
          exact List.mem_filter.mpr ⟨hu, hfree⟩
    · rcases List.mem_append.mp ha with hpre | hpost
      · cases hfree : ((DeferralIndex.fromRecords records).covering a.relative).isNone with
        | false => exact .inr (hnamed hfree)
        | true =>
          exact .inl (List.mem_append_left _ (List.mem_filter.mpr ⟨hpre, hfree⟩))
      · cases hrelated : relatedDeferral (.fromRecords records) a with
        | none =>
          refine .inl (List.mem_append_right _ (List.mem_filter.mpr ⟨hpost, ?_⟩))
          rw [hrelated]
          rfl
        | some other =>
          refine .inr ⟨withheldWith a.relative other.1 other.2, List.mem_append_right _
            (List.mem_filterMap.mpr ⟨a, hpost, ?_⟩), .inl rfl⟩
          rw [hrelated]
          rfl

theorem promoteUpload_relative {site : Site} {u : UploadAction}
    {promoted : UploadAction × Option DeferredPath} (h : promoteUpload site u = .ok promoted) :
    promoted.1.entry.relative = u.entry.relative := by
  simp only [promoteUpload] at h
  split at h
  · cases h
    rfl
  · split at h
    · cases h
      rfl
    · split at h
      · cases h
      · cases h
        rfl

theorem promote_accounted [Unicode] {site : Site}
    (h : promoteUploadFingerprintsDeferring site plan = .ok (plan', deferred)) :
    plan.Accounted plan' deferred := by
  obtain ⟨promoted, hpromoted, h⟩ := Loop.bind_eq_ok.mp h
  obtain ⟨rfl, rfl⟩ := Prod.mk.inj (Except.ok.inj h)
  refine SyncPlan.Accounted.trans ?_ (removeDeferred_accounted _)
  have hsame : promoted.map (·.1.entry.relative) = plan.uploads.map (·.entry.relative) :=
    Loop.map_of_mapM (fun _ _ _ hdone => promoteUpload_relative hdone) hpromoted
  refine ⟨fun p hp => .inl ?_, fun a ha => .inl ha, fun a ha => .inl ha⟩
  rw [SyncPlan.carried, ← hsame] at hp
  rw [SyncPlan.carried, List.map_map]
  exact hp

theorem recordDeferrals_accounted (plan : SyncPlan) (deferred deferred' : List DeferredPath) :
    plan.Accounted (recordDeferralsInPlan plan deferred) deferred' := by
  simp only [recordDeferralsInPlan]
  split
  · exact .refl plan _
  · exact ⟨fun _ h => .inl h, fun _ h => .inl h, fun _ h => .inl h⟩

theorem withholdDoubtful_accounted {site : Site} {walk : Walk} {R : RemoteInventory}
    (h : withholdDoubtful site walk R plan deferred = .ok (plan', deferred'))
    (hcopies : ∀ c ∈ plan.copies, c.entry.relative = c.toRelative) :
    plan.Accounted plan' deferred' := by
  obtain ⟨⟨apart, commas⟩, hcomma, hrest⟩ := Loop.bind_eq_ok.mp h
  obtain ⟨rfl, rfl⟩ := Prod.mk.inj (Except.ok.inj hrest)
  have hshort := withholdIncomplete_accounted plan walk.incompleteDirectories
  have hheld := protectSkipped_accounted
    (withholdDeletionsInIncompleteListings plan walk.incompleteDirectories).1
    (walk.skipped.map (·.reported site.escaped))
  have hsame : ∀ c ∈ (protectSkippedRemoteEntries
      (withholdDeletionsInIncompleteListings plan walk.incompleteDirectories).1
      (walk.skipped.map (·.reported site.escaped))).1.copies, c.entry.relative = c.toRelative :=
    fun c hc => hcopies c ((withholdIncomplete_thinned rfl).copies
      ((protectSkipped_thinned rfl).copies hc))
  have hapart := withholdComma_accounted hsame (Loop.mapError_eq_ok.mp hcomma)
  refine (hshort.mono fun r hr => ?_).trans ((hheld.mono fun r hr => ?_).trans
    (hapart.mono fun r hr => ?_))
  all_goals simp only [List.mem_append]
  · exact .inl (.inl (.inl (.inr hr)))
  · exact .inl (.inl (.inr hr))
  · exact .inl (.inr hr)

variable [Unicode]

theorem narrowPlan_accounted {site : Site} {walk : Walk} {R : RemoteInventory}
    (h : narrowPlan site walk R plan deferred = .ok (plan', deferred'))
    (hcopies : ∀ c ∈ plan.copies, c.entry.relative = c.toRelative) :
    plan.Accounted plan' deferred' := by
  obtain ⟨⟨apart, before⟩, hdoubtful, hrest⟩ := Loop.bind_eq_ok.mp h
  obtain ⟨⟨promoted, unread⟩, hpromote, hrest⟩ := Loop.bind_eq_ok.mp hrest
  obtain ⟨rfl, rfl⟩ := Prod.mk.inj (Except.ok.inj hrest)
  have hwithheld := withholdDoubtful_accounted hdoubtful hcopies
  have hpromoted := promote_accounted hpromote
  refine (hwithheld.mono fun r hr => ?_).trans ((hpromoted.mono fun r hr => ?_).trans
    (recordDeferrals_accounted _ _ _))
  · exact List.mem_append_left _ hr
  · exact List.mem_append_right _ hr

end Narrow

/-! ## What becomes of what the source holds -/

section Accounts

variable [Unicode] {settings : RunSettings} {site : Site} {guard : SyncPlan → Except RunError Unit}
  {ready : Ready} {prepared : Prepared} {scan : Scan.ScopedScan} {walk : Walk}
  {root : RemoteRoot} {rules : IgnoreRules} {options : PlanOptions}

/-- A skip of the plan names a path, or one above it, up to spelling. -/
def NamedBy (plan : SyncPlan) (p : RelPath) : Prop :=
  ∃ skip ∈ plan.skipped, AtOrUnder (portableFold skip.relative) (portableFold p)

/-- What a run has to say of an entry of the source: it is named among what is left out; it, or a
folder it is in, is excluded as the NAS spells it; the plan writes it; or the NAS has one of its kind
at its path, which for a file compares equal to it by what is read of the two. -/
inductive Answered (source : DigestSource) (rules : IgnoreRules) (compare : CompareMode) (held : LocalMap)
    (remote : RemoteMap) (named written : RelPath → Prop) (x : LocalEntry) : Prop
  | named (h : named x.relative)
  | excluded (y : LocalEntry) (hy : y ∈ held.values)
      (above : AtOrUnder (portableFold y.relative) (portableFold x.relative)) (spelling : RelPath)
      (same : portableFold spelling = portableFold y.relative) (differs : spelling ≠ y.relative)
      (ruled : isDsmManaged spelling = true ∨
        rules.isIgnored spelling (y.kind = .directory) = true)
  | written (h : written x.relative)
  | there (e : RemoteEntry) (he : e ∈ remote.values)
      (same : portableFold e.relative = portableFold x.relative) (kind : e.kind = x.kind)
      (equal : x.kind = .file → SameFile source compare x e)

/-- The plan has a place for every local entry its shield does not cover. -/
theorem Planned.placed {L : LocalInventory} {R : RemoteInventory} {plan : SyncPlan}
    (h : Planned root L R rules options (planResolution root L R rules options) plan)
    {x : LocalEntry} (hx : x ∈ L.entries.values) :
    (planResolution root L R rules options).shield.covers x.relative = true ∨
      x.relative ∈ plan.carried ∨
      ∃ r, (planResolution root L R rules options).pairs.remoteOf R x.relative = some r ∧
        r.kind = x.kind ∧ (x.kind = .file → compareFiles x r options.compare = none) := by
  obtain ⟨c, hc, _⟩ := existsUnique_class h hx
  cases c with
  | withheld => exact .inl hc
  | folder =>
    obtain ⟨_, hdir, ⟨r, hr, hrk⟩ | ⟨create, hcreate, hrel⟩⟩ := hc
    · exact .inr (.inr ⟨r, hr, hrk.trans hdir.symm, fun hfile => by rw [hdir] at hfile; cases hfile⟩)
    · exact .inr (.inl (SyncPlan.mem_carried.mpr (.inl ⟨create, hcreate, hrel⟩)))
  | unchanged =>
    have hsame : isUnchanged R options (planResolution root L R rules options) x = true := hc
    simp only [isUnchanged, Bool.and_eq_true, decide_eq_true_eq, Option.any_eq_true,
      Option.isNone_iff_eq_none] at hsame
    obtain ⟨⟨_, hfile⟩, r, hr, hrk, hequal⟩ := hsame
    exact .inr (.inr ⟨r, hr, hrk.trans hfile.symm, fun _ => hequal⟩)
  | uploaded =>
    obtain ⟨u, hu, rfl⟩ := hc
    exact .inr (.inl (SyncPlan.mem_carried.mpr (.inr (.inr ⟨u, hu, rfl⟩))))
  | copied =>
    obtain ⟨copy, hcopy, rfl⟩ := hc
    refine .inr (.inl (SyncPlan.mem_carried.mpr (.inr (.inl ⟨copy, hcopy, ?_⟩))))
    exact (h.copy_entry hcopy).symm

theorem Answered.of_prepared {source : DigestSource} {plan : SyncPlan}
    {named written : RelPath → Prop}
    (hof : prepared.Of scan.inventory ⟨walk.rootExists, walk.entries⟩)
    (hread : prepared.Read source)
    (hmine : ∀ x ∈ scan.inventory.entries.values, x.contentMd5 = none)
    (htheirs : ∀ e ∈ walk.entries.values, e.contentMd5 = none)
    (hplan : buildPlan root prepared.L prepared.R rules options = .ok plan)
    (hskipped : ∀ skip ∈ plan.skipped, ∀ p,
      AtOrUnder (portableFold skip.relative) (portableFold p) → named p)
    (hwritten : ∀ p ∈ plan.carried, written p ∨ named p)
    {x : LocalEntry} (hx : x ∈ scan.inventory.entries.values) :
    Answered source rules options.compare scan.inventory.entries walk.entries named written x := by
  have hplanned := planned_of_buildPlan hplan
  have hnamed : ∀ skip ∈ plan.skipped,
      AtOrUnder (portableFold skip.relative) (portableFold x.relative) →
      Answered source rules options.compare scan.inventory.entries walk.entries named written x :=
    fun skip hskip hat => .named (hskipped skip hskip _ hat)
  cases hget : prepared.L.entries.get? x.relative with
  | none =>
    obtain ⟨skip, hskip, hat⟩ := hof.reduced.gone _ _ (EntryMap.mem_values.mp hx) hget
    exact hnamed skip (hplanned.skipped skip (List.mem_append_right _ hskip)) hat.map
  | some y =>
    obtain ⟨d, hd, hdy⟩ := hof.reduced.kept _ _ hget
    rw [EntryMap.mem_values.mp hx] at hd
    obtain rfl := Option.some.inj hd
    have hyx := EntryMap.relative_of_get? hget
    have hkind : y.kind = x.kind := by
      simp only [LocalEntry.undigested, LocalEntry.mk.injEq] at hdy
      exact hdy.2.1.symm
    rcases hplanned.placed (EntryMap.mem_values_of_get? hget) with hcov | hwrite | ⟨r, hr, hrk, hsame⟩
    · rcases reported_of_covers hplan hcov with ⟨skip, hskip, hat⟩ | ⟨z, hz, hexcluded, hat⟩
      · exact hnamed skip hskip (hyx ▸ hat)
      · obtain ⟨w, hw, hwz⟩ := LocalInventory.mem_values_of_reduced hof.reduced hz
        simp only [LocalEntry.undigested, LocalEntry.mk.injEq] at hwz
        simp only [pairedExclusion, Bool.and_eq_true, Bool.or_eq_true] at hexcluded
        refine .excluded w hw ?_ ((planResolution root prepared.L prepared.R rules
          options).pairs.remoteRelative z.relative) ?_ ?_ ?_
        · rw [hwz.1, ← hyx]
          exact hat
        · rw [hwz.1]
          exact fold_remoteRelative_resolve z.relative
        · rw [hwz.1]
          exact of_decide_eq_true hexcluded.1
        · rw [hwz.2.1]
          exact hexcluded.2
    · rcases hwritten _ hwrite with hheld | hout
      · exact .written (hyx ▸ hheld)
      · exact .named (hyx ▸ hout)
    · obtain ⟨e, he, her⟩ := hof.alike.of_get? (EntryMap.mem_values.mp (EntryMap.mem_values_of_get? hr))
      have her' := her
      simp only [RemoteEntry.undigested, RemoteEntry.mk.injEq] at her'
      refine .there e (EntryMap.mem_values_of_get? he) ?_ ?_ fun hfile => ?_
      · rw [her'.1, relative_of_remoteOf hr, ← hyx]
        exact fold_remoteRelative_resolve y.relative
      · rw [her'.2.2.1, hrk, hkind]
      · refine hread.sameFile (EntryMap.mem_values_of_get? hget) (EntryMap.mem_values_of_get? hr) ?_ ?_
          (hsame (hkind.trans hfile))
        · rw [← hdy, LocalEntry.undigested_eq_self (hmine x hx)]
        · rw [← her, RemoteEntry.undigested_eq_self (htheirs e (EntryMap.mem_values_of_get? he))]

theorem accounted_of_propose (h : propose settings site = some (.ok ready)) :
    ∃ scan walk,
      Scan.scanScoped ⟨site.tree, settings.rules, settings.scope, false⟩ unbounded site.source =
        some (.ok scan) ∧
      remoteInventoryScoped site.station settings.root settings.rules settings.scope unbounded
        site.fuel = some (.ok walk) ∧
      (∀ x ∈ scan.inventory.entries.values,
        Answered site.digests settings.rules settings.compare scan.inventory.entries walk.entries
          (NamedBy ready.plan) (· ∈ ready.plan.carried) x) ∧
      (scan.complete = true → ∀ folder name,
        Scan.Listed ⟨site.tree, settings.rules, settings.scope, false⟩ folder name →
        Scan.PassedOver ⟨site.tree, settings.rules, settings.scope, false⟩ folder name ∨
          NamedBy ready.plan (folder.child name.shown) ∨
          ∃ x ∈ scan.inventory.entries.values, x.relative = folder.child name.shown) := by
  obtain ⟨scan, serverCopy, walk, hscan, hwalk, hrun⟩ := exists_of_propose h
  obtain ⟨prepared, plan, hof, hplan, hnarrow, hread⟩ := planRun_ok hrun
  have hmine := undigested_of_scanScoped hscan
  have htheirs := undigested_of_remoteInventoryScoped hwalk
  have hplanned := planned_of_buildPlan hplan
  have hnarrowed := narrowPlan_ok hnarrow
  have haccounted := narrowPlan_accounted hnarrow fun c hc => hplanned.copy_entry hc
  have hskipped : plan.skipped ⊆ ready.plan.skipped := hnarrowed.within.skipped
  have hwritten : ∀ p ∈ plan.carried, p ∈ ready.plan.carried ∨ NamedBy ready.plan p := by
    intro p hp
    rcases haccounted.writes p hp with hheld | ⟨record, hrecord, hat⟩
    · exact .inl hheld
    · obtain ⟨skip, hskip, hrel⟩ := hnarrowed.named record hrecord
      exact .inr ⟨skip, hskip, hrel ▸ hat.map⟩
  have hanswered : ∀ x ∈ scan.inventory.entries.values,
      Answered site.digests settings.rules settings.compare scan.inventory.entries walk.entries
        (NamedBy ready.plan) (· ∈ ready.plan.carried) x := fun x hx =>
    .of_prepared hof (hread hmine htheirs) hmine htheirs hplan (fun skip hskip p hat => ⟨skip, hskipped hskip, hat⟩) hwritten hx
  have hlisted : scan.complete = true → ∀ folder name,
      Scan.Listed ⟨site.tree, settings.rules, settings.scope, false⟩ folder name →
      Scan.PassedOver ⟨site.tree, settings.rules, settings.scope, false⟩ folder name ∨
        NamedBy ready.plan (folder.child name.shown) ∨
        ∃ x ∈ scan.inventory.entries.values, x.relative = folder.child name.shown := by
    intro hcomplete folder name hlisted
    rcases Scan.accounted_of_scanScoped hscan hcomplete hlisted with
      ⟨x, _, hx⟩ | ⟨skip, hskip, hat⟩ | hpassed
    · exact .inr (.inr ⟨x, EntryMap.mem_values_of_get? hx, EntryMap.relative_of_get? hx⟩)
    · have hplan := hplanned.skipped skip (List.mem_append_right _ (hof.reduced.skipped skip hskip))
      exact .inr (.inl ⟨skip, hskipped hplan, hat.map⟩)
    · exact .inl hpassed
  exact ⟨scan, walk, hscan, hwalk, hanswered, hlisted⟩

/-- Nothing the source lists is lost on the way to the plan that is carried out: each name of each
folder a complete scan went into is passed over by a rule, named among the skips of the plan, or
carried, and then the plan says what becomes of it. -/
theorem prepare_accounts (h : prepare settings site guard = some (.ok ready)) :
    ∃ scan walk,
      Scan.scanScoped ⟨site.tree, settings.rules, settings.scope, false⟩ unbounded site.source =
        some (.ok scan) ∧
      remoteInventoryScoped site.station settings.root settings.rules settings.scope unbounded
        site.fuel = some (.ok walk) ∧
      (∀ x ∈ scan.inventory.entries.values,
        Answered site.digests settings.rules settings.compare scan.inventory.entries walk.entries
          (NamedBy ready.plan) (· ∈ ready.plan.carried) x) ∧
      (scan.complete = true → ∀ folder name,
        Scan.Listed ⟨site.tree, settings.rules, settings.scope, false⟩ folder name →
        Scan.PassedOver ⟨site.tree, settings.rules, settings.scope, false⟩ folder name ∨
          NamedBy ready.plan (folder.child name.shown) ∨
          ∃ x ∈ scan.inventory.entries.values, x.relative = folder.child name.shown) :=
  accounted_of_propose (propose_of_prepare h).1

theorem Ready.tagged (h : propose settings site = some (.ok ready)) :
    ∀ skip ∈ ready.plan.skipped, skip.Tagged := by
  obtain ⟨scan, serverCopy, walk, hscan, hwalk, hrun⟩ := exists_of_propose h
  obtain ⟨prepared, plan, hof, hplan, hnarrow, _⟩ := planRun_ok hrun
  have htagged := tagged_buildPlan hplan (hof.tagged (Scan.tagged_scanScoped hscan))
  exact (narrowPlan_ok hnarrow).tagged htagged

theorem Ready.recorded (h : propose settings site = some (.ok ready)) :
    ∀ skip ∈ ready.plan.skipped, (deferralOfSkip skip).isSome = true →
      ∃ record ∈ ready.deferred, record.relative = skip.relative := by
  obtain ⟨scan, serverCopy, walk, hscan, hwalk, hrun⟩ := exists_of_propose h
  obtain ⟨prepared, plan, hof, hplan, hnarrow, _⟩ := planRun_ok hrun
  exact (narrowPlan_ok hnarrow).recorded

/-- A run that is ready has one account of what it leaves out: each record of it is among the skips
of its plan, and each skip that says something was deferred says by which reason, and has a record.
What the scan skipped is among the skips as it was, and the plan is the one that was approved. -/
theorem prepare_names (h : prepare settings site guard = some (.ok ready)) :
    (∀ record ∈ ready.deferred, ∃ skip ∈ ready.plan.skipped, skip.relative = record.relative) ∧
      (∀ skip ∈ ready.plan.skipped, ∀ detail, skip.reason = .deferred detail →
        (∃ (reason : DeferReason) (cause : String), detail = reason.asStr ++ ": " ++ cause) ∧
          ∃ record ∈ ready.deferred, record.relative = skip.relative) ∧
      guard ready.plan = .ok () ∧
      ∃ scan,
        Scan.scanScoped ⟨site.tree, settings.rules, settings.scope, false⟩ unbounded site.source =
          some (.ok scan) ∧
        scan.inventory.skipped ⊆ ready.plan.skipped := by
  obtain ⟨hproposed, hguard⟩ := propose_of_prepare h
  obtain ⟨scan, serverCopy, walk, hscan, hwalk, hrun⟩ := exists_of_propose hproposed
  obtain ⟨prepared, plan, hof, hplan, hnarrow, _⟩ := planRun_ok hrun
  have hnarrowed := narrowPlan_ok hnarrow
  refine ⟨hnarrowed.named, fun skip hskip detail hdetail => ?_, hguard, scan, hscan,
    fun skip hskip => ?_⟩
  · have htagged := Ready.tagged hproposed skip hskip
    refine ⟨htagged detail hdetail, ?_⟩
    rcases htagged.deferral with hlasting | hsome
    · exact absurd hdetail (hlasting detail)
    · exact Ready.recorded hproposed skip hskip hsome
  · exact hnarrowed.within.skipped ((planned_of_buildPlan hplan).skipped skip
      (List.mem_append_right _ (hof.reduced.skipped skip hskip)))

end Accounts

namespace EmptiedFolder

/-- The run deletes the file of the folder, and finds the folder on both sides. -/
theorem accounts_ready : letI := charwise
    ∃ (ready : Ready) (scan : Scan.ScopedScan),
      prepare settings site (fun _ => .ok ()) = some (.ok ready) ∧
        Scan.scanScoped ⟨site.tree, settings.rules, settings.scope, false⟩ unbounded site.source =
          some (.ok scan) ∧
        (∀ x ∈ scan.inventory.entries.values, Answered site.digests settings.rules
          settings.compare scan.inventory.entries NestedFolder.second.entries (NamedBy ready.plan)
          (· ∈ ready.plan.carried) x) ∧
        (scan.complete = true → ∀ folder name,
          Scan.Listed ⟨site.tree, settings.rules, settings.scope, false⟩ folder name →
          Scan.PassedOver ⟨site.tree, settings.rules, settings.scope, false⟩ folder name ∨
            NamedBy ready.plan (folder.child name.shown) ∨
            ∃ x ∈ scan.inventory.entries.values, x.relative = folder.child name.shown) := by
  let _ := charwise
  obtain ⟨ready, hready, _⟩ := exists_ready
  obtain ⟨scan, walk, hscan, hwalk, hanswered, hlisted⟩ := prepare_accounts hready
  obtain rfl : walk = NestedFolder.second :=
    Except.ok.inj (Option.some.inj (hwalk.symm.trans inventory_nested))
  exact ⟨ready, scan, hready, hscan, hanswered, hlisted⟩

end EmptiedFolder

/-! ## A file that may not be read

Beside the folder the source lists `e`, which may not be read, and `l`, a link. -/

namespace LockedFile

open Small

def tree : Scan.SourceTree where
  cancelledAt := fun _ => false
  readDir := fun folder =>
    if folder = .root then .ok [.text (name 'd'), .text (name 'e'), .text (name 'l')] else .ok []
  distinct := by
    intro folder names h
    split at h
    · cases h
      decide
    · cases h
      decide
  cancelledBefore := fun _ _ => false
  fileType := fun _ shown => .ok (decide (shown = .text (name 'd')))
  metadata := fun _ shown =>
    if shown = .text (name 'e') then .error Scan.Small.denied
    else if shown = .text (name 'l') then
      .ok { Scan.Small.metadata false with isSymlink := true, isFile := false }
    else .ok (Scan.Small.metadata true)
  fullPath := fun folder name => String.ofList (folder.child name.shown).render
  rootPath := "/source"

def site : Site := { EmptiedFolder.site with tree := tree }

/-- What is left out for now has a record, and what is left out for good has none. -/
theorem exists_ready : letI := charwise
    ∃ ready, prepare EmptiedFolder.settings site (fun _ => .ok ()) = some (.ok ready) ∧
      ready.deferred.map (·.relative) = [path [name 'e']] ∧
      ready.plan.skipped.map (·.relative) = [path [name 'e'], path [name 'l']] ∧
      ∃ skip ∈ ready.plan.skipped, ∃ detail, skip.reason = .deferred detail := by
  let _ := charwise
  obtain ⟨scan, hscan, hplanned⟩ := Scan.exists_of_finished
    (x := Scan.scanScoped ⟨tree, noRules, ⟨.root⟩, false⟩ unbounded site.source)
    (p := fun scan => Loop.okAnd
      (planRun EmptiedFolder.settings site false scan.inventory NestedFolder.second)
      fun ready => decide (ready.deferred.map (·.relative) = [path [name 'e']]) &&
        decide (ready.plan.skipped.map (·.relative) = [path [name 'e'], path [name 'l']]) &&
        ready.plan.skipped.any fun skip => (deferralOfSkip skip).isSome) (by decide +kernel)
  obtain ⟨ready, hready, hnamed⟩ := Loop.exists_of_okAnd hplanned
  simp only [Bool.and_eq_true, decide_eq_true_eq, List.any_eq_true] at hnamed
  obtain ⟨⟨hrecords, hskips⟩, skip, hskip, hdeferral⟩ := hnamed
  have hscan' : Scan.scanScoped ⟨site.tree, EmptiedFolder.settings.rules,
      EmptiedFolder.settings.scope, false⟩ unbounded site.source = some (.ok scan) := hscan
  have hwalk : remoteInventoryScoped site.station EmptiedFolder.settings.root
      EmptiedFolder.settings.rules EmptiedFolder.settings.scope unbounded site.fuel =
        some (.ok NestedFolder.second) := EmptiedFolder.inventory_nested
  have hproposed : propose EmptiedFolder.settings site = some (.ok ready) := by
    rw [propose, hscan', hwalk]
    exact congrArg some hready
  refine ⟨ready, ?_, hrecords, hskips, skip, hskip, ?_⟩
  · rw [prepare, hproposed]
    rfl
  · unfold deferralOfSkip at hdeferral
    split at hdeferral
    · rename_i detail hreason
      exact ⟨detail, hreason⟩
    · cases hdeferral

theorem names_ready : letI := charwise
    ∃ ready, prepare EmptiedFolder.settings site (fun _ => .ok ()) = some (.ok ready) ∧
      ready.deferred ≠ [] ∧ (∃ skip ∈ ready.plan.skipped, ∃ detail, skip.reason = .deferred detail) ∧
      (∀ record ∈ ready.deferred, ∃ skip ∈ ready.plan.skipped, skip.relative = record.relative) ∧
      (∀ skip ∈ ready.plan.skipped, ∀ detail, skip.reason = .deferred detail →
        (∃ (reason : DeferReason) (cause : String), detail = reason.asStr ++ ": " ++ cause) ∧
          ∃ record ∈ ready.deferred, record.relative = skip.relative) ∧
      ∃ scan, Scan.scanScoped ⟨tree, noRules, ⟨.root⟩, false⟩ unbounded site.source =
          some (.ok scan) ∧
        scan.inventory.skipped ≠ [] ∧ scan.inventory.skipped ⊆ ready.plan.skipped := by
  let _ := charwise
  obtain ⟨ready, hready, hrecords, _, hdeferred⟩ := exists_ready
  obtain ⟨hnamed, htagged, _, scan, hscan, hskipped⟩ := prepare_names hready
  obtain ⟨scan', hscan', hsome⟩ := Scan.exists_of_finished
    (x := Scan.scanScoped ⟨tree, noRules, ⟨.root⟩, false⟩ unbounded site.source)
    (p := fun scan => !scan.inventory.skipped.isEmpty) (by decide +kernel)
  obtain rfl : scan' = scan := Except.ok.inj (Option.some.inj (hscan'.symm.trans hscan))
  refine ⟨ready, hready, fun hnone => ?_, hdeferred, hnamed, htagged, scan', hscan', ?_,
    hskipped⟩
  · rw [hnone] at hrecords
    cases hrecords
  · simpa using hsome

end LockedFile

end DriveSync
