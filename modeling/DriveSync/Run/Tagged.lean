import DriveSync.Scan.Scanned
import DriveSync.Plan.Planned
import DriveSync.Run.Prepare

/-!
# DriveSync.Run.Tagged

A skip that says its path was deferred says by which reason, in front of the cause. The reason is read
back from the text, and decides whether the next run is expected to pick the path up.

* `deferralOfSkip_tagged`: the reason that is read back is the one written.
* `SkippedEntry.Tagged`: a skip that is written so, as are those of a scan and of a plan.
-/

namespace DriveSync

open Path

/-! ## The text of a deferral -/

namespace DeferReason

theorem colon_not_mem_asStr (reason : DeferReason) :
    ∀ c ∈ reason.asStr.toList, (c != ':') = true := by
  have hall : reason.asStr.toList.all (· != ':') = true := by
    cases reason <;> decide +kernel
  exact List.all_eq_true.mp hall

theorem asStr_injective {r reason : DeferReason} (h : r.asStr.toList = reason.asStr.toList) :
    r = reason := by
  revert h
  cases r <;> cases reason <;>
    first | exact fun _ => rfl | (intro h; exact absurd h (by decide +kernel))

/-- A reason stands in front of a text just where the text was written by it. -/
theorem tag_isPrefixOf {r reason : DeferReason} (cause : String) :
    r.tag.isPrefixOf (reason.asStr ++ ": " ++ cause).toList = true ↔ r = reason := by
  have htext : (reason.asStr ++ ": " ++ cause).toList =
      reason.asStr.toList ++ ':' :: ' ' :: cause.toList := by
    simp
  rw [htext, List.isPrefixOf_iff_prefix]
  constructor
  · intro h
    obtain ⟨rest, hrest⟩ := h
    have hcut := congrArg (List.takeWhile (· != ':')) hrest
    rw [tag, List.append_assoc, List.takeWhile_append_of_pos r.colon_not_mem_asStr,
      List.takeWhile_append_of_pos reason.colon_not_mem_asStr] at hcut
    exact asStr_injective (by simpa using hcut)
  · intro h
    subst h
    exact ⟨' ' :: cause.toList, by simp [tag]⟩

theorem find_all (reason : DeferReason) : all.find? (fun r => decide (r = reason)) = some reason := by
  cases reason <;> rfl

end DeferReason

/-- The skip of a path that was deferred. -/
def deferredSkip (relative : RelPath) (reason : DeferReason) (cause : String) : SkippedEntry :=
  ⟨relative, .deferred (reason.asStr ++ ": " ++ cause)⟩

/-- The reason a deferral is named by is the one that is read back. -/
theorem deferralOfSkip_tagged (relative : RelPath) (reason : DeferReason) (cause : String) :
    (deferralOfSkip (deferredSkip relative reason cause)).map (·.reason) = some reason := by
  have htag : (fun r : DeferReason => r.tag.isPrefixOf (reason.asStr ++ ": " ++ cause).toList) =
      fun r => decide (r = reason) := by
    funext r
    rw [Bool.eq_iff_iff, DeferReason.tag_isPrefixOf, decide_eq_true_iff]
  simp only [deferralOfSkip, deferredSkip, htag, DeferReason.find_all, Option.map_some]

/-- A skip that says its path was deferred says by which reason. -/
def SkippedEntry.Tagged (skip : SkippedEntry) : Prop :=
  ∀ detail, skip.reason = .deferred detail →
    ∃ (reason : DeferReason) (cause : String), detail = reason.asStr ++ ": " ++ cause

namespace SkippedEntry

theorem Tagged.of_deferred {relative : RelPath} {detail : String} (reason : DeferReason)
    {cause : String} (h : detail = reason.asStr ++ ": " ++ cause) :
    Tagged ⟨relative, .deferred detail⟩ := by
  intro detail' hdetail
  obtain rfl := SkipReason.deferred.inj hdetail
  exact ⟨reason, cause, h⟩

/-- The same of a text that begins so. -/
theorem Tagged.of_opening {relative : RelPath} {first rest cause : String} (reason : DeferReason)
    (h : first = reason.asStr ++ ": " ++ cause) :
    Tagged ⟨relative, .deferred (first ++ rest)⟩ :=
  of_deferred reason (by rw [h, String.append_assoc])

theorem Tagged.of_lasting {skip : SkippedEntry} (h : ∀ detail, skip.reason ≠ .deferred detail) :
    skip.Tagged :=
  fun detail hdetail => absurd hdetail (h detail)

/-- A tagged skip is a deferral, or no deferral is meant. -/
theorem Tagged.deferral {skip : SkippedEntry} (h : skip.Tagged) :
    (∀ detail, skip.reason ≠ .deferred detail) ∨ (deferralOfSkip skip).isSome = true := by
  obtain ⟨relative, reason⟩ := skip
  by_cases hdeferred : ∃ detail, reason = .deferred detail
  · obtain ⟨detail, rfl⟩ := hdeferred
    obtain ⟨tag, cause, rfl⟩ := h detail rfl
    have hsome := deferralOfSkip_tagged relative tag cause
    refine .inr ?_
    cases hdeferral : deferralOfSkip (deferredSkip relative tag cause) with
    | none => simp [hdeferral] at hsome
    | some record => exact congrArg Option.isSome hdeferral
  · exact .inl fun detail hdetail => hdeferred ⟨detail, hdetail⟩

end SkippedEntry

/-! ## The skips of a scan -/

namespace Scan

variable {ctx : Context} {folder : RelPath} {skip : SkippedEntry}

theorem tagged_unsupported (relative : RelPath) (reason : String) :
    SkippedEntry.Tagged ⟨relative, unsupportedEntry reason⟩ :=
  .of_deferred .unsupportedEntry rfl

theorem tagged_readFailure (relative : RelPath) (path : String) (failure : ReadFailure) :
    SkippedEntry.Tagged ⟨relative, .deferred (readFailureDetail path failure)⟩ := by
  have hdetail : readFailureDetail path failure = DeferReason.asStr
      (if failure.kind = .permissionDenied then .localPermissionDenied else .sourceUnreadable) ++
        ": " ++ ("failed to read " ++ path ++ ": " ++ failure.text) := by
    simp only [readFailureDetail, String.append_assoc]
    rfl
  exact .of_deferred _ hdetail

theorem tagged_mtime {path : String} {metadata : Metadata} {reason : SkipReason}
    (h : mtimeMs path metadata = .error reason) (relative : RelPath) :
    SkippedEntry.Tagged ⟨relative, reason⟩ := by
  simp only [mtimeMs] at h
  split at h
  · cases h
    exact tagged_readFailure _ _ _
  · split at h
    · cases h
      exact tagged_unsupported _ _
    · split at h
      · cases h
      · cases h
        exact tagged_unsupported _ _

theorem tagged_link {metadata : Metadata} {reason : SkipReason}
    (h : metadata.linkSkipReason = some reason) (relative : RelPath) :
    SkippedEntry.Tagged ⟨relative, reason⟩ := by
  simp only [Metadata.linkSkipReason] at h
  split at h
  · cases h
  · cases h
    exact .of_lasting (by simp)
  · cases h
    exact .of_lasting (by simp)

variable [Unicode]

omit [Unicode] in
theorem noteExcluded_ne_skip {relative : RelPath} : ctx.noteExcluded relative ≠ .skip skip := by
  rw [Context.noteExcluded]
  split <;> simp

omit [Unicode] in
theorem tagged_readEntry {name : Name} {metadata : Metadata}
    (h : ctx.readEntry folder name metadata = .skip skip) : skip.Tagged := by
  simp only [Context.readEntry] at h
  split at h
  · rename_i hlink
    cases h
    exact tagged_link hlink _
  · split at h
    · cases h
      exact .of_lasting (by simp)
    · split at h
      · cases h
        exact tagged_unsupported _ _
      · split at h
        · cases h
        · split at h
          · rename_i hmtime
            split at h
            · cases h
              exact tagged_mtime hmtime _
            · cases h
          · split at h <;> cases h

theorem tagged_read {name : FileName} (h : ctx.read folder name = .skip skip) : skip.Tagged := by
  simp only [Context.read] at h
  split at h
  · split at h
    · cases h
      exact tagged_readFailure _ _ _
    · split at h
      · exact absurd h noteExcluded_ne_skip
      · cases h
        exact tagged_unsupported _ _
  · split at h
    · exact absurd h noteExcluded_ne_skip
    · split at h
      · cases h
      · split at h
        · cases h
          exact tagged_readFailure _ _ _
        · split at h
          · exact absurd h noteExcluded_ne_skip
          · split at h
            · cases h
              exact tagged_unsupported _ _
            · split at h
              · split at h
                · cases h
                · cases h
                  exact tagged_readFailure _ _ _
              · exact tagged_readEntry h

/-- What a scan skips as deferred, it says why. -/
theorem tagged_scanScoped {budget : Nat} {source : SourceRoot} {scan : ScopedScan}
    (h : scanScoped ctx budget source = some (.ok scan)) :
    ∀ skip ∈ scan.inventory.skipped, skip.Tagged := by
  obtain ⟨root, s, _, hwalk, rfl⟩ := exists_of_scanScoped h
  obtain ⟨done, rest, u, hall, hgathered, _, houtput, _⟩ := gathered_of_walk hwalk
  intro skip hskip
  rcases mem_skipped_finish.mp hskip with hwalked | hreport
  · rw [houtput, hgathered.skipped] at hwalked
    obtain ⟨finding, hfinding, hdeclined⟩ := List.mem_filterMap.mp hwalked
    have hmem : finding ∈ findings ctx 248 .root := hall ▸ List.mem_append_left rest hfinding
    cases finding with
    | check cancelled => cases hdeclined
    | unreadable folder failure =>
      obtain rfl := Option.some.inj hdeclined
      exact tagged_readFailure _ _ _
    | read reading =>
      obtain ⟨folder, name, _, hread⟩ := mem_findings_read.mp hmem
      cases reading with
      | passed => cases hdeclined
      | excluded relative => cases hdeclined
      | carry entry => cases hdeclined
      | skip skip' =>
        obtain rfl := Option.some.inj hdeclined
        exact tagged_read hread
  · obtain ⟨pair, _, rfl⟩ := List.mem_map.mp hreport
    exact .of_lasting (by simp)

end Scan

/-! ## The skips of a plan -/

section Plan

variable [Unicode] {root : RemoteRoot} {L : LocalInventory} {R : RemoteInventory}
  {rules : IgnoreRules} {options : PlanOptions} {resolution : Resolution} {delete : Bool}
  {refused : List SkippedEntry} {skip : SkippedEntry}

omit [Unicode] in
theorem tagged_refused (root : RemoteRoot) (L : LocalInventory) :
    ∀ skip ∈ pathsTheDestinationRefuses root L, skip.Tagged := by
  refine List.foldlRecOn (motive := fun refused => ∀ skip ∈ refused, SkippedEntry.Tagged skip)
    _ _ (by simp) fun refused hrefused relative _ => ?_
  simp only [refuse]
  split
  · exact hrefused
  · split
    · exact hrefused
    · intro skip hskip
      rcases List.mem_append.mp hskip with hskip | hskip
      · exact hrefused skip hskip
      · rw [List.mem_singleton.mp hskip]
        exact .of_deferred .unsupportedEntry rfl

theorem tagged_typeConflict {pairs : Correspondence} {shield : Shield} {entry : LocalEntry}
    {remote : RemoteEntry} {reason : SkipReason}
    (h : typeConflict R rules delete pairs shield entry remote = some reason) (relative : RelPath) :
    SkippedEntry.Tagged ⟨relative, reason⟩ := by
  simp only [typeConflict] at h
  split at h
  · obtain rfl := Option.some.inj h
    simp only [mountReason]
    split
    · exact .of_lasting (by simp)
    · split
      · simp only [String.append_assoc]
        exact .of_deferred .remoteUnreadable rfl
      · exact .of_lasting (by simp)
  · split at h
    · cases h
    · split at h
      · cases h
        exact .of_lasting (by simp)
      · split at h
        · obtain ⟨kept, _, rfl⟩ := Option.map_eq_some_iff.mp h
          exact .of_lasting (by simp)
        · cases h

theorem lasting_decideRemote {loc : Option RelPath} {first second : RelPath}
    {reports : List SkippedEntry} (h : decideRemote loc first second = .collision reports)
    (hskip : skip ∈ reports) : ∃ other, skip.reason = .remoteCaseCollision other := by
  simp only [decideRemote] at h
  split at h
  · cases h
  · cases h
    simp only [List.cons_append, List.nil_append, List.mem_cons, List.mem_map] at hskip
    rcases hskip with rfl | rfl | ⟨spelling, _, rfl⟩
    · exact ⟨_, rfl⟩
    · exact ⟨_, rfl⟩
    · exact ⟨_, rfl⟩

theorem tagged_decideClass {cls : Spellings} {reports : List SkippedEntry}
    (h : decideClass L R delete cls = .collision reports) : ∀ skip ∈ reports, skip.Tagged := by
  intro skip hskip
  simp only [decideClass] at h
  split at h
  · split at h
    · cases h
      simp only [List.mem_cons, List.not_mem_nil, or_false] at hskip
      rcases hskip with rfl | rfl
      · exact .of_lasting (by simp)
      · exact .of_lasting (by simp)
    · cases h
  · split at h
    · split at h
      · obtain ⟨other, hreason⟩ := lasting_decideRemote h hskip
        exact .of_lasting (by simp [hreason])
      · cases h
    · split at h
      · simp only [decidePair] at h
        split at h
        · split at h
          · cases h
            rw [List.mem_singleton.mp hskip]
            exact .of_lasting (by simp)
          · split at h <;> cases h
        · cases h
      · cases h

theorem tagged_resolve (hrefused : ∀ skip ∈ refused, skip.Tagged) :
    ∀ skip ∈ (resolve L R rules delete refused).skipped, skip.Tagged := by
  have hbefore : ∀ skip ∈ (shieldPairedExclusions L rules
      (resolvePairs L R rules delete refused)).skipped, skip.Tagged := by
    intro skip hskip
    have hclasses : skip ∈ (decideClasses L R rules delete refused).skipped := by
      rw [← skipped_resolveSpellings, ← skipped_resolvePairs]
      exact hskip
    rcases (decideClasses_decided L R rules delete refused).skipped skip hclasses with
      hstart | ⟨cls, _, reports, hdecided, hmem, _⟩
    · exact hrefused skip hstart
    · exact tagged_decideClass hdecided skip hmem
  refine List.foldlRecOn (motive := fun resolution : Resolution =>
    ∀ skip ∈ resolution.skipped, SkippedEntry.Tagged skip) _ _ hbefore ?_
  intro resolution hresolution entry _
  simp only [shieldTypeConflict]
  split
  · exact hresolution
  · split
    · exact hresolution
    · split
      · exact hresolution
      · rename_i reason hreason
        intro skip hskip
        rcases List.mem_append.mp hskip with hskip | hskip
        · exact hresolution skip hskip
        · rw [List.mem_singleton.mp hskip]
          exact tagged_typeConflict hreason _

theorem tagged_renameSkip {rename : RelPath × RelPath}
    (h : renameSkip R rules options resolution rename = some skip) : skip.Tagged := by
  simp only [renameSkip] at h
  split at h
  · cases h
  · split at h
    · obtain ⟨kept, _, rfl⟩ := Option.map_eq_some_iff.mp h
      simp only [renamePending, String.append_assoc]
      refine .of_opening .caseRenamePending (show _ = _ ++ "the source spells it " from ?_)
      decide
    · cases h

omit [Unicode] in
theorem tagged_leftover (old kept : RelPath) :
    SkippedEntry.Tagged ⟨old, leftoverReason old kept⟩ := by
  simp only [leftoverReason, String.append_assoc]
  refine .of_opening .caseRenamePending (show _ = _ ++ "the NAS holds " from ?_)
  decide

/-- What a plan skips as deferred, it says why, where the source it was made of does. -/
theorem tagged_buildPlan {plan : SyncPlan} (h : buildPlan root L R rules options = .ok plan)
    (hsource : ∀ skip ∈ L.skipped, skip.Tagged) : ∀ skip ∈ plan.skipped, skip.Tagged := by
  simp only [buildPlan, buildPlanOn, Loop.bind_eq_ok] at h
  obtain ⟨start, hstart, _, _, draft, hdraft, copied, hcopied, renamed, hrenamed, mirrored,
    hmirrored, h⟩ := h
  have hstart := createRoot_eq_ok hstart
  have hentries := entries_planned (by rw [hstart]; rfl) hdraft
  obtain ⟨_, hcopied⟩ := copied_of_planCopies hcopied
  have hrenamed := planRenames_eq_ok hrenamed
  rw [reportLeftovers_eq] at hmirrored
  have hposts : renamed.postDeletes = [] :=
    calc renamed.postDeletes = copied.postDeletes := by rw [hrenamed]
      _ = draft.plan.postDeletes := by rw [hcopied.frame]
      _ = start.postDeletes := by rw [hentries.frame]
      _ = [] := by rw [hstart]; rfl
  obtain ⟨s, hs, rfl⟩ := planDeletions_mirrored
    (fun d hd => mem_predeleted_iff hentries hd) (by exact hposts) hmirrored
  obtain ⟨rfl, _⟩ := checkLimits_eq_ok h
  have hfirst : copied.skipped =
      (planResolution root L R rules options).skipped ++ L.skipped :=
    calc copied.skipped = draft.plan.skipped := by rw [hcopied.frame]
      _ = start.skipped := by rw [hentries.frame]
      _ = _ := by rw [hstart]; rfl
  intro skip hskip
  rw [skipped_finishPlan, List.mem_insertionSort] at hskip
  rcases hs.reported skip hskip with hskip | ⟨_, _, _, protectedEntry, hreason⟩
  · simp only [hrenamed, hfirst, List.mem_append, List.mem_filterMap] at hskip
    rcases hskip with ((hskip | hskip) | ⟨rename, _, hskip⟩) | ⟨leftover, _, hskip⟩
    · exact tagged_resolve (tagged_refused root L) skip hskip
    · exact hsource skip hskip
    · exact tagged_renameSkip hskip
    · split at hskip
      · cases hskip
        exact tagged_leftover _ _
      · cases hskip
  · exact .of_lasting (by simp [hreason])

end Plan

end DriveSync
