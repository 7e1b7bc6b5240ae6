import DriveSync.Sync.Verdict
import DriveSync.Run.Job
import DriveSync.Run.Accounts

/-!
# DriveSync.Run.Settled

What a run that ends well has settled. Where it had something to do, both sides are looked at again
after it: whatever the source holds then is on the NAS as well, or the run tells what keeps it from
there.

* `Acknowledged`: a path of which the run says that it did not carry it.
* `exists_of_carryOut`: what a run that ended well has been through.
* `runSyncJob_settles`: what its exit code stands for.
-/

namespace DriveSync

open Path Prog

/-! ## The records of a run -/

/-- The records while more are added: none is lost, and each path that is named has one. -/
structure Recording (before done : List DeferredPath)
    (s : Std.TreeSet RelPath × List DeferredPath) : Prop where
  kept : before ⊆ s.2
  known : ∀ k ∈ s.1, ∃ record ∈ s.2, record.relative = k
  named : ∀ record ∈ done, record.relative ∈ s.1

theorem recording_addRecord {before done : List DeferredPath}
    {s : Std.TreeSet RelPath × List DeferredPath} (h : Recording before done s)
    (record : DeferredPath) :
    Recording before (done ++ [record]) (SyncCompletion.addRecord s record) := by
  simp only [SyncCompletion.addRecord]
  split
  · rename_i hknown
    refine ⟨h.kept, h.known, fun r hr => ?_⟩
    rcases List.mem_append.mp hr with hr | hr
    · exact h.named r hr
    · rw [List.mem_singleton.mp hr]
      exact hknown
  · refine ⟨fun r hr => List.mem_append_left _ (h.kept hr), fun k hk => ?_, fun r hr => ?_⟩
    · rw [Std.TreeSet.mem_insert, compare_eq_iff_eq] at hk
      rcases hk with rfl | hk
      · exact ⟨record, List.mem_append_right _ (List.mem_singleton.mpr rfl), rfl⟩
      · obtain ⟨r, hr, hrel⟩ := h.known k hk
        exact ⟨r, List.mem_append_left _ hr, hrel⟩
    · rw [Std.TreeSet.mem_insert, compare_eq_iff_eq]
      rcases List.mem_append.mp hr with hr | hr
      · exact .inr (h.named r hr)
      · exact .inl (by rw [List.mem_singleton.mp hr])

theorem addDeferred_records (completion : SyncCompletion) (extra : List DeferredPath) :
    completion.deferred ⊆ (completion.addDeferred extra).deferred ∧
      ∀ r ∈ extra, ∃ r' ∈ (completion.addDeferred extra).deferred, r'.relative = r.relative := by
  have hstart : Recording completion.deferred []
      (Std.TreeSet.ofList (completion.deferred.map (·.relative)) compare, completion.deferred) := by
    refine ⟨fun _ h => h, fun k hk => ?_, fun _ h => (by cases h)⟩
    simp only [Std.TreeSet.mem_ofList, List.contains_iff_mem, List.mem_map] at hk
    exact hk
  have hall := Loop.foldl_done (I := Recording completion.deferred) extra hstart
    fun _ record _ _ _ h => recording_addRecord h record
  exact ⟨hall.kept, fun r hr => hall.known _ (hall.named r hr)⟩

/-- The paths a run left for the next one. -/
def SyncResult.deferred (result : SyncResult) : List DeferredPath :=
  match result.completion with
  | some completion => completion.deferred
  | none => []

section Settled

variable [Unicode] {settings : ResolvedSync} {job : JobSite} {planOnly : Bool}
  {guard : SyncPlan → Except RunError Unit} {run : JobRun} {sync : SyncRun} {result : SyncResult}
  {ready : Ready} {plan rebuilt : SyncPlan} {deferred deferred' : List DeferredPath}

/-- The run tells that it did not carry a path: a record names it, or one above it, up to spelling, or
a skip does for a reason that lasts. -/
inductive Acknowledged (deferred : List DeferredPath) (skipped : List SkippedEntry) (p : RelPath) : Prop
  | recorded (record : DeferredPath) (hrecord : record ∈ deferred)
      (above : AtOrUnder (portableFold record.relative) (portableFold p))
  | skipped (skip : SkippedEntry) (hskip : skip ∈ skipped)
      (lasting : ∀ detail, skip.reason ≠ .deferred detail)
      (above : AtOrUnder (portableFold skip.relative) (portableFold p))

/-- The second look leaves a path out for a reason that lasts, and the run had not left it out for
that. -/
def SkippedSince (first second : List SkippedEntry) (p : RelPath) : Prop :=
  ∃ skip ∈ second, skip ∉ first ∧ (∀ detail, skip.reason ≠ .deferred detail) ∧
    AtOrUnder (portableFold skip.relative) (portableFold p)

theorem Acknowledged.since {first second : List SkippedEntry} {p : RelPath}
    (h : Acknowledged deferred second p) :
    Acknowledged deferred first p ∨ SkippedSince first second p := by
  cases h with
  | recorded record hrecord above => exact .inl (.recorded record hrecord above)
  | skipped skip hskip lasting above =>
    by_cases hfirst : skip ∈ first
    · exact .inl (.skipped skip hfirst lasting above)
    · exact .inr ⟨skip, hskip, hfirst, lasting, above⟩

theorem Acknowledged.mono {skipped : List SkippedEntry} {p : RelPath} (h : Acknowledged deferred skipped p)
    (hnamed : ∀ r ∈ deferred, ∃ r' ∈ deferred', r'.relative = r.relative) :
    Acknowledged deferred' skipped p := by
  cases h with
  | recorded record hrecord above =>
    obtain ⟨record', hrecord', hrel⟩ := hnamed record hrecord
    exact .recorded record' hrecord' (hrel ▸ above)
  | skipped skip hskip lasting above => exact .skipped skip hskip lasting above

/-- A skip tells of what it names, where each deferral among the skips has its record. -/
theorem acknowledged_of_skip {skipped : List SkippedEntry} {skip : SkippedEntry} {p : RelPath}
    (hskip : skip ∈ skipped) (htagged : skip.Tagged)
    (hrecorded : (deferralOfSkip skip).isSome = true →
      ∃ record ∈ deferred, record.relative = skip.relative)
    (above : AtOrUnder (portableFold skip.relative) (portableFold p)) : Acknowledged deferred skipped p := by
  rcases htagged.deferral with hlasting | hsome
  · exact .skipped skip hskip hlasting above
  · obtain ⟨record, hrecord, hrel⟩ := hrecorded hsome
    exact .recorded record hrecord (hrel ▸ above)

theorem Answered.mono {source : DigestSource} {rules : IgnoreRules} {compare : CompareMode} {held : LocalMap}
    {remote : RemoteMap} {named named' written written' : RelPath → Prop} {x : LocalEntry}
    (h : Answered source rules compare held remote named written x)
    (hnamed : named x.relative → named' x.relative)
    (hwritten : written x.relative → written' x.relative) :
    Answered source rules compare held remote named' written' x := by
  cases h with
  | named h => exact .named (hnamed h)
  | excluded y hy above spelling same differs ruled =>
    exact .excluded y hy above spelling same differs ruled
  | written h => exact .written (hwritten h)
  | there e he same kind equal => exact .there e he same kind equal

/-! ## What a run that ended well has been through -/

/-- A run of a job that did not fail had a plan that was approved, and carried it out. -/
theorem exists_of_runSyncJob (h : runSyncJob settings job planOnly guard = some run)
    (hrun : run.outcome = .ok result) (hok : result.failure = none) :
    ∃ ready sync, prepare settings.run job.site guard = some (.ok ready) ∧
      carryOut settings job planOnly ready = some sync ∧ sync.plan = some result.plan ∧
      sync.completion = result.completion ∧ sync.result = .ok () := by
  have hclosed : ∀ {sync : SyncRun}, sync.close job = run → sync.plan = some result.plan ∧
      sync.completion = result.completion ∧ sync.result = .ok () := by
    intro sync hclose
    simp only [SyncRun.close] at hclose
    split at hclose
    · rw [← hclose] at hrun
      cases hrun
    · rw [← hclose] at hrun
      cases hrun
    · rename_i plan hplan hresult
      obtain ⟨_, hresult, _⟩ := Loop.bind_eq_ok.mp hresult
      rw [← hclose] at hrun
      cases hrun
      exact ⟨hplan, rfl, hresult⟩
    · rw [← hclose] at hrun
      cases hrun
      cases hok
  simp only [runSyncJob] at h
  split at h
  · obtain ⟨hplan, _⟩ := hclosed (Option.some.inj h)
    cases hplan
  · obtain ⟨sync, hsync, hclose⟩ := Option.map_eq_some_iff.mp h
    obtain ⟨hplan, hcompletion, hresult⟩ := hclosed hclose
    simp only [prepareAndRunSync] at hsync
    split at hsync
    · cases hsync
    · cases hsync
      cases hplan
    · rename_i proposed hproposed
      split at hsync
      · cases hsync
        cases hplan
      · rename_i ready hready
        refine ⟨ready, sync, ?_, hsync, hplan, hcompletion, hresult⟩
        rw [prepare, hproposed]
        exact congrArg some hready

theorem undigested_of_again {scan : Scan.ScopedScan}
    (hscan : Scan.scanScoped ⟨job.again.tree, settings.rules, settings.scope, false⟩ unbounded
      job.again.source = some (.ok scan)) :
    ∀ x ∈ scan.inventory.entries.values, x.contentMd5 = none :=
  @undigested_of_scanScoped _ settings.run job.again scan hscan

theorem exists_of_buildReconciliationPlan {serverCopy : Bool}
    (h : buildReconciliationPlan settings job serverCopy = some (.ok (rebuilt, deferred))) :
    ∃ scan walk,
      Scan.scanScoped ⟨job.again.tree, settings.rules, settings.scope, false⟩ unbounded
        job.again.source = some (.ok scan) ∧
      remoteInventoryScoped job.again.station settings.root settings.rules settings.scope unbounded
        job.again.fuel = some (.ok walk) ∧
      ∃ (prepared : Prepared) (plan : SyncPlan),
        prepared.Of scan.inventory ⟨walk.rootExists, walk.entries⟩ ∧
        prepared.Read job.again.digests ∧
        buildPlan settings.root prepared.L prepared.R settings.rules
          (reconciliationOptions (runPlanOptions settings.run serverCopy) settings.compare) =
            .ok plan ∧
        withholdDoubtful job.again walk prepared.R
          { plan with linkGuardUnchecked := walk.linkGuardUnchecked }
          (prepared.deferred ++ vanishedRemoteFolderDeferrals walk.vanishedDirectories) =
            .ok (rebuilt, deferred) := by
  simp only [buildReconciliationPlan] at h
  split at h
  · cases h
  · split at h
    · cases h
    · cases h
    · rename_i scan hscan
      split at h
      · cases h
      · split at h
        · cases h
        · cases h
        · rename_i walk hwalk
          have hrebuilt := Option.some.inj h
          simp only [rebuildPlan, Loop.bind_eq_ok] at hrebuilt
          obtain ⟨_, _, _, _, prepared, hprepared, plan, hplan, narrowed, hnarrowed, _, _, hlast⟩ :=
            hrebuilt
          obtain rfl := Except.ok.inj hlast
          have hread := read_of_populatePlanDigests hprepared (undigested_of_again hscan)
            (undigested_of_remoteInventoryScoped hwalk)
          exact ⟨scan, walk, hscan, hwalk, prepared, plan, populatePlanDigests_of hprepared, hread,
            Loop.mapError_eq_ok.mp hplan, hnarrowed⟩

/-! ## What the looks settle -/

theorem answered_of_empty (h : propose settings.run job.site = some (.ok ready))
    (hempty : ready.plan.isEmpty = true)
    (hdeferred : ready.deferred ⊆ deferred) :
    ∃ scan walk,
      Scan.scanScoped ⟨job.site.tree, settings.rules, settings.scope, false⟩ unbounded
        job.site.source = some (.ok scan) ∧
      remoteInventoryScoped job.site.station settings.root settings.rules settings.scope unbounded
        job.site.fuel = some (.ok walk) ∧
      ∀ x ∈ scan.inventory.entries.values, Answered job.site.digests settings.rules
        settings.effectiveCompareMode scan.inventory.entries walk.entries
        (Acknowledged deferred ready.plan.skipped) (fun _ => False) x := by
  obtain ⟨scan, walk, hscan, hwalk, hanswered, _⟩ := accounted_of_propose h
  refine ⟨scan, walk, hscan, hwalk, fun x hx => (hanswered x hx).mono (fun hnamed => ?_) ?_⟩
  · obtain ⟨skip, hskip, above⟩ := hnamed
    refine acknowledged_of_skip hskip (Ready.tagged h skip hskip) (fun hsome => ?_) above
    obtain ⟨record, hrecord, hrel⟩ := Ready.recorded h skip hskip hsome
    exact ⟨record, hdeferred hrecord, hrel⟩
  · intro hcarried
    simp only [SyncPlan.isEmpty, Bool.and_eq_true, List.isEmpty_iff] at hempty
    simp [SyncPlan.carried, hempty] at hcarried

theorem answered_of_rebuilt {serverCopy : Bool}
    (h : buildReconciliationPlan settings job serverCopy = some (.ok (rebuilt, deferred)))
    (hnamed : ∀ r ∈ deferred, ∃ r' ∈ deferred', r'.relative = r.relative) :
    ∃ scan walk,
      Scan.scanScoped ⟨job.again.tree, settings.rules, settings.scope, false⟩ unbounded
        job.again.source = some (.ok scan) ∧
      remoteInventoryScoped job.again.station settings.root settings.rules settings.scope unbounded
        job.again.fuel = some (.ok walk) ∧
      ∀ x ∈ scan.inventory.entries.values, Answered job.again.digests settings.rules
        settings.compare scan.inventory.entries walk.entries
        (Acknowledged deferred' rebuilt.skipped) (· ∈ rebuilt.carried) x := by
  obtain ⟨scan, walk, hscan, hwalk, prepared, plan, hof, hread, hplan, hrebuilt⟩ :=
    exists_of_buildReconciliationPlan h
  have hplanned := planned_of_buildPlan hplan
  have hwithheld := withholdDoubtful_ok hrebuilt
  have haccounted := withholdDoubtful_accounted hrebuilt fun c hc => hplanned.copy_entry hc
  have htagged := tagged_buildPlan hplan (hof.tagged (Scan.tagged_scanScoped hscan))
  have hmine := undigested_of_again hscan
  have htheirs := undigested_of_remoteInventoryScoped hwalk
  have hskipped : ∀ skip ∈ plan.skipped, ∀ p,
      AtOrUnder (portableFold skip.relative) (portableFold p) →
      Acknowledged deferred rebuilt.skipped p := fun skip hskip p above =>
    acknowledged_of_skip (hwithheld.within.skipped hskip) (htagged skip hskip)
      (hwithheld.recorded skip (hwithheld.within.skipped hskip)) above
  have hwritten : ∀ p ∈ plan.carried, p ∈ rebuilt.carried ∨
      Acknowledged deferred rebuilt.skipped p := by
    intro p hp
    rcases haccounted.writes p hp with hheld | ⟨record, hrecord, hat⟩
    · exact .inl hheld
    · exact .inr (.recorded record hrecord hat.map)
  refine ⟨scan, walk, hscan, hwalk, fun x hx => ?_⟩
  exact (Answered.of_prepared hof hread hmine htheirs hplan hskipped hwritten hx).mono
    (·.mono hnamed) id

omit [Unicode] in
theorem deferred_completionOfNothing : ready.deferred ⊆
    match completionOfNothing ready with
    | some completion => completion.deferred
    | none => [] := by
  simp only [completionOfNothing]
  split
  · rename_i completion h
    split at h
    · cases h
      exact fun _ h => h
    · cases h
  · rename_i h
    split at h
    · cases h
    · rename_i hquiet
      simp only [Bool.or_eq_true, not_or, Bool.not_eq_true', Bool.not_eq_false,
        List.isEmpty_iff] at hquiet
      simp [hquiet.1.1.1]

/-- What a run that carried its plan out holds its second look against. -/
theorem exists_of_concludeRun {execution : Except ExecError Unit}
    {completion completion' : SyncCompletion}
    (h : concludeRun settings job ready execution completion = some (completion', .ok ())) :
    ∃ rebuilt deferred,
      buildReconciliationPlan settings job ready.serverCopy = some (.ok (rebuilt, deferred)) ∧
      completion'.deferred = (completion.addDeferred deferred).deferred ∧
      ∀ op ∈ rebuilt.operations,
        Excused job.modified ready.plan job.startedAt (.fromRecords completion'.deferred) op := by
  simp only [concludeRun] at h
  split at h
  · cases h
  · split at h
    · cases h
    · cases h
    · rename_i rebuilt deferred hrebuilt
      refine ⟨rebuilt, deferred, hrebuilt, ?_⟩
      split at h
      · cases h
      · rename_i verdict hverdict
        obtain ⟨rfl, _⟩ := Prod.mk.inj (Option.some.inj h)
        refine ⟨rfl, ?_⟩
        rcases ensureReconciled_cases job.modified ready.plan rebuilt job.startedAt
          (.fromRecords (completion.addDeferred deferred).deferred) with ⟨hall, _⟩ | ⟨_, hfails⟩
        · exact hall
        · rw [hverdict] at hfails
          cases hfails

omit [Unicode] in
theorem operation_of_carried {p : RelPath} (h : p ∈ plan.carried) :
    ∃ op ∈ plan.operations, op.relative = p := by
  rcases SyncPlan.mem_carried.mp h with ⟨c, hc, rfl⟩ | ⟨c, hc, rfl⟩ | ⟨u, hu, rfl⟩
  · exact ⟨.create c, by simp [SyncPlan.operations, hc], rfl⟩
  · exact ⟨.copy c, by simp [SyncPlan.operations, hc], rfl⟩
  · exact ⟨.upload u, by simp [SyncPlan.operations, hu], rfl⟩

omit [Unicode] in
/-- A run that does not end as a partial one left nothing that the next is expected to pick up. -/
theorem lasting_of_exit {cancelled changesExitCode : Bool} {code : ExitCode}
    (h : result.exit cancelled changesExitCode = .ok code) (hcode : code ≠ .partialRun) :
    result.failure = none ∧ ∀ record ∈ result.deferred, record.reason.isLasting = true := by
  simp only [SyncResult.exit] at h
  split at h
  · cases h
  · rename_i hok
    refine ⟨hok, ?_⟩
    simp only [partialCompletion] at h
    split at h
    · split at h
      · obtain rfl := Except.ok.inj h
        exact absurd rfl hcode
      · rename_i hpartial
        intro record hrecord
        simp only [SyncResult.deferred] at hrecord
        cases hcompletion : result.completion with
        | none => simp [hcompletion] at hrecord
        | some completion =>
          rw [hcompletion] at hrecord hpartial
          simpa using fun hlasting => hpartial (List.any_eq_true.mpr ⟨record, hrecord, hlasting⟩)
    · cases h

/-- What a run has settled of its source. All it left has a reason that lasts. -/
structure SettledBy (settings : ResolvedSync) (job : JobSite) (result : SyncResult) : Prop where
  lasting : ∀ record ∈ result.deferred, record.reason.isLasting = true
  /-- There was nothing to do. -/
  idle : result.plan.isEmpty = true → ∃ scan walk,
    Scan.scanScoped ⟨job.site.tree, settings.rules, settings.scope, false⟩ unbounded
      job.site.source = some (.ok scan) ∧
    remoteInventoryScoped job.site.station settings.root settings.rules settings.scope unbounded
      job.site.fuel = some (.ok walk) ∧
    ∀ x ∈ scan.inventory.entries.values, Answered job.site.digests settings.rules
      settings.effectiveCompareMode scan.inventory.entries walk.entries
      (Acknowledged result.deferred result.plan.skipped) (fun _ => False) x
  /-- The second look holds nothing that the run would have to answer for. -/
  carried : result.plan.isEmpty = false → ∃ scan walk,
    Scan.scanScoped ⟨job.again.tree, settings.rules, settings.scope, false⟩ unbounded
      job.again.source = some (.ok scan) ∧
    remoteInventoryScoped job.again.station settings.root settings.rules settings.scope
      unbounded job.again.fuel = some (.ok walk) ∧
    ∃ serverCopy rebuilt left,
      buildReconciliationPlan settings job serverCopy = some (.ok (rebuilt, left)) ∧
      ∀ x ∈ scan.inventory.entries.values,
      Answered job.again.digests settings.rules settings.compare scan.inventory.entries walk.entries
        (fun p => Acknowledged result.deferred result.plan.skipped p ∨
          SkippedSince result.plan.skipped rebuilt.skipped p)
        (fun p => ∃ op ∈ rebuilt.operations, op.relative = p ∧
          Excused job.modified result.plan job.startedAt (.fromRecords result.deferred) op)
        x

theorem settledBy_of_runSyncJob (h : runSyncJob settings job false guard = some run)
    (hrun : run.outcome = .ok result) (hok : result.failure = none)
    (hlasting : ∀ record ∈ result.deferred, record.reason.isLasting = true) :
    SettledBy settings job result := by
  obtain ⟨ready, sync, hready, hcarried, hplan, hcompletion, hresult⟩ :=
    exists_of_runSyncJob h hrun hok
  obtain ⟨hproposed, _⟩ := propose_of_prepare hready
  simp only [carryOut, Bool.false_eq_true, if_false] at hcarried
  split at hcarried
  · rename_i hempty
    obtain rfl := Option.some.inj hcarried
    have hsame : ready.plan = result.plan := Option.some.inj hplan
    refine ⟨hlasting, fun _ => ?_, fun hfull => ?_⟩
    · rw [← hsame]
      refine answered_of_empty hproposed hempty ?_
      simp only [SyncResult.deferred, ← hcompletion]
      exact deferred_completionOfNothing
    · rw [← hsame, hempty] at hfull
      cases hfull
  · rename_i hfull
    split at hcarried
    · obtain rfl := Option.some.inj hcarried
      cases hresult
    · obtain ⟨⟨completion, verdict⟩, hconcluded, rfl⟩ := Option.map_eq_some_iff.mp hcarried
      have hsame : ready.plan = result.plan := Option.some.inj hplan
      obtain rfl : verdict = .ok () := hresult
      obtain ⟨rebuilt, left, hrebuilt, hrecords, hexcused⟩ := exists_of_concludeRun hconcluded
      have hdeferred : result.deferred = completion.deferred := by
        simp only [SyncResult.deferred, ← hcompletion]
      refine ⟨hlasting, fun hempty => absurd (hsame ▸ hempty) hfull, fun _ => ?_⟩
      obtain ⟨scan, walk, hscan, hwalk, hanswered⟩ := answered_of_rebuilt hrebuilt
        (hrecords ▸ (addDeferred_records _ left).2)
      refine ⟨scan, walk, hscan, hwalk, _, rebuilt, left, hrebuilt, fun x hx => ?_⟩
      rw [hdeferred, ← hsame]
      refine (hanswered x hx).mono Acknowledged.since fun hcarried => ?_
      obtain ⟨op, hop, hrel⟩ := operation_of_carried hcarried
      exact ⟨op, hop, hrel, hexcused op hop⟩

/-- A run that was not asked for its plan only, and ends with an exit code other than that of a
partial run, has settled its source. All it left has a reason that lasts. Where there was nothing to
do, each entry the source held is on the NAS, or excluded there, or the run tells of it; where there
was, the same holds of the second look, but for what changed since the run began and for the times
the NAS did not keep. -/
theorem runSyncJob_settles {cancelled changesExitCode : Bool} {code : ExitCode}
    (h : runSyncJob settings job false guard = some run) (hrun : run.outcome = .ok result)
    (hexit : result.exit cancelled changesExitCode = .ok code) (hcode : code ≠ .partialRun) :
    (∀ record ∈ result.deferred, record.reason.isLasting = true) ∧
      (result.plan.isEmpty = true → ∃ scan walk,
        Scan.scanScoped ⟨job.site.tree, settings.rules, settings.scope, false⟩ unbounded
          job.site.source = some (.ok scan) ∧
        remoteInventoryScoped job.site.station settings.root settings.rules settings.scope unbounded
          job.site.fuel = some (.ok walk) ∧
        ∀ x ∈ scan.inventory.entries.values, Answered job.site.digests settings.rules
          settings.effectiveCompareMode scan.inventory.entries walk.entries
          (Acknowledged result.deferred result.plan.skipped) (fun _ => False) x) ∧
      (result.plan.isEmpty = false → ∃ scan walk,
        Scan.scanScoped ⟨job.again.tree, settings.rules, settings.scope, false⟩ unbounded
          job.again.source = some (.ok scan) ∧
        remoteInventoryScoped job.again.station settings.root settings.rules settings.scope
          unbounded job.again.fuel = some (.ok walk) ∧
        ∃ serverCopy rebuilt left,
          buildReconciliationPlan settings job serverCopy = some (.ok (rebuilt, left)) ∧
          ∀ x ∈ scan.inventory.entries.values,
          Answered job.again.digests settings.rules settings.compare scan.inventory.entries
            walk.entries
            (fun p => Acknowledged result.deferred result.plan.skipped p ∨
              SkippedSince result.plan.skipped rebuilt.skipped p)
            (fun p => ∃ op ∈ rebuilt.operations, op.relative = p ∧
              Excused job.modified result.plan job.startedAt (.fromRecords result.deferred) op)
            x) := by
  obtain ⟨hok, hlasting⟩ := lasting_of_exit hexit hcode
  have hsettled := settledBy_of_runSyncJob h hrun hok hlasting
  exact ⟨hsettled.lasting, hsettled.idle, hsettled.carried⟩

end Settled

/-! ## A run that finds nothing left

The source does not change, and the NAS does what it is asked. -/

namespace CalmRun

def job (tree : Scan.SourceTree) (station station' : FileStation) : JobSite where
  site := { EmptiedFolder.site with tree, station }
  environment := GoneSource.answers (.ok ())
  checkpoint _ := .ok ()
  mtimeUnhonoured := 0
  again := { EmptiedFolder.site with tree, station := station' }
  modified _ := none
  startedAt := 0

section Calm

variable [Unicode] (settings : ResolvedSync) (tree : Scan.SourceTree) (station station' : FileStation)

/-- The run plans something, carries all of it out, and has nothing left to do. -/
def succeeds (walk walk' : Walk) (deletes : Nat) (scan : Scan.ScopedScan) : Bool :=
  let job := job tree station station'
  Loop.okAnd (planRun settings.run job.site false scan.inventory walk) fun ready =>
    let ended := executed job.environment ready.plan ⟨settings.jobs, false⟩
    !ready.plan.isEmpty && decide (ready.plan.deleteCount = deletes) && ready.deferred.isEmpty &&
      !ready.serverCopy && Loop.okAnd ended.1 (fun _ => true) &&
      ended.2.state.completed.deferred.isEmpty && !(mutations ended.2.log).isEmpty &&
      Loop.okAnd (rebuildPlan settings job false scan.inventory walk')
        fun rebuilt => rebuilt.1.isEmpty && rebuilt.2.isEmpty

variable {settings tree station station'}

theorem exists_carried {walk walk' : Walk} {deletes : Nat}
    (hsucceeds : Scan.finished (Scan.scanScoped ⟨tree, settings.rules, settings.scope, false⟩
      unbounded Scan.Small.source)
      (succeeds settings tree station station' walk walk' deletes) = true)
    (hwalk : remoteInventoryScoped station settings.root settings.rules settings.scope unbounded
      EmptiedFolder.site.fuel = some (.ok walk))
    (hwalk' : remoteInventoryScoped station' settings.root settings.rules settings.scope unbounded
      EmptiedFolder.site.fuel = some (.ok walk')) :
    ∃ ready completion changes,
      propose settings.run (job tree station station').site = some (.ok ready) ∧
      carryOut settings (job tree station station') false ready =
        some ⟨some ready.plan, some ready.plan, some completion, .ok (), changes⟩ ∧
      ready.plan.isEmpty = false ∧ ready.plan.deleteCount = deletes ∧ changes ≠ [] ∧
      completion.deferred = [] := by
  obtain ⟨scan, hscan, hchecked⟩ := Scan.exists_of_finished hsucceeds
  obtain ⟨ready, hready, hchecked⟩ := Loop.exists_of_okAnd hchecked
  simp only [Bool.and_eq_true, Bool.not_eq_true', List.isEmpty_iff, decide_eq_true_eq,
    List.isEmpty_eq_false_iff] at hchecked
  obtain ⟨⟨⟨⟨⟨⟨⟨hfull, hcount⟩, hdeferred⟩, hcopy⟩, hexecuted⟩, hreport⟩, hchanges⟩, hrebuilt⟩ :=
    hchecked
  obtain ⟨_, hexecuted, _⟩ := Loop.exists_of_okAnd hexecuted
  obtain ⟨⟨rebuilt, left⟩, hrebuilt, hnothing⟩ := Loop.exists_of_okAnd hrebuilt
  simp only [Bool.and_eq_true, List.isEmpty_iff] at hnothing
  obtain ⟨hnothing, rfl⟩ := hnothing
  have hproposed : propose settings.run (job tree station station').site = some (.ok ready) := by
    have hscan' : Scan.scanScoped ⟨(job tree station station').site.tree, settings.run.rules,
        settings.run.scope, false⟩ unbounded (job tree station station').site.source =
          some (.ok scan) := hscan
    have hwalk' : remoteInventoryScoped (job tree station station').site.station settings.run.root
        settings.run.rules settings.run.scope unbounded (job tree station station').site.fuel =
          some (.ok walk) := hwalk
    rw [propose, hscan', hwalk']
    exact congrArg some hready
  have hagain : buildReconciliationPlan settings (job tree station station') ready.serverCopy =
      some (.ok (rebuilt, [])) := by
    have hscan' : Scan.scanScoped ⟨(job tree station station').again.tree, settings.rules,
        settings.scope, false⟩ unbounded (job tree station station').again.source =
          some (.ok scan) := hscan
    have hwalk' : remoteInventoryScoped (job tree station station').again.station settings.root
        settings.rules settings.scope unbounded (job tree station station').again.fuel =
          some (.ok walk') := hwalk'
    rw [buildReconciliationPlan, hscan', hwalk', hcopy]
    exact congrArg some hrebuilt
  have hconcluded : ∀ completion : SyncCompletion,
      concludeRun settings (job tree station station') ready (.ok ()) completion =
        some ({ completion.addDeferred [] with changedDuringRun := 0 }, .ok ()) := by
    intro completion
    rw [concludeRun, hagain]
    simp only [ensureReconciled, hnothing, if_true]
    rfl
  let executed' := executed (job tree station station').environment ready.plan
    ⟨settings.jobs, false⟩
  let completion : SyncCompletion :=
    { (completionOf (job tree station station') ready executed'.2.state.completed).addDeferred [] with
      changedDuringRun := 0 }
  have hcarried : carryOut settings (job tree station station') false ready =
      some ⟨some ready.plan, some ready.plan, some completion, .ok (),
        mutations executed'.2.log⟩ := by
    have hended : executed'.1 = .ok () := hexecuted
    simp only [carryOut, hfull, Bool.false_eq_true, if_false]
    rw [hended, hconcluded]
    rfl
  have hnone : completion.deferred = [] := by
    have hreport' : executed'.2.state.completed.deferred = [] := hreport
    simp only [completion, completionOf, SyncCompletion.addDeferred, SyncCompletion.deferredOnly,
      hdeferred, hreport', List.foldl_nil]
  exact ⟨ready, completion, _, hproposed, hcarried, hfull, hcount, hchanges, hnone⟩

end Calm

end CalmRun

/-! ## A folder that is cleared

The NAS holds a file in a folder that is empty in the source. The run deletes it, and does not find it
when it looks again. -/

namespace ClearedFolder

open Small NestedFolder

def station : FileStation where
  describe _ _ := none
  getInfo path := .ok (some [⟨absoluteText path, some "t".toList, some true, none,
    some ⟨none, none, none, some "/volume1/s/t".toList⟩⟩])
  listing folder _ := ⟨fun _ => false, fun _ _ _ =>
    if folder = root.path then .ok (some ⟨1, [dirItem.wire]⟩) else .ok (some ⟨0, []⟩)⟩
  confirmSession _ := true
  cancelledAt _ := false
  cancelledBefore _ := false

theorem list_root : station.list root.path = .ok ⟨[dirItem], true⟩ := by
  have hpass : listDirectoryPass station.describe (absoluteText root.path) listPageSize
      (station.listing root.path 0) = .ok ⟨[dirItem], 1, none⟩ := by
    rw [listDirectoryPass, passLoop]
    rfl
  rw [FileStation.list, listDirectory, hpass]
  rfl

theorem list_dir : station.list (root.path.append dir) = .ok ⟨[], true⟩ := by
  have hpass : listDirectoryPass station.describe (absoluteText (root.path.append dir)) listPageSize
      (station.listing (root.path.append dir) 0) = .ok ⟨[], 0, none⟩ := by
    rw [listDirectoryPass, passLoop]
    rfl
  rw [FileStation.list, listDirectory, hpass]
  rfl

/-- What the second walk comes to. -/
def cleared : Walk :=
  { first with
    pending := []
    listed := [(root.path, some real), (root.path.append dir, some dirReal)] }

theorem inventory_cleared : letI := charwise
    remoteInventoryScoped station root noRules ⟨.root⟩ unbounded 3 = some (.ok cleared) := by
  let _ := charwise
  have happroach : approachAll station root ⟨.root⟩ root.path root.path.prefixes
      ⟨Walk.start root.path, none⟩ = .ok (.go ⟨begun, some real⟩) := rfl
  have hfirst : walkFolder station root noRules root.path unbounded begun = .go first := by
    simp only [walkFolder, begun, list_root]
    rfl
  have hsecond : walkFolder station root noRules root.path unbounded first = .go cleared := by
    simp only [walkFolder, first, begun, list_dir]
    rfl
  have hjoin : (root.join .root).mapError unsafePathError = .ok root.path := rfl
  simp only [remoteInventoryScoped, hjoin, happroach, Fuel.run, hfirst, hsecond]
  rfl

def settings : ResolvedSync := ⟨root, noRules, ⟨.root⟩, true, true, 10, .metadata, false, 1⟩

def job : JobSite where
  site := EmptiedFolder.site
  environment := GoneSource.answers (.ok ())
  checkpoint _ := .ok ()
  mtimeUnhonoured := 0
  again := { EmptiedFolder.site with station := station }
  modified _ := none
  startedAt := 0

theorem exists_carried : letI := charwise
    ∃ ready completion changes, propose settings.run job.site = some (.ok ready) ∧
      carryOut settings job false ready =
        some ⟨some ready.plan, some ready.plan, some completion, .ok (), changes⟩ ∧
      ready.plan.isEmpty = false ∧ ready.plan.deleteCount = 1 ∧ changes ≠ [] ∧
      completion.deferred = [] :=
  @CalmRun.exists_carried charwise settings EmptiedFolder.tree NestedFolder.station station _ _ _
    (by decide +kernel) EmptiedFolder.inventory_nested inventory_cleared

theorem exists_run : letI := charwise
    ∃ run result, runSyncJob settings job false (fun _ => .ok ()) = some run ∧
      run.outcome = .ok result ∧ result.plan.isEmpty = false ∧ result.deferred = [] ∧
      result.exit false false = .ok .success := by
  let _ := charwise
  obtain ⟨ready, completion, changes, hproposed, hcarried, hfull, _, _, hnone⟩ := exists_carried
  refine ⟨⟨some ready.plan, .ok ⟨ready.plan, some completion, none⟩, changes⟩,
    ⟨ready.plan, some completion, none⟩, ?_, rfl, hfull, hnone, ?_⟩
  · simp only [runSyncJob, prepareAndRunSync, hproposed]
    exact congrArg (Option.map (SyncRun.close job)) hcarried
  · have hwhole : completion.isPartial = false := by simp [SyncCompletion.isPartial, hnone]
    simp [SyncResult.exit, partialCompletion, runIsPartial, hwhole, changesCompletion]

/-- What the source holds then, the NAS holds as well, or did not need to. -/
theorem settles_cleared : letI := charwise
    ∃ run result scan serverCopy rebuilt left,
      runSyncJob settings job false (fun _ => .ok ()) = some run ∧ run.outcome = .ok result ∧
      result.plan.isEmpty = false ∧
      Scan.scanScoped ⟨job.again.tree, noRules, ⟨.root⟩, false⟩ unbounded job.again.source =
        some (.ok scan) ∧
      buildReconciliationPlan settings job serverCopy = some (.ok (rebuilt, left)) ∧
      ∀ x ∈ scan.inventory.entries.values, Answered EmptiedFolder.digests noRules .metadata
        scan.inventory.entries cleared.entries
        (fun p => Acknowledged [] result.plan.skipped p ∨
          SkippedSince result.plan.skipped rebuilt.skipped p)
        (fun p => ∃ op ∈ rebuilt.operations, op.relative = p ∧
          Excused job.modified result.plan job.startedAt (.fromRecords []) op) x := by
  let _ := charwise
  obtain ⟨run, result, hrun, houtcome, hfull, hnone, hexit⟩ := exists_run
  obtain ⟨_, _, hsecond⟩ := runSyncJob_settles hrun houtcome hexit (by decide)
  obtain ⟨scan, walk, hscan, hwalk, serverCopy, rebuilt, left, hrebuilt, hanswered⟩ :=
    hsecond hfull
  have hwalk' : remoteInventoryScoped station root noRules ⟨.root⟩ unbounded 3 =
      some (.ok walk) := hwalk
  obtain rfl : walk = cleared :=
    Except.ok.inj (Option.some.inj (hwalk'.symm.trans inventory_cleared))
  exact ⟨run, result, scan, serverCopy, rebuilt, left, hrun, houtcome, hfull, hscan, hrebuilt,
    hnone ▸ hanswered⟩

end ClearedFolder

/-! ## A destination that is missing

The source is empty, and the folder it goes to is not on the NAS yet. The run creates it. -/

namespace MissingFolder

open Small

def root : RemoteRoot := ⟨path [name 's', name 'm'], by decide⟩

def tree : Scan.SourceTree :=
  { EmptiedFolder.tree with
    readDir := fun _ => .ok []
    distinct := by
      intro folder names h
      cases h
      exact .nil }

def before : FileStation where
  describe _ _ := none
  getInfo _ := .error (.api "SYNO.FileStation.List" "getinfo" 408 "")
  listing _ _ := ⟨fun _ => false, fun _ _ _ => .ok (some ⟨0, []⟩)⟩
  confirmSession _ := true
  cancelledAt _ := false
  cancelledBefore _ := false

def after : FileStation :=
  { before with
    getInfo := fun path => .ok (some [⟨absoluteText path, some "m".toList, some true, none,
      some ⟨none, none, none, some "/volume1/s/m".toList⟩⟩]) }

def settings : ResolvedSync := ⟨root, noRules, ⟨.root⟩, true, true, 10, .metadata, false, 1⟩

def missing : Walk := { Walk.start root.path with rootExists := false }

theorem inventory_missing : letI := charwise
    remoteInventoryScoped before root noRules ⟨.root⟩ unbounded 3 = some (.ok missing) := by
  let _ := charwise
  rfl

def real : List Char := "/volume1/s/m".toList

def begun : Walk :=
  ⟨true, .empty, true, [], [], 0, ⟨0, 0, 0, 0⟩, [], [real], [(root.path, some real)], []⟩

/-- What the second walk comes to. -/
def made : Walk := { begun with pending := [], listed := [(root.path, some real)] }

theorem list_root : after.list root.path = .ok ⟨[], true⟩ := by
  have hpass : listDirectoryPass after.describe (absoluteText root.path) listPageSize
      (after.listing root.path 0) = .ok ⟨[], 0, none⟩ := by
    rw [listDirectoryPass, passLoop]
    rfl
  rw [FileStation.list, listDirectory, hpass]
  rfl

theorem inventory_made : letI := charwise
    remoteInventoryScoped after root noRules ⟨.root⟩ unbounded 3 = some (.ok made) := by
  let _ := charwise
  have happroach : approachAll after root ⟨.root⟩ root.path root.path.prefixes
      ⟨Walk.start root.path, none⟩ = .ok (.go ⟨begun, some real⟩) := rfl
  have hfirst : walkFolder after root noRules root.path unbounded begun = .go made := by
    simp only [walkFolder, begun, list_root]
    rfl
  have hjoin : (root.join .root).mapError unsafePathError = .ok root.path := rfl
  simp only [remoteInventoryScoped, hjoin, happroach, Fuel.run, hfirst]
  rfl

theorem exists_carried : letI := charwise
    ∃ ready completion changes, propose settings.run (CalmRun.job tree before after).site =
        some (.ok ready) ∧
      carryOut settings (CalmRun.job tree before after) false ready =
        some ⟨some ready.plan, some ready.plan, some completion, .ok (), changes⟩ ∧
      ready.plan.isEmpty = false ∧ ready.plan.deleteCount = 0 ∧ changes ≠ [] ∧
      completion.deferred = [] :=
  @CalmRun.exists_carried charwise settings tree before after missing made 0
    (by decide +kernel) inventory_missing inventory_made

end MissingFolder

end DriveSync
