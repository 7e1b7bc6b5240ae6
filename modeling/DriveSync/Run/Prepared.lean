import DriveSync.Scan.Scanned
import DriveSync.Walk.Sealed
import DriveSync.Run.Changes
import DriveSync.Run.Compared

/-!
# DriveSync.Run.Prepared

A run from end to end: both sides are walked, a plan is made and narrowed, and it is carried out.
Whatever the file system, DSM and the operator answer, what the run asks the NAS to change stays
where it may.

* `exists_of_propose`, `planRun_ok`: what a run that is ready has been through.
* `prepared_executed_within`: where its changes lie.
* `prepared_executed_deletes`: what it deletes, and why.
* `prepare_names`: what it leaves out is named.
-/

namespace DriveSync

open Path Prog

section Prepared

variable [Unicode] {settings : RunSettings} {site : Site} {guard : SyncPlan → Except RunError Unit}
  {ready : Ready}

/-! ## What a run that is ready has been through -/

theorem withholdSpellingConflict_reduced {R : RemoteInventory} {folders : List RelPath}
    {L L' : LocalInventory} (h : withholdSpellingConflict settings site R L folders = .ok L') :
    L.Reduced L' := by
  induction folders with
  | nil =>
    cases h
    exact .refl L
  | cons folder rest ih =>
    cases folder with
    | root => exact ih h
    | child parent name =>
      simp only [withholdSpellingConflict] at h
      split at h
      · exact ih h
      · obtain ⟨folder, _, h⟩ := Loop.bind_eq_ok.mp h
        obtain ⟨⟨names, complete⟩, _, h⟩ := Loop.bind_eq_ok.mp h
        simp only at h
        split at h
        · cases h
          exact L.reduced_withhold _ _
        · split at h
          · cases h
            exact .refl L
          · cases h
            exact L.reduced_withhold _ _

theorem withholdScopeSpellingConflicts_reduced {R : RemoteInventory} {L L' : LocalInventory}
    (h : withholdScopeSpellingConflicts settings site R L = .ok L') : L.Reduced L' := by
  simp only [withholdScopeSpellingConflicts] at h
  split at h
  · cases h
    exact .refl L
  · exact withholdSpellingConflict_reduced h

theorem mem_of_withholdSpellingConflict {R : RemoteInventory} {folders : List RelPath}
    {L L' : LocalInventory} (h : withholdSpellingConflict settings site R L folders = .ok L')
    {x : LocalEntry} (hx : x ∈ L'.entries.values) : x ∈ L.entries.values := by
  induction folders with
  | nil =>
    cases h
    exact hx
  | cons folder rest ih =>
    cases folder with
    | root => exact ih h
    | child parent name =>
      simp only [withholdSpellingConflict] at h
      split at h
      · exact ih h
      · obtain ⟨folder, _, h⟩ := Loop.bind_eq_ok.mp h
        obtain ⟨⟨names, complete⟩, _, h⟩ := Loop.bind_eq_ok.mp h
        simp only at h
        split at h
        · cases h
          exact LocalInventory.mem_values_of_withhold hx
        · split at h
          · cases h
            exact hx
          · cases h
            exact LocalInventory.mem_values_of_withhold hx

theorem mem_of_withholdScopeSpellingConflicts {R : RemoteInventory} {L L' : LocalInventory}
    (h : withholdScopeSpellingConflicts settings site R L = .ok L') {x : LocalEntry}
    (hx : x ∈ L'.entries.values) : x ∈ L.entries.values := by
  simp only [withholdScopeSpellingConflicts] at h
  split at h
  · cases h
    exact hx
  · exact mem_of_withholdSpellingConflict h hx

omit [Unicode] in
theorem tagged_unprovedSpelling (parent : RelPath) (name : Name) :
    SkippedEntry.Tagged ⟨.child parent name, unprovedSpellingReason parent name⟩ := by
  refine .of_deferred .listingIncomplete (show _ = _ ++ ("the NAS listing of " ++
    (if parent = .root then "." else spelled parent).quote ++
    " was incomplete, so a differently spelled " ++ (String.ofList name.1).quote ++
    " there cannot be ruled out; nothing was created") from ?_)
  apply String.toList_inj.mp
  simp

theorem withholdSpellingConflict_tagged {R : RemoteInventory} {folders : List RelPath}
    {L L' : LocalInventory} (h : withholdSpellingConflict settings site R L folders = .ok L')
    (hsource : ∀ skip ∈ L.skipped, skip.Tagged) : ∀ skip ∈ L'.skipped, skip.Tagged := by
  induction folders with
  | nil =>
    cases h
    exact hsource
  | cons folder rest ih =>
    cases folder with
    | root => exact ih h
    | child parent name =>
      simp only [withholdSpellingConflict] at h
      split at h
      · exact ih h
      · obtain ⟨folder, _, h⟩ := Loop.bind_eq_ok.mp h
        obtain ⟨⟨names, complete⟩, _, h⟩ := Loop.bind_eq_ok.mp h
        simp only at h
        split at h
        · cases h
          intro skip hskip
          rcases LocalInventory.mem_skipped_withhold.mp hskip with rfl | hskip
          · exact .of_lasting (by simp)
          · exact hsource skip hskip
        · split at h
          · cases h
            exact hsource
          · cases h
            intro skip hskip
            rcases LocalInventory.mem_skipped_withhold.mp hskip with rfl | hskip
            · exact tagged_unprovedSpelling parent name
            · exact hsource skip hskip

theorem withholdScopeSpellingConflicts_tagged {R : RemoteInventory} {L L' : LocalInventory}
    (h : withholdScopeSpellingConflicts settings site R L = .ok L')
    (hsource : ∀ skip ∈ L.skipped, skip.Tagged) : ∀ skip ∈ L'.skipped, skip.Tagged := by
  simp only [withholdScopeSpellingConflicts] at h
  split at h
  · cases h
    exact hsource
  · exact withholdSpellingConflict_tagged h hsource

theorem exists_of_propose (h : propose settings site = some (.ok ready)) :
    ∃ scan serverCopy walk,
      Scan.scanScoped ⟨site.tree, settings.rules, settings.scope, false⟩ unbounded site.source =
        some (.ok scan) ∧
      remoteInventoryScoped site.station settings.root settings.rules settings.scope unbounded
        site.fuel = some (.ok walk) ∧
      planRun settings site serverCopy scan.inventory walk = .ok ready := by
  simp only [propose] at h
  split at h
  · cases h
  · split at h
    · cases h
    · cases h
    · rename_i scan hscan
      split at h
      · cases h
      · cases h
      · rename_i serverCopy _ _
        split at h
        · cases h
        · split at h
          · cases h
          · cases h
          · rename_i walk hwalk
            exact ⟨scan, serverCopy, walk, hscan, hwalk, Option.some.inj h⟩

theorem propose_of_prepare (h : prepare settings site guard = some (.ok ready)) :
    propose settings site = some (.ok ready) ∧ guard ready.plan = .ok () := by
  obtain ⟨proposed, hproposed, h⟩ := Option.map_eq_some_iff.mp h
  obtain ⟨_, rfl, hok⟩ := Loop.bind_eq_ok.mp h
  obtain ⟨_, hguard, hok⟩ := Loop.bind_eq_ok.mp hok
  obtain ⟨_, _, hok⟩ := Loop.bind_eq_ok.mp hok
  cases hok
  exact ⟨hproposed, hguard⟩

/-- The plan of a run was made from the two walks, and narrowed. -/
theorem planRun_ok {serverCopy : Bool} {L : LocalInventory} {walk : Walk}
    (h : planRun settings site serverCopy L walk = .ok ready) :
    ∃ (prepared : Prepared) (plan : SyncPlan), prepared.Of L ⟨walk.rootExists, walk.entries⟩ ∧
      buildPlan settings.root prepared.L prepared.R settings.rules
        (runPlanOptions settings serverCopy) = .ok plan ∧
      narrowPlan site walk prepared.R { plan with linkGuardUnchecked := walk.linkGuardUnchecked }
          (prepared.deferred ++ vanishedRemoteFolderDeferrals walk.vanishedDirectories) =
        .ok (ready.plan, ready.deferred) ∧
      ((∀ x ∈ L.entries.values, x.contentMd5 = none) →
        (∀ e ∈ walk.entries.values, e.contentMd5 = none) → prepared.Read site.digests) := by
  simp only [planRun, Loop.bind_eq_ok] at h
  obtain ⟨_, _, _, _, _, _, L', hscope, prepared, hprepared, plan, hplan, narrowed, hnarrowed, _, _,
    hready⟩ := h
  obtain rfl := Except.ok.inj hready
  have hof := populatePlanDigests_of hprepared
  have hreduced := withholdScopeSpellingConflicts_reduced hscope
  have htagged : (∀ skip ∈ L.skipped, skip.Tagged) → ∀ skip ∈ prepared.L.skipped, skip.Tagged :=
    fun hsource => hof.tagged (withholdScopeSpellingConflicts_tagged hscope hsource)
  exact ⟨prepared, plan, ⟨hreduced.trans hof.reduced, hof.rootExists, hof.alike, htagged⟩,
    Loop.mapError_eq_ok.mp hplan, hnarrowed, fun hmine htheirs =>
      read_of_populatePlanDigests hprepared
        (fun x hx => hmine x (mem_of_withholdScopeSpellingConflicts hscope hx)) htheirs⟩

/-! ## Where changes lie -/

/-- A place a run may change: it is beneath the destination, in the scope or on the way to it,
nothing at or above it was skipped in the source, and nothing at or above it is a mount point, a link
or a folder that cannot be listed. -/
structure Changeable (scope : Scope) (skipped : List SkippedEntry) (remote : RemoteMap)
    (p : RelPath) : Prop where
  beneath : p ≠ .root
  inScope : scope.Covers p ∨ AtOrUnder (portableFold p) (portableFold scope.path)
  unskipped : ∀ skip ∈ skipped, ¬AtOrUnder (portableFold skip.relative) (portableFold p)
  unmounted : ∀ e ∈ remote.values, e.mountPointType.isSome = true → ¬AtOrUnder e.relative p

variable {scan : Scan.ScopedScan} {walk : Walk} {prepared : Prepared} {options : PlanOptions}

omit [Unicode] in
theorem Prepared.Of.walked {L : LocalInventory} {R : RemoteInventory} (h : prepared.Of L R)
    {e : RemoteEntry} (he : e ∈ prepared.R.entries.values) :
    ∃ d ∈ R.entries.values, d.relative = e.relative ∧ d.remotePath = e.remotePath ∧
      d.kind = e.kind ∧ d.mountPointType = e.mountPointType := by
  obtain ⟨d, hd, hde⟩ := h.alike.of_get? (EntryMap.mem_values.mp he)
  simp only [RemoteEntry.undigested, RemoteEntry.mk.injEq] at hde
  exact ⟨d, EntryMap.mem_values_of_get? hd, hde.1, hde.2.1, hde.2.2.1, hde.2.2.2.2.2.1⟩

theorem Prepared.Of.located (h : prepared.Of scan.inventory ⟨walk.rootExists, walk.entries⟩)
    (hwalk : remoteInventoryScoped site.station settings.root settings.rules settings.scope
      unbounded site.fuel = some (.ok walk)) :
    (∀ e ∈ prepared.R.entries.values, e.remotePath = settings.root.path.append e.relative) ∧
      prepared.R.Sealed := by
  obtain ⟨hlocated, hpassable⟩ := passable_of_remoteInventoryScoped hwalk
  refine ⟨fun e he => ?_, fun e he a ha => ?_⟩
  · obtain ⟨d, hd, hrel, hpath, _⟩ := h.walked he
    rw [← hpath, ← hrel]
    exact hlocated d hd
  · obtain ⟨d, hd, hrel, _⟩ := h.walked he
    obtain ⟨c, hc, _, hmount, _⟩ := hpassable d hd a (hrel ▸ ha)
    obtain ⟨c', hc', hcc⟩ := h.alike.symm.of_get? hc
    simp only [RemoteEntry.undigested, RemoteEntry.mk.injEq] at hcc
    exact ⟨c', hc', hcc.2.2.2.2.2.1.trans hmount⟩

theorem covers_of_skip (root : RemoteRoot) {L : LocalInventory} (R : RemoteInventory)
    (rules : IgnoreRules) (options : PlanOptions) {skip : SkippedEntry} (hskip : skip ∈ L.skipped) {p : RelPath}
    (hat : AtOrUnder (portableFold skip.relative) (portableFold p)) :
    (planResolution root L R rules options).shield.covers p = true :=
  covers_resolve_of_blocked (covers_blocked_of_skip (List.mem_append_left _ hskip) hat)

theorem scope_of_mem (hscan : Scan.scanScoped ⟨site.tree, settings.rules, settings.scope, false⟩
      unbounded site.source = some (.ok scan)) {x : LocalEntry}
    (hx : x ∈ scan.inventory.entries.values) :
    settings.scope.matches x.relative = true ∨
      x.kind = .directory ∧ x.relative ∈ settings.scope.path.ancestors := by
  obtain ⟨folder, name, _, hread⟩ := Scan.came_of_scanScoped hscan hx
  obtain ⟨component, _, _, _, _, hscope, _, _, _, _, hentry⟩ := Scan.read_carry hread
  obtain ⟨hrel, _, _, _, hkind⟩ := Scan.readEntry_carry hentry
  rw [hrel]
  rcases hkind with ⟨_, hdir, _⟩ | ⟨_, _, _, _, _, hin⟩
  · refine hscope.imp id fun hway => ⟨hdir, ?_⟩
    simp only [Scan.isAncestorOfScope, Bool.and_eq_true, Bool.or_eq_true, decide_eq_true_eq,
      reduceCtorEq, false_or, List.contains_iff_mem] at hway
    exact hway.2
  · exact .inl hin

theorem undigested_of_scanScoped (hscan : Scan.scanScoped
      ⟨site.tree, settings.rules, settings.scope, false⟩ unbounded site.source = some (.ok scan)) :
    ∀ x ∈ scan.inventory.entries.values, x.contentMd5 = none := by
  intro x hx
  obtain ⟨folder, name, _, hread⟩ := Scan.came_of_scanScoped hscan hx
  obtain ⟨component, _, _, _, _, _, _, _, _, _, hentry⟩ := Scan.read_carry hread
  exact (Scan.readEntry_carry hentry).2.2.2.1

theorem Reaches.changeable {root : RemoteRoot} {rules : IgnoreRules} {p : RelPath}
    (hscan : Scan.scanScoped ⟨site.tree, settings.rules, settings.scope, false⟩ unbounded
      site.source = some (.ok scan))
    (hof : prepared.Of scan.inventory ⟨walk.rootExists, walk.entries⟩)
    (hoptions : options.scope = settings.scope)
    (h : Reaches prepared.L prepared.R options
      (planResolution root prepared.L prepared.R rules options) p) :
    Changeable settings.scope scan.inventory.skipped walk.entries p where
  beneath := h.beneath
  inScope := by
    rcases h.asked with hscope | ⟨x, hx, hat, hkind⟩
    · exact .inl (hoptions ▸ hscope)
    · obtain ⟨d, hd, hdx⟩ := LocalInventory.mem_values_of_reduced hof.reduced hx
      simp only [LocalEntry.undigested, LocalEntry.mk.injEq] at hdx
      rcases scope_of_mem hscan hd with hscope | ⟨hdir, hway⟩
      · rw [hdx.1] at hscope
        exact .inl ((Scope.covers_of_matches hscope).imp id fun h => h.trans hat)
      · rw [hdx.2.1] at hdir
        have hfold := hkind.resolve_left (by rw [hdir]; simp)
        rw [hdx.1] at hway
        have hbeneath : AtOrUnder x.relative settings.scope.path := .inr hway
        exact .inr (hfold ▸ hbeneath.map)
  unskipped skip hskip hat := by
    have hcov := covers_of_skip root prepared.R rules options (hof.reduced.skipped skip hskip) hat
    rw [h.unshielded] at hcov
    cases hcov
  unmounted e he hmounted := by
    obtain ⟨d, hd, hde⟩ := hof.alike.symm.of_get? (EntryMap.mem_values.mp he)
    simp only [RemoteEntry.undigested, RemoteEntry.mk.injEq] at hde
    have hfree := h.unmounted d (EntryMap.mem_values_of_get? hd)
      (by rw [hde.2.2.2.2.2.1]; exact hmounted)
    rwa [hde.1] at hfree

/-- Whatever the NAS answers, and however the run ends, every change a prepared run asks for is the
creation of the missing destination folder, or is made inside it where the run may change something:
not where the source was skipped, and not on a mount point. -/
theorem prepared_executed_within (h : prepare settings site guard = some (.ok ready)) :
    ∃ scan walk,
      Scan.scanScoped ⟨site.tree, settings.rules, settings.scope, false⟩ unbounded site.source =
        some (.ok scan) ∧
      remoteInventoryScoped site.station settings.root settings.rules settings.scope unbounded
        site.fuel = some (.ok walk) ∧
      ∀ (env : Env runInterface) (options : ExecuteOptions),
        ∀ m ∈ mutations (executed env ready.plan options).2.log,
          (m = .create settings.root.path ∧ walk.rootExists = false) ∨
            ∃ p, m.place = settings.root.path.append p ∧
              Changeable settings.scope scan.inventory.skipped walk.entries p := by
  obtain ⟨hproposed, _⟩ := propose_of_prepare h
  obtain ⟨scan, serverCopy, walk, hscan, hwalk, hrun⟩ := exists_of_propose hproposed
  refine ⟨scan, walk, hscan, hwalk, fun env options m hm => ?_⟩
  obtain ⟨prepared, plan, hof, hplan, hnarrow, _⟩ := planRun_ok hrun
  have hplanned := planned_of_buildPlan hplan
  have hnarrowed := narrowPlan_ok hnarrow
  obtain ⟨hlocated, hsealed⟩ := hof.located hwalk
  have hheld : m ∈ ready.plan.mutations := (mutations_executed env ready.plan options).subset hm
  rcases hplanned.reaches hlocated hsealed (hnarrowed.within.mutations m hheld) with
    ⟨hcreate, hmissing⟩ | ⟨p, hplace, hreaches⟩
  · exact .inl ⟨hcreate, hof.rootExists.symm.trans hmissing⟩
  · exact .inr ⟨p, hplace, hreaches.changeable hscan hof rfl⟩

/-! ## What is deleted -/

/-- A path that the source holds, with the folders on the way to it, is paired with no other. -/
theorem localRelative_of_held {root : RemoteRoot} {L : LocalInventory} {R : RemoteInventory}
    {rules : IgnoreRules} {p : RelPath} (held : ∀ a, AtOrUnder a p → a ∈ L.entries.keys) :
    (planResolution root L R rules options).pairs.localRelative p = p := by
  refine inherit_eq_self fun a ha => ?_
  cases hpair : (planResolution root L R rules options).pairs.toLocal[a]? with
  | none => rfl
  | some y =>
    exfalso
    rcases toLocal_resolve.mp hpair with hrename | hnfc
    · have hcase := (mem_renames.mp hrename).2.1
      have hsame := hcase.onlyLocal a (isLocalSpelling_of_mem_keys (held a ha)) hcase.fold_eq
      exact hcase.nfc_ne (by rw [hsame])
    · exact hnfc.notLocal (held a ha)

/-- The source holds a file where the NAS holds a folder, or a folder where it holds a file, and the
path is that or lies in it. -/
def Replaced (held : LocalMap) (remote : RemoteMap) (p : RelPath) : Prop :=
  ∃ x ∈ held.values, ∃ r ∈ remote.values, portableFold r.relative = portableFold x.relative ∧
    r.kind ≠ x.kind ∧ AtOrUnder r.relative p

variable (settings site) in
/-- The source does not hold an entry by this spelling: what a complete scan found listed there was
gone when it was read, or is excluded as what it is there. -/
def Unheld (scan : Scan.ScopedScan) (e : RemoteEntry) : Prop :=
  scan.complete = true → ∀ folder name,
    Scan.Listed ⟨site.tree, settings.rules, settings.scope, false⟩ folder name →
    folder.child name.shown = e.relative →
      (∃ failure, site.tree.metadata folder name = .error failure ∧ failure.kind = .notFound) ∨
        ∃ isDir, site.tree.fileType folder name = .ok isDir ∧
          isDir ≠ decide (e.kind = .directory) ∧ settings.rules.isIgnored e.relative isDir = true

theorem unheld_of_mirrored {root : RemoteRoot} (hscan : Scan.scanScoped
      ⟨site.tree, settings.rules, settings.scope, false⟩ unbounded site.source = some (.ok scan))
    (hof : prepared.Of scan.inventory ⟨walk.rootExists, walk.entries⟩)
    (hoptions : options.scope = settings.scope) {e : RemoteEntry}
    (hdel : MirrorDeletion prepared.L prepared.R settings.rules options
      (planResolution root prepared.L prepared.R settings.rules options) e) :
    Unheld settings site scan e := by
  intro hcomplete folder name hlisted hrel
  have hskipped : ∀ skip ∈ prepared.L.skipped, ¬AtOrUnder skip.relative e.relative := by
    intro skip hskip hat
    have hcov := covers_of_skip root prepared.R settings.rules options hskip hat.map
    rw [hdel.unshielded] at hcov
    cases hcov
  obtain ⟨hspelled, hscope⟩ : isProtectedAsSpelled e settings.rules = false ∧
      settings.scope.matches e.relative = true := by
    refine ⟨?_, hoptions ▸ hdel.inScope⟩
    by_contra hprotected
    have := hdel.unprotected
    rw [isProtected_of_isProtectedAsSpelled (by simpa using hprotected)] at this
    cases this
  simp only [isProtectedAsSpelled, Bool.or_eq_false_iff] at hspelled
  rcases Scan.accounted_of_scanScoped hscan hcomplete hlisted with
    ⟨x, _, hx⟩ | ⟨skip, hskip, hat⟩ | hpassed
  · -- a carried name is in the plan's inventory, and so are the folders above it
    exfalso
    rw [hrel] at hx
    have hkept : ∀ k d, scan.inventory.entries.get? k = some d → AtOrUnder k e.relative →
        k ∈ prepared.L.entries.keys := by
      intro k d hk hat
      cases hget : prepared.L.entries.get? k with
      | some d' => exact EntryMap.mem_keys.mpr ⟨d', hget⟩
      | none =>
        obtain ⟨skip, hskip, habove⟩ := hof.reduced.gone k d hk hget
        exact absurd (habove.trans hat) (hskipped skip hskip)
    have hheld : ∀ a, AtOrUnder a e.relative → a ∈ prepared.L.entries.keys := by
      intro a ha
      rcases ha with heq | hanc
      · exact hkept a x (heq ▸ hx) (.inl heq)
      · obtain ⟨d, hd, _⟩ := (Scan.kept_of_scanScoped hscan).1 x (EntryMap.mem_values_of_get? hx) a
          (EntryMap.relative_of_get? hx ▸ hanc)
        exact hkept a d hd (.inr hanc)
    obtain ⟨d, hd⟩ := EntryMap.mem_keys.mp (hheld e.relative (.inl rfl))
    have hnone := hdel.remoteOnly
    rw [Correspondence.localOf, localRelative_of_held hheld, hd] at hnone
    cases hnone
  · rw [hrel] at hat
    exact absurd hat (hskipped skip (hof.reduced.skipped skip hskip))
  · rw [Scan.PassedOver, hrel] at hpassed
    rcases hpassed with hmanaged | hout | ⟨isDir, htype, hignored⟩ | hgone
    · rw [hspelled.1.2] at hmanaged
      cases hmanaged
    · rw [hscope] at hout
      cases hout
    · refine .inr ⟨isDir, htype, fun hkind => ?_, hignored⟩
      have := IgnoreRules.excludesForDeletion_of_isIgnored hignored
      rw [hkind, hspelled.2] at this
      cases this
    · exact .inl hgone

/-- What a local entry of the plan replaces is replaced by what the scan found. -/
theorem replaced_of_mem {root : RemoteRoot} {rules : IgnoreRules} {x : LocalEntry}
    {e : RemoteEntry} (hof : prepared.Of scan.inventory ⟨walk.rootExists, walk.entries⟩)
    (hx : x ∈ prepared.L.entries.values)
    (he : e ∈ replacedBy prepared.R (planResolution root prepared.L prepared.R rules options) x) :
    Replaced scan.inventory.entries walk.entries e.relative := by
  obtain ⟨_, r, hr, hcase⟩ := mem_replacedBy.mp he
  have hfold : portableFold r.relative = portableFold x.relative := by
    rw [relative_of_remoteOf hr]
    exact fold_remoteRelative_resolve x.relative
  obtain ⟨y, hy, hyx⟩ := LocalInventory.mem_values_of_reduced hof.reduced hx
  simp only [LocalEntry.undigested, LocalEntry.mk.injEq] at hyx
  obtain ⟨s, hs, hsrel, _, hskind, _⟩ := hof.walked (EntryMap.mem_values_of_get? hr)
  refine ⟨y, hy, s, hs, by rw [hsrel, hyx.1, hfold], ?_, ?_⟩
  · rw [hskind, hyx.2.1]
    rcases hcase with ⟨hxk, hrk, _⟩ | ⟨hxk, hrk, _⟩
    · simp [hxk, hrk]
    · simp [hxk, hrk]
  · rw [hsrel]
    rcases hcase with ⟨_, _, rfl⟩ | ⟨_, _, hsub⟩
    · exact .inl rfl
    · exact (EntryMap.mem_subtree.mp hsub).2

omit [Unicode] in
theorem mem_deletes_of_mutations {plan : SyncPlan} {remotePath : RelPath}
    (h : .delete remotePath ∈ plan.mutations) : ∃ a ∈ plan.deletes, a.remotePath = remotePath := by
  simp only [SyncPlan.mutations, List.mem_append, List.mem_map, List.mem_flatMap] at h
  rcases h with ⟨a, ha, hm⟩ | ⟨a, _, hm⟩ | ⟨c, _, hm⟩ | ⟨u, _, hm⟩ | ⟨a, ha, hm⟩ | ⟨a, _, hm⟩ |
    ⟨a, _, hm⟩
  · exact ⟨a, List.mem_append_left _ ha, Mutation.delete.inj hm⟩
  · cases hm
  · simp only [CopyAction.mutations, List.mem_cons, List.not_mem_nil, or_false] at hm
    rcases hm with hm | hm <;> cases hm
  · cases hm
  · exact ⟨a, List.mem_append_right _ ha, Mutation.delete.inj hm⟩
  · cases hm
  · cases hm

/-- Whatever the NAS answers, a prepared run deletes only where deletions were asked for, and only an
entry its walk found, with nothing beneath it that the walk would not carry. The source holds an
entry of the other kind in its place, or does not hold it; and then no listing that was cut short
could have hidden what it holds. -/
theorem prepared_executed_deletes (h : prepare settings site guard = some (.ok ready)) :
    ∃ scan walk,
      Scan.scanScoped ⟨site.tree, settings.rules, settings.scope, false⟩ unbounded site.source =
        some (.ok scan) ∧
      remoteInventoryScoped site.station settings.root settings.rules settings.scope unbounded
        site.fuel = some (.ok walk) ∧
      ∀ (env : Env runInterface) (options : ExecuteOptions) (remotePath : RelPath),
        .delete remotePath ∈ mutations (executed env ready.plan options).2.log →
          settings.delete = true ∧ ∃ e ∈ walk.entries.values, e.remotePath = remotePath ∧
            (∀ skip ∈ walk.skipped, ¬AtOrUnder e.relative skip.parent) ∧
            (Replaced scan.inventory.entries walk.entries e.relative ∨
              (Unheld settings site scan e ∧ isProtectedAsSpelled e settings.rules = false ∧
                listingWithholds e.relative walk.incompleteDirectories = false)) := by
  obtain ⟨hproposed, _⟩ := propose_of_prepare h
  obtain ⟨scan, serverCopy, walk, hscan, hwalk, hrun⟩ := exists_of_propose hproposed
  refine ⟨scan, walk, hscan, hwalk, fun env options remotePath hm => ?_⟩
  obtain ⟨prepared, plan, hof, hplan, hnarrow, _⟩ := planRun_ok hrun
  have hplanned := planned_of_buildPlan hplan
  have hnarrowed := narrowPlan_ok hnarrow
  have hheld : .delete remotePath ∈ ready.plan.mutations :=
    (mutations_executed env ready.plan options).subset hm
  obtain ⟨a, ha, hpath⟩ := mem_deletes_of_mutations hheld
  have hfound : ∀ e ∈ prepared.R.entries.values, a.relative = e.relative →
      a.remotePath = e.remotePath → ∃ d ∈ walk.entries.values, d.remotePath = remotePath ∧
        d.relative = e.relative ∧ d.kind = e.kind ∧ d.mountPointType = e.mountPointType ∧
        ∀ skip ∈ walk.skipped, ¬AtOrUnder d.relative skip.parent := by
    intro e he hrel hsame
    obtain ⟨d, hd, hdrel, hdpath, hdkind, hdmount⟩ := hof.walked he
    refine ⟨d, hd, by rw [hdpath, ← hsame, hpath], hdrel, hdkind, hdmount, fun skip hskip hat => ?_⟩
    have hkept := List.find?_eq_none.mp (hnarrowed.spared a ha) (skip.reported site.escaped)
      (List.mem_map_of_mem hskip)
    rw [hdrel, ← hrel] at hat
    refine hkept ?_
    rw [Bool.or_eq_true, decide_eq_true_eq]
    exact .inl hat
  rcases List.mem_append.mp ha with hpre | hpost
  · obtain ⟨e, he, hrel, hsame, hdelete, x, hx, hreplaced⟩ :=
      hplanned.replaces (hnarrowed.within.pre hpre)
    obtain ⟨d, hd, hdpath, hdrel, _, _, hfree⟩ := hfound e he hrel hsame
    refine ⟨hdelete, d, hd, hdpath, hfree, .inl ?_⟩
    exact hdrel ▸ replaced_of_mem hof hx hreplaced
  · obtain ⟨e, he, hrel, hsame, hdel⟩ := hplanned.mirrors (hnarrowed.within.post hpost)
    obtain ⟨d, hd, hdpath, hdrel, hdkind, hdmount, hfree⟩ := hfound e he hrel hsame
    have hunprotected : isProtectedAsSpelled e settings.rules = false := by
      by_contra hprotected
      have := hdel.unprotected
      rw [isProtected_of_isProtectedAsSpelled (by simpa using hprotected)] at this
      cases this
    refine ⟨hdel.delete, d, hd, hdpath, hfree, .inr ⟨?_, ?_, ?_⟩⟩
    · have hunheld := unheld_of_mirrored hscan hof rfl hdel
      rw [Unheld, ← hdrel, ← hdkind] at hunheld
      exact hunheld
    · rw [isProtectedAsSpelled, hdrel, hdkind, hdmount]
      exact hunprotected
    · rw [hdrel, ← hrel]
      exact hnarrowed.listed a hpost

end Prepared

/-! ## A folder that was emptied

The source holds one folder with nothing in it; the NAS holds that folder with a file. -/

namespace EmptiedFolder

open Small

def tree : Scan.SourceTree where
  cancelledAt := fun _ => false
  readDir := fun folder => if folder = .root then .ok [.text (name 'd')] else .ok []
  distinct := by
    intro folder names h
    split at h
    · cases h
      decide
    · cases h
      decide
  cancelledBefore := fun _ _ => false
  fileType := fun _ _ => .ok true
  metadata := fun _ _ => .ok (Scan.Small.metadata true)
  fullPath := fun folder name => String.ofList (folder.child name.shown).render
  rootPath := "/source"

def digests : DigestSource where
  hash _ := .error .cancelled
  hashMd5 _ := .error .cancelled
  fingerprintApi := .ok ()
  md5Api := .ok ()
  fingerprint _ _ := .error .cancelled
  md5 _ := .error .cancelled
  sessionAnswers _ := true

def site : Site where
  source := Scan.Small.source
  tree := tree
  connect := .ok false
  station := NestedFolder.station
  fuel := 3
  listChildNames _ := .ok ([], true)
  digests := digests
  remoteEntryExists _ := .ok false
  hashFileSnapshot _ := .error .cancelled
  escaped _ := name 'x'
  checkpoint _ := .ok ()

def settings : RunSettings := ⟨root, noRules, ⟨.root⟩, true, true, 10, .metadata⟩

def file : RelPath := .child NestedFolder.dir (name 'x')

theorem inventory_nested : letI := charwise
    remoteInventoryScoped site.station root noRules ⟨.root⟩ unbounded site.fuel =
      some (.ok NestedFolder.second) := by
  let _ := charwise
  have happroach : approachAll NestedFolder.station root ⟨.root⟩ root.path root.path.prefixes
      ⟨Walk.start root.path, none⟩ = .ok (.go ⟨NestedFolder.begun, some NestedFolder.real⟩) := rfl
  have hfirst : walkFolder NestedFolder.station root noRules root.path unbounded
      NestedFolder.begun = .go NestedFolder.first := by
    simp only [walkFolder, NestedFolder.begun, NestedFolder.list_root]
    rfl
  have hsecond : walkFolder NestedFolder.station root noRules root.path unbounded
      NestedFolder.first = .go NestedFolder.second := by
    simp only [walkFolder, NestedFolder.first, NestedFolder.begun, NestedFolder.list_dir]
    rfl
  have hjoin : (root.join .root).mapError unsafePathError = .ok root.path := rfl
  simp only [remoteInventoryScoped, hjoin, site, happroach, Fuel.run, hfirst, hsecond]
  rfl

theorem exists_ready : letI := charwise
    ∃ ready, prepare settings site (fun _ => .ok ()) = some (.ok ready) ∧
      ready.plan.deletes.map (·.relative) = [file] := by
  let _ := charwise
  obtain ⟨scan, hscan, hplanned⟩ := Scan.exists_of_finished
    (x := Scan.scanScoped ⟨tree, noRules, ⟨.root⟩, false⟩ unbounded site.source)
    (p := fun scan => Loop.okAnd
      (planRun settings site false scan.inventory NestedFolder.second)
      fun ready => decide (ready.plan.deletes.map (·.relative) = [file])) (by decide +kernel)
  obtain ⟨ready, hready, hdeletes⟩ := Loop.exists_of_okAnd hplanned
  have hscan' : Scan.scanScoped ⟨site.tree, settings.rules, settings.scope, false⟩ unbounded
      site.source = some (.ok scan) := hscan
  have hwalk : remoteInventoryScoped site.station settings.root settings.rules settings.scope
      unbounded site.fuel = some (.ok NestedFolder.second) := inventory_nested
  refine ⟨ready, ?_, of_decide_eq_true hdeletes⟩
  have hproposed : propose settings site = some (.ok ready) := by
    rw [propose, hscan', hwalk]
    exact congrArg some hready
  rw [prepare, hproposed]
  rfl

/-- A run that is ready to delete the file changes only what is beneath the destination. -/
theorem within_ready : letI := charwise
    ∃ ready scan, prepare settings site (fun _ => .ok ()) = some (.ok ready) ∧
      Scan.scanScoped ⟨tree, noRules, ⟨.root⟩, false⟩ unbounded site.source = some (.ok scan) ∧
      ∀ env options, ∀ m ∈ mutations (executed env ready.plan options).2.log,
        ∃ p, m.place = root.path.append p ∧ p ≠ .root ∧
          Changeable settings.scope scan.inventory.skipped NestedFolder.second.entries p := by
  let _ := charwise
  obtain ⟨ready, hready, _⟩ := exists_ready
  obtain ⟨scan, walk, hscan, hwalk, hwithin⟩ := prepared_executed_within hready
  obtain rfl : walk = NestedFolder.second :=
    Except.ok.inj (Option.some.inj (hwalk.symm.trans inventory_nested))
  refine ⟨ready, scan, hready, hscan, fun env options m hm => ?_⟩
  rcases hwithin env options m hm with ⟨_, hmissing⟩ | ⟨p, hplace, hchangeable⟩
  · cases hmissing
  · exact ⟨p, hplace, hchangeable.beneath, hchangeable⟩

/-- What it deletes, the source does not hold. -/
theorem deletes_ready : letI := charwise
    ∃ ready scan, prepare settings site (fun _ => .ok ()) = some (.ok ready) ∧
      Scan.scanScoped ⟨tree, noRules, ⟨.root⟩, false⟩ unbounded site.source = some (.ok scan) ∧
      ∀ env options remotePath,
        .delete remotePath ∈ mutations (executed env ready.plan options).2.log →
          ∃ e, e.remotePath = remotePath ∧
            (Replaced scan.inventory.entries NestedFolder.second.entries e.relative ∨
              Unheld settings site scan e) := by
  let _ := charwise
  obtain ⟨ready, hready, _⟩ := exists_ready
  obtain ⟨scan, walk, hscan, hwalk, hdeletes⟩ := prepared_executed_deletes hready
  obtain rfl : walk = NestedFolder.second :=
    Except.ok.inj (Option.some.inj (hwalk.symm.trans inventory_nested))
  refine ⟨ready, scan, hready, hscan, fun env options remotePath hm => ?_⟩
  obtain ⟨_, e, _, hpath, _, hreplaced | ⟨hunheld, _⟩⟩ := hdeletes env options remotePath hm
  · exact ⟨e, hpath, .inl hreplaced⟩
  · exact ⟨e, hpath, .inr hunheld⟩

end EmptiedFolder

end DriveSync
