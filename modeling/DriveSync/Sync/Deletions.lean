import DriveSync.Lib.History
import DriveSync.Plan.Planned
import DriveSync.Sync.Verdict

/-!
# DriveSync.Sync.Deletions

Which folders a run deletes, once it has kept something. A deletion that is deferred, skipped or
refused is kept, and from then on no deletion of a folder above its entry is asked for.

* `Spares`: that, of a log.
* `Orderly`, `orderly_of_buildPlan`: what the deletions of a plan have to do with one another.
* `Past`: what holds between two deletions of a run.
* `wp_preDeleteOne`, `wp_postDeleteOne`: one turn keeps it.
* `executed_spares`: so does a run.
-/

namespace DriveSync

open Path Prog

/-- What says that a planned deletion is kept: a path at or above its own is left for the next run,
it is skipped, or it is refused. -/
inductive KeptBy (a : DeleteAction) : RunEntry → Prop where
  | deferred {f reason} (h : AtOrUnder f a.relative) : KeptBy a (.told (.pathDeferred f reason))
  | skipped {reason} :
      KeptBy a (.told (.remoteExtraDeleteSkipped a.remotePath a.relative reason))
  | refused {error} : KeptBy a (.asked (.deleteNonRecursive a.remotePath) (.error error))

/-- No deletion is asked for of a folder above an entry whose planned deletion is kept by then. -/
def Spares (deletes : List DeleteAction) : List RunEntry → Prop :=
  EachAfter fun before e => ∀ p reply, e = .asked (.deleteNonRecursive p) reply →
    ∀ a ∈ deletes, ∀ k ∈ before, KeptBy a k → p ∉ a.remotePath.ancestors

/-- Neither a deletion asked for nor one skipped. -/
def Aside : RunEntry → Prop
  | .asked (.deleteNonRecursive _) _ => False
  | .told (.remoteExtraDeleteSkipped _ _ _) => False
  | _ => True

variable {deletes : List DeleteAction} {log new : List RunEntry} {a b : DeleteAction}

theorem aside_of_quiet {e : RunEntry} (h : Quiet e) : Aside e := by
  cases e with
  | told event => cases h
  | asked call reply => cases call <;> trivial

theorem Spares.append_aside (h : Spares deletes log) (hnew : ∀ e ∈ new, Aside e) :
    Spares deletes (log ++ new) := by
  refine h.append (eachAfter_of_forall fun e he before p reply hasked => ?_)
  subst hasked
  exact (hnew _ he).elim

theorem Spares.asked (h : Spares deletes log) {p : RelPath} {reply : Except ExecError Unit}
    (hp : ∀ a ∈ deletes, ∀ k ∈ log, KeptBy a k → p ∉ a.remotePath.ancestors) :
    Spares deletes (log ++ [.asked (.deleteNonRecursive p) reply]) := by
  refine h.push fun q reply' hasked => ?_
  cases hasked
  exact hp

/-! ## The deletions of a plan -/

/-- What a plan's writes are read from, by the paths they are left by. -/
def SyncPlan.sources (plan : SyncPlan) : List RelPath :=
  plan.uploads.map (·.entry.relative) ++ plan.copies.map (·.toRelative)

/-- How the deletions of a plan lie to one another. -/
structure Orderly (plan : SyncPlan) : Prop where
  same : ∀ a ∈ plan.deletes, ∀ b ∈ plan.deletes, a.remotePath = b.remotePath →
    a.relative = b.relative
  above : ∀ a ∈ plan.deletes, ∀ b ∈ plan.deletes, b.remotePath ∈ a.remotePath.ancestors →
    b.relative ∈ a.relative.ancestors
  rooted : ∀ a ∈ plan.deletes, a.relative ≠ .root
  sourceless : ∀ b ∈ plan.preDeletes, ∀ a ∈ plan.deletes, b.relative ∈ a.relative.ancestors →
    ∀ f ∈ plan.sources, b.relative ∉ f.ancestors
  sorted : plan.preDeletes.Pairwise fun c b => ¬AtOrUnder c.relative b.relative

section Plan

variable [Unicode] {root : RemoteRoot} {L : LocalInventory} {R : RemoteInventory}
  {rules : IgnoreRules} {options : PlanOptions} {resolution : Resolution} {plan : SyncPlan}

theorem Planned.entry_of_mem_deletes (hp : Planned root L R rules options resolution plan)
    (ha : a ∈ plan.deletes) : ∃ e ∈ R.entries.values, a.relative = e.relative ∧
      a.remotePath = e.remotePath := by
  rcases List.mem_append.mp ha with ha | ha
  · obtain ⟨x, _, e, he, hae⟩ := (hp.mem_preDeletes a).mp ha
    obtain ⟨hrec, _⟩ := deletes_of_deleteAction hae
    exact ⟨e, mem_values_of_mem_replacedBy he, hrec.relative, hrec.remotePath⟩
  · obtain ⟨e, he, _, hrec, _⟩ := hp.mem_postDeletes a ha
    exact ⟨e, he, hrec.relative, hrec.remotePath⟩

theorem Planned.entry_of_mem_sources (hp : Planned root L R rules options resolution plan)
    {f : RelPath} (hf : f ∈ plan.sources) : ∃ x ∈ L.entries.values, x.relative = f := by
  obtain ⟨replaced, huploads, hcopies, hof⟩ := exists_replaced hp
  have hwanted : ∀ u ∈ wantedUploads root L R options resolution,
      ∃ x ∈ L.entries.values, x.relative = u.entry.relative := by
    intro u hu
    obtain ⟨x, hx, hxu⟩ := mem_wantedUploads.mp hu
    exact ⟨x, hx, by rw [(uploadOf_eq_some hxu).1]⟩
  rcases List.mem_append.mp hf with hf | hf
  · obtain ⟨u, hu, rfl⟩ := List.mem_map.mp hf
    obtain ⟨i, hi, _⟩ := (huploads u).mp hu
    exact hwanted u (List.mem_of_getElem? hi)
  · obtain ⟨c, hc, rfl⟩ := List.mem_map.mp hf
    obtain ⟨i, u, hi, hreplaced⟩ := (hcopies c).mp hc
    rw [(hof i u hi c hreplaced).toRelative]
    exact hwanted u (List.mem_of_getElem? hi)

variable (closed : L.entries.ParentClosed LocalEntry.kind) (distinct : L.entries.DistinctFolds)
  (walked : R.Walked root)

include walked in
theorem Planned.mem_ancestors_iff (hp : Planned root L R rules options resolution plan)
    (ha : a ∈ plan.deletes) (hb : b ∈ plan.deletes) :
    b.remotePath ∈ a.remotePath.ancestors ↔ b.relative ∈ a.relative.ancestors := by
  obtain ⟨e, he, hae, hap⟩ := hp.entry_of_mem_deletes ha
  obtain ⟨d, hd, hbd, hbp⟩ := hp.entry_of_mem_deletes hb
  rw [hap, hbp, hae, hbd, walked.located e he, walked.located d hd]
  exact mem_ancestors_append (EntryMap.relative_ne_root hd)

include closed distinct walked in
/-- Nothing is uploaded or copied to beneath a folder that is deleted first. -/
theorem Planned.sourceless
    (hp : Planned root L R rules options (planResolution root L R rules options) plan)
    (hb : b ∈ plan.preDeletes) (ha : a ∈ plan.deletes) (hab : b.relative ∈ a.relative.ancestors)
    {f : RelPath} (hf : f ∈ plan.sources) : b.relative ∉ f.ancestors := by
  obtain ⟨x, hx, e, he, heb⟩ := (hp.mem_preDeletes b).mp hb
  obtain ⟨d, hd, had, _⟩ := hp.entry_of_mem_deletes ha
  rw [(deletes_of_deleteAction heb).1.relative] at hab ⊢
  intro hef
  obtain ⟨y, hy, rfl⟩ := hp.entry_of_mem_sources hf
  obtain ⟨_, r, hr, ⟨_, hrk, rfl⟩ | ⟨hxk, _, hsub⟩⟩ := mem_replacedBy.mp he
  · -- a file has nothing beneath it
    rw [had] at hab
    obtain ⟨e', he', hek⟩ := walked.closed d hd e.relative hab
    rw [EntryMap.mem_values.mp (mem_values_of_mem_replacedBy he)] at he'
    obtain rfl := Option.some.inj he'
    rw [hrk] at hek
    cases hek
  · -- the file in the folder's place would have a local path beneath its own
    have hrx : portableFold r.relative = portableFold x.relative := by
      rw [relative_of_remoteOf hr]
      exact fold_remoteRelative_resolve x.relative
    have hxe : AtOrUnder (portableFold x.relative) (portableFold e.relative) :=
      hrx ▸ (EntryMap.mem_subtree.mp hsub).2.map
    have hey : portableFold e.relative ∈ (portableFold y.relative).ancestors :=
      mem_ancestors_map hef
    have hxy := eq_of_fold_beneath_file closed distinct hx hxk hy (hxe.trans (.inr hey))
    rw [hxy] at hey
    have hdepth := depth_lt_of_mem_ancestors hey
    rcases hxe with hxe | hxe
    · rw [hxe] at hdepth
      exact absurd hdepth (lt_irrefl _)
    · exact absurd (depth_lt_of_mem_ancestors hxe) (Nat.lt_asymm hdepth)

theorem Planned.pairwise_preDeletes (hp : Planned root L R rules options resolution plan) :
    plan.preDeletes.Pairwise fun c b => ¬AtOrUnder c.relative b.relative := by
  have hdistinct : plan.preDeletes.Pairwise fun c b => c.relative ≠ b.relative :=
    List.pairwise_map.mp hp.nodup_preDeletes
  refine (hp.sorted_preDeletes.and hdistinct).imp ?_
  rintro c b ⟨hdeep, hne⟩ (heq | hanc)
  · exact hne heq.symm
  · have hdepth := depth_lt_of_mem_ancestors hanc
    rcases hdeep with hdeep | hdeep <;> omega

include closed distinct walked in
theorem orderly_of_buildPlan (h : buildPlan root L R rules options = .ok plan) : Orderly plan := by
  have hp := planned_of_buildPlan h
  refine ⟨fun a ha b hb heq => ?_, fun a ha b hb => (hp.mem_ancestors_iff walked ha hb).mp,
    fun a ha => ?_, fun b hb a ha hab f hf => hp.sourceless closed distinct walked hb ha hab hf,
    hp.pairwise_preDeletes⟩
  · obtain ⟨e, he, hae, hap⟩ := hp.entry_of_mem_deletes ha
    obtain ⟨d, hd, hbd, hbp⟩ := hp.entry_of_mem_deletes hb
    rw [hap, hbp, walked.located e he, walked.located d hd] at heq
    rw [hae, hbd]
    exact append_injective _ heq
  · obtain ⟨e, he, hae, _⟩ := hp.entry_of_mem_deletes ha
    rw [hae]
    exact EntryMap.relative_ne_root he

end Plan

/-! ## Between two deletions -/

section Run

variable [Unicode] {α : Type} {env : Env runInterface} {w w' : World runInterface Run} {kept : KeptSet}
  {plan : SyncPlan}

/-- What holds between two deletions of a run. -/
structure Past (deletes : List DeleteAction) (kept : KeptSet) (w : World runInterface Run) : Prop where
  spares : Spares deletes w.log
  told : ∀ f reason, .told (.pathDeferred f reason) ∈ w.log → f ∈ w.state.deferrals.exact
  skipped : ∀ p relative reason,
    .told (.remoteExtraDeleteSkipped p relative reason) ∈ w.log → relative ∈ kept
  refused : ∀ p error, .asked (.deleteNonRecursive p) (.error error) ∈ w.log →
    ∃ c ∈ deletes, c.remotePath = p ∧ c.relative ∈ kept

theorem past_start : Past deletes kept ⟨[], .start⟩ :=
  ⟨eachAfter_nil, by simp, by simp, by simp⟩

theorem Past.did (h : Past deletes kept w) (hd : Did Aside w w') : Past deletes kept w' := by
  obtain ⟨new, hadds, hnew, _⟩ := hd
  have haside : ∀ e ∈ new, Aside e := fun e he => (hnew e he).elim aside_of_quiet id
  refine ⟨hadds.log ▸ h.spares.append_aside haside, fun f reason hmem => ?_,
    fun p relative reason hmem => ?_, fun p error hmem => ?_⟩
  · rw [hadds.log] at hmem
    rcases List.mem_append.mp hmem with hmem | hmem
    · exact (hadds.deferrals f).mpr (.inl (h.told f reason hmem))
    · exact (hadds.deferrals f).mpr (.inr ⟨reason, hmem⟩)
  · rw [hadds.log] at hmem
    rcases List.mem_append.mp hmem with hmem | hmem
    · exact h.skipped p relative reason hmem
    · exact (haside _ hmem).elim
  · rw [hadds.log] at hmem
    rcases List.mem_append.mp hmem with hmem | hmem
    · exact h.refused p error hmem
    · exact (haside _ hmem).elim

theorem Past.mono {kept' : KeptSet} (h : Past deletes kept w)
    (hkept : ∀ relative ∈ kept, relative ∈ kept') : Past deletes kept' w := by
  refine ⟨h.spares, h.told, fun p relative reason he => hkept _ (h.skipped p relative reason he),
    fun p error he => ?_⟩
  obtain ⟨c, hc, hcp, hck⟩ := h.refused p error he
  exact ⟨c, hc, hcp, hkept _ hck⟩

theorem Past.failed (h : Past deletes kept w) (hf : Failed Aside w w') : Spares deletes w'.log := by
  obtain ⟨new, hadds, hnew⟩ := hf
  rw [hadds.log]
  exact h.spares.append_aside fun e he => (hnew e he).elim aside_of_quiet id

/-- A kept deletion is one left for the next run, or one of those skipped. -/
theorem Past.keptBy (h : Past plan.deletes kept w) (horder : Orderly plan)
    (ha : a ∈ plan.deletes) {e : RunEntry} (he : e ∈ w.log) (hk : KeptBy a e) :
    (∃ f ∈ w.state.deferrals.exact, AtOrUnder f a.relative) ∨ a.relative ∈ kept := by
  cases hk with
  | deferred hf => exact .inl ⟨_, h.told _ _ he, hf⟩
  | skipped => exact .inr (h.skipped _ _ _ he)
  | refused =>
    obtain ⟨c, hc, hcp, hck⟩ := h.refused _ _ he
    rw [horder.same a ha c hc hcp.symm]
    exact .inr hck

theorem Past.asked {reply : Except ExecError Unit} (h : Past plan.deletes kept w)
    (hb : b ∈ plan.deletes)
    (hclear : ∀ a ∈ plan.deletes, ∀ e ∈ w.log, KeptBy a e → b.remotePath ∉ a.remotePath.ancestors)
    (hrefused : ∀ error, reply = .error error → b.relative ∈ kept) :
    Past plan.deletes kept (w.push (.asked (.deleteNonRecursive b.remotePath) reply)) := by
  refine ⟨h.spares.asked hclear, fun f reason he => h.told f reason ?_,
    fun p relative reason he => h.skipped p relative reason ?_, fun p error he => ?_⟩
  · simpa using he
  · simpa using he
  · rcases List.mem_append.mp he with he | he
    · exact h.refused p error he
    · cases List.mem_singleton.mp he
      exact ⟨b, hb, rfl, hrefused error rfl⟩

/-- What is reported beside deferrals, with what it adds to the report. -/
theorem Past.tell {completed : ExecutionReport} {event : ExecutionEvent} (h : Past deletes kept w)
    (hdeferred : ∀ f reason, event ≠ .pathDeferred f reason)
    (hskipped : ∀ p relative reason, event = .remoteExtraDeleteSkipped p relative reason →
      relative ∈ kept) :
    Past deletes kept ((w.put { w.state with completed := completed }).push (.told event)) := by
  have hmem : ∀ e, e ∈ ((w.put { w.state with completed := completed }).push (.told event)).log ↔
      e ∈ w.log ∨ e = .told event := by simp
  refine ⟨h.spares.push fun p reply hasked => ?_, fun f reason he => ?_,
    fun p relative reason he => ?_, fun p error he => ?_⟩
  · cases hasked
  · rcases (hmem _).mp he with he | he
    · exact h.told f reason he
    · exact absurd (Entry.told.inj he).symm (hdeferred f reason)
  · rcases (hmem _).mp he with he | he
    · exact h.skipped p relative reason he
    · exact hskipped p relative reason (Entry.told.inj he).symm
  · rcases (hmem _).mp he with he | he
    · exact h.refused p error he
    · cases he

theorem wp_defer_exact {relative : RelPath} {reason : DeferReason} {detail : String} :
    wp env (defer relative reason detail)
      (fun _ w' => Did (fun e => ∃ reason, e = .told (.pathDeferred relative reason)) w w' ∧
        ∀ f, f ∈ w'.state.deferrals.exact ↔ f ∈ w.state.deferrals.exact ∨ f = relative)
      (fun _ _ => False) w := by
  simp only [defer, wp_bind, wp_get]
  split
  · rename_i hmem
    refine ⟨.refl w, fun f => ⟨.inl, ?_⟩⟩
    rintro (hf | rfl)
    · exact hf
    · exact hmem
  · simp only [wp_bind, wp_modify, wp_report]
    refine ⟨⟨[.told (.pathDeferred relative reason)], ⟨rfl, fun p => ?_, ?_⟩, ?_, fun hc => ⟨hc, ?_⟩⟩,
      fun f => DeferralIndex.mem_insert⟩
    · simp [eq_comm]
    · simp [Summary.absorbEntry, Summary.absorb, ExecutionReport.summary]
    · simp
    · simp [Fatal]

theorem Past.defer {relative : RelPath} {reason : DeferReason} {detail : String}
    (h : Past deletes kept w) :
    wp env (defer relative reason detail) (fun _ => Past deletes kept) (fun _ _ => False) w := by
  refine wp_mono wp_defer_exact (fun _ w' hd => h.did (hd.1.mono ?_)) fun _ _ h => h
  rintro _ ⟨reason, rfl⟩
  trivial

theorem exact_of_reads (h : Did (fun _ => False) w w') {f : RelPath} :
    f ∈ w'.state.deferrals.exact ↔ f ∈ w.state.deferrals.exact := by
  obtain ⟨new, hadds, hquiet, _⟩ := h
  rw [hadds.deferrals, or_iff_left_iff_imp]
  rintro ⟨reason, hmem⟩
  exact ((hquiet _ hmem).elim id id).elim

theorem related_of_reads (h : Did (fun _ => False) w w') {p : RelPath} (hp : p ≠ .root)
    (hrelated : w.state.deferrals.spellingRelated p = none) :
    w'.state.deferrals.spellingRelated p = none := by
  rw [← Option.not_isSome_iff_eq_none, DeferralIndex.spellingRelated_isSome hp] at hrelated ⊢
  rintro ⟨f, hf, hfp⟩
  exact hrelated ⟨f, (exact_of_reads h).mp hf, hfp⟩

/-! ## Deletions that come first -/

/-- What holds after the first deletions of `done`, with those kept so far. What was left before them
is a source. -/
structure First (plan : SyncPlan) (sources : DeferralIndex)
    (done : List (DeleteAction × SnapshotVerdict)) (kept : KeptSet) (w : World runInterface Run) :
    Prop where
  past : Past plan.deletes ∅ w
  left : ∀ f ∈ w.state.deferrals.exact,
    f ∈ sources.exact ∨ f ∈ kept ∧ ∃ c ∈ done, c.1.relative = f

variable {sources : DeferralIndex} {done : List (DeleteAction × SnapshotVerdict)}
  {planned : DeleteAction × SnapshotVerdict}

theorem First.reads (h : First plan sources done kept w) (hd : Did (fun _ => False) w w') :
    First plan sources done kept w' :=
  ⟨h.past.did (hd.mono fun _ => False.elim), fun f hf => h.left f ((exact_of_reads hd).mp hf)⟩

omit [Unicode] in
theorem exists_mem_append {f : RelPath} (h : ∃ c ∈ done, c.1.relative = f) :
    ∃ c ∈ done ++ [planned], c.1.relative = f := by
  obtain ⟨c, hc, hcf⟩ := h
  exact ⟨c, List.mem_append_left _ hc, hcf⟩

theorem First.clear (h : First plan sources done kept w) (horder : Orderly plan)
    (hsources : ∀ f ∈ sources.exact, f ∈ plan.sources) (hb : b ∈ plan.preDeletes)
    (huncovered : (sources.covering b.relative).isNone = true)
    (hdone : ∀ c ∈ done, ¬AtOrUnder c.1.relative b.relative)
    (hkept : keptDescendant kept b.relative = false) :
    ∀ a ∈ plan.deletes, ∀ e ∈ w.log, KeptBy a e → b.remotePath ∉ a.remotePath.ancestors := by
  intro a ha e he hk hanc
  have hba := horder.above a ha b (List.mem_append_left _ hb) hanc
  rcases h.past.keptBy horder ha he hk with ⟨f, hf, hfa⟩ | hskipped
  · have hcases := atOrUnder_or_mem_ancestors hfa (.inr hba)
    rcases h.left f hf with hsource | ⟨hfk, c, hc, rfl⟩
    · -- left before the deletions began: its source is planned
      rcases hcases with hfb | hbf
      · have hcovers := DeferralIndex.covering_isSome.mpr ⟨f, hsource, hfb⟩
        rw [← Option.not_isSome, hcovers] at huncovered
        cases huncovered
      · exact horder.sourceless b hb a ha hba f (hsources f hsource) hbf
    · -- kept by one of the turns before
      rcases hcases with hfb | hbf
      · exact hdone c hc hfb
      · have hfound := (DeferralIndex.find?_beneath kept b.relative).mpr ⟨c.1.relative, hfk, hbf⟩
        rw [keptDescendant, hfound] at hkept
        cases hkept
  · simp at hskipped

theorem wp_preDeleteChanged {verdict : SnapshotVerdict} :
    wp env (preDeleteChanged kept a verdict)
      (fun changed w' => Did (fun _ => False) w w' ∧
        (changed = false → keptDescendant kept a.relative = false))
      (fun _ w' => Failed (fun _ => False) w w') w := by
  have hreads : wp env (preDeleteChanged kept a verdict) (fun _ w' => Did (fun _ => False) w w')
      (fun _ w' => Failed (fun _ => False) w w') w := does_preDeleteChanged env w
  by_cases hkept : keptDescendant kept a.relative = true
  · simp only [preDeleteChanged, hkept, Bool.or_true, if_true] at hreads ⊢
    exact ⟨hreads, fun h => (by cases h)⟩
  · exact wp_mono hreads (fun _ _ h => ⟨h, fun _ => by simpa using hkept⟩) fun _ _ h => h

theorem First.keep (h : First plan sources done kept w)
    (hd : Did (fun e => ∃ reason, e = .told (.pathDeferred planned.1.relative reason)) w w')
    (hexact : ∀ f, f ∈ w'.state.deferrals.exact ↔
      f ∈ w.state.deferrals.exact ∨ f = planned.1.relative) :
    First plan sources (done ++ [planned]) (kept.insert planned.1.relative ()) w' := by
  refine ⟨h.past.did (hd.mono ?_), fun f hf => ?_⟩
  · rintro _ ⟨reason, rfl⟩
    trivial
  · rw [Std.TreeMap.mem_insert, compare_eq_iff_eq]
    rcases (hexact f).mp hf with hf | rfl
    · exact (h.left f hf).imp id fun hk => ⟨.inr hk.1, exists_mem_append hk.2⟩
    · exact .inr ⟨.inl rfl, planned, by simp, rfl⟩

theorem wp_preDeleteOne (h : First plan sources done kept w) (horder : Orderly plan)
    (hsources : ∀ f ∈ sources.exact, f ∈ plan.sources)
    (hb : planned.1 ∈ plan.preDeletes)
    (huncovered : (sources.covering planned.1.relative).isNone = true)
    (hdone : ∀ c ∈ done, ¬AtOrUnder c.1.relative planned.1.relative) :
    wp env (preDeleteOne kept planned) (First plan sources (done ++ [planned]))
      (fun _ w' => Spares plan.deletes w'.log) w := by
  obtain ⟨b, verdict⟩ := planned
  have hcancelled : wp env checkCancelled (fun _ w' => Did (fun _ => False) w w')
      (fun _ w' => Failed (fun _ => False) w w') w := does_checkCancelled env w
  simp only [preDeleteOne, wp_bind]
  refine wp_mono hcancelled (fun _ w₁ h₁ => ?_) fun _ _ h₁ =>
    h.past.failed (h₁.mono fun _ => False.elim)
  replace h := h.reads h₁
  refine wp_mono wp_preDeleteChanged (fun changed w₂ h₂ => ?_) fun _ _ h₂ =>
    h.past.failed (h₂.mono fun _ => False.elim)
  obtain ⟨hreads, hkept⟩ := h₂
  replace h := h.reads hreads
  cases changed with
  | true =>
    simp only [if_true, wp_bind]
    refine wp_mono wp_defer_exact (fun _ w₃ h₃ => ?_) fun _ _ h₃ => h₃.elim
    exact h.keep h₃.1 h₃.2
  | false =>
    have hclear := h.clear horder hsources hb huncovered hdone (hkept rfl)
    simp only [Bool.false_eq_true, if_false, wp_bind, wp_request]
    cases env w₂.log (.deleteNonRecursive b.remotePath) with
    | error error => exact h.past.spares.asked hclear
    | ok _ =>
      simp only [wp_lift_ok, wp_count, wp_report, wp_pure]
      have hpast : Past plan.deletes ∅
          (w₂.push (.asked (.deleteNonRecursive b.remotePath) (.ok ()))) :=
        h.past.asked (List.mem_append_left _ hb) hclear (by simp)
      exact ⟨hpast.tell (by simp) (by simp),
        fun f hf => (h.left f hf).imp id fun hk => ⟨hk.1, exists_mem_append hk.2⟩⟩

theorem wp_preDeletePhase (h : Past plan.deletes ∅ w) (horder : Orderly plan)
    (hsources : ∀ f ∈ w.state.deferrals.exact, f ∈ plan.sources) :
    wp env (preDeletePhase plan) (fun _ => Past plan.deletes ∅)
      (fun _ w' => Spares plan.deletes w'.log) w := by
  have hstart : First plan w.state.deferrals [] ∅ w := ⟨h, fun f hf => .inl hf⟩
  simp only [preDeletePhase, wp_bind, wp_get, wp_request]
  generalize hfirst : (plan.preDeletes.filter fun action =>
    (w.state.deferrals.covering action.relative).isNone) = first
  cases hreply : env w.log
      (.verifyRemoteSnapshotBatch plan.scope plan.rules (first.map deleteSnapshotCheck)) with
  | error error => exact h.failed (failed_asked (.inl rfl))
  | ok verdicts =>
    have hall : (first.zip verdicts.list).map (·.1) = first :=
      List.map_fst_zip (by rw [verdicts.length_eq, List.length_map])
    have hsorted : first.Pairwise fun c b => ¬AtOrUnder c.relative b.relative := by
      rw [← hfirst]
      exact horder.sorted.filter _
    have hloop : wp env ((first.zip verdicts.list).foldlM preDeleteOne ∅)
        (First plan w.state.deferrals (first.zip verdicts.list))
        (fun _ w' => Spares plan.deletes w'.log)
        (w.push (.asked (.verifyRemoteSnapshotBatch plan.scope plan.rules
          (first.map deleteSnapshotCheck)) (.ok verdicts))) := by
      refine wp_foldlM _ (hstart.reads (did_asked (.inl rfl) rfl)) ?_
      intro done planned rest kept w₁ hl h₁
      rw [hl, List.map_append, List.map_cons] at hall
      have hmem : planned.1 ∈ first := by rw [← hall]; simp
      rw [← hfirst] at hmem
      obtain ⟨hb, huncovered⟩ := List.mem_filter.mp hmem
      refine wp_preDeleteOne h₁ horder hsources hb huncovered fun c hc => ?_
      rw [← hall] at hsorted
      exact (List.pairwise_append.mp hsorted).2.2 c.1 (List.mem_map_of_mem hc) planned.1 (.head _)
    rw [wp_lift_ok]
    exact wp_mono hloop (fun _ _ h' => h'.past) fun _ _ h' => h'

/-! ## Mirror deletions -/

/-- A folder without a deferral near it and without a kept deletion beneath it is above nothing that
is kept. -/
theorem Past.clear (h : Past plan.deletes kept w) (horder : Orderly plan)
    (hb : b ∈ plan.deletes) (hkept : keptDescendant kept b.relative = false)
    (hrelated : w.state.deferrals.spellingRelated b.relative = none) :
    ∀ a ∈ plan.deletes, ∀ e ∈ w.log, KeptBy a e → b.remotePath ∉ a.remotePath.ancestors := by
  intro a ha e he hk hanc
  have hba := horder.above a ha b hb hanc
  rcases h.keptBy horder ha he hk with ⟨f, hf, hfa⟩ | hak
  · have hfound := (DeferralIndex.spellingRelated_isSome (horder.rooted b hb)).mpr ⟨f, hf,
      (atOrUnder_or_mem_ancestors hfa (.inr hba)).imp AtOrUnder.map mem_ancestors_map⟩
    rw [hrelated] at hfound
    cases hfound
  · have hfound := (DeferralIndex.find?_beneath kept b.relative).mpr ⟨a.relative, hak, hba⟩
    rw [keptDescendant, hfound] at hkept
    cases hkept

/-- A deletion goes ahead only where nothing beneath it was kept and no deferral is near it. -/
theorem wp_deleteRuling {changed : Bool} :
    wp env (deleteRuling kept a changed)
      (fun ruling w' => Did (fun _ => False) w w' ∧
        (ruling = .proceed → keptDescendant kept a.relative = false ∧
          w.state.deferrals.spellingRelated a.relative = none))
      (fun _ w' => Failed (fun _ => False) w w') w := by
  have hreads : wp env (deleteRuling kept a changed) (fun _ w' => Did (fun _ => False) w w')
      (fun _ w' => Failed (fun _ => False) w w') w := does_deleteRuling env w
  by_cases hkept : keptDescendant kept a.relative = true
  · simp only [deleteRuling, hkept, if_true] at hreads ⊢
    exact ⟨hreads, fun h => (by cases h)⟩
  · rw [Bool.not_eq_true] at hkept
    cases hrelated : w.state.deferrals.spellingRelated a.relative with
    | some found =>
      simp only [deleteRuling, hkept, Bool.false_eq_true, if_false, wp_bind, wp_get, hrelated]
        at hreads ⊢
      exact ⟨hreads, fun h => (by cases h)⟩
    | none => exact wp_mono hreads (fun _ _ h => ⟨h, fun _ => ⟨hkept, rfl⟩⟩) fun _ _ h => h

omit [Unicode] in
theorem mem_keep {kept : Kept} {p r : RelPath} :
    r ∈ (kept.keep p).relatives ↔ p = r ∨ r ∈ kept.relatives := by
  rw [Kept.keep, Std.TreeMap.mem_insert, compare_eq_iff_eq]

theorem wp_postDelete {kept : Kept} (h : Past plan.deletes kept.relatives w) (hb : b ∈ plan.deletes)
    (hclear : ∀ a ∈ plan.deletes, ∀ e ∈ w.log, KeptBy a e →
      b.remotePath ∉ a.remotePath.ancestors) :
    wp env (postDelete kept b) (fun kept' => Past plan.deletes kept'.relatives)
      (fun _ w' => Spares plan.deletes w'.log) w := by
  simp only [postDelete, wp_bind, wp_request]
  cases env w.log (.deleteNonRecursive b.remotePath) with
  | ok _ =>
    have hasked : Past plan.deletes kept.relatives
        (w.push (.asked (.deleteNonRecursive b.remotePath) (.ok ()))) :=
      h.asked hb hclear (by simp)
    simp only [wp_bind, wp_count, wp_report, wp_pure]
    exact hasked.tell (by simp) (by simp)
  | error error =>
    have hasked : Past plan.deletes (kept.keep b.relative).relatives
        (w.push (.asked (.deleteNonRecursive b.remotePath) (.error error))) :=
      (h.mono fun _ hr => mem_keep.mpr (.inr hr)).asked hb hclear
        fun _ _ => mem_keep.mpr (.inl rfl)
    simp only [wp_bind]
    refine wp_mono hasked.defer (fun _ w₁ h₁ => ?_) fun _ _ h₁ => h₁.elim
    split
    · exact h₁.spares
    · exact h₁

theorem wp_postDeleteOne {kept : Kept} (h : Past plan.deletes kept.relatives w)
    (horder : Orderly plan) {planned : DeleteAction × Bool} (hb : planned.1 ∈ plan.deletes) :
    wp env (postDeleteOne kept planned) (fun kept' => Past plan.deletes kept'.relatives)
      (fun _ w' => Spares plan.deletes w'.log) w := by
  obtain ⟨b, changed⟩ := planned
  have hcancelled : wp env checkCancelled (fun _ w' => Did (fun _ => False) w w')
      (fun _ w' => Failed (fun _ => False) w w') w := does_checkCancelled env w
  simp only [postDeleteOne, wp_bind]
  refine wp_mono hcancelled (fun _ w₁ h₁ => ?_) fun _ _ h₁ =>
    h.failed (h₁.mono fun _ => False.elim)
  replace h := h.did (h₁.mono fun _ => False.elim)
  refine wp_mono wp_deleteRuling (fun ruling w₂ h₂ => ?_) fun _ _ h₂ =>
    h.failed (h₂.mono fun _ => False.elim)
  obtain ⟨hreads, hproceed⟩ := h₂
  replace h := h.did (hreads.mono fun _ => False.elim)
  have hkeep : Past plan.deletes (kept.keep b.relative).relatives w₂ :=
    h.mono fun _ hr => mem_keep.mpr (.inr hr)
  have hhere : b.relative ∈ (kept.keep b.relative).relatives := mem_keep.mpr (.inl rfl)
  cases ruling with
  | keptDescendant =>
    simp only [skipDelete, wp_bind, wp_count, wp_report, wp_pure]
    exact hkeep.tell (by simp) (by rintro _ _ _ ⟨⟩; exact hhere)
  | related other reason =>
    simp only [wp_bind, wp_pure]
    exact wp_mono hkeep.defer (fun _ _ h => h) fun _ _ h => h.elim
  | present spelling =>
    simp only [skipDelete, wp_bind, wp_count, wp_report, wp_pure]
    exact hkeep.tell (by simp) (by rintro _ _ _ ⟨⟩; exact hhere)
  | deferred reason detail =>
    simp only [wp_bind, wp_pure]
    exact wp_mono hkeep.defer (fun _ _ h => h) fun _ _ h => h.elim
  | proceed =>
    obtain ⟨hnone, hrelated⟩ := hproceed rfl
    exact wp_postDelete h hb
      (h.clear horder hb hnone (related_of_reads hreads (horder.rooted b hb) hrelated))

theorem wp_postDeletePhase (h : Past plan.deletes ∅ w) (horder : Orderly plan) :
    wp env (postDeletePhase plan) (fun kept => Past plan.deletes kept.relatives)
      (fun _ w' => Spares plan.deletes w'.log) w := by
  have hjudge : wp env (judgeDeletes plan) (fun _ w' => Did Aside w w')
      (fun _ w' => Failed Aside w w') w := does_judgeDeletes env w
  rw [postDeletePhase, wp_bind]
  refine wp_mono (wp_and hjudge (returns_judgeDeletes env w)) (fun deletes w₁ h₁ => ?_)
    fun _ _ h₁ => h.failed h₁.1
  apply wp_foldlM deletes
  · exact h.did h₁.1
  · intro done planned rest kept w₂ hl h₂
    refine wp_postDeleteOne h₂ horder (List.mem_append_right _ ?_)
    rw [← h₁.2, hl]
    simp

/-! ## A whole run -/

theorem wp_preflight (h : Past deletes ∅ w) (hstart : ∀ f, f ∉ w.state.deferrals.exact) :
    wp env (preflight plan) (fun _ w' => Past deletes ∅ w' ∧
        ∀ f ∈ w'.state.deferrals.exact, f ∈ plan.sources)
      (fun _ w' => Spares deletes w'.log) w := by
  let acts : RunEntry → Prop := fun e => ∃ f ∈ plan.sources, ∃ reason,
    e = .told (.pathDeferred f reason)
  have haside : ∀ e, acts e → Aside e := by
    rintro _ ⟨f, _, reason, rfl⟩
    trivial
  have hdoes : Does acts (preflight plan) := by
    refine does_preflight (fun a ha reason => ⟨_, ?_, reason, rfl⟩)
      fun a ha reason => ⟨_, ?_, reason, rfl⟩
    · exact List.mem_append_left _ (List.mem_map_of_mem ha)
    · exact List.mem_append_right _ (List.mem_map_of_mem ha)
  refine wp_mono (hdoes env w) (fun _ w' hd => ⟨h.did (hd.mono haside), fun f hf => ?_⟩)
    fun _ w' hf => h.failed (hf.mono haside)
  obtain ⟨new, hadds, hacts, _⟩ := hd
  rcases (hadds.deferrals f).mp hf with hf | ⟨reason, hmem⟩
  · exact absurd hf (hstart f)
  · rcases hacts _ hmem with hquiet | ⟨g, hg, _, heq⟩
    · exact hquiet.elim
    · cases heq
      exact hg

theorem plannedActs_aside {deferrals : DeferralIndex} : PlannedActs Aside deferrals plan where
  creates _ _ _ := ⟨fun _ => trivial, trivial, fun _ => trivial⟩
  copies _ _ _ := ⟨fun _ => trivial, trivial, fun _ => trivial, trivial, fun _ => trivial⟩
  uploads _ _ _ := ⟨fun _ => trivial, trivial, fun _ => trivial⟩

theorem wp_writePhases (horder : Orderly plan) {jobs : Nat} :
    wp env (writePhases plan jobs) (fun _ => Past plan.deletes ∅)
      (fun _ w' => Spares plan.deletes w'.log) ⟨[], .start⟩ := by
  simp only [writePhases, wp_bind]
  refine wp_mono (wp_preflight past_start (by simp [Run.start])) (fun _ w₁ h₁ => ?_) fun _ _ h₁ => h₁
  refine wp_mono (wp_preDeletePhase h₁.1 horder h₁.2) (fun _ w₂ h₂ => ?_) fun _ _ h₂ => h₂
  refine wp_mono (wp_plannedWrites plannedActs_aside) (fun _ w₃ h₃ => ?_) fun _ _ h₃ => h₂.failed h₃
  replace h₂ := h₂.did h₃
  exact wp_mono (does_checkCancelled env w₃) (fun _ _ h₄ => h₂.did h₄) fun _ _ h₄ => h₂.failed h₄

theorem wp_deletePhases (h : Past plan.deletes ∅ w) (horder : Orderly plan) :
    wp env (deletePhases plan) (fun _ w' => Spares plan.deletes w'.log)
      (fun _ w' => Spares plan.deletes w'.log) w := by
  simp only [deletePhases, wp_bind]
  refine wp_mono (wp_postDeletePhase h horder) (fun kept w₁ h₁ => ?_) fun _ _ h₁ => h₁
  have hfollow : Does Aside (followUpPhase plan kept) :=
    takes_forM _ fun _ _ => does_followUpOne (fun _ _ => ⟨fun _ _ => trivial, fun _ => trivial⟩)
      fun _ => trivial
  have hrenames : Does Aside (executeRenames plan) :=
    does_executeRenames fun _ _ => ⟨fun _ => trivial, fun _ => trivial, fun _ => trivial⟩
  refine wp_mono (hfollow env w₁) (fun _ w₂ h₂ => ?_) fun _ _ h₂ => h₁.failed h₂
  replace h₁ := h₁.did h₂
  exact wp_mono (hrenames env w₂) (fun _ _ h₃ => (h₁.did h₃).spares) fun _ _ h₃ => h₁.failed h₃

/-- No run deletes a folder above an entry whose deletion it has kept. -/
theorem executed_spares {root : RemoteRoot} {L : LocalInventory} {R : RemoteInventory}
    {rules : IgnoreRules} {options : PlanOptions}
    (closed : L.entries.ParentClosed LocalEntry.kind) (distinct : L.entries.DistinctFolds)
    (walked : R.Walked root) (h : buildPlan root L R rules options = .ok plan)
    (env : Env runInterface) (executeOptions : ExecuteOptions) :
    Spares plan.deletes (executed env plan executeOptions).2.log := by
  have horder := orderly_of_buildPlan closed distinct walked h
  cases hdry : executeOptions.dryRun with
  | true =>
    unfold executed execute
    rw [hdry]
    exact eachAfter_nil
  | false =>
    have hrun : wp env (execute plan executeOptions) (fun _ w' => Spares plan.deletes w'.log)
        (fun _ w' => Spares plan.deletes w'.log) ⟨[], .start⟩ := by
      simp only [execute, hdry, Bool.false_eq_true, if_false, wp_bind]
      exact wp_mono (wp_writePhases horder) (fun _ _ h₁ => wp_deletePhases h₁ horder) fun _ _ h₁ => h₁
    exact of_wp hrun

end Run

/-! ## A folder kept for its file -/

namespace KeptFile

open Small

def folder : RelPath := path [name 'd']

def file : RelPath := .child folder (name 'x')

def remoteSide : RemoteInventory := remotes [remoteFolder folder, remoteFile file 1]

/-- The file is back in the source when its deletion comes up. -/
def answers : Env runInterface := fun log call =>
  match call with
  | .localPresence relative => .ok (.present relative)
  | call => GoneSource.answers (.ok ()) log call

/-- The file's deletion is skipped, and its folder's with it. -/
theorem executed_spares_present :
    letI := charwise
    ∃ plan, buildPlan root (locals []) remoteSide noRules mirror = .ok plan ∧
      (plan.deletes.map (·.relative) = [file, folder] ∧
        (events (executed answers plan ⟨1, false⟩).2.log).take 2 =
          [.remoteExtraDeleteSkipped (root.path.append file) file .localPathExists,
            .remoteExtraDeleteSkipped (root.path.append folder) folder .keptDescendant]) ∧
      Spares plan.deletes (executed answers plan ⟨1, false⟩).2.log := by
  let := charwise
  obtain ⟨plan, hplan, hrun⟩ := Loop.exists_of_okAnd
    (x := buildPlan root (locals []) remoteSide noRules mirror)
    (p := fun plan => decide (plan.deletes.map (·.relative) = [file, folder] ∧
      (events (executed answers plan ⟨1, false⟩).2.log).take 2 =
        [.remoteExtraDeleteSkipped (root.path.append file) file .localPathExists,
          .remoteExtraDeleteSkipped (root.path.append folder) folder .keptDescendant]))
    (by decide +kernel)
  exact ⟨plan, hplan, of_decide_eq_true hrun, executed_spares (by decide +kernel)
    (by decide +kernel) (by decide +kernel) hplan answers ⟨1, false⟩⟩

end KeptFile
end DriveSync
