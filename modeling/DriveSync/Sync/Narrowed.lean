import DriveSync.Sync.Folders
import DriveSync.Sync.Replacing

/-!
# DriveSync.Sync.Narrowed

What a plan has become when its run begins: some of its uploads have a digest of their own, and
whatever takes actions out of it has done so.

* `NarrowedTo`: a plan after any such operations, with the paths that were left by then.
* `Lessened`: what one operation takes out takes with it the deletions that wait for it.
* `Thinned`: and what was to be put in its place.
* `narrowed_of_narrowedTo`: so do all of them.
-/

namespace DriveSync

open Path

section Narrow

variable [Unicode] {ε : Type} {plan plan' : SyncPlan}

/-- Each upload with the digest its file was read for. -/
def SyncPlan.promote (plan : SyncPlan) (digest : LocalEntry → Option ContentFingerprint) :
    SyncPlan :=
  { plan with uploads := plan.uploads.map fun action =>
      { action with entry := { action.entry with contentMd5 := digest action.entry } } }

/-- The paths whose deferral an operation takes out of a plan. -/
def Narrowing.Leaves : Narrowing ε → RelPath → Prop
  | .removeDeferred deferrals, f => f ∈ deferrals.exact
  | _, _ => False

/-- What a plan has become when its run begins, with the paths left by then. The deferrals that are
handed over are of uploads whose file could not be read. -/
inductive NarrowedTo (δ : Type) (plan : SyncPlan) : (RelPath → Prop) → SyncPlan → Prop
  | planned : NarrowedTo δ plan (fun _ => False) plan
  | promoted {left plan₁} (h : NarrowedTo δ plan left plan₁)
      (digest : LocalEntry → Option ContentFingerprint) :
      NarrowedTo δ plan left (plan₁.promote digest)
  | narrowed {left plan₁ plan₂} (h : NarrowedTo δ plan left plan₁) (op : Narrowing δ)
      (hop : ∀ f, op.Leaves f → ∃ u ∈ plan₁.uploads, u.entry.relative = f)
      (hstep : narrows op plan₁ plan₂) :
      NarrowedTo δ plan (fun f => left f ∨ op.Leaves f) plan₂

/-- A write that goes: an entry in its way is left, or no deletion is left that waits for it. -/
def Released (plan plan' : SyncPlan) (p : RelPath) : Prop :=
  (∃ d ∈ plan.preDeletes, d ∉ plan'.preDeletes ∧ AtOrUnder d.relative p) ∨
    ∀ a ∈ plan'.postDeletes, ∀ guard, a.destinationGuard = some guard → guard.entry.relative ≠ p

/-- What an operation leaves of a plan. -/
structure Lessened (plan plan' : SyncPlan) : Prop where
  pre : plan'.preDeletes.Sublist plan.preDeletes
  post : plan'.postDeletes.Sublist plan.postDeletes
  creates : plan'.creates ⊆ plan.creates
  copies : plan'.copies ⊆ plan.copies
  uploads : ∀ u ∈ plan'.uploads, u ∈ plan.uploads ∨ ∃ c ∈ plan.copies, u = uploadInstead c
  copied : ∀ c ∈ plan.copies, c ∈ plan'.copies ∨ uploadInstead c ∈ plan'.uploads ∨
    Released plan plan' c.toRelative
  uploaded : ∀ u ∈ plan.uploads, u ∈ plan'.uploads ∨ Released plan plan' u.entry.relative

/-- What was to be put in the place of a deletion that is gone is gone with it. -/
structure Thinned (plan plan' : SyncPlan) : Prop extends Lessened plan plan' where
  kept : ∀ d ∈ plan.preDeletes, d ∉ plan'.preDeletes → ∀ t ∈ plan'.writeTargets,
    ¬AtOrUnder d.relative t.relative

omit [Unicode] in
theorem forall_writeTargets {P : RelPath → Prop} {plan : SyncPlan}
    (hcreates : ∀ c ∈ plan.creates, P c.relative) (hcopies : ∀ c ∈ plan.copies, P c.toRelative)
    (huploads : ∀ u ∈ plan.uploads, P u.entry.relative) :
    ∀ t ∈ plan.writeTargets, P t.relative := by
  intro t ht
  simp only [SyncPlan.writeTargets, List.mem_append, List.mem_map] at ht
  rcases ht with ⟨c, hc, rfl⟩ | ⟨c, hc, rfl⟩ | ⟨u, hu, rfl⟩
  · exact hcreates c hc
  · exact hcopies c hc
  · exact huploads u hu

omit [Unicode] in
theorem Thinned.targets (h : Thinned plan plan')
    (hcopies : ∀ c ∈ plan.copies, c.entry.relative = c.toRelative) :
    ∀ t ∈ plan'.writeTargets, t ∈ plan.writeTargets := by
  intro t ht
  simp only [SyncPlan.writeTargets, List.mem_append, List.mem_map] at ht ⊢
  rcases ht with ⟨c, hc, rfl⟩ | ⟨c, hc, rfl⟩ | ⟨u, hu, rfl⟩
  · exact .inl ⟨c, h.creates hc, rfl⟩
  · exact .inr (.inl ⟨c, h.copies hc, rfl⟩)
  · rcases h.uploads u hu with hu | ⟨c, hc, rfl⟩
    · exact .inr (.inr ⟨u, hu, rfl⟩)
    · exact .inr (.inl ⟨c, hc, by rw [CopyAction.target, ← hcopies c hc]; rfl⟩)

omit [Unicode] in
/-- Where no deletion that comes first is held back, nothing goes with it. -/
theorem thinned_of_same (hpre : plan'.preDeletes = plan.preDeletes)
    (hpost : plan'.postDeletes.Sublist plan.postDeletes) (hcreates : plan'.creates = plan.creates)
    (hcopies : plan'.copies = plan.copies) (huploads : plan'.uploads = plan.uploads) :
    Thinned plan plan' where
  pre := hpre ▸ .refl _
  post := hpost
  creates := hcreates ▸ List.Subset.refl _
  copies := hcopies ▸ List.Subset.refl _
  uploads _ hu := .inl (huploads ▸ hu)
  copied _ hc := .inl (hcopies ▸ hc)
  uploaded _ hu := .inl (huploads ▸ hu)
  kept _ hd hgone := absurd (hpre ▸ hd) hgone

omit [Unicode] in
/-- Deletions that are held back take with them what was to be put in their place. -/
theorem thinned_of_held (keep : DeleteAction → Bool) {replacements : List RelPath}
    (hreplacements : replacements = (plan.preDeletes.filter fun d => !keep d).map (·.relative))
    (hpre : plan'.preDeletes = (plan.preDeletes.filter keep).filter fun d =>
      !replacedBelow replacements d.relative)
    (hpost : plan'.postDeletes.Sublist plan.postDeletes)
    (hcreates : plan'.creates = plan.creates.filter fun c => !replacedBelow replacements c.relative)
    (hcopies : plan'.copies = plan.copies.filter fun c => !replacedBelow replacements c.toRelative)
    (huploads : plan'.uploads =
      plan.uploads.filter fun u => !replacedBelow replacements u.entry.relative) :
    Thinned plan plan' := by
  have hreleased : ∀ {p : RelPath}, replacedBelow replacements p = true →
      Released plan plan' p := by
    intro p hp
    obtain ⟨r, hr, hrp⟩ := replacedBelow_iff.mp hp
    rw [hreplacements] at hr
    obtain ⟨d, hd, rfl⟩ := List.mem_map.mp hr
    obtain ⟨hd, hheld⟩ := List.mem_filter.mp hd
    refine .inl ⟨d, hd, fun hkept => ?_, hrp⟩
    rw [hpre] at hkept
    rw [(List.mem_filter.mp (List.mem_filter.mp hkept).1).2] at hheld
    cases hheld
  refine ⟨⟨?_, hpost, ?_, ?_, ?_, fun c hc => ?_, fun u hu => ?_⟩, ?_⟩
  · rw [hpre]
    exact (List.filter_sublist).trans List.filter_sublist
  · rw [hcreates]
    exact List.filter_sublist.subset
  · rw [hcopies]
    exact List.filter_sublist.subset
  · intro u hu
    rw [huploads] at hu
    exact .inl (List.mem_filter.mp hu).1
  · rw [hcopies]
    cases hbelow : replacedBelow replacements c.toRelative with
    | true => exact .inr (.inr (hreleased hbelow))
    | false => exact .inl (List.mem_filter.mpr ⟨hc, by rw [hbelow]; rfl⟩)
  · rw [huploads]
    cases hbelow : replacedBelow replacements u.entry.relative with
    | true => exact .inr (hreleased hbelow)
    | false => exact .inl (List.mem_filter.mpr ⟨hu, by rw [hbelow]; rfl⟩)
  · intro d hd hgone
    have hbelow : replacedBelow replacements d.relative = true := by
      by_contra hnot
      refine hgone ?_
      rw [hpre]
      refine List.mem_filter.mpr ⟨List.mem_filter.mpr ⟨hd, ?_⟩, by simpa using hnot⟩
      by_contra hkeep
      refine hnot (replacedBelow_iff.mpr ⟨d.relative, ?_, .inl rfl⟩)
      rw [hreplacements]
      exact List.mem_map_of_mem (List.mem_filter.mpr ⟨hd, by simpa using hkeep⟩)
    obtain ⟨r, hr, hrd⟩ := replacedBelow_iff.mp hbelow
    have hclear : ∀ {p : RelPath}, (!replacedBelow replacements p) = true →
        ¬AtOrUnder d.relative p := by
      intro p hp hdp
      rw [replacedBelow_iff.mpr ⟨r, hr, hrd.trans hdp⟩] at hp
      cases hp
    refine forall_writeTargets (P := fun p => ¬AtOrUnder d.relative p) (fun c hc => ?_)
      (fun c hc => ?_) fun u hu => ?_
    · rw [hcreates] at hc
      exact hclear (List.mem_filter.mp hc).2
    · rw [hcopies] at hc
      exact hclear (List.mem_filter.mp hc).2
    · rw [huploads] at hu
      exact hclear (List.mem_filter.mp hu).2

theorem removeDeferred_lessened {deferrals : DeferralIndex}
    (hplan : plan' = (removeDeferredFromPlan plan deferrals).1) : Lessened plan plan' := by
  simp only [removeDeferredFromPlan] at hplan
  split at hplan
  · rw [hplan]
    exact (thinned_of_same rfl (.refl _) rfl rfl rfl).toLessened
  · subst hplan
    -- what a deferral takes out, the deletion that waits for it goes with
    have hreleased : ∀ {p : RelPath}, (deferrals.covering p).isNone = false → ∀ a ∈
        plan.postDeletes.filter fun action => (relatedDeferral deferrals action).isNone,
        ∀ guard, a.destinationGuard = some guard → guard.entry.relative ≠ p := by
      rintro p hp a ha guard hguard rfl
      have hnone := (List.mem_filter.mp ha).2
      cases hcovering : deferrals.covering guard.entry.relative with
      | none =>
        rw [hcovering] at hp
        cases hp
      | some reason => simp [relatedDeferral, hguard, hcovering] at hnone
    refine ⟨List.filter_sublist, List.filter_sublist, List.Subset.refl _,
      List.filter_sublist.subset, fun u hu => .inl (List.mem_filter.mp hu).1, fun c hc => ?_,
      fun u hu => ?_⟩
    · cases hnone : (deferrals.covering c.toRelative).isNone with
      | true => exact .inl (List.mem_filter.mpr ⟨hc, hnone⟩)
      | false => exact .inr (.inr (.inr (hreleased hnone)))
    · cases hnone : (deferrals.covering u.entry.relative).isNone with
      | true => exact .inl (List.mem_filter.mpr ⟨hu, hnone⟩)
      | false => exact .inr (.inr (hreleased hnone))

theorem removeDeferred_thinned {deferrals : DeferralIndex}
    (hplan : plan' = (removeDeferredFromPlan plan deferrals).1)
    (hcreates : ∀ f ∈ deferrals.exact, ∀ c ∈ plan.creates, ¬AtOrUnder f c.relative) :
    Thinned plan plan' ∧
      ∀ f ∈ deferrals.exact, ∀ d ∈ plan'.preDeletes, ¬AtOrUnder f d.relative := by
  have hless := removeDeferred_lessened hplan
  have hcovered : ∀ {p : RelPath}, (deferrals.covering p).isNone = true →
      ∀ f ∈ deferrals.exact, ¬AtOrUnder f p := by
    intro p hp f hf hfp
    rw [Option.isNone_iff_eq_none, ← Option.not_isSome_iff_eq_none] at hp
    exact hp (DeferralIndex.covering_isSome.mpr ⟨f, hf, hfp⟩)
  simp only [removeDeferredFromPlan] at hplan
  split at hplan
  · rename_i hempty
    have hno : ∀ f, f ∉ deferrals.exact := by
      intro f hf
      have hne := Std.TreeMap.isEmpty_eq_false_iff_exists_mem.mpr ⟨f, hf⟩
      rw [DeferralIndex.isEmpty, hne] at hempty
      cases hempty
    rw [hplan]
    exact ⟨thinned_of_same rfl (.refl _) rfl rfl rfl, fun f hf => absurd hf (hno f)⟩
  · subst hplan
    refine ⟨⟨hless, ?_⟩, ?_⟩
    · intro d hd hgone
      have hsome : (deferrals.covering d.relative).isSome = true := by
        by_contra hnone
        refine hgone (List.mem_filter.mpr ⟨hd, ?_⟩)
        simpa using hnone
      obtain ⟨f, hf, hfd⟩ := DeferralIndex.covering_isSome.mp hsome
      refine forall_writeTargets (P := fun p => ¬AtOrUnder d.relative p) (fun c hc => ?_)
        (fun c hc => ?_) fun u hu => ?_
      · exact fun h => hcreates f hf c hc (hfd.trans h)
      · exact fun h => hcovered (List.mem_filter.mp hc).2 f hf (hfd.trans h)
      · exact fun h => hcovered (List.mem_filter.mp hu).2 f hf (hfd.trans h)
    · intro f hf d hd
      exact hcovered (List.mem_filter.mp hd).2 f hf

omit [Unicode] in
theorem protectSkipped_thinned {skipped : List SkippedRemoteEntry}
    (hplan : plan' = (protectSkippedRemoteEntries plan skipped).1) : Thinned plan plan' := by
  simp only [protectSkippedRemoteEntries] at hplan
  split at hplan
  · rw [hplan]
    exact thinned_of_same rfl (.refl _) rfl rfl rfl
  · split at hplan
    · rename_i hnone
      have hall : plan.preDeletes.filter (fun d => (keptBySkipped skipped d.relative).isNone) =
          plan.preDeletes := by
        refine List.filter_eq_self.mpr fun d hd => ?_
        have hno := List.map_eq_nil_iff.mp (List.isEmpty_iff.mp hnone)
        simpa using List.filter_eq_nil_iff.mp hno d hd
      rw [hplan]
      exact thinned_of_same hall List.filter_sublist rfl rfl rfl
    · rw [hplan]
      exact thinned_of_held (fun d => (keptBySkipped skipped d.relative).isNone) rfl rfl
        List.filter_sublist rfl rfl rfl

omit [Unicode] in
theorem withholdIncomplete_thinned {incomplete : List RelPath}
    (hplan : plan' = (withholdDeletionsInIncompleteListings plan incomplete).1) :
    Thinned plan plan' := by
  simp only [withholdDeletionsInIncompleteListings] at hplan
  split at hplan
  · rw [hplan]
    exact thinned_of_same rfl (.refl _) rfl rfl rfl
  · rw [hplan]
    exact thinned_of_same rfl List.filter_sublist rfl rfl rfl

omit [Unicode] in
theorem withholdAmbiguous_thinned (plan : SyncPlan) (ambiguous : List RelPath) :
    Thinned plan (withholdAmbiguousDeletions plan ambiguous) := by
  simp only [withholdAmbiguousDeletions]
  split
  · exact thinned_of_same rfl (.refl _) rfl rfl rfl
  · split
    · rename_i hnone
      have hall : plan.preDeletes.filter (fun d => !commaWithholds ambiguous d) =
          plan.preDeletes := by
        refine List.filter_eq_self.mpr fun d hd => ?_
        have hno := List.map_eq_nil_iff.mp (List.isEmpty_iff.mp hnone)
        simpa using List.filter_eq_nil_iff.mp hno d hd
      exact thinned_of_same hall List.filter_sublist rfl rfl rfl
    · exact thinned_of_held (fun d => !commaWithholds ambiguous d)
        (by simp only [Bool.not_not]) rfl List.filter_sublist rfl rfl rfl

omit [Unicode] in
/-- A copy that could address another entry is uploaded instead; the rest of the plan is narrowed as
the ambiguous deletions are. -/
theorem exists_of_withholdComma {lookup : List Char → Except ε Bool} {R : RemoteInventory}
    {deferred : List DeferredPath}
    (h : withholdCommaAmbiguousMutations lookup plan R = .ok (plan', deferred)) :
    ∃ (narrowed : SyncPlan) (converted : List CopyAction), Thinned plan narrowed ∧
      (∀ c ∈ converted, c ∈ narrowed.copies) ∧
      plan'.preDeletes = narrowed.preDeletes ∧ plan'.postDeletes = narrowed.postDeletes ∧
      plan'.creates = narrowed.creates ∧
      plan'.copies = (narrowed.copies.filter fun c => !converted.any fun copy => decide (copy = c)) ∧
      plan'.uploads = narrowed.uploads ++ converted.map uploadInstead := by
  obtain ⟨deletions, _, h⟩ := Loop.bind_eq_ok.mp h
  obtain ⟨renames, _, h⟩ := Loop.bind_eq_ok.mp h
  obtain ⟨copies, hambiguous, h⟩ := Loop.bind_eq_ok.mp h
  obtain ⟨rfl, _⟩ := Prod.mk.inj (Except.ok.inj h)
  refine ⟨withholdAmbiguousDeletions plan (deletions.map (·.1.relative)), copies.map (·.1),
    withholdAmbiguous_thinned plan _, ?_, rfl, rfl, rfl, rfl, rfl⟩
  rw [ambiguousOf_eq_ok hambiguous]
  exact fun c hc => (List.mem_filter.mp hc).1

omit [Unicode] in
theorem withholdComma_lessened {lookup : List Char → Except ε Bool} {R : RemoteInventory}
    {deferred : List DeferredPath}
    (h : withholdCommaAmbiguousMutations lookup plan R = .ok (plan', deferred)) :
    Lessened plan plan' := by
  obtain ⟨narrowed, converted, hthin, hconverted, hpre, hpost, hcreates, hcopies, huploads⟩ :=
    exists_of_withholdComma h
  have hreleased : ∀ {p : RelPath}, Released plan narrowed p → Released plan plan' p := by
    intro p hp
    rwa [Released, hpre, hpost]
  refine ⟨hpre ▸ hthin.pre, hpost ▸ hthin.post, hcreates ▸ hthin.creates, ?_, ?_, fun c hc => ?_,
    fun u hu => ?_⟩
  · rw [hcopies]
    exact fun c hc => hthin.copies (List.mem_filter.mp hc).1
  · intro u hu
    rw [huploads] at hu
    rcases List.mem_append.mp hu with hu | hu
    · exact hthin.uploads u hu
    · obtain ⟨c, hc, rfl⟩ := List.mem_map.mp hu
      exact .inr ⟨c, hthin.copies (hconverted c hc), rfl⟩
  · rw [hcopies, huploads]
    rcases hthin.copied c hc with hc | hc | hc
    · cases hconvert : converted.any fun copy => decide (copy = c) with
      | true =>
        obtain ⟨copy, hcopy, heq⟩ := List.any_eq_true.mp hconvert
        obtain rfl := of_decide_eq_true heq
        exact .inr (.inl (List.mem_append_right _ (List.mem_map_of_mem hcopy)))
      | false => exact .inl (List.mem_filter.mpr ⟨hc, by rw [hconvert]; rfl⟩)
    · exact .inr (.inl (List.mem_append_left _ hc))
    · exact .inr (.inr (hreleased hc))
  · rw [huploads]
    exact (hthin.uploaded u hu).imp (fun hu => List.mem_append_left _ hu) hreleased

omit [Unicode] in
theorem withholdComma_thinned {lookup : List Char → Except ε Bool} {R : RemoteInventory}
    {deferred : List DeferredPath}
    (h : withholdCommaAmbiguousMutations lookup plan R = .ok (plan', deferred))
    (hentry : ∀ c ∈ plan.copies, c.entry.relative = c.toRelative) : Thinned plan plan' := by
  refine ⟨withholdComma_lessened h, fun d hd hgone => ?_⟩
  obtain ⟨narrowed, converted, hthin, hconverted, hpre, _, hcreates, hcopies, huploads⟩ :=
    exists_of_withholdComma h
  have hkept := hthin.kept d hd (hpre ▸ hgone)
  have hcopy : ∀ c ∈ narrowed.copies, ¬AtOrUnder d.relative c.toRelative := fun c hc =>
    hkept c.target (List.mem_append_right _ (List.mem_append_left _ (List.mem_map_of_mem hc)))
  refine forall_writeTargets (P := fun p => ¬AtOrUnder d.relative p) (fun c hc => ?_)
    (fun c hc => ?_) fun u hu => ?_
  · rw [hcreates] at hc
    exact hkept c.target (List.mem_append_left _ (List.mem_map_of_mem hc))
  · rw [hcopies] at hc
    exact hcopy c (List.mem_filter.mp hc).1
  · rw [huploads] at hu
    rcases List.mem_append.mp hu with hu | hu
    · exact hkept u.target
        (List.mem_append_right _ (List.mem_append_right _ (List.mem_map_of_mem hu)))
    · obtain ⟨c, hc, rfl⟩ := List.mem_map.mp hu
      have hc := hconverted c hc
      rw [uploadInstead, hentry c (hthin.copies hc)]
      exact hcopy c hc

theorem narrows_thinned {op : Narrowing ε} (hstep : narrows op plan plan')
    (hcopies : ∀ c ∈ plan.copies, c.entry.relative = c.toRelative)
    (hcreates : ∀ f, op.Leaves f → ∀ c ∈ plan.creates, ¬AtOrUnder f c.relative) :
    Thinned plan plan' ∧ ∀ f, op.Leaves f → ∀ d ∈ plan'.preDeletes, ¬AtOrUnder f d.relative := by
  obtain ⟨deferred, hstep⟩ := hstep
  cases op with
  | removeDeferred deferrals =>
    exact removeDeferred_thinned (congrArg Prod.fst (Except.ok.inj hstep)).symm hcreates
  | protectSkipped skipped =>
    exact ⟨protectSkipped_thinned (congrArg Prod.fst (Except.ok.inj hstep)).symm,
      fun _ h => h.elim⟩
  | withholdIncomplete incomplete =>
    exact ⟨withholdIncomplete_thinned (congrArg Prod.fst (Except.ok.inj hstep)).symm,
      fun _ h => h.elim⟩
  | withholdComma lookup R => exact ⟨withholdComma_thinned hstep hcopies, fun _ h => h.elim⟩

/-- What has become of a plan: its deletions that come first are fewer, what is written is planned,
and what was to be put in the place of a deletion that is gone is gone too. -/
structure Narrowed (plan : SyncPlan) (left : RelPath → Prop) (plan' : SyncPlan) : Prop where
  pre : plan'.preDeletes.Sublist plan.preDeletes
  post : plan'.postDeletes.Sublist plan.postDeletes
  creates : plan'.creates ⊆ plan.creates
  copies : plan'.copies ⊆ plan.copies
  uploads : ∀ u ∈ plan'.uploads, u.entry.relative ∈ plan.sources ∧ u.target ∈ plan.writeTargets
  kept : ∀ d ∈ plan.preDeletes, d ∉ plan'.preDeletes → ∀ t ∈ plan'.writeTargets,
    ¬AtOrUnder d.relative t.relative
  left : ∀ f, left f → ∀ d ∈ plan'.preDeletes, ¬AtOrUnder f d.relative

omit [Unicode] in
theorem Narrowed.targets {left : RelPath → Prop} (h : Narrowed plan left plan') :
    ∀ t ∈ plan'.writeTargets, t ∈ plan.writeTargets := by
  intro t ht
  simp only [SyncPlan.writeTargets, List.mem_append, List.mem_map] at ht ⊢
  rcases ht with ⟨c, hc, rfl⟩ | ⟨c, hc, rfl⟩ | ⟨u, hu, rfl⟩
  · exact .inl ⟨c, h.creates hc, rfl⟩
  · exact .inr (.inl ⟨c, h.copies hc, rfl⟩)
  · simpa only [SyncPlan.writeTargets, List.mem_append, List.mem_map] using (h.uploads u hu).2

omit [Unicode] in
theorem promote_writeTargets {digest : LocalEntry → Option ContentFingerprint} :
    (plan.promote digest).writeTargets = plan.writeTargets := by
  simp only [SyncPlan.promote, SyncPlan.writeTargets, List.map_map]
  rfl

/-- What was planned is narrowed so, whatever takes part of it out. -/
theorem narrowed_of_narrowedTo {left : RelPath → Prop}
    (hcopies : ∀ c ∈ plan.copies, c.entry.relative = c.toRelative)
    (hcreates : ∀ f ∈ plan.sources, ∀ c ∈ plan.creates, ¬AtOrUnder f c.relative)
    (h : NarrowedTo ε plan left plan') : Narrowed plan left plan' := by
  have htarget : ∀ u ∈ plan.uploads, u.target ∈ plan.writeTargets := fun u hu =>
    List.mem_append_right _ (List.mem_append_right _ (List.mem_map_of_mem hu))
  have hsource : ∀ u ∈ plan.uploads, u.entry.relative ∈ plan.sources := fun u hu =>
    List.mem_append_left _ (List.mem_map_of_mem hu)
  induction h with
  | planned =>
    exact ⟨.refl _, .refl _, List.Subset.refl _, List.Subset.refl _,
      fun u hu => ⟨hsource u hu, htarget u hu⟩, fun d hd hgone => absurd hd hgone,
      fun f hf => hf.elim⟩
  | promoted h digest ih =>
    refine ⟨ih.pre, ih.post, ih.creates, ih.copies, fun u hu => ?_, fun d hd hgone t ht => ?_,
      ih.left⟩
    · obtain ⟨u', hu', rfl⟩ := List.mem_map.mp hu
      exact ih.uploads u' hu'
    · exact ih.kept d hd hgone t (promote_writeTargets ▸ ht)
  | @narrowed left plan₁ plan₂ h op hop hstep ih =>
    have hentry : ∀ c ∈ plan₁.copies, c.entry.relative = c.toRelative := fun c hc =>
      hcopies c (ih.copies hc)
    have hapart : ∀ f, op.Leaves f → ∀ c ∈ plan₁.creates, ¬AtOrUnder f c.relative := by
      intro f hf c hc
      obtain ⟨u, hu, rfl⟩ := hop f hf
      exact hcreates _ (ih.uploads u hu).1 c (ih.creates hc)
    obtain ⟨hthin, hleft⟩ := narrows_thinned hstep hentry hapart
    have htargets := hthin.targets hentry
    refine ⟨hthin.pre.trans ih.pre, hthin.post.trans ih.post,
      List.Subset.trans hthin.creates ih.creates, List.Subset.trans hthin.copies ih.copies,
      fun u hu => ?_, fun d hd hgone t ht => ?_, ?_⟩
    · rcases hthin.uploads u hu with hu | ⟨c, hc, rfl⟩
      · exact ih.uploads u hu
      · have hc := ih.copies hc
        rw [UploadAction.target, uploadInstead, hcopies c hc]
        exact ⟨List.mem_append_right _ (List.mem_map_of_mem hc),
          List.mem_append_right _ (List.mem_append_left _ (List.mem_map_of_mem hc))⟩
    · by_cases hd₁ : d ∈ plan₁.preDeletes
      · exact hthin.kept d hd₁ hgone t ht
      · exact ih.kept d hd hd₁ t (htargets t ht)
    · rintro f (hf | hf) d hd
      · exact ih.left f hf d (hthin.pre.subset hd)
      · exact hleft f hf d hd

end Narrow

end DriveSync
