import DriveSync.Sync.UploadBytes

/-!
# DriveSync.Sync.Folders

The folders a narrowed plan still deletes. The NAS deletes no folder that is not empty, so where the
deletion of an entry is withheld, that of every folder above it has to go.

* `Executable`: no folder above a withheld deletion is deleted.
* `Strands`: the ways one operation leaves such a folder in the plan, read off the plan before it.
* `executable_along_iff`: along a run, the one holds exactly if no operation does the other.
-/

namespace DriveSync

open Path

/-- A deletion of the plan as it was that is not in it any more. -/
def WithheldFrom (start plan : SyncPlan) (w : DeleteAction) : Prop :=
  w ∈ start.preDeletes ∧ w ∉ plan.preDeletes ∨ w ∈ start.postDeletes ∧ w ∉ plan.postDeletes

/-- No folder above a withheld deletion is still to be deleted. -/
def Executable (start plan : SyncPlan) : Prop :=
  ∀ w, WithheldFrom start plan w → ∀ a ∈ plan.deletes, a.kind = .directory →
    a.relative ∉ w.relative.ancestors

/-- What an operation keeps of the deletions: it only takes deletions out, by two tests. -/
structure Keeps (before after : DeleteAction → Bool) (plan plan' : SyncPlan) : Prop where
  preDeletes : plan'.preDeletes = plan.preDeletes.filter before
  postDeletes : plan'.postDeletes = plan.postDeletes.filter after

/-- Nothing two tests take out lies beneath a folder they keep. -/
def Clear (before after : DeleteAction → Bool) (plan : SyncPlan) : Prop :=
  ∀ w, (w ∈ plan.preDeletes ∧ before w = false ∨ w ∈ plan.postDeletes ∧ after w = false) →
    ∀ a, (a ∈ plan.preDeletes ∧ before a = true ∨ a ∈ plan.postDeletes ∧ after a = true) →
      a.kind = .directory → a.relative ∉ w.relative.ancestors

/-- The deletions of a plan are some of those it started with. -/
structure Within (start plan : SyncPlan) : Prop where
  preDeletes : ∀ a ∈ plan.preDeletes, a ∈ start.preDeletes
  postDeletes : ∀ a ∈ plan.postDeletes, a ∈ start.postDeletes

section Tests

variable {before after : DeleteAction → Bool} {start plan plan' : SyncPlan}

theorem Keeps.within (h : Keeps before after plan plan') (hwithin : Within start plan) :
    Within start plan' := by
  constructor
  · intro a ha
    rw [h.preDeletes] at ha
    exact hwithin.preDeletes a (List.mem_filter.mp ha).1
  · intro a ha
    rw [h.postDeletes] at ha
    exact hwithin.postDeletes a (List.mem_filter.mp ha).1

theorem Keeps.mem_deletes (h : Keeps before after plan plan') {a : DeleteAction} :
    a ∈ plan'.deletes ↔
      a ∈ plan.preDeletes ∧ before a = true ∨ a ∈ plan.postDeletes ∧ after a = true := by
  rw [SyncPlan.deletes, List.mem_append, h.preDeletes, h.postDeletes, List.mem_filter,
    List.mem_filter]

/-- The rule of one operation: what it takes out lies beneath no folder it keeps. -/
theorem Keeps.executable_iff (h : Keeps before after plan plan') (hwithin : Within start plan)
    (hplan : Executable start plan) : Executable start plan' ↔ Clear before after plan := by
  constructor
  · intro hexec w hw a ha hdir
    refine hexec w ?_ a (h.mem_deletes.mpr ha) hdir
    rcases hw with ⟨hw, hout⟩ | ⟨hw, hout⟩
    · exact .inl ⟨hwithin.preDeletes w hw, by simp [h.preDeletes, hout]⟩
    · exact .inr ⟨hwithin.postDeletes w hw, by simp [h.postDeletes, hout]⟩
  · intro hclear w hw a ha hdir
    have hkept := h.mem_deletes.mp ha
    have hold : a ∈ plan.deletes :=
      List.mem_append.mpr (hkept.imp And.left And.left)
    -- withheld by this operation, or by one before it
    rcases hw with ⟨hw, hout⟩ | ⟨hw, hout⟩
    · by_cases hin : w ∈ plan.preDeletes
      · refine hclear w (.inl ⟨hin, ?_⟩) a hkept hdir
        simpa [h.preDeletes, hin] using hout
      · exact hplan w (.inl ⟨hw, hin⟩) a hold hdir
    · by_cases hin : w ∈ plan.postDeletes
      · refine hclear w (.inr ⟨hin, ?_⟩) a hkept hdir
        simpa [h.postDeletes, hin] using hout
      · exact hplan w (.inr ⟨hw, hin⟩) a hold hdir

end Tests

/-! ## Kept folders -/

/-- The entries a test holds back, and what was to replace them: a folder deleted last that lies
between the two stays in the plan. -/
def StrandsBetween (held : RelPath → Bool) (plan : SyncPlan) : Prop :=
  ∃ a ∈ plan.postDeletes, a.kind = .directory ∧ held a.relative = false ∧
    ∃ w ∈ plan.preDeletes, a.relative ∈ w.relative.ancestors ∧
      replacedBelow ((plan.preDeletes.filter fun r => held r.relative).map (·.relative))
        w.relative = true

theorem replacedBelow_iff {replacements : List RelPath} {p : RelPath} :
    replacedBelow replacements p = true ↔ ∃ r ∈ replacements, AtOrUnder r p := by
  simp [replacedBelow]

/-- Where a test holds back every folder above what it holds back, only what lies beneath a kept
replacement can leave a folder stranded. -/
theorem clear_of_held (held : RelPath → Bool) {plan : SyncPlan}
    (upward : ∀ w a : RelPath, a ∈ w.ancestors → held w = true → held a = true) :
    Clear (fun a => !held a.relative && !replacedBelow
        ((plan.preDeletes.filter fun r => held r.relative).map (·.relative)) a.relative)
      (fun a => !held a.relative) plan ↔ ¬StrandsBetween held plan := by
  simp only [Clear, StrandsBetween, Bool.and_eq_false_iff, Bool.not_eq_false', Bool.not_eq_true',
    Bool.and_eq_true]
  constructor
  · rintro hclear ⟨a, ha, hdir, hkept, w, hw, habove, hrep⟩
    exact hclear w (.inl ⟨hw, .inr hrep⟩) a (.inr ⟨ha, hkept⟩) hdir habove
  · intro hno w hw a ha hdir habove
    have hkept : held a.relative = false := by
      rcases ha with ⟨_, h, _⟩ | ⟨_, h⟩ <;> exact h
    have hheld : held w.relative = false := by
      by_contra hheld
      rw [upward _ _ habove (by simpa using hheld)] at hkept
      cases hkept
    rcases hw with ⟨hw, hout | hrep⟩ | ⟨_, hout⟩
    · rw [hheld] at hout; cases hout
    · rcases ha with ⟨_, _, hfree⟩ | ⟨ha, _⟩
      · -- the replacement lies above the deletion too, and so above or beneath the folder
        obtain ⟨r, hr, hrw⟩ := replacedBelow_iff.mp hrep
        rw [← Bool.not_eq_true, replacedBelow_iff, not_exists] at hfree
        obtain ⟨d, hd, rfl⟩ := List.mem_map.mp hr
        have hdheld : held d.relative = true := by simpa using (List.mem_filter.mp hd).2
        rcases atOrUnder_total hrw (.inr habove) with h | h
        · exact hfree _ ⟨hr, h⟩
        · rcases h with h | h
          · rw [← h, hdheld] at hkept; cases hkept
          · rw [upward _ _ h hdheld] at hkept; cases hkept
      · exact hno ⟨a, ha, hdir, hkept, w, hw, habove, hrep⟩
    · rw [hheld] at hout; cases hout

theorem keptBySkipped_upward (skipped : List SkippedRemoteEntry) (w a : RelPath)
    (h : a ∈ w.ancestors) (hw : (keptBySkipped skipped w).isSome = true) :
    (keptBySkipped skipped a).isSome = true := by
  simp only [keptBySkipped, List.find?_isSome, Bool.or_eq_true, decide_eq_true_eq] at hw ⊢
  obtain ⟨entry, hentry, hat | hroot⟩ := hw
  · exact ⟨entry, hentry, .inl (.inr (mem_ancestors_of_atOrUnder_right h hat))⟩
  · subst hroot
    simp at h

theorem listingWithholds_upward {incomplete : List RelPath} {w a : RelPath} (h : a ∈ w.ancestors)
    (hw : listingWithholds w incomplete = true) : listingWithholds a incomplete = true := by
  simp only [listingWithholds, List.any_eq_true, Bool.or_eq_true, decide_eq_true_eq] at hw ⊢
  obtain ⟨d, hd, (hparent | hself) | ⟨b, hb, rfl⟩⟩ := hw
  · rcases atOrUnder_parent h with heq | hlt
    · exact ⟨d, hd, .inl (.inr (by rw [← heq, hparent]))⟩
    · exact ⟨d, hd, .inr ⟨a, hparent ▸ hlt, rfl⟩⟩
  · exact ⟨d, hd, .inr ⟨a, hself ▸ h, rfl⟩⟩
  · exact ⟨d, hd, .inr ⟨a, mem_ancestors_trans h hb, rfl⟩⟩

/-- Whether a path is ambiguous, or lies above one that is. -/
def commaHolds (ambiguous : List RelPath) (p : RelPath) : Bool :=
  (ambiguous.any fun relative => decide (relative = p)) || (aboveAmbiguous ambiguous p).isSome

theorem commaHolds_iff {ambiguous : List RelPath} {p : RelPath} :
    commaHolds ambiguous p = true ↔ ∃ relative ∈ ambiguous, AtOrUnder p relative := by
  simp only [commaHolds, aboveAmbiguous, Bool.or_eq_true, List.any_eq_true, decide_eq_true_eq,
    List.find?_isSome, AtOrUnder]
  constructor
  · rintro (⟨relative, hmem, h⟩ | ⟨relative, hmem, _, h, rfl⟩)
    · exact ⟨relative, hmem, .inl h⟩
    · exact ⟨relative, hmem, .inr h⟩
  · rintro ⟨relative, hmem, h | h⟩
    · exact .inl ⟨relative, hmem, h⟩
    · exact .inr ⟨relative, hmem, p, h, rfl⟩

theorem commaHolds_upward (ambiguous : List RelPath) (w a : RelPath) (h : a ∈ w.ancestors)
    (hw : commaHolds ambiguous w = true) : commaHolds ambiguous a = true := by
  rw [commaHolds_iff] at hw ⊢
  obtain ⟨relative, hmem, hat⟩ := hw
  exact ⟨relative, hmem, .inr (mem_ancestors_of_atOrUnder_right h hat)⟩

/-! ## The operations -/

section Operations

variable [Unicode] {ε : Type}

/-- Whether the copy a deletion waits for is among what was deferred. -/
def guardCovered (deferrals : DeferralIndex) (action : DeleteAction) : Bool :=
  action.destinationGuard.any fun guard => (deferrals.covering guard.entry.relative).isSome

theorem relatedDeferral_isSome {deferrals : DeferralIndex} {action : DeleteAction} :
    (relatedDeferral deferrals action).isSome = true ↔
      guardCovered deferrals action = true ∨
        (deferrals.spellingRelated action.relative).isSome = true := by
  rw [relatedDeferral, guardCovered]
  cases action.destinationGuard with
  | none => simp
  | some guard => cases h : deferrals.covering guard.entry.relative <;> simp [h]

/-- The actions of a plan whose paths a comma makes ambiguous. -/
def ambiguousPaths (lookup : List Char → Except ε Bool) (R : RemoteInventory) (plan : SyncPlan) :
    List RelPath :=
  (plan.deletes.filter fun a => isAmbiguous lookup R a.remotePath).map (·.relative)

/-- An operation leaves the deletion of a folder in the plan above one it takes out. -/
def Strands (op : Narrowing ε) (plan : SyncPlan) : Prop :=
  match op with
  | .removeDeferred deferrals =>
    (∃ a ∈ plan.postDeletes, a.kind = .directory ∧ (relatedDeferral deferrals a).isNone = true ∧
      ∃ w ∈ plan.postDeletes, guardCovered deferrals w = true ∧ a.relative ∈ w.relative.ancestors) ∨
    ∃ a ∈ plan.preDeletes, a.kind = .directory ∧ (deferrals.covering a.relative).isNone = true ∧
      ∃ w, a.relative ∈ w.relative.ancestors ∧
        (w ∈ plan.preDeletes ∧ (deferrals.covering w.relative).isSome = true ∨
          w ∈ plan.postDeletes ∧ (relatedDeferral deferrals w).isSome = true)
  | .protectSkipped skipped => StrandsBetween (fun p => (keptBySkipped skipped p).isSome) plan
  | .withholdIncomplete incomplete =>
    ∃ a ∈ plan.preDeletes, a.kind = .directory ∧ ∃ w ∈ plan.postDeletes,
      listingWithholds w.relative incomplete = true ∧ a.relative ∈ w.relative.ancestors
  | .withholdComma lookup R => StrandsBetween (commaHolds (ambiguousPaths lookup R plan)) plan

variable {plan plan' : SyncPlan}

omit [Unicode] in
theorem isNone_eq_false {α : Type} {o : Option α} : o.isNone = false ↔ o.isSome = true := by
  cases o <;> simp

/-- What is deferred takes the deletions of every folder above it along, where these are asked for
the same way. -/
theorem clear_removeDeferred {deferrals : DeferralIndex} :
    Clear (fun a => (deferrals.covering a.relative).isNone)
      (fun a => (relatedDeferral deferrals a).isNone) plan ↔
        ¬Strands (ε := ε) (.removeDeferred deferrals) plan := by
  simp only [Clear, Strands, isNone_eq_false]
  constructor
  · rintro hclear (⟨a, ha, hdir, hkept, w, hw, hguard, habove⟩ | ⟨a, ha, hdir, hkept, w, habove, hw⟩)
    · exact hclear w (.inr ⟨hw, relatedDeferral_isSome.mpr (.inl hguard)⟩) a (.inr ⟨ha, hkept⟩) hdir
        habove
    · exact hclear w hw a (.inl ⟨ha, hkept⟩) hdir habove
  · intro hno w hw a ha hdir habove
    rw [not_or] at hno
    rcases ha with ⟨ha, hkept⟩ | ⟨ha, hkept⟩
    · exact hno.2 ⟨a, ha, hdir, hkept, w, habove, hw⟩
    · have hunrelated : ¬(deferrals.spellingRelated a.relative).isSome = true := by
        intro hrel
        have := relatedDeferral_isSome.mpr (.inr hrel : guardCovered deferrals a = true ∨ _)
        rw [← isNone_eq_false, hkept] at this
        cases this
      have hroot : w.relative ≠ .root := by
        intro hroot
        simp [hroot] at habove
      rcases hw with ⟨_, hcov⟩ | ⟨hw, hrel⟩
      · exact hunrelated (DeferralIndex.spellingRelated_of_mem_ancestors habove
          (DeferralIndex.spellingRelated_of_covering hroot hcov))
      · rcases relatedDeferral_isSome.mp hrel with hguard | hspelled
        · exact hno.1 ⟨a, ha, hdir, hkept, w, hw, hguard, habove⟩
        · exact hunrelated (DeferralIndex.spellingRelated_of_mem_ancestors habove hspelled)

omit [Unicode] in
/-- What a test holds back, and what lies beneath a replacement it holds back. -/
theorem keeps_of_held (held : RelPath → Bool) (hpost : plan'.postDeletes =
      plan.postDeletes.filter fun a => !held a.relative)
    (hpre : plan'.preDeletes = (plan.preDeletes.filter fun a => !held a.relative).filter fun a =>
      !replacedBelow ((plan.preDeletes.filter fun r => held r.relative).map (·.relative))
        a.relative) :
    Keeps (fun a => !held a.relative && !replacedBelow
        ((plan.preDeletes.filter fun r => held r.relative).map (·.relative)) a.relative)
      (fun a => !held a.relative) plan plan' := by
  refine ⟨?_, hpost⟩
  rw [hpre, List.filter_filter]
  exact List.filter_congr fun a _ => Bool.and_comm ..

omit [Unicode] in
/-- A plan that is left as it is, because nothing is held back. -/
theorem keeps_of_none (held : RelPath → Bool) (hnone : ∀ a ∈ plan.deletes, held a.relative = false) :
    Keeps (fun a => !held a.relative && !replacedBelow
        ((plan.preDeletes.filter fun r => held r.relative).map (·.relative)) a.relative)
      (fun a => !held a.relative) plan plan := by
  have hpre : ∀ a ∈ plan.preDeletes, held a.relative = false :=
    fun a ha => hnone a (List.mem_append_left _ ha)
  have hpost : ∀ a ∈ plan.postDeletes, held a.relative = false :=
    fun a ha => hnone a (List.mem_append_right _ ha)
  have hno : (plan.preDeletes.filter fun r => held r.relative) = [] := by
    rw [List.filter_eq_nil_iff]
    intro r hr
    simp [hpre r hr]
  constructor
  · rw [hno, eq_comm, List.filter_eq_self]
    intro a ha
    simp [hpre a ha, replacedBelow]
  · rw [eq_comm, List.filter_eq_self]
    intro a ha
    simp [hpost a ha]

theorem removeDeferred_keeps {deferrals : DeferralIndex}
    (hplan : plan' = (removeDeferredFromPlan plan deferrals).1) :
    Keeps (fun a => (deferrals.covering a.relative).isNone)
      (fun a => (relatedDeferral deferrals a).isNone) plan plan' ∨
    plan' = plan ∧ deferrals.isEmpty = true := by
  simp only [removeDeferredFromPlan] at hplan
  split at hplan
  · rename_i hempty
    exact .inr ⟨hplan, hempty⟩
  · exact .inl ⟨by rw [hplan], by rw [hplan]⟩

/-- Without deferrals nothing is stranded. -/
theorem not_strands_of_empty {deferrals : DeferralIndex} (h : deferrals.isEmpty = true) :
    ¬Strands (ε := ε) (.removeDeferred deferrals) plan := by
  have hno : ∀ f, f ∉ deferrals.exact := by
    intro f hf
    have := Std.TreeMap.isEmpty_eq_false_iff_exists_mem.mpr ⟨f, hf⟩
    rw [DeferralIndex.isEmpty, this] at h
    cases h
  have hcov : ∀ p, (deferrals.covering p).isSome ≠ true := by
    intro p hp
    obtain ⟨f, hf, _⟩ := DeferralIndex.covering_isSome.mp hp
    exact hno f hf
  have hguard : ∀ w, guardCovered deferrals w ≠ true := by
    intro w hw
    rw [guardCovered] at hw
    cases hguard : w.destinationGuard with
    | none => rw [hguard] at hw; cases hw
    | some guard => rw [hguard] at hw; exact hcov _ hw
  rintro (⟨_, _, _, _, w, _, hw, _⟩ | ⟨a, _, _, _, w, habove, ⟨_, hw⟩ | ⟨_, hw⟩⟩)
  · exact hguard w hw
  · exact hcov _ hw
  · rcases relatedDeferral_isSome.mp hw with hw | hw
    · exact hguard w hw
    · obtain ⟨f, hf, _⟩ := (DeferralIndex.spellingRelated_isSome
        (by intro hroot; simp [hroot] at habove)).mp hw
      exact hno f hf

omit [Unicode] in
theorem protectSkipped_keeps {skipped : List SkippedRemoteEntry}
    (hplan : plan' = (protectSkippedRemoteEntries plan skipped).1) :
    Keeps (fun a => !(keptBySkipped skipped a.relative).isSome && !replacedBelow
        ((plan.preDeletes.filter fun r => (keptBySkipped skipped r.relative).isSome).map
          (·.relative)) a.relative)
      (fun a => !(keptBySkipped skipped a.relative).isSome) plan plan' := by
  have hkeep : ∀ a : DeleteAction, (keptBySkipped skipped a.relative).isNone =
      !(keptBySkipped skipped a.relative).isSome := fun a => by
    cases keptBySkipped skipped a.relative <;> rfl
  simp only [protectSkippedRemoteEntries, hkeep, Bool.not_not] at hplan
  split at hplan
  · rename_i hempty
    rw [hplan]
    refine keeps_of_none (fun p => (keptBySkipped skipped p).isSome) fun a _ => ?_
    simp [keptBySkipped, List.isEmpty_iff.mp hempty]
  · refine keeps_of_held (fun p => (keptBySkipped skipped p).isSome) ?_ ?_
    · split at hplan
      · rw [hplan]
      · rw [hplan]; rfl
    · split at hplan
      · rename_i hnone
        rw [hplan, List.isEmpty_iff.mp hnone]
        simp [replacedBelow]
      · rw [hplan]
        rfl

omit [Unicode] in
theorem withholdAmbiguousDeletions_keeps (plan : SyncPlan) (ambiguous : List RelPath)
    (hplan : plan' = withholdAmbiguousDeletions plan ambiguous) :
    Keeps (fun a => !commaHolds ambiguous a.relative && !replacedBelow
        ((plan.preDeletes.filter fun r => commaHolds ambiguous r.relative).map (·.relative))
          a.relative)
      (fun a => !commaHolds ambiguous a.relative) plan plan' := by
  simp only [withholdAmbiguousDeletions] at hplan
  split at hplan
  · rename_i hempty
    rw [hplan]
    exact keeps_of_none (commaHolds ambiguous) fun a _ => by
      simp [commaHolds, aboveAmbiguous, List.isEmpty_iff.mp hempty]
  · refine keeps_of_held (commaHolds ambiguous) ?_ ?_
    · split at hplan <;> rw [hplan] <;> rfl
    · split at hplan
      · rename_i hnone
        have hnone : ((plan.preDeletes.filter fun r => commaHolds ambiguous r.relative).map
            (·.relative)) = [] := List.isEmpty_iff.mp hnone
        rw [hplan, hnone]
        simp only [replacedBelow, List.any_nil, Bool.not_false, List.filter_true]
        rfl
      · rw [hplan]
        rfl

/-- What each operation keeps of the deletions: it is clear unless it strands a folder. -/
theorem narrows_keeps {op : Narrowing ε} (hstep : narrows op plan plan') :
    ∃ before after, Keeps before after plan plan' ∧ (Clear before after plan ↔ ¬Strands op plan) := by
  obtain ⟨deferred, hstep⟩ := hstep
  cases op with
  | removeDeferred deferrals =>
    rcases removeDeferred_keeps (congrArg Prod.fst (Except.ok.inj hstep)).symm with
      hkeeps | ⟨rfl, hempty⟩
    · exact ⟨_, _, hkeeps, clear_removeDeferred⟩
    · refine ⟨fun _ => true, fun _ => true, ⟨by simp, by simp⟩, ?_⟩
      simp [not_strands_of_empty hempty, Clear]
  | protectSkipped skipped =>
    exact ⟨_, _, protectSkipped_keeps (congrArg Prod.fst (Except.ok.inj hstep)).symm,
      clear_of_held (fun p => (keptBySkipped skipped p).isSome) (keptBySkipped_upward skipped)⟩
  | withholdIncomplete incomplete =>
    have hplan := (congrArg Prod.fst (Except.ok.inj hstep)).symm
    refine ⟨fun _ => true, fun a => !listingWithholds a.relative incomplete, ⟨?_, ?_⟩, ?_⟩
    · simp only [withholdDeletionsInIncompleteListings] at hplan
      split at hplan <;> rw [hplan] <;> simp
    · simp only [withholdDeletionsInIncompleteListings] at hplan
      split at hplan
      · rename_i hempty
        rw [hplan, List.isEmpty_iff.mp hempty]
        simp [listingWithholds]
      · rw [hplan]
    · simp only [Clear, Strands, Bool.not_eq_false', Bool.not_eq_true']
      constructor
      · rintro hclear ⟨a, ha, hdir, w, hw, hheld, habove⟩
        exact hclear w (.inr ⟨hw, hheld⟩) a (.inl ⟨ha, trivial⟩) hdir habove
      · rintro hno w (⟨_, hw⟩ | ⟨hw, hheld⟩) a ha hdir habove
        · cases hw
        · rcases ha with ⟨ha, _⟩ | ⟨_, hkept⟩
          · exact hno ⟨a, ha, hdir, w, hw, hheld, habove⟩
          · rw [listingWithholds_upward habove hheld] at hkept
            cases hkept
  | withholdComma lookup R =>
    obtain ⟨deletions, hdeletions, hstep⟩ := Loop.bind_eq_ok.mp hstep
    obtain ⟨renames, _, hstep⟩ := Loop.bind_eq_ok.mp hstep
    obtain ⟨copies, _, hstep⟩ := Loop.bind_eq_ok.mp hstep
    obtain ⟨rfl, _⟩ := Prod.mk.inj (Except.ok.inj hstep)
    have hpaths : deletions.map (·.1.relative) = ambiguousPaths lookup R plan := by
      rw [ambiguousPaths, ← ambiguousOf_eq_ok hdeletions, List.map_map]
      rfl
    have hkeeps := withholdAmbiguousDeletions_keeps plan (deletions.map (·.1.relative)) rfl
    rw [hpaths] at hkeeps ⊢
    exact ⟨_, _, ⟨hkeeps.preDeletes, hkeeps.postDeletes⟩,
      clear_of_held _ (commaHolds_upward (ambiguousPaths lookup R plan))⟩

/-- Along a run of narrowing operations no folder above a withheld deletion is still to be deleted
exactly if no operation leaves one there. -/
theorem executable_along_iff (plan : SyncPlan) (ops : List (Narrowing ε)) :
    Along narrows (Executable plan) ops plan ↔ EachStep narrows (fun op p => ¬Strands op p) ops plan := by
  refine along_iff (I := Within plan) ?_ ?_ ⟨fun _ h => h, fun _ h => h⟩ ?_
  · intro op p p' hstep hwithin _
    obtain ⟨before, after, hkeeps, _⟩ := narrows_keeps hstep
    exact hkeeps.within hwithin
  · intro op p p' hstep hwithin hexec
    obtain ⟨before, after, hkeeps, hclear⟩ := narrows_keeps hstep
    rw [hkeeps.executable_iff hwithin hexec, hclear]
  · rintro w (⟨hw, hout⟩ | ⟨hw, hout⟩)
    · exact absurd hw hout
    · exact absurd hw hout

end Operations

/-! ## The copy of the renamed folder is deferred

The file of the old folder stays, as its copy did not happen, and the folder is deleted. -/

namespace RenamedFolder

open Small

/-- Everything beneath a folder the plan deletes is deleted too. -/
def DeletesWhole (plan : SyncPlan) (R : RemoteInventory) : Prop :=
  ∀ a ∈ plan.deletes, a.kind = .directory → ∀ e ∈ R.entries.values,
    a.relative ∈ e.relative.ancestors → ∃ d ∈ plan.deletes, d.relative = e.relative

instance (plan : SyncPlan) (R : RemoteInventory) : Decidable (DeletesWhole plan R) :=
  inferInstanceAs (Decidable (∀ a ∈ plan.deletes, a.kind = .directory → ∀ e ∈ R.entries.values,
    a.relative ∈ e.relative.ancestors → ∃ d ∈ plan.deletes, d.relative = e.relative))

theorem not_executable : letI := charwise
    ¬∀ (plan : SyncPlan) (R : RemoteInventory), DeletesWhole plan R →
      (∃ root L rules options, buildPlan root L R rules options = .ok plan) →
      ∀ ops : List (Narrowing Unit), Along narrows (Executable plan) ops plan := by
  let := charwise
  intro h
  let deferrals := DeferralIndex.fromRecords [⟨file 'n', .sourceChanged, ""⟩]
  have hplan : Loop.okAnd (buildPlan root localSide remoteSide noRules options) (fun plan =>
      decide (DeletesWhole plan remoteSide) &&
        plan.postDeletes.any fun w =>
          (removeDeferredFromPlan plan deferrals).1.postDeletes.all (fun a => decide (a ≠ w)) &&
          (removeDeferredFromPlan plan deferrals).1.postDeletes.any fun a =>
            decide (a.kind = .directory) && decide (a.relative ∈ w.relative.ancestors)) = true := by
    decide +kernel
  obtain ⟨plan, hplan, hwhole⟩ := Loop.exists_of_okAnd hplan
  simp only [Bool.and_eq_true, decide_eq_true_eq, List.any_eq_true, List.all_eq_true] at hwhole
  obtain ⟨hwhole, w, hw, hout, a, ha, hdir, habove⟩ := hwhole
  have halong := h plan remoteSide hwhole ⟨root, localSide, noRules, options, hplan⟩
    [.removeDeferred deferrals]
  exact halong.2 _ ⟨_, rfl⟩ w (.inr ⟨hw, fun hmem => hout w hmem rfl⟩) a
    (List.mem_append_right _ ha) hdir habove

end RenamedFolder
end DriveSync
