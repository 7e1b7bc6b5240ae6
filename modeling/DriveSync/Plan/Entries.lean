import DriveSync.Plan.Build

/-!
# DriveSync.Plan.Entries

What the loop over the local entries puts into a plan.

* `createOf`, `uploadOf`, `isUnchanged`, `replacedBy`: what one local entry comes to, read off the
  inventories and the resolution alone.
* `EntryStep`: the ways one step of the loop can go; `planEntry_step` says there are no others.
* `EntriesPlanned`: the plan after some of the entries, in those terms; `entries_planned` is that of
  all of them.
-/

namespace DriveSync

open Path

section Entries

variable [Unicode] (root : RemoteRoot) (R : RemoteInventory) (rules : IgnoreRules)
  (options : PlanOptions) (resolution : Resolution)

/-! ## What one entry comes to -/

/-- The absolute path a local entry is written to. -/
def destination (x : LocalEntry) : RelPath :=
  root.path.append (resolution.pairs.remoteRelative x.relative)

def createOf (x : LocalEntry) : Option CreateAction :=
  if resolution.shield.covers x.relative = true ∨ x.kind = .file then none
  else
    match resolution.pairs.remoteOf R x.relative with
    | none => some ⟨x.relative, destination root resolution x, .missingRemote⟩
    | some r =>
      match r.kind with
      | .file => some ⟨x.relative, destination root resolution x, .typeReplaced⟩
      | .directory => none

def uploadOf (x : LocalEntry) : Option UploadAction :=
  if resolution.shield.covers x.relative = true ∨ x.kind = .directory then none
  else
    match resolution.pairs.remoteOf R x.relative with
    | none => some ⟨x, destination root resolution x, .missingRemote, none⟩
    | some r =>
      match r.kind with
      | .file => (compareFiles x r options.compare).map fun reason =>
          ⟨x, destination root resolution x, reason, some (overwrittenSnapshot r)⟩
      | .directory => some ⟨x, destination root resolution x, .typeReplaced, none⟩

def isUnchanged (x : LocalEntry) : Bool :=
  !resolution.shield.covers x.relative && decide (x.kind = .file) &&
    (resolution.pairs.remoteOf R x.relative).any fun r =>
      decide (r.kind = .file) && (compareFiles x r options.compare).isNone

/-- The remote entries a local entry replaces. -/
def replacedBy (x : LocalEntry) : List RemoteEntry :=
  if resolution.shield.covers x.relative then []
  else
    match resolution.pairs.remoteOf R x.relative with
    | none => []
    | some r =>
      match x.kind, r.kind with
      | .directory, .file => [r]
      | .file, .directory => R.entries.subtree r.relative
      | _, _ => []

/-! ## The steps of the loop -/

/-- The plan with one more creation. -/
def Draft.create (draft : Draft) (x : LocalEntry) (reason : ChangeReason) : Draft :=
  { draft with plan := { draft.plan with
    creates := draft.plan.creates ++ [⟨x.relative, destination root resolution x, reason⟩] } }

/-- The plan with one more upload. -/
def Draft.upload (draft : Draft) (x : LocalEntry) (reason : ChangeReason)
    (expected : Option RemoteSnapshot) : Draft :=
  { draft with plan := { draft.plan with
    uploadBytes := saturatingAdd draft.plan.uploadBytes x.size
    uploads := draft.plan.uploads ++
      [⟨x, destination root resolution x, reason, expected⟩] } }

/-- The ways the loop can go with one local entry. -/
inductive EntryStep (draft : Draft) (x : LocalEntry) : Draft → Prop
  | shielded (h : resolution.shield.covers x.relative = true) : EntryStep draft x draft
  | missingFolder (h : resolution.shield.covers x.relative = false)
      (hr : resolution.pairs.remoteOf R x.relative = none) (hk : x.kind = .directory) :
      EntryStep draft x (draft.create root resolution x .missingRemote)
  | missingFile (h : resolution.shield.covers x.relative = false)
      (hr : resolution.pairs.remoteOf R x.relative = none) (hk : x.kind = .file) :
      EntryStep draft x (draft.upload root resolution x .missingRemote none)
  | folder (h : resolution.shield.covers x.relative = false) {r : RemoteEntry}
      (hr : resolution.pairs.remoteOf R x.relative = some r) (hk : x.kind = .directory)
      (hrk : r.kind = .directory) : EntryStep draft x draft
  | unchanged (h : resolution.shield.covers x.relative = false) {r : RemoteEntry}
      (hr : resolution.pairs.remoteOf R x.relative = some r) (hk : x.kind = .file)
      (hrk : r.kind = .file) (hc : compareFiles x r options.compare = none) :
      EntryStep draft x { draft with
        plan := { draft.plan with unchangedFiles := draft.plan.unchangedFiles + 1 } }
  | changed (h : resolution.shield.covers x.relative = false) {r : RemoteEntry}
      (hr : resolution.pairs.remoteOf R x.relative = some r) (hk : x.kind = .file)
      (hrk : r.kind = .file) {reason : ChangeReason}
      (hc : compareFiles x r options.compare = some reason) :
      EntryStep draft x
        (draft.upload root resolution x reason (some (overwrittenSnapshot r)))
  | replaceFile (h : resolution.shield.covers x.relative = false) {r : RemoteEntry}
      (hr : resolution.pairs.remoteOf R x.relative = some r) (hk : x.kind = .directory)
      (hrk : r.kind = .file) (hd : options.delete = true) {mid : Draft}
      (hmid : pushPredelete resolution.pairs R options.compare draft r = .ok mid) :
      EntryStep draft x (mid.create root resolution x .typeReplaced)
  | replaceFolder (h : resolution.shield.covers x.relative = false) {r : RemoteEntry}
      (hr : resolution.pairs.remoteOf R x.relative = some r) (hk : x.kind = .file)
      (hrk : r.kind = .directory) (hd : options.delete = true)
      (hkept : ∀ e ∈ R.entries.subtree r.relative, isKept rules resolution e = false)
      {mid : Draft} (hmid : (R.entries.subtree r.relative).foldlM
        (pushPredelete resolution.pairs R options.compare) draft = .ok mid) :
      EntryStep draft x (mid.upload root resolution x .typeReplaced none)

variable {root R rules options resolution}

theorem uploadOf_eq_some {x : LocalEntry} {u : UploadAction}
    (h : uploadOf root R options resolution x = some u) : u.entry = x ∧
      resolution.shield.covers x.relative = false ∧ x.kind = .file ∧
      u.remotePath = destination root resolution x := by
  simp only [uploadOf] at h
  split at h
  · cases h
  · rename_i hc
    simp only [not_or, Bool.not_eq_true] at hc
    have hk : x.kind = .file := by
      cases hk : x.kind with
      | file => rfl
      | directory => exact absurd hk hc.2
    split at h
    · cases h; exact ⟨rfl, hc.1, hk, rfl⟩
    · split at h
      · obtain ⟨reason, _, rfl⟩ := Option.map_eq_some_iff.mp h
        exact ⟨rfl, hc.1, hk, rfl⟩
      · cases h; exact ⟨rfl, hc.1, hk, rfl⟩

theorem createOf_eq_some {x : LocalEntry} {a : CreateAction}
    (h : createOf root R resolution x = some a) : a.relative = x.relative ∧
      resolution.shield.covers x.relative = false ∧ x.kind = .directory ∧
      a.remotePath = destination root resolution x := by
  simp only [createOf] at h
  split at h
  · cases h
  · rename_i hc
    simp only [not_or, Bool.not_eq_true] at hc
    have hk : x.kind = .directory := by
      cases hk : x.kind with
      | file => exact absurd hk hc.2
      | directory => rfl
    split at h
    · cases h; exact ⟨rfl, hc.1, hk, rfl⟩
    · split at h
      · cases h; exact ⟨rfl, hc.1, hk, rfl⟩
      · cases h

/-- An unshielded file is uploaded, or unchanged, and not both. -/
theorem uploadOf_isSome_iff {x : LocalEntry} (hcov : resolution.shield.covers x.relative = false)
    (hk : x.kind = .file) : (uploadOf root R options resolution x).isSome = true ↔
      isUnchanged R options resolution x = false := by
  simp only [uploadOf, isUnchanged, hcov, hk]
  cases hr : resolution.pairs.remoteOf R x.relative with
  | none => simp
  | some r =>
    cases hrk : r.kind with
    | directory => simp [hrk]
    | file =>
      cases hc : compareFiles x r options.compare with
      | none => simp [hrk, hc]
      | some reason => simp [hrk, hc]

theorem isUnchanged_file {x : LocalEntry} (h : isUnchanged R options resolution x = true) :
    resolution.shield.covers x.relative = false ∧ x.kind = .file := by
  simp only [isUnchanged, Bool.and_eq_true, Bool.not_eq_true', decide_eq_true_eq] at h
  exact h.1

theorem mem_values_of_mem_replacedBy {x : LocalEntry} {e : RemoteEntry}
    (h : e ∈ replacedBy R resolution x) : e ∈ R.entries.values := by
  simp only [replacedBy] at h
  split at h
  · simp at h
  · split at h
    · simp at h
    · rename_i r hr
      split at h
      · rw [List.mem_singleton.mp h]
        exact EntryMap.mem_values_of_get? hr
      · exact (EntryMap.mem_subtree.mp h).1
      · simp at h

omit [Unicode] in
theorem relative_of_remoteOf {x : LocalEntry} {r : RemoteEntry}
    (h : resolution.pairs.remoteOf R x.relative = some r) :
    r.relative = resolution.pairs.remoteRelative x.relative := EntryMap.relative_of_get? h

theorem mem_replacedBy {x : LocalEntry} {e : RemoteEntry} :
    e ∈ replacedBy R resolution x ↔ resolution.shield.covers x.relative = false ∧
      ∃ r, resolution.pairs.remoteOf R x.relative = some r ∧
        (x.kind = .directory ∧ r.kind = .file ∧ e = r ∨
          x.kind = .file ∧ r.kind = .directory ∧ e ∈ R.entries.subtree r.relative) := by
  simp only [replacedBy]
  split
  · rename_i h; simp [h]
  · rename_i h
    split
    · rename_i hr; simp [hr]
    · rename_i r hr
      split
      · rename_i hx hrk; simp [h, hr, hx, hrk]
      · rename_i hx hrk; simp [h, hr, hx, hrk]
      · rename_i hne hne'
        simp only [List.not_mem_nil, false_iff, not_and]
        rintro _ ⟨r', hr', ⟨hx, hrk, _⟩ | ⟨hx, hrk, _⟩⟩
        · exact hne hx (Option.some.inj (hr.symm.trans hr') ▸ hrk)
        · exact hne' hx (Option.some.inj (hr.symm.trans hr') ▸ hrk)

omit [Unicode] in
theorem joinRemote_eq_ok {p q : RelPath} (h : joinRemote root p = .ok q) :
    root.join p = .ok q ∧ q = root.path.append p := by
  have h := Loop.mapError_eq_ok.mp h
  exact ⟨h, RemoteRoot.join_eq h⟩

omit [Unicode] in
theorem scheduleCreate_eq_ok {plan plan' : SyncPlan} {x : LocalEntry} {p : RelPath}
    {reason : ChangeReason} (h : scheduleCreate root plan x p reason = .ok plan') :
    plan' = { plan with
      creates := plan.creates ++ [⟨x.relative, root.path.append p, reason⟩] } := by
  obtain ⟨q, hq, h⟩ := Loop.bind_eq_ok.mp h
  rw [← (joinRemote_eq_ok hq).2]
  exact (Except.ok.inj h).symm

omit [Unicode] in
theorem scheduleUpload_eq_ok {plan plan' : SyncPlan} {x : LocalEntry} {p : RelPath}
    {reason : ChangeReason} {expected : Option RemoteSnapshot}
    (h : scheduleUpload root plan x p reason expected = .ok plan') :
    plan' = { plan with
      uploadBytes := saturatingAdd plan.uploadBytes x.size
      uploads := plan.uploads ++ [⟨x, root.path.append p, reason, expected⟩] } := by
  obtain ⟨q, hq, h⟩ := Loop.bind_eq_ok.mp h
  rw [← (joinRemote_eq_ok hq).2]
  exact (Except.ok.inj h).symm

theorem planEntry_step {draft draft' : Draft} {x : LocalEntry}
    (h : planEntry root R rules options resolution draft x = .ok draft') :
    EntryStep root R rules options resolution draft x draft' := by
  simp only [planEntry] at h
  split at h
  · rename_i hcov
    cases h
    exact .shielded hcov
  · rename_i hcov
    have hcov := Bool.not_eq_true _ ▸ hcov
    split at h
    · rename_i hr
      obtain ⟨plan, hplan, h⟩ := Loop.bind_eq_ok.mp h
      obtain rfl := Except.ok.inj h
      simp only [scheduleMissing] at hplan
      split at hplan
      · rename_i hk
        rw [scheduleCreate_eq_ok hplan]
        exact .missingFolder hcov hr hk
      · rename_i hk
        rw [scheduleUpload_eq_ok hplan]
        exact .missingFile hcov hr hk
    · rename_i r hr
      split at h
      · rename_i hk hrk
        cases h
        exact .folder hcov hr hk hrk
      · rename_i hk hrk
        split at h
        · rename_i hc
          cases h
          exact .unchanged hcov hr hk hrk hc
        · rename_i reason hc
          obtain ⟨plan, hplan, h⟩ := Loop.bind_eq_ok.mp h
          obtain rfl := Except.ok.inj h
          rw [scheduleUpload_eq_ok hplan]
          exact .changed hcov hr hk hrk hc
      · rename_i hk hrk
        split at h
        · cases h
        · rename_i hd
          obtain ⟨mid, hmid, h⟩ := Loop.bind_eq_ok.mp h
          obtain ⟨plan, hplan, h⟩ := Loop.bind_eq_ok.mp h
          obtain rfl := Except.ok.inj h
          rw [scheduleCreate_eq_ok hplan]
          exact .replaceFile hcov hr hk hrk (by simpa using hd) hmid
      · rename_i hk hrk
        split at h
        · cases h
        · rename_i hd
          split at h
          · cases h
          · rename_i hkept
            obtain ⟨mid, hmid, h⟩ := Loop.bind_eq_ok.mp h
            obtain ⟨plan, hplan, h⟩ := Loop.bind_eq_ok.mp h
            obtain rfl := Except.ok.inj h
            rw [scheduleUpload_eq_ok hplan]
            refine .replaceFolder hcov hr hk hrk (by simpa using hd) ?_ hmid
            simpa using hkept

/-! ## Deletions before the entries that replace them -/

variable (R) in
/-- What a planned deletion records of its entry. -/
structure Deletes (pairs : Correspondence) (conflict : Bool) (e : RemoteEntry) (a : DeleteAction) :
    Prop where
  relative : a.relative = e.relative
  localRelative : a.localRelative = pairs.localRelative e.relative
  remotePath : a.remotePath = e.remotePath
  kind : a.kind = e.kind
  typeConflict : a.typeConflict = conflict

omit [Unicode] in
theorem deletes_of_deleteAction {pairs : Correspondence} {compare : CompareMode} {conflict : Bool}
    {e : RemoteEntry} {a : DeleteAction} (h : deleteAction pairs R compare conflict e = .ok a) :
    Deletes pairs conflict e a ∧ a.destinationGuard = none := by
  obtain ⟨snapshot, _, h⟩ := Loop.bind_eq_ok.mp h
  obtain rfl := Except.ok.inj h
  exact ⟨⟨rfl, rfl, rfl, rfl, rfl⟩, rfl⟩

/-- The deletions pushed so far are of entries in `P`, one for each path that counts as deleted. -/
structure Draft.Pushed (pairs : Correspondence) (R : RemoteInventory) (compare : CompareMode)
    (P : RemoteEntry → Prop) (draft : Draft) : Prop where
  sound : ∀ a ∈ draft.plan.preDeletes, ∃ e, P e ∧ deleteAction pairs R compare true e = .ok a
  keys : ∀ k, k ∈ draft.predeleted ↔ ∃ a ∈ draft.plan.preDeletes, a.relative = k
  nodup : (draft.plan.preDeletes.map (·.relative)).Nodup

omit [Unicode] in
theorem Draft.Pushed.mono {pairs : Correspondence} {compare : CompareMode}
    {P Q : RemoteEntry → Prop} {draft : Draft} (h : draft.Pushed pairs R compare P)
    (hPQ : ∀ e, P e → Q e) : draft.Pushed pairs R compare Q :=
  ⟨fun a ha => (h.sound a ha).imp fun e he => ⟨hPQ e he.1, he.2⟩, h.keys, h.nodup⟩

/-- Only the deletions of a plan are different, and none is gone. -/
structure Draft.Extends (draft draft' : Draft) : Prop where
  frame : draft'.plan = { draft.plan with preDeletes := draft'.plan.preDeletes }
  grown : ∀ k ∈ draft.predeleted, k ∈ draft'.predeleted

omit [Unicode] in
theorem Draft.Extends.refl (draft : Draft) : draft.Extends draft := ⟨rfl, fun _ h => h⟩

omit [Unicode] in
theorem Draft.Extends.trans {a b c : Draft} (h : a.Extends b) (h' : b.Extends c) : a.Extends c :=
  ⟨by rw [h'.frame, h.frame], fun k hk => h'.grown k (h.grown k hk)⟩

omit [Unicode] in
theorem pushPredelete_pushed {pairs : Correspondence} {compare : CompareMode}
    {P : RemoteEntry → Prop} {draft draft' : Draft} {e : RemoteEntry}
    (hdraft : draft.Pushed pairs R compare P) (he : P e)
    (h : pushPredelete pairs R compare draft e = .ok draft') :
    draft'.Pushed pairs R compare P ∧ draft.Extends draft' ∧ e.relative ∈ draft'.predeleted := by
  simp only [pushPredelete] at h
  split at h
  · rename_i hmem
    cases h
    exact ⟨hdraft, .refl _, Std.TreeSet.contains_iff_mem.mp hmem⟩
  · rename_i hmem
    obtain ⟨a, ha, h⟩ := Loop.bind_eq_ok.mp h
    obtain rfl := Except.ok.inj h
    have hrel := (deletes_of_deleteAction ha).1.relative
    have hins : ∀ k, k ∈ draft.predeleted.insert e.relative ↔
        e.relative = k ∨ k ∈ draft.predeleted := by
      intro k
      rw [Std.TreeSet.mem_insert, compare_eq_iff_eq]
    refine ⟨⟨?_, ?_, ?_⟩, ⟨rfl, fun k hk => (hins k).mpr (.inr hk)⟩, (hins _).mpr (.inl rfl)⟩
    · intro b hb
      rcases List.mem_append.mp hb with hb | hb
      · exact hdraft.sound b hb
      · obtain rfl := List.mem_singleton.mp hb
        exact ⟨e, he, ha⟩
    · intro k
      rw [hins, hdraft.keys]
      simp only [List.mem_append, List.mem_singleton, or_and_right, exists_or, exists_eq_left, hrel]
      exact or_comm
    · rw [List.map_append, List.nodup_append]
      refine ⟨hdraft.nodup, by simp, ?_⟩
      intro k hk k' hk' heq
      simp only [List.map_cons, List.map_nil, List.mem_singleton] at hk'
      obtain ⟨b, hb, hbk⟩ := List.mem_map.mp hk
      refine hmem (Std.TreeSet.contains_iff_mem.mpr ((hdraft.keys _).mpr ⟨b, hb, ?_⟩))
      rw [hbk, heq, hk', hrel]

omit [Unicode] in
theorem foldlM_pushPredelete {pairs : Correspondence} {compare : CompareMode}
    {P : RemoteEntry → Prop} {draft draft' : Draft} {l : List RemoteEntry}
    (hdraft : draft.Pushed pairs R compare P) (hl : ∀ e ∈ l, P e)
    (h : l.foldlM (pushPredelete pairs R compare) draft = .ok draft') :
    draft'.Pushed pairs R compare P ∧ draft.Extends draft' ∧
      ∀ e ∈ l, e.relative ∈ draft'.predeleted := by
  refine Loop.foldlM_done (I := fun done d => d.Pushed pairs R compare P ∧ draft.Extends d ∧
    ∀ e ∈ done, e.relative ∈ d.predeleted) l ⟨hdraft, .refl _, by simp⟩ ?_ h
  rintro done e rest d d' rfl ⟨hd, hext, hdone⟩ hpush
  obtain ⟨hd', hext', he⟩ := pushPredelete_pushed hd (hl e (by simp)) hpush
  refine ⟨hd', hext.trans hext', ?_⟩
  intro e' he'
  rcases List.mem_append.mp he' with he' | he'
  · exact hext'.grown _ (hdone e' he')
  · rw [List.mem_singleton.mp he']; exact he

/-! ## The loop -/

variable (root R rules options resolution) in
/-- The plan after the local entries of `done`. -/
structure EntriesPlanned (start : SyncPlan) (done : List LocalEntry) (draft : Draft) : Prop where
  frame : draft.plan = { start with
    preDeletes := draft.plan.preDeletes
    creates := start.creates ++ done.filterMap (createOf root R resolution)
    uploads := start.uploads ++ done.filterMap (uploadOf root R options resolution)
    unchangedFiles := start.unchangedFiles + done.countP (isUnchanged R options resolution)
    uploadBytes := draft.plan.uploadBytes }
  pushed : draft.Pushed resolution.pairs R options.compare
    fun e => ∃ x ∈ done, e ∈ replacedBy R resolution x
  replaced : ∀ x ∈ done, ∀ e ∈ replacedBy R resolution x, e.relative ∈ draft.predeleted
  mirror : ∀ x ∈ done, replacedBy R resolution x ≠ [] → options.delete = true
  clear : ∀ x ∈ done, x.kind = .file →
    ∀ e ∈ replacedBy R resolution x, isKept rules resolution e = false

/-- One entry more, by what it adds to each part of the plan. -/
theorem EntriesPlanned.append {start : SyncPlan} {done : List LocalEntry} {draft draft' : Draft}
    {x : LocalEntry} (h : EntriesPlanned root R rules options resolution start done draft)
    (frame : draft'.plan = { draft.plan with
      preDeletes := draft'.plan.preDeletes
      creates := draft.plan.creates ++ (createOf root R resolution x).toList
      uploads := draft.plan.uploads ++ (uploadOf root R options resolution x).toList
      unchangedFiles := draft.plan.unchangedFiles +
        if isUnchanged R options resolution x then 1 else 0
      uploadBytes := draft'.plan.uploadBytes })
    (pushed : draft'.Pushed resolution.pairs R options.compare
      fun e => (∃ y ∈ done, e ∈ replacedBy R resolution y) ∨ e ∈ replacedBy R resolution x)
    (grown : ∀ k ∈ draft.predeleted, k ∈ draft'.predeleted)
    (replaced : ∀ e ∈ replacedBy R resolution x, e.relative ∈ draft'.predeleted)
    (mirror : replacedBy R resolution x ≠ [] → options.delete = true)
    (clear : x.kind = .file →
      ∀ e ∈ replacedBy R resolution x, isKept rules resolution e = false) :
    EntriesPlanned root R rules options resolution start (done ++ [x]) draft' := by
  refine ⟨?_, pushed.mono ?_, ?_, ?_, ?_⟩
  · have single : ∀ {β : Type} (f : LocalEntry → Option β), [x].filterMap f = (f x).toList := by
      intro β f
      cases hf : f x <;> simp [hf]
    rw [frame, h.frame]
    simp only [List.filterMap_append, List.countP_append, List.countP_singleton,
      List.append_assoc, Nat.add_assoc, single]
  · rintro e (⟨y, hy, he⟩ | he)
    · exact ⟨y, by simp [hy], he⟩
    · exact ⟨x, by simp, he⟩
  · intro y hy e he
    rcases List.mem_append.mp hy with hy | hy
    · exact grown _ (h.replaced y hy e he)
    · obtain rfl := List.mem_singleton.mp hy
      exact replaced e he
  · intro y hy hne
    rcases List.mem_append.mp hy with hy | hy
    · exact h.mirror y hy hne
    · obtain rfl := List.mem_singleton.mp hy
      exact mirror hne
  · intro y hy hk e he
    rcases List.mem_append.mp hy with hy | hy
    · exact h.clear y hy hk e he
    · obtain rfl := List.mem_singleton.mp hy
      exact clear hk e he

/-- A step that deletes nothing first. -/
theorem EntriesPlanned.append_of_replacedBy_nil {start : SyncPlan} {done : List LocalEntry}
    {draft draft' : Draft} {x : LocalEntry}
    (h : EntriesPlanned root R rules options resolution start done draft)
    (hnil : replacedBy R resolution x = []) (hpre : draft'.predeleted = draft.predeleted)
    (hdel : draft'.plan.preDeletes = draft.plan.preDeletes)
    (frame : draft'.plan = { draft.plan with
      preDeletes := draft'.plan.preDeletes
      creates := draft.plan.creates ++ (createOf root R resolution x).toList
      uploads := draft.plan.uploads ++ (uploadOf root R options resolution x).toList
      unchangedFiles := draft.plan.unchangedFiles +
        if isUnchanged R options resolution x then 1 else 0
      uploadBytes := draft'.plan.uploadBytes }) :
    EntriesPlanned root R rules options resolution start (done ++ [x]) draft' := by
  refine h.append frame ⟨?_, ?_, ?_⟩ ?_ ?_ ?_ ?_
  · rw [hdel]
    exact fun a ha => (h.pushed.sound a ha).imp fun e he => ⟨.inl he.1, he.2⟩
  · rw [hdel, hpre]
    exact h.pushed.keys
  · rw [hdel]
    exact h.pushed.nodup
  · rw [hpre]
    exact fun k hk => hk
  · simp [hnil]
  · simp [hnil]
  · simp [hnil]

theorem entryStep_planned {start : SyncPlan} {done : List LocalEntry} {draft draft' : Draft}
    {x : LocalEntry} (hdraft : EntriesPlanned root R rules options resolution start done draft)
    (h : EntryStep root R rules options resolution draft x draft') :
    EntriesPlanned root R rules options resolution start (done ++ [x]) draft' := by
  cases h with
  | shielded h =>
    refine hdraft.append_of_replacedBy_nil (by simp [replacedBy, h]) rfl rfl ?_
    simp [createOf, uploadOf, isUnchanged, h]
  | missingFolder h hr hk =>
    refine hdraft.append_of_replacedBy_nil (by simp [replacedBy, h, hr]) rfl rfl ?_
    simp [Draft.create, createOf, uploadOf, isUnchanged, h, hr, hk]
  | missingFile h hr hk =>
    refine hdraft.append_of_replacedBy_nil (by simp [replacedBy, h, hr]) rfl rfl ?_
    simp [Draft.upload, createOf, uploadOf, isUnchanged, h, hr, hk]
  | folder h hr hk hrk =>
    refine hdraft.append_of_replacedBy_nil (by simp [replacedBy, h, hr, hk, hrk]) rfl rfl ?_
    simp [createOf, uploadOf, isUnchanged, h, hr, hk, hrk]
  | unchanged h hr hk hrk hc =>
    refine hdraft.append_of_replacedBy_nil (by simp [replacedBy, h, hr, hk, hrk]) rfl rfl ?_
    simp [createOf, uploadOf, isUnchanged, h, hr, hk, hrk, hc]
  | changed h hr hk hrk hc =>
    refine hdraft.append_of_replacedBy_nil (by simp [replacedBy, h, hr, hk, hrk]) rfl rfl ?_
    simp [Draft.upload, createOf, uploadOf, isUnchanged, h, hr, hk, hrk, hc]
  | @replaceFile h r hr hk hrk hd mid hmid =>
    have hrep : replacedBy R resolution x = [r] := by simp [replacedBy, h, hr, hk, hrk]
    obtain ⟨hpushed, hext, hmem⟩ := pushPredelete_pushed
      (hdraft.pushed.mono (Q := fun e => (∃ y ∈ done, e ∈ replacedBy R resolution y) ∨
        e ∈ replacedBy R resolution x) fun e he => .inl he) (.inr (by simp [hrep])) hmid
    refine hdraft.append ?_ ⟨hpushed.sound, hpushed.keys, hpushed.nodup⟩ hext.grown
      (by simp only [hrep, List.mem_singleton, forall_eq]; exact hmem) (fun _ => hd) ?_
    · simp only [Draft.create]
      rw [hext.frame]
      simp [createOf, uploadOf, isUnchanged, h, hr, hk, hrk]
    · intro hk'
      simp [hk] at hk'
  | @replaceFolder h r hr hk hrk hd hkept mid hmid =>
    have hrep : replacedBy R resolution x = R.entries.subtree r.relative := by
      simp [replacedBy, h, hr, hk, hrk]
    obtain ⟨hpushed, hext, hmem⟩ := foldlM_pushPredelete
      (hdraft.pushed.mono (Q := fun e => (∃ y ∈ done, e ∈ replacedBy R resolution y) ∨
        e ∈ replacedBy R resolution x) fun e he => .inl he) (fun e he => .inr (hrep ▸ he)) hmid
    refine hdraft.append ?_ ⟨hpushed.sound, hpushed.keys, hpushed.nodup⟩ hext.grown
      (by rw [hrep]; exact hmem) (fun _ => hd) (fun _ => by rw [hrep]; exact hkept)
    simp only [Draft.upload]
    rw [hext.frame]
    simp [createOf, uploadOf, isUnchanged, h, hr, hk, hrk]

/-- The plan after the loop over all local entries. -/
theorem entries_planned {L : LocalInventory} {start : SyncPlan} {draft : Draft}
    (hstart : start.preDeletes = [])
    (h : L.entries.values.foldlM (planEntry root R rules options resolution) ⟨start, ∅⟩ =
      .ok draft) :
    EntriesPlanned root R rules options resolution start L.entries.values draft := by
  refine Loop.foldlM_done (I := EntriesPlanned root R rules options resolution start)
    L.entries.values ?_ (fun done x rest d d' _ hd hstep =>
      entryStep_planned hd (planEntry_step hstep)) h
  refine ⟨by simp, ⟨by simp [hstart], ?_, by simp [hstart]⟩, by simp, by simp, by simp⟩
  intro k
  simp [hstart]

end Entries

end DriveSync
