import DriveSync.Sync.Originals

/-!
# DriveSync.Sync.Misspelled

A replaced entry that the NAS spells otherwise than the source can be lost: some run deletes it
although its replacement is left, or writes where it still stands.

* `obliging`: answers that let everything succeed but the sources refused and the entries changed.
* `wp_opening_obliging`, `wp_creates_obliging`: what such a run leaves and asks for by then.
* `keepsOriginals_iff`: so exactly the plans whose replaced entries are spelled alike lose nothing.
-/

namespace DriveSync

open Path Prog

/-- Everything succeeds, but some sources cannot be read, and some entries have changed. -/
def obliging (refused changed : RelPath → Bool) : Env runInterface := fun log call =>
  match call with
  | .preflightUploadReadable entry =>
    if refused entry.relative then .error (.sourceChanged (spelled entry.relative)) else .ok ()
  | .verifyRemoteSnapshotBatch _ _ checks =>
    .ok ⟨checks.map fun check => if changed check.remotePath then .changed else .matching, by
      rw [List.length_map]⟩
  | call => GoneSource.answers (.ok ()) log call

/-- A deletion that comes first and is kept: its entry has changed, or one beneath it has. -/
def HeldBack (plan : SyncPlan) (changed : RelPath → Bool) (f : RelPath) : Prop :=
  ∃ d ∈ plan.preDeletes, d.relative = f ∧
    ∃ d' ∈ plan.preDeletes, changed d'.remotePath = true ∧ AtOrUnder f d'.relative

/-- Asks for no deletion. -/
def Deletionless (e : RunEntry) : Prop := ∀ p reply, e ≠ .asked (.deleteNonRecursive p) reply

theorem deletionless_of (e : RunEntry) (h : Quiet e ∨ Telling e) : Deletionless e :=
  not_delete_of h

/-- Nothing is deleted, and the folder of an action is created. -/
structure Creates (a : CreateAction) (new : List RunEntry) : Prop where
  deletionless : ∀ e ∈ new, Deletionless e
  asked : .asked (.createFolder a.remotePath) (.ok ()) ∈ new

/-- A log goes on from a front of its own. -/
def Unfolds (P : List RunEntry → List RunEntry → Prop) (log : List RunEntry) : Prop :=
  ∃ front new, front ++ new <+: log ∧ P front new

theorem Unfolds.grows {P : List RunEntry → List RunEntry → Prop} {log log' : List RunEntry}
    (h : Unfolds P log) (hlog : log <+: log') : Unfolds P log' := by
  obtain ⟨front, new, hfront, hrest⟩ := h
  exact ⟨front, new, hfront.trans hlog, hrest⟩

section Run

variable [Unicode] {refused changed : RelPath → Bool} {plan : SyncPlan} {env : Env runInterface}
  {w w' w₀ : World runInterface Run} {kept : KeptSet} {b : DeleteAction} {done : List DeleteAction}

/-! ## Small steps -/

omit [Unicode] in
theorem deletionless_looked :
    ∀ e ∈ [(.asked .cancelRequested (false : Bool) : RunEntry)], Deletionless e := by
  intro e he
  obtain rfl := List.mem_singleton.mp he
  exact deletionless_of _ (.inl rfl)

theorem wp_checkCancelled_obliging (hcancelled : w.state.cancelled = false) :
    wp (obliging refused changed) checkCancelled
      (fun _ w' => w'.state.cancelled = false ∧ w'.state.deferrals = w.state.deferrals ∧
        w'.log = w.log ++ [.asked .cancelRequested (false : Bool)])
      (fun _ _ => False) w := by
  simp only [checkCancelled, wp_bind, wp_isCancelled]
  have hanswer :
      (w.state.cancelled || obliging refused changed w.log .cancelRequested) = false := by
    rw [hcancelled]
    rfl
  rw [hanswer, if_neg Bool.false_ne_true]
  exact ⟨rfl, rfl, rfl⟩

theorem wp_defer_cancelled {relative : RelPath} {reason : DeferReason} {detail : String} :
    wp env (defer relative reason detail)
      (fun _ w' => w'.state.cancelled = w.state.cancelled) (fun _ _ => False) w := by
  simp only [defer, wp_bind, wp_get]
  split <;> rfl

theorem wp_verifyLiveSnapshot_obliging {check : SnapshotCheck}
    (hevidence : check.evidence = .serverProduced) :
    wp (obliging refused changed) (verifyLiveSnapshot check)
      (fun _ w' => w'.state = w.state ∧ ∃ new, w'.log = w.log ++ new ∧ ∀ e ∈ new, Quiet e)
      (fun _ _ => False) w := by
  have hreads : Survives (fun _ => false) (fun _ => False) (verifyLiveSnapshot check) :=
    survives_verifyLiveSnapshot (by simp)
  have hpasses : wp (obliging refused changed) (verifyLiveSnapshot check)
      (fun _ w' => w'.state = w.state) (fun _ _ => False) w := by
    unfold verifyLiveSnapshot
    dsimp only
    rw [hevidence]
    cases check.expected.contentMd5 <;> rfl
  refine wp_mono (wp_and (hreads _ w) hpasses) (fun _ w' h => ?_) fun _ _ h => h.2
  obtain ⟨⟨new, hadds, hquiet, _⟩, hstate⟩ := h
  exact ⟨hstate, new, hadds.log, fun e he => (hquiet e he).resolve_right id⟩

/-! ## Sources -/

theorem wp_preflightOne_obliging {entry : LocalEntry} {relative : RelPath}
    (hcancelled : w.state.cancelled = false) :
    wp (obliging refused changed) (preflightOne entry relative)
      (fun _ w' => w'.state.cancelled = false ∧ ∀ f, f ∈ w'.state.deferrals.exact ↔
        f ∈ w.state.deferrals.exact ∨ refused entry.relative = true ∧ relative = f)
      (fun _ _ => False) w := by
  unfold preflightOne
  rw [wp_bind]
  refine wp_mono (wp_checkCancelled_obliging hcancelled) (fun _ w₁ h₁ => ?_) fun _ _ h => h
  obtain ⟨hcancelled₁, hsame, _⟩ := h₁
  rw [wp_bind, wp_request, ← hsame]
  cases hrefused : refused entry.relative with
  | true =>
    have hreply : obliging refused changed w₁.log (.preflightUploadReadable entry) =
        .error (.sourceChanged (spelled entry.relative)) := if_pos hrefused
    rw [hreply]
    refine wp_mono (wp_and wp_defer_exact wp_defer_cancelled) (fun _ w₂ h₂ => ?_) fun _ _ h => h.1
    refine ⟨h₂.2.trans hcancelled₁, fun f => (h₂.1.2 f).trans ?_⟩
    simp [eq_comm]
  | false =>
    have hreply : obliging refused changed w₁.log (.preflightUploadReadable entry) = .ok () :=
      if_neg (by simp [hrefused])
    rw [hreply]
    exact ⟨hcancelled₁, fun f => by simp⟩

theorem wp_preflightAll_obliging {α : Type} {entry : α → LocalEntry} {relative : α → RelPath}
    (l : List α) (hcancelled : w.state.cancelled = false) :
    wp (obliging refused changed) (l.forM fun a => preflightOne (entry a) (relative a))
      (fun _ w' => w'.state.cancelled = false ∧ ∀ f, f ∈ w'.state.deferrals.exact ↔
        f ∈ w.state.deferrals.exact ∨
          ∃ a ∈ l, refused (entry a).relative = true ∧ relative a = f)
      (fun _ _ => False) w := by
  apply wp_forM l
  · exact ⟨hcancelled, by simp⟩
  · rintro done a rest w₁ _ ⟨hcancelled₁, hdone⟩
    refine wp_mono (wp_preflightOne_obliging hcancelled₁) (fun _ w₂ h₂ => ⟨h₂.1, fun f => ?_⟩)
      fun _ _ h => h
    rw [h₂.2, hdone, or_assoc]
    simp [or_and_right, exists_or]

theorem wp_preflight_obliging (hentry : ∀ c ∈ plan.copies, c.entry.relative = c.toRelative) :
    wp (obliging refused changed) (preflight plan)
      (fun _ w' => Did Telling ⟨[], .start⟩ w' ∧ w'.state.cancelled = false ∧
        ∀ f, f ∈ w'.state.deferrals.exact ↔ f ∈ plan.sources ∧ refused f = true)
      (fun _ _ => False) ⟨[], .start⟩ := by
  have hdid : Does Telling (preflight plan) :=
    does_preflight (fun _ _ _ => trivial) fun _ _ _ => trivial
  have hleft : wp (obliging refused changed) (preflight plan)
      (fun _ w' => w'.state.cancelled = false ∧
        ∀ f, f ∈ w'.state.deferrals.exact ↔ f ∈ plan.sources ∧ refused f = true)
      (fun _ _ => False) ⟨[], .start⟩ := by
    unfold preflight
    rw [wp_bind]
    refine wp_mono (wp_preflightAll_obliging plan.uploads rfl) (fun _ w₁ h₁ => ?_) fun _ _ h => h
    refine wp_mono (wp_preflightAll_obliging plan.copies h₁.1) (fun _ w₂ h₂ => ⟨h₂.1, fun f => ?_⟩)
      fun _ _ h => h
    rw [h₂.2, h₁.2, SyncPlan.sources, List.mem_append, List.mem_map, List.mem_map]
    constructor
    · rintro ((hstart | ⟨u, hu, hrefused, rfl⟩) | ⟨c, hc, hrefused, rfl⟩)
      · cases (DeferralIndex.not_mem_empty hstart)
      · exact ⟨.inl ⟨u, hu, rfl⟩, hrefused⟩
      · exact ⟨.inr ⟨c, hc, rfl⟩, hentry c hc ▸ hrefused⟩
    · rintro ⟨⟨u, hu, rfl⟩ | ⟨c, hc, rfl⟩, hrefused⟩
      · exact .inl (.inr ⟨u, hu, hrefused, rfl⟩)
      · exact .inr ⟨c, hc, (hentry c hc).symm ▸ hrefused, rfl⟩
  exact wp_mono (wp_and (hdid _ _) hleft) (fun _ _ h => h) fun _ _ h => h.2

/-! ## The deletions that come first -/

/-- The first deletions of `done` are carried out, but those held back. -/
structure Obliged (plan : SyncPlan) (changed : RelPath → Bool) (w₀ : World runInterface Run)
    (done : List DeleteAction) (kept : KeptSet) (w : World runInterface Run) : Prop where
  cancelled : w.state.cancelled = false
  exact : ∀ f ∈ w.state.deferrals.exact, f ∈ w₀.state.deferrals.exact ∨ HeldBack plan changed f
  kept : ∀ f ∈ kept, HeldBack plan changed f
  log : ∃ new, w.log = w₀.log ++ new ∧
    (∀ p reply, .asked (.deleteNonRecursive p) reply ∈ new → changed p = false) ∧
    ∀ d ∈ done, HeldBack plan changed d.relative ∨
      .asked (.deleteNonRecursive d.remotePath) (.ok ()) ∈ new

theorem Obliged.went {new : List RunEntry} (h : Obliged plan changed w₀ done kept w)
    (hlog : w'.log = w.log ++ new) (hnew : ∀ e ∈ new, Deletionless e)
    (hcancelled : w'.state.cancelled = false)
    (hexact : ∀ f ∈ w'.state.deferrals.exact, f ∈ w.state.deferrals.exact) :
    Obliged plan changed w₀ done kept w' := by
  obtain ⟨new₀, hlog₀, hunchanged, hdone⟩ := h.log
  refine ⟨hcancelled, fun f hf => h.exact f (hexact f hf), h.kept, new₀ ++ new, ?_, ?_, ?_⟩
  · rw [hlog, hlog₀, List.append_assoc]
  · intro p reply hmem
    rcases List.mem_append.mp hmem with hmem | hmem
    · exact hunchanged p reply hmem
    · exact absurd rfl (hnew _ hmem p reply)
  · exact fun d hd => (hdone d hd).imp id (List.mem_append_left _)

theorem Obliged.holds (h : Obliged plan changed w₀ done kept w)
    (hb : HeldBack plan changed b.relative) (hd : Did Telling w w')
    (hcancelled : w'.state.cancelled = false)
    (hexact : ∀ f, f ∈ w'.state.deferrals.exact ↔ f ∈ w.state.deferrals.exact ∨ f = b.relative) :
    Obliged plan changed w₀ (done ++ [b]) (kept.insert b.relative ()) w' := by
  obtain ⟨new₀, hlog₀, hunchanged, hdone⟩ := h.log
  obtain ⟨new, hadds, htelling, _⟩ := hd
  refine ⟨hcancelled, fun f hf => ?_, fun f hf => ?_, new₀ ++ new, ?_, ?_, ?_⟩
  · rcases (hexact f).mp hf with hf | rfl
    · exact h.exact f hf
    · exact .inr hb
  · rw [Std.TreeMap.mem_insert, compare_eq_iff_eq] at hf
    rcases hf with rfl | hf
    · exact hb
    · exact h.kept f hf
  · rw [hadds.log, hlog₀, List.append_assoc]
  · intro p reply hmem
    rcases List.mem_append.mp hmem with hmem | hmem
    · exact hunchanged p reply hmem
    · exact absurd rfl (not_delete_of (htelling _ hmem) p reply)
  · intro d hd
    rcases List.mem_append.mp hd with hd | hd
    · exact (hdone d hd).imp id (List.mem_append_left _)
    · obtain rfl := List.mem_singleton.mp hd
      exact .inl hb

theorem Obliged.deletes (h : Obliged plan changed w₀ done kept w)
    (hb : changed b.remotePath = false) (event : ExecutionEvent)
    (completed : ExecutionReport) :
    Obliged plan changed w₀ (done ++ [b]) kept
      (((w.push (.asked (.deleteNonRecursive b.remotePath) (.ok ()))).put
        { w.state with completed := completed }).push (.told event)) := by
  obtain ⟨new₀, hlog₀, hunchanged, hdone⟩ := h.log
  refine ⟨h.cancelled, h.exact, h.kept, new₀ ++
    [.asked (.deleteNonRecursive b.remotePath) (.ok ()), .told event], ?_, ?_, ?_⟩
  · show w.log ++ [_] ++ [_] = _
    rw [hlog₀, List.append_assoc, List.append_assoc]
    rfl
  · intro p reply hmem
    rcases List.mem_append.mp hmem with hmem | hmem
    · exact hunchanged p reply hmem
    · rcases List.mem_cons.mp hmem with heq | hmem
      · cases heq
        exact hb
      · cases List.mem_singleton.mp hmem
  · intro d hd
    rcases List.mem_append.mp hd with hd | hd
    · exact (hdone d hd).imp id (List.mem_append_left _)
    · obtain rfl := List.mem_singleton.mp hd
      exact .inr (by simp)

/-- How the batch answers for a deletion. -/
def obligedVerdict (changed : RelPath → Bool) (b : DeleteAction) : SnapshotVerdict :=
  if changed b.remotePath then .changed else .matching

theorem wp_preDeleteChanged_obliging :
    wp (obliging refused changed) (preDeleteChanged kept b (obligedVerdict changed b))
      (fun answer w' => answer = (changed b.remotePath || keptDescendant kept b.relative) ∧
        w'.state = w.state ∧ ∃ new, w'.log = w.log ++ new ∧ ∀ e ∈ new, Quiet e)
      (fun _ _ => False) w := by
  unfold preDeleteChanged obligedVerdict
  cases hchanged : changed b.remotePath with
  | true => exact ⟨by simp, rfl, [], by simp⟩
  | false =>
    cases hkept : keptDescendant kept b.relative with
    | true => exact ⟨by simp, rfl, [], by simp⟩
    | false =>
      simp only [reduceIte, Bool.false_eq_true, reduceCtorEq, decide_false, Bool.or_self]
      rw [wp_bind, wp_attempt]
      refine wp_mono (wp_verifyLiveSnapshot_obliging rfl) (fun _ w' h => ?_) fun _ _ h => h.elim
      exact ⟨rfl, h⟩

theorem wp_preDeleteOne_obliging (h : Obliged plan changed w₀ done kept w)
    (hb : b ∈ plan.preDeletes) :
    wp (obliging refused changed) (preDeleteOne kept (b, obligedVerdict changed b))
      (Obliged plan changed w₀ (done ++ [b])) (fun _ _ => False) w := by
  unfold preDeleteOne
  dsimp only
  rw [wp_bind]
  refine wp_mono (wp_checkCancelled_obliging h.cancelled) (fun _ w₁ h₁ => ?_) fun _ _ h => h
  obtain ⟨hcancelled₁, hsame₁, hlog₁⟩ := h₁
  replace h := h.went hlog₁ deletionless_looked hcancelled₁ (by simp [hsame₁])
  rw [wp_bind]
  refine wp_mono wp_preDeleteChanged_obliging (fun answer w₂ h₂ => ?_) fun _ _ h => h
  obtain ⟨hanswer, hsame₂, new, hlog₂, hquiet⟩ := h₂
  replace h := h.went hlog₂ (fun e he => deletionless_of e (.inl (hquiet e he)))
    (hsame₂ ▸ hcancelled₁) (by simp [hsame₂])
  cases answer with
  | true =>
    simp only [if_true]
    rw [wp_bind]
    have hheld : HeldBack plan changed b.relative := by
      rcases Bool.or_eq_true_iff.mp hanswer.symm with hchanged | hkept
      · exact ⟨b, hb, rfl, b, hb, hchanged, .inl rfl⟩
      · obtain ⟨f, hf, hanc⟩ := (DeferralIndex.find?_beneath kept b.relative).mp hkept
        obtain ⟨_, _, _, d', hd', hchanged, hbelow⟩ := h.kept f hf
        exact ⟨b, hb, rfl, d', hd', hchanged, AtOrUnder.trans (.inr hanc) hbelow⟩
    refine wp_mono (wp_and wp_defer_exact wp_defer_cancelled) (fun _ w₃ h₃ => ?_) fun _ _ h => h.1
    refine h.holds hheld (h₃.1.1.mono ?_) (h₃.2.trans h.cancelled) h₃.1.2
    rintro _ ⟨reason, rfl⟩
    trivial
  | false =>
    simp only [Bool.false_eq_true, if_false]
    exact h.deletes (Bool.or_eq_false_iff.mp hanswer.symm).1 _ _

theorem wp_preDeletePhase_obliging (hcancelled : w.state.cancelled = false) :
    wp (obliging refused changed) (preDeletePhase plan)
      (fun _ w' => ∃ kept, Obliged plan changed w (plan.preDeletes.filter fun action =>
        (w.state.deferrals.covering action.relative).isNone) kept w')
      (fun _ _ => False) w := by
  unfold preDeletePhase
  rw [wp_bind, wp_get]
  dsimp only
  generalize hfirst : (plan.preDeletes.filter fun action =>
    (w.state.deferrals.covering action.relative).isNone) = first
  have hplanned : ∀ b ∈ first, b ∈ plan.preDeletes := by
    rw [← hfirst]
    exact fun b hb => (List.mem_filter.mp hb).1
  rw [wp_bind, wp_request]
  generalize hanswered : w.push (.asked (.verifyRemoteSnapshotBatch plan.scope plan.rules
    (first.map deleteSnapshotCheck)) (obliging refused changed w.log
      (.verifyRemoteSnapshotBatch plan.scope plan.rules (first.map deleteSnapshotCheck)))) = w₁
  have hread : Obliged plan changed w [] ∅ w₁ := by
    subst hanswered
    refine ⟨hcancelled, fun f hf => .inl hf, by simp, _, rfl, ?_, by simp⟩
    intro p reply hmem
    cases List.mem_singleton.mp hmem
  have hjudged : (first.zip ((first.map deleteSnapshotCheck).map fun check =>
      if changed check.remotePath then SnapshotVerdict.changed else .matching)) =
        first.map fun b => (b, obligedVerdict changed b) := by
    rw [List.map_map, List.map_prod_left_eq_zip]
    rfl
  have hloop : wp (obliging refused changed)
      ((first.map fun b => (b, obligedVerdict changed b)).foldlM preDeleteOne ∅)
      (fun kept w' => Obliged plan changed w first kept w') (fun _ _ => False) w₁ := by
    rw [List.foldlM_map]
    apply wp_foldlM first
    · exact hread
    · intro done b rest kept w₂ hl h₂
      exact wp_preDeleteOne_obliging h₂ (hplanned b (by rw [hl]; simp))
  rw [← hjudged] at hloop
  have hphase : wp (obliging refused changed)
      ((first.zip ((first.map deleteSnapshotCheck).map fun check =>
        if changed check.remotePath then SnapshotVerdict.changed else .matching)).foldlM
          preDeleteOne ∅ >>= fun _ => pure ())
      (fun _ w' => ∃ kept, Obliged plan changed w first kept w') (fun _ _ => False) w₁ := by
    rw [wp_bind]
    exact wp_mono hloop (fun kept w' h => ⟨kept, h⟩) fun _ _ h => h
  exact hphase

/-! ## The creates -/

theorem wp_createOne_obliging {slot : Slot CreateAction} (hcancelled : w.state.cancelled = false)
    (hopen : slot.isOpen = (w.state.deferrals.covering slot.action.relative).isNone) :
    wp (obliging refused changed) (createOne slot)
      (fun _ w' => w'.state.cancelled = false ∧ w'.state.deferrals = w.state.deferrals ∧
        ∃ new, w'.log = w.log ++ new ∧ (∀ e ∈ new, Deletionless e) ∧
          (slot.isOpen = true → .asked (.createFolder slot.action.remotePath) (.ok ()) ∈ new))
      (fun _ _ => False) w := by
  unfold createOne
  dsimp only
  rw [wp_bind]
  refine wp_mono (wp_checkCancelled_obliging hcancelled) (fun _ w₁ h₁ => ?_) fun _ _ h => h
  obtain ⟨hcancelled₁, hsame₁, hlog₁⟩ := h₁
  cases hslot : slot.isOpen with
  | false => exact ⟨hcancelled₁, hsame₁, _, hlog₁, deletionless_looked, by simp⟩
  | true =>
    have hnone : w₁.state.deferrals.covering slot.action.relative = none := by
      rw [hsame₁]
      exact Option.isNone_iff_eq_none.mp (hopen.symm.trans hslot)
    simp only [Bool.not_true, Bool.false_eq_true, if_false]
    rw [covering, wp_bind, wp_bind, wp_get, wp_pure, hnone]
    refine ⟨hcancelled₁, hsame₁, [.asked .cancelRequested (false : Bool),
      .asked (.createFolder slot.action.remotePath) (.ok ()),
      .told (.directoryCreated slot.action.remotePath)], ?_, ?_, fun _ => by simp⟩
    · show w₁.log ++ [_] ++ [_] = _
      rw [hlog₁, List.append_assoc, List.append_assoc]
      rfl
    · intro e he
      rcases List.mem_cons.mp he with rfl | he
      · exact deletionless_looked _ (.head _)
      · rcases List.mem_cons.mp he with rfl | he
        · intro p reply heq
          cases heq
        · obtain rfl := List.mem_singleton.mp he
          exact deletionless_of _ (.inr trivial)

theorem wp_creates_obliging (slots : List (Slot CreateAction))
    (hcancelled : w.state.cancelled = false)
    (hopen : ∀ slot ∈ slots,
      slot.isOpen = (w.state.deferrals.covering slot.action.relative).isNone) :
    wp (obliging refused changed) (slots.forM createOne)
      (fun _ w' => ∃ new, w'.log = w.log ++ new ∧ (∀ e ∈ new, Deletionless e) ∧
        ∀ slot ∈ slots, slot.isOpen = true →
          .asked (.createFolder slot.action.remotePath) (.ok ()) ∈ new)
      (fun _ _ => False) w := by
  have hloop : wp (obliging refused changed) (slots.forM createOne)
      (fun _ w' => w'.state.cancelled = false ∧ w'.state.deferrals = w.state.deferrals ∧
        ∃ new, w'.log = w.log ++ new ∧ (∀ e ∈ new, Deletionless e) ∧
          ∀ slot ∈ slots, slot.isOpen = true →
            .asked (.createFolder slot.action.remotePath) (.ok ()) ∈ new)
      (fun _ _ => False) w := by
    apply wp_forM slots
    · exact ⟨hcancelled, rfl, [], by simp⟩
    · rintro done slot rest w₁ hl ⟨hcancelled₁, hsame₁, new₁, hlog₁, hquiet₁, hdone⟩
      have hslot := hopen slot (by rw [hl]; simp)
      rw [← hsame₁] at hslot
      refine wp_mono (wp_createOne_obliging hcancelled₁ hslot) (fun _ w₂ h₂ => ?_) fun _ _ h => h
      obtain ⟨hcancelled₂, hsame₂, new₂, hlog₂, hquiet₂, hasked⟩ := h₂
      refine ⟨hcancelled₂, hsame₂.trans hsame₁, new₁ ++ new₂, ?_, fun e he => ?_,
        fun slot' hslot' hisOpen => ?_⟩
      · rw [hlog₂, hlog₁, List.append_assoc]
      · exact (List.mem_append.mp he).elim (hquiet₁ e) (hquiet₂ e)
      · rcases List.mem_append.mp hslot' with hmem | hmem
        · exact List.mem_append_left _ (hdone slot' hmem hisOpen)
        · obtain rfl := List.mem_singleton.mp hmem
          exact List.mem_append_right _ (hasked hisOpen)
  exact wp_mono hloop (fun _ _ h => h.2.2) fun _ _ h => h

theorem isOpen_of_mem_slotsOf {α : Type} {deferrals : DeferralIndex} {mk : Nat → Write}
    {relative : α → RelPath} {actions : List α} {slot : Slot α}
    (h : slot ∈ slotsOf deferrals mk relative actions) :
    slot.isOpen = (deferrals.covering (relative slot.action)).isNone := by
  obtain ⟨⟨action, index⟩, _, rfl⟩ := List.mem_map.mp h
  rfl

theorem exists_slot {α : Type} {deferrals : DeferralIndex} {mk : Nat → Write}
    {relative : α → RelPath} {actions : List α} {action : α} (h : action ∈ actions) :
    ∃ slot ∈ slotsOf deferrals mk relative actions, slot.action = action := by
  obtain ⟨i, hi⟩ := List.mem_iff_getElem?.mp h
  exact ⟨_, List.mem_map_of_mem (List.mk_mem_zipIdx_iff_getElem?.mpr hi), rfl⟩

theorem prefix_of_failed {acts : RunEntry → Prop} (h : Failed acts w w') : w.log <+: w'.log := by
  obtain ⟨new, hadds, _⟩ := h
  exact ⟨new, hadds.log.symm⟩

/-- What is written once the first deletions are done with: a folder that no deferral covers, and
nothing is deleted before it. -/
theorem wp_plannedWrites_obliging {a : CreateAction} {jobs : Nat}
    (hcancelled : w.state.cancelled = false) (ha : a ∈ plan.creates)
    (huncovered : ¬Covered w a.relative) :
    wp (obliging refused changed) (plannedWrites plan jobs)
      (fun _ w' => Unfolds (fun front new => front = w.log ∧ Creates a new) w'.log)
      (fun _ w' => Unfolds (fun front new => front = w.log ∧ Creates a new) w'.log) w := by
  have hplanned : ∃ slot ∈ (slotsAt w.state.deferrals plan).creates, slot.action = a :=
    exists_slot ha
  obtain ⟨slot, hslot, rfl⟩ := hplanned
  have hisOpen : slot.isOpen = true := by
    rw [isOpen_of_mem_slotsOf hslot, ← Option.not_isSome]
    simpa [Covered] using huncovered
  have hcreates : wp (obliging refused changed)
      ((slotsAt w.state.deferrals plan).creates.forM createOne)
      (fun _ w' => ∃ new, w'.log = w.log ++ new ∧ (∀ e ∈ new, Deletionless e) ∧
        ∀ slot ∈ (slotsAt w.state.deferrals plan).creates, slot.isOpen = true →
          .asked (.createFolder slot.action.remotePath) (.ok ()) ∈ new)
      (fun _ _ => False) (w.opened plan) :=
    wp_creates_obliging _ hcancelled fun slot hslot => isOpen_of_mem_slotsOf hslot
  have hlater : Does (fun _ => True) (laterWrites plan jobs (slotsAt w.state.deferrals plan)) := by
    refine does_laterWrites (fun _ _ => ?_) fun _ _ => ?_
    · exact ⟨fun _ => trivial, trivial, fun _ => trivial, trivial, fun _ => trivial⟩
    · exact ⟨fun _ => trivial, trivial, fun _ => trivial⟩
  have hopened : wp (obliging refused changed)
      (openedWrites plan jobs (slotsAt w.state.deferrals plan))
      (fun _ w' => Unfolds (fun front new => front = w.log ∧ Creates slot.action new) w'.log)
      (fun _ w' => Unfolds (fun front new => front = w.log ∧ Creates slot.action new) w'.log)
      (w.opened plan) := by
    rw [openedWrites_eq, wp_bind]
    refine wp_mono hcreates (fun _ w₁ h₁ => ?_) fun _ _ h => h.elim
    obtain ⟨new, hlog, hquiet, hasked⟩ := h₁
    have hcreated : Unfolds (fun front new => front = w.log ∧ Creates slot.action new) w₁.log :=
      ⟨w.log, new, hlog ▸ List.prefix_refl _, rfl, hquiet, hasked slot hslot hisOpen⟩
    exact wp_mono (hlater _ w₁) (fun _ _ h₂ => hcreated.grows (prefix_of_failed h₂.failed))
      fun _ _ h₂ => hcreated.grows (prefix_of_failed h₂)
  exact hopened

/-! ## The run -/

theorem wp_opening_obliging (hentry : ∀ c ∈ plan.copies, c.entry.relative = c.toRelative) :
    wp (obliging refused changed) (opening plan)
      (fun _ w' => ∃ w₁ kept, Did Telling ⟨[], .start⟩ w₁ ∧
        (∀ f, f ∈ w₁.state.deferrals.exact ↔ f ∈ plan.sources ∧ refused f = true) ∧
        Obliged plan changed w₁ (plan.preDeletes.filter fun action =>
          (w₁.state.deferrals.covering action.relative).isNone) kept w')
      (fun _ _ => False) ⟨[], .start⟩ := by
  rw [opening, wp_bind]
  refine wp_mono (wp_preflight_obliging hentry) (fun _ w₁ h₁ => ?_) fun _ _ h => h
  obtain ⟨hdid, hcancelled, hexact⟩ := h₁
  refine wp_mono (wp_preDeletePhase_obliging hcancelled) (fun _ w₂ h₂ => ?_) fun _ _ h => h
  obtain ⟨kept, hobliged⟩ := h₂
  exact ⟨w₁, kept, hdid, hexact, hobliged⟩

theorem wp_afterWrites_grows {jobs : Nat} {P : World runInterface Run → Prop}
    (hgrows : ∀ w₁ w₂, P w₁ → w₁.log <+: w₂.log → P w₂)
    (h : wp env (plannedWrites plan jobs) (fun _ w' => P w') (fun _ w' => P w') w) :
    wp env ((plannedWrites plan jobs >>= fun _ => checkCancelled) >>= fun _ => deletePhases plan)
      (fun _ w' => P w') (fun _ w' => P w') w := by
  have hcheck : Does (fun _ => True) checkCancelled := does_checkCancelled
  have hdeletes : Does (fun _ => True) (deletePhases plan) :=
    does_deletePhases_mirrors.mono fun _ _ => trivial
  rw [wp_bind, wp_bind]
  refine wp_mono h (fun _ w₁ h₁ => ?_) fun _ _ h => h
  refine wp_mono (hcheck env w₁) (fun _ w₂ h₂ => ?_) fun _ w₂ h₂ =>
    hgrows w₁ w₂ h₁ (prefix_of_failed h₂)
  have h₂ := hgrows w₁ w₂ h₁ (prefix_of_failed h₂.failed)
  exact wp_mono (hdeletes env w₂) (fun _ w₃ h₃ => hgrows w₂ w₃ h₂ (prefix_of_failed h₃.failed))
    fun _ w₃ h₃ => hgrows w₂ w₃ h₂ (prefix_of_failed h₃)

end Run

section Plan

variable [Unicode] {ε : Type} {root : RemoteRoot} {L : LocalInventory} {R : RemoteInventory}
  {rules : IgnoreRules} {options : PlanOptions} {plan : SyncPlan} {x : LocalEntry}

theorem eq_of_atOrUnder_of_fold {p q : RelPath} (h : AtOrUnder p q)
    (hfold : portableFold p = portableFold q) : p = q := by
  rcases h with heq | hanc
  · exact heq.symm
  · have hmem : portableFold p ∈ (portableFold q).ancestors := mem_ancestors_map hanc
    rw [hfold] at hmem
    exact absurd hmem (not_mem_ancestors_self _)

/-- What a replaced entry is, spelled otherwise on the NAS. -/
structure Misspelling (root : RemoteRoot) (plan : SyncPlan) (resolution : Resolution)
    (x : LocalEntry) (d : DeleteAction) : Prop where
  deleted : d ∈ plan.preDeletes
  apart : ¬AtOrUnder x.relative d.relative
  below : ¬AtOrUnder d.relative x.relative
  destination : d.remotePath = destination root resolution x

variable (closed : L.entries.ParentClosed LocalEntry.kind) (distinct : L.entries.DistinctFolds)
  (walked : R.Walked root)

include walked in
theorem Planned.exists_misspelling
    (hp : Planned root L R rules options (planResolution root L R rules options) plan)
    (hx : x ∈ L.entries.values)
    (hne : replacedBy R (planResolution root L R rules options) x ≠ [])
    (hmisspelled : (planResolution root L R rules options).pairs.remoteRelative x.relative ≠
      x.relative) :
    ∃ r d, (planResolution root L R rules options).pairs.remoteOf R x.relative = some r ∧
      d.relative = r.relative ∧
      Misspelling root plan (planResolution root L R rules options) x d := by
  obtain ⟨_, r, hr, _⟩ := replacedBy_ne_nil.mp hne
  have hrx := relative_of_remoteOf hr
  have hfold : portableFold r.relative = portableFold x.relative := by
    rw [hrx, planResolution, fold_remoteRelative_resolve]
  obtain ⟨d, hd, hdr, hdp⟩ := hp.exists_preDelete hx hr hne
  refine ⟨r, d, hr, hdr, hd, fun h => ?_, fun h => ?_, ?_⟩
  · rw [hdr] at h
    exact hmisspelled (hrx.symm.trans (eq_of_atOrUnder_of_fold h hfold.symm).symm)
  · rw [hdr] at h
    exact hmisspelled (hrx.symm.trans (eq_of_atOrUnder_of_fold h hfold))
  · rw [hdp, walked.located r (EntryMap.mem_values_of_get? hr), hrx]
    rfl

include walked in
/-- A file that cannot be read is left, and the folder it was to replace is deleted. -/
theorem not_keepsOriginals_of_file (h : buildPlan root L R rules options = .ok plan)
    (hx : x ∈ L.entries.values) (hk : x.kind = .file)
    (hne : replacedBy R (planResolution root L R rules options) x ≠ [])
    (hmisspelled : (planResolution root L R rules options).pairs.remoteRelative x.relative ≠
      x.relative) :
    ¬KeepsOriginals plan (fun _ => False)
      (executed (obliging (fun f => decide (f = x.relative)) fun _ => false) plan
        ⟨1, false⟩).2.log := by
  have hp := planned_of_buildPlan h
  obtain ⟨_, d, _, _, hd⟩ := hp.exists_misspelling walked hx hne hmisspelled
  obtain ⟨u, hu, hentry, htarget, hreplaces⟩ := hp.exists_upload hx hk hne
  intro hkeeps
  have hrun : wp (obliging (fun f => decide (f = x.relative)) fun _ => false)
      (execute plan ⟨1, false⟩)
      (fun _ w' => Unfolds (fun front new =>
        (∃ reason, .told (.pathDeferred x.relative reason) ∈ front) ∧
          .asked (.deleteNonRecursive d.remotePath) (.ok ()) ∈ new) w'.log)
      (fun _ w' => Unfolds (fun front new =>
        (∃ reason, .told (.pathDeferred x.relative reason) ∈ front) ∧
          .asked (.deleteNonRecursive d.remotePath) (.ok ()) ∈ new) w'.log) ⟨[], .start⟩ := by
    rw [execute_eq rfl, wp_bind]
    refine wp_mono (wp_opening_obliging fun c hc => hp.copy_entry hc) (fun _ w₂ h₂ => ?_)
      fun _ _ h => h.elim
    obtain ⟨w₁, kept, ⟨before, hadds, _⟩, hexact, hobliged⟩ := h₂
    have hleft : x.relative ∈ w₁.state.deferrals.exact := by
      refine (hexact x.relative).mpr ⟨?_, decide_eq_true rfl⟩
      exact List.mem_append_left _ (List.mem_map.mpr ⟨u, hu, by rw [hentry]⟩)
    have htold : ∃ reason, .told (.pathDeferred x.relative reason) ∈ w₁.log := by
      obtain ⟨reason, hmem⟩ := ((hadds.deferrals x.relative).mp hleft).resolve_left
        DeferralIndex.not_mem_empty
      exact ⟨reason, by rw [hadds.log]; exact hmem⟩
    have huncovered : (w₁.state.deferrals.covering d.relative).isNone = true := by
      rw [← Option.not_isSome, Bool.not_eq_true', ← Bool.not_eq_true, DeferralIndex.covering_isSome]
      rintro ⟨f, hf, hfd⟩
      rw [of_decide_eq_true ((hexact f).mp hf).2] at hfd
      exact hd.apart hfd
    obtain ⟨new, hlog, _, hdone⟩ := hobliged.log
    have hasked := (hdone d (List.mem_filter.mpr ⟨hd.deleted, huncovered⟩)).resolve_left
      (by simp [HeldBack])
    have hopened : Unfolds (fun front new =>
        (∃ reason, .told (.pathDeferred x.relative reason) ∈ front) ∧
          .asked (.deleteNonRecursive d.remotePath) (.ok ()) ∈ new) w₂.log :=
      ⟨w₁.log, new, hlog ▸ List.prefix_refl _, htold, hasked⟩
    refine wp_afterWrites_grows (fun _ _ h => h.grows) ?_
    exact wp_mono (wp_plannedWrites plannedActs_uncovered)
      (fun _ _ h => hopened.grows (prefix_of_failed h.failed))
      fun _ _ h => hopened.grows (prefix_of_failed h)
  obtain ⟨front, new, hfront, ⟨reason, htold⟩, hasked⟩ := of_wp hrun
  obtain ⟨mid, _, hdeletes, _⟩ := EachAfter.exists_of_mem hkeeps hfront hasked
  refine hdeletes d hd.deleted (.ok ()) rfl u.target hreplaces ?_ x.relative
    (.inr ⟨reason, List.mem_append_left _ htold⟩) ?_
  · rw [htarget, hd.destination]
    exact .inl rfl
  · rw [htarget]
    exact .inl rfl

include closed distinct walked in
theorem Planned.eq_of_above_file
    (hp : Planned root L R rules options (planResolution root L R rules options) plan)
    (hx : x ∈ L.entries.values) (hk : x.kind = .directory) {r : RemoteEntry}
    (hr : (planResolution root L R rules options).pairs.remoteOf R x.relative = some r)
    {d : DeleteAction} (hd : d ∈ plan.preDeletes) (h : AtOrUnder d.relative r.relative) :
    d.relative = r.relative := by
  obtain ⟨y, hy, e, he, hne, hed, _, _, hkind⟩ := hp.exists_of_mem_preDeletes walked hd
  have hfold : AtOrUnder (portableFold y.relative) (portableFold x.relative) := by
    have hmap : AtOrUnder (portableFold e.relative) (portableFold r.relative) :=
      (hed.trans h).map
    rwa [relative_of_remoteOf he, relative_of_remoteOf hr, planResolution,
      fold_remoteRelative_resolve, fold_remoteRelative_resolve] at hmap
  have hyk : y.kind ≠ .file := by
    intro hyk
    rw [eq_of_fold_beneath_file closed distinct hy hyk hx hfold, hyk] at hk
    cases hk
  have hde := hkind.resolve_left hyk
  rcases h with heq | hanc
  · exact heq.symm
  · -- the file it would be of has nothing beneath it
    obtain ⟨_, e', he', hkinds⟩ := replacedBy_ne_nil.mp hne
    obtain rfl := Option.some.inj (he.symm.trans he')
    rw [hde] at hanc
    obtain ⟨folder, hfolder, hfk⟩ :=
      walked.closed r (EntryMap.mem_values_of_get? hr) e.relative hanc
    rw [EntryMap.mem_values.mp (EntryMap.mem_values_of_get? he)] at hfolder
    obtain rfl := Option.some.inj hfolder
    cases hyk' : y.kind with
    | file => exact absurd hyk' hyk
    | directory => exact absurd (hfk.trans hyk'.symm) hkinds

include closed distinct walked in
/-- A file that has changed is kept, and the folder that was to replace it is created in its
place. -/
theorem not_keepsOriginals_of_directory (h : buildPlan root L R rules options = .ok plan)
    (hx : x ∈ L.entries.values) (hk : x.kind = .directory)
    (hne : replacedBy R (planResolution root L R rules options) x ≠ [])
    (hmisspelled : (planResolution root L R rules options).pairs.remoteRelative x.relative ≠
      x.relative) :
    ¬KeepsOriginals plan (fun _ => False)
      (executed (obliging (fun _ => false) fun p =>
        decide (p = destination root (planResolution root L R rules options) x)) plan
          ⟨1, false⟩).2.log := by
  have hp := planned_of_buildPlan h
  have horder := orderly_of_buildPlan closed distinct walked h
  obtain ⟨r, d, hr, hdr, hd⟩ := hp.exists_misspelling walked hx hne hmisspelled
  obtain ⟨a, ha, htarget⟩ := hp.exists_create hx hk hne
  obtain ⟨harelative, hadestination⟩ := Target.mk.inj htarget
  intro hkeeps
  rw [← hd.destination] at hkeeps
  have hrun : wp (obliging (fun _ => false) fun p => decide (p = d.remotePath))
      (execute plan ⟨1, false⟩)
      (fun _ w' => Unfolds (fun front new => Creates a new ∧
        ∀ reply, .asked (.deleteNonRecursive d.remotePath) reply ∉ front) w'.log)
      (fun _ w' => Unfolds (fun front new => Creates a new ∧
        ∀ reply, .asked (.deleteNonRecursive d.remotePath) reply ∉ front) w'.log)
      ⟨[], .start⟩ := by
    rw [execute_eq rfl, wp_bind]
    refine wp_mono (wp_opening_obliging fun c hc => hp.copy_entry hc) (fun _ w₂ h₂ => ?_)
      fun _ _ h => h.elim
    obtain ⟨w₁, kept, ⟨before, hadds, hquiet, _⟩, hexact, hobliged⟩ := h₂
    have hkept : ∀ reply, .asked (.deleteNonRecursive d.remotePath) reply ∉ w₂.log := by
      intro reply hmem
      obtain ⟨new, hlog, hunchanged, _⟩ := hobliged.log
      rw [hlog, hadds.log] at hmem
      rcases List.mem_append.mp hmem with hmem | hmem
      · exact not_delete_of (hquiet _ hmem) d.remotePath reply rfl
      · exact absurd rfl (of_decide_eq_false (hunchanged d.remotePath reply hmem))
    have huncovered : ¬Covered w₂ a.relative := by
      intro hcovered
      obtain ⟨f, hf, hfa⟩ := DeferralIndex.covering_isSome.mp hcovered
      rcases hobliged.exact f hf with hsource | ⟨d₀, hd₀, rfl, d', hd', hchanged, habove⟩
      · exact absurd ((hexact f).mp hsource).2 Bool.false_ne_true
      · have hsame := horder.same d' (List.mem_append_left _ hd') d
          (List.mem_append_left _ hd.deleted) (of_decide_eq_true hchanged)
        rw [hsame, hdr] at habove
        have hfile := hp.eq_of_above_file closed distinct walked hx hk hr hd₀ habove
        rw [harelative, hfile, ← hdr] at hfa
        exact hd.below hfa
    refine wp_afterWrites_grows (fun _ _ h => h.grows) ?_
    have hcreated : ∀ w' : World runInterface Run,
        Unfolds (fun front new => front = w₂.log ∧ Creates a new) w'.log →
          Unfolds (fun front new => Creates a new ∧
            ∀ reply, .asked (.deleteNonRecursive d.remotePath) reply ∉ front) w'.log := by
      rintro w' ⟨_, new, hfront, rfl, hcreates⟩
      exact ⟨w₂.log, new, hfront, hcreates, hkept⟩
    exact wp_mono (wp_plannedWrites_obliging hobliged.cancelled ha huncovered)
      (fun _ w' h => hcreated w' h) fun _ w' h => hcreated w' h
  obtain ⟨front, new, hfront, hcreates, hkept⟩ := of_wp hrun
  obtain ⟨mid, hmid, _, hwrites⟩ := EachAfter.exists_of_mem hkeeps hfront hcreates.asked
  have hdeleted := hwrites a.remotePath rfl d hd.deleted
    (.inl (hadestination.trans hd.destination.symm))
  rcases List.mem_append.mp hdeleted with hmem | hmem
  · exact hkept (.ok ()) hmem
  · exact hcreates.deletionless _ (hmid hmem) d.remotePath (.ok ()) rfl

include closed distinct walked in
/-- Every run of a plan, narrowed or not, keeps what it cannot replace, exactly if every entry that
is replaced is spelled on the NAS as it is in the source. -/
theorem keepsOriginals_iff (h : buildPlan root L R rules options = .ok plan) :
    (∀ left plan', NarrowedTo ε plan left plan' → ∀ env executeOptions,
      KeepsOriginals plan left (executed env plan' executeOptions).2.log) ↔
        SpelledAlike L R (planResolution root L R rules options) := by
  constructor
  · intro hkeeps x hx hne
    by_contra hmisspelled
    have hkeeps := hkeeps _ plan .planned
    cases hk : x.kind with
    | file => exact not_keepsOriginals_of_file walked h hx hk hne hmisspelled (hkeeps _ _)
    | directory =>
      exact not_keepsOriginals_of_directory closed distinct walked h hx hk hne hmisspelled
        (hkeeps _ _)
  · exact fun halike left plan' hnarrowed env executeOptions =>
      keepsOriginals_of_spelledAlike closed distinct walked h halike hnarrowed env executeOptions

end Plan

/-! ## A folder the NAS spells otherwise

The source holds `D/x`, a file. The NAS holds `d`, the same folder, and in it `x`, a folder. -/

namespace PairedFolder

open Small

def localFolderPath : RelPath := path [name 'D']

def remoteFolderPath : RelPath := path [name 'd']

def source : LocalEntry := localFile (.child localFolderPath (name 'x')) 1

def localSide : LocalInventory := locals [localFolder localFolderPath, source]

/-- The NAS's side, by how it spells the folder. -/
def remoteSide (folder : RelPath) : RemoteInventory :=
  remotes [remoteFolder folder, remoteFolder (.child folder (name 'x'))]

/-- The file cannot be read and is left, and the folder it was to replace is deleted. -/
theorem not_keepsOriginals :
    letI := charwise
    ∃ plan, buildPlan root localSide (remoteSide remoteFolderPath) noRules mirror = .ok plan ∧
      events (executed (obliging (fun f => decide (f = source.relative)) fun _ => false) plan
        ⟨1, false⟩).2.log = [.pathDeferred source.relative .sourceChanged,
          .typeConflictDeleted (root.path.append (.child remoteFolderPath (name 'x'))),
          .pathDeferred localFolderPath .caseRenamePending] ∧
      ¬KeepsOriginals plan (fun _ => False)
        (executed (obliging (fun f => decide (f = source.relative)) fun _ => false) plan
          ⟨1, false⟩).2.log := by
  let := charwise
  obtain ⟨plan, hplan, hrun⟩ := Loop.exists_of_okAnd
    (x := buildPlan root localSide (remoteSide remoteFolderPath) noRules mirror)
    (p := fun plan => decide (events (executed (obliging (fun f => decide (f = source.relative))
      fun _ => false) plan ⟨1, false⟩).2.log = [.pathDeferred source.relative .sourceChanged,
        .typeConflictDeleted (root.path.append (.child remoteFolderPath (name 'x'))),
        .pathDeferred localFolderPath .caseRenamePending]))
    (by decide +kernel)
  exact ⟨plan, hplan, of_decide_eq_true hrun, not_keepsOriginals_of_file (by decide +kernel) hplan
    (by decide +kernel) rfl (by decide +kernel) (by decide +kernel)⟩

theorem keepsOriginals_alike :
    letI := charwise
    ∃ plan, buildPlan root localSide (remoteSide localFolderPath) noRules mirror = .ok plan ∧
      plan.preDeletes.length = 1 ∧ plan.replacements.length = 1 ∧
      ∀ left plan', NarrowedTo Unit plan left plan' → ∀ env executeOptions,
        KeepsOriginals plan left (executed env plan' executeOptions).2.log := by
  let := charwise
  obtain ⟨plan, hplan, hcounts⟩ := Loop.exists_of_okAnd
    (x := buildPlan root localSide (remoteSide localFolderPath) noRules mirror)
    (p := fun plan => decide (plan.preDeletes.length = 1 ∧ plan.replacements.length = 1))
    (by decide +kernel)
  obtain ⟨hdeletes, hreplacements⟩ := of_decide_eq_true hcounts
  exact ⟨plan, hplan, hdeletes, hreplacements, (keepsOriginals_iff (by decide +kernel)
    (by decide +kernel) (by decide +kernel) hplan).mpr (by decide +kernel)⟩

end PairedFolder
end DriveSync
