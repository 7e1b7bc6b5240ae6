import DriveSync.Plan.Build
import DriveSync.Small
import DriveSync.Sync.Phases

/-!
# DriveSync.Sync.Verdict

The refusal breaker over a whole run. Its ledger is what the run opens, every planned write that no
deferral covers when the writes begin, and what it settles of that.

* `Ledger`: nothing is settled twice or unopened, and the breaker is where its settlements take it.
* `ledger_executed`: the ledger of a run, however it ends.
* `executed_settles`: what is settled, and what the verdict over it is.
-/

namespace DriveSync

open Path Prog

/-- Every planned write. -/
def SyncPlan.writes (plan : SyncPlan) : List Write :=
  (List.range plan.creates.length).map .create ++
    ((List.range plan.copies.length).map .copy ++ (List.range plan.uploads.length).map .upload)

theorem SyncPlan.nodup_writes {plan : SyncPlan} : plan.writes.Nodup := by
  have hmap : ∀ {mk : Nat → Write} {n : Nat}, mk.Injective → ((List.range n).map mk).Nodup :=
    fun hinj => List.Nodup.map hinj List.nodup_range
  refine List.nodup_append.mpr ⟨hmap fun _ _ h => Write.create.inj h,
    List.nodup_append.mpr ⟨hmap fun _ _ h => Write.copy.inj h, hmap fun _ _ h => Write.upload.inj h,
      ?_⟩, ?_⟩
  · simp
  · simp only [List.mem_append, List.mem_map]
    rintro _ ⟨i, _, rfl⟩ _ (⟨j, _, rfl⟩ | ⟨j, _, rfl⟩) heq
    · cases heq
    · cases heq

/-- The verdict over some settlements of a run that opened some writes. -/
def verdictOver (plan : SyncPlan) (opened : List Write) (settlements : List Settlement) :
    Option RefusalClass :=
  ((RefusalBreaker.new opened.length plan.unchangedFiles).after settlements).tripped

section Run

variable [Unicode] {w w' w₁ : World runInterface Run} {env : Env runInterface} {plan : SyncPlan}
  {items : List Item} {options : ExecuteOptions}

/-! ## What is opened -/

theorem slotsOf_writes {α : Type} (deferrals : DeferralIndex) {mk : Nat → Write}
    (relative : α → RelPath) {actions : List α} :
    (slotsOf deferrals mk relative actions).map (·.write) = (List.range actions.length).map mk := by
  have hrange : List.range actions.length = actions.zipIdx.map (·.2) := by
    rw [List.range_eq_range', ← List.zipIdx_map_snd]
  rw [slotsOf, List.map_map, hrange, List.map_map]
  rfl

theorem opened_sublist {deferrals : DeferralIndex} :
    (slotsAt deferrals plan).opened.Sublist plan.writes := by
  have hopen : ∀ {α : Type} {mk : Nat → Write} (relative : α → RelPath) {actions : List α},
      ((openActions (slotsOf deferrals mk relative actions)).map (·.write)).Sublist
        ((List.range actions.length).map mk) := by
    intro α mk relative actions
    rw [← slotsOf_writes deferrals relative]
    exact List.filter_sublist.map _
  have huploads : ((slotsAt deferrals plan).uploads |> openActions |>.map (·.write)).Sublist
      ((List.range plan.uploads.length).map .upload) :=
    hopen (fun action : UploadAction => action.entry.relative)
  exact (hopen _).append ((hopen _).append huploads)

/-! ## The ledger -/

/-- No write is settled twice or unopened, and the verdict is that over what is settled. -/
structure Ledger (plan : SyncPlan) (w : World runInterface Run) : Prop where
  nodup : w.state.opened.Nodup
  count_le : ∀ write, (w.state.settled.map (·.1)).count write ≤ w.state.opened.count write
  tripped : w.state.breaker.tripped =
    verdictOver plan w.state.opened (w.state.settled.map (·.2))

/-- What accounts for no write leaves the ledger as it is. -/
theorem Begins.ledger_eq (h : Begins items w w') (hitems : items.filterMap Item.write? = []) :
    w'.state.opened = w.state.opened ∧ w'.state.settled = w.state.settled ∧
      w'.state.breaker = w.state.breaker := by
  obtain ⟨new, settled, stories, h, hle, _⟩ := h
  rw [hitems] at hle
  obtain rfl := settled_eq_nil hle
  exact ⟨h.opened_eq, by simpa using h.settled_eq, h.breaker_eq⟩

theorem ledger_start : Ledger plan ⟨[], .start⟩ where
  nodup := .nil
  count_le _ := Nat.le_refl _
  tripped := RefusalBreaker.tripped_new.trans RefusalBreaker.tripped_new.symm

/-- Before anything is opened nothing is settled. -/
theorem ledger_of_unopened (hitems : items.filterMap Item.write? = [])
    (h : Begins items ⟨[], .start⟩ w) : Ledger plan w := by
  obtain ⟨hopened, hsettled, hbreaker⟩ := h.ledger_eq hitems
  have hstart : Ledger plan ⟨[], .start⟩ := ledger_start
  constructor
  · rw [hopened]
    exact hstart.nodup
  · rw [hopened, hsettled]
    exact hstart.count_le
  · rw [hopened, hsettled, hbreaker]
    exact hstart.tripped

/-- What a run settles of what it opened. -/
theorem ledger_of_opened (hitems : items.filterMap Item.write? =
    (slotsAt w.state.deferrals plan).opened) (h : Begins items (w.opened plan) w') :
    Ledger plan w' := by
  obtain ⟨new, settled, stories, h, hle, _⟩ := h
  have hopened : w'.state.opened = (slotsAt w.state.deferrals plan).opened := h.opened_eq
  have hsettled : w'.state.settled = settled := h.settled_eq
  refine ⟨?_, fun write => ?_, ?_⟩
  · rw [hopened]
    exact opened_sublist.nodup SyncPlan.nodup_writes
  · rw [hopened, hsettled, ← hitems]
    exact hle write
  · rw [h.breaker_eq, hopened, hsettled]
    rfl

theorem wp_checkCancelled_ok : wp env checkCancelled (fun _ w' => w'.state.cancelled = false)
    (fun _ _ => True) w := by
  simp only [checkCancelled, wp_bind, wp_isCancelled]
  split
  · trivial
  · rename_i hcancelled
    simpa using hcancelled

/-- The planned writes, up to the end of the write phases. -/
theorem wp_writes_end {jobs : Nat} :
    wp env (plannedWrites plan jobs >>= fun _ => checkCancelled)
      (fun _ w' => Finishes (slotsAt w.state.deferrals plan).owes (w.opened plan) w' ∧
        w'.state.cancelled = false)
      (fun _ w' => Begins (slotsAt w.state.deferrals plan).owes (w.opened plan) w') w := by
  rw [wp_bind]
  refine wp_mono wp_plannedWrites_accounts (fun _ w₁ h => ?_) fun _ _ h => h
  refine wp_mono (wp_and (handles_checkCancelled env w₁) wp_checkCancelled_ok)
    (fun _ w₂ h' => ⟨?_, h'.2⟩) fun _ w₂ h' => ?_
  · have := Graded.trans Begins h h'.1
    rwa [List.append_nil] at this
  · have := Graded.after h h'.1
    rwa [List.append_nil] at this

omit [Unicode] in
theorem PlannedWrites.owes_writes {writes : PlannedWrites} :
    writes.owes.filterMap Item.write? = writes.opened := by
  rw [owes, List.filterMap_append, List.filterMap_append, openItems_writes, openItems_writes,
    openItems_writes]
  rfl

/-! ## The ledger of a run -/

theorem writePhases_eq {jobs : Nat} : writePhases plan jobs =
    opening plan >>= fun _ => plannedWrites plan jobs >>= fun _ => checkCancelled := by
  rw [opening, bind_assoc]
  rfl

theorem execute_run (hrun : options.dryRun = false) : execute plan options =
    writePhases plan options.jobs >>= fun _ => deletePhases plan := by
  rw [execute, hrun]
  rfl

theorem execute_eq (hrun : options.dryRun = false) : execute plan options =
    opening plan >>= fun _ =>
      (plannedWrites plan options.jobs >>= fun _ => checkCancelled) >>= fun _ =>
        deletePhases plan := by
  rw [← bind_assoc, ← writePhases_eq]
  exact execute_run hrun

/-- After the opening: the ledger is of the writes that no deferral covers there. -/
theorem wp_afterOpening {jobs : Nat} :
    wp env ((plannedWrites plan jobs >>= fun _ => checkCancelled) >>= fun _ => deletePhases plan)
      (fun _ w' => Begins ((slotsAt w.state.deferrals plan).owes ++ plan.deleteTasks.map .task)
        (w.opened plan) w')
      (fun _ w' => Begins ((slotsAt w.state.deferrals plan).owes ++ plan.deleteTasks.map .task)
        (w.opened plan) w') w := by
  rw [wp_bind]
  refine wp_mono wp_writes_end (fun _ w₁ h => ?_) fun _ _ h => Graded.pad Finishes _ h
  exact wp_mono (handles_deletePhases env w₁)
    (fun _ _ h' => Graded.fails (Graded.trans Begins h.1 h')) fun _ _ h' => Graded.after h.1 h'

theorem owes_and_deletes_writes {deferrals : DeferralIndex} :
    ((slotsAt deferrals plan).owes ++ plan.deleteTasks.map Item.task).filterMap Item.write? =
      (slotsAt deferrals plan).opened := by
  rw [List.filterMap_append, PlannedWrites.owes_writes, tasks_writes, List.append_nil]

theorem wp_ledger (hrun : options.dryRun = false) : wp env (execute plan options)
    (fun _ w' => Ledger plan w') (fun _ w' => Ledger plan w') ⟨[], .start⟩ := by
  rw [execute_eq hrun, wp_bind]
  refine wp_mono (handles_opening env _) (fun _ w₁ _ => ?_)
    fun _ w₁ h => ledger_of_unopened (tasks_writes _) h
  exact wp_mono wp_afterOpening (fun _ _ h => ledger_of_opened owes_and_deletes_writes h)
    fun _ _ h => ledger_of_opened owes_and_deletes_writes h

theorem ledger_executed : Ledger plan (executed env plan options).2 := by
  cases hdry : options.dryRun with
  | true =>
    unfold executed execute
    rw [hdry]
    exact ledger_start
  | false => exact of_wp (wp_ledger hdry)

/-- What is opened: the writes that no deferral covers when the opening is done. -/
theorem opened_executed (hrun : options.dryRun = false)
    (h : opening plan env ⟨[], .start⟩ = (.ok (), w₁)) :
    (executed env plan options).2.state.opened = (slotsAt w₁.state.deferrals plan).opened := by
  have hbegins : ∀ w', Begins ((slotsAt w₁.state.deferrals plan).owes ++
      plan.deleteTasks.map .task) (w₁.opened plan) w' →
        w'.state.opened = (slotsAt w₁.state.deferrals plan).opened := by
    rintro w' ⟨_, _, _, haccounts, _⟩
    exact haccounts.opened_eq
  have hrest : executed env plan options =
      ((plannedWrites plan options.jobs >>= fun _ => checkCancelled) >>= fun _ =>
        deletePhases plan) env w₁ := by
    rw [executed, execute_eq hrun]
    simp only [bind, h]
  rw [hrest]
  exact of_wp (wp_mono wp_afterOpening (fun _ w' => hbegins w') fun _ w' => hbegins w')

/-- At the end of the write phases every opened write is settled. -/
theorem settled_executed (hrun : options.dryRun = false)
    (h : (writePhases plan options.jobs env ⟨[], .start⟩).1 = .ok ()) :
    ((executed env plan options).2.state.settled.map (·.1)).Perm
      (executed env plan options).2.state.opened := by
  rcases hend : writePhases plan options.jobs env ⟨[], .start⟩ with ⟨r, w₂⟩
  obtain rfl : r = .ok () := by rw [hend] at h; exact h
  have hsettled : (w₂.state.settled.map (·.1)).Perm w₂.state.opened := by
    have hall : wp env (writePhases plan options.jobs)
        (fun _ w' => (w'.state.settled.map (·.1)).Perm w'.state.opened) (fun _ _ => True)
        ⟨[], .start⟩ := by
      rw [writePhases_eq, wp_bind]
      refine wp_mono (handles_opening env _) (fun _ w₁ _ => ?_) fun _ _ _ => trivial
      refine wp_mono wp_writes_end (fun _ w' h => ?_) fun _ _ _ => trivial
      obtain ⟨⟨new, settled, stories, haccounts, _, _, hperm, _⟩, hcancelled⟩ := h
      have hperm := hperm.resolve_left (by rw [hcancelled]; exact Bool.false_ne_true)
      rw [PlannedWrites.owes_writes] at hperm
      rw [haccounts.opened_eq, haccounts.settled_eq]
      exact hperm
    exact wp_of_eq_ok hall hend
  have hrest : executed env plan options = deletePhases plan env w₂ := by
    rw [executed, execute_run hrun]
    simp only [bind, hend]
  rw [hrest]
  have hkept : ∀ w', Begins (plan.deleteTasks.map .task) w₂ w' →
      (w'.state.settled.map (·.1)).Perm w'.state.opened := by
    intro w' hbegins
    obtain ⟨hopened, hsettled_eq, _⟩ := hbegins.ledger_eq (tasks_writes _)
    rw [hopened, hsettled_eq]
    exact hsettled
  exact of_wp (wp_mono (handles_deletePhases env w₂) (fun _ w' h => hkept w' (Graded.fails h))
    fun _ w' => hkept w')

theorem Ledger.settled_le (h : Ledger plan w) : w.state.settled.length ≤ w.state.opened.length := by
  have hsub : (w.state.settled.map (·.1)).Subperm w.state.opened :=
    List.subperm_ext_iff.mpr fun write _ => h.count_le write
  simpa using hsub.length_le

theorem Ledger.nodup_settled (h : Ledger plan w) : (w.state.settled.map (·.1)).Nodup :=
  List.nodup_iff_count_le_one.mpr fun write =>
    (h.count_le write).trans (List.nodup_iff_count_le_one.mp h.nodup write)

theorem Ledger.mem_opened (h : Ledger plan w) {write : Write}
    (hw : write ∈ w.state.settled.map (·.1)) : write ∈ w.state.opened :=
  List.count_pos_iff.mp ((List.count_pos_iff.mpr hw).trans_le (h.count_le write))

omit [Unicode] in
/-- A verdict stays, as long as no more writes settle than were opened. -/
theorem verdictOver_append {opened : List Write} {settlements more : List Settlement}
    {cls : RefusalClass} (hle : settlements.length + more.length ≤ opened.length)
    (h : verdictOver plan opened settlements = some cls) :
    verdictOver plan opened (settlements ++ more) = some cls := by
  have hsound := RefusalBreaker.sound_new opened.length plan.unchangedFiles
  rw [verdictOver, RefusalBreaker.tripped_eq_some hsound.after] at h ⊢
  rw [RefusalBreaker.after_append]
  refine h.after ?_
  have hpending : settlements.length ≤
      (RefusalBreaker.new opened.length plan.unchangedFiles).pending :=
    Nat.le_trans (Nat.le_add_right _ _) hle
  rw [(RefusalBreaker.after_counts hpending).1]
  exact Nat.le_sub_of_add_le (by rw [Nat.add_comm]; exact hle)

/-- What a run settles in its breaker, and the verdict over that: each write that no deferral covers
when the writes are opened settles at most once, and once when the run gets to the end of them; the
verdict stays, does not depend on the order, and is of one class. -/
theorem executed_settles (env : Env runInterface) (plan : SyncPlan) (options : ExecuteOptions) :
    let run := (executed env plan options).2.state
    (run.settled.map (·.1)).Nodup ∧
      (∀ write ∈ run.settled.map (·.1), write ∈ run.opened) ∧
      (options.dryRun = false → ∀ w₁, opening plan env ⟨[], .start⟩ = (.ok (), w₁) →
        run.opened = (slotsAt w₁.state.deferrals plan).opened) ∧
      (options.dryRun = false → (writePhases plan options.jobs env ⟨[], .start⟩).1 = .ok () →
        (run.settled.map (·.1)).Perm run.opened) ∧
      (∀ earlier later, run.settled.map (·.2) = earlier ++ later → ∀ cls,
        verdictOver plan run.opened earlier = some cls → run.breaker.tripped = some cls) ∧
      (∀ earlier more cls, earlier.length + more.length ≤ run.opened.length →
        verdictOver plan run.opened earlier = some cls →
          verdictOver plan run.opened (earlier ++ more) = some cls) ∧
      (∀ other, (run.settled.map (·.2)).Perm other →
        verdictOver plan run.opened other = run.breaker.tripped) ∧
      ∀ settlements c d,
        ((RefusalBreaker.new run.opened.length plan.unchangedFiles).after settlements).Trips c →
        ((RefusalBreaker.new run.opened.length plan.unchangedFiles).after settlements).Trips d →
          c = d := by
  intro run
  have hledger : Ledger plan (executed env plan options).2 := ledger_executed
  have hle : (run.settled.map (·.2)).length ≤ run.opened.length := by
    rw [List.length_map]
    exact hledger.settled_le
  refine ⟨hledger.nodup_settled, fun write => hledger.mem_opened,
    fun hrun w₁ hopening => opened_executed hrun hopening, settled_executed, ?_,
    fun earlier more cls => verdictOver_append, fun other hperm => ?_, fun settlements c d => ?_⟩
  · intro earlier later hsettled cls hearlier
    have hfits : earlier.length + later.length ≤ run.opened.length := by
      rw [← List.length_append, ← hsettled]
      exact hle
    have htripped : run.breaker.tripped = verdictOver plan run.opened (run.settled.map (·.2)) :=
      hledger.tripped
    rw [htripped, hsettled]
    exact verdictOver_append hfits hearlier
  · have htripped : run.breaker.tripped = verdictOver plan run.opened (run.settled.map (·.2)) :=
      hledger.tripped
    rw [htripped]
    exact (RefusalBreaker.tripped_perm (RefusalBreaker.sound_new _ _) hle hperm).symm
  · exact fun hc hd => hc.unique (RefusalBreaker.sound_new _ _).after hd

end Run

/-! ## A source that is gone -/

namespace GoneSource

open Small

def file : RelPath := path [name 'f']

/-- Whose only planned write is an upload. -/
def plan : SyncPlan :=
  { emptyPlan (locals []) noRules mirror [] with
    uploads := [⟨localFile file 3, root.path.append file, .missingRemote, none⟩] }

/-- Everything succeeds, but a source may not be read. -/
def answers (readable : Except ExecError Unit) : Env runInterface := fun _ call =>
  match call with
  | .preflightUploadReadable _ => readable
  | .verifyRemoteSnapshotBatch _ _ checks =>
    .ok ⟨checks.map fun _ => .matching, by rw [List.length_map]⟩
  | .preflightUploadSource _ => .ok ()
  | .deleteNonRecursive _ => .ok ()
  | .createFolder _ => .ok ()
  | .supportsRename => (true : Bool)
  | .rename remotePath _ => .ok remotePath
  | .copyFileVerified _ => .ok ()
  | .verifyRemoteMetadataSnapshot _ _ => .ok ()
  | .verifyRemoteContent _ _ _ => .ok ()
  | .verifyUploadedContent _ _ _ => .ok ()
  | .remotePathState _ => .ok .absent
  | .upload _ _ => .ok ()
  | .localPresence _ => .ok .absent
  | .entryAt _ => .ok none
  | .symlinkMetadata _ => .ok ()
  | .hashFileSnapshot _ => .error .cancelled
  | .cancelRequested => (false : Bool)
  | .schedule _ => (0 : Nat)

/-- The upload of a source that is gone never settles. -/
theorem not_settled :
    letI := charwise
    ¬∀ (env : Env runInterface) (plan : SyncPlan) (options : ExecuteOptions),
      options.dryRun = false → (writePhases plan options.jobs env ⟨[], .start⟩).1 = .ok () →
        ∀ write ∈ plan.writes,
          ((executed env plan options).2.state.settled.map (·.1)).count write = 1 := by
  let _ := charwise
  intro h
  have hsettles := h (answers (.error (.fileIo "f" .notFound "gone"))) plan ⟨1, false⟩ rfl rfl
    (.upload 0) (by decide)
  revert hsettles
  decide +kernel

/-- A source that can be read: its upload settles once. -/
theorem executed_settles_readable :
    letI := charwise
    ((executed (answers (.ok ())) plan ⟨1, false⟩).2.state.settled.map (·.1)).Perm
        (executed (answers (.ok ())) plan ⟨1, false⟩).2.state.opened ∧
      (executed (answers (.ok ())) plan ⟨1, false⟩).2.state.opened = [.upload 0] := by
  have h := @executed_settles charwise (answers (.ok ())) plan ⟨1, false⟩
  exact ⟨h.2.2.2.1 rfl (by decide +kernel), by decide +kernel⟩

end GoneSource
end DriveSync
