import DriveSync.Watch.Linked

/-!
# DriveSync.Watch.Batches

The arena over a walk, over a batch of events, and over every run of batches: it stays a tree while
each node that is attached fits where it is put.

* `walk_source`: a walk of the whole tree finds the root first, and what has a parent after it.
* `intact_step`: what one event preserves.
* `sound_processAll`: every run from an armed tree.
-/

namespace DriveSync
namespace Watch

open Arena

namespace TreeWatch

variable {t : TreeWatch} {root wd k : Wd}

/-! ## Records of a walk -/

@[simp] theorem rootWd_relink {record : Walked} (h : record.parent.isSome = true) :
    (t.relink record).rootWd = t.rootWd := by
  obtain ⟨p, hp⟩ := Option.isSome_iff_exists.mp h
  simp [relink, hp]

/-- Each record, as it comes, fits. -/
def FitsAll : TreeWatch → List Walked → Prop
  | _, [] => True
  | t, record :: records =>
    (∀ parent, record.parent = some parent → t.Fits record.wd parent record.name) ∧
      FitsAll (t.relink record) records

theorem isTree_foldl_relink {records : List Walked} (h : t.Tree root) (hroot : t.rootWd = some root)
    (hparents : ∀ record ∈ records, record.parent.isSome = true) (hfits : t.FitsAll records) :
    (records.foldl relink t).Tree root ∧ (records.foldl relink t).rootWd = some root := by
  induction records generalizing t with
  | nil => exact ⟨h, hroot⟩
  | cons record records ih =>
    obtain ⟨hfit, hrest⟩ := hfits
    have hsome := hparents record List.mem_cons_self
    obtain ⟨p, hp⟩ := Option.isSome_iff_exists.mp hsome
    refine ih ?_ ?_ (fun r hr => hparents r (List.mem_cons_of_mem _ hr)) hrest
    · simp only [relink, hp, Option.isNone_some, Bool.false_eq_true, ↓reduceIte]
      exact isTree_attach h hroot (hfit p hp)
    · rw [rootWd_relink hsome, hroot]

theorem foldl_found {records : List Walked} {changes : List Change}
    (hparents : ∀ record ∈ records, record.parent.isSome = true) :
    (records.foldl found (t, changes)).1 = records.foldl relink t := by
  induction records generalizing t changes with
  | nil => rfl
  | cons record records ih =>
    obtain ⟨p, hp⟩ := Option.isSome_iff_exists.mp (hparents record List.mem_cons_self)
    have hfirst : (found (t, changes) record).1 = t.relink record := by
      simp only [found, relink, hp, Option.isNone_some, Bool.false_eq_true, ↓reduceIte]
      split <;> rfl
    rw [List.foldl_cons, List.foldl_cons, ← hfirst]
    exact ih fun r hr => hparents r (List.mem_cons_of_mem _ hr)

end TreeWatch

theorem enter_parent {w : World} {filter : Filter} {budget : Budget} {held i : Nat} {start : Start}
    {record : Walked} {children : List Start}
    (h : enter w filter budget held i start = .ok (some (record, children))) :
    record.parent = start.parent ∧ record.name = start.name ∧
      ∀ child ∈ children, child.parent.isSome = true := by
  unfold enter at h
  split at h
  · split at h <;> cases h
  · cases h
  · cases h
  · rename_i wd _
    split at h
    · cases h
    · simp only at h
      split at h
      · cases h
        refine ⟨rfl, rfl, ?_⟩
        intro child hchild
        simp only [beneath, List.mem_reverse, List.mem_filter, List.mem_map] at hchild
        obtain ⟨⟨name, _, rfl⟩, _⟩ := hchild
        rfl
      · split at h
        · cases h
          exact ⟨rfl, rfl, by simp⟩
        · cases h
      · cases h

theorem enter_none {w : World} {filter : Filter} {budget : Budget} {held i : Nat} {start : Start}
    (h : enter w filter budget held i start = .ok none) : start.parent.isSome = true := by
  unfold enter at h
  split at h
  · split at h
    · assumption
    · cases h
  · cases h
  · cases h
  · split at h
    · cases h
    · simp only at h
      split at h
      · cases h
      · split at h <;> cases h
      · cases h

/-- A walk beneath known directories finds only directories with a parent. -/
theorem walk_parents {w : World} {filter : Filter} {budget : Budget} {deadline already : Nat}
    {inTime i : Nat} {stack : List Start} {before walked : List Walked}
    (h : walk w filter budget deadline already inTime i stack before = .ok walked)
    (hstack : ∀ start ∈ stack, start.parent.isSome = true) :
    ∃ records, walked = before ++ records ∧
      ∀ record ∈ records, record.parent.isSome = true := by
  induction inTime generalizing i stack before with
  | zero =>
    cases stack with
    | nil =>
      cases h
      exact ⟨[], by simp, by simp⟩
    | cons start stack => cases h
  | succ inTime ih =>
    cases stack with
    | nil =>
      cases h
      exact ⟨[], by simp, by simp⟩
    | cons start stack =>
      have hrest : ∀ s ∈ stack, s.parent.isSome = true :=
        fun s hs => hstack s (List.mem_cons_of_mem _ hs)
      cases hentered : enter w filter budget (already + before.length) i start with
      | error error =>
        simp only [walk, hentered] at h
        cases h
      | ok entered =>
        cases entered with
        | none =>
          simp only [walk, hentered] at h
          exact ih h hrest
        | some pair =>
          obtain ⟨record, children⟩ := pair
          simp only [walk, hentered] at h
          obtain ⟨hparent, _, hchildren⟩ := enter_parent hentered
          obtain ⟨records, rfl, hrecords⟩ := ih h (by
            intro s hs
            rcases List.mem_append.mp hs with hs | hs
            · exact hchildren s hs
            · exact hrest s hs)
          refine ⟨record :: records, by simp, ?_⟩
          intro r hr
          rcases List.mem_cons.mp hr with rfl | hr
          · rw [hparent]
            exact hstack start List.mem_cons_self
          · exact hrecords r hr

/-- A walk of the whole tree finds the root first, and what has a parent after it. -/
theorem walk_source {w : World} {t : TreeWatch} {already : Nat} {walked : List Walked}
    (h : t.walkBounded w [t.source] already = .ok walked) :
    ∃ wd records, walked = ⟨wd, none, []⟩ :: records ∧
      ∀ record ∈ records, record.parent.isSome = true := by
  unfold TreeWatch.walkBounded at h
  rw [List.reverse_singleton] at h
  cases htime : w.inTime with
  | zero =>
    rw [htime] at h
    cases h
  | succ inTime =>
    rw [htime] at h
    cases hentered : enter w t.filter t.budget (already + ([] : List Walked).length) 0 t.source with
    | error error =>
      simp only [walk, hentered] at h
      cases h
    | ok entered =>
      cases entered with
      | none => exact absurd (enter_none hentered) (by simp [TreeWatch.source])
      | some pair =>
        obtain ⟨record, children⟩ := pair
        simp only [walk, hentered] at h
        obtain ⟨hparent, hname, hchildren⟩ := enter_parent hentered
        obtain ⟨records, rfl, hrecords⟩ := walk_parents h (by simpa using hchildren)
        refine ⟨record.wd, records, ?_, hrecords⟩
        cases record
        simp only [TreeWatch.source] at hparent hname
        subst hparent
        subst hname
        rfl

/-! ## Batches -/

namespace TreeWatch

variable {t t' : TreeWatch} {root wd : Wd}

/-- The root alone, as it is the first that a walk of the whole tree finds. -/
theorem tree_relink_root (hempty : t.nodes = ∅) :
    (t.relink ⟨wd, none, []⟩).Tree wd ∧ (t.relink ⟨wd, none, []⟩).rootWd = some wd := by
  have hnone : ∀ k, look t.nodes k = none := by
    intro k
    simp [look, hempty]
  have hlook : ∀ k, look (t.relink ⟨wd, none, []⟩).nodes k =
      if k = wd then some ⟨none, [], []⟩ else none := by
    intro k
    have hfree : t.nodes[wd]? = none := hnone wd
    have hnew : t.nodes.contains wd = false := by simp [hempty]
    simp only [relink, attach, place, Option.isNone_none, ↓reduceIte, Option.any_none,
      Bool.false_eq_true, hfree, hnew, Option.map_none, Option.getD_none]
    rw [look_insert, look_erase, hnone]
    split <;> rfl
  refine ⟨IsTree.single ⟨[], by rw [hlook, if_pos rfl]⟩ ?_, ?_⟩
  · intro k hk
    rw [hlook, if_neg hk]
  · simp [relink]

/-- What the rewalk finds, each node of it under its parent. -/
def FitsRewalk (t : TreeWatch) (w : World) : Prop :=
  ∀ wd records, t.walkBounded w [t.source] 0 = .ok (⟨wd, none, []⟩ :: records) →
    FitsAll (({ t with nodes := ∅ } : TreeWatch).relink ⟨wd, none, []⟩) records

theorem tree_rewalk {w : World} (h : t.rewalk w = .ok t') (hfits : t.FitsRewalk w) :
    ∃ root, t'.rootWd = some root ∧ t'.Tree root := by
  unfold rewalk at h
  cases hwalked : t.walkBounded w [t.source] 0 with
  | error error =>
    rw [hwalked] at h
    cases h
  | ok walked =>
    rw [hwalked] at h
    cases h
    obtain ⟨wd, records, rfl, hparents⟩ := walk_source hwalked
    have hemptied : ({ t with nodes := ∅ } : TreeWatch).nodes = ∅ := rfl
    obtain ⟨htree, hroot⟩ := tree_relink_root hemptied
    obtain ⟨htree, hroot⟩ := isTree_foldl_relink htree hroot hparents (hfits wd records hwalked)
    exact ⟨wd, hroot, htree⟩

end TreeWatch

/-- A batch on its way: the arena a tree, and nothing that was moved is its root. -/
structure Batch.Intact (b : Batch) (root : Wd) : Prop where
  rootWd : b.tree.rootWd = some root
  tree : b.tree.Tree root
  moves : ∀ (cookie : Nat) (child : Wd), b.moves[cookie]? = some child → child ≠ root
  newDirs : ∀ start ∈ b.newDirs, start.parent.isSome = true

/-- A node that the event renames inside the tree fits where it comes to be. -/
def FitsEvent (b : Batch) (event : Event) : Prop :=
  ∀ dir entry name child, reading b.tree event = .listed dir entry name → event.mask.isDir = true →
    dirAction b event entry name = .renamed child → b.tree.Fits child event.wd name

def FitsEvents : Batch → List Event → Prop
  | _, [] => True
  | b, event :: events =>
    FitsEvent b event ∧ ∀ b', stepEvent b event = .ok b' → FitsEvents b' events

/-- Every node that the batch attaches fits where it is put. -/
def FitsBatch (w : World) (t : TreeWatch) (events : List Event) : Prop :=
  FitsEvents (Batch.begin t) events ∧
    ∀ b, events.foldlM stepEvent (Batch.begin t) = .ok b →
      if b.overflow || b.rulesChanged then (b.settled w).FitsRewalk w
      else ∀ walked, (b.settled w).walkBounded w b.newDirs (b.settled w).nodes.size = .ok walked →
        (b.settled w).FitsAll walked

/-- What the first walk finds, each node of it under its parent. -/
def FitsArm (w : World) (root : OsText) (filter : Filter) (events : EventSet) (budget : Budget)
    (deadline : Nat) : Prop :=
  (unarmed root filter events budget deadline).FitsRewalk w

/-- The batches of a run, each from where the one before it left the tree. -/
def FitsBatches : TreeWatch → List (World × List Event) → Prop
  | _, [] => True
  | t, (w, events) :: batches =>
    FitsBatch w t events ∧
      ∀ t' changes, process w t events = .ok (t', changes) → FitsBatches t' batches

variable {t t' : TreeWatch} {root : Wd} {b b' : Batch} {event : Event}

theorem child_ne_root (h : t.Tree root) {parent child : Wd} {name : OsText}
    (hchild : t.child parent name = some child) : child ≠ root := by
  obtain ⟨n, hn, hfind⟩ := Option.bind_eq_some_iff.mp hchild
  obtain ⟨m, hm, hparent⟩ := h.listed parent n hn child (List.mem_of_find?_eq_some hfind)
  rintro rfl
  rw [(h.rooted child m hm).mpr rfl] at hparent
  cases hparent

theorem watch_parent {entry : List Char} {name : OsText} {start : Start}
    (h : dirAction b event entry name = .watch start) : start.parent = some event.wd := by
  unfold dirAction at h
  simp only at h
  split at h
  · cases h
    rfl
  · split at h
    · split at h <;> cases h
    · split at h
      · split at h
        · cases h
        · split at h
          · cases h
          · cases h
            rfl
      · cases h

theorem moves_child {entry : List Char} {name : OsText} {child : Wd}
    (h : dirAction b event entry name = .moves child) :
    b.tree.child event.wd name = some child := by
  unfold dirAction at h
  simp only at h
  split at h
  · cases h
  · split at h
    · split at h
      · rename_i hchild
        cases h
        exact hchild
      · cases h
    · split at h
      · split at h
        · cases h
        · split at h <;> cases h
      · cases h

/-- The root's watch is not given up: the source is gone with it. -/
theorem reading_unwatched (h : reading t event = .unwatched) : t.rootWd ≠ some event.wd := by
  intro hroot
  unfold reading at h
  simp only [hroot, true_and] at h
  split at h
  · cases h
  · split at h
    · cases h
    · rename_i hkept
      split at h
      · rename_i hgone
        apply hkept
        rcases Bool.or_eq_true_iff.mp hgone with hgone | hgone <;> simp [hgone]
      · split at h
        · cases h
        · split at h
          · cases h
          · split at h
            · cases h
            · split at h <;> cases h

theorem intact_report {change : Change} (h : b.Intact root) : (b.report change).Intact root :=
  ⟨h.rootWd, h.tree, h.moves, h.newDirs⟩

theorem intact_act (h : b.Intact root) {entry : List Char} {name : OsText}
    (hfits : ∀ child, dirAction b event entry name = .renamed child →
      b.tree.Fits child event.wd name) :
    (b.act event name (dirAction b event entry name)).Intact root := by
  cases haction : dirAction b event entry name with
  | watch start =>
    refine ⟨h.rootWd, h.tree, h.moves, ?_⟩
    intro s hs
    rcases List.mem_append.mp hs with hs | hs
    · exact h.newDirs s hs
    · rw [List.mem_singleton.mp hs, watch_parent haction]
      rfl
  | moves child =>
    refine ⟨h.rootWd, h.tree, ?_, h.newDirs⟩
    intro cookie c hc
    replace hc : (b.moves.insert event.cookie child)[cookie]? = some c := hc
    rw [Std.TreeMap.getElem?_insert] at hc
    split at hc
    · obtain rfl := Option.some.inj hc
      exact child_ne_root h.tree (moves_child haction)
    · exact h.moves cookie c hc
  | renamed child =>
    refine ⟨?_, ?_, ?_, h.newDirs⟩
    · exact TreeWatch.rootWd_attach.trans h.rootWd
    · exact TreeWatch.isTree_attach h.tree h.rootWd (hfits child haction)
    · intro cookie c hc
      replace hc : (b.moves.erase event.cookie)[cookie]? = some c := hc
      rw [Std.TreeMap.getElem?_erase] at hc
      split at hc
      · cases hc
      · exact h.moves cookie c hc
  | nothing => exact h

theorem intact_step (h : b.Intact root) (hfits : FitsEvent b event)
    (hstep : stepEvent b event = .ok b') : b'.Intact root := by
  unfold stepEvent at hstep
  cases hreading : reading b.tree event with
  | overflow =>
    simp only [hreading] at hstep
    cases hstep
    exact ⟨h.rootWd, h.tree, h.moves, h.newDirs⟩
  | sourceGone =>
    simp only [hreading] at hstep
    cases hstep
  | unwatched =>
    simp only [hreading] at hstep
    cases hstep
    refine ⟨TreeWatch.rootWd_forget.trans h.rootWd, ?_, h.moves, h.newDirs⟩
    refine TreeWatch.isTree_forget h.tree ?_ false
    rintro rfl
    exact reading_unwatched hreading h.rootWd
  | stranger =>
    simp only [hreading] at hstep
    cases hstep
    exact h
  | excluded =>
    simp only [hreading] at hstep
    cases hstep
    exact h
  | itself dir =>
    simp only [hreading] at hstep
    split at hstep
    · cases hstep
      exact intact_report h
    · cases hstep
      exact h
  | rulesFile entry =>
    simp only [hreading] at hstep
    cases hstep
    exact intact_report ⟨h.rootWd, h.tree, h.moves, h.newDirs⟩
  | listed dir entry name =>
    simp only [hreading] at hstep
    have hacted : (if event.mask.isDir then b.act event name (dirAction b event entry name)
        else b).Intact root := by
      split
      · rename_i hdir
        exact intact_act h fun child hchild => hfits dir entry name child hreading hdir hchild
      · exact h
    split at hstep
    · cases hstep
      exact intact_report hacted
    · cases hstep
      exact hacted

theorem intact_foldlM {events : List Event} (h : b.Intact root) (hfits : FitsEvents b events)
    (hrun : events.foldlM stepEvent b = .ok b') : b'.Intact root := by
  induction events generalizing b with
  | nil =>
    cases hrun
    exact h
  | cons event events ih =>
    rw [List.foldlM_cons] at hrun
    cases hstep : stepEvent b event with
    | error error =>
      rw [hstep] at hrun
      cases hrun
    | ok next =>
      rw [hstep] at hrun
      exact ih (intact_step h hfits.1 hstep) (hfits.2 next hstep) hrun

theorem tree_settled (w : World) (h : b.Intact root) :
    (b.settled w).rootWd = some root ∧ (b.settled w).Tree root := by
  have hforgotten : ∀ children : List Wd, (∀ child ∈ children, child ≠ root) → ∀ t : TreeWatch,
      t.rootWd = some root → t.Tree root →
        (children.foldl (fun t child => t.forget child true) t).rootWd = some root ∧
          (children.foldl (fun t child => t.forget child true) t).Tree root := by
    intro children
    induction children with
    | nil => exact fun _ t hroot htree => ⟨hroot, htree⟩
    | cons child children ih =>
      intro hne t hroot htree
      exact ih (fun c hc => hne c (List.mem_cons_of_mem _ hc)) _
        (TreeWatch.rootWd_forget.trans hroot)
        (TreeWatch.isTree_forget htree (hne child List.mem_cons_self) true)
  have hmoves : ∀ child ∈ w.order (b.moves.toList.map Prod.snd), child ≠ root := by
    intro child hchild
    have hvalue := (w.order_perm _).mem_iff.mp hchild
    obtain ⟨⟨cookie, _⟩, hmem, rfl⟩ := List.mem_map.mp hvalue
    exact h.moves cookie _ (Std.TreeMap.mem_toList_iff_getElem?_eq_some.mp hmem)
  obtain ⟨hroot, htree⟩ := hforgotten _ hmoves b.tree h.rootWd h.tree
  unfold Batch.settled
  split
  · exact ⟨hroot, htree⟩
  · exact ⟨hroot, htree⟩

/-- A batch takes a tree to a tree. -/
theorem tree_process {w : World} {events : List Event} {changes : List Change}
    (hroot : t.rootWd = some root) (h : t.Tree root) (hfits : FitsBatch w t events)
    (hrun : process w t events = .ok (t', changes)) :
    ∃ root', t'.rootWd = some root' ∧ t'.Tree root' := by
  obtain ⟨hevents, hfound⟩ := hfits
  unfold process at hrun
  cases hb : events.foldlM stepEvent (Batch.begin t) with
  | error error =>
    rw [hb] at hrun
    cases hrun
  | ok b =>
    have hbegin : (Batch.begin t).Intact root :=
      ⟨hroot, h, by simp [Batch.begin], by simp [Batch.begin]⟩
    have hintact := intact_foldlM hbegin hevents hb
    obtain ⟨hsettled, htree⟩ := tree_settled w hintact
    have hfound := hfound b hb
    rw [hb] at hrun
    simp only [bind, Except.bind] at hrun
    split at hrun
    · rename_i hagain
      rw [if_pos hagain] at hfound
      cases hwalked : (b.settled w).rewalk w with
      | error error =>
        rw [hwalked] at hrun
        cases hrun
      | ok again =>
        rw [hwalked] at hrun
        cases hrun
        exact TreeWatch.tree_rewalk hwalked hfound
    · rename_i hkept
      rw [if_neg hkept] at hfound
      split at hrun
      · cases hrun
        exact ⟨root, hsettled, htree⟩
      · cases hwalked : (b.settled w).walkBounded w b.newDirs (b.settled w).nodes.size with
        | error error =>
          rw [hwalked] at hrun
          cases hrun
        | ok walked =>
          rw [hwalked] at hrun
          obtain ⟨records, heq, hparents⟩ := walk_parents hwalked (by
            intro s hs
            exact hintact.newDirs s (List.mem_reverse.mp hs))
          rw [List.nil_append] at heq
          subst heq
          have hfold := TreeWatch.isTree_foldl_relink htree hsettled hparents (hfound _ hwalked)
          have hlast : walked.foldl found (b.settled w, b.changes) = (t', changes) :=
            Except.ok.inj hrun
          rw [← TreeWatch.foldl_found hparents, hlast] at hfold
          exact ⟨root, hfold.2, hfold.1⟩

/-- Every run from an armed tree of which each node fits where it is put. -/
theorem sound_processAll (w : World) (root : OsText) (filter : Filter) (events : EventSet)
    (budget : Budget) (deadline : Nat) (batches : List (World × List Event)) (t t' : TreeWatch)
    (harm : arm w root filter events budget deadline = .ok t)
    (hfitsArm : FitsArm w root filter events budget deadline) (hfits : FitsBatches t batches)
    (hrun : processAll t batches = .ok t') : t'.Sound := by
  obtain ⟨wd, hroot, htree⟩ := TreeWatch.tree_rewalk harm hfitsArm
  clear harm hfitsArm
  induction batches generalizing t wd with
  | nil =>
    cases hrun
    exact TreeWatch.sound_of_tree hroot htree
  | cons batch batches ih =>
    rw [processAll, List.foldlM_cons] at hrun
    cases hprocess : process batch.1 t batch.2 with
    | error error =>
      rw [hprocess] at hrun
      cases hrun
    | ok next =>
      obtain ⟨next, changes⟩ := next
      rw [hprocess] at hrun
      obtain ⟨wd', hroot', htree'⟩ := tree_process hroot htree hfits.1 hprocess
      exact ih next (hfits.2 next changes hprocess) hrun wd' hroot' htree'

/-! ## Two directories that change names -/

namespace Exchange

def text (name : String) : OsText := Utf8.encode name.toList

/-- A share with two folders, and a third that may come. -/
def world : World where
  addWatch _ path :=
    if path = text "/s" then .armed 1 else if path = text "/s/a" then .armed 2
    else if path = text "/s/b" then .armed 3 else .armed 4
  subdirectories _ path := .names (if path = text "/s" then [text "a", text "b"] else [])
  inTime := 8
  reread := none
  order wds := wds
  order_perm _ := .refl _

def rules : Filter := ⟨fun _ _ => false⟩

def reported : EventSet := ⟨true, true, true, true, true, true, true⟩

def armed : Except WatchError TreeWatch :=
  arm world (text "/s") rules reported ⟨none, none, 0⟩ 60

/-- A third folder comes to be. -/
def created : Event := ⟨1, { isDir := true, create := true }, 0, some (text "c")⟩

theorem fitsArm_world : FitsArm world (text "/s") rules reported ⟨none, none, 0⟩ 60 := by
  intro wd records hwalked
  have hcomputed : TreeWatch.walkBounded (unarmed (text "/s") rules reported ⟨none, none, 0⟩ 60) world
      [(unarmed (text "/s") rules reported ⟨none, none, 0⟩ 60).source] 0 =
        .ok [⟨1, none, []⟩, ⟨3, some 1, text "b"⟩, ⟨2, some 1, text "a"⟩] := by decide +kernel
  rw [hcomputed] at hwalked
  cases hwalked
  refine ⟨?_, ?_, trivial⟩
  · rintro _ ⟨⟩
    exact TreeWatch.fits_of_top (n := ⟨none, [], []⟩) (by decide +kernel) rfl (by decide)
      (by decide +kernel)
  · rintro _ ⟨⟩
    exact TreeWatch.fits_of_top (n := ⟨none, [], [3]⟩) (by decide +kernel) rfl (by decide)
      (by decide +kernel)

def start : Start := ⟨text "/s/c", "c".toList, some 1, text "c"⟩

theorem fitsBatch_created {t : TreeWatch} (harmed : armed = .ok t) :
    FitsBatch world t [created] := by
  have hfacts : (match armed with
      | .ok t => decide (reading t created = .listed [] "c".toList (text "c") ∧
          dirAction (Batch.begin t) created "c".toList (text "c") = .watch start ∧
          t.walkBounded world [start] t.nodes.size = .ok [⟨4, some 1, text "c"⟩] ∧
          look t.nodes 1 = some ⟨none, [], [3, 2]⟩ ∧
          [3, 2].all (fun c => (look t.nodes c).all fun m => decide (m.name = text "c" → c = 4)) =
            true)
      | .error _ => false) = true := by decide +kernel
  rw [harmed] at hfacts
  obtain ⟨hreading, haction, hwalked, htop, hfree⟩ := of_decide_eq_true hfacts
  have hstep : ∀ b, stepEvent (Batch.begin t) created = .ok b → b.tree = t ∧ b.newDirs = [start] ∧
      b.moves = ∅ ∧ b.overflow = false ∧ b.rulesChanged = false := by
    intro b hb
    unfold stepEvent at hb
    simp only [Batch.begin] at haction hb
    simp only [hreading, haction] at hb
    split at hb <;> cases hb <;> exact ⟨rfl, rfl, rfl, rfl, rfl⟩
  refine ⟨⟨?_, fun _ _ => trivial⟩, ?_⟩
  · intro dir entry name child hread _ hrenamed
    rw [Batch.begin, hreading] at hread
    cases hread
    rw [haction] at hrenamed
    cases hrenamed
  · intro b hb
    rw [List.foldlM_cons] at hb
    cases hone : stepEvent (Batch.begin t) created with
    | error error =>
      rw [hone] at hb
      cases hb
    | ok b' =>
      rw [hone] at hb
      cases hb
      obtain ⟨htree, hdirs, hmoves, hover, hrules⟩ := hstep b hone
      have hnone : (∅ : Std.TreeMap Nat Wd).toList = [] := rfl
      have hsettled : b.settled world = t := by
        simp [Batch.settled, hmoves, hrules, htree, hnone, world]
      rw [hover, hrules, Bool.or_self, if_neg Bool.false_ne_true, hsettled, hdirs, hwalked]
      rintro _ ⟨⟩
      refine ⟨?_, trivial⟩
      rintro _ ⟨⟩
      exact TreeWatch.fits_of_top htop rfl (by decide) hfree

theorem sound_processAll_created : ∃ t t',
    arm world (text "/s") rules reported ⟨none, none, 0⟩ 60 = .ok t ∧
      processAll t [(world, [created])] = .ok t' ∧ t'.nodes.contains 4 = true ∧ t'.Sound := by
  have hrun : (match armed.bind fun t => processAll t [(world, [created])] with
      | .ok t => t.nodes.contains 4
      | .error _ => false) = true := by decide +kernel
  cases harmed : armed with
  | error error =>
    rw [harmed] at hrun
    cases hrun
  | ok t =>
    rw [harmed] at hrun
    cases hprocessed : processAll t [(world, [created])] with
    | error error =>
      rw [Except.bind, hprocessed] at hrun
      cases hrun
    | ok t' =>
      rw [Except.bind, hprocessed] at hrun
      exact ⟨t, t', harmed, hprocessed, hrun,
        sound_processAll world (text "/s") rules reported ⟨none, none, 0⟩ 60
          [(world, [created])] t t' harmed fitsArm_world
          ⟨fitsBatch_created harmed, fun _ _ _ => trivial⟩ hprocessed⟩

/-- `renameat2` with `RENAME_EXCHANGE`: two moves, each with its cookie, and nothing is deleted. -/
def exchange : List Event :=
  [⟨1, { isDir := true, movedFrom := true }, 1, some (text "a")⟩,
    ⟨1, { isDir := true, movedTo := true }, 1, some (text "b")⟩,
    ⟨1, { isDir := true, movedFrom := true }, 2, some (text "b")⟩,
    ⟨1, { isDir := true, movedTo := true }, 2, some (text "a")⟩]

/-- The folder that was called `b` stays in the arena, and its parent does not list it. -/
theorem not_sound_processAll : ∃ t t', arm world (text "/s") rules reported ⟨none, none, 0⟩ 60 = .ok t ∧
    processAll t [(world, exchange)] = .ok t' ∧ ¬t'.Sound := by
  have hrun : (match armed.bind fun t => processAll t [(world, exchange)] with
      | .ok t => decide (t.rootWd = some 1 ∧ t.nodes[3]? = some ⟨some 1, text "b", []⟩ ∧
          t.nodes[1]? = some ⟨none, [], [2]⟩)
      | .error _ => false) = true := by decide +kernel
  cases harmed : armed with
  | error error =>
    rw [harmed] at hrun
    cases hrun
  | ok t =>
    rw [harmed] at hrun
    cases hprocessed : processAll t [(world, exchange)] with
    | error error =>
      rw [Except.bind, hprocessed] at hrun
      cases hrun
    | ok t' =>
      rw [Except.bind, hprocessed] at hrun
      obtain ⟨hroot, hunlisted, htop⟩ := of_decide_eq_true hrun
      refine ⟨t, t', harmed, hprocessed, fun hsound => ?_⟩
      obtain ⟨root, hroot', htree⟩ := hsound.tree
      obtain rfl := Option.some.inj (hroot.symm.trans hroot')
      obtain ⟨n, hn, hcount⟩ := htree.linked 3 _ hunlisted 1 rfl
      obtain rfl := Option.some.inj (htop.symm.trans hn)
      revert hcount
      decide

end Exchange

end Watch
end DriveSync
