import Mathlib.Data.List.Sort
import DriveSync.Plan.Spellings

/-!
# DriveSync.Plan.Decide

Whether a path's spelling can be carried, decided class by class: what is blocked, renamed or left
beside the spelling the source holds.

* `decideClass`: what the spellings of one class come to.
* `resolveSpellings`: the decisions in fold order. A class beneath a blocked one is not decided.
* `CaseRename`: the classes that are renames, as a relation on the two inventories.
* `Decided`: what the loop has collected from the classes done so far; `decideClasses_decided`
  is that of all of them, and `mem_renames` reads the renames off it.
-/

namespace DriveSync

open Path

/-- What the spellings of a class come to. -/
inductive ClassOutcome where
  | settled
  | collision (reports : List SkippedEntry)
  | rename (loc remote : RelPath)
  | leftover (old kept : RelPath)
deriving DecidableEq, Repr

namespace ClassOutcome

def rename? : ClassOutcome → Option (RelPath × RelPath)
  | rename l r => some (l, r)
  | _ => none

def leftover? : ClassOutcome → Option (RelPath × RelPath)
  | leftover old kept => some (old, kept)
  | _ => none

theorem rename?_eq_some {o : ClassOutcome} {x r : RelPath} :
    o.rename? = some (x, r) ↔ o = .rename x r := by
  cases o <;> simp [rename?]

theorem leftover?_eq_some {o : ClassOutcome} {x r : RelPath} :
    o.leftover? = some (x, r) ↔ o = .leftover x r := by
  cases o <;> simp [leftover?]

end ClassOutcome

/-- A fold blocked later in the order covers none of the folds before it. -/
theorem coversFold_insert_of_lt {shield : Shield} {f k : RelPath} (h : k < f) :
    (shield.insert f).coversFold k = shield.coversFold k := by
  rw [Bool.eq_iff_iff, Shield.coversFold_iff, Shield.coversFold_iff]
  constructor
  · rintro ⟨g, hg, hgk⟩
    rcases Shield.mem_insert.mp hg with rfl | hg
    · exfalso
      rcases hgk with rfl | hgk
      · exact lt_irrefl _ h
      · exact lt_irrefl _ (h.trans (lt_of_mem_ancestors hgk))
    · exact ⟨g, hg, hgk⟩
  · rintro ⟨g, hg, hgk⟩
    exact ⟨g, Shield.mem_insert.mpr (.inr hg), hgk⟩

section Resolve

variable [Unicode]

/-- Two remote spellings of one name. -/
def decideRemote (loc : Option RelPath) (first second : RelPath) : ClassOutcome :=
  let kept := loc.bind fun localSpelling =>
    [first, second].find? fun remoteSpelling => decide (nfc remoteSpelling = nfc localSpelling)
  match kept with
  | some kept => .leftover (if kept = first then second else first) kept
  | none =>
    .collision <|
      [⟨first, .remoteCaseCollision second⟩, ⟨second, .remoteCaseCollision first⟩] ++
        ((loc.filter fun spelling => decide (spelling ≠ first ∧ spelling ≠ second)).toList.map
          fun spelling => ⟨spelling, .remoteCaseCollision first⟩)

/-- One spelling on each side. -/
def decidePair (L : LocalInventory) (R : RemoteInventory) (delete : Bool)
    (localSpelling remoteSpelling : RelPath) : ClassOutcome :=
  if localSpelling ≠ remoteSpelling ∧ nfc localSpelling ≠ nfc remoteSpelling ∧
      namesDiffer localSpelling remoteSpelling = true then
    if !delete then
      .collision [⟨localSpelling, .caseRenameNeedsDelete remoteSpelling⟩]
    else if (L.entries.get? localSpelling).map (·.kind) =
        (R.entries.get? remoteSpelling).map (·.kind) then
      .rename localSpelling remoteSpelling
    else .settled
  else .settled

def decideClass (L : LocalInventory) (R : RemoteInventory) (delete : Bool)
    (cls : Spellings) : ClassOutcome :=
  match cls.loc.first, cls.loc.other with
  | some first, some second =>
    if namesDiffer first second then
      .collision [⟨first, .localCaseCollision second⟩, ⟨second, .localCaseCollision first⟩]
    else .settled
  | _, _ =>
    match cls.remote.first, cls.remote.other with
    | some first, some second =>
      if namesDiffer first second then decideRemote cls.loc.first first second else .settled
    | _, _ =>
      match cls.loc.first, cls.remote.first with
      | some localSpelling, some remoteSpelling =>
        decidePair L R delete localSpelling remoteSpelling
      | _, _ => .settled

/-- What the loop over the classes has collected. -/
structure SpellingState where
  blocked : Shield
  skipped : List SkippedEntry
  renames : List (RelPath × RelPath)
  leftovers : List (RelPath × RelPath)

def resolveClass (L : LocalInventory) (R : RemoteInventory) (delete : Bool)
    (s : SpellingState) (cls : RelPath × Spellings) : SpellingState :=
  if s.blocked.coversFold cls.1 then s
  else
    match decideClass L R delete cls.2 with
    | .settled => s
    | .collision reports =>
      { s with blocked := s.blocked.insert cls.1, skipped := s.skipped ++ reports }
    | .rename l r => { s with renames := s.renames ++ [(l, r)] }
    | .leftover old kept => { s with leftovers := s.leftovers ++ [(old, kept)] }

/-- Where the loop starts: the walk's own skips and the refused paths block first. -/
def initialState (L : LocalInventory) (refused : List SkippedEntry) : SpellingState :=
  ⟨(L.skipped ++ refused).foldl
    (fun shield skip => shield.insert (portableFold skip.relative)) ⟨∅⟩, refused, [], []⟩

/-- The loop over the classes, ancestors before descendants. -/
def decideClasses (L : LocalInventory) (R : RemoteInventory) (rules : IgnoreRules) (delete : Bool)
    (refused : List SkippedEntry) : SpellingState :=
  (classes L R rules).toList.foldl (resolveClass L R delete) (initialState L refused)

/-- Decide every class. A rename beneath a blocked folder never happens; the others go deepest
first. -/
def resolveSpellings (L : LocalInventory) (R : RemoteInventory) (rules : IgnoreRules)
    (delete : Bool) (refused : List SkippedEntry) : SpellingState :=
  let s := decideClasses L R rules delete refused
  { s with
    renames := (s.renames.filter fun rename =>
        !foldHasAncestorIn (portableFold rename.1) s.blocked.folds).insertionSort
      fun a b => DeepestFirst a.1 b.1 }

variable {L : LocalInventory} {R : RemoteInventory} {rules : IgnoreRules}

/-- `x` and `r` are the only spellings of one fold on either side, of one kind, and their own names
differ by case. -/
structure CaseRename (L : LocalInventory) (R : RemoteInventory) (rules : IgnoreRules)
    (x r : RelPath) : Prop where
  isLocal : IsLocalSpelling L x
  isRemote : IsRemoteSpelling R rules r
  fold_eq : portableFold r = portableFold x
  onlyLocal : ∀ x', IsLocalSpelling L x' → portableFold x' = portableFold x → x' = x
  onlyRemote : ∀ r', IsRemoteSpelling R rules r' → portableFold r' = portableFold x → r' = r
  nfc_ne : nfc x ≠ nfc r
  differ : namesDiffer x r = true
  kind_eq : (L.entries.get? x).map (·.kind) = (R.entries.get? r).map (·.kind)

theorem CaseRename.target {x r : RelPath} {newName : Name} (h : CaseRename L R rules x r)
    (hname : x.name?.map Unicode.nfc = some newName) :
    portableFold (.child r.parent newName) = portableFold r ∧ .child r.parent newName ≠ r := by
  have hfold := h.fold_eq
  have hdiffer := h.differ
  cases x with
  | root => simp at hname
  | child p n =>
    cases r with
    | root => simp [portableFold] at hfold
    | child q m =>
      simp only [name?_child, Option.map_some, Option.some.injEq] at hname
      subst hname
      simp only [portableFold, map_child, Path.child.injEq] at hfold
      constructor
      · simp only [parent_child, portableFold, map_child, foldName_nfc, hfold.2]
      · rintro heq
        simp only [parent_child, Path.child.injEq, true_and] at heq
        simp [namesDiffer, ← heq, Unicode.nfc_nfc] at hdiffer

theorem decidePair_eq_rename {delete : Bool} {l m x r : RelPath} :
    decidePair L R delete l m = .rename x r ↔
      delete = true ∧ l = x ∧ m = r ∧ nfc x ≠ nfc r ∧ namesDiffer x r = true ∧
        (L.entries.get? x).map (·.kind) = (R.entries.get? r).map (·.kind) := by
  simp only [decidePair]
  constructor
  · intro h
    split at h
    · rename_i hdiff
      split at h
      · cases h
      · rename_i hdelete
        split at h
        · rename_i hkind
          cases h
          exact ⟨by simpa using hdelete, rfl, rfl, hdiff.2.1, hdiff.2.2, hkind⟩
        · cases h
    · cases h
  · rintro ⟨rfl, rfl, rfl, hnfc, hdiffer, hkind⟩
    have hne : l ≠ m := fun heq => hnfc (heq ▸ rfl)
    simp [hne, hnfc, hdiffer, hkind]

theorem decideRemote_ne_rename {l : Option RelPath} {first second x r : RelPath} :
    decideRemote l first second ≠ .rename x r := by
  simp only [decideRemote]
  split <;> simp

/-- A class is a rename exactly when it holds one spelling on each side and they differ by case. -/
theorem decideClass_eq_rename {delete : Bool} {cls : RelPath × Spellings} {x r : RelPath}
    (h : cls ∈ (classes L R rules).toList) :
    decideClass L R delete cls.2 = .rename x r ↔
      delete = true ∧ portableFold x = cls.1 ∧ CaseRename L R rules x r := by
  obtain ⟨hloc, hremote⟩ := noted_of_mem_classes h
  obtain ⟨fold, ⟨⟨l1, l2⟩, ⟨r1, r2⟩⟩⟩ := cls
  simp only at hloc hremote ⊢
  constructor
  · intro hdec
    simp only [decideClass] at hdec
    split at hdec
    · split at hdec <;> cases hdec
    · rename_i hl
      split at hdec
      · split at hdec
        · exact absurd hdec decideRemote_ne_rename
        · cases hdec
      · rename_i hr
        split at hdec
        · rename_i y s
          obtain ⟨hdelete, rfl, rfl, hnfc, hdiffer, hkind⟩ := decidePair_eq_rename.mp hdec
          have hl2 : l2 = none := by
            cases l2 with
            | none => rfl
            | some z => exact absurd rfl (hl y z rfl)
          have hr2 : r2 = none := by
            cases r2 with
            | none => rfl
            | some z => exact absurd rfl (hr s z rfl)
          obtain ⟨hxs, hxf⟩ := hloc.first y rfl
          obtain ⟨hrs, hrf⟩ := hremote.first s rfl
          refine ⟨hdelete, hxf, hxs, hrs, hrf.trans hxf.symm, ?_, ?_, hnfc, hdiffer, hkind⟩
          · intro x' hx' hf
            have := hloc.all hl2 x' hx' (hf.trans hxf)
            simpa using this.symm
          · intro r' hr' hf
            have := hremote.all hr2 r' hr' (hf.trans hxf)
            simpa using this.symm
        · cases hdec
  · rintro ⟨hdelete, rfl, hren⟩
    have hl2 : l2 = none := by
      cases l2 with
      | none => rfl
      | some z =>
        obtain ⟨hz, hzf, y, hy, hne⟩ := hloc.other z rfl
        obtain ⟨hys, hyf⟩ := hloc.first y hy
        exact absurd ((hren.onlyLocal y hys hyf).trans (hren.onlyLocal z hz hzf).symm) hne
    have hr2 : r2 = none := by
      cases r2 with
      | none => rfl
      | some z =>
        obtain ⟨hz, hzf, y, hy, hne⟩ := hremote.other z rfl
        obtain ⟨hys, hyf⟩ := hremote.first y hy
        exact absurd ((hren.onlyRemote y hys hyf).trans (hren.onlyRemote z hz hzf).symm) hne
    have hl1 : l1 = some x := hloc.all hl2 x hren.isLocal rfl
    have hr1 : r1 = some r := hremote.all hr2 r hren.isRemote hren.fold_eq
    subst hl1 hl2 hr1 hr2
    simp only [decideClass]
    exact decidePair_eq_rename.mpr
      ⟨hdelete, rfl, rfl, hren.nfc_ne, hren.differ, hren.kind_eq⟩

/-! ## What the loop leaves -/

/-- What is collected from the classes done so far: every collision is blocked and reported, and
what is not beneath a blocked fold is a rename or a leftover as its class says. -/
structure Decided (L : LocalInventory) (R : RemoteInventory) (delete : Bool)
    (init : SpellingState) (done : List (RelPath × Spellings)) (s : SpellingState) : Prop where
  blocked : ∀ f ∈ s.blocked.folds, f ∈ init.blocked.folds ∨
    ∃ cls ∈ done, cls.1 = f ∧ ∃ reports, decideClass L R delete cls.2 = .collision reports ∧
      ∀ rep ∈ reports, rep ∈ s.skipped
  blocked_init : ∀ f ∈ init.blocked.folds, f ∈ s.blocked.folds
  collision : ∀ cls ∈ done, ∀ reports, decideClass L R delete cls.2 = .collision reports →
    s.blocked.coversFold cls.1 = true
  skipped : ∀ rep ∈ s.skipped, rep ∈ init.skipped ∨
    ∃ cls ∈ done, ∃ reports, decideClass L R delete cls.2 = .collision reports ∧
      rep ∈ reports ∧ cls.1 ∈ s.blocked.folds
  skipped_init : ∀ rep ∈ init.skipped, rep ∈ s.skipped
  renames : s.renames = done.filterMap fun cls =>
    if s.blocked.coversFold cls.1 then none else (decideClass L R delete cls.2).rename?
  leftovers : s.leftovers = done.filterMap fun cls =>
    if s.blocked.coversFold cls.1 then none else (decideClass L R delete cls.2).leftover?

/-- The step of the loop: `cls` comes after every class done. -/
theorem resolveClass_decided {delete : Bool} {init s : SpellingState}
    {done : List (RelPath × Spellings)} {cls : RelPath × Spellings}
    (hlt : ∀ c ∈ done, c.1 < cls.1) (h : Decided L R delete init done s) :
    Decided L R delete init (done ++ [cls]) (resolveClass L R delete s cls) := by
  have hblocked : ∀ f ∈ s.blocked.folds, f ∈ init.blocked.folds ∨
      ∃ c ∈ done ++ [cls], c.1 = f ∧ ∃ reports,
        decideClass L R delete c.2 = .collision reports ∧ ∀ rep ∈ reports, rep ∈ s.skipped := by
    intro f hf
    refine (h.blocked f hf).imp id ?_
    rintro ⟨c, hc, hrest⟩
    exact ⟨c, by simp [hc], hrest⟩
  have hskipped : ∀ rep ∈ s.skipped, rep ∈ init.skipped ∨
      ∃ c ∈ done ++ [cls], ∃ reports, decideClass L R delete c.2 = .collision reports ∧
        rep ∈ reports ∧ c.1 ∈ s.blocked.folds := by
    intro rep hrep
    refine (h.skipped rep hrep).imp id ?_
    rintro ⟨c, hc, hrest⟩
    exact ⟨c, by simp [hc], hrest⟩
  have hcollision : (∀ reports, decideClass L R delete cls.2 = .collision reports →
      s.blocked.coversFold cls.1 = true) → ∀ c ∈ done ++ [cls], ∀ reports,
        decideClass L R delete c.2 = .collision reports → s.blocked.coversFold c.1 = true := by
    intro hcls c hc reports hrep
    rcases List.mem_append.mp hc with hc | hc
    · exact h.collision c hc reports hrep
    · obtain rfl := List.mem_singleton.mp hc
      exact hcls reports hrep
  simp only [resolveClass]
  split
  · rename_i hcov
    refine ⟨hblocked, h.blocked_init, hcollision fun _ _ => hcov, hskipped, h.skipped_init, ?_, ?_⟩
    · rw [List.filterMap_append, ← h.renames]; simp [hcov]
    · rw [List.filterMap_append, ← h.leftovers]; simp [hcov]
  · rename_i hcov
    split
    · rename_i hdec
      refine ⟨hblocked, h.blocked_init, hcollision (by simp [hdec]), hskipped, h.skipped_init,
        ?_, ?_⟩
      · rw [List.filterMap_append, ← h.renames]; simp [hdec, ClassOutcome.rename?]
      · rw [List.filterMap_append, ← h.leftovers]; simp [hdec, ClassOutcome.leftover?]
    · rename_i reports hdec
      -- the fold blocked now comes after the classes done, so it changes nothing for them
      have hsame : ∀ c ∈ done, (s.blocked.insert cls.1).coversFold c.1 =
          s.blocked.coversFold c.1 := fun c hc => coversFold_insert_of_lt (hlt c hc)
      have hself : (s.blocked.insert cls.1).coversFold cls.1 = true :=
        Shield.coversFold_iff.mpr ⟨cls.1, Shield.mem_insert.mpr (.inl rfl), .inl rfl⟩
      refine ⟨?_, fun f hf => Shield.mem_insert.mpr (.inr (h.blocked_init f hf)), ?_, ?_,
        fun rep hrep => List.mem_append_left _ (h.skipped_init rep hrep), ?_, ?_⟩
      · intro f hf
        rcases Shield.mem_insert.mp hf with rfl | hf
        · exact .inr ⟨cls, by simp, rfl, reports, hdec, fun rep hrep => by simp [hrep]⟩
        · refine (hblocked f hf).imp id ?_
          rintro ⟨c, hc, hcf, reports, hrep, hmem⟩
          exact ⟨c, hc, hcf, reports, hrep, fun rep h => List.mem_append_left _ (hmem rep h)⟩
      · intro c hc reports hrep
        rcases List.mem_append.mp hc with hc | hc
        · rw [hsame c hc]
          exact h.collision c hc reports hrep
        · rw [List.mem_singleton.mp hc]
          exact hself
      · intro rep hrep
        rcases List.mem_append.mp hrep with hrep | hrep
        · refine (hskipped rep hrep).imp id ?_
          rintro ⟨c, hc, reports, hdec, hmem, hf⟩
          exact ⟨c, hc, reports, hdec, hmem, Shield.mem_insert.mpr (.inr hf)⟩
        · exact .inr ⟨cls, by simp, reports, hdec, hrep, Shield.mem_insert.mpr (.inl rfl)⟩
      · rw [List.filterMap_append]
        simp only [List.filterMap_cons, hself, if_true, List.filterMap_nil, List.append_nil]
        rw [h.renames]
        exact List.filterMap_congr fun c hc => by rw [hsame c hc]
      · rw [List.filterMap_append]
        simp only [List.filterMap_cons, hself, if_true, List.filterMap_nil, List.append_nil]
        rw [h.leftovers]
        exact List.filterMap_congr fun c hc => by rw [hsame c hc]
    · rename_i l r hdec
      refine ⟨hblocked, h.blocked_init, hcollision (by simp [hdec]), hskipped, h.skipped_init,
        ?_, ?_⟩
      · rw [List.filterMap_append, ← h.renames]; simp [hdec, hcov, ClassOutcome.rename?]
      · rw [List.filterMap_append, ← h.leftovers]; simp [hdec, ClassOutcome.leftover?]
    · rename_i old kept hdec
      refine ⟨hblocked, h.blocked_init, hcollision (by simp [hdec]), hskipped, h.skipped_init,
        ?_, ?_⟩
      · rw [List.filterMap_append, ← h.renames]; simp [hdec, ClassOutcome.rename?]
      · rw [List.filterMap_append, ← h.leftovers]; simp [hdec, hcov, ClassOutcome.leftover?]

theorem mem_foldl_insert {l : List SkippedEntry} {shield : Shield} {f : RelPath} :
    f ∈ (l.foldl (fun shield skip => shield.insert (portableFold skip.relative)) shield).folds ↔
      f ∈ shield.folds ∨ ∃ skip ∈ l, portableFold skip.relative = f := by
  induction l generalizing shield with
  | nil => simp
  | cons skip l ih =>
    rw [List.foldl_cons, ih, Shield.mem_insert]
    simp only [List.mem_cons, exists_eq_or_imp]
    tauto

theorem mem_initialState {refused : List SkippedEntry} {f : RelPath} :
    f ∈ (initialState L refused).blocked.folds ↔
      ∃ skip ∈ L.skipped ++ refused, portableFold skip.relative = f := by
  rw [initialState, mem_foldl_insert]
  simp

variable (L R rules) in
theorem decideClasses_decided (delete : Bool) (refused : List SkippedEntry) :
    Decided L R delete (initialState L refused) (classes L R rules).toList
      (decideClasses L R rules delete refused) := by
  refine Loop.foldl_done _ ?_ ?_
  · exact ⟨fun f hf => .inl hf, fun f hf => hf, by simp, fun rep hrep => .inl hrep,
      fun rep hrep => hrep, rfl, rfl⟩
  · intro done cls rest s hl h
    refine resolveClass_decided ?_ h
    have hsorted := pairwise_lt_toList (classes L R rules)
    rw [hl, List.pairwise_append] at hsorted
    exact fun c hc => hsorted.2.2 c hc cls (by simp)

section Spec

variable {delete : Bool} {refused : List SkippedEntry}

theorem blocked_resolveSpellings : (resolveSpellings L R rules delete refused).blocked =
    (decideClasses L R rules delete refused).blocked := by rw [resolveSpellings]

theorem skipped_resolveSpellings : (resolveSpellings L R rules delete refused).skipped =
    (decideClasses L R rules delete refused).skipped := by rw [resolveSpellings]

theorem leftovers_resolveSpellings : (resolveSpellings L R rules delete refused).leftovers =
    (decideClasses L R rules delete refused).leftovers := by rw [resolveSpellings]

/-- The renames are the classes that are renames and neither blocked nor beneath a blocked fold. -/
theorem mem_renames {x r : RelPath} :
    (x, r) ∈ (resolveSpellings L R rules delete refused).renames ↔
      delete = true ∧ CaseRename L R rules x r ∧
        (resolveSpellings L R rules delete refused).blocked.covers x = false := by
  have h := decideClasses_decided L R rules delete refused
  rw [blocked_resolveSpellings]
  simp only [resolveSpellings, List.mem_insertionSort, List.mem_filter, Bool.not_eq_true']
  rw [h.renames, List.mem_filterMap]
  constructor
  · rintro ⟨⟨cls, hcls, hren⟩, -⟩
    split at hren
    · cases hren
    · rename_i hcov
      obtain ⟨hdelete, hfold, hpair⟩ :=
        (decideClass_eq_rename hcls).mp (ClassOutcome.rename?_eq_some.mp hren)
      refine ⟨hdelete, hpair, ?_⟩
      rw [Shield.covers, hfold]
      exact Bool.not_eq_true _ ▸ hcov
  · rintro ⟨hdelete, hpair, hcov⟩
    have hcls := exists_class_of_local R rules hpair.isLocal
    refine ⟨⟨_, hcls, ?_⟩, ?_⟩
    · rw [Shield.covers] at hcov
      rw [hcov, if_neg (by simp)]
      exact ClassOutcome.rename?_eq_some.mpr
        ((decideClass_eq_rename hcls).mpr ⟨hdelete, rfl, hpair⟩)
    · simp only [Shield.covers, Shield.coversFold, Bool.or_eq_false_iff] at hcov
      exact hcov.2

theorem sorted_renames : (resolveSpellings L R rules delete refused).renames.Pairwise
    fun a b => DeepestFirst a.1 b.1 := by
  rw [resolveSpellings]
  exact Sorted.pairwise_sortBy deepestFirst_total deepestFirst_trans _

theorem nodup_renames :
    ((resolveSpellings L R rules delete refused).renames.map (·.1)).Nodup := by
  have hperm := (List.perm_insertionSort (fun a b => DeepestFirst a.1 b.1)
    ((decideClasses L R rules delete refused).renames.filter fun rename =>
      !foldHasAncestorIn (portableFold rename.1)
        (decideClasses L R rules delete refused).blocked.folds)).map (·.1)
  rw [resolveSpellings, hperm.nodup_iff]
  refine List.Nodup.sublist ((List.filter_sublist).map _) ?_
  rw [(decideClasses_decided L R rules delete refused).renames, List.Nodup, List.pairwise_map,
    List.pairwise_filterMap]
  refine (pairwise_lt_toList (classes L R rules)).imp_of_mem fun hc hd hlt a ha b hb heq => ?_
  have hfold : ∀ {cls : RelPath × Spellings} {rename : RelPath × RelPath},
      cls ∈ (classes L R rules).toList →
      (if (decideClasses L R rules delete refused).blocked.coversFold cls.1 = true then none
        else (decideClass L R delete cls.2).rename?) = some rename →
      portableFold rename.1 = cls.1 := by
    intro cls rename hcls hren
    split at hren
    · cases hren
    · exact ((decideClass_eq_rename hcls).mp (ClassOutcome.rename?_eq_some.mp hren)).2.1
  rw [← hfold hc ha, ← hfold hd hb, heq] at hlt
  exact lt_irrefl _ hlt

theorem fold_of_leftover {cls : RelPath × Spellings} (hcls : cls ∈ (classes L R rules).toList)
    {old kept : RelPath} (h : decideClass L R delete cls.2 = .leftover old kept) :
    portableFold old = cls.1 ∧ IsRemoteSpelling R rules old := by
  obtain ⟨_, hremote⟩ := noted_of_mem_classes hcls
  simp only [decideClass] at h
  split at h
  · split at h <;> cases h
  · split at h
    · rename_i first second hfirst hother
      split at h
      · simp only [decideRemote] at h
        split at h
        · cases h
          split
          · exact ⟨(hremote.other _ hother).2.1, (hremote.other _ hother).1⟩
          · exact ⟨(hremote.first _ hfirst).2, (hremote.first _ hfirst).1⟩
        · cases h
      · cases h
    · split at h
      · simp only [decidePair] at h
        split at h
        · split at h
          · cases h
          · split at h <;> cases h
        · cases h
      · cases h

/-- A leftover is recorded for its class, of two spellings of one remote name. -/
theorem mem_leftovers_resolveSpellings {old kept : RelPath} :
    (old, kept) ∈ (resolveSpellings L R rules delete refused).leftovers ↔
      ∃ cls ∈ (classes L R rules).toList, portableFold old = cls.1 ∧
        decideClass L R delete cls.2 = .leftover old kept ∧
        (resolveSpellings L R rules delete refused).blocked.coversFold cls.1 = false := by
  rw [leftovers_resolveSpellings, (decideClasses_decided L R rules delete refused).leftovers,
    List.mem_filterMap, blocked_resolveSpellings]
  constructor
  · rintro ⟨cls, hcls, hleft⟩
    split at hleft
    · cases hleft
    · rename_i hcov
      have hdec := ClassOutcome.leftover?_eq_some.mp hleft
      exact ⟨cls, hcls, (fold_of_leftover hcls hdec).1, hdec, Bool.not_eq_true _ ▸ hcov⟩
  · rintro ⟨cls, hcls, _, hdec, hcov⟩
    refine ⟨cls, hcls, ?_⟩
    rw [hcov, if_neg (by simp)]
    exact ClassOutcome.leftover?_eq_some.mpr hdec

end Spec

end Resolve

end DriveSync
