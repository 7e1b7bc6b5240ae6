import DriveSync.Lib.Loop
import DriveSync.Plan.Spellings
import DriveSync.Small

/-!
# DriveSync.Walk.Collisions

What the local scan takes out before a plan is made: the names that differ only by case or
normalisation, with everything beneath them. The folds are read in order, so a fold beneath one
already dropped is passed over: its entries go with the folder.

* `mem_byFold`: the spellings of a fold are the keys that fold to it.
* `Collided`: which folds are dropped, and by which pairs.
* `get?_skipPortableCaseCollisions`: what is removed is what lies at or beneath a reported spelling.
-/

namespace DriveSync

open Path

/-- What the walk has found, and what it declined to carry. -/
structure ScanOutput where
  entries : LocalMap
  skipped : List SkippedEntry

/-- The spellings to drop, each with the one it collides with, and their folds. -/
structure Collisions where
  colliding : List (RelPath × RelPath)
  droppedFolds : Std.TreeSet RelPath

/-- The skipped spelling of a fold, where it is not one of the entries too. -/
def skippedSpelling (skipped : Std.TreeMap RelPath RelPath) (fold : RelPath)
    (spellings : List RelPath) : Option RelPath :=
  skipped[fold]?.filter fun spelling => !spellings.contains spelling

def collide (skipped : Std.TreeMap RelPath RelPath) (s : Collisions)
    (spelled : RelPath × List RelPath) : Collisions :=
  let fold := spelled.1
  let spellings := spelled.2
  if spellings.length < 2 ∧ (skippedSpelling skipped fold spellings).isNone = true then s
  else if foldHasAncestorIn fold s.droppedFolds then s
  else
    ⟨s.colliding ++
        match skippedSpelling skipped fold spellings with
        | some skipped => spellings.map fun spelling => (spelling, skipped)
        | none => spellings.zipIdx.map fun spelling =>
          (spelling.1, spellings.getD ((spelling.2 + 1) % spellings.length) spelling.1),
      s.droppedFolds.insert fold⟩

/-- One spelling taken out, with everything beneath it, and reported. -/
def dropColliding (output : ScanOutput) (pair : RelPath × RelPath) : ScanOutput :=
  ⟨(((rangeBeneath output.entries.map pair.1).map (·.1)).foldl EntryMap.erase output.entries).erase
      pair.1,
    output.skipped ++ [⟨pair.1, .localCaseCollision pair.2⟩]⟩

section Collide

variable [Unicode]

def noteFold (folds : Std.TreeMap RelPath (List RelPath)) (relative : RelPath) :
    Std.TreeMap RelPath (List RelPath) :=
  folds.insert (portableFold relative) (folds[portableFold relative]?.getD [] ++ [relative])

/-- The spellings of each fold, in key order. -/
def byFold (entries : LocalMap) : Std.TreeMap RelPath (List RelPath) :=
  entries.keys.foldl noteFold ∅

/-- The skipped spelling of each fold; of several the last. -/
def skippedByFold (skipped : List SkippedEntry) : Std.TreeMap RelPath RelPath :=
  skipped.foldl (fun folds skip => folds.insert (portableFold skip.relative) skip.relative) ∅

def collisions (output : ScanOutput) : Collisions :=
  (byFold output.entries).toList.foldl (collide (skippedByFold output.skipped)) ⟨[], ∅⟩

def skipPortableCaseCollisions (output : ScanOutput) : ScanOutput :=
  (collisions output).colliding.foldl dropColliding output

end Collide

/-! ## One step -/

theorem eq_of_length_lt_two {α : Type} {l : List α} (h : l.length < 2) {a b : α} (ha : a ∈ l)
    (hb : b ∈ l) : a = b := by
  match l with
  | [] => simp at ha
  | [c] => exact (List.mem_singleton.mp ha).trans (List.mem_singleton.mp hb).symm
  | _ :: _ :: _ =>
    simp only [List.length_cons] at h
    omega

theorem exists_ne_of_two_le {α : Type} {l : List α} (hl : l.Nodup) (h : 2 ≤ l.length) (a : α) :
    ∃ b ∈ l, b ≠ a := by
  match l with
  | [] => simp at h
  | [c] => simp at h
  | b :: c :: _ =>
    by_cases hb : b = a
    · refine ⟨c, by simp, ?_⟩
      rintro rfl
      simp [hb] at hl
    · exact ⟨b, by simp, hb⟩

theorem collide_cases (skipped : Std.TreeMap RelPath RelPath) (s : Collisions)
    (c : RelPath × List RelPath) :
    (collide skipped s c = s ∧
        (¬(c.2.length < 2 ∧ (skippedSpelling skipped c.1 c.2).isNone = true) →
          ∃ a ∈ c.1.ancestors, a ∈ s.droppedFolds)) ∨
      (¬(c.2.length < 2 ∧ (skippedSpelling skipped c.1 c.2).isNone = true) ∧
        (collide skipped s c).droppedFolds = s.droppedFolds.insert c.1 ∧
        ∃ pairs, (collide skipped s c).colliding = s.colliding ++ pairs ∧
          pairs.map (·.1) = c.2) := by
  by_cases hclash : c.2.length < 2 ∧ (skippedSpelling skipped c.1 c.2).isNone = true
  · exact .inl ⟨by rw [collide]; simp only [if_pos hclash], fun h => absurd hclash h⟩
  · by_cases habove : foldHasAncestorIn c.1 s.droppedFolds = true
    · refine .inl ⟨by rw [collide]; simp only [if_neg hclash, if_pos habove], fun _ => ?_⟩
      obtain ⟨a, ha, hmem⟩ := List.any_eq_true.mp habove
      exact ⟨a, ha, Std.TreeSet.contains_iff_mem.mp hmem⟩
    · refine .inr ⟨hclash, ?_, ?_⟩
      · rw [collide]
        simp only [if_neg hclash, if_neg habove]
      · rw [collide]
        simp only [if_neg hclash, if_neg habove]
        refine ⟨_, rfl, ?_⟩
        split
        · simp [Function.comp_def]
        · simp [Function.comp_def]

theorem get?_dropColliding (output : ScanOutput) (pair : RelPath × RelPath) (k : RelPath) :
    (dropColliding output pair).entries.get? k =
      if AtOrUnder pair.1 k then none else output.entries.get? k := by
  have hwithhold : (dropColliding output pair).entries = ((⟨"", output.entries, []⟩ :
      LocalInventory).withhold pair.1 (.localCaseCollision pair.2)).entries := by
    simp [dropColliding, LocalInventory.withhold, LocalInventory.atOrBeneath, List.foldl_append]
  rw [hwithhold, LocalInventory.get?_withhold]

theorem get?_foldl_dropColliding (pairs : List (RelPath × RelPath)) (output : ScanOutput)
    (k : RelPath) : (pairs.foldl dropColliding output).entries.get? k =
      if ∃ pair ∈ pairs, AtOrUnder pair.1 k then none else output.entries.get? k := by
  induction pairs generalizing output with
  | nil => simp
  | cons pair pairs ih =>
    rw [List.foldl_cons, ih, get?_dropColliding]
    by_cases hrest : ∃ pair ∈ pairs, AtOrUnder pair.1 k
    · obtain ⟨q, hq, hqk⟩ := hrest
      rw [if_pos ⟨q, hq, hqk⟩, if_pos ⟨q, List.mem_cons_of_mem _ hq, hqk⟩]
    · rw [if_neg hrest]
      by_cases hpair : AtOrUnder pair.1 k
      · rw [if_pos hpair, if_pos ⟨pair, List.mem_cons_self, hpair⟩]
      · rw [if_neg hpair, if_neg]
        rintro ⟨q, hq, hqk⟩
        rcases List.mem_cons.mp hq with rfl | hq
        · exact hpair hqk
        · exact hrest ⟨q, hq, hqk⟩

theorem skipped_foldl_dropColliding (pairs : List (RelPath × RelPath)) (output : ScanOutput) :
    (pairs.foldl dropColliding output).skipped =
      output.skipped ++ pairs.map fun pair => ⟨pair.1, .localCaseCollision pair.2⟩ := by
  induction pairs generalizing output with
  | nil => simp
  | cons pair pairs ih => rw [List.foldl_cons, ih]; simp [dropColliding]

section Collide

variable [Unicode]

/-! ## The spellings of a fold -/

theorem getElem?_noteFold (folds : Std.TreeMap RelPath (List RelPath)) (relative f : RelPath) :
    (noteFold folds relative)[f]? = if portableFold relative = f then
      some (folds[f]?.getD [] ++ [relative]) else folds[f]? := by
  simp only [noteFold, Std.TreeMap.getElem?_insert, compare_eq_iff_eq]
  split
  · rename_i h
    rw [h]
  · rfl

theorem getElem?_foldl_noteFold (keys : List RelPath) (folds : Std.TreeMap RelPath (List RelPath))
    (f : RelPath) : (keys.foldl noteFold folds)[f]? =
      if (keys.filter fun p => decide (portableFold p = f)) = [] then folds[f]?
      else some (folds[f]?.getD [] ++ keys.filter fun p => decide (portableFold p = f)) := by
  induction keys generalizing folds with
  | nil => simp
  | cons k keys ih =>
    rw [List.foldl_cons, ih, getElem?_noteFold]
    by_cases hk : portableFold k = f
    · rw [List.filter_cons_of_pos (by simp [hk])]
      simp only [if_pos hk, reduceCtorEq, if_false, Option.getD_some, List.append_assoc]
      split
      · rename_i hnil
        simp [hnil]
      · rfl
    · rw [List.filter_cons_of_neg (by simp [hk])]
      simp only [if_neg hk]

theorem mem_byFold {entries : LocalMap} {f : RelPath} {spellings : List RelPath} :
    (f, spellings) ∈ (byFold entries).toList ↔
      spellings = (entries.keys.filter fun p => decide (portableFold p = f)) ∧ spellings ≠ [] := by
  rw [Std.TreeMap.mem_toList_iff_getElem?_eq_some, byFold, getElem?_foldl_noteFold]
  split
  · rename_i hnil
    simp only [Std.TreeMap.getElem?_emptyc, reduceCtorEq, false_iff, not_and, not_not]
    rintro rfl
    exact hnil
  · rename_i hne
    simp only [Std.TreeMap.getElem?_emptyc, Option.getD_none, List.nil_append, Option.some.injEq]
    constructor
    · rintro rfl
      exact ⟨rfl, hne⟩
    · intro h
      exact h.1.symm

theorem mem_of_skippedByFold {skipped : List SkippedEntry} {f s : RelPath}
    (h : (skippedByFold skipped)[f]? = some s) :
    ∃ skip ∈ skipped, skip.relative = s ∧ portableFold s = f := by
  refine Loop.foldl_done (I := fun done folds =>
    ∀ f s, folds[f]? = some s → ∃ skip ∈ done, skip.relative = s ∧ portableFold s = f)
    skipped ?_ ?_ f s h
  · intro f s h
    simp at h
  · intro done skip rest folds _ ih f s h
    simp only [Std.TreeMap.getElem?_insert, compare_eq_iff_eq] at h
    split at h
    · rename_i hf
      obtain rfl := Option.some.inj h
      exact ⟨skip, by simp, rfl, hf⟩
    · obtain ⟨skip', hmem, hs⟩ := ih f s h
      exact ⟨skip', List.mem_append_left _ hmem, hs⟩

/-! ## What is dropped -/

/-- A path whose name a second spelling shares, kept or skipped. -/
def CollidesIn (output : ScanOutput) (p : RelPath) : Prop :=
  (∃ q ∈ output.entries.keys, q ≠ p ∧ portableFold q = portableFold p) ∨
    ∃ skip ∈ output.skipped, skip.relative ≠ p ∧ portableFold skip.relative = portableFold p

/-- The fold has two spellings, or a skipped one beside its own. -/
def Clashes (output : ScanOutput) (f : RelPath) (spellings : List RelPath) : Prop :=
  ¬(spellings.length < 2 ∧
    (skippedSpelling (skippedByFold output.skipped) f spellings).isNone = true)

theorem clashes_of_two {output : ScanOutput} {p q : RelPath} (hp : p ∈ output.entries.keys)
    (hq : q ∈ output.entries.keys) (hne : p ≠ q) (hfold : portableFold q = portableFold p) :
    Clashes output (portableFold p)
      (output.entries.keys.filter fun k => decide (portableFold k = portableFold p)) := by
  rintro ⟨hlen, _⟩
  have hmem : ∀ k ∈ output.entries.keys, portableFold k = portableFold p →
      k ∈ output.entries.keys.filter fun k => decide (portableFold k = portableFold p) :=
    fun k hk h => List.mem_filter.mpr ⟨hk, by simpa using h⟩
  exact hne (eq_of_length_lt_two hlen (hmem p hp rfl) (hmem q hq hfold))

theorem collidesIn_of_clashes {output : ScanOutput} {p : RelPath} (hp : p ∈ output.entries.keys)
    (h : Clashes output (portableFold p)
      (output.entries.keys.filter fun k => decide (portableFold k = portableFold p))) :
    CollidesIn output p := by
  have hnodup : (output.entries.keys.filter fun k =>
      decide (portableFold k = portableFold p)).Nodup := output.entries.nodup_keys.filter _
  rw [Clashes, not_and_or, not_lt] at h
  rcases h with hlen | hskip
  · left
    obtain ⟨q, hq, hne⟩ := exists_ne_of_two_le hnodup hlen p
    obtain ⟨hq, hfold⟩ := List.mem_filter.mp hq
    exact ⟨q, hq, hne, by simpa using hfold⟩
  · right
    obtain ⟨s, hs⟩ := Option.ne_none_iff_exists'.mp (by simpa using hskip)
    obtain ⟨hs, hnot⟩ := Option.filter_eq_some_iff.mp hs
    obtain ⟨skip, hmem, rfl, hfold⟩ := mem_of_skippedByFold hs
    refine ⟨skip, hmem, ?_, hfold⟩
    rintro heq
    rw [heq] at hnot
    simp [hp] at hnot

/-- After some folds have been read: every one that clashes lies at or beneath a dropped fold; a
dropped fold is one that clashes, and the pairs are those of the spellings of the dropped folds. -/
structure Collided (output : ScanOutput) (done : List (RelPath × List RelPath)) (s : Collisions) :
    Prop where
  covered : ∀ c ∈ done, Clashes output c.1 c.2 → ∃ g ∈ s.droppedFolds, AtOrUnder g c.1
  dropped : ∀ p other, (p, other) ∈ s.colliding →
    ∃ c ∈ done, c.1 ∈ s.droppedFolds ∧ p ∈ c.2 ∧ Clashes output c.1 c.2
  complete : ∀ f ∈ s.droppedFolds, ∃ c ∈ done, c.1 = f ∧
    ∀ p ∈ c.2, ∃ other, (p, other) ∈ s.colliding

theorem Collided.collide {output : ScanOutput} {done : List (RelPath × List RelPath)}
    {s : Collisions} (h : Collided output done s) (c : RelPath × List RelPath) :
    Collided output (done ++ [c]) (collide (skippedByFold output.skipped) s c) := by
  rcases collide_cases (skippedByFold output.skipped) s c with
    ⟨heq, hpassed⟩ | ⟨hclash, hfolds, pairs, hpairs, hmap⟩
  · rw [heq]
    refine ⟨fun d hd hclash => ?_, fun p other hp => ?_, fun f hf => ?_⟩
    · rcases List.mem_append.mp hd with hd | hd
      · exact h.covered d hd hclash
      · obtain rfl := List.mem_singleton.mp hd
        obtain ⟨a, ha, hmem⟩ := hpassed hclash
        exact ⟨a, hmem, .inr ha⟩
    · obtain ⟨d, hd, hrest⟩ := h.dropped p other hp
      exact ⟨d, List.mem_append_left _ hd, hrest⟩
    · obtain ⟨d, hd, hrest⟩ := h.complete f hf
      exact ⟨d, List.mem_append_left _ hd, hrest⟩
  · have hmemfold : ∀ f, f ∈ (DriveSync.collide (skippedByFold output.skipped) s c).droppedFolds ↔
        c.1 = f ∨ f ∈ s.droppedFolds := by
      intro f
      rw [hfolds, Std.TreeSet.mem_insert, compare_eq_iff_eq]
    have hmempair : ∀ p other, (p, other) ∈
        (DriveSync.collide (skippedByFold output.skipped) s c).colliding ↔
          (p, other) ∈ s.colliding ∨ (p, other) ∈ pairs := by
      intro p other
      rw [hpairs, List.mem_append]
    refine ⟨fun d hd hd' => ?_, fun p other hp => ?_, fun f hf => ?_⟩
    · rcases List.mem_append.mp hd with hd | hd
      · obtain ⟨g, hg, hgd⟩ := h.covered d hd hd'
        exact ⟨g, (hmemfold g).mpr (.inr hg), hgd⟩
      · obtain rfl := List.mem_singleton.mp hd
        exact ⟨d.1, (hmemfold d.1).mpr (.inl rfl), atOrUnder_refl _⟩
    · rcases (hmempair p other).mp hp with hp | hp
      · obtain ⟨d, hd, hfold, hrest⟩ := h.dropped p other hp
        exact ⟨d, List.mem_append_left _ hd, (hmemfold d.1).mpr (.inr hfold), hrest⟩
      · refine ⟨c, by simp, (hmemfold c.1).mpr (.inl rfl), ?_, hclash⟩
        rw [← hmap]
        exact List.mem_map.mpr ⟨(p, other), hp, rfl⟩
    · rcases (hmemfold f).mp hf with rfl | hf
      · refine ⟨c, by simp, rfl, fun p hp => ?_⟩
        rw [← hmap] at hp
        obtain ⟨⟨_, other⟩, hpair, rfl⟩ := List.mem_map.mp hp
        exact ⟨other, (hmempair _ _).mpr (.inr hpair)⟩
      · obtain ⟨d, hd, rfl, hall⟩ := h.complete f hf
        refine ⟨d, List.mem_append_left _ hd, rfl, fun p hp => ?_⟩
        obtain ⟨other, hpair⟩ := hall p hp
        exact ⟨other, (hmempair p other).mpr (.inl hpair)⟩

theorem collisions_collided (output : ScanOutput) :
    Collided output (byFold output.entries).toList (collisions output) := by
  refine Loop.foldl_done (I := fun done s => Collided output done s) _ ?_ ?_
  · exact ⟨by simp, by simp, by simp⟩
  · intro done c rest s _ h
    exact h.collide c

/-! ## The scan's own guarantee -/

/-- What a resolution of the collisions leaves, with the report it adds. -/
structure Resolves (output result : ScanOutput) (report : List SkippedEntry) : Prop where
  reported : result.skipped = output.skipped ++ report
  distinct : result.entries.DistinctFolds
  clear : ∀ skip ∈ report, ∀ k ∈ result.entries.keys,
    ¬AtOrUnder (portableFold skip.relative) (portableFold k)
  closed : result.entries.ParentClosed LocalEntry.kind
  unchanged : ∀ k e, result.entries.get? k = some e → output.entries.get? k = some e
  accounted : ∀ k ∈ output.entries.keys, k ∉ result.entries.keys →
    ∃ skip ∈ report, AtOrUnder (portableFold skip.relative) (portableFold k)
  kept : ∀ k ∈ output.entries.keys, (∀ a, AtOrUnder a k → ¬CollidesIn output a) →
    k ∈ result.entries.keys

def collisionReport (output : ScanOutput) : List SkippedEntry :=
  (collisions output).colliding.map fun pair => ⟨pair.1, .localCaseCollision pair.2⟩

/-- A path lies at or beneath a spelling that is dropped. -/
def Dropped (output : ScanOutput) (k : RelPath) : Prop :=
  ∃ pair ∈ (collisions output).colliding, AtOrUnder pair.1 k

instance (output : ScanOutput) (k : RelPath) : Decidable (Dropped output k) :=
  inferInstanceAs (Decidable (∃ pair ∈ (collisions output).colliding, AtOrUnder pair.1 k))

theorem get?_skipPortableCaseCollisions (output : ScanOutput) (k : RelPath) :
    (skipPortableCaseCollisions output).entries.get? k =
      if Dropped output k then none else output.entries.get? k :=
  get?_foldl_dropColliding _ _ _

theorem mem_keys_skipPortableCaseCollisions {output : ScanOutput} {k : RelPath} :
    k ∈ (skipPortableCaseCollisions output).entries.keys ↔
      k ∈ output.entries.keys ∧ ¬Dropped output k := by
  simp only [EntryMap.mem_keys, get?_skipPortableCaseCollisions]
  split
  · rename_i h
    simp [h]
  · rename_i h
    simp [h]

/-- The spellings of a fold that clashes, as the report pairs them. -/
theorem mem_colliding {output : ScanOutput} {p other : RelPath}
    (h : (p, other) ∈ (collisions output).colliding) :
    p ∈ output.entries.keys ∧ portableFold p ∈ (collisions output).droppedFolds ∧
      CollidesIn output p := by
  obtain ⟨⟨f, spellings⟩, hc, hdropped, hp, hclash⟩ := (collisions_collided output).dropped p other h
  obtain ⟨rfl, _⟩ := mem_byFold.mp hc
  obtain ⟨hkey, hfold⟩ := List.mem_filter.mp hp
  obtain rfl : portableFold p = f := by simpa using hfold
  exact ⟨hkey, hdropped, collidesIn_of_clashes hkey hclash⟩

/-- An entry at or beneath a dropped fold goes: the folder on the way to it that has the fold is an
entry too, and all of them are dropped. -/
theorem dropped_of_fold {output : ScanOutput} (hclosed : output.entries.ParentClosed LocalEntry.kind)
    {k f : RelPath} (hk : k ∈ output.entries.keys) (hf : f ∈ (collisions output).droppedFolds)
    (hat : AtOrUnder f (portableFold k)) : Dropped output k := by
  obtain ⟨a, ha, rfl⟩ := exists_of_atOrUnder_map hat
  have hkey : a ∈ output.entries.keys := by
    rcases ha with rfl | ha
    · exact hk
    · obtain ⟨e, he⟩ := EntryMap.mem_keys.mp hk
      obtain ⟨d, hd, _⟩ := hclosed e (EntryMap.mem_values_of_get? he) a
        (EntryMap.relative_of_get? he ▸ ha)
      exact EntryMap.mem_keys.mpr ⟨d, hd⟩
  obtain ⟨⟨f, spellings⟩, hc, heq, hall⟩ := (collisions_collided output).complete _ hf
  obtain ⟨rfl, _⟩ := mem_byFold.mp hc
  obtain ⟨other, hpair⟩ := hall a (List.mem_filter.mpr ⟨hkey, decide_eq_true heq.symm⟩)
  exact ⟨(a, other), hpair, ha⟩

/-- Two entries of one fold go, whatever the fold lies beneath. -/
theorem dropped_of_same_fold {output : ScanOutput}
    (hclosed : output.entries.ParentClosed LocalEntry.kind) {p q : RelPath}
    (hp : p ∈ output.entries.keys) (hq : q ∈ output.entries.keys) (hne : p ≠ q)
    (hfold : portableFold q = portableFold p) : Dropped output p := by
  have hmem : p ∈ output.entries.keys.filter fun k => decide (portableFold k = portableFold p) :=
    List.mem_filter.mpr ⟨hp, by simp⟩
  obtain ⟨g, hg, hat⟩ := (collisions_collided output).covered (portableFold p, _)
    (mem_byFold.mpr ⟨rfl, List.ne_nil_of_mem hmem⟩) (clashes_of_two hp hq hne hfold)
  exact dropped_of_fold hclosed hp hg hat

/-- The scan leaves no two entries of one fold, and nothing at or beneath what it reports; what it
takes out it reports, and it takes out nothing else. -/
theorem skipPortableCaseCollisions_resolves (output : ScanOutput)
    (hclosed : output.entries.ParentClosed LocalEntry.kind) :
    Resolves output (skipPortableCaseCollisions output) (collisionReport output) where
  reported := skipped_foldl_dropColliding _ _
  distinct := by
    intro x hx y hy hfold
    have hkey : ∀ e ∈ (skipPortableCaseCollisions output).entries.values,
        e.relative ∈ output.entries.keys ∧ ¬Dropped output e.relative := fun e he =>
      mem_keys_skipPortableCaseCollisions.mp (EntryMap.mem_keys.mpr ⟨e, EntryMap.mem_values.mp he⟩)
    refine EntryMap.eq_of_relative_eq hx hy ?_
    by_contra hne
    exact (hkey x hx).2
      (dropped_of_same_fold hclosed (hkey x hx).1 (hkey y hy).1 hne hfold.symm)
  clear := by
    intro skip hskip k hk hat
    obtain ⟨pair, hpair, rfl⟩ := List.mem_map.mp hskip
    obtain ⟨hkey, hnot⟩ := mem_keys_skipPortableCaseCollisions.mp hk
    exact hnot (dropped_of_fold hclosed hkey (mem_colliding hpair).2.1 hat)
  closed := by
    intro e he a ha
    have hget := EntryMap.mem_values.mp he
    obtain ⟨_, hnot⟩ :=
      mem_keys_skipPortableCaseCollisions.mp (EntryMap.mem_keys.mpr ⟨e, hget⟩)
    have hnota : ¬Dropped output a := by
      rintro ⟨pair, hpair, hat⟩
      exact hnot ⟨pair, hpair, .inr (mem_ancestors_of_atOrUnder hat ha)⟩
    rw [get?_skipPortableCaseCollisions, if_neg hnot] at hget
    obtain ⟨d, hd, hkind⟩ := hclosed e (EntryMap.mem_values_of_get? hget) a ha
    refine ⟨d, ?_, hkind⟩
    rw [get?_skipPortableCaseCollisions, if_neg hnota]
    exact hd
  unchanged := by
    intro k e h
    rw [get?_skipPortableCaseCollisions] at h
    split at h
    · cases h
    · exact h
  accounted := by
    intro k hk hgone
    obtain ⟨pair, hpair, hat⟩ : Dropped output k := by
      by_contra hnot
      exact hgone (mem_keys_skipPortableCaseCollisions.mpr ⟨hk, hnot⟩)
    exact ⟨_, List.mem_map.mpr ⟨pair, hpair, rfl⟩, hat.map⟩
  kept := by
    intro k hk hclear
    refine mem_keys_skipPortableCaseCollisions.mpr ⟨hk, ?_⟩
    rintro ⟨⟨p, other⟩, hpair, hat⟩
    exact hclear p hat (mem_colliding hpair).2.2

end Collide

/-- A scan that found `a`, `A`, `A/x` and `b`, and skipped `B`. -/
theorem skipPortableCaseCollisions_resolves_small :
    let output : ScanOutput := ⟨.ofList [Small.localFile (Small.path [Small.name 'a']) 1,
        Small.localFolder (Small.path [Small.name 'A']),
        Small.localFile (Small.path [Small.name 'A', Small.name 'x']) 1,
        Small.localFile (Small.path [Small.name 'b']) 1],
      [⟨Small.path [Small.name 'B'], .linkOrReparsePoint⟩]⟩
    letI := charwise
    output.entries.ParentClosed LocalEntry.kind ∧
      Resolves output (skipPortableCaseCollisions output) (collisionReport output) := by
  let _ := charwise
  exact ⟨by decide +kernel, skipPortableCaseCollisions_resolves _ (by decide +kernel)⟩

end DriveSync
