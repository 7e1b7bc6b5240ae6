import DriveSync.Sync.Errors

/-!
# DriveSync.Sync.Breaker

What fails a run when DSM's refusals of single paths are really one refusal of the share. Each
planned write settles once, as accepted, refused, or excluded; an exclusion takes it out of what the
run considered, and one class of refusals behind more than half of that trips the breaker.

* `RefusalBreaker.after`: a breaker after some settlements, and what it counts then (`after_counts`).
* `Trips.settle`: what trips stays tripped, as long as no more writes settle than were pending.
* `Trips.unique`: at most one class trips.
* `tripped_perm`: the order of the settlements does not change which.
-/

namespace DriveSync

/-- How one planned write settled. -/
inductive Settlement where
  | excluded
  | accepted
  | refused (refusal : Refusal) (relative : RelPath)
deriving DecidableEq, Repr

/-- The refusals of one class. -/
structure RefusalTally where
  refused : Nat
  sample : List RelPath
  codes : Std.TreeMap String Nat

def refusalSample : Nat := 10

namespace RefusalTally

def empty : RefusalTally := ⟨0, [], ∅⟩

def add (tally : RefusalTally) (code : String) (relative : RelPath) : RefusalTally :=
  ⟨tally.refused + 1,
    if tally.sample.length < refusalSample then tally.sample ++ [relative] else tally.sample,
    tally.codes.insert code (tally.codes.getD code 0 + 1)⟩

end RefusalTally

/-- A class with no entry in the map of the source is one with the empty tally. -/
structure RefusalBreaker where
  pending : Nat
  adjudicated : Nat
  inSync : Nat
  byClass : RefusalClass → RefusalTally

namespace RefusalBreaker

def new (pending inSync : Nat) : RefusalBreaker := ⟨pending, 0, inSync, fun _ => .empty⟩

/-- A planned write is no longer pending. -/
def settleOne (breaker : RefusalBreaker) : RefusalBreaker :=
  { breaker with pending := breaker.pending - 1 }

def settle (breaker : RefusalBreaker) : Settlement → RefusalBreaker
  | .excluded => breaker.settleOne
  | .accepted => { breaker.settleOne with adjudicated := breaker.adjudicated + 1 }
  | .refused (cls, code) relative =>
    { breaker.settleOne with
      adjudicated := breaker.adjudicated + 1
      byClass := fun c =>
        if c = cls then (breaker.byClass c).add code relative else breaker.byClass c }

def considered (breaker : RefusalBreaker) : Nat :=
  breaker.adjudicated + breaker.pending + breaker.inSync

/-- At least three refusals of one class, and more than half of what the run considered. -/
def Trips (breaker : RefusalBreaker) (cls : RefusalClass) : Prop :=
  3 ≤ (breaker.byClass cls).refused ∧ breaker.considered < (breaker.byClass cls).refused * 2

instance (breaker : RefusalBreaker) (cls : RefusalClass) : Decidable (breaker.Trips cls) :=
  inferInstanceAs (Decidable (_ ∧ _))

/-- The class that trips, if one does. -/
def tripped (breaker : RefusalBreaker) : Option RefusalClass :=
  RefusalClass.all.find? fun cls => decide (breaker.Trips cls)

/-- The failure of the run, if a class trips. -/
def check (breaker : RefusalBreaker) : Option ExecError :=
  breaker.tripped.map fun cls =>
    let tally := breaker.byClass cls
    .remoteRefusalsShareWide cls tally.refused breaker.considered breaker.inSync breaker.pending
      tally.codes.toList tally.sample (tally.refused - tally.sample.length)

def after (breaker : RefusalBreaker) (settlements : List Settlement) : RefusalBreaker :=
  settlements.foldl settle breaker

end RefusalBreaker

/-- How a write settles that DSM answered with a failure: a failure that is no refusal of the path
is that path's own problem. -/
def Settlement.ofRefusal (refusal : Option Refusal) (relative : RelPath) : Settlement :=
  match refusal with
  | some refusal => .refused refusal relative
  | none => .excluded

namespace RefusalBreaker

/-! ## What a breaker counts -/

/-- Whether a settlement is a refusal of a class. -/
def refuses (cls : RefusalClass) : Settlement → Bool
  | .refused (c, _) _ => decide (c = cls)
  | _ => false

def isExcluded : Settlement → Bool
  | .excluded => true
  | _ => false

variable {breaker : RefusalBreaker} {cls : RefusalClass} {s : Settlement}
  {settlements : List Settlement}

theorem settle_pending : (breaker.settle s).pending = breaker.pending - 1 := by
  rcases s with _ | _ | ⟨⟨_, _⟩, _⟩ <;> rfl

theorem settle_inSync : (breaker.settle s).inSync = breaker.inSync := by
  rcases s with _ | _ | ⟨⟨_, _⟩, _⟩ <;> rfl

theorem settle_refused : ((breaker.settle s).byClass cls).refused =
    (breaker.byClass cls).refused + (if refuses cls s then 1 else 0) := by
  rcases s with _ | _ | ⟨⟨c, code⟩, relative⟩
  · rfl
  · rfl
  · simp only [settle, refuses, decide_eq_true_eq, eq_comm (a := c)]
    split <;> simp [RefusalTally.add]

theorem settle_adjudicated : (breaker.settle s).adjudicated =
    breaker.adjudicated + (if isExcluded s then 0 else 1) := by
  rcases s with _ | _ | ⟨⟨_, _⟩, _⟩ <;> rfl

theorem after_append {settlements' : List Settlement} :
    breaker.after (settlements ++ settlements') = (breaker.after settlements).after settlements' :=
  List.foldl_append

/-- What a breaker has counted after some settlements, none of them more than were pending. -/
theorem after_counts (h : settlements.length ≤ breaker.pending) :
    (breaker.after settlements).pending = breaker.pending - settlements.length ∧
      (breaker.after settlements).inSync = breaker.inSync ∧
      (breaker.after settlements).adjudicated + settlements.countP isExcluded =
        breaker.adjudicated + settlements.length ∧
      ∀ cls, ((breaker.after settlements).byClass cls).refused =
        (breaker.byClass cls).refused + settlements.countP (refuses cls) := by
  induction settlements generalizing breaker with
  | nil => simp [after]
  | cons s rest ih =>
    simp only [List.length_cons] at h
    have hrest : rest.length ≤ (breaker.settle s).pending := by rw [settle_pending]; omega
    obtain ⟨hp, hi, ha, hr⟩ := ih hrest
    have hafter : breaker.after (s :: rest) = (breaker.settle s).after rest := rfl
    rw [hafter]
    refine ⟨?_, ?_, ?_, fun cls => ?_⟩
    · rw [hp, settle_pending, List.length_cons]; omega
    · rw [hi, settle_inSync]
    · rw [List.countP_cons, List.length_cons]
      rw [settle_adjudicated] at ha
      by_cases hs : isExcluded s = true
      · rw [if_pos hs] at ha ⊢; omega
      · rw [if_neg hs] at ha ⊢; omega
    · rw [hr, settle_refused, List.countP_cons]
      omega

/-- An exclusion takes a write out of what the run considered, and nothing else does. -/
theorem after_considered (h : settlements.length ≤ breaker.pending) :
    (breaker.after settlements).considered + settlements.countP isExcluded =
      breaker.considered := by
  obtain ⟨hp, hi, ha, _⟩ := after_counts h
  unfold considered
  omega

/-! ## The verdict -/

/-- What trips stays tripped: what the run considered only shrinks, a class's refusals only grow. -/
theorem Trips.settle (h : breaker.Trips cls) (hp : 0 < breaker.pending) :
    (breaker.settle s).Trips cls := by
  have hone : ([s] : List Settlement).length ≤ breaker.pending := hp
  have hconsidered : (breaker.settle s).considered + [s].countP isExcluded = breaker.considered :=
    after_considered hone
  have hrefused : ((breaker.settle s).byClass cls).refused =
      (breaker.byClass cls).refused + (if refuses cls s then 1 else 0) := settle_refused
  unfold Trips at h ⊢
  omega

theorem Trips.after (h : breaker.Trips cls) (hp : settlements.length ≤ breaker.pending) :
    (breaker.after settlements).Trips cls := by
  induction settlements generalizing breaker with
  | nil => exact h
  | cons s rest ih =>
    simp only [List.length_cons] at hp
    exact ih (h.settle (by omega)) (by rw [settle_pending]; omega)

/-- Refusals of two classes are adjudicated apart. -/
def Sound (breaker : RefusalBreaker) : Prop :=
  ∀ c d, c ≠ d →
    (breaker.byClass c).refused + (breaker.byClass d).refused ≤ breaker.adjudicated

theorem sound_new (pending inSync : Nat) : (new pending inSync).Sound := by
  intro c d _
  exact Nat.le_refl 0

theorem Sound.settle (h : breaker.Sound) : (breaker.settle s).Sound := by
  intro c d hne
  have := h c d hne
  rw [settle_refused, settle_refused, settle_adjudicated]
  rcases s with _ | _ | ⟨⟨e, code⟩, relative⟩
  · simpa [refuses, isExcluded] using this
  · simp [refuses, isExcluded]; omega
  · simp only [refuses, isExcluded, decide_eq_true_eq]
    by_cases hc : e = c
    · have hd : e ≠ d := fun hd => hne (hc.symm.trans hd)
      simp [hc, hne]; omega
    · by_cases hd : e = d
      · simp [hd, hne.symm]; omega
      · simp [hc, hd]; omega

theorem Sound.after (h : breaker.Sound) : (breaker.after settlements).Sound := by
  induction settlements generalizing breaker with
  | nil => exact h
  | cons s rest ih => exact ih h.settle

/-- At most one class trips. -/
theorem Trips.unique {c d : RefusalClass} (hs : breaker.Sound) (hc : breaker.Trips c)
    (hd : breaker.Trips d) : c = d := by
  by_contra hne
  have := hs c d hne
  unfold Trips considered at hc hd
  omega

theorem tripped_eq_some (hs : breaker.Sound) : breaker.tripped = some cls ↔ breaker.Trips cls := by
  constructor
  · intro h
    simpa using List.find?_some h
  · intro h
    have hmem : cls ∈ RefusalClass.all := by cases cls <;> decide
    have hfound : breaker.tripped.isSome = true :=
      List.find?_isSome.mpr ⟨cls, hmem, decide_eq_true h⟩
    obtain ⟨c, hc⟩ := Option.isSome_iff_exists.mp hfound
    have hct : breaker.Trips c := by simpa using List.find?_some hc
    rw [hc, hct.unique hs h]

/-- The order of the settlements does not change which class trips. -/
theorem tripped_perm {settlements' : List Settlement} (hs : breaker.Sound)
    (hp : settlements.length ≤ breaker.pending) (hperm : settlements.Perm settlements') :
    (breaker.after settlements).tripped = (breaker.after settlements').tripped := by
  have hp' : settlements'.length ≤ breaker.pending := hperm.length_eq ▸ hp
  have hconsidered : (breaker.after settlements).considered =
      (breaker.after settlements').considered := by
    have h := after_considered hp
    have h' := after_considered hp'
    rw [hperm.countP_eq] at h
    omega
  have htrips : ∀ cls, (breaker.after settlements).Trips cls ↔
      (breaker.after settlements').Trips cls := by
    intro cls
    unfold Trips
    rw [hconsidered, (after_counts hp).2.2.2, (after_counts hp').2.2.2, hperm.countP_eq]
  refine Option.ext fun cls => ?_
  rw [tripped_eq_some hs.after, tripped_eq_some hs.after, htrips]

theorem tripped_new {pending inSync : Nat} : (new pending inSync).tripped = none := by
  refine List.find?_eq_none.mpr fun cls _ htrips => ?_
  have hthree := (of_decide_eq_true htrips).1
  simp [new, RefusalTally.empty] at hthree

end RefusalBreaker
end DriveSync
