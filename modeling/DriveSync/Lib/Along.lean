import Mathlib.Tactic.Common

/-!
# DriveSync.Lib.Along

Runs of operations, given one after the other, on a state each may change. `Along` says a property
of every state the run comes to, `EachStep` a condition of every operation on the state it meets.
Where, on states that keep an invariant, an operation keeps the property exactly if the condition
holds of it, the property holds along a run exactly if each of its steps meets the condition.
-/

namespace DriveSync

variable {σ ι : Type} (step : ι → σ → σ → Prop)

/-- Every state the run comes to, the first included. -/
def Along (P : σ → Prop) : List ι → σ → Prop
  | [], s => P s
  | op :: ops, s => P s ∧ ∀ s', step op s s' → Along P ops s'

/-- Every operation of the run that is carried out, on the state it meets. -/
def EachStep (C : ι → σ → Prop) : List ι → σ → Prop
  | [], _ => True
  | op :: ops, s => ∀ s', step op s s' → C op s ∧ EachStep C ops s'

variable {step} {I P : σ → Prop} {C : ι → σ → Prop}

theorem Along.head {ops : List ι} {s : σ} (h : Along step P ops s) : P s := by
  cases ops with
  | nil => exact h
  | cons op ops => exact h.1

/-- The rule of runs: an invariant, and the condition under which a step keeps the property. -/
theorem along_iff (invariant : ∀ op s s', step op s s' → I s → P s → I s')
    (keeps : ∀ op s s', step op s s' → I s → P s → (P s' ↔ C op s)) {ops : List ι} {s : σ}
    (hI : I s) (hP : P s) : Along step P ops s ↔ EachStep step C ops s := by
  induction ops generalizing s with
  | nil => simp [Along, EachStep, hP]
  | cons op ops ih =>
    simp only [Along, EachStep, hP, true_and]
    refine forall_congr' fun s' => imp_congr_right fun hstep => ?_
    have hI' := invariant op s s' hstep hI hP
    have hkeeps := keeps op s s' hstep hI hP
    constructor
    · intro h
      exact ⟨hkeeps.mp h.head, (ih hI' h.head).mp h⟩
    · rintro ⟨hC, h⟩
      exact (ih hI' (hkeeps.mpr hC)).mpr h

/-- What a condition on each step gives of each step, on states that keep an invariant. -/
theorem eachStep_of {D : ι → σ → Prop} (invariant : ∀ op s s', step op s s' → I s → C op s → I s')
    (gives : ∀ op s, I s → C op s → D op s) {ops : List ι} {s : σ} (hI : I s)
    (h : EachStep step C ops s) : EachStep step D ops s := by
  induction ops generalizing s with
  | nil => exact trivial
  | cons op ops ih =>
    intro s' hstep
    obtain ⟨hC, hrest⟩ := h s' hstep
    exact ⟨gives op s hI hC, ih (invariant op s s' hstep hI hC) hrest⟩

end DriveSync
