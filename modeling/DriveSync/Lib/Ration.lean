import DriveSync.Lib.Loop

/-!
# DriveSync.Lib.Ration

A run over a list that goes on only while its state says so, and what a ration does to it: every
item may take some of it, and the first item that finds nothing left stops the run.

* `run`: the run, with `run_append` and an invariant rule (`run_inv`).
* `Rationed`: a step that is the free one until the ration is spent.
* `Rationed.run_eq`: where the free run takes no more than the ration, the rationed one is the same.
* `Rationed.run_stops`: where it takes more, the rationed one has taken exactly the ration when it
  stops, and did what the free run does first.
* `Rationed.run_ok`: wherever it ends, it did what the free run does, as far as the ration goes.
-/

namespace DriveSync
namespace Ration

variable {α σ ε : Type}

def run (step : σ → α → Except ε σ) (going : σ → Bool) : List α → σ → Except ε σ
  | [], s => .ok s
  | a :: l, s =>
    match step s a with
    | .error e => .error e
    | .ok s' => if going s' then run step going l s' else .ok s'

variable {step free : σ → α → Except ε σ} {going : σ → Bool}

@[simp] theorem run_nil (s : σ) : run step going [] s = .ok s := rfl

theorem run_cons_of_error {a : α} {l : List α} {s : σ} {e : ε} (h : step s a = .error e) :
    run step going (a :: l) s = .error e := by
  simp [run, h]

theorem run_cons_of_going {a : α} {l : List α} {s s' : σ} (h : step s a = .ok s')
    (hgo : going s' = true) : run step going (a :: l) s = run step going l s' := by
  simp [run, h, hgo]

theorem run_cons_of_stopped {a : α} {l : List α} {s s' : σ} (h : step s a = .ok s')
    (hstop : going s' = false) : run step going (a :: l) s = .ok s' := by
  simp [run, h, hstop]

/-- The second half of a list is gone over only if the first half did not stop the run. -/
theorem run_append (l l' : List α) (s : σ) (hs : going s = true) :
    run step going (l ++ l') s =
      match run step going l s with
      | .error e => .error e
      | .ok s' => if going s' then run step going l' s' else .ok s' := by
  induction l generalizing s with
  | nil => simp [hs]
  | cons a l ih =>
    cases hstep : step s a with
    | error e => rw [List.cons_append, run_cons_of_error hstep, run_cons_of_error hstep]
    | ok s' =>
      cases hgo : going s' with
      | true =>
        rw [List.cons_append, run_cons_of_going hstep hgo, run_cons_of_going hstep hgo]
        exact ih s' hgo
      | false =>
        rw [List.cons_append, run_cons_of_stopped hstep hgo, run_cons_of_stopped hstep hgo]
        simp [hgo]

/-- What holds at the start and is kept by each step holds wherever the run ends. -/
theorem run_inv {I : σ → Prop} {l : List α} {s t : σ} (start : I s)
    (keep : ∀ s s', ∀ a ∈ l, I s → step s a = .ok s' → I s')
    (h : run step going l s = .ok t) : I t := by
  induction l generalizing s with
  | nil =>
    cases h
    exact start
  | cons a l ih =>
    cases hstep : step s a with
    | error e =>
      rw [run_cons_of_error hstep] at h
      cases h
    | ok s' =>
      have hI : I s' := keep s s' a (.head _) start hstep
      cases hgo : going s' with
      | true =>
        rw [run_cons_of_going hstep hgo] at h
        exact ih hI (fun s s' b hb => keep s s' b (.tail _ hb)) h
      | false =>
        rw [run_cons_of_stopped hstep hgo] at h
        cases h
        exact hI

/-! ## Rations -/

section Rationed

variable {spent : σ → Nat} {cost : α → Nat} {I : σ → List α → Prop} {stop : σ → σ} {ration : Nat}

/-- A step under a ration: the free step while the ration lasts, and the end of the run where an
item that takes something finds it spent. The free step takes what an item costs, at most one, in
the states met before the items still to come. -/
structure Rationed (step free : σ → α → Except ε σ) (going : σ → Bool) (spent : σ → Nat)
    (cost : α → Nat) (I : σ → List α → Prop) (stop : σ → σ) (ration : Nat) : Prop where
  within : ∀ s a, cost a = 0 ∨ spent s < ration → step s a = free s a
  beyond : ∀ s a, cost a ≠ 0 → ration ≤ spent s → step s a = .ok (stop s)
  stopped : ∀ s, going (stop s) = false
  unit : ∀ a, cost a ≤ 1
  keeps : ∀ s s' a l, I s (a :: l) → free s a = .ok s' →
    I s' l ∧ spent s' = spent s + cost a ∧ (going s = true → going s' = true)

/-- The free run only ever takes more. -/
theorem Rationed.spent_le (h : Rationed step free going spent cost I stop ration) {l : List α}
    {s t : σ} (hI : I s l) (hrun : l.foldlM free s = .ok t) : spent s ≤ spent t := by
  induction l generalizing s with
  | nil =>
    cases hrun
    exact Nat.le_refl _
  | cons a l ih =>
    rw [List.foldlM_cons] at hrun
    obtain ⟨s', hstep, hrun⟩ := Loop.bind_eq_ok.mp hrun
    obtain ⟨hI', hspent, _⟩ := h.keeps s s' a l hI hstep
    have := ih hI' hrun
    omega

/-- Within the ration the two runs are the same. -/
theorem Rationed.run_eq (h : Rationed step free going spent cost I stop ration) {l : List α}
    {s t : σ} (hI : I s l) (hs : going s = true) (hrun : l.foldlM free s = .ok t)
    (hle : spent t ≤ ration) : run step going l s = .ok t ∧ going t = true := by
  induction l generalizing s with
  | nil =>
    cases hrun
    exact ⟨rfl, hs⟩
  | cons a l ih =>
    rw [List.foldlM_cons] at hrun
    obtain ⟨s', hstep, hrun⟩ := Loop.bind_eq_ok.mp hrun
    obtain ⟨hI', hspent, hgo⟩ := h.keeps s s' a l hI hstep
    have hrest := h.spent_le hI' hrun
    have hsame : step s a = .ok s' := by
      rw [h.within s a (by omega)]
      exact hstep
    rw [run_cons_of_going hsame (hgo hs)]
    exact ih hI' (hgo hs) hrun

/-- Past the ration, the rationed run stops where the ration is spent. -/
theorem Rationed.run_stops (h : Rationed step free going spent cost I stop ration) {l : List α}
    {s t : σ} (hI : I s l) (hs : going s = true) (hrun : l.foldlM free s = .ok t)
    (hstart : spent s ≤ ration) (hgt : ration < spent t) :
    ∃ before rest u, l = before ++ rest ∧ before.foldlM free s = .ok u ∧ spent u = ration ∧
      run step going l s = .ok (stop u) := by
  induction l generalizing s with
  | nil =>
    cases hrun
    omega
  | cons a l ih =>
    rw [List.foldlM_cons] at hrun
    obtain ⟨s', hstep, hrun⟩ := Loop.bind_eq_ok.mp hrun
    obtain ⟨hI', hspent, hgo⟩ := h.keeps s s' a l hI hstep
    have hunit := h.unit a
    by_cases hfits : cost a = 0 ∨ spent s < ration
    · have hsame : step s a = .ok s' := by
        rw [h.within s a hfits]
        exact hstep
      obtain ⟨before, rest, u, hl, hbefore, hu, hstop⟩ := ih hI' (hgo hs) hrun (by omega)
      refine ⟨a :: before, rest, u, by rw [hl, List.cons_append], ?_, hu, ?_⟩
      · rw [List.foldlM_cons, hstep]
        exact hbefore
      · rw [run_cons_of_going hsame (hgo hs)]
        exact hstop
    · rw [not_or, Nat.not_lt] at hfits
      obtain ⟨hcost, hle⟩ := hfits
      refine ⟨[], a :: l, s, rfl, rfl, by omega, ?_⟩
      exact run_cons_of_stopped (h.beyond s a hcost hle) (h.stopped s)

/-- Wherever a rationed run ends, the free run did the same to all of the list, or to as much of it
as the ration was enough for. -/
theorem Rationed.run_ok (h : Rationed step free going spent cost I stop ration) {l : List α}
    {s t : σ} (hI : I s l) (hs : going s = true) (hstart : spent s ≤ ration)
    (hrun : run step going l s = .ok t) :
    ∃ before rest u, l = before ++ rest ∧ before.foldlM free s = .ok u ∧ I u rest ∧
      spent u ≤ ration ∧ (rest = [] ∧ t = u ∧ going t = true ∨
        (∃ a rest', rest = a :: rest' ∧ cost a ≠ 0) ∧ t = stop u ∧ spent u = ration) := by
  induction l generalizing s with
  | nil =>
    cases hrun
    exact ⟨[], [], _, rfl, rfl, hI, hstart, .inl ⟨rfl, rfl, hs⟩⟩
  | cons a l ih =>
    have hunit := h.unit a
    by_cases hfits : cost a = 0 ∨ spent s < ration
    · have hsame : step s a = free s a := h.within s a hfits
      cases hstep : free s a with
      | error e =>
        rw [hstep] at hsame
        rw [run_cons_of_error hsame] at hrun
        cases hrun
      | ok s' =>
        rw [hstep] at hsame
        obtain ⟨hI', hspent, hgo⟩ := h.keeps s s' a l hI hstep
        rw [run_cons_of_going hsame (hgo hs)] at hrun
        obtain ⟨before, rest, u, hl, hbefore, hrest⟩ := ih hI' (hgo hs) (by omega) hrun
        refine ⟨a :: before, rest, u, by rw [hl, List.cons_append], ?_, hrest⟩
        rw [List.foldlM_cons, hstep]
        exact hbefore
    · rw [not_or, Nat.not_lt] at hfits
      obtain ⟨hcost, hle⟩ := hfits
      rw [run_cons_of_stopped (h.beyond s a hcost hle) (h.stopped s)] at hrun
      cases hrun
      exact ⟨[], a :: l, s, rfl, rfl, hI, hstart, .inr ⟨⟨a, l, rfl, hcost⟩, rfl, by omega⟩⟩

end Rationed

end Ration
end DriveSync
