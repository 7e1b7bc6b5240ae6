import Mathlib.Data.List.Infix

/-!
# DriveSync.Lib.Recent

The newest of a list.

* `Holds`: a ring of cells written round and round holds the last values written to it.
* `LongestEnd`: the longest end of a list that meets a condition its own ends meet too; the list is
  walked back from its last value as long as the condition is met (`longestEnd_of_stop`,
  `longestEnd_takeBack`).
* `visitAll`: a list is shown to a visitor, value by value, until it breaks off.
-/

namespace DriveSync
namespace Recent

variable {α : Type}

/-- The cells hold the newest values written to them. -/
def Holds (ring : List (Option α)) (written : List α) : Prop :=
  ∀ i value, written.length ≤ i + ring.length → written[i]? = some value →
    ring[i % ring.length]? = some (some value)

variable {ring : List (Option α)} {written xs kept : List α} {value : α} {p : List α → Prop}

theorem Holds.fresh (n : Nat) : Holds (List.replicate n (none : Option α)) [] := by
  intro i value _ hvalue
  cases hvalue

theorem Holds.push (h : Holds ring written) (value : α) :
    Holds (ring.set (written.length % ring.length) (some value)) (written ++ [value]) := by
  intro i next hrecent hnext
  rw [List.length_set] at hrecent ⊢
  rw [List.length_append, List.length_singleton] at hrecent
  obtain ⟨hi, -⟩ := List.getElem?_eq_some_iff.mp hnext
  rw [List.length_append, List.length_singleton] at hi
  have hpos : 0 < ring.length := by omega
  by_cases hlast : i = written.length
  · subst hlast
    rw [List.getElem?_append_right (Nat.le_refl _), Nat.sub_self] at hnext
    obtain rfl := Option.some.inj hnext
    rw [List.getElem?_set_self (Nat.mod_lt _ hpos)]
  · rw [List.getElem?_append_left (by omega)] at hnext
    have hapart : written.length % ring.length ≠ i % ring.length := by
      intro heq
      have hdvd := Nat.sub_mod_eq_zero_of_mod_eq heq
      have hle := Nat.le_of_dvd (by omega) (Nat.dvd_of_mod_eq_zero hdvd)
      omega
    rw [List.getElem?_set_ne hapart]
    exact h i next (by omega) hnext

/-! ## Ends -/

theorem exists_drop_cons {i : Nat} (h : i < xs.length) :
    ∃ value, xs[i]? = some value ∧ xs.drop i = value :: xs.drop (i + 1) :=
  ⟨xs[i], List.getElem?_eq_getElem h, List.drop_eq_getElem_cons h⟩

/-- The longest end of a list that meets a condition. -/
structure LongestEnd (p : List α → Prop) (xs kept : List α) : Prop where
  suffix : kept <:+ xs
  meets : p kept
  longest : ∀ other, other <:+ xs → p other → other <:+ kept

/-- Walking back stops at the longest end if no longer one can meet the condition again. -/
theorem longestEnd_of_stop (hends : ∀ s t, s <:+ t → p t → p s) {first : Nat}
    (hmeets : p (xs.drop first)) (hstop : ∀ before, first = before + 1 → ¬ p (xs.drop before)) :
    LongestEnd p xs (xs.drop first) where
  suffix := List.drop_suffix first xs
  meets := hmeets
  longest other hother hp := by
    by_contra hlonger
    have hfirst : xs.drop first <:+ other :=
      (List.suffix_or_suffix_of_suffix hother (List.drop_suffix first xs)).resolve_left hlonger
    obtain ⟨front, hxs⟩ := hother
    obtain ⟨between, hbetween⟩ := hfirst
    have hne : between ≠ [] := by
      rintro rfl
      exact hlonger (by rw [← hbetween]; exact List.suffix_refl _)
    have hlength : front.length + (between.length + (xs.length - first)) = xs.length := by
      rw [← List.length_drop, ← List.length_append, hbetween, ← List.length_append, hxs]
    have hpos := List.length_pos_iff.mpr hne
    refine hstop (first - 1) (by omega) (hends _ other ?_ hp)
    refine List.suffix_of_suffix_length_le (List.drop_suffix _ xs) ⟨front, hxs⟩ ?_
    rw [List.length_drop, ← hbetween, List.length_append, List.length_drop]
    omega

theorem LongestEnd.unique (h : LongestEnd p xs kept) {kept' : List α} (h' : LongestEnd p xs kept') :
    kept = kept' :=
  (h'.longest kept h.suffix h.meets).eq_of_length
    (Nat.le_antisymm (h'.longest kept h.suffix h.meets).length_le
      (h.longest kept' h'.suffix h'.meets).length_le)

/-- A stretch that meets the condition, and none longer by one does, is the longest end of any list. -/
theorem longestEnd_append (hends : ∀ s t, s <:+ t → p t → p s) (hmeets : p kept) (front : List α)
    (hstop : ∀ before value, front = before ++ [value] → ¬ p (value :: kept)) :
    LongestEnd p (front ++ kept) kept := by
  have hlongest : LongestEnd p (front ++ kept) ((front ++ kept).drop front.length) := by
    refine longestEnd_of_stop hends (by rwa [List.drop_left]) fun length hlength => ?_
    rcases List.eq_nil_or_concat front with rfl | ⟨before, value, rfl⟩
    · cases hlength
    · rw [List.concat_eq_append, List.length_append, List.length_singleton] at hlength
      rw [List.concat_eq_append, ← Nat.succ.inj hlength, List.append_assoc, List.drop_left]
      exact hstop before value List.concat_eq_append
  rwa [List.drop_left] at hlongest

/-- Values are taken one by one, the newest first, while the condition is met. -/
def takeOnto (p : List α → Prop) [DecidablePred p] : List α → List α → List α
  | [], kept => kept
  | value :: older, kept => if p (value :: kept) then takeOnto p older (value :: kept) else kept

def takeBack (p : List α → Prop) [DecidablePred p] (xs : List α) : List α :=
  takeOnto p xs.reverse []

theorem longestEnd_takeOnto [DecidablePred p] (hends : ∀ s t, s <:+ t → p t → p s)
    (hmeets : p kept) (older : List α) :
    LongestEnd p (older.reverse ++ kept) (takeOnto p older kept) := by
  induction older generalizing kept with
  | nil => exact ⟨List.suffix_refl _, hmeets, fun other hother _ => hother⟩
  | cons value older ih =>
    rw [List.reverse_cons, takeOnto]
    split
    · rename_i hmore
      rw [← List.append_cons]
      exact ih hmore
    · rename_i hnot
      refine longestEnd_append hends hmeets _ fun before next heq => ?_
      have hlast := congrArg List.getLast? heq
      rw [List.getLast?_concat, List.getLast?_concat] at hlast
      rwa [← Option.some.inj hlast]

theorem longestEnd_takeBack [DecidablePred p] (hends : ∀ s t, s <:+ t → p t → p s) (hnil : p [])
    (xs : List α) : LongestEnd p xs (takeBack p xs) := by
  have := longestEnd_takeOnto hends hnil xs.reverse
  rwa [List.reverse_reverse, List.append_nil] at this

/-! ## Visits -/

section Visits

variable {β σ : Type} {visit : β → σ → σ × Bool} {seen rest : List β} {state : σ}

/-- The values shown to a visitor one by one, until it breaks off; whether it did. -/
def visitAll (visit : β → σ → σ × Bool) : List β → σ → σ × Bool
  | [], state => (state, false)
  | value :: rest, state =>
    match visit value state with
    | (state, true) => (state, true)
    | (state, false) => visitAll visit rest state

theorem visitAll_append {state' : σ} (h : visitAll visit seen state = (state', false)) :
    visitAll visit (seen ++ rest) state = visitAll visit rest state' := by
  induction seen generalizing state with
  | nil =>
    cases h
    rfl
  | cons value seen ih =>
    rw [List.cons_append, visitAll]
    unfold visitAll at h
    split at h
    · cases h
    · exact ih h

theorem visitAll_singleton (value : β) : visitAll visit [value] state = visit value state := by
  unfold visitAll
  split
  · rename_i h
    exact h.symm
  · rename_i h
    exact h.symm

end Visits

end Recent
end DriveSync
