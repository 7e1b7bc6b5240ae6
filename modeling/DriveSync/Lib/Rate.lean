import Mathlib.Data.List.TakeWhile
import Mathlib.Tactic.Common

/-!
# DriveSync.Lib.Rate

How often something may happen, by two bounds on the times it happened at.

* `WindowBounded width most times`: at most `most` in every window of a width.
* `AllowanceBounded started period most times`: at most `most`, and one more for each full period,
  up to any time.
* `Recent`: a record that forgets the times that no window with a new time can hold.
* `Metered`: amounts spent from a level that time fills at a rate, up to a brim. In any span no more
  is spent than the brim and what time fills in meanwhile (`Metered.spentWithin_le`).

What is added later than everything before keeps the first bound if the record holds fewer than
`most` (`windowBounded_push`), and breaks it if not (`not_windowBounded_push`); it keeps the second
exactly if the allowance is not used up (`allowanceBounded_push`, `not_allowanceBounded_push`).
-/

namespace DriveSync
namespace Rate

variable {width most period started now : Nat} {times recent : List Nat}

/-- How many of the times lie in the window that starts at `start`. -/
def inWindow (width start : Nat) (times : List Nat) : Nat :=
  times.countP fun at_ => decide (start ≤ at_ ∧ at_ < start + width)

/-- How many of the times have come by a time. -/
def upTo (time : Nat) (times : List Nat) : Nat := times.countP fun at_ => decide (at_ ≤ time)

def WindowBounded (width most : Nat) (times : List Nat) : Prop :=
  ∀ start, inWindow width start times ≤ most

def AllowanceBounded (started period most : Nat) (times : List Nat) : Prop :=
  ∀ elapsed, upTo (started + elapsed) times ≤ most + elapsed / period

/-- The record of the times that are left once those older than a window are forgotten. -/
def Recent (width now : Nat) (times recent : List Nat) : Prop :=
  ∃ old, times = old ++ recent ∧ ∀ at_ ∈ old, at_ + width ≤ now

theorem recent_nil : Recent width now [] [] := ⟨[], rfl, fun _ h => by cases h⟩

/-- Forgetting what is older than a window, from the front on. -/
theorem Recent.forget {before : Nat} (h : Recent width before times recent) (hle : before ≤ now)
    (hwidth : 0 < width) :
    Recent width now times (recent.dropWhile fun at_ => decide (width ≤ now - at_)) := by
  obtain ⟨old, rfl, hold⟩ := h
  refine ⟨old ++ recent.takeWhile fun at_ => decide (width ≤ now - at_), ?_, fun at_ hmem => ?_⟩
  · rw [List.append_assoc, List.takeWhile_append_dropWhile]
  · rcases List.mem_append.mp hmem with hmem | hmem
    · exact Nat.le_trans (hold at_ hmem) hle
    · have hwide : decide (width ≤ now - at_) = true := by simpa using List.mem_takeWhile_imp hmem
      have := of_decide_eq_true hwide
      omega

theorem Recent.push (h : Recent width now times recent) :
    Recent width now (times ++ [now]) (recent ++ [now]) := by
  obtain ⟨old, rfl, hold⟩ := h
  exact ⟨old, List.append_assoc _ _ _, hold⟩

theorem Recent.later {later : Nat} (h : Recent width now times recent) (hle : now ≤ later) :
    Recent width later times recent := by
  obtain ⟨old, heq, hold⟩ := h
  exact ⟨old, heq, fun at_ hmem => Nat.le_trans (hold at_ hmem) hle⟩

theorem inWindow_push {start : Nat} : inWindow width start (times ++ [now]) =
    inWindow width start times + if start ≤ now ∧ now < start + width then 1 else 0 := by
  simp [inWindow, List.countP_append, List.countP_singleton]

theorem upTo_push {time : Nat} :
    upTo time (times ++ [now]) = upTo time times + if now ≤ time then 1 else 0 := by
  simp [upTo, List.countP_append, List.countP_singleton]

/-- What a window with the present in it holds is still on record. -/
theorem Recent.inWindow_le (h : Recent width now times recent) {start : Nat}
    (hstart : now < start + width) : inWindow width start times ≤ recent.length := by
  obtain ⟨old, rfl, hold⟩ := h
  have hnone : inWindow width start old = 0 := by
    refine List.countP_eq_zero.mpr fun at_ hmem => ?_
    have := hold at_ hmem
    simp only [decide_eq_true_eq]
    omega
  unfold inWindow at hnone ⊢
  rw [List.countP_append, hnone, Nat.zero_add]
  exact List.countP_le_length

/-- What is left on record of times that only grow is within a window of the present. -/
theorem fresh_dropWhile (hsorted : recent.Pairwise (· ≤ ·)) :
    ∀ at_ ∈ recent.dropWhile (fun at_ => decide (width ≤ now - at_)), now - at_ < width := by
  induction recent with
  | nil => intro at_ hmem; cases hmem
  | cons first rest ih =>
    intro at_ hmem
    obtain ⟨hfirst, hrest⟩ := List.pairwise_cons.mp hsorted
    rw [List.dropWhile_cons] at hmem
    split at hmem
    · exact ih hrest at_ hmem
    · rename_i hfresh
      have hlate : now - first < width := by simpa using hfresh
      rcases List.mem_cons.mp hmem with rfl | hmem
      · exact hlate
      · have := hfirst at_ hmem
        omega

theorem windowBounded_push (h : WindowBounded width most times) (hr : Recent width now times recent)
    (hlen : recent.length < most) : WindowBounded width most (times ++ [now]) := by
  intro start
  rw [inWindow_push]
  split
  · rename_i hin
    have := hr.inWindow_le hin.2
    omega
  · exact h start

/-- With as many on record as a window may hold, one more is too many. -/
theorem not_windowBounded_push (hr : Recent width now times recent)
    (hpast : ∀ at_ ∈ times, at_ ≤ now) (hfresh : ∀ at_ ∈ recent, now - at_ < width)
    (hwidth : 0 < width) (hlen : most ≤ recent.length) :
    ¬ WindowBounded width most (times ++ [now]) := by
  intro h
  obtain ⟨old, rfl, _⟩ := hr
  have hwindow := h (now + 1 - width)
  rw [inWindow_push, if_pos (by omega)] at hwindow
  have hall : inWindow width (now + 1 - width) recent = recent.length := by
    refine List.countP_eq_length.mpr fun at_ hmem => ?_
    have := hfresh at_ hmem
    have := hpast at_ (List.mem_append_right old hmem)
    simp only [decide_eq_true_eq]
    omega
  unfold inWindow at hall hwindow
  rw [List.countP_append, hall] at hwindow
  omega

theorem upTo_le_length {time : Nat} : upTo time times ≤ times.length := List.countP_le_length

theorem allowanceBounded_push (h : AllowanceBounded started period most times)
    (hlen : times.length < most + (now - started) / period) :
    AllowanceBounded started period most (times ++ [now]) := by
  intro elapsed
  rw [upTo_push]
  split
  · have hmore : (now - started) / period ≤ elapsed / period :=
      Nat.div_le_div_right (by omega)
    have : upTo (started + elapsed) times ≤ times.length := upTo_le_length
    omega
  · exact h elapsed

/-- With the allowance used up, one more is too many. -/
theorem not_allowanceBounded_push (hpast : ∀ at_ ∈ times, at_ ≤ now) (hstarted : started ≤ now)
    (hlen : most + (now - started) / period ≤ times.length) :
    ¬ AllowanceBounded started period most (times ++ [now]) := by
  intro h
  have hnow := h (now - started)
  have hall : upTo now times = times.length :=
    List.countP_eq_length.mpr fun at_ hmem => decide_eq_true (hpast at_ hmem)
  rw [Nat.add_sub_cancel' hstarted, upTo_push, if_pos (Nat.le_refl now), hall] at hnow
  omega

/-! ## What is spent -/

/-- What is spent in a span of time, its ends included. -/
def spentWithin (first last : Nat) : List (Nat × Nat) → Nat
  | [] => 0
  | (at_, amount) :: rest =>
    (if first ≤ at_ ∧ at_ ≤ last then amount else 0) + spentWithin first last rest

/-- Spending from a level that time fills at a rate, up to a brim. -/
inductive Metered (rate brim : Nat) : Nat → Nat → List (Nat × Nat) → Prop where
  | nil (level time : Nat) : Metered rate brim level time []
  | cons (level time at_ amount left : Nat) (rest : List (Nat × Nat))
    (hfill : amount + left ≤ level + rate * (at_ - time)) (hbrim : amount + left ≤ brim)
    (hrest : Metered rate brim left (max time at_) rest) :
    Metered rate brim level time ((at_, amount) :: rest)

variable {rate brim level time : Nat} {spends : List (Nat × Nat)}

theorem spentWithin_scale (scale first last : Nat) :
    spentWithin first last (spends.map fun spend => (spend.1, spend.2 * scale)) =
      spentWithin first last spends * scale := by
  induction spends with
  | nil => simp [spentWithin]
  | cons spend rest ih =>
    simp only [List.map_cons, spentWithin, ih, Nat.add_mul]
    split <;> simp

theorem spentWithin_late {first last : Nat} (h : ∀ spend ∈ spends, last < spend.1) :
    spentWithin first last spends = 0 := by
  induction spends with
  | nil => rfl
  | cons spend rest ih =>
    have hhead := h spend (.head _)
    rw [spentWithin, ih fun s hs => h s (.tail _ hs), if_neg (by omega)]

/-- By any time, no more than there was and what time has filled in. -/
theorem Metered.spent_le (h : Metered rate brim level time spends)
    (hsorted : spends.Pairwise fun a b => a.1 ≤ b.1) (first last : Nat) :
    spentWithin first last spends ≤ level + rate * (last - time) := by
  induction h with
  | nil => exact Nat.zero_le _
  | cons level time at_ amount left rest hfill _ _ ih =>
    obtain ⟨hhead, hrest⟩ := List.pairwise_cons.mp hsorted
    by_cases hlate : last < at_
    · rw [spentWithin_late fun spend hmem => ?_]
      · exact Nat.zero_le _
      · rcases List.mem_cons.mp hmem with rfl | hmem
        · exact hlate
        · exact Nat.lt_of_lt_of_le hlate (hhead spend hmem)
    · have hfilled : rate * (at_ - time) + rate * (last - max time at_) ≤ rate * (last - time) := by
        rw [← Nat.mul_add]
        exact Nat.mul_le_mul_left _ (by omega)
      have := ih hrest
      rw [spentWithin]
      split <;> omega

/-- In any span, no more than the brim and what time fills in meanwhile. -/
theorem Metered.spentWithin_le (h : Metered rate brim level time spends)
    (hsorted : spends.Pairwise fun a b => a.1 ≤ b.1) (first last : Nat) :
    spentWithin first last spends ≤ brim + rate * (last - first) := by
  induction h with
  | nil => exact Nat.zero_le _
  | cons level time at_ amount left rest hfill hbrim hmetered ih =>
    obtain ⟨-, hrest⟩ := List.pairwise_cons.mp hsorted
    rw [spentWithin]
    split
    · rename_i hin
      have hfilled : rate * (last - max time at_) ≤ rate * (last - first) :=
        Nat.mul_le_mul_left _ (by omega)
      have := hmetered.spent_le hrest first last
      omega
    · have := ih hrest
      omega

end Rate
end DriveSync
