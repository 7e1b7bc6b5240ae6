import Mathlib.Data.List.Basic
import Mathlib.Data.List.Nodup
import Mathlib.Tactic.Common

/-!
# DriveSync.Lib.Windows

Reading a list by offset, a window at a time, while the list changes between two reads. Read `k`
sees what then stands at the places `k * width` to `(k + 1) * width`.

* `read`: what the first `m` reads return, one after the other.
* `read_const`: of a list that stands still the reads return the list.
* `count_read`: how often an entry is returned, by the places it stands at.
-/

namespace DriveSync
namespace Windows

variable {α : Type}

/-- The `k`-th window of a list. -/
def window (width : Nat) (l : List α) (k : Nat) : List α := (l.drop (k * width)).take width

/-- What the first `m` reads return of a list that is `lists k` at read `k`. -/
def read (width : Nat) (lists : Nat → List α) (m : Nat) : List α :=
  (List.range m).flatMap fun k => window width (lists k) k

theorem read_succ (width : Nat) (lists : Nat → List α) (m : Nat) :
    read width lists (m + 1) = read width lists m ++ window width (lists m) m := by
  simp [read, List.range_succ, List.flatMap_append]

/-- The reads of a list that stands still return its start. -/
theorem read_const (width : Nat) (l : List α) (m : Nat) :
    read width (fun _ => l) m = l.take (m * width) := by
  induction m with
  | zero => simp [read]
  | succ m ih =>
    rw [read_succ, ih, window, Nat.succ_mul, List.take_add]

theorem map_window {β : Type} (f : α → β) (width : Nat) (l : List α) (k : Nat) :
    (window width l k).map f = window width (l.map f) k := by
  simp [window, List.map_take, List.map_drop]

theorem map_read {β : Type} (f : α → β) (width : Nat) (lists : Nat → List α) (m : Nat) :
    (read width lists m).map f = read width (fun k => (lists k).map f) m := by
  induction m with
  | zero => rfl
  | succ m ih => rw [read_succ, read_succ, List.map_append, ih, map_window]

theorem length_window (width : Nat) (l : List α) (k : Nat) :
    (window width l k).length = min width (l.length - k * width) := by
  simp [window]

/-- The reads of lists of one length return as many entries as fit. -/
theorem length_read (width : Nat) {n : Nat} (lists : Nat → List α) (m : Nat)
    (h : ∀ k < m, (lists k).length = n) : (read width lists m).length = min (m * width) n := by
  induction m with
  | zero => simp [read]
  | succ m ih =>
    rw [read_succ, List.length_append, length_window, ih fun k hk => h k (by omega),
      h m (by omega), Nat.succ_mul]
    omega

/-- An entry is in the window its place lies in, and in no other. -/
theorem count_window [BEq α] [LawfulBEq α] {width : Nat} (hwidth : 0 < width) {l front back : List α}
    {a : α} (hl : l = front ++ a :: back) (hnodup : l.Nodup) (k : Nat) :
    (window width l k).count a = if front.length / width = k then 1 else 0 := by
  have hfront : a ∉ front := fun h => by
    rw [hl, List.nodup_append] at hnodup
    exact hnodup.2.2 a h a (.head _) rfl
  have hback : a ∉ back := fun h => by
    rw [hl, List.nodup_append, List.nodup_cons] at hnodup
    exact hnodup.2.1.1 h
  have hmem : a ∈ window width l k ↔ front.length / width = k := by
    rw [window, List.mem_take_iff_getElem]
    constructor
    · rintro ⟨i, hi, hget⟩
      rw [List.getElem_drop] at hget
      have hat : l[front.length]? = some a := by rw [hl]; simp
      have hlen : k * width + i < l.length := by
        simp only [List.length_drop] at hi; omega
      have hplace : k * width + i = front.length := by
        refine (List.getElem?_inj hlen hnodup).mp ?_
        rw [hat, List.getElem?_eq_getElem hlen, hget]
      rw [← hplace, Nat.mul_comm, Nat.mul_add_div hwidth, Nat.div_eq_of_lt (by omega)]
      omega
    · intro hk
      have hle : k * width ≤ front.length := by rw [← hk]; exact Nat.div_mul_le_self _ _
      have hlt : front.length < k * width + width := by
        have := Nat.lt_div_mul_add (a := front.length) hwidth
        rw [hk] at this; exact this
      have hlength : front.length < l.length := by rw [hl]; simp
      refine ⟨front.length - k * width, by simp only [List.length_drop]; omega, ?_⟩
      rw [List.getElem_drop]
      have hplace : k * width + (front.length - k * width) = front.length := by omega
      simp only [hplace, hl, List.getElem_append_right (Nat.le_refl _), Nat.sub_self,
        List.getElem_cons_zero]
  have hsub : (window width l k).Nodup :=
    hnodup.sublist ((List.take_sublist _ _).trans (List.drop_sublist _ _))
  by_cases h : a ∈ window width l k
  · rw [List.count_eq_one_of_mem hsub h, if_pos (hmem.mp h)]
  · rw [List.count_eq_zero_of_not_mem h, if_neg fun hk => h (hmem.mpr hk)]

/-- How often an entry that is there throughout is returned: as often as its place lies in the
window then read. -/
theorem count_read [BEq α] [LawfulBEq α] {width : Nat} (hwidth : 0 < width) {lists : Nat → List α}
    {place : Nat → Nat} {a : α} (m : Nat)
    (hat : ∀ k < m, (lists k).Nodup ∧
      ∃ front back, lists k = front ++ a :: back ∧ front.length = place k) :
    (read width lists m).count a = (List.range m).countP fun k => decide (place k / width = k) := by
  induction m with
  | zero => rfl
  | succ m ih =>
    obtain ⟨hnodup, front, back, hl, hplace⟩ := hat m (by omega)
    rw [read_succ, List.count_append, ih fun k hk => hat k (by omega),
      count_window hwidth hl hnodup, hplace, List.range_succ, List.countP_append]
    simp [List.countP_cons]

/-- Exactly one number below a bound has a property when they are counted to one. -/
theorem countP_range_eq_one {m : Nat} {p : Nat → Bool} :
    (List.range m).countP p = 1 ↔ ∃! k, k < m ∧ p k = true := by
  rw [List.countP_eq_length_filter, List.length_eq_one_iff]
  constructor
  · rintro ⟨k, hk⟩
    have hmem : ∀ j, j ∈ (List.range m).filter p ↔ j = k := by simp [hk]
    simp only [List.mem_filter, List.mem_range] at hmem
    exact ⟨k, (hmem k).mpr rfl, fun j hj => (hmem j).mp hj⟩
  · rintro ⟨k, ⟨hk, hp⟩, huniq⟩
    have hperm : ((List.range m).filter p).Perm [k] := by
      refine (List.perm_ext_iff_of_nodup (List.nodup_range.filter _) (List.nodup_singleton k)).mpr ?_
      intro j
      rw [List.mem_filter, List.mem_range, List.mem_singleton]
      exact ⟨huniq j, fun h => h ▸ ⟨hk, hp⟩⟩
    exact ⟨k, List.perm_singleton.mp hperm⟩

end Windows
end DriveSync
