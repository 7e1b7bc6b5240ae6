import Mathlib.Data.List.Sort
import Mathlib.Order.Defs.LinearOrder
import Mathlib.Tactic.Common

/-!
# DriveSync.Lib.SortedMerge

Two lists sorted by a key, merged into one. Where both hold a key, what is merged is their join.

* `value?_merge`: what a merge has under a key.
* `sorted_merge`: it is sorted again.
* `mem_take`: a sorted list cut at a length has what too few keys come before.
-/

namespace DriveSync
namespace SortedMerge

variable {κ β : Type} [LinearOrder κ]

/-- Sorted by the key, each key once. -/
def Sorted (l : List (κ × β)) : Prop := l.Pairwise fun x y => x.1 < y.1

/-- The value a list has under a key. -/
def value? : List (κ × β) → κ → Option β
  | [], _ => none
  | x :: l, k => if k = x.1 then some x.2 else value? l k

def merge (join : β → β → β) : List (κ × β) → List (κ × β) → List (κ × β)
  | [], right => right
  | x :: left, [] => x :: left
  | x :: left, y :: right =>
    if x.1 < y.1 then x :: merge join left (y :: right)
    else if y.1 < x.1 then y :: merge join (x :: left) right
    else (x.1, join x.2 y.2) :: merge join left right
termination_by left right => left.length + right.length

/-- How many of the keys come before one. -/
def before (l : List (κ × β)) (k : κ) : Nat := l.countP fun x => decide (x.1 < k)

variable {l left right : List (κ × β)} {x : κ × β} {k : κ} {b : β}

@[simp] theorem value?_nil : value? ([] : List (κ × β)) k = none := rfl

theorem value?_cons : value? (x :: l) k = if k = x.1 then some x.2 else value? l k := rfl

theorem mem_of_value? (h : value? l k = some b) : (k, b) ∈ l := by
  induction l with
  | nil => cases h
  | cons x l ih =>
    rw [value?_cons] at h
    split at h
    · rename_i heq
      cases h
      rw [heq]
      exact .head _
    · exact .tail _ (ih h)

theorem Sorted.tail (h : Sorted (x :: l)) : Sorted l := (List.pairwise_cons.mp h).2

theorem Sorted.lt (h : Sorted (x :: l)) (hb : (k, b) ∈ l) : x.1 < k :=
  (List.pairwise_cons.mp h).1 _ hb

theorem Sorted.value?_of_mem (h : Sorted l) (hb : (k, b) ∈ l) : value? l k = some b := by
  induction l with
  | nil => cases hb
  | cons x l ih =>
    rw [value?_cons]
    rcases List.mem_cons.mp hb with rfl | hb
    · rw [if_pos rfl]
    · rw [if_neg (h.lt hb).ne', ih h.tail hb]

theorem Sorted.mem_iff (h : Sorted l) : (k, b) ∈ l ↔ value? l k = some b :=
  ⟨h.value?_of_mem, mem_of_value?⟩

theorem Sorted.value?_eq_none (h : Sorted (x :: l)) (hk : k < x.1) :
    value? (x :: l) k = none := by
  rw [Option.eq_none_iff_forall_ne_some]
  intro b hb
  rcases List.mem_cons.mp (mem_of_value? hb) with rfl | hb
  · exact lt_irrefl _ hk
  · exact lt_asymm hk (h.lt hb)

section Merge

variable (join : β → β → β)

/-- What is merged of the values two lists have under one key. -/
def both : Option β → Option β → Option β
  | some a, some b => some (join a b)
  | some a, none => some a
  | none, b => b

@[simp] theorem both_none_left (b : Option β) : both join none b = b := rfl

@[simp] theorem both_none_right (a : Option β) : both join a none = a := by
  cases a <;> rfl

@[simp] theorem merge_nil_left (right : List (κ × β)) : merge join [] right = right := by
  simp [merge]

@[simp] theorem merge_nil_right (left : List (κ × β)) : merge join left [] = left := by
  cases left <;> simp [merge]

theorem value?_merge (hl : Sorted left) (hr : Sorted right) (k : κ) :
    value? (merge join left right) k = both join (value? left k) (value? right k) := by
  induction left, right using merge.induct with
  | case1 right => simp
  | case2 x left => simp
  | case3 x left y right hlt ih =>
    rw [merge, if_pos hlt, value?_cons, value?_cons (l := left), ih hl.tail hr]
    split
    · rename_i heq
      rw [hr.value?_eq_none (heq ▸ hlt), both_none_right]
    · rfl
  | case4 x left y right hlt hgt ih =>
    rw [merge, if_neg hlt, if_pos hgt, value?_cons, value?_cons (l := right), ih hl hr.tail]
    split
    · rename_i heq
      rw [hl.value?_eq_none (heq ▸ hgt), both_none_left]
    · rfl
  | case5 x left y right hlt hgt ih =>
    have heq : y.1 = x.1 := le_antisymm (not_lt.mp hlt) (not_lt.mp hgt)
    rw [merge, if_neg hlt, if_neg hgt, value?_cons, value?_cons (l := left),
      value?_cons (l := right), ih hl.tail hr.tail, heq]
    split <;> rfl

theorem fst_of_mem_merge (h : x ∈ merge join left right) :
    x.1 ∈ left.map (·.1) ∨ x.1 ∈ right.map (·.1) := by
  induction left, right using merge.induct with
  | case1 right => exact .inr (List.mem_map_of_mem (by simpa [merge] using h))
  | case2 y left => exact .inl (List.mem_map_of_mem (by simpa [merge] using h))
  | case3 y left z right hlt ih =>
    rw [merge, if_pos hlt] at h
    rcases List.mem_cons.mp h with rfl | h
    · exact .inl (.head _)
    · exact (ih h).imp_left (.tail _)
  | case4 y left z right hlt hgt ih =>
    rw [merge, if_neg hlt, if_pos hgt] at h
    rcases List.mem_cons.mp h with rfl | h
    · exact .inr (.head _)
    · exact (ih h).imp_right (.tail _)
  | case5 y left z right hlt hgt ih =>
    rw [merge, if_neg hlt, if_neg hgt] at h
    rcases List.mem_cons.mp h with rfl | h
    · exact .inl (.head _)
    · exact (ih h).imp (.tail _) (.tail _)

/-- What comes before both heads comes before the merge. -/
theorem lt_of_mem_merge (hl : ∀ y ∈ left, k < y.1) (hr : ∀ y ∈ right, k < y.1)
    (h : x ∈ merge join left right) : k < x.1 := by
  rcases fst_of_mem_merge join h with h | h <;> obtain ⟨y, hy, heq⟩ := List.mem_map.mp h
  · exact heq ▸ hl y hy
  · exact heq ▸ hr y hy

theorem sorted_merge (hl : Sorted left) (hr : Sorted right) : Sorted (merge join left right) := by
  induction left, right using merge.induct with
  | case1 right => simpa [merge] using hr
  | case2 x left => simpa [merge] using hl
  | case3 x left y right hlt ih =>
    rw [merge, if_pos hlt]
    refine List.pairwise_cons.mpr ⟨fun z hz => ?_, ih hl.tail hr⟩
    refine lt_of_mem_merge join (List.pairwise_cons.mp hl).1 (fun w hw => ?_) hz
    rcases List.mem_cons.mp hw with rfl | hw
    · exact hlt
    · exact hlt.trans ((List.pairwise_cons.mp hr).1 w hw)
  | case4 x left y right hlt hgt ih =>
    rw [merge, if_neg hlt, if_pos hgt]
    refine List.pairwise_cons.mpr ⟨fun z hz => ?_, ih hl hr.tail⟩
    refine lt_of_mem_merge join (fun w hw => ?_) (List.pairwise_cons.mp hr).1 hz
    rcases List.mem_cons.mp hw with rfl | hw
    · exact hgt
    · exact hgt.trans ((List.pairwise_cons.mp hl).1 w hw)
  | case5 x left y right hlt hgt ih =>
    have heq : y.1 = x.1 := le_antisymm (not_lt.mp hlt) (not_lt.mp hgt)
    rw [merge, if_neg hlt, if_neg hgt]
    refine List.pairwise_cons.mpr ⟨fun z hz => ?_, ih hl.tail hr.tail⟩
    exact lt_of_mem_merge join (List.pairwise_cons.mp hl).1
      (fun w hw => heq ▸ (List.pairwise_cons.mp hr).1 w hw) hz

end Merge

theorem Sorted.before_head (h : Sorted (x :: l)) : before (x :: l) x.1 = 0 := by
  refine List.countP_eq_zero.mpr fun y hy => ?_
  rcases List.mem_cons.mp hy with rfl | hy
  · simp
  · simpa using ((List.pairwise_cons.mp h).1 y hy).le

theorem before_cons (h : x.1 < k) : before (x :: l) k = before l k + 1 := by
  simp [before, h]

/-- A sorted list cut at a length has what too few keys come before. -/
theorem mem_take (h : Sorted l) {n : Nat} : x ∈ l.take n ↔ x ∈ l ∧ before l x.1 < n := by
  induction l generalizing n with
  | nil => simp
  | cons y l ih =>
    cases n with
    | zero => simp
    | succ n =>
      have hafter : x ∈ l → y.1 < x.1 := (List.pairwise_cons.mp h).1 x
      rw [List.take_succ_cons, List.mem_cons, List.mem_cons, ih h.tail]
      constructor
      · rintro (rfl | ⟨hx, hlt⟩)
        · exact ⟨.inl rfl, h.before_head ▸ Nat.zero_lt_succ n⟩
        · exact ⟨.inr hx, by rw [before_cons (hafter hx)]; omega⟩
      · rintro ⟨rfl | hx, hlt⟩
        · exact .inl rfl
        · rw [before_cons (hafter hx)] at hlt
          exact .inr ⟨hx, by omega⟩

end SortedMerge
end DriveSync
