import Mathlib.Data.List.Perm.Basic

/-!
# DriveSync.Lib.Total

The total of a measure over a list: how it splits, that the order does not matter, and that taking
amounts off one by one takes off their total.
-/

namespace DriveSync

variable {α β : Type} {f : α → Nat}

/-- The measure of every element, added up. -/
def total (f : α → Nat) : List α → Nat
  | [] => 0
  | a :: l => f a + total f l

@[simp] theorem total_nil : total f [] = 0 := rfl

@[simp] theorem total_cons (a : α) (l : List α) : total f (a :: l) = f a + total f l := rfl

@[simp] theorem total_append (l m : List α) : total f (l ++ m) = total f l + total f m := by
  induction l with
  | nil => simp
  | cons a l ih => simp [ih, Nat.add_assoc]

theorem total_map (g : β → α) (l : List β) : total f (l.map g) = total (fun b => f (g b)) l := by
  induction l with
  | nil => rfl
  | cons b l ih => simp [ih]

theorem total_perm {l m : List α} (h : l.Perm m) : total f l = total f m := by
  induction h with
  | nil => rfl
  | cons a _ ih => simp [ih]
  | swap a b l => simp; omega
  | trans _ _ ih ih' => rw [ih, ih']

/-- A list in two parts: what a test keeps and what it takes out. -/
theorem total_filter_add (p : α → Bool) (l : List α) :
    total f (l.filter p) + total f (l.filter fun a => !p a) = total f l := by
  induction l with
  | nil => rfl
  | cons a l ih =>
    cases h : p a with
    | true => simp [h]; omega
    | false => simp [h]; omega

theorem total_filter_le (p : α → Bool) (l : List α) : total f (l.filter p) ≤ total f l := by
  have := total_filter_add (f := f) p l
  omega

theorem total_eq_zero {l : List α} : total f l = 0 ↔ ∀ a ∈ l, f a = 0 := by
  induction l with
  | nil => simp
  | cons a l ih => simp [ih]

theorem foldl_sub (l : List α) (n : Nat) : l.foldl (fun n a => n - f a) n = n - total f l := by
  induction l generalizing n with
  | nil => rfl
  | cons a l ih => rw [List.foldl_cons, ih, total_cons]; omega

end DriveSync
