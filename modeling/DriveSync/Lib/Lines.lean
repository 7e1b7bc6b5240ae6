import Mathlib.Data.List.Infix

/-!
# DriveSync.Lib.Lines

Texts made of fields, each closed by a separator it does not hold. Such a text is read back from the
front, field by field; a field that may hold the separator is read back from the other end, where
what follows it starts with a mark that no later field starts with.

* `cut_inj`: two texts cut at their first separator.
* `unlines_inj`: the fields of a text.
* `cut_last_inj`: two texts cut at their last marked separator.
-/

namespace DriveSync
namespace Lines

variable {α : Type} {sep mark : α}

theorem cut_inj {x z u v : List α} (hx : sep ∉ x) (hz : sep ∉ z)
    (h : x ++ sep :: u = z ++ sep :: v) : x = z ∧ u = v := by
  induction x generalizing z with
  | nil =>
    cases z with
    | nil => simpa using h
    | cons c z => simp at h hz; exact absurd h.1 hz.1
  | cons c x ih =>
    cases z with
    | nil => simp at h hx; exact absurd h.1.symm hx.1
    | cons d z =>
      simp only [List.cons_append, List.cons.injEq] at h
      simp only [List.mem_cons, not_or] at hx hz
      obtain ⟨rfl, h⟩ := h
      obtain ⟨rfl, rfl⟩ := ih hx.2 hz.2 h
      exact ⟨rfl, rfl⟩

/-- Every field with a separator behind it. -/
def unlines (sep : α) : List (List α) → List α
  | [] => []
  | l :: ls => l ++ sep :: unlines sep ls

theorem unlines_inj (sep : α) {ls ms : List (List α)} (hl : ∀ l ∈ ls, sep ∉ l) (hm : ∀ m ∈ ms, sep ∉ m)
    (h : unlines sep ls = unlines sep ms) : ls = ms := by
  induction ls generalizing ms with
  | nil =>
    cases ms with
    | nil => rfl
    | cons m ms => simp [unlines] at h
  | cons l ls ih =>
    cases ms with
    | nil => simp [unlines] at h
    | cons m ms =>
      obtain ⟨hlm, hrest⟩ := cut_inj (hl l (.head _)) (hm m (.head _)) h
      rw [hlm, ih (fun l hl' => hl l (.tail _ hl')) (fun m hm' => hm m (.tail _ hm')) hrest]

/-- A field in front of a text that does not start with the mark adds no marked separator. -/
theorem not_infix_field {l t : List α} (hl : sep ∉ l) (ht : t.head? ≠ some mark)
    (h : ¬[sep, mark] <:+: t) : ¬[sep, mark] <:+: l ++ sep :: t := by
  induction l with
  | nil =>
    rw [List.nil_append, List.infix_cons_iff]
    rintro (hstart | hrest)
    · cases t with
      | nil => simp at hstart
      | cons c t =>
        simp only [List.cons_prefix_cons, true_and] at hstart
        exact ht (by simp [hstart.1])
    · exact h hrest
  | cons c l ih =>
    simp only [List.mem_cons, not_or] at hl
    rw [List.cons_append, List.infix_cons_iff]
    rintro (hstart | hrest)
    · exact hl.1 (List.cons_prefix_cons.mp hstart).1
    · exact ih hl.2 hrest

/-- A text of fields holds no marked separator if no field but the first starts with the mark. -/
theorem not_infix_unlines {l : List α} {ls : List (List α)} (hne : sep ≠ mark) (hl : sep ∉ l)
    (hls : ∀ m ∈ ls, sep ∉ m ∧ m.head? ≠ some mark) :
    ¬[sep, mark] <:+: unlines sep (l :: ls) := by
  induction ls generalizing l with
  | nil => exact not_infix_field hl (by simp [unlines]) (by simp [unlines])
  | cons m ms ih =>
    obtain ⟨hm, hhead⟩ := hls m (.head _)
    refine not_infix_field hl ?_ (ih hm fun m hm => hls m (.tail _ hm))
    cases m with
    | nil => simpa [unlines] using hne
    | cons c m => simpa [unlines] using hhead

/-- What stands before a marked separator that holds no further one is empty. -/
theorem eq_nil_of_cut {s u v : List α} (hne : sep ≠ mark) (hu : ¬[sep, mark] <:+: u)
    (h : sep :: mark :: u = s ++ sep :: mark :: v) : s = [] := by
  match s with
  | [] => rfl
  | [c] =>
    simp only [List.cons_append, List.nil_append, List.cons.injEq] at h
    exact absurd h.2.1.symm hne
  | c :: d :: s =>
    simp only [List.cons_append, List.cons.injEq] at h
    exact absurd ⟨s, v, by simp [h.2.2]⟩ hu

theorem cut_last_inj {a b u v : List α} (hne : sep ≠ mark) (hu : ¬[sep, mark] <:+: u)
    (hv : ¬[sep, mark] <:+: v) (h : a ++ sep :: mark :: u = b ++ sep :: mark :: v) :
    a = b ∧ u = v := by
  rcases List.append_eq_append_iff.mp h with ⟨s, rfl, hs⟩ | ⟨s, rfl, hs⟩
  · obtain rfl := eq_nil_of_cut hne hu hs
    simpa using hs
  · obtain rfl := eq_nil_of_cut hne hv hs
    simpa [eq_comm] using hs

end Lines
end DriveSync
