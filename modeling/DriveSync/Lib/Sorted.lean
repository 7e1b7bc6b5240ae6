import Mathlib.Data.List.TakeWhile
import Mathlib.Data.List.Sort

/-!
# DriveSync.Lib.Sorted

Reading a stretch of a sorted list. `range(from..)` followed by `take_while` on an ordered map
stops at the first entry past the stretch; where the stretch is an interval of the order, what it
returns is every entry in it. A list sorted by a key is in the key's order, whatever order it was in
before, and a list some of whose elements are replaced has the keys it had.
-/

namespace DriveSync
namespace Sorted

variable {α : Type} {r : α → α → Prop} {q : α → Bool}

/-- `takeWhile` keeps every element of a list in which no element outside `q` precedes one in it. -/
theorem mem_takeWhile {l : List α} (hl : l.Pairwise r)
    (hq : ∀ a ∈ l, ∀ b ∈ l, r a b → q b = true → q a = true) {x : α} :
    x ∈ l.takeWhile q ↔ x ∈ l ∧ q x = true := by
  induction l with
  | nil => simp
  | cons a l ih =>
    obtain ⟨ha, hl⟩ := List.pairwise_cons.mp hl
    have ih := ih hl fun b hb c hc => hq b (.tail _ hb) c (.tail _ hc)
    by_cases hqa : q a = true
    · simp only [List.takeWhile_cons, hqa, if_true, List.mem_cons, ih]
      constructor
      · rintro (rfl | ⟨hx, hqx⟩)
        · exact ⟨.inl rfl, hqa⟩
        · exact ⟨.inr hx, hqx⟩
      · rintro ⟨rfl | hx, hqx⟩
        · exact .inl rfl
        · exact .inr ⟨hx, hqx⟩
    · rw [List.takeWhile_cons_of_neg hqa]
      simp only [List.not_mem_nil, false_iff, List.mem_cons]
      rintro ⟨rfl | hx, hqx⟩
      · exact hqa hqx
      · exact hqa (hq a (.head _) x (.tail _ hx) (ha x hx) hqx)

/-- What `takeWhile` keeps of a sorted list: the elements up to the first one outside `q`. -/
theorem mem_takeWhile_iff {l : List α} (hl : l.Pairwise r) (irrefl : ∀ a, ¬r a a)
    (asymm : ∀ {a b}, r a b → ¬r b a) {x : α} :
    x ∈ l.takeWhile q ↔ x ∈ l ∧ q x = true ∧ ∀ y ∈ l, r y x → q y = true := by
  induction l with
  | nil => simp
  | cons a l ih =>
    obtain ⟨ha, hl⟩ := List.pairwise_cons.mp hl
    have ih := ih hl
    by_cases hqa : q a = true
    · simp only [List.takeWhile_cons, hqa, if_true, List.mem_cons, ih]
      constructor
      · rintro (rfl | ⟨hx, hqx, hbefore⟩)
        · refine ⟨.inl rfl, hqa, ?_⟩
          rintro y (rfl | hy) hyx
          · exact absurd hyx (irrefl _)
          · exact absurd hyx (asymm (ha y hy))
        · refine ⟨.inr hx, hqx, ?_⟩
          rintro y (rfl | hy) hyx
          · exact hqa
          · exact hbefore y hy hyx
      · rintro ⟨rfl | hx, hqx, hbefore⟩
        · exact .inl rfl
        · exact .inr ⟨hx, hqx, fun y hy => hbefore y (.inr hy)⟩
    · rw [List.takeWhile_cons_of_neg hqa]
      simp only [List.not_mem_nil, false_iff, List.mem_cons]
      rintro ⟨rfl | hx, hqx, hbefore⟩
      · exact hqa hqx
      · exact hqa (hbefore a (.inl rfl) (ha x hx))

/-- Replacing some elements by others of the same key moves keys about, but keeps them. -/
theorem map_filter_append_filterMap_perm {β κ : Type} {f : α → Option β} {g : α → κ} {h : β → κ}
    {l : List α} (hk : ∀ a ∈ l, ∀ b, f a = some b → h b = g a) :
    ((l.filter fun a => (f a).isNone).map g ++ (l.filterMap f).map h).Perm (l.map g) := by
  induction l with
  | nil => exact .refl _
  | cons a l ih =>
    have ih := ih fun b hb => hk b (.tail _ hb)
    cases hf : f a with
    | none =>
      rw [List.filter_cons_of_pos (by simp [hf]), List.filterMap_cons_none hf]
      exact ih.cons _
    | some b =>
      rw [List.filter_cons_of_neg (by simp [hf]), List.filterMap_cons_some hf, List.map_cons,
        List.map_cons, hk a (.head _) b hf]
      exact List.perm_middle.trans (ih.cons _)

/-- A sort by a total order on what each element carries leaves the list in that order. -/
theorem pairwise_sortBy {β : Type} {key : α → β} {r : β → β → Prop}
    [DecidableRel r] (total : ∀ p q, r p q ∨ r q p) (trans : ∀ {p q s}, r p q → r q s → r p s)
    (l : List α) :
    (l.insertionSort fun a b => r (key a) (key b)).Pairwise fun a b => r (key a) (key b) := by
  have : Std.Total fun a b : α => r (key a) (key b) := ⟨fun a b => total _ _⟩
  have : IsTrans α fun a b : α => r (key a) (key b) := ⟨fun a b c => trans⟩
  exact List.pairwise_insertionSort _ l

section Key

variable {β : Type} [PartialOrder β] {key : α → β} {l l' : List α}

/-- What is in the order of its keys has them in that order however it was arranged before. -/
theorem keys_eq_of_perm (h : l.Perm l') (hl : (l.map key).Pairwise (· ≤ ·))
    (hl' : (l'.map key).Pairwise (· ≤ ·)) : l.map key = l'.map key :=
  (h.map key).eq_of_pairwise (fun _ _ _ _ hab hba => le_antisymm hab hba) hl hl'

theorem eq_of_perm_of_keys (h : l.Perm l') (hl : (l.map key).Pairwise (· ≤ ·))
    (hl' : (l'.map key).Pairwise (· ≤ ·)) (hdistinct : (l.map key).Nodup) : l = l' := by
  refine h.eq_of_pairwise ?_ (List.pairwise_map.mp hl) (List.pairwise_map.mp hl')
  intro a b ha hb hab hba
  exact List.inj_on_of_nodup_map hdistinct ha (h.mem_iff.mpr hb) (le_antisymm hab hba)

end Key

end Sorted
end DriveSync
