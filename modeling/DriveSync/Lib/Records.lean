import DriveSync.Lib.Lines
import Mathlib.Data.List.Count
import Mathlib.Tactic.Common

/-!
# DriveSync.Lib.Records

Texts of records with a separator behind each; the last one may still lack its own.

* `breaks`: the separators between the records.
* `IsTail n`: the text of the last `n` records, which is one text only (`IsTail.unique`).
* `tail_flatten_iff`: texts are put together after each was cut to its tail. That gives the tail of
  the whole unless a text is glued to one that was cut (`Glued`).
* `cut_at_tailStart`: a text cut behind its last separator.
* `unlines_splitOn`, `splitOn_unlines`: a text whose records are all ended, and its records.
* `ended`: the records of any text that are ended; cutting off or ending the last one keeps them.
-/

namespace DriveSync
namespace Records

variable {α : Type} [DecidableEq α] (sep : α)

/-- The text without the separator that ends its last record. -/
def scan (xs : List α) : List α := if xs.getLast? = some sep then xs.dropLast else xs

def breaks (xs : List α) : Nat := (scan sep xs).count sep

/-- What is left of a text once all but its last `n` records are cut off. -/
def IsTail (n : Nat) (xs t : List α) : Prop :=
  (breaks sep xs < n ∧ t = xs) ∨
    ∃ front, xs = front ++ sep :: t ∧ t ≠ [] ∧ breaks sep t + 1 = n

/-- A text without a separator at its end stands before one that has its window to itself. -/
def Glued (n : Nat) (files : List (List α)) : Prop :=
  ∃ before file after c, files = before ++ file :: after ∧
    before.flatten.getLast? = some c ∧ c ≠ sep ∧ n ≤ breaks sep file ∧
    breaks sep (file ++ after.flatten) = breaks sep file

variable {sep} {n : Nat} {xs ys t t' front front' : List α}

@[simp] theorem scan_nil : scan sep [] = [] := rfl

theorem scan_append (hys : ys ≠ []) : scan sep (xs ++ ys) = xs ++ scan sep ys := by
  unfold scan
  rw [List.getLast?_append]
  have hlast : ys.getLast?.or xs.getLast? = ys.getLast? := by
    rw [List.getLast?_eq_some_getLast hys]
    rfl
  rw [hlast]
  split
  · rw [List.dropLast_append_of_ne_nil hys]
  · rfl

theorem breaks_append (hys : ys ≠ []) :
    breaks sep (xs ++ ys) = xs.count sep + breaks sep ys := by
  unfold breaks
  rw [scan_append hys, List.count_append]

theorem breaks_cut (ht : t ≠ []) :
    breaks sep (front ++ sep :: t) = front.count sep + 1 + breaks sep t := by
  have hcons : breaks sep (sep :: t) = 1 + breaks sep t := by
    rw [← List.singleton_append, breaks_append ht, List.count_singleton_self]
  rw [breaks_append (by simp), hcons, Nat.add_assoc]

theorem breaks_le_count (sep : α) (xs : List α) : breaks sep xs ≤ xs.count sep := by
  unfold breaks scan
  split
  · exact (List.dropLast_sublist xs).count_le sep
  · exact Nat.le_refl _

theorem breaks_le_append_left (sep : α) (xs ys : List α) : breaks sep xs ≤ breaks sep (xs ++ ys) := by
  by_cases hys : ys = []
  · rw [hys, List.append_nil]
  · rw [breaks_append hys]
    have := breaks_le_count sep xs
    omega

theorem breaks_le_append_right : breaks sep ys ≤ breaks sep (xs ++ ys) := by
  by_cases hys : ys = []
  · rw [hys]
    exact Nat.zero_le _
  · rw [breaks_append hys]
    omega

theorem breaks_le_of_mem (sep : α) {file : List α} {files : List (List α)} (h : file ∈ files) :
    breaks sep file ≤ breaks sep files.flatten := by
  obtain ⟨before, after, rfl⟩ := List.append_of_mem h
  rw [List.flatten_append, List.flatten_cons]
  exact Nat.le_trans (breaks_le_append_left sep _ _) breaks_le_append_right

theorem few_of_breaks {back : List α} {after : List (List α)}
    (h : breaks sep (back ++ after.flatten) + 1 = n) : ∀ file ∈ after, breaks sep file < n := by
  intro file hmem
  have hfile := breaks_le_of_mem sep hmem
  have hflat : breaks sep after.flatten ≤ breaks sep (back ++ after.flatten) :=
    breaks_le_append_right
  omega

/-! ## Tails -/

/-- Of two cuts of one text, the one that leaves more records stands earlier. -/
theorem cut_le (h : front ++ sep :: t = front' ++ sep :: t') (ht' : t' ≠ [])
    (hle : breaks sep t ≤ breaks sep t') : t = t' ∨ ∃ between, t' = between ++ sep :: t := by
  rcases List.append_eq_append_iff.mp h with ⟨s, -, hs⟩ | ⟨s, -, hs⟩
  · cases s with
    | nil =>
      left
      exact (List.cons.inj hs).2
    | cons c s =>
      have hcut : t = s ++ sep :: t' := (List.cons.inj hs).2
      rw [hcut, breaks_cut ht'] at hle
      omega
  · cases s with
    | nil =>
      left
      exact (List.cons.inj hs).2.symm
    | cons c s =>
      right
      exact ⟨s, (List.cons.inj hs).2⟩

theorem IsTail.unique (h : IsTail sep n xs t) (h' : IsTail sep n xs t') : t = t' := by
  rcases h with ⟨hn, rfl⟩ | ⟨front, rfl, ht, hn⟩
  · rcases h' with ⟨-, rfl⟩ | ⟨front', rfl, ht', hn'⟩
    · rfl
    · rw [breaks_cut ht'] at hn
      omega
  · rcases h' with ⟨hn', rfl⟩ | ⟨front', heq, ht', hn'⟩
    · rw [breaks_cut ht] at hn'
      omega
    · rcases cut_le heq ht' (by omega) with h | ⟨between, rfl⟩
      · exact h
      · rw [breaks_cut ht] at hn'
        omega

theorem IsTail.getLast? (h : IsTail sep n xs t) : t.getLast? = xs.getLast? := by
  rcases h with ⟨-, rfl⟩ | ⟨front, rfl, ht, -⟩
  · rfl
  · rw [List.getLast?_append_of_ne_nil _ (by simp), List.getLast?_cons_of_ne_nil ht]

/-- A tail that leaves more records than a cut keeps the cut. -/
theorem IsTail.keeps_cut (h : IsTail sep n (front ++ sep :: ys) t)
    (hys : ys ≠ [] → breaks sep ys + 1 < n) : ∃ between, t = between ++ sep :: ys := by
  rcases h with ⟨-, rfl⟩ | ⟨front', heq, ht, hn⟩
  · exact ⟨front, rfl⟩
  · by_cases hnil : ys = []
    · subst hnil
      have hlast : t.getLast? = some sep := by
        have := congrArg List.getLast? heq
        rw [List.getLast?_append_of_ne_nil _ (by simp), List.getLast?_append_of_ne_nil _ (by simp),
          List.getLast?_cons_of_ne_nil ht] at this
        exact this.symm
      obtain ⟨between, rfl⟩ := List.getLast?_eq_some_iff.mp hlast
      exact ⟨between, rfl⟩
    · have := hys hnil
      rcases cut_le heq ht (by omega) with rfl | h
      · omega
      · exact h

/-! ## Tails put together -/

section Windows

variable {files before after : List (List α)} {file : List α} {tail : List α → List α}
  (htail : ∀ xs, IsTail sep n xs (tail xs))

include htail

theorem getLast?_flatten_map_tail :
    (files.map tail).flatten.getLast? = files.flatten.getLast? := by
  induction files with
  | nil => rfl
  | cons file files ih =>
    rw [List.map_cons, List.flatten_cons, List.flatten_cons, List.getLast?_append,
      List.getLast?_append, ih, (htail file).getLast?]

theorem map_tail_of_few (h : ∀ file ∈ files, breaks sep file < n) : files.map tail = files := by
  induction files with
  | nil => rfl
  | cons file files ih =>
    have hfile : tail file = file := (htail file).unique (.inl ⟨h file (.head _), rfl⟩)
    rw [List.map_cons, hfile, ih fun f hf => h f (.tail _ hf)]

/-- The tail of a text that was cut where its own tail starts. -/
theorem tail_of_cut (front : List α) (h : front ++ sep :: t = xs) (ht : t ≠ [])
    (hn : breaks sep t + 1 = n) :
    tail xs = t := (htail xs).unique (.inr ⟨front, h.symm, ht, hn⟩)

/-- Where the tail of the whole starts in a file whose own tail starts earlier, or at its end. -/
theorem tail_of_keeps_cut {front back : List α} (hcut : back ++ after.flatten ≠ [])
    (hn : breaks sep (back ++ after.flatten) + 1 = n)
    (hback : back ≠ [] → breaks sep back + 1 < n)
    (hafter : ∀ f ∈ after, breaks sep f < n) :
    tail ((((before ++ (front ++ sep :: back) :: after).map tail)).flatten) =
      back ++ after.flatten := by
  obtain ⟨between, hbetween⟩ := (htail (front ++ sep :: back)).keeps_cut hback
  refine tail_of_cut htail ((before.map tail).flatten ++ between) ?_ hcut hn
  rw [List.map_append, List.map_cons, List.flatten_append, List.flatten_cons, hbetween,
    map_tail_of_few htail hafter]
  simp [List.append_assoc]

/-- Where it starts with the file's own tail, what stands before it decides. -/
theorem tail_of_own_tail {front back : List α} (hback : back ≠ [])
    (hn : breaks sep (back ++ after.flatten) + 1 = n) (hown : breaks sep back + 1 = n)
    (hafter : ∀ f ∈ after, breaks sep f < n) :
    tail ((((before ++ (front ++ sep :: back) :: after).map tail)).flatten) =
      back ++ after.flatten ↔
    ∀ c, before.flatten.getLast? = some c → c = sep := by
  have hflat : ((before ++ (front ++ sep :: back) :: after).map tail).flatten =
      (before.map tail).flatten ++ (back ++ after.flatten) := by
    rw [List.map_append, List.map_cons, List.flatten_append, List.flatten_cons,
      tail_of_cut htail front rfl hback hown, map_tail_of_few htail hafter]
  have hne : back ++ after.flatten ≠ [] := by simp [hback]
  rw [hflat, ← getLast?_flatten_map_tail htail]
  generalize (before.map tail).flatten = glued
  constructor
  · intro heq c hc
    rcases htail (glued ++ (back ++ after.flatten)) with ⟨-, hall⟩ | ⟨front', hsplit, -, -⟩
    · rw [heq] at hall
      have hnil : glued = [] := List.append_left_eq_self.mp hall.symm
      rw [hnil] at hc
      cases hc
    · rw [heq, List.append_cons] at hsplit
      obtain rfl := List.append_cancel_right hsplit
      rw [List.getLast?_concat] at hc
      exact (Option.some.inj hc).symm
  · intro hlast
    cases hglued : glued.getLast? with
    | none =>
      rw [List.getLast?_eq_none_iff.mp hglued, List.nil_append]
      exact (htail _).unique (.inl ⟨by omega, rfl⟩)
    | some c =>
      obtain rfl := hlast c hglued
      obtain ⟨front', rfl⟩ := List.getLast?_eq_some_iff.mp hglued
      exact tail_of_cut htail front' (by simp) hne hn

end Windows

omit [DecidableEq α] in
/-- A cut of texts put together is a cut of one of them. -/
theorem exists_file_of_cut {files : List (List α)} (h : files.flatten = front ++ sep :: t) :
    ∃ before fore back after, files = before ++ (fore ++ sep :: back) :: after ∧
      t = back ++ after.flatten := by
  induction files generalizing front with
  | nil => simp at h
  | cons file files ih =>
    rw [List.flatten_cons] at h
    rcases List.append_eq_append_iff.mp h with ⟨s, rfl, hs⟩ | ⟨s, hfile, hs⟩
    · obtain ⟨before, fore, back, after, rfl, ht⟩ := ih hs
      exact ⟨file :: before, fore, back, after, rfl, ht⟩
    · cases s with
      | nil =>
        obtain ⟨before, fore, back, after, rfl, ht⟩ := @ih [] hs.symm
        exact ⟨file :: before, fore, back, after, rfl, ht⟩
      | cons c s =>
        obtain ⟨rfl, ht⟩ := List.cons.inj hs
        exact ⟨[], front, s, files, by rw [hfile]; rfl, ht⟩

section Law

variable {files : List (List α)} {tail : List α → List α}
  (htail : ∀ xs, IsTail sep n xs (tail xs))

include htail

theorem tail_flatten_ne_of_glued (h : Glued sep n files) :
    tail (files.map tail).flatten ≠ tail files.flatten := by
  obtain ⟨before, file, after, c, rfl, hc, hne, hmany, hsame⟩ := h
  obtain ⟨front, back, rfl, hback, hown⟩ : ∃ front back, file = front ++ sep :: back ∧
      back ≠ [] ∧ breaks sep back + 1 = n := by
    rcases htail file with ⟨hfew, -⟩ | ⟨front, hfile, hback, hown⟩
    · omega
    · exact ⟨front, tail file, hfile, hback, hown⟩
  have hrest : back ++ after.flatten ≠ [] := by simp [hback]
  have hbreaks : breaks sep (back ++ after.flatten) + 1 = n := by
    rw [List.append_assoc, List.cons_append, breaks_cut hrest, breaks_cut hback] at hsame
    omega
  have hafter := few_of_breaks hbreaks
  have hwhole : tail (before ++ (front ++ sep :: back) :: after).flatten = back ++ after.flatten :=
    tail_of_cut htail (before.flatten ++ front) (by simp [List.append_assoc]) hrest hbreaks
  rw [hwhole, Ne, tail_of_own_tail htail hback hbreaks hown hafter]
  exact fun hlast => hne (hlast c hc)

theorem tail_flatten_of_not_glued (h : ¬ Glued sep n files) :
    tail (files.map tail).flatten = tail files.flatten := by
  rcases htail files.flatten with ⟨hfew, -⟩ | ⟨front, hcut, ht, hbreaks⟩
  · -- nothing is cut anywhere
    rw [map_tail_of_few htail fun file hmem => Nat.lt_of_le_of_lt (breaks_le_of_mem sep hmem) hfew]
  obtain ⟨before, fore, back, after, rfl, hrest⟩ := exists_file_of_cut hcut
  rw [hrest] at ht hbreaks ⊢
  have hafter := few_of_breaks hbreaks
  by_cases hown : back ≠ [] ∧ breaks sep back + 1 = n
  · obtain ⟨hback, hown⟩ := hown
    refine (tail_of_own_tail htail hback hbreaks hown hafter).mpr fun c hc => ?_
    by_contra hne
    refine h ⟨before, _, after, c, rfl, hc, hne, ?_, ?_⟩
    · rw [breaks_cut hback]
      omega
    · rw [List.append_assoc, List.cons_append, breaks_cut ht, breaks_cut hback]
      omega
  · refine tail_of_keeps_cut htail ht hbreaks (fun hback => ?_) hafter
    have := breaks_le_append_left sep back after.flatten
    have : breaks sep back + 1 ≠ n := fun h => hown ⟨hback, h⟩
    omega

/-- Tails put together have the tail of the whole, unless a text is glued to a cut one. -/
theorem tail_flatten_iff :
    tail (files.map tail).flatten = tail files.flatten ↔ ¬ Glued sep n files :=
  ⟨fun heq hglued => tail_flatten_ne_of_glued htail hglued heq, tail_flatten_of_not_glued htail⟩

end Law

/-! ## Ended records -/

omit [DecidableEq α] in
theorem unlines_eq_intercalate {lines : List (List α)} (h : lines ≠ []) :
    Lines.unlines sep lines = [sep].intercalate lines ++ [sep] := by
  induction lines with
  | nil => exact absurd rfl h
  | cons line lines ih =>
    cases lines with
    | nil => simp [Lines.unlines]
    | cons next lines =>
      rw [Lines.unlines, ih (by simp), List.intercalate_cons_cons]
      simp [List.append_assoc]

theorem unlines_splitOn (sep : α) (xs : List α) :
    Lines.unlines sep (xs.splitOn sep) = xs ++ [sep] := by
  rw [unlines_eq_intercalate (List.splitOn_ne_nil sep xs), List.intercalate_splitOn]

theorem splitOn_unlines {lines : List (List α)} (h : ∀ line ∈ lines, sep ∉ line)
    (hne : lines ≠ []) : (Lines.unlines sep lines).dropLast.splitOn sep = lines := by
  rw [unlines_eq_intercalate hne, List.dropLast_concat, List.splitOn_intercalate sep h hne]

theorem not_mem_of_mem_splitOn {line : List α} (h : line ∈ xs.splitOn sep) : sep ∉ line := by
  induction xs generalizing line with
  | nil =>
    rw [List.splitOn_nil] at h
    rw [List.mem_singleton.mp h]
    simp
  | cons x xs ih =>
    rw [List.splitOn_cons_eq_if_modifyHead] at h
    split at h
    · rcases List.mem_cons.mp h with rfl | h
      · simp
      · exact ih h
    · rename_i hx
      cases hsplit : xs.splitOn sep with
      | nil => exact absurd hsplit (List.splitOn_ne_nil sep xs)
      | cons first rest =>
        rw [hsplit, List.modifyHead_cons] at h
        rcases List.mem_cons.mp h with rfl | h
        · have hfirst := @ih first (by rw [hsplit]; exact .head _)
          have hne : sep ≠ x := fun heq => hx (by rw [heq]; exact beq_self_eq_true x)
          simp [hne, hfirst]
        · exact ih (by rw [hsplit]; exact .tail _ h)

/-- The records of a text that have their separator behind them. -/
def ended (sep : α) (xs : List α) : List (List α) := (xs.splitOn sep).dropLast

/-- A text whose records are all ended. -/
def AllEnded (sep : α) (xs : List α) : Prop := xs = [] ∨ xs.getLast? = some sep

theorem ended_append_fragment {fragment : List α} (h : AllEnded sep xs) (hf : sep ∉ fragment) :
    ended sep (xs ++ fragment) = ended sep xs := by
  unfold ended
  rcases h with rfl | h
  · rw [List.nil_append, List.splitOn_eq_singleton hf, List.splitOn_nil]
    rfl
  · obtain ⟨front, rfl⟩ := List.getLast?_eq_some_iff.mp h
    rw [List.append_assoc, List.singleton_append, List.splitOn_append_cons_self,
      List.splitOn_append_cons_self, List.splitOn_eq_singleton hf,
      List.splitOn_nil, List.dropLast_concat, List.dropLast_concat]

/-- Ending the last record adds it to those that are ended. -/
theorem ended_append_sep (sep : α) (xs : List α) : ended sep (xs ++ [sep]) = xs.splitOn sep := by
  unfold ended
  rw [List.splitOn_append_cons_self, List.splitOn_nil, List.dropLast_concat]

theorem ended_prefix (sep : α) (xs : List α) : ended sep xs <+: ended sep (xs ++ [sep]) := by
  rw [ended_append_sep]
  exact List.dropLast_prefix _

/-! ## The last separator -/

/-- Where the last element with a property stands. -/
def rposition (p : α → Bool) : List α → Option Nat
  | [] => none
  | x :: xs =>
    match rposition p xs with
    | some at_ => some (at_ + 1)
    | none => if p x then some 0 else none

/-- Where what stands behind the last separator starts. -/
def tailStart (sep : α) (xs : List α) : Nat :=
  match rposition (fun x => x == sep) xs with
  | some at_ => at_ + 1
  | none => 0

theorem rposition_eq_none (h : rposition (fun x => x == sep) xs = none) : sep ∉ xs := by
  induction xs with
  | nil => simp
  | cons x xs ih =>
    unfold rposition at h
    cases hxs : rposition (fun x => x == sep) xs with
    | some at_ =>
      rw [hxs] at h
      cases h
    | none =>
      rw [hxs] at h
      dsimp only at h
      split at h
      · cases h
      · rename_i hx
        have hne : sep ≠ x := fun heq => hx (by rw [heq]; exact beq_self_eq_true x)
        simp [hne, ih hxs]

theorem rposition_eq_some {at_ : Nat} (h : rposition (fun x => x == sep) xs = some at_) :
    ∃ front back, xs = front ++ sep :: back ∧ front.length = at_ ∧ sep ∉ back := by
  induction xs generalizing at_ with
  | nil => cases h
  | cons x xs ih =>
    unfold rposition at h
    cases hxs : rposition (fun x => x == sep) xs with
    | some before =>
      rw [hxs] at h
      obtain rfl := Option.some.inj h
      obtain ⟨front, back, rfl, rfl, hback⟩ := ih hxs
      exact ⟨x :: front, back, rfl, rfl, hback⟩
    | none =>
      rw [hxs] at h
      dsimp only at h
      split at h
      · rename_i hx
        obtain rfl := Option.some.inj h
        obtain rfl := beq_iff_eq.mp hx
        exact ⟨[], xs, rfl, rfl, rposition_eq_none hxs⟩
      · cases h

theorem cut_at_tailStart (sep : α) (xs : List α) :
    AllEnded sep (xs.take (tailStart sep xs)) ∧ sep ∉ xs.drop (tailStart sep xs) := by
  unfold tailStart
  cases h : rposition (fun x => x == sep) xs with
  | none => exact ⟨.inl rfl, rposition_eq_none h⟩
  | some at_ =>
    obtain ⟨front, back, rfl, rfl, hback⟩ := rposition_eq_some h
    have hsplit : front ++ sep :: back = (front ++ [sep]) ++ back := by simp
    have hlen : front.length + 1 = (front ++ [sep]).length := by simp
    dsimp only
    rw [hsplit, hlen, List.take_left, List.drop_left]
    exact ⟨.inr List.getLast?_concat, hback⟩

end Records
end DriveSync
