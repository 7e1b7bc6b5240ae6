import Mathlib.Data.List.Induction

/-!
# DriveSync.Lib.History

Properties of a history: of each entry of a list, given all the entries before it.

* `EachAfter`: every entry has the property, of what went before it.
* `EachAfter.append`: a history that goes on.
* `EachAfter.exists_of_mem`: an entry of a part of it.
* `since`: what followed the last entry of a kind. `mem_since` says where its entries stand.
-/

namespace DriveSync

variable {α : Type} {P Q : List α → α → Prop} {log new : List α} {e : α}

/-- Every entry of a list has a property of the entries before it and itself. -/
def EachAfter (P : List α → α → Prop) (log : List α) : Prop :=
  ∀ before e after, log = before ++ e :: after → P before e

theorem eachAfter_nil : EachAfter P [] := by
  intro before e after h
  simp at h

/-- A history goes on: what is added has the property, given all that was there. -/
theorem EachAfter.append (h : EachAfter P log)
    (hnew : EachAfter (fun before e => P (log ++ before) e) new) : EachAfter P (log ++ new) := by
  intro before e after hlog
  rcases List.append_eq_append_iff.mp hlog with ⟨front, rfl, hrest⟩ | ⟨front, hbefore, hrest⟩
  · exact hnew front e after hrest
  · cases front with
    | nil =>
      rw [List.append_nil] at hbefore
      subst hbefore
      have hhere : P (log ++ []) e := hnew [] e after hrest.symm
      rwa [List.append_nil] at hhere
    | cons e' front =>
      obtain ⟨rfl, _⟩ := List.cons.inj hrest
      exact h before e front hbefore

theorem eachAfter_singleton (h : P [] e) : EachAfter P [e] := by
  intro before e' after hsplit
  cases before with
  | nil =>
    obtain ⟨rfl, _⟩ := List.cons.inj hsplit
    exact h
  | cons e'' before => simp at hsplit

/-- One more entry. -/
theorem EachAfter.push (h : EachAfter P log) (he : P log e) : EachAfter P (log ++ [e]) :=
  h.append (eachAfter_singleton (by rwa [List.append_nil]))

/-- What holds of an entry whatever was before it. -/
theorem eachAfter_of_forall (h : ∀ e ∈ log, ∀ before, P before e) : EachAfter P log := by
  intro before e after hlog
  exact h e (by rw [hlog]; simp) before

theorem EachAfter.mono (h : EachAfter P log) (hPQ : ∀ before e, P before e → Q before e) :
    EachAfter Q log :=
  fun before e after hlog => hPQ before e (h before e after hlog)

/-- An entry of a part of a history has the property, of what went before the part and of some of
it. -/
theorem EachAfter.exists_of_mem (h : EachAfter P log) {front : List α}
    (hfront : front ++ new <+: log) (he : e ∈ new) :
    ∃ mid, mid ⊆ new ∧ P (front ++ mid) e := by
  obtain ⟨rest, rfl⟩ := hfront
  obtain ⟨mid, after, rfl⟩ := List.append_of_mem he
  exact ⟨mid, List.subset_append_left _ _, h (front ++ mid) e (after ++ rest) (by simp)⟩

/-! ## Since the last of a kind -/

/-- The entries after the last one of a kind, or all of them. -/
def since (p : α → Bool) (log : List α) : List α := (log.reverse.takeWhile fun e => !p e).reverse

variable {p : α → Bool}

@[simp] theorem since_nil : since p ([] : List α) = [] := rfl

@[simp] theorem since_push :
    since p (log ++ [e]) = if p e = true then [] else since p log ++ [e] := by
  unfold since
  rw [List.reverse_append, List.reverse_singleton, List.singleton_append]
  cases h : p e <;> simp [h]

theorem since_append (h : ∀ e ∈ new, p e = false) : since p (log ++ new) = since p log ++ new := by
  induction new using List.reverseRecOn with
  | nil => simp
  | append_singleton new e ih =>
    rw [← List.append_assoc, since_push, h e (by simp),
      ih fun e he => h e (List.mem_append_left _ he)]
    simp

theorem mem_since : e ∈ since p log ↔
    ∃ before after, log = before ++ e :: after ∧ p e = false ∧ ∀ x ∈ after, p x = false := by
  induction log using List.reverseRecOn with
  | nil => simp
  | append_singleton log last ih =>
    rw [since_push]
    constructor
    · intro h
      split at h
      · cases h
      rename_i hlast
      rw [Bool.not_eq_true] at hlast
      rcases List.mem_append.mp h with h | h
      · obtain ⟨before, after, rfl, he, hafter⟩ := ih.mp h
        exact ⟨before, after ++ [last], by simp, he,
          List.forall_mem_append.mpr ⟨hafter, by simpa using hlast⟩⟩
      · obtain rfl := List.mem_singleton.mp h
        exact ⟨log, [], rfl, hlast, by simp⟩
    · rintro ⟨before, after, hlog, he, hafter⟩
      rcases List.eq_nil_or_concat after with rfl | ⟨after, last', rfl⟩
      · obtain ⟨_, hlast⟩ := List.append_inj' hlog rfl
        rw [List.singleton_inj.mp hlast, he]
        simp
      · rw [List.concat_eq_append, ← List.cons_append, ← List.append_assoc] at hlog
        obtain ⟨rfl, hlast⟩ := List.append_inj' hlog rfl
        obtain rfl := List.singleton_inj.mp hlast
        rw [List.concat_eq_append] at hafter
        obtain ⟨hafter, hlast⟩ := List.forall_mem_append.mp hafter
        rw [hlast last (.head _)]
        exact List.mem_append_left _ (ih.mpr ⟨before, after, rfl, he, hafter⟩)

end DriveSync
