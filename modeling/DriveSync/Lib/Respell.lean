import Mathlib.Data.List.Nodup
import DriveSync.Lib.Loop
import DriveSync.Lib.Path

/-!
# DriveSync.Lib.Respell

A script of renames on a tree, given as the list of its paths. One rename gives an entry a new last
name, and takes what lies beneath the entry with it.

* `Runs`: each rename finds its source, finds its target free, and moves nothing else.
* `Script`: renames ordered deepest first, of different entries, to different places.
* `foldl_move`: such a script spells every renamed component anew, whatever else is renamed.
* `runs_iff`: it runs exactly when its sources are in the tree it starts on and its targets are not.
-/

namespace DriveSync
namespace Path

variable {α : Type}

/-- Every component spelled the way `m` says, where it says one. -/
def respell (m : Path α → Option α) : Path α → Path α
  | root => root
  | child p n => child (respell m p) ((m (child p n)).getD n)

/-- Where a rename puts its source. -/
def target (r : Path α × α) : Path α := child r.1.parent r.2

@[simp] theorem respell_root (m : Path α → Option α) : respell m root = root := rfl

@[simp] theorem respell_child (m : Path α → Option α) (p : Path α) (n : α) :
    respell m (child p n) = child (respell m p) ((m (child p n)).getD n) := rfl

@[simp] theorem depth_respell (m : Path α → Option α) (p : Path α) :
    (respell m p).depth = p.depth := by
  induction p with
  | root => rfl
  | child p n ih => simp [ih]

/-- Nothing is respelled above the first prefix that has a new name. -/
theorem respell_eq_self {m : Path α → Option α} {p : Path α}
    (h : ∀ a, a.depth ≤ p.depth → m a = none) : respell m p = p := by
  induction p with
  | root => rfl
  | child p n ih =>
    rw [respell_child, h _ (Nat.le_refl _), Option.getD_none,
      ih fun a ha => h a (Nat.le_succ_of_le ha)]

theorem respell_congr {m m' : Path α → Option α} {p : Path α}
    (h : ∀ a, AtOrUnder a p → m a = m' a) : respell m p = respell m' p := by
  induction p with
  | root => rfl
  | child p n ih =>
    have hp : respell m p = respell m' p := by
      by_cases hroot : p = root
      · rw [hroot]; rfl
      · exact ih fun a ha => h a (.inr (mem_ancestors_child.mpr ⟨hroot, ha⟩))
    rw [respell_child, respell_child, hp, h _ (.inl rfl)]

/-- Renames in an order in which a folder is renamed after what it holds. -/
structure Script (script : List (Path α × α)) : Prop where
  deepestFirst : script.Pairwise fun a b => b.1.depth ≤ a.1.depth
  sources : (script.map (·.1)).Nodup
  targets : (script.map target).Nodup
  apart : ∀ a ∈ script, ∀ b ∈ script, target a ≠ b.1
  proper : ∀ a ∈ script, a.1 ≠ root

theorem Script.depth_le_done {script done rest : List (Path α × α)} {r : Path α × α}
    (hscript : Script script) (hsplit : script = done ++ r :: rest) {a : Path α × α}
    (ha : a ∈ done) : r.1.depth ≤ a.1.depth := by
  have h := hscript.deepestFirst
  rw [hsplit, List.pairwise_append] at h
  exact h.2.2 a ha r (.head _)

variable [DecidableEq α]

/-- What lies at or beneath `f` taken to `t`. -/
def move (f t : Path α) : Path α → Path α
  | root => if root = f then t else root
  | child p n => if child p n = f then t else child (move f t p) n

theorem move_of_not_atOrUnder {f t p : Path α} (hf : f ≠ root) (h : ¬AtOrUnder f p) :
    move f t p = p := by
  induction p with
  | root => exact if_neg (Ne.symm hf)
  | child p n ih =>
    rw [move, if_neg fun heq => h (.inl heq)]
    by_cases hp : p = root
    · rw [hp, move, if_neg (Ne.symm hf)]
    · rw [ih fun hp' => h (.inr (mem_ancestors_child.mpr ⟨hp, hp'⟩))]

/-- Each rename finds its source in the tree and its target free, and leaves every path outside its
source as it is. -/
inductive Runs : List (Path α) → List (Path α × α) → Prop
  | done {tree : List (Path α)} : Runs tree []
  | step {tree : List (Path α)} {r : Path α × α} {rest : List (Path α × α)}
      (source : r.1 ∈ tree) (free : target r ∉ tree)
      (frame : ∀ p ∈ tree, ¬AtOrUnder r.1 p → move r.1 (target r) p = p)
      (after : Runs (tree.map (move r.1 (target r))) rest) : Runs tree (r :: rest)

/-- The new names a script gives. -/
def newNames (script : List (Path α × α)) (p : Path α) : Option α :=
  (script.find? fun r => decide (r.1 = p)).map (·.2)

theorem mem_of_newNames {script : List (Path α × α)} {p : Path α} {n : α}
    (h : newNames script p = some n) : (p, n) ∈ script := by
  obtain ⟨r, hr, rfl⟩ := Option.map_eq_some_iff.mp h
  have hp := List.find?_some hr
  rw [decide_eq_true_eq] at hp
  exact hp ▸ List.mem_of_find?_eq_some hr

theorem newNames_eq_none {script : List (Path α × α)} {p : Path α} :
    newNames script p = none ↔ ∀ r ∈ script, r.1 ≠ p := by
  rw [newNames, Option.map_eq_none_iff, List.find?_eq_none]
  simp only [decide_eq_true_eq]

theorem newNames_append {done : List (Path α × α)} {r : Path α × α} (p : Path α) :
    newNames (done ++ [r]) p = (newNames done p).or (if r.1 = p then some r.2 else none) := by
  rw [newNames, newNames, List.find?_append, Option.map_or]
  congr 1
  by_cases h : r.1 = p <;> simp [h]

section Step

variable {script done rest : List (Path α × α)} {r : Path α × α}

omit [DecidableEq α] in
theorem mem_done (hsplit : script = done ++ r :: rest) {a : Path α × α} (ha : a ∈ done) :
    a ∈ script := by
  rw [hsplit]; exact List.mem_append_left _ ha

omit [DecidableEq α] in
theorem mem_next (hsplit : script = done ++ r :: rest) : r ∈ script := by rw [hsplit]; simp

variable (hscript : Script script) (hsplit : script = done ++ r :: rest)

include hscript hsplit

/-- Above the next source nothing has been renamed. -/
theorem Script.respell_above {p : Path α} (hp : p.depth < r.1.depth) :
    respell (newNames done) p = p := by
  refine respell_eq_self fun a ha => newNames_eq_none.mpr ?_
  rintro b hb rfl
  have := hscript.depth_le_done hsplit hb
  omega

theorem Script.not_mem_done : newNames done r.1 = none := by
  refine newNames_eq_none.mpr fun b hb heq => ?_
  have h := hscript.sources
  rw [hsplit, List.map_append, List.nodup_append] at h
  exact h.2.2 b.1 (List.mem_map_of_mem hb) r.1 (by simp) heq

/-- What lies beside the next source has it as its name only if it is the source. -/
theorem Script.respell_eq_source {p : Path α} : respell (newNames done) p = r.1 ↔ p = r.1 := by
  constructor
  · intro h
    have hdepth := congrArg depth h
    rw [depth_respell] at hdepth
    cases p with
    | root => exact h
    | child q n =>
      rw [respell_child, hscript.respell_above hsplit (by rw [← hdepth]; simp)] at h
      cases hn : newNames done (child q n) with
      | none => rw [hn] at h; exact h
      | some n' =>
        -- an earlier rename would have ended where the next one starts
        rw [hn] at h
        have hmem := mem_done hsplit (mem_of_newNames hn)
        exact absurd h (hscript.apart _ hmem _ (mem_next hsplit))
  · rintro rfl
    cases hr : r.1 with
    | root => rfl
    | child q n =>
      rw [respell_child, ← hr, hscript.not_mem_done hsplit,
        hscript.respell_above hsplit (by rw [hr]; simp)]
      rw [hr, Option.getD_none]

/-- One more rename spells one more component anew. -/
theorem Script.move_respell (p : Path α) : move r.1 (target r) (respell (newNames done) p) =
    respell (newNames (done ++ [r])) p := by
  induction p with
  | root => exact if_neg (Ne.symm (hscript.proper r (mem_next hsplit)))
  | child q n ih =>
    by_cases hp : child q n = r.1
    · have hq : q.depth < r.1.depth := by rw [← hp]; simp
      rw [(hscript.respell_eq_source hsplit).mpr hp, respell_child, newNames_append, if_pos hp.symm,
        hp, hscript.not_mem_done hsplit, Option.none_or, Option.getD_some]
      have habove : respell (newNames (done ++ [r])) q = q := by
        have hsame : respell (newNames (done ++ [r])) q = respell (newNames done) q := by
          refine respell_congr fun a ha => ?_
          have hne : r.1 ≠ a := by
            rintro rfl
            have := depth_le_of_atOrUnder ha
            omega
          rw [newNames_append, if_neg hne, Option.or_none]
        rw [hsame, hscript.respell_above hsplit hq]
      have hself : move r.1 (target r) r.1 = target r := by
        cases hr : r.1 with
        | root => exact if_pos rfl
        | child _ _ => exact if_pos rfl
      rw [hself, habove, target, ← hp, parent_child]
    · have hne := mt (hscript.respell_eq_source hsplit).mp hp
      rw [respell_child] at hne ⊢
      rw [move, if_neg hne, ih, respell_child, newNames_append, if_neg (Ne.symm hp), Option.or_none]

/-- The next target is free exactly if it was at the start. -/
theorem Script.target_mem_iff {tree : List (Path α)} :
    target r ∈ tree.map (respell (newNames done)) ↔ target r ∈ tree := by
  have hdepth : r.1.parent.depth < r.1.depth := by
    cases hr : r.1 with
    | root => exact absurd hr (hscript.proper r (mem_next hsplit))
    | child q n => simp
  constructor
  · intro h
    obtain ⟨p, hp, heq⟩ := List.mem_map.mp h
    cases p with
    | root => cases heq
    | child q n =>
      obtain ⟨hq, hn⟩ := child.inj heq
      have hqdepth := congrArg depth hq
      rw [depth_respell] at hqdepth
      rw [hscript.respell_above hsplit (by omega)] at hq
      cases hnew : newNames done (child q n) with
      | none =>
        rw [hnew, Option.getD_none] at hn
        rwa [hq, hn] at hp
      | some n' =>
        -- an earlier rename would have gone to the same place
        rw [hnew, Option.getD_some] at hn
        have hmem := mem_of_newNames hnew
        have h := hscript.targets
        rw [hsplit, List.map_append, List.nodup_append] at h
        refine absurd ?_ (h.2.2 _ (List.mem_map_of_mem hmem) (target r) (by simp))
        rw [target, target, parent_child, hq, hn]
  · intro h
    refine List.mem_map.mpr ⟨target r, h, ?_⟩
    rw [target, respell_child, hscript.respell_above hsplit hdepth]
    have hnone : newNames done (child r.1.parent r.2) = none := by
      refine newNames_eq_none.mpr fun b hb heq => ?_
      exact hscript.apart r (mem_next hsplit) b (mem_done hsplit hb) heq.symm
    rw [hnone, Option.getD_none]

end Step

/-- A script spells every component it renames anew. -/
theorem Script.foldl_move {script : List (Path α × α)} (hscript : Script script) (p : Path α) :
    script.foldl (fun q r => move r.1 (target r) q) p = respell (newNames script) p := by
  refine Loop.foldl_done (I := fun done q => q = respell (newNames done) p) script ?_ ?_
  · exact (respell_eq_self fun a _ => newNames_eq_none.mpr (by simp)).symm
  · rintro done r rest q hsplit rfl
    exact hscript.move_respell hsplit p

/-- A script runs exactly when the tree holds its sources and none of its targets. -/
theorem Script.runs_iff {script : List (Path α × α)} (hscript : Script script)
    {tree : List (Path α)} :
    Runs tree script ↔ ∀ r ∈ script, r.1 ∈ tree ∧ target r ∉ tree := by
  suffices h : ∀ rest done, script = done ++ rest →
      (Runs (tree.map (respell (newNames done))) rest ↔
        ∀ r ∈ rest, r.1 ∈ tree ∧ target r ∉ tree) by
    have hself : tree.map (respell (newNames ([] : List (Path α × α)))) = tree := by
      refine (List.map_congr_left fun p _ => ?_).trans (List.map_id tree)
      exact respell_eq_self fun a _ => newNames_eq_none.mpr (by simp)
    have := h script [] rfl
    rwa [hself] at this
  intro rest
  induction rest with
  | nil => exact fun _ _ => ⟨fun _ => by simp, fun _ => .done⟩
  | cons r rest ih =>
    intro done hsplit
    have ih := ih (done ++ [r]) (by rw [hsplit, List.append_assoc]; rfl)
    have hsource : r.1 ∈ tree.map (respell (newNames done)) ↔ r.1 ∈ tree := by
      simp only [List.mem_map, hscript.respell_eq_source hsplit, exists_eq_right]
    have hafter : (tree.map (respell (newNames done))).map (move r.1 (target r)) =
        tree.map (respell (newNames (done ++ [r]))) := by
      rw [List.map_map]
      exact List.map_congr_left fun p _ => hscript.move_respell hsplit p
    rw [List.forall_mem_cons, ← ih, ← hafter]
    constructor
    · rintro (_ | ⟨source, free, _, after⟩)
      exact ⟨⟨hsource.mp source, mt (hscript.target_mem_iff hsplit).mpr free⟩, after⟩
    · rintro ⟨⟨source, free⟩, after⟩
      refine .step (hsource.mpr source) (mt (hscript.target_mem_iff hsplit).mp free) ?_ after
      intro p _ hp
      exact move_of_not_atOrUnder (hscript.proper r (mem_next hsplit)) hp

end Path
end DriveSync
