import DriveSync.Lib.Topmost
import DriveSync.Plan.Build
import DriveSync.Small

/-!
# DriveSync.Plan.Refused

Which refused paths a plan names. Every refused path lies at or beneath a named one; the named ones
are the topmost ones unless a refused sibling sorts between a refused folder and what it holds.
-/

namespace DriveSync

open Path
open Topmost (scan Nesting Parted covers_scan mem_of_mem_scan bad_of_mem_scan antichain_scan_iff)

/-- The destination has no path for it. -/
def Refused (root : RemoteRoot) (relative : RelPath) : Prop := (root.join relative).isOk = false

instance (root : RemoteRoot) (relative : RelPath) : Decidable (Refused root relative) :=
  inferInstanceAs (Decidable (_ = _))

/-- The folders a path lies in. -/
def Above (a p : RelPath) : Prop := a ∈ p.ancestors

instance (a p : RelPath) : Decidable (Above a p) := inferInstanceAs (Decidable (_ ∈ _))

theorem above_nesting : Nesting Above where
  lt := lt_of_mem_ancestors
  trans := mem_ancestors_trans
  comparable := by
    intro a b c ha hb
    rcases atOrUnder_total (.inr ha) (.inr hb) with (h | h) | (h | h)
    · exact .inl h.symm
    · exact .inr (.inl h)
    · exact .inl h
    · exact .inr (.inr h)

/-- The loop reads the keys for their topmost refused paths. -/
theorem map_refuse (root : RemoteRoot) (refused : List SkippedEntry) (relative : RelPath) :
    (refuse root refused relative).map (·.relative) =
      Topmost.step Above (Refused root) (refused.map (·.relative)) relative := by
  have hlast : refused.getLast?.any (fun parent => decide (parent.relative ∈ relative.ancestors)) =
      (refused.map (·.relative)).getLast?.any fun last => decide (Above last relative) := by
    rw [List.getLast?_map, Option.any_map]
    rfl
  rw [refuse, Topmost.step, hlast]
  split
  · rfl
  · cases hjoin : root.join relative with
    | ok joined => rw [if_neg (by simp [Refused, hjoin, Except.isOk, Except.toBool])]
    | error e =>
      rw [if_pos (by simp [Refused, hjoin, Except.isOk, Except.toBool])]
      simp

theorem map_pathsTheDestinationRefuses (root : RemoteRoot) (L : LocalInventory) :
    (pathsTheDestinationRefuses root L).map (·.relative) =
      scan Above (Refused root) L.entries.keys := by
  have hfold : ∀ (keys : List RelPath) (refused : List SkippedEntry),
      (keys.foldl (refuse root) refused).map (·.relative) =
        keys.foldl (Topmost.step Above (Refused root)) (refused.map (·.relative)) := by
    intro keys
    induction keys with
    | nil => intro refused; rfl
    | cons k keys ih => intro refused; rw [List.foldl_cons, List.foldl_cons, ih, map_refuse]
  exact hfold L.entries.keys []

/-- What a plan names of the refused paths covers exactly what is refused, with its subtrees, and
names nothing beneath something it names. -/
structure ReportsTopmost (root : RemoteRoot) (L : LocalInventory) : Prop where
  covers : ∀ p ∈ L.entries.keys,
    (∃ skip ∈ pathsTheDestinationRefuses root L, AtOrUnder skip.relative p) ↔
      Refused root p ∨ ∃ a ∈ p.ancestors, a ∈ L.entries.keys ∧ Refused root a
  topmost : ∀ upper ∈ pathsTheDestinationRefuses root L,
    ∀ lower ∈ pathsTheDestinationRefuses root L, upper.relative ∉ lower.relative.ancestors

theorem exists_skip_iff {root : RemoteRoot} {L : LocalInventory} {P : RelPath → Prop} :
    (∃ skip ∈ pathsTheDestinationRefuses root L, P skip.relative) ↔
      ∃ k ∈ scan Above (Refused root) L.entries.keys, P k := by
  rw [← map_pathsTheDestinationRefuses]
  simp

theorem covers_refused (root : RemoteRoot) (L : LocalInventory) {p : RelPath}
    (hp : p ∈ L.entries.keys) :
    (∃ skip ∈ pathsTheDestinationRefuses root L, AtOrUnder skip.relative p) ↔
      Refused root p ∨ ∃ a ∈ p.ancestors, a ∈ L.entries.keys ∧ Refused root a := by
  rw [exists_skip_iff (P := fun k => AtOrUnder k p)]
  constructor
  · rintro ⟨k, hk, rfl | hbeneath⟩
    · exact .inl (bad_of_mem_scan hk)
    · exact .inr ⟨k, hbeneath, mem_of_mem_scan hk, bad_of_mem_scan hk⟩
  · have hcover : ∀ q ∈ L.entries.keys, Refused root q → AtOrUnder q p →
        ∃ k ∈ scan Above (Refused root) L.entries.keys, AtOrUnder k p := by
      intro q hq hrefused hqp
      obtain ⟨k, hk, hkq, _⟩ : ∃ k ∈ scan Above (Refused root) L.entries.keys,
          (k = q ∨ Above k q) ∧ ∀ j ∈ scan Above (Refused root) L.entries.keys, j ≤ q → j ≤ k :=
        covers_scan L.entries.pairwise_keys hq hrefused
      refine ⟨k, hk, AtOrUnder.trans ?_ hqp⟩
      rcases hkq with rfl | h
      · exact atOrUnder_refl k
      · exact .inr h
    rintro (hrefused | ⟨a, ha, hkey, hrefused⟩)
    · exact hcover p hp hrefused (atOrUnder_refl p)
    · exact hcover a hkey hrefused (.inr ha)

/-- The report is the topmost refused paths but where a refused path sorts between a topmost one and
a refused path beneath it. -/
theorem reportsTopmost_iff (root : RemoteRoot) (L : LocalInventory) :
    ReportsTopmost root L ↔
      ¬∃ top between under, Parted Above (Refused root) L.entries.keys top between under := by
  rw [← antichain_scan_iff above_nesting L.entries.pairwise_keys]
  have htopmost : (∀ upper ∈ pathsTheDestinationRefuses root L,
      ∀ lower ∈ pathsTheDestinationRefuses root L, upper.relative ∉ lower.relative.ancestors) ↔
        Topmost.Antichain Above (scan Above (Refused root) L.entries.keys) := by
    rw [← map_pathsTheDestinationRefuses]
    simp [Topmost.Antichain, Above]
  rw [← htopmost]
  constructor
  · exact ReportsTopmost.topmost
  · intro h
    exact ⟨fun p hp => covers_refused root L hp, h⟩

/-! ## A long sibling beside a long folder

The source holds a folder with a name of 244 letters, a file in it, and a file whose name is the
folder's and a hyphen. Each path is short enough by itself, and too long below the destination. -/

namespace Long

open Small

/-- A name that starts with `n` letters. -/
def letters (n : Nat) (tail : Name) : Name :=
  ⟨List.replicate n 'a' ++ tail.1, by simp [tail.2.1], by
    rw [List.mem_append, not_or]
    exact ⟨fun h => absurd (List.eq_of_mem_replicate h) (by decide), tail.2.2⟩⟩

def folder : RelPath := path [letters 243 (name 'a')]

def sibling : RelPath := path [letters 244 (name '-')]

def inside : RelPath := .child folder (name 'c')

def source : LocalInventory :=
  locals [localFolder folder, localFile sibling 1, localFile inside 1]

/-- The folder is named, and the file in it is named again. -/
theorem not_reportsTopmost :
    source.entries.ParentClosed LocalEntry.kind ∧ ¬ReportsTopmost root source := by
  refine ⟨by decide +kernel, fun h => ?_⟩
  have hreport : (pathsTheDestinationRefuses root source).map (·.relative) =
      [folder, sibling, inside] := by decide +kernel
  obtain ⟨upper, hupper, hfolder⟩ : ∃ skip ∈ pathsTheDestinationRefuses root source,
      skip.relative = folder := by
    rw [← List.mem_map, hreport]
    simp
  obtain ⟨lower, hlower, hinside⟩ : ∃ skip ∈ pathsTheDestinationRefuses root source,
      skip.relative = inside := by
    rw [← List.mem_map, hreport]
    simp
  refine h.topmost upper hupper lower hlower ?_
  rw [hfolder, hinside]
  exact mem_ancestors_child.mpr ⟨by decide, atOrUnder_refl _⟩

end Long
end DriveSync
