import DriveSync.Path

/-!
# DriveSync.Inventory

The entries one walk found, keyed by relative path. Each entry carries its own path, and the map
holds it under that path (`keyed`); no walk records the tree's root as an entry of itself.

* `values`: the entries in key order, every folder before what it holds.
* `subtree`: an entry and everything beneath it, as the planner's range query reads it.
* `ParentClosed`: every folder on the way to an entry is an entry too, and is a directory.
-/

namespace DriveSync

inductive EntryKind where
  | file
  | directory
deriving DecidableEq, Repr

/-- A map of entries by the path each of them carries. -/
structure EntryMap (ε : Type) (relative : ε → RelPath) where
  map : Std.TreeMap RelPath ε
  keyed : ∀ k e, map[k]? = some e → relative e = k ∧ k ≠ .root

namespace EntryMap

variable {ε : Type} {relative : ε → RelPath}

def get? (m : EntryMap ε relative) (k : RelPath) : Option ε := m.map[k]?

def contains (m : EntryMap ε relative) (k : RelPath) : Bool := (m.get? k).isSome

/-- The entries in key order. -/
def values (m : EntryMap ε relative) : List ε := m.map.toList.map (·.2)

def keys (m : EntryMap ε relative) : List RelPath := m.values.map relative

/-- An entry, then everything beneath it. -/
def subtree (m : EntryMap ε relative) (p : RelPath) : List ε :=
  (m.get? p).toList ++ (Path.rangeBeneath m.map p).map (·.2)

/-- Whether anything lies beneath a path: the first key read from `p/` on starts with it. -/
def hasDescendants (m : EntryMap ε relative) (p : RelPath) : Bool :=
  !(Path.rangeBeneath m.map p).isEmpty

def empty : EntryMap ε relative := ⟨∅, by simp⟩

/-- The map with one entry put under its own path. The root holds no entry. -/
def insert (m : EntryMap ε relative) (e : ε) : EntryMap ε relative :=
  if h : relative e = .root then m else
    ⟨m.map.insert (relative e) e, by
      intro k e' hk
      rw [Std.TreeMap.getElem?_insert] at hk
      split at hk
      · rename_i hcmp
        cases hk
        have := Std.LawfulEqCmp.eq_of_compare hcmp
        exact ⟨this, this ▸ h⟩
      · exact m.keyed k e' hk⟩

def erase (m : EntryMap ε relative) (k : RelPath) : EntryMap ε relative :=
  ⟨m.map.erase k, by
    intro k' e hk
    rw [Std.TreeMap.getElem?_erase] at hk
    split at hk
    · cases hk
    · exact m.keyed k' e hk⟩

def ofList (l : List ε) : EntryMap ε relative := l.foldl insert empty

/-- Every folder on the way to an entry is an entry, and a directory. -/
def ParentClosed (kind : ε → EntryKind) (m : EntryMap ε relative) : Prop :=
  ∀ e ∈ m.values, ∀ a ∈ (relative e).ancestors, ∃ d, m.get? a = some d ∧ kind d = .directory

instance (kind : ε → EntryKind) (m : EntryMap ε relative) : Decidable (m.ParentClosed kind) :=
  decidable_of_iff (∀ e ∈ m.values, ∀ a ∈ (relative e).ancestors,
      (m.get? a).any (fun d => decide (kind d = .directory)) = true) (by
    simp only [ParentClosed, Option.any_eq_true, decide_eq_true_eq])

theorem mem_values {m : EntryMap ε relative} {e : ε} :
    e ∈ m.values ↔ m.get? (relative e) = some e := by
  simp only [values, List.mem_map, Prod.exists, exists_eq_right, get?,
    Std.TreeMap.mem_toList_iff_getElem?_eq_some]
  constructor
  · rintro ⟨k, hk⟩
    rw [(m.keyed k e hk).1]; exact hk
  · intro h; exact ⟨_, h⟩

theorem relative_of_get? {m : EntryMap ε relative} {k : RelPath} {e : ε} (h : m.get? k = some e) :
    relative e = k := (m.keyed k e h).1

theorem mem_values_of_get? {m : EntryMap ε relative} {k : RelPath} {e : ε}
    (h : m.get? k = some e) : e ∈ m.values := by
  rw [mem_values, relative_of_get? h]; exact h

theorem relative_ne_root {m : EntryMap ε relative} {e : ε} (h : e ∈ m.values) :
    relative e ≠ .root := (m.keyed _ e (mem_values.mp h)).2

theorem get?_root (m : EntryMap ε relative) : m.get? .root = none := by
  cases h : m.get? .root with
  | none => rfl
  | some e => exact absurd rfl (m.keyed _ e h).2

theorem eq_of_relative_eq {m : EntryMap ε relative} {e e' : ε} (h : e ∈ m.values)
    (h' : e' ∈ m.values) (heq : relative e = relative e') : e = e' := by
  have := mem_values.mp h
  rw [heq, mem_values.mp h'] at this
  exact (Option.some.inj this).symm

theorem mem_keys {m : EntryMap ε relative} {k : RelPath} :
    k ∈ m.keys ↔ ∃ e, m.get? k = some e := by
  simp only [keys, List.mem_map]
  constructor
  · rintro ⟨e, he, rfl⟩; exact ⟨e, mem_values.mp he⟩
  · rintro ⟨e, he⟩; exact ⟨e, mem_values_of_get? he, relative_of_get? he⟩

theorem contains_iff {m : EntryMap ε relative} {k : RelPath} :
    m.contains k = true ↔ k ∈ m.keys := by
  rw [mem_keys, contains, Option.isSome_iff_exists]

/-- The entries come in the order of their paths. -/
theorem pairwise_values (m : EntryMap ε relative) :
    m.values.Pairwise fun a b => relative a < relative b := by
  rw [values, List.pairwise_map]
  refine (Path.pairwise_lt_toList m.map).imp_of_mem ?_
  rintro ⟨k, e⟩ ⟨k', e'⟩ h h' hlt
  rw [Std.TreeMap.mem_toList_iff_getElem?_eq_some] at h h'
  rw [(m.keyed k e h).1, (m.keyed k' e' h').1]
  exact hlt

theorem pairwise_keys (m : EntryMap ε relative) : m.keys.Pairwise (· < ·) := by
  rw [keys, List.pairwise_map]; exact m.pairwise_values

theorem nodup_keys (m : EntryMap ε relative) : m.keys.Nodup :=
  m.pairwise_keys.imp fun h => ne_of_lt h

theorem nodup_values (m : EntryMap ε relative) : m.values.Nodup :=
  m.pairwise_values.imp fun h heq => absurd (heq ▸ h) (lt_irrefl _)

theorem mem_subtree {m : EntryMap ε relative} {p : RelPath} {e : ε} :
    e ∈ m.subtree p ↔ e ∈ m.values ∧ Path.AtOrUnder p (relative e) := by
  simp only [subtree, List.mem_append, Option.mem_toList, List.mem_map, Prod.exists, exists_eq_right,
    Path.mem_rangeBeneath, Std.TreeMap.mem_toList_iff_getElem?_eq_some]
  constructor
  · rintro (h | ⟨k, hk, hp⟩)
    · exact ⟨mem_values_of_get? h, .inl (relative_of_get? h)⟩
    · have hrel := (m.keyed k e hk).1
      exact ⟨mem_values_of_get? hk, .inr (hrel ▸ hp)⟩
  · rintro ⟨h, rfl | hp⟩
    · exact .inl (mem_values.mp h)
    · exact .inr ⟨_, mem_values.mp h, hp⟩

theorem get?_insert {m : EntryMap ε relative} {e : ε} (h : relative e ≠ .root) (k : RelPath) :
    (m.insert e).get? k = if relative e = k then some e else m.get? k := by
  simp only [insert, dif_neg h, get?, Std.TreeMap.getElem?_insert, compare_eq_iff_eq]

theorem get?_erase (m : EntryMap ε relative) (k k' : RelPath) :
    (m.erase k).get? k' = if k = k' then none else m.get? k' := by
  simp only [erase, get?, Std.TreeMap.getElem?_erase, compare_eq_iff_eq]

theorem of_mem_values_insert {m : EntryMap ε relative} {e e' : ε} (h : e' ∈ (m.insert e).values) :
    e' = e ∨ e' ∈ m.values := by
  by_cases hroot : relative e = .root
  · rw [insert, dif_pos hroot] at h
    exact .inr h
  · rw [mem_values, get?_insert hroot] at h
    split at h
    · exact .inl (Option.some.inj h).symm
    · exact .inr (mem_values.mpr h)

/-- An entry under a path of its own comes beside the entries there are. -/
theorem mem_values_insert {m : EntryMap ε relative} {e e' : ε} (h : relative e ≠ .root)
    (hnew : m.get? (relative e) = none) : e' ∈ (m.insert e).values ↔ e' = e ∨ e' ∈ m.values := by
  rw [mem_values, mem_values, get?_insert h]
  split
  · rename_i heq
    constructor
    · intro he; exact .inl (Option.some.inj he).symm
    · rintro (rfl | he)
      · rfl
      · rw [← heq, hnew] at he; cases he
  · rename_i hne
    exact ⟨.inr, fun he => he.resolve_left fun h => hne (h ▸ rfl)⟩

theorem get?_foldl_erase (m : EntryMap ε relative) (l : List RelPath) (k : RelPath) :
    (l.foldl erase m).get? k = if k ∈ l then none else m.get? k := by
  induction l generalizing m with
  | nil => simp
  | cons a l ih =>
    rw [List.foldl_cons, ih, get?_erase]
    by_cases hka : k = a
    · subst hka; simp
    · simp [hka, Ne.symm hka]

end EntryMap
end DriveSync
