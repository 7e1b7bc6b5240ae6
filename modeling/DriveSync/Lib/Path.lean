import Mathlib.Data.List.Basic
import Mathlib.Tactic.Common

/-!
# DriveSync.Lib.Path

Paths in a tree, over any type of names. A path is read from its last component: `child p n` is
the entry named `n` in the folder `p`, and `root` is the tree itself.

* `ancestors`: the proper prefixes of a path, nearest first. The root is not one of them: a
  relative path names what lies in the tree, and a walk up its separators never reaches "".
* `map`: a function on names applied to every component, for foldings of names.
* `inherit`: a partial map of whole paths, extended to every path by its nearest mapped prefix.
-/

namespace DriveSync

/-- A path, last component outermost. -/
inductive Path (α : Type) where
  | root
  | child (parent : Path α) (name : α)
deriving DecidableEq, Repr

namespace Path

variable {α β γ : Type}

def depth : Path α → Nat
  | root => 0
  | child p _ => p.depth + 1

/-- The folder a path lies in. -/
def parent : Path α → Path α
  | root => root
  | child p _ => p

def name? : Path α → Option α
  | root => none
  | child _ n => some n

/-- The proper prefixes of a path other than the root, nearest first. -/
def ancestors : Path α → List (Path α)
  | root => []
  | child root _ => []
  | child (child p m) _ => child p m :: (child p m).ancestors

/-- Every prefix of a path other than the root, itself included, shortest first. -/
def prefixes (p : Path α) : List (Path α) := p.ancestors.reverse ++ [p]

/-- `p` is `a` or lies beneath it. -/
def AtOrUnder (a p : Path α) : Prop := p = a ∨ a ∈ p.ancestors

instance [DecidableEq α] (a p : Path α) : Decidable (AtOrUnder a p) :=
  inferInstanceAs (Decidable (_ ∨ _))

def map (f : α → β) : Path α → Path β
  | root => root
  | child p n => child (p.map f) (f n)

/-- `q` read from `p` instead of from the root. -/
def append (p : Path α) : Path α → Path α
  | root => p
  | child q n => child (p.append q) n

/-- The components of a path, first to last. -/
def components : Path α → List α
  | root => []
  | child p n => p.components ++ [n]

/-- `m` on the paths it maps; elsewhere the image of the folder, with the same last name. -/
def inherit (m : Path α → Option (Path α)) : Path α → Path α
  | root => root
  | child p n => (m (child p n)).getD (child (inherit m p) n)

@[simp] theorem depth_root : (root : Path α).depth = 0 := rfl
@[simp] theorem depth_child (p : Path α) (n : α) : (child p n).depth = p.depth + 1 := rfl
@[simp] theorem parent_root : (root : Path α).parent = root := rfl
@[simp] theorem parent_child (p : Path α) (n : α) : (child p n).parent = p := rfl
@[simp] theorem name?_root : (root : Path α).name? = none := rfl
@[simp] theorem name?_child (p : Path α) (n : α) : (child p n).name? = some n := rfl
@[simp] theorem ancestors_root : (root : Path α).ancestors = [] := rfl
@[simp] theorem map_root (f : α → β) : (root : Path α).map f = root := rfl
@[simp] theorem map_child (f : α → β) (p : Path α) (n : α) :
    (child p n).map f = child (p.map f) (f n) := rfl
@[simp] theorem append_root (p : Path α) : p.append root = p := rfl
@[simp] theorem append_child (p q : Path α) (n : α) :
    p.append (child q n) = child (p.append q) n := rfl
@[simp] theorem inherit_root (m : Path α → Option (Path α)) : inherit m root = root := rfl

/-! ## Ancestors -/

@[simp] theorem mem_ancestors_child {a p : Path α} {n : α} :
    a ∈ (child p n).ancestors ↔ p ≠ root ∧ AtOrUnder a p := by
  cases p with
  | root => simp [ancestors]
  | child q m => simp [ancestors, AtOrUnder, eq_comm]

theorem atOrUnder_refl (p : Path α) : AtOrUnder p p := .inl rfl

theorem depth_lt_of_mem_ancestors {a p : Path α} (h : a ∈ p.ancestors) : a.depth < p.depth := by
  induction p with
  | root => simp at h
  | child p n ih =>
    obtain ⟨_, rfl | h⟩ := mem_ancestors_child.mp h
    · simp
    · have := ih h
      simp; omega

theorem ne_of_mem_ancestors {a p : Path α} (h : a ∈ p.ancestors) : a ≠ p := by
  rintro rfl
  exact Nat.lt_irrefl _ (depth_lt_of_mem_ancestors h)

theorem not_mem_ancestors_self (p : Path α) : p ∉ p.ancestors :=
  fun h => ne_of_mem_ancestors h rfl

theorem ne_root_of_mem_ancestors {a p : Path α} (h : a ∈ p.ancestors) : a ≠ root := by
  induction p with
  | root => simp at h
  | child p n ih =>
    obtain ⟨hp, rfl | h⟩ := mem_ancestors_child.mp h
    · exact hp
    · exact ih h

theorem depth_le_of_atOrUnder {a p : Path α} (h : AtOrUnder a p) : a.depth ≤ p.depth := by
  rcases h with rfl | h
  · exact Nat.le_refl _
  · exact Nat.le_of_lt (depth_lt_of_mem_ancestors h)

theorem mem_ancestors_trans {a b p : Path α} (hab : a ∈ b.ancestors) (hbp : b ∈ p.ancestors) :
    a ∈ p.ancestors := by
  induction p with
  | root => simp at hbp
  | child p n ih =>
    obtain ⟨hp, rfl | hb⟩ := mem_ancestors_child.mp hbp
    · exact mem_ancestors_child.mpr ⟨hp, .inr hab⟩
    · exact mem_ancestors_child.mpr ⟨hp, .inr (ih hb)⟩

theorem AtOrUnder.trans {a b p : Path α} (hab : AtOrUnder a b) (hbp : AtOrUnder b p) :
    AtOrUnder a p := by
  rcases hbp with rfl | hbp
  · exact hab
  · rcases hab with rfl | hab
    · exact .inr hbp
    · exact .inr (mem_ancestors_trans hab hbp)

theorem mem_ancestors_of_atOrUnder {a b p : Path α} (hab : AtOrUnder a b)
    (hbp : b ∈ p.ancestors) : a ∈ p.ancestors := by
  rcases hab with rfl | hab
  · exact hbp
  · exact mem_ancestors_trans hab hbp

theorem mem_ancestors_of_atOrUnder_right {a b p : Path α} (hab : a ∈ b.ancestors)
    (hbp : AtOrUnder b p) : a ∈ p.ancestors := by
  rcases hbp with rfl | hbp
  · exact hab
  · exact mem_ancestors_trans hab hbp

/-- Two prefixes of one path are comparable. -/
theorem atOrUnder_total {a b p : Path α} (ha : AtOrUnder a p) (hb : AtOrUnder b p) :
    AtOrUnder a b ∨ AtOrUnder b a := by
  induction p with
  | root =>
    rcases ha with rfl | ha
    · exact .inr hb
    · simp at ha
  | child p n ih =>
    rcases ha with rfl | ha
    · exact .inr hb
    · rcases hb with rfl | hb
      · exact .inl (.inr ha)
      · exact ih (mem_ancestors_child.mp ha).2 (mem_ancestors_child.mp hb).2

/-- Of two prefixes of one path, the first is at or above the second, or strictly beneath it. -/
theorem atOrUnder_or_mem_ancestors {a b p : Path α} (ha : AtOrUnder a p) (hb : AtOrUnder b p) :
    AtOrUnder a b ∨ b ∈ a.ancestors := by
  rcases atOrUnder_total ha hb with h | h | h
  · exact .inl h
  · exact .inl (.inl h.symm)
  · exact .inr h

theorem AtOrUnder.antisymm {a p : Path α} (h : AtOrUnder a p) (h' : AtOrUnder p a) : p = a := by
  rcases h with h | h
  · exact h
  · rcases h' with h' | h'
    · exact h'.symm
    · exact absurd (depth_lt_of_mem_ancestors h') (Nat.lt_asymm (depth_lt_of_mem_ancestors h))

theorem eq_of_atOrUnder_of_depth {a b p : Path α} (ha : AtOrUnder a p) (hb : AtOrUnder b p)
    (h : a.depth = b.depth) : a = b := by
  rcases atOrUnder_total ha hb with (rfl | hab) | (rfl | hab)
  · rfl
  · have := depth_lt_of_mem_ancestors hab; omega
  · rfl
  · have := depth_lt_of_mem_ancestors hab; omega

theorem atOrUnder_parent {a p : Path α} (h : a ∈ p.ancestors) : AtOrUnder a p.parent := by
  cases p with
  | root => simp at h
  | child p n => exact (mem_ancestors_child.mp h).2

@[simp] theorem mem_prefixes {a p : Path α} : a ∈ p.prefixes ↔ AtOrUnder a p := by
  simp only [prefixes, List.mem_append, List.mem_reverse, List.mem_singleton, AtOrUnder]
  constructor
  · rintro (h | rfl)
    · exact .inr h
    · exact .inl rfl
  · rintro (rfl | h)
    · exact .inr rfl
    · exact .inl h

/-! ## Paths below another -/

theorem depth_append (p q : Path α) : (p.append q).depth = p.depth + q.depth := by
  induction q with
  | root => rfl
  | child q n ih => simp [ih, Nat.add_assoc]

theorem append_eq_root {p q : Path α} : p.append q = root ↔ p = root ∧ q = root := by
  cases q <;> simp

theorem append_injective (p : Path α) : Function.Injective p.append := by
  intro q q' h
  induction q generalizing q' with
  | root =>
    cases q' with
    | root => rfl
    | child q' n' =>
      have hdepth := congrArg depth h
      rw [depth_append, depth_append] at hdepth
      simp at hdepth
  | child q n ih =>
    cases q' with
    | root =>
      have hdepth := congrArg depth h
      rw [depth_append, depth_append] at hdepth
      simp at hdepth
    | child q' n' =>
      obtain ⟨hq, rfl⟩ := child.inj h
      rw [ih hq]

/-- Below one path, what lies above what is as it is below the root. -/
theorem mem_ancestors_append {p a q : Path α} (ha : a ≠ root) :
    p.append a ∈ (p.append q).ancestors ↔ a ∈ q.ancestors := by
  induction q with
  | root =>
    simp only [append_root, ancestors_root, List.not_mem_nil, iff_false]
    intro h
    have hdepth := depth_lt_of_mem_ancestors h
    rw [depth_append] at hdepth
    omega
  | child q n ih =>
    simp only [append_child, mem_ancestors_child]
    constructor
    · rintro ⟨-, heq | h⟩
      · obtain rfl := append_injective p heq
        exact ⟨ha, .inl rfl⟩
      · have := ih.mp h
        exact ⟨fun hq => by simp [hq] at this, .inr this⟩
    · rintro ⟨hq, rfl | h⟩
      · refine ⟨fun hroot => ?_, .inl rfl⟩
        cases q with
        | root => exact hq rfl
        | child q m => cases hroot
      · have := ih.mpr h
        exact ⟨fun hroot => by rw [hroot] at this; simp at this, .inr this⟩

theorem atOrUnder_append {p a q : Path α} (ha : a ≠ root) :
    AtOrUnder (p.append a) (p.append q) ↔ AtOrUnder a q := by
  rw [AtOrUnder, AtOrUnder, mem_ancestors_append ha, (append_injective p).eq_iff]

/-- `p` lies in the folder `a`, however deep. The root is a folder like any other: it holds every
path but itself. -/
def Encloses (a p : Path α) : Prop := ∃ q, q ≠ root ∧ p = a.append q

theorem encloses_root {p : Path α} : Encloses root p ↔ p ≠ root := by
  constructor
  · rintro ⟨q, hq, rfl⟩ h
    exact hq (append_eq_root.mp h).2
  · intro h
    refine ⟨p, h, ?_⟩
    induction p with
    | root => exact absurd rfl h
    | child p n ih =>
      cases p with
      | root => rfl
      | child p m => rw [append_child, ← ih (by simp)]

theorem not_encloses_root {a : Path α} : ¬ Encloses a root := by
  rintro ⟨q, hq, h⟩
  exact hq (append_eq_root.mp h.symm).2

/-- Below the root, to hold a path is to be one of its proper prefixes. -/
theorem encloses_iff_mem_ancestors {a p : Path α} (ha : a ≠ root) :
    Encloses a p ↔ a ∈ p.ancestors := by
  induction p with
  | root => simp [not_encloses_root]
  | child p n ih =>
    rw [mem_ancestors_child, AtOrUnder, ← ih]
    constructor
    · rintro ⟨q, hq, h⟩
      cases q with
      | root => exact absurd rfl hq
      | child q m =>
        obtain ⟨rfl, rfl⟩ := child.inj h
        refine ⟨fun h => ha (append_eq_root.mp h).1, ?_⟩
        cases q with
        | root => exact .inl rfl
        | child q k => exact .inr ⟨child q k, by simp, rfl⟩
    · rintro ⟨-, rfl | ⟨q, hq, rfl⟩⟩
      · exact ⟨child root n, by simp, rfl⟩
      · exact ⟨child q n, by simp, rfl⟩

/-! ## A function on names, applied to every component -/

@[simp] theorem depth_map (f : α → β) (p : Path α) : (p.map f).depth = p.depth := by
  induction p with
  | root => rfl
  | child p n ih => simp [ih]

@[simp] theorem map_eq_root {f : α → β} {p : Path α} : p.map f = root ↔ p = root := by
  cases p <;> simp

theorem map_map (f : α → β) (g : β → γ) (p : Path α) : (p.map f).map g = p.map (g ∘ f) := by
  induction p with
  | root => rfl
  | child p n ih => simp [ih]

theorem map_append (f : α → β) (p q : Path α) : (p.append q).map f = (p.map f).append (q.map f) := by
  induction q with
  | root => rfl
  | child q n ih => simp [ih]

theorem ancestors_map (f : α → β) (p : Path α) :
    (p.map f).ancestors = p.ancestors.map (map f) := by
  induction p with
  | root => rfl
  | child p n ih =>
    cases p with
    | root => rfl
    | child q m => simpa [ancestors] using ih

theorem mem_ancestors_map {f : α → β} {a p : Path α} (h : a ∈ p.ancestors) :
    a.map f ∈ (p.map f).ancestors := by
  rw [ancestors_map]; exact List.mem_map_of_mem h

theorem AtOrUnder.map {f : α → β} {a p : Path α} (h : AtOrUnder a p) :
    AtOrUnder (a.map f) (p.map f) := by
  rcases h with rfl | h
  · exact .inl rfl
  · exact .inr (mem_ancestors_map h)

/-- A prefix of a folded path is the fold of the prefix of the same length. -/
theorem exists_of_mem_ancestors_map {f : α → β} {b : Path β} {p : Path α}
    (h : b ∈ (p.map f).ancestors) : ∃ a ∈ p.ancestors, a.map f = b := by
  rw [ancestors_map] at h
  simpa using h

theorem exists_of_atOrUnder_map {f : α → β} {b : Path β} {p : Path α}
    (h : AtOrUnder b (p.map f)) : ∃ a, AtOrUnder a p ∧ a.map f = b := by
  rcases h with rfl | h
  · exact ⟨p, .inl rfl, rfl⟩
  · obtain ⟨a, ha, rfl⟩ := exists_of_mem_ancestors_map h
    exact ⟨a, .inr ha, rfl⟩

/-- Paths with one fold have, beneath a prefix of either, a prefix of the other with its fold. -/
theorem exists_ancestor_of_map_eq {f : α → β} {p q a : Path α} (h : p.map f = q.map f)
    (ha : a ∈ p.ancestors) : ∃ b ∈ q.ancestors, b.map f = a.map f :=
  exists_of_mem_ancestors_map (h ▸ mem_ancestors_map ha)

/-! ## The extension of a partial map of paths -/

theorem inherit_of_some {m : Path α → Option (Path α)} {p r : Path α} (hp : p ≠ root)
    (h : m p = some r) : inherit m p = r := by
  cases p with
  | root => exact absurd rfl hp
  | child p n => simp [inherit, h]

theorem inherit_child_of_none {m : Path α → Option (Path α)} {p : Path α} {n : α}
    (h : m (child p n) = none) : inherit m (child p n) = child (inherit m p) n := by
  simp [inherit, h]

theorem map_inherit {m : Path α → Option (Path α)} {f : α → β}
    (hm : ∀ p r, m p = some r → r.map f = p.map f) (p : Path α) :
    (inherit m p).map f = p.map f := by
  induction p with
  | root => rfl
  | child p n ih =>
    cases h : m (child p n) with
    | none => simp [inherit_child_of_none h, ih]
    | some r => rw [inherit_of_some (by simp) h]; exact hm _ _ h

theorem inherit_eq_root {m : Path α → Option (Path α)} {f : α → β}
    (hm : ∀ p r, m p = some r → r.map f = p.map f) {p : Path α} :
    inherit m p = root ↔ p = root := by
  rw [← map_eq_root (f := f), map_inherit hm, map_eq_root]

/-- The extension of the empty map changes nothing. -/
theorem inherit_eq_self {m : Path α → Option (Path α)} {p : Path α}
    (h : ∀ a, AtOrUnder a p → m a = none) : inherit m p = p := by
  induction p with
  | root => rfl
  | child p n ih =>
    rw [inherit_child_of_none (h _ (.inl rfl))]
    cases p with
    | root => rfl
    | child q k =>
      rw [ih fun a ha => h a (.inr (mem_ancestors_child.mpr ⟨by simp, ha⟩))]

/-- Extensions of two partial maps that agree on the prefixes of a path agree on it. -/
theorem inherit_congr {m m' : Path α → Option (Path α)} {p : Path α}
    (h : ∀ a, AtOrUnder a p → m a = m' a) : inherit m p = inherit m' p := by
  induction p with
  | root => rfl
  | child p n ih =>
    have hp : inherit m p = inherit m' p := by
      cases p with
      | root => rfl
      | child q k => exact ih fun a ha => h a (.inr (mem_ancestors_child.mpr ⟨by simp, ha⟩))
    simp only [inherit, h _ (.inl rfl), hp]

/-- A folder above the image of a path is the image of a folder above it, or lies above the
image of a mapped prefix. -/
theorem exists_of_mem_ancestors_inherit {m : Path α → Option (Path α)} {d p : Path α}
    (h : d ∈ (inherit m p).ancestors) :
    (∃ a ∈ p.ancestors, inherit m a = d) ∨
      ∃ a r, AtOrUnder a p ∧ m a = some r ∧ d ∈ r.ancestors := by
  induction p with
  | root => simp at h
  | child p n ih =>
    cases hm : m (child p n) with
    | some r =>
      rw [inherit_of_some (by simp) hm] at h
      exact .inr ⟨_, r, .inl rfl, hm, h⟩
    | none =>
      rw [inherit_child_of_none hm] at h
      obtain ⟨hroot, hd⟩ := mem_ancestors_child.mp h
      have hp : p ≠ root := by rintro rfl; exact hroot rfl
      rcases hd with rfl | hd
      · exact .inl ⟨p, mem_ancestors_child.mpr ⟨hp, .inl rfl⟩, rfl⟩
      · rcases ih hd with ⟨a, ha, rfl⟩ | ⟨a, r, ha, hr⟩
        · exact .inl ⟨a, mem_ancestors_child.mpr ⟨hp, .inr ha⟩, rfl⟩
        · exact .inr ⟨a, r, .inr (mem_ancestors_child.mpr ⟨hp, ha⟩), hr⟩

/-- Two partial maps that undo each other on a prefix-closed set of paths which a folding of
names tells apart have extensions that undo each other there. -/
theorem inherit_inherit {m m' : Path α → Option (Path α)} {f : α → β} {K : Path α → Prop}
    (closed : ∀ p n, K (child p n) → p = root ∨ K p)
    (inj : ∀ p q, K p → K q → p.map f = q.map f → p = q)
    (fwd : ∀ p r, m p = some r → r.map f = p.map f ∧ m' r = some p)
    (bwd : ∀ r p, m' r = some p → K p ∧ r.map f = p.map f ∧ ∃ r', m p = some r')
    {p : Path α} (hp : p = root ∨ K p) : inherit m' (inherit m p) = p := by
  induction p with
  | root => rfl
  | child p n ih =>
    have hK : K (child p n) := by simpa using hp
    cases h : m (child p n) with
    | some r =>
      obtain ⟨hf, hback⟩ := fwd _ _ h
      have hr : r ≠ root := by
        rintro rfl
        simp at hf
      rw [inherit_of_some (by simp) h, inherit_of_some hr hback]
    | none =>
      rw [inherit_child_of_none h]
      have hnone : m' (child (inherit m p) n) = none := by
        cases hm' : m' (child (inherit m p) n) with
        | none => rfl
        | some q =>
          obtain ⟨hq, hf, r', hr'⟩ := bwd _ _ hm'
          have hq' : q = child p n := by
            refine inj _ _ hq hK ?_
            rw [← hf, map_child, map_child, map_inherit fun p r h => (fwd p r h).1]
          rw [hq', h] at hr'
          cases hr'
      rw [inherit_child_of_none hnone, ih (closed _ _ hK)]

end Path

end DriveSync
