import Mathlib.Data.List.Basic
import Mathlib.Data.List.Nodup
import Mathlib.Logic.Relation

/-!
# DriveSync.Lib.Arena

A tree kept as an arena: each node names its parent, and lists its children. The two link structures
are redundant, and `IsTree` says that they agree, that siblings have distinct names, and that every
node reaches the root by its parents.

* `IsTree.prune`: a subtree taken out, its top unlinked from its parent.
* `IsTree.graft`: a node, new or taken with what is beneath it, put under a parent.
* `IsTree.climbs`: the way from a node to the root passes no node twice.
* `Over`: the children lead where the parents come from, and `over_drop` is what they lead to
  without one node.
-/

namespace DriveSync
namespace Arena

structure Entry (κ ν : Type) where
  parent : Option κ
  name : ν
  children : List κ
deriving DecidableEq, Repr

variable {κ ν : Type} [DecidableEq κ]

/-- The first key's node names the second as its parent. -/
def Step (get : κ → Option (Entry κ ν)) (c p : κ) : Prop :=
  ∃ m, get c = some m ∧ m.parent = some p

/-- The first key is the second, or its parents lead to it. -/
def Beneath (get : κ → Option (Entry κ ν)) (c p : κ) : Prop := Relation.ReflTransGen (Step get) c p

structure IsTree (get : κ → Option (Entry κ ν)) (root : κ) : Prop where
  top : ∃ n, get root = some n
  listed : ∀ p n, get p = some n → ∀ c ∈ n.children, ∃ m, get c = some m ∧ m.parent = some p
  linked : ∀ c m, get c = some m → ∀ p, m.parent = some p →
    ∃ n, get p = some n ∧ n.children.count c = 1
  rooted : ∀ c m, get c = some m → (m.parent = none ↔ c = root)
  distinct : ∀ p n, get p = some n → ∀ c ∈ n.children, ∀ d ∈ n.children, ∀ m m',
    get c = some m → get d = some m' → m.name = m'.name → c = d
  reaches : ∀ c m, get c = some m → Beneath get c root

/-- The first key's node lists the second as a child. -/
def Lists (get : κ → Option (Entry κ ν)) (p c : κ) : Prop := ∃ n, get p = some n ∧ c ∈ n.children

/-- The second key is the first, or the first's children lead to it. -/
def Over (get : κ → Option (Entry κ ν)) (p c : κ) : Prop := Relation.ReflTransGen (Lists get) p c

/-- The nodes from a key to the one that has no parent. -/
inductive Climbs (get : κ → Option (Entry κ ν)) : κ → List κ → Prop where
  | top {c : κ} {m : Entry κ ν} : get c = some m → m.parent = none → Climbs get c [c]
  | up {c p : κ} {way : List κ} : Step get c p → Climbs get p way → Climbs get c (c :: way)

/-- A node without the given child. -/
def Entry.without (wd : κ) (n : Entry κ ν) : Entry κ ν :=
  { n with children := n.children.filter fun c => decide (c ≠ wd) }

omit [DecidableEq κ] in
theorem Step.unique {get : κ → Option (Entry κ ν)} {c p q : κ} (h : Step get c p)
    (h' : Step get c q) : p = q := by
  obtain ⟨m, hm, hp⟩ := h
  obtain ⟨m', hm', hq⟩ := h'
  obtain rfl := Option.some.inj (hm.symm.trans hm')
  exact Option.some.inj (hp.symm.trans hq)

omit [DecidableEq κ] in
theorem Beneath.head {get : κ → Option (Entry κ ν)} {c p wd : κ} (h : Step get c p)
    (hp : Beneath get p wd) : Beneath get c wd := Relation.ReflTransGen.head h hp

omit [DecidableEq κ] in
/-- What is beneath a node and is not the node is beneath it by its parent. -/
theorem Beneath.of_step {get : κ → Option (Entry κ ν)} {c p wd : κ} (h : Beneath get c wd)
    (hne : c ≠ wd) (hstep : Step get c p) : Beneath get p wd := by
  rcases Relation.ReflTransGen.cases_head h with rfl | ⟨q, hq, hrest⟩
  · exact absurd rfl hne
  · rw [hstep.unique hq]
    exact hrest

section Over

variable {get get' : κ → Option (Entry κ ν)} {n : Entry κ ν} {cur x k : κ}

omit [DecidableEq κ] in
theorem Over.mono (h : ∀ p c, Lists get' p c → Lists get p c) (hk : Over get' x k) :
    Over get x k := by
  induction hk with
  | refl => exact .refl
  | tail _ hstep ih => exact .tail ih (h _ _ hstep)

/-- Where a node is taken out, what was above a key still is, or is a child of it, or the key is the
node itself. -/
theorem over_drop (hcur : get cur = some n) (hothers : ∀ k, k ≠ cur → get' k = get k)
    (hk : Over get x k) : Over get' x k ∨ k = cur ∨ ∃ c ∈ n.children, Over get' c k := by
  induction hk with
  | refl => exact .inl .refl
  | @tail b k _ hstep ih =>
    obtain ⟨m, hm, hmem⟩ := hstep
    by_cases hb : b = cur
    · subst hb
      obtain rfl := Option.some.inj (hcur.symm.trans hm)
      exact .inr (.inr ⟨k, hmem, .refl⟩)
    · have hstep' : Lists get' b k := ⟨m, by rw [hothers b hb, hm], hmem⟩
      rcases ih with hx | heq | ⟨c, hc, hck⟩
      · exact .inl (.tail hx hstep')
      · exact absurd heq hb
      · exact .inr (.inr ⟨c, hc, .tail hck hstep'⟩)

end Over

namespace IsTree

variable {get get' : κ → Option (Entry κ ν)} {root wd p : κ} {name : ν}

theorem step_iff_lists (h : IsTree get root) {c : κ} : Step get c p ↔ Lists get p c := by
  constructor
  · rintro ⟨m, hm, hparent⟩
    obtain ⟨n, hn, hcount⟩ := h.linked c m hm p hparent
    refine ⟨n, hn, List.count_pos_iff.mp ?_⟩
    omega
  · rintro ⟨n, hn, hmem⟩
    exact h.listed p n hn c hmem

theorem over_iff_beneath (h : IsTree get root) {c : κ} : Over get p c ↔ Beneath get c p := by
  constructor
  · intro hab
    induction hab with
    | refl => exact .refl
    | tail _ hstep ih => exact .head (h.step_iff_lists.mpr hstep) ih
  · intro hbe
    induction hbe using Relation.ReflTransGen.head_induction_on with
    | refl => exact .refl
    | head hstep _ ih => exact .tail ih (h.step_iff_lists.mp hstep)

theorem not_beneath_root (h : IsTree get root) (hne : wd ≠ root) : ¬Beneath get root wd := by
  intro hb
  rcases Relation.ReflTransGen.cases_head hb with heq | ⟨q, ⟨m, hm, hq⟩, _⟩
  · exact hne heq.symm
  · rw [(h.rooted root m hm).mpr rfl] at hq
    cases hq

theorem parent_ne_self (h : IsTree get root) {m : Entry κ ν} (hm : get wd = some m) :
    m.parent ≠ some wd := by
  intro hself
  have hstays : ∀ k, Beneath get wd k → k = wd := by
    intro k hk
    induction hk with
    | refl => rfl
    | tail _ hstep ih =>
      subst ih
      exact hstep.unique ⟨m, hm, hself⟩
  obtain rfl := hstays root (h.reaches wd m hm)
  rw [(h.rooted root m hm).mpr rfl] at hself
  cases hself

/-- No way up comes back. -/
theorem no_loop (h : IsTree get root) {c q : κ} (hstep : Step get c q) : ¬Beneath get q c := by
  obtain ⟨m, hm, hq⟩ := hstep
  have hreach := h.reaches c m hm
  have hstep : Step get c q := ⟨m, hm, hq⟩
  clear hm hq m
  induction hreach using Relation.ReflTransGen.head_induction_on generalizing q with
  | refl =>
    obtain ⟨m, hm, hq⟩ := hstep
    rw [(h.rooted root m hm).mpr rfl] at hq
    cases hq
  | @head c p hup _ ih =>
    obtain rfl := hup.unique hstep
    intro hback
    rcases Relation.ReflTransGen.cases_head hback with rfl | ⟨q', hq', hrest⟩
    · exact ih hup .refl
    · exact ih hq' (.tail hrest hup)

theorem climbs (h : IsTree get root) {c : κ} {m : Entry κ ν} (hm : get c = some m) :
    ∃ way, Climbs get c way ∧ way.Nodup ∧ ∀ k ∈ way, Beneath get c k := by
  have hreach := h.reaches c m hm
  clear hm m
  induction hreach using Relation.ReflTransGen.head_induction_on with
  | refl =>
    obtain ⟨n, hn⟩ := h.top
    refine ⟨[root], .top hn ((h.rooted root n hn).mpr rfl), List.nodup_singleton root, ?_⟩
    intro k hk
    rw [List.mem_singleton.mp hk]
    exact .refl
  | @head c p hup _ ih =>
    obtain ⟨way, hway, hnodup, hbeneath⟩ := ih
    refine ⟨c :: way, .up hup hway, List.nodup_cons.mpr ⟨?_, hnodup⟩, ?_⟩
    · intro hmem
      exact h.no_loop hup (hbeneath c hmem)
    · intro k hk
      rcases List.mem_cons.mp hk with rfl | hk
      · exact .refl
      · exact .head hup (hbeneath k hk)

/-- Parents are nodes, so a step from a node leads to a node. -/
theorem get_of_beneath (h : IsTree get root) {c k : κ} {m : Entry κ ν} (hm : get c = some m)
    (hk : Beneath get c k) : ∃ n, get k = some n := by
  induction hk with
  | refl => exact ⟨m, hm⟩
  | tail _ hstep ih =>
    obtain ⟨m', hm', hp⟩ := hstep
    obtain ⟨n, hn, _⟩ := h.linked _ m' hm' _ hp
    exact ⟨n, hn⟩

theorem mem_without {n : Entry κ ν} {c wd : κ} :
    c ∈ (n.without wd).children ↔ c ∈ n.children ∧ c ≠ wd := by
  simp [Entry.without]

/-- A subtree taken out, its top unlinked from its parent. -/
theorem prune (h : IsTree get root) (hne : wd ≠ root)
    (hgone : ∀ k, Beneath get k wd → get' k = none)
    (hkept : ∀ k, ¬Beneath get k wd → get' k = (get k).map (Entry.without wd)) :
    IsTree get' root := by
  have hback : ∀ k n', get' k = some n' → ¬Beneath get k wd ∧
      ∃ n, get k = some n ∧ n' = n.without wd := by
    intro k n' hk
    by_cases hb : Beneath get k wd
    · rw [hgone k hb] at hk
      cases hk
    · rw [hkept k hb] at hk
      obtain ⟨n, hn, rfl⟩ := Option.map_eq_some_iff.mp hk
      exact ⟨hb, n, hn, rfl⟩
  have hforth : ∀ k n, get k = some n → ¬Beneath get k wd → get' k = some (n.without wd) := by
    intro k n hn hb
    rw [hkept k hb, hn]
    rfl
  refine ⟨?_, ?_, ?_, ?_, ?_, ?_⟩
  · obtain ⟨n, hn⟩ := h.top
    exact ⟨_, hforth root n hn (h.not_beneath_root hne)⟩
  · intro q n' hn' c hc
    obtain ⟨hb, n, hn, rfl⟩ := hback q n' hn'
    obtain ⟨hc, hcne⟩ := mem_without.mp hc
    obtain ⟨m, hm, hparent⟩ := h.listed q n hn c hc
    have hcb : ¬Beneath get c wd := fun hbeneath => hb (hbeneath.of_step hcne ⟨m, hm, hparent⟩)
    exact ⟨_, hforth c m hm hcb, hparent⟩
  · intro c m' hm' q hparent
    obtain ⟨hb, m, hm, rfl⟩ := hback c m' hm'
    obtain ⟨n, hn, hcount⟩ := h.linked c m hm q hparent
    have hqb : ¬Beneath get q wd := fun hbeneath => hb (hbeneath.head ⟨m, hm, hparent⟩)
    refine ⟨_, hforth q n hn hqb, ?_⟩
    have hcne : c ≠ wd := fun heq => hb (heq ▸ .refl)
    rw [Entry.without, List.count_filter (by simpa using hcne)]
    exact hcount
  · intro c m' hm'
    obtain ⟨_, m, hm, rfl⟩ := hback c m' hm'
    exact h.rooted c m hm
  · intro q n' hn' c hc d hd m m' hm hm' hname
    obtain ⟨_, n, hn, rfl⟩ := hback q n' hn'
    obtain ⟨_, m₀, hm₀, rfl⟩ := hback c m hm
    obtain ⟨_, m₁, hm₁, rfl⟩ := hback d m' hm'
    exact h.distinct q n hn c (mem_without.mp hc).1 d (mem_without.mp hd).1 m₀ m₁ hm₀ hm₁ hname
  · intro c m' hm'
    obtain ⟨hb, m, hm, rfl⟩ := hback c m' hm'
    clear hm'
    have hreach := h.reaches c m hm
    clear hm m
    induction hreach using Relation.ReflTransGen.head_induction_on with
    | refl => exact .refl
    | head hstep _ ih =>
      obtain ⟨m, hm, hparent⟩ := hstep
      have hqb : ¬Beneath get _ wd := fun hbeneath => hb (hbeneath.head ⟨m, hm, hparent⟩)
      exact .head ⟨_, hforth _ m hm hb, hparent⟩ (ih hqb)

/-- What a graft makes of an arena: the node under its new parent and name, with the children it had,
listed last by its parent and by no other node. -/
structure Grafts (get get' : κ → Option (Entry κ ν)) (wd p : κ) (name : ν) : Prop where
  node : get' wd = some ⟨some p, name, (get wd).elim [] Entry.children⟩
  parent : ∀ n, get p = some n →
    get' p = some { n with children := (n.without wd).children ++ [wd] }
  others : ∀ k, k ≠ wd → k ≠ p → get' k = (get k).map (Entry.without wd)

/-- A node as it was, but for one child. -/
structure Alike (wd : κ) (n n' : Entry κ ν) : Prop where
  parent : n'.parent = n.parent
  name : n'.name = n.name
  mem : ∀ c, c ≠ wd → (c ∈ n'.children ↔ c ∈ n.children)
  count : ∀ c, c ≠ wd → n'.children.count c = n.children.count c

theorem alike_without (wd : κ) (n : Entry κ ν) : Alike wd n (n.without wd) where
  parent := rfl
  name := rfl
  mem c hc := by simp [mem_without, hc]
  count c hc := by rw [Entry.without, List.count_filter (by simpa using hc)]

theorem alike_relisted (wd : κ) (n : Entry κ ν) :
    Alike wd n { n with children := (n.without wd).children ++ [wd] } where
  parent := rfl
  name := rfl
  mem c hc := by simp [mem_without, hc]
  count c hc := by
    rw [List.count_append, (alike_without wd n).count c hc, List.count_singleton]
    simp [Ne.symm hc]

/-- The children the grafted node brings along. -/
theorem brought (h : IsTree get root) {c : κ} (hc : c ∈ (get wd).elim [] Entry.children) :
    c ≠ wd ∧ ∃ w, get wd = some w ∧ c ∈ w.children ∧ ∃ m, get c = some m ∧ m.parent = some wd := by
  cases hwd : get wd with
  | none => simp [hwd] at hc
  | some w =>
    simp only [hwd, Option.elim_some] at hc
    obtain ⟨m, hm, hparent⟩ := h.listed wd w hwd c hc
    refine ⟨?_, w, rfl, hc, m, hm, hparent⟩
    rintro rfl
    exact h.parent_ne_self hm hparent

namespace Grafts

variable (hg : Grafts get get' wd p name)

include hg

theorem keeps {k : κ} {n : Entry κ ν} (hk : k ≠ wd) (hn : get k = some n) :
    ∃ n', get' k = some n' ∧ Alike wd n n' := by
  by_cases hkp : k = p
  · subst hkp
    exact ⟨_, hg.parent n hn, alike_relisted wd n⟩
  · exact ⟨n.without wd, by rw [hg.others k hk hkp, hn]; rfl, alike_without wd n⟩

theorem back (hp : ∃ n, get p = some n) {k : κ} {n' : Entry κ ν} (hk : k ≠ wd)
    (hn' : get' k = some n') : ∃ n, get k = some n ∧ Alike wd n n' := by
  obtain ⟨n, hn⟩ : ∃ n, get k = some n := by
    by_cases hkp : k = p
    · exact hkp ▸ hp
    · rw [hg.others k hk hkp] at hn'
      obtain ⟨n, hn, _⟩ := Option.map_eq_some_iff.mp hn'
      exact ⟨n, hn⟩
  obtain ⟨n'', hn'', halike⟩ := hg.keeps hk hn
  obtain rfl := Option.some.inj (hn'.symm.trans hn'')
  exact ⟨n, hn, halike⟩

/-- Only the new parent lists the grafted node. -/
theorem lister (h : IsTree get root) {k : κ} {n' : Entry κ ν} (hn' : get' k = some n')
    (hmem : wd ∈ n'.children) : k = p := by
  by_contra hkp
  by_cases hkwd : k = wd
  · subst hkwd
    obtain rfl := Option.some.inj (hg.node.symm.trans hn')
    exact (h.brought hmem).1 rfl
  · rw [hg.others k hkwd hkp] at hn'
    obtain ⟨n, _, rfl⟩ := Option.map_eq_some_iff.mp hn'
    exact (mem_without.mp hmem).2 rfl

/-- A node that is not beneath the grafted one reaches the root as it did. -/
theorem reaches_aside (h : IsTree get root) {c : κ} {m : Entry κ ν} (hm : get c = some m)
    (hb : ¬Beneath get c wd) : Beneath get' c root := by
  have hreach := h.reaches c m hm
  clear hm m
  induction hreach using Relation.ReflTransGen.head_induction_on with
  | refl => exact .refl
  | head hstep _ ih =>
    obtain ⟨m, hm, hparent⟩ := hstep
    have hqb : ¬Beneath get _ wd := fun hbeneath => hb (hbeneath.head ⟨m, hm, hparent⟩)
    obtain ⟨m', hm', halike⟩ := hg.keeps (fun heq => hb (heq ▸ .refl)) hm
    exact .head ⟨m', hm', halike.parent.trans hparent⟩ (ih hqb)

/-- A node beneath the grafted one reaches the root through it. -/
theorem reaches_through {c : κ} (hwd : Beneath get' wd root) (hb : Beneath get c wd) :
    Beneath get' c root := by
  induction hb using Relation.ReflTransGen.head_induction_on with
  | refl => exact hwd
  | @head a b hstep _ ih =>
    by_cases hawd : a = wd
    · rw [hawd]
      exact hwd
    · obtain ⟨m, hm, hparent⟩ := hstep
      obtain ⟨m', hm', halike⟩ := hg.keeps hawd hm
      exact .head ⟨m', hm', halike.parent.trans hparent⟩ ih

theorem listed (h : IsTree get root) (hp : ∃ n, get p = some n) {q c : κ} {n' : Entry κ ν}
    (hn' : get' q = some n') (hc : c ∈ n'.children) :
    ∃ m, get' c = some m ∧ m.parent = some q := by
  by_cases hcwd : c = wd
  · subst hcwd
    obtain rfl := hg.lister h hn' hc
    exact ⟨_, hg.node, rfl⟩
  · obtain ⟨m, hm, hparent⟩ : ∃ m, get c = some m ∧ m.parent = some q := by
      by_cases hq : q = wd
      · subst hq
        obtain rfl := Option.some.inj (hg.node.symm.trans hn')
        obtain ⟨_, _, _, _, hlisted⟩ := h.brought hc
        exact hlisted
      · obtain ⟨n, hn, halike⟩ := hg.back hp hq hn'
        exact h.listed q n hn c ((halike.mem c hcwd).mp hc)
    obtain ⟨m', hm', halike⟩ := hg.keeps hcwd hm
    exact ⟨m', hm', halike.parent.trans hparent⟩

theorem linked (h : IsTree get root) (hp : ∃ n, get p = some n) {q c : κ} {m' : Entry κ ν}
    (hm' : get' c = some m') (hq : m'.parent = some q) :
    ∃ n, get' q = some n ∧ n.children.count c = 1 := by
  by_cases hcwd : c = wd
  · subst hcwd
    obtain rfl := Option.some.inj (hg.node.symm.trans hm')
    obtain rfl := Option.some.inj hq
    obtain ⟨n, hn⟩ := hp
    refine ⟨_, hg.parent n hn, ?_⟩
    rw [List.count_append, List.count_eq_zero_of_not_mem (fun hmem => (mem_without.mp hmem).2 rfl)]
    simp
  · obtain ⟨m, hm, halike⟩ := hg.back hp hcwd hm'
    obtain ⟨n, hn, hcount⟩ := h.linked c m hm q (halike.parent ▸ hq)
    by_cases hqwd : q = wd
    · subst hqwd
      refine ⟨_, hg.node, ?_⟩
      simp only [hn, Option.elim_some]
      exact hcount
    · obtain ⟨n', hn', halike'⟩ := hg.keeps hqwd hn
      exact ⟨n', hn', (halike'.count c hcwd).trans hcount⟩

/-- Where the name is free, no other child of the new parent has it. -/
theorem free (hp : ∃ n, get p = some n)
    (hfree : ∀ n, get p = some n → ∀ c ∈ n.children, ∀ m, get c = some m → m.name = name → c = wd)
    (hpne : p ≠ wd) {c : κ} {n' m : Entry κ ν} (hn' : get' p = some n') (hc : c ∈ n'.children)
    (hcwd : c ≠ wd) (hm : get' c = some m) : m.name ≠ name := by
  intro hname
  obtain ⟨n, hn, halike⟩ := hg.back hp hpne hn'
  obtain ⟨m₀, hm₀, halike₀⟩ := hg.back hp hcwd hm
  exact hcwd (hfree n hn c ((halike.mem c hcwd).mp hc) m₀ hm₀ (halike₀.name ▸ hname))

theorem distinct (h : IsTree get root) (hp : ∃ n, get p = some n)
    (hfree : ∀ n, get p = some n → ∀ c ∈ n.children, ∀ m, get c = some m → m.name = name → c = wd)
    (hpne : p ≠ wd) {q c d : κ} {n' m m' : Entry κ ν} (hn' : get' q = some n')
    (hc : c ∈ n'.children) (hd : d ∈ n'.children) (hm : get' c = some m) (hm' : get' d = some m')
    (hname : m.name = m'.name) : c = d := by
  by_cases hcwd : c = wd
  · by_cases hdwd : d = wd
    · exact hcwd.trans hdwd.symm
    · subst hcwd
      obtain rfl := hg.lister h hn' hc
      obtain rfl := Option.some.inj (hg.node.symm.trans hm)
      exact absurd hname.symm (hg.free hp hfree hpne hn' hd hdwd hm')
  · by_cases hdwd : d = wd
    · subst hdwd
      obtain rfl := hg.lister h hn' hd
      obtain rfl := Option.some.inj (hg.node.symm.trans hm')
      exact absurd hname (hg.free hp hfree hpne hn' hc hcwd hm)
    · obtain ⟨m₀, hm₀, halike₀⟩ := hg.back hp hcwd hm
      obtain ⟨m₁, hm₁, halike₁⟩ := hg.back hp hdwd hm'
      have hname' : m₀.name = m₁.name := by
        rw [← halike₀.name, ← halike₁.name, hname]
      obtain ⟨n, hn, hc, hd⟩ : ∃ n, get q = some n ∧ c ∈ n.children ∧ d ∈ n.children := by
        by_cases hq : q = wd
        · subst hq
          obtain rfl := Option.some.inj (hg.node.symm.trans hn')
          obtain ⟨_, w, hw, hcw, _⟩ := h.brought hc
          obtain ⟨_, w', hw', hdw, _⟩ := h.brought hd
          obtain rfl := Option.some.inj (hw.symm.trans hw')
          exact ⟨w, hw, hcw, hdw⟩
        · obtain ⟨n, hn, halike⟩ := hg.back hp hq hn'
          exact ⟨n, hn, (halike.mem c hcwd).mp hc, (halike.mem d hdwd).mp hd⟩
      exact h.distinct q n hn c hc d hd m₀ m₁ hm₀ hm₁ hname'

end Grafts

/-- A node, new or taken with what is beneath it, put under a parent that is not beneath it. -/
theorem graft (h : IsTree get root) (hg : Grafts get get' wd p name) (hne : wd ≠ root)
    (hp : ∃ n, get p = some n) (hloop : ¬Beneath get p wd)
    (hfree : ∀ n, get p = some n → ∀ c ∈ n.children, ∀ m, get c = some m → m.name = name → c = wd) :
    IsTree get' root := by
  have hpne : p ≠ wd := fun heq => hloop (heq ▸ .refl)
  obtain ⟨pn, hpn⟩ := hp
  have hwd : Beneath get' wd root := .head ⟨_, hg.node, rfl⟩ (hg.reaches_aside h hpn hloop)
  refine ⟨?_, ?_, ?_, ?_, ?_, ?_⟩
  · obtain ⟨n, hn⟩ := h.top
    obtain ⟨n', hn', _⟩ := hg.keeps (Ne.symm hne) hn
    exact ⟨n', hn'⟩
  · intro q n' hn' c hc
    exact hg.listed h ⟨pn, hpn⟩ hn' hc
  · intro c m' hm' q hq
    exact hg.linked h ⟨pn, hpn⟩ hm' hq
  · intro c m' hm'
    by_cases hcwd : c = wd
    · subst hcwd
      obtain rfl := Option.some.inj (hg.node.symm.trans hm')
      simp [hne]
    · obtain ⟨m, hm, halike⟩ := hg.back ⟨pn, hpn⟩ hcwd hm'
      rw [halike.parent]
      exact h.rooted c m hm
  · intro q n' hn' c hc d hd m m' hm hm' hname
    exact hg.distinct h ⟨pn, hpn⟩ hfree hpne hn' hc hd hm hm' hname
  · intro c m' hm'
    by_cases hb : Beneath get c wd
    · exact hg.reaches_through hwd hb
    · obtain ⟨m, hm, _⟩ := hg.back ⟨pn, hpn⟩ (fun heq => hb (heq ▸ .refl)) hm'
      exact hg.reaches_aside h hm hb

/-- The arena of the root alone. -/
theorem single (hroot : ∃ name, get root = some ⟨none, name, []⟩) (hrest : ∀ k, k ≠ root → get k = none) :
    IsTree get root := by
  obtain ⟨name, hroot⟩ := hroot
  have honly : ∀ k n, get k = some n → k = root ∧ n = ⟨none, name, []⟩ := by
    intro k n hn
    by_cases hk : k = root
    · subst hk
      exact ⟨rfl, (Option.some.inj (hroot.symm.trans hn)).symm⟩
    · rw [hrest k hk] at hn
      cases hn
  refine ⟨⟨_, hroot⟩, ?_, ?_, ?_, ?_, ?_⟩
  · intro q n hn c hc
    obtain ⟨_, rfl⟩ := honly q n hn
    simp at hc
  · intro c m hm q hq
    obtain ⟨_, rfl⟩ := honly c m hm
    cases hq
  · intro c m hm
    obtain ⟨rfl, rfl⟩ := honly c m hm
    simp
  · intro q n hn c hc
    obtain ⟨_, rfl⟩ := honly q n hn
    simp at hc
  · intro c m hm
    obtain ⟨rfl, _⟩ := honly c m hm
    exact .refl

end IsTree
end Arena
end DriveSync
