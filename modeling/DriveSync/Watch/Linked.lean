import DriveSync.Watch.Tree

/-!
# DriveSync.Watch.Linked

The arena as a tree, over one change of it, and what the tree is good for.

* `look_sweep`, `look_forget`: a node dropped with exactly what is beneath it.
* `isTree_attach`: a node attached where it fits.
* `isSome_relative`: every node of a tree has a path.
-/

namespace DriveSync
namespace Watch

open Arena

/-- The nodes as a look-up. -/
abbrev look (nodes : Nodes) (wd : Wd) : Option Node := nodes[wd]?

theorem look_erase {nodes : Nodes} {wd k : Wd} :
    look (nodes.erase wd) k = if k = wd then none else look nodes k := by
  by_cases hk : k = wd
  · subst hk
    simp [look]
  · simp [look, Std.TreeMap.getElem?_erase, hk, Ne.symm hk]

theorem look_insert {nodes : Nodes} {wd k : Wd} {node : Node} :
    look (nodes.insert wd node) k = if k = wd then some node else look nodes k := by
  by_cases hk : k = wd
  · subst hk
    simp [look]
  · simp [look, Std.TreeMap.getElem?_insert, hk, Ne.symm hk]

theorem look_modify {nodes : Nodes} {wd k : Wd} {f : Node → Node} :
    look (nodes.modify wd f) k = if k = wd then (look nodes k).map f else look nodes k := by
  by_cases hk : k = wd
  · subst hk
    simp [look]
  · simp [look, Std.TreeMap.getElem?_modify, hk, Ne.symm hk]

theorem contains_iff {nodes : Nodes} {wd : Wd} :
    nodes.contains wd = true ↔ ∃ node, look nodes wd = some node := by
  rw [Std.TreeMap.contains_eq_isSome_getElem?, Option.isSome_iff_exists]

/-! ## Forgetting -/

/-- What is beneath the stack stays beneath it while its top is dropped, but for the top itself. -/
theorem above_push {nodes : Nodes} {current k : Wd} {remove : Bool} {stack : List (Wd × Bool)}
    {node : Node} (hnode : nodes[current]? = some node) :
    (∃ x ∈ (current, remove) :: stack, Over (look nodes) x.1 k) ↔ k = current ∨
      ∃ x ∈ orphans node ++ stack,
        Over (look (nodes.erase current)) x.1 k := by
  have hothers : ∀ k, k ≠ current → look (nodes.erase current) k = look nodes k := by
    intro k hk
    rw [look_erase, if_neg hk]
  have hless : ∀ p c, Lists (look (nodes.erase current)) p c → Lists (look nodes) p c := by
    rintro p c ⟨n, hn, hmem⟩
    rw [look_erase] at hn
    split at hn
    · cases hn
    · exact ⟨n, hn, hmem⟩
  have hchild : ∀ c ∈ node.children,
      (c, true) ∈ orphans node ++ stack := by
    intro c hc
    simp [orphans, hc]
  constructor
  · rintro ⟨x, hx, hk⟩
    rcases over_drop hnode hothers hk with hleft | heq | ⟨c, hc, hck⟩
    · rcases List.mem_cons.mp hx with rfl | hx
      · rcases Relation.ReflTransGen.cases_head hleft with heq | ⟨c, ⟨n, hn, _⟩, _⟩
        · exact .inl heq.symm
        · rw [look_erase, if_pos rfl] at hn
          cases hn
      · exact .inr ⟨x, List.mem_append_right _ hx, hleft⟩
    · exact .inl heq
    · exact .inr ⟨(c, true), hchild c hc, hck⟩
  · rintro (rfl | ⟨x, hx, hk⟩)
    · exact ⟨(k, remove), List.mem_cons_self, .refl⟩
    · have hk := hk.mono hless
      rcases List.mem_append.mp hx with hx | hx
      · obtain ⟨c, hc, rfl⟩ := List.mem_map.mp (List.mem_reverse.mp hx)
        exact ⟨(current, remove), List.mem_cons_self, .head ⟨node, hnode, hc⟩ hk⟩
      · exact ⟨x, List.mem_cons_of_mem _ hx, hk⟩

/-- What the sweep drops, and that it leaves the rest as it was. -/
theorem look_sweep (nodes : Nodes) (released : List Wd) (stack : List (Wd × Bool)) (k : Wd) :
    ((∃ x ∈ stack, Over (look nodes) x.1 k) → look (sweep nodes released stack).1 k = none) ∧
      ((¬∃ x ∈ stack, Over (look nodes) x.1 k) →
        look (sweep nodes released stack).1 k = look nodes k) := by
  induction nodes, released, stack using sweep.induct with
  | case1 nodes released => simp [sweep]
  | case2 nodes before current remove stack released node hnode ih =>
    rw [sweep]
    split
    · rename_i node' hnode'
      obtain rfl := Option.some.inj (hnode.symm.trans hnode')
      rw [above_push hnode]
      constructor
      · rintro (rfl | hin)
        · by_cases hin : ∃ x ∈ orphans node ++ stack,
              Over (look (nodes.erase k)) x.1 k
          · exact ih.1 hin
          · exact (ih.2 hin).trans (by rw [look_erase, if_pos rfl])
        · exact ih.1 hin
      · intro hout
        refine (ih.2 fun hin => hout (.inr hin)).trans ?_
        rw [look_erase, if_neg (fun heq => hout (.inl heq))]
    · rename_i hnone
      rw [hnode] at hnone
      cases hnone
  | case3 nodes before current remove stack released hnode ih =>
    have honly : ∀ k, Over (look nodes) current k → look nodes k = none := by
      intro k hk
      rcases Relation.ReflTransGen.cases_head hk with rfl | ⟨c, ⟨n, hn, _⟩, _⟩
      · exact hnode
      · rw [look, hnode] at hn
        cases hn
    rw [sweep]
    split
    · rename_i node' hnode'
      rw [hnode] at hnode'
      cases hnode'
    · constructor
      · rintro ⟨x, hx, hk⟩
        by_cases hin : ∃ x ∈ stack, Over (look nodes) x.1 k
        · exact ih.1 hin
        · rcases List.mem_cons.mp hx with rfl | hx
          · exact (ih.2 hin).trans (honly k hk)
          · exact absurd ⟨x, hx, hk⟩ hin
      · intro hout
        exact ih.2 fun ⟨x, hx, hk⟩ => hout ⟨x, List.mem_cons_of_mem _ hx, hk⟩

namespace TreeWatch

variable {t : TreeWatch} {root wd k : Wd}

/-- Whether the arena is a tree, whatever node is its root. -/
def Tree (t : TreeWatch) (root : Wd) : Prop := IsTree (look t.nodes) root

theorem look_detach : look (t.detach wd).nodes k =
    if (look t.nodes wd).bind Entry.parent = some k then (look t.nodes k).map (Entry.without wd)
    else look t.nodes k := by
  unfold detach
  cases hparent : t.nodes[wd]?.bind Entry.parent with
  | none => simp [look]
  | some p =>
    simp only [look, Option.some.injEq]
    show look (t.nodes.modify p (Entry.without wd)) k = _
    rw [look_modify]
    by_cases hk : k = p
    · rw [if_pos hk, if_pos hk.symm]
    · rw [if_neg hk, if_neg (Ne.symm hk)]

theorem look_detach_tree (h : t.Tree root) :
    look (t.detach wd).nodes k = (look t.nodes k).map (Entry.without wd) := by
  rw [look_detach]
  split
  · rfl
  · rename_i hnot
    cases hk : look t.nodes k with
    | none => rfl
    | some n =>
      have hunlisted : wd ∉ n.children := by
        intro hmem
        obtain ⟨m, hm, hparent⟩ := h.listed k n hk wd hmem
        exact hnot (by rw [hm]; exact hparent)
      rw [Option.map_some, Entry.without, List.filter_eq_self.mpr]
      intro c hc
      exact decide_eq_true fun heq => hunlisted (heq ▸ hc)

/-- What is beneath a node is what its children lead to once it is unlinked. -/
theorem above_detach (h : t.Tree root) :
    Over (look (t.detach wd).nodes) wd k ↔ Beneath (look t.nodes) k wd := by
  constructor
  · intro hab
    refine h.over_iff_beneath.mp (hab.mono ?_)
    rintro p c ⟨n', hn', hmem⟩
    rw [look_detach_tree h] at hn'
    obtain ⟨n, hn, rfl⟩ := Option.map_eq_some_iff.mp hn'
    exact ⟨n, hn, (IsTree.mem_without.mp hmem).1⟩
  · intro hbe
    have hab := h.over_iff_beneath.mpr hbe
    clear hbe
    induction hab with
    | refl => exact .refl
    | @tail b k _ hstep ih =>
      by_cases hk : k = wd
      · subst hk
        exact .refl
      · obtain ⟨n, hn, hmem⟩ := hstep
        refine .tail ih ⟨n.without wd, ?_, IsTree.mem_without.mpr ⟨hmem, hk⟩⟩
        rw [look_detach_tree h, hn]
        rfl

/-- To forget a node removes exactly what is beneath it, and unlinks it. -/
theorem look_forget (h : t.Tree root) (removeSelf : Bool) :
    (Beneath (look t.nodes) k wd → look (t.forget wd removeSelf).nodes k = none) ∧
      (¬Beneath (look t.nodes) k wd →
        look (t.forget wd removeSelf).nodes k = (look t.nodes k).map (Entry.without wd)) := by
  rw [← above_detach h, ← look_detach_tree h]
  unfold forget
  cases hwd : t.nodes[wd]? with
  | none =>
    have hdetach : t.detach wd = t := by simp [detach, hwd]
    have hnodes : (if removeSelf then { t with released := t.released ++ [wd] } else t).nodes =
        t.nodes := by split <;> rfl
    rw [hdetach]
    simp only [hnodes, implies_true, and_true]
    intro hab
    rcases Relation.ReflTransGen.cases_head hab with rfl | ⟨c, ⟨n, hn, _⟩, _⟩
    · exact hwd
    · rw [look, hwd] at hn
      cases hn
  | some node =>
    have hswept := look_sweep (t.detach wd).nodes t.released [(wd, removeSelf)] k
    simpa using hswept

theorem isTree_forget (h : t.Tree root) (hne : wd ≠ root) (removeSelf : Bool) :
    (t.forget wd removeSelf).Tree root :=
  IsTree.prune h hne (fun _ hk => (look_forget h removeSelf).1 hk)
    (fun _ hk => (look_forget h removeSelf).2 hk)

@[simp] theorem rootWd_detach : (t.detach wd).rootWd = t.rootWd := by
  unfold detach
  split <;> rfl

@[simp] theorem rootWd_forget {removeSelf : Bool} : (t.forget wd removeSelf).rootWd = t.rootWd := by
  unfold forget
  split
  · split <;> rfl
  · rfl

@[simp] theorem rootWd_place {parent : Option Wd} {name : OsText} :
    (t.place wd parent name).rootWd = t.rootWd := by
  unfold place
  cases parent with
  | none => simp [apply_ite TreeWatch.rootWd]
  | some p =>
    simp only
    split <;> simp [apply_ite TreeWatch.rootWd]

@[simp] theorem rootWd_attach {parent : Option Wd} {name : OsText} :
    (t.attach wd parent name).rootWd = t.rootWd := by
  unfold attach
  split
  · exact rootWd_forget
  · split
    · rfl
    · exact rootWd_place

/-- Where a node may be put without breaking the tree: where it is, or under a parent that is not
beneath it and has no other child of that name. Only the root is never dropped for want of a parent. -/
def Fits (t : TreeWatch) (wd parent : Wd) (name : OsText) : Prop :=
  if t.nodes.contains parent then
    (∃ m, look t.nodes wd = some m ∧ m.parent = some parent ∧ m.name = name) ∨
      ¬Beneath (look t.nodes) parent wd ∧ ∀ n, look t.nodes parent = some n →
        ∀ c ∈ n.children, ∀ m, look t.nodes c = some m → m.name = name → c = wd
  else t.rootWd ≠ some wd

theorem fits_of_top {parent : Wd} {name : OsText} {n : Node} (hn : look t.nodes parent = some n)
    (htop : n.parent = none) (hne : parent ≠ wd)
    (hfree : n.children.all (fun c =>
      (look t.nodes c).all fun m => decide (m.name = name → c = wd)) = true) :
    t.Fits wd parent name := by
  unfold Fits
  rw [if_pos (contains_iff.mpr ⟨n, hn⟩)]
  refine .inr ⟨?_, ?_⟩
  · intro hb
    rcases Relation.ReflTransGen.cases_head hb with heq | ⟨q, ⟨m, hm, hq⟩, _⟩
    · exact hne heq
    · obtain rfl := Option.some.inj (hn.symm.trans hm)
      rw [htop] at hq
      cases hq
  · intro n' hn' c hc m hm
    obtain rfl := Option.some.inj (hn.symm.trans hn')
    have hall := List.all_eq_true.mp hfree c hc
    rw [hm, Option.all_some] at hall
    exact of_decide_eq_true hall

theorem look_removed (h : t.Tree root) : look ((t.detach wd).nodes.erase wd) k =
    if k = wd then none else (look t.nodes k).map (Entry.without wd) := by
  rw [look_erase, look_detach_tree h]

theorem detach_eq (t : TreeWatch) (wd : Wd) :
    (if t.nodes.contains wd then t.detach wd else t) = t.detach wd := by
  split
  · rfl
  · rename_i hnot
    have hnone : t.nodes[wd]? = none := by
      rw [Std.TreeMap.contains_eq_isSome_getElem?] at hnot
      simpa using hnot
    simp [detach, hnone]

theorem children_detach (h : t.Tree root) :
    ((look (t.detach wd).nodes wd).map Entry.children).getD [] =
      (look t.nodes wd).elim [] Entry.children := by
  have hself : look (t.detach wd).nodes wd = look t.nodes wd := by
    rw [look_detach, if_neg]
    intro hloop
    obtain ⟨m, hm, hparent⟩ := Option.bind_eq_some_iff.mp hloop
    exact h.parent_ne_self hm hparent
  rw [hself]
  cases look t.nodes wd <;> rfl

/-- Where the name is free, nothing is unlinked for it. -/
theorem child_removed (h : t.Tree root) {p : Wd} {name : OsText}
    (hfree : ∀ n, look t.nodes p = some n →
      ∀ c ∈ n.children, ∀ m, look t.nodes c = some m → m.name = name → c = wd) :
    child { t.detach wd with nodes := (t.detach wd).nodes.erase wd } p name = none := by
  unfold child
  rw [Option.bind_eq_none_iff]
  intro n' hn'
  replace hn' : look ((t.detach wd).nodes.erase wd) p = some n' := hn'
  rw [look_removed h] at hn'
  split at hn'
  · cases hn'
  · obtain ⟨n, hn, rfl⟩ := Option.map_eq_some_iff.mp hn'
    rw [List.find?_eq_none]
    intro c hc hnamed
    obtain ⟨hc, hcne⟩ := IsTree.mem_without.mp hc
    obtain ⟨m', hm', hname⟩ := (Option.any_eq_true _ _).mp hnamed
    replace hm' : look ((t.detach wd).nodes.erase wd) c = some m' := hm'
    rw [look_removed h, if_neg hcne] at hm'
    obtain ⟨m, hm, rfl⟩ := Option.map_eq_some_iff.mp hm'
    exact hcne (hfree n hn c hc m hm (of_decide_eq_true hname))

theorem grafts_place (h : t.Tree root) {p : Wd} {name : OsText} (hpne : p ≠ wd)
    (hfree : ∀ n, look t.nodes p = some n →
      ∀ c ∈ n.children, ∀ m, look t.nodes c = some m → m.name = name → c = wd) :
    IsTree.Grafts (look t.nodes) (look (t.place wd (some p) name).nodes) wd p name := by
  have hplace : (t.place wd (some p) name).nodes =
      (((t.detach wd).nodes.erase wd).modify p fun node =>
        { node with children := node.children ++ [wd] }).insert wd
          ⟨some p, name, (look t.nodes wd).elim [] Entry.children⟩ := by
    unfold place
    rw [detach_eq, ← children_detach h]
    simp only [child_removed h hfree]
  rw [hplace]
  constructor
  · rw [look_insert, if_pos rfl]
  · intro n hn
    rw [look_insert, if_neg hpne, look_modify, if_pos rfl, look_removed h, if_neg hpne, hn]
    rfl
  · intro k hk hkp
    rw [look_insert, if_neg hk, look_modify, if_neg hkp, look_removed h, if_neg hk]

theorem isTree_attach (h : t.Tree root) (hroot : t.rootWd = some root) {p : Wd} {name : OsText}
    (hfits : t.Fits wd p name) : (t.attach wd (some p) name).Tree root := by
  unfold Fits at hfits
  unfold attach
  by_cases hp : t.nodes.contains p = true
  · rw [if_pos hp] at hfits
    rw [if_neg (by simpa using hp)]
    split
    · exact h
    · rename_i hmoved
      rcases hfits with ⟨m, hm, hparent, hname⟩ | ⟨hloop, hfree⟩
      · exact absurd (by simp [show t.nodes[wd]? = some m from hm, hparent, hname]) hmoved
      · have hpne : p ≠ wd := fun heq => hloop (heq ▸ .refl)
        obtain ⟨pn, hpn⟩ := contains_iff.mp hp
        have hne : wd ≠ root := by
          rintro rfl
          exact hloop (h.reaches p pn hpn)
        exact IsTree.graft h (grafts_place h hpne hfree) hne ⟨pn, hpn⟩ hloop hfree
  · rw [if_neg hp] at hfits
    rw [if_pos (by rw [Option.any_some, Bool.eq_false_of_not_eq_true hp, Bool.not_false])]
    refine isTree_forget h ?_ true
    rintro rfl
    exact hfits hroot

/-! ## Paths -/

theorem isSome_climb {nodes : Nodes} {way : List Wd} (hway : Climbs (look nodes) wd way) :
    ∀ {fuel : Nat} {names : List (List Char)}, way.length ≤ fuel →
      (climb nodes fuel wd names).isSome = true := by
  induction hway with
  | @top c m hm hnone =>
    intro fuel names hfuel
    obtain ⟨fuel, rfl⟩ := Nat.exists_eq_add_of_le' (show 1 ≤ fuel from hfuel)
    simp only [climb, show nodes[c]? = some m from hm, hnone, Option.isSome_some]
  | @up c p way hstep _ ih =>
    intro fuel names hfuel
    obtain ⟨m, hm, hparent⟩ := hstep
    rw [List.length_cons] at hfuel
    obtain ⟨fuel, rfl⟩ := Nat.exists_eq_add_of_le' (Nat.le_trans (Nat.le_add_left 1 _) hfuel)
    simp only [climb, show nodes[c]? = some m from hm, hparent]
    exact ih (by omega)

/-- The way to the root passes no node twice, so the climb is through before it is given up. -/
theorem isSome_relative (h : t.Tree root) {m : Node} (hm : look t.nodes wd = some m) :
    (t.relative wd).isSome = true := by
  obtain ⟨way, hway, hnodup, hbeneath⟩ := h.climbs hm
  have hkeys : way ⊆ t.nodes.keys := by
    intro k hk
    obtain ⟨n, hn⟩ := h.get_of_beneath hm (hbeneath k hk)
    rw [Std.TreeMap.mem_keys, Std.TreeMap.mem_iff_isSome_getElem?]
    exact Option.isSome_iff_exists.mpr ⟨n, hn⟩
  have hlength : way.length ≤ t.nodes.size := by
    rw [← Std.TreeMap.length_keys]
    exact (List.subperm_of_subset hnodup hkeys).length_le
  rw [relative, Option.isSome_map]
  exact isSome_climb hway (Nat.le_succ_of_le hlength)

/-- The arena is a tree with the root the watch has; every node has a path; and to forget a node
removes exactly what is beneath it, the rest but for the link to it staying as it is. -/
structure Sound (t : TreeWatch) : Prop where
  tree : ∃ root, t.rootWd = some root ∧ t.Tree root
  relative : ∀ wd, t.nodes.contains wd = true → (t.relative wd).isSome = true
  removes : ∀ wd removeSelf k, (t.forget wd removeSelf).nodes.contains k = true ↔
    t.nodes.contains k = true ∧ ¬Beneath (look t.nodes) k wd
  keeps : ∀ wd removeSelf k, ¬Beneath (look t.nodes) k wd →
    look (t.forget wd removeSelf).nodes k = (look t.nodes k).map (Entry.without wd)

theorem sound_of_tree (hroot : t.rootWd = some root) (h : t.Tree root) : t.Sound where
  tree := ⟨root, hroot, h⟩
  relative wd hwd := by
    obtain ⟨m, hm⟩ := contains_iff.mp hwd
    exact isSome_relative h hm
  removes wd removeSelf k := by
    rw [contains_iff, contains_iff]
    by_cases hb : Beneath (look t.nodes) k wd
    · simp [(look_forget h removeSelf).1 hb, hb]
    · rw [(look_forget h removeSelf).2 hb]
      simp [hb]
  keeps wd removeSelf k hb := (look_forget h removeSelf).2 hb

end TreeWatch

end Watch
end DriveSync
