import DriveSync.Walk.Visits

/-!
# DriveSync.Walk.Sealed

What the remote walk leaves behind, whatever the NAS answers: every folder on the way to an entry is
an entry itself, a folder no link, mount point or refused listing stands for, and neither managed
nor ignored unless the scope lies at or beneath it.

A folder that waits holds nothing yet, so that it may still be dropped, or marked, when its own turn
comes and its listing fails (`Sealed.nothing_beneath`).

* `Sealed`: what holds between two items.
* `walkItem_sealed`, `unlisted_sealed`: the steps of one turn.
* `Approached`: what holds on the way down to the scope.
* `remoteInventoryScoped_sealed`: the whole walk.
-/

namespace DriveSync

open Path

section Sealed

variable [Unicode] {station : FileStation} {root : RemoteRoot} {rules : IgnoreRules}
  {scopePath : RelPath}

/-- An entry the walk may go beneath. -/
def Passable (rules : IgnoreRules) (scopePath : RelPath) (entries : RemoteMap) (a : RelPath) :
    Prop :=
  ∃ d, entries.get? a = some d ∧ d.kind = .directory ∧ d.mountPointType = none ∧
    (AtOrUnder a scopePath ∨ excludedFromWalk rules a true = false)

variable (station) in
/-- A folder whose listing was asked for and came. -/
def Unlocked (walk : Walk) (folder : RelPath) : Prop :=
  folder ∈ walk.listed.map (·.1) ∧ ∃ listing, station.list folder = .ok listing

variable (station root) in
/-- A path one level beneath a folder whose listing came. -/
def InListed (walk : Walk) (r : RelPath) : Prop :=
  ∃ q n, r = .child q n ∧ Unlocked station walk (root.path.append q)

omit [Unicode] in
theorem Unlocked.congr {walk walk' : Walk} (hlisted : ∀ w ∈ walk.listed, w ∈ walk'.listed)
    {folder : RelPath} (h : Unlocked station walk folder) : Unlocked station walk' folder := by
  obtain ⟨hmem, hlist⟩ := h
  obtain ⟨w, hw, rfl⟩ := List.mem_map.mp hmem
  exact ⟨List.mem_map_of_mem (hlisted w hw), hlist⟩

omit [Unicode] in
theorem InListed.congr {walk walk' : Walk} (hlisted : ∀ w ∈ walk.listed, w ∈ walk'.listed)
    {r : RelPath} (h : InListed station root walk r) : InListed station root walk' r := by
  obtain ⟨q, n, heq, hopened⟩ := h
  exact ⟨q, n, heq, hopened.congr hlisted⟩

variable (station root rules) in
/-- What holds of the walk between two items. Paths are those below the destination. -/
structure Sealed (scopePath : RelPath) (walk : Walk) : Prop where
  once : ((walk.listed ++ walk.pending).map (·.1)).Nodup
  placed : ∀ w ∈ walk.listed ++ walk.pending, ∃ r, w.1 = root.path.append r ∧
    (∃ q, r = scopePath.append q) ∧
    (r = scopePath ∨ InListed station root walk r)
  ordered : ∀ before w after, walk.listed = before ++ w :: after →
    w.1 = root.path.append scopePath ∨ ∃ n, ∃ parent ∈ before, w.1 = .child parent.1 n
  located : ∀ e ∈ walk.entries.values, e.remotePath = root.path.append e.relative
  found : ∀ e ∈ walk.entries.values, AtOrUnder e.relative scopePath ∨
    InListed station root walk e.relative
  waits : ∀ w ∈ walk.pending, ∀ r, w.1 = root.path.append r → r ≠ .root →
    Passable rules scopePath walk.entries r
  closed : ∀ e ∈ walk.entries.values, ∀ a ∈ e.relative.ancestors,
    Passable rules scopePath walk.entries a

omit [Unicode] in
theorem depth_le_of_append {p q : RelPath} : p.depth ≤ (p.append q).depth := by
  rw [depth_append]
  omega

theorem Sealed.opened_above {walk : Walk} (h : Sealed station root rules scopePath walk)
    {r : RelPath} (hr : ∃ q, r = scopePath.append q) :
    ∀ q, Unlocked station walk (root.path.append q) → AtOrUnder r q →
      Unlocked station walk (root.path.append r) := by
  intro q hopened hat
  induction q with
  | root =>
    rcases hat with rfl | hat
    · exact hopened
    · simp at hat
  | child q n ih =>
    rcases hat with rfl | hat
    · exact hopened
    · obtain ⟨w, hw, hwq⟩ := List.mem_map.mp hopened.1
      obtain ⟨r', hr', _, hplaced⟩ := h.placed w (List.mem_append_left _ hw)
      obtain rfl : r' = .child q n := append_injective root.path (hr'.symm.trans hwq)
      rcases hplaced with heq | ⟨q', n', heq, hq'⟩
      · -- the scope itself lies beneath nothing of the scope
        obtain ⟨s, rfl⟩ := hr
        have hlt := depth_lt_of_mem_ancestors hat
        have hle : scopePath.depth ≤ (scopePath.append s).depth := depth_le_of_append
        rw [heq] at hlt
        omega
      · obtain ⟨rfl, rfl⟩ := Path.child.inj heq
        exact ih hq' (mem_ancestors_child.mp hat).2

/-- Nothing has been recorded beneath a folder that was not opened. -/
theorem Sealed.nothing_beneath {walk : Walk} (h : Sealed station root rules scopePath walk)
    {r : RelPath} (hr : ∃ q, r = scopePath.append q)
    (hclosed : ¬Unlocked station walk (root.path.append r)) :
    ∀ e ∈ walk.entries.values, r ∉ e.relative.ancestors := by
  intro e he hmem
  rcases h.found e he with hat | ⟨q, n, heq, hopened⟩
  · obtain ⟨s, rfl⟩ := hr
    have hlt := depth_lt_of_mem_ancestors (mem_ancestors_of_atOrUnder_right hmem hat)
    have hle : scopePath.depth ≤ (scopePath.append s).depth := depth_le_of_append
    omega
  · rw [heq] at hmem
    exact hclosed (h.opened_above hr q hopened (mem_ancestors_child.mp hmem).2)

theorem Sealed.congr {walk walk' : Walk} (h : Sealed station root rules scopePath walk)
    (hlisted : walk'.listed = walk.listed) (hpending : walk'.pending = walk.pending)
    (hentries : walk'.entries = walk.entries) : Sealed station root rules scopePath walk' := by
  have hopened : ∀ r, InListed station root walk r → InListed station root walk' r :=
    fun r => InListed.congr fun w hw => by rw [hlisted]; exact hw
  refine ⟨by rw [hlisted, hpending]; exact h.once, fun w hw => ?_, by rw [hlisted]; exact h.ordered,
    by rw [hentries]; exact h.located, fun e he => ?_, fun w hw r hr hroot => ?_,
    fun e he a ha => ?_⟩
  · rw [hlisted, hpending] at hw
    obtain ⟨r, hr, hq, hplaced⟩ := h.placed w hw
    exact ⟨r, hr, hq, hplaced.imp_right (hopened _)⟩
  · rw [hentries] at he
    exact (h.found e he).imp_right (hopened _)
  · rw [hpending] at hw
    rw [hentries]
    exact h.waits w hw r hr hroot
  · rw [hentries] at he ⊢
    exact h.closed e he a ha

/-! ## One item -/

variable (station root rules scopePath) in
/-- What holds of the walk during the turn of a folder whose listing came. -/
structure FolderTurn (folderRelative : RelPath) (walk : Walk) : Prop where
  sealed : Sealed station root rules scopePath walk
  last : ∃ before real, walk.listed = before ++ [(root.path.append folderRelative, real)]
  beneath : ∃ q, folderRelative = scopePath.append q
  came : ∃ listing, station.list (root.path.append folderRelative) = .ok listing
  passable : folderRelative ≠ .root → Passable rules scopePath walk.entries folderRelative

theorem FolderTurn.opened {folderRelative : RelPath} {walk : Walk}
    (h : FolderTurn station root rules scopePath folderRelative walk) :
    Unlocked station walk (root.path.append folderRelative) := by
  obtain ⟨before, real, hlast⟩ := h.last
  exact ⟨by rw [hlast]; simp, h.came⟩

theorem Passable.insert {entries : RemoteMap} {a : RelPath} {e : RemoteEntry}
    (h : Passable rules scopePath entries a) (hne : e.relative ≠ .root)
    (hnew : entries.get? e.relative = none) : Passable rules scopePath (entries.insert e) a := by
  obtain ⟨d, hd, hrest⟩ := h
  refine ⟨d, ?_, hrest⟩
  rw [EntryMap.get?_insert hne, if_neg]
  · exact hd
  · intro heq
    rw [heq, hd] at hnew
    cases hnew

theorem FolderTurn.insert {folderRelative : RelPath} {walk walk' : Walk}
    (h : FolderTurn station root rules scopePath folderRelative walk) {e : RemoteEntry} {n : Name}
    (hrel : e.relative = .child folderRelative n)
    (hremote : e.remotePath = root.path.append e.relative)
    (hnew : walk.entries.get? e.relative = none) (hlisted : walk'.listed = walk.listed)
    (hpending : walk'.pending = walk.pending) (hentries : walk'.entries = walk.entries.insert e) :
    FolderTurn station root rules scopePath folderRelative walk' := by
  have hne : e.relative ≠ .root := by simp [hrel]
  have hopened : ∀ r, InListed station root walk r → InListed station root walk' r :=
    fun r => InListed.congr fun w hw => by rw [hlisted]; exact hw
  refine ⟨⟨by rw [hlisted, hpending]; exact h.sealed.once, fun w hw => ?_,
    by rw [hlisted]; exact h.sealed.ordered, fun d hd => ?_, fun d hd => ?_,
    fun w hw r hr hroot => ?_, fun d hd a ha => ?_⟩, by rw [hlisted]; exact h.last, h.beneath,
    h.came, fun hroot => by rw [hentries]; exact (h.passable hroot).insert hne hnew⟩
  · rw [hlisted, hpending] at hw
    obtain ⟨r, hr, hq, hplaced⟩ := h.sealed.placed w hw
    exact ⟨r, hr, hq, hplaced.imp_right (hopened _)⟩
  · rw [hentries, EntryMap.mem_values_insert hne hnew] at hd
    rcases hd with rfl | hd
    · exact hremote
    · exact h.sealed.located d hd
  · rw [hentries, EntryMap.mem_values_insert hne hnew] at hd
    rcases hd with rfl | hd
    · exact .inr (hopened _ ⟨folderRelative, n, hrel, h.opened⟩)
    · exact (h.sealed.found d hd).imp_right (hopened _)
  · rw [hpending] at hw
    rw [hentries]
    exact (h.sealed.waits w hw r hr hroot).insert hne hnew
  · rw [hentries, EntryMap.mem_values_insert hne hnew] at hd
    rw [hentries]
    rcases hd with rfl | hd
    · rw [hrel] at ha
      obtain ⟨hroot, hat⟩ := mem_ancestors_child.mp ha
      rcases hat with rfl | hat
      · exact (h.passable hroot).insert hne hnew
      · -- what lies above the folder lies above its entry
        obtain ⟨f, hf, _⟩ := h.passable hroot
        exact (h.sealed.closed f (EntryMap.mem_values_of_get? hf) a
          (by rw [EntryMap.relative_of_get? hf]; exact hat)).insert hne hnew
    · exact (h.sealed.closed d hd a ha).insert hne hnew

theorem FolderTurn.push {folderRelative : RelPath} {walk walk' : Walk}
    (h : FolderTurn station root rules scopePath folderRelative walk) {r : RelPath} {n : Name}
    {child : Waiting} (hrel : r = .child folderRelative n)
    (hchild : child.1 = root.path.append r) (hfresh : child.1 ∉ walk.pending.map (·.1))
    (hpassable : Passable rules scopePath walk.entries r) (hlisted : walk'.listed = walk.listed)
    (hpending : walk'.pending = child :: walk.pending) (hentries : walk'.entries = walk.entries) :
    FolderTurn station root rules scopePath folderRelative walk' := by
  have hopened : ∀ r, InListed station root walk r → InListed station root walk' r :=
    fun r => InListed.congr fun w hw => by rw [hlisted]; exact hw
  have hunlisted : child.1 ∉ walk.listed.map (·.1) := by
    intro hmem
    obtain ⟨w, hw, hwc⟩ := List.mem_map.mp hmem
    obtain ⟨before, real, hlast⟩ := h.last
    have honce := h.sealed.once
    rw [List.map_append] at honce
    have honce := (List.nodup_append.mp honce).1
    rw [hlast, List.mem_append, List.mem_singleton] at hw
    rcases hw with hw | rfl
    · -- its folder was listed before it, and is listed last
      obtain ⟨b, a, rfl⟩ := List.append_of_mem hw
      rw [hlast, List.append_assoc, List.cons_append] at honce
      rcases h.sealed.ordered b w (a ++ [(root.path.append folderRelative, real)])
        (by rw [hlast]; simp) with hscope | ⟨m, parent, hparent, hm⟩
      · obtain ⟨q, hq⟩ := h.beneath
        have heq := append_injective root.path ((hchild.symm.trans hwc.symm).trans hscope)
        have hdepth := congrArg depth heq
        have hle : scopePath.depth ≤ (scopePath.append q).depth := depth_le_of_append
        rw [hrel, depth_child, hq] at hdepth
        omega
      · have heq : root.path.append (.child folderRelative n) = .child parent.1 m := by
          rw [← hm, hwc, hchild, hrel]
        have hfolder : parent.1 = root.path.append folderRelative := (Path.child.inj heq).1.symm
        rw [List.map_append, List.nodup_append] at honce
        refine honce.2.2 _ (List.mem_map_of_mem hparent) _ ?_ hfolder
        simp
    · have hdepth := congrArg depth hwc
      rw [hchild, hrel] at hdepth
      simp at hdepth
  refine ⟨⟨?_, fun w hw => ?_, by rw [hlisted]; exact h.sealed.ordered,
    by rw [hentries]; exact h.sealed.located, fun d hd => ?_, fun w hw p hp hroot => ?_,
    fun d hd a ha => ?_⟩, by rw [hlisted]; exact h.last, h.beneath, h.came,
    fun hroot => by rw [hentries]; exact h.passable hroot⟩
  · rw [hlisted, hpending]
    refine ((List.perm_middle (a := child)).map _).nodup_iff.mpr ?_
    rw [List.map_cons, List.nodup_cons]
    refine ⟨?_, h.sealed.once⟩
    rw [List.map_append, List.mem_append, not_or]
    exact ⟨hunlisted, hfresh⟩
  · rw [hlisted, hpending, List.mem_append, List.mem_cons] at hw
    have hold : w ∈ walk.listed ++ walk.pending ∨ w = child := by
      rw [List.mem_append]
      tauto
    rcases hold with hw | rfl
    · obtain ⟨p, hp, hq, hplaced⟩ := h.sealed.placed w hw
      exact ⟨p, hp, hq, hplaced.imp_right (hopened _)⟩
    · obtain ⟨q, hq⟩ := h.beneath
      exact ⟨r, hchild, ⟨.child q n, by rw [hrel, hq, append_child]⟩,
        .inr (hopened _ ⟨folderRelative, n, hrel, h.opened⟩)⟩
  · rw [hentries] at hd
    exact (h.sealed.found d hd).imp_right (hopened _)
  · rw [hpending, List.mem_cons] at hw
    rw [hentries]
    rcases hw with rfl | hw
    · obtain rfl : r = p := append_injective root.path (hchild.symm.trans hp)
      exact hpassable
    · exact h.sealed.waits w hw p hp hroot
  · rw [hentries] at hd ⊢
    exact h.sealed.closed d hd a ha

theorem FolderTurn.congr {folderRelative : RelPath} {walk walk' : Walk}
    (h : FolderTurn station root rules scopePath folderRelative walk) (hlisted : walk'.listed = walk.listed)
    (hpending : walk'.pending = walk.pending) (hentries : walk'.entries = walk.entries) :
    FolderTurn station root rules scopePath folderRelative walk' :=
  ⟨h.sealed.congr hlisted hpending hentries, by rw [hlisted]; exact h.last, h.beneath, h.came,
    fun hroot => by rw [hentries]; exact h.passable hroot⟩

theorem walkItem_sealed {folderRelative : RelPath} {real : Option (List Char)} {budget : Nat}
    {item : RemoteItem} {walk walk' : Walk} {stop : Bool}
    (h : FolderTurn station root rules scopePath folderRelative walk)
    (hstep : walkItem root rules (root.path.append folderRelative) folderRelative real budget item
      walk = .ok (walk', stop)) :
    FolderTurn station root rules scopePath folderRelative walk' := by
  have hfolder : root.path.append folderRelative ≠ .root := fun heq =>
    root.path_ne_root (append_eq_root.mp heq).1
  rw [walkItem] at hstep
  cases hread : readItem root rules (root.path.append folderRelative) folderRelative real
      walk.visitedRealPaths item with
  | error e => rw [hread] at hstep; cases hstep
  | ok read =>
    rw [hread] at hstep
    obtain ⟨name, _, _, ⟨skip, rfl, _⟩ | ⟨listed, rfl, has⟩⟩ := readItem_cases hfolder hread
    · cases hstep
      exact h.congr rfl rfl rfl
    · have hremote : listed.entry.remotePath = root.path.append listed.entry.relative := by
        rw [has.remotePath]
        exact relative_eq_ok has.relative
      have hrel : listed.entry.relative = .child folderRelative name :=
        append_injective root.path (hremote.symm.trans has.remotePath)
      obtain ⟨counts, more, ⟨_, rfl⟩ | ⟨_, hnew, hcases⟩⟩ := recordEntry_cases hstep
      · exact h.congr rfl rfl rfl
      · have hkept : FolderTurn station root rules scopePath folderRelative { walk with
            entries := walk.entries.insert listed.entry } :=
          h.insert hrel hremote hnew rfl rfl rfl
        rcases hcases with ⟨hdescends, rfl⟩ | ⟨_, rfl⟩
        · simp only [ListedEntry.descends, Bool.and_eq_true, decide_eq_true_eq,
            Option.isNone_iff_eq_none, Bool.not_eq_true'] at hdescends
          obtain ⟨⟨hkind, hmount⟩, hexcluded⟩ := hdescends
          have hdir : item.isdir = true := by
            rw [has.kind, RemoteItem.kind] at hkind
            by_contra hfile
            simp [hfile] at hkind
          rw [has.excluded, hdir] at hexcluded
          refine hkept.push hrel (show (listed.entry.remotePath, listed.real).1 = _ from hremote) ?_
            ⟨listed.entry, ?_, hkind, hmount, .inr hexcluded⟩ rfl rfl rfl
          · intro hmem
            obtain ⟨w, hw, hwc⟩ := List.mem_map.mp hmem
            obtain ⟨d, hd, _⟩ := h.sealed.waits w hw listed.entry.relative
              (hwc.trans hremote) has.ne_root
            rw [hnew] at hd
            cases hd
          · rw [EntryMap.get?_insert has.ne_root, if_pos rfl]
        · exact hkept.congr rfl rfl rfl

theorem walkItems_sealed {folderRelative : RelPath} {real : Option (List Char)} {budget : Nat}
    {items : List RemoteItem} {walk walk' : Walk} {stop : Bool}
    (h : FolderTurn station root rules scopePath folderRelative walk)
    (hrun : walkItems root rules (root.path.append folderRelative) folderRelative real budget items
      walk = .ok (walk', stop)) :
    FolderTurn station root rules scopePath folderRelative walk' := by
  induction items generalizing walk with
  | nil =>
    cases hrun
    exact h
  | cons item items ih =>
    rw [walkItems] at hrun
    cases hitem : walkItem root rules (root.path.append folderRelative) folderRelative real budget
        item walk with
    | error e => rw [hitem] at hrun; cases hrun
    | ok result =>
      obtain ⟨walk1, stop1⟩ := result
      rw [hitem] at hrun
      have h1 := walkItem_sealed h hitem
      cases stop1 with
      | true =>
        cases hrun
        exact h1
      | false => exact ih h1 hrun

/-! ## One folder -/

theorem Sealed.pop {walk walk' : Walk} {next : Waiting} {rest : List Waiting}
    (h : Sealed station root rules scopePath walk) (hpending : walk.pending = next :: rest)
    (hlisted' : walk'.listed = walk.listed ++ [next]) (hpending' : walk'.pending = rest)
    (hentries : walk'.entries = walk.entries) : Sealed station root rules scopePath walk' := by
  have hopened : ∀ r, InListed station root walk r → InListed station root walk' r :=
    fun r => InListed.congr fun w hw => by rw [hlisted']; exact List.mem_append_left _ hw
  have hsame : walk'.listed ++ walk'.pending = walk.listed ++ walk.pending := by
    rw [hlisted', hpending', hpending, List.append_assoc, List.singleton_append]
  have hplaced : ∀ w ∈ walk.listed ++ walk.pending, ∃ r, w.1 = root.path.append r ∧
      (∃ q, r = scopePath.append q) ∧ (r = scopePath ∨ InListed station root walk' r) := by
    intro w hw
    obtain ⟨r, hr, hq, hchild⟩ := h.placed w hw
    exact ⟨r, hr, hq, hchild.imp_right (hopened _)⟩
  refine ⟨by rw [hsame]; exact h.once, by rw [hsame]; exact hplaced, ?_,
    by rw [hentries]; exact h.located, fun e he => ?_, fun w hw r hr hroot => ?_,
    by rw [hentries]; exact h.closed⟩
  · intro before w after hsplit
    rw [hlisted'] at hsplit
    rcases List.append_eq_append_iff.mp hsplit with ⟨a, rfl, ha⟩ | ⟨a, ha, htail⟩
    · cases a with
      | nil =>
        rw [List.nil_append] at ha
        obtain ⟨rfl, rfl⟩ := List.cons.inj ha
        obtain ⟨r, hr, _, heq | ⟨q, n, heq, ho⟩⟩ := h.placed next (by rw [hpending]; simp)
        · exact .inl (heq ▸ hr)
        · obtain ⟨parent, hparent, hpq⟩ := List.mem_map.mp ho.1
          exact .inr ⟨n, parent, by simpa using hparent, by rw [hr, heq, append_child, hpq]⟩
      | cons b a =>
        have hnil := congrArg List.length ha
        simp at hnil
    · cases a with
      | nil =>
        rw [List.append_nil] at ha
        subst ha
        rw [List.nil_append] at htail
        obtain ⟨rfl, rfl⟩ := List.cons.inj htail
        obtain ⟨r, hr, _, heq | ⟨q, n, heq, ho⟩⟩ := h.placed w (by rw [hpending]; simp)
        · exact .inl (heq ▸ hr)
        · obtain ⟨parent, hparent, hpq⟩ := List.mem_map.mp ho.1
          exact .inr ⟨n, parent, hparent, by rw [hr, heq, append_child, hpq]⟩
      | cons b a =>
        rw [List.cons_append] at htail
        obtain ⟨rfl, rfl⟩ := List.cons.inj htail
        exact h.ordered before w a ha
  · rw [hentries] at he
    exact (h.found e he).imp_right (hopened _)
  · rw [hentries]
    exact h.waits w (by rw [hpending, List.mem_cons]; rw [hpending'] at hw; exact .inr hw) r hr hroot

/-- Where one entry changes, above which nothing lies and for which nothing waits, the rest holds on. -/
theorem Sealed.change {walk walk' : Walk} (h : Sealed station root rules scopePath walk) {r : RelPath}
    (hlisted : walk'.listed = walk.listed) (hpending : walk'.pending = walk.pending)
    (hget : ∀ k, k ≠ r → walk'.entries.get? k = walk.entries.get? k)
    (hat : ∀ e, walk'.entries.get? r = some e → ∃ d, walk.entries.get? r = some d ∧
      e.remotePath = d.remotePath)
    (hwaits : ∀ w ∈ walk.pending, w.1 ≠ root.path.append r)
    (hbeneath : ∀ e ∈ walk.entries.values, r ∉ e.relative.ancestors) :
    Sealed station root rules scopePath walk' := by
  have hopened : ∀ r, InListed station root walk r → InListed station root walk' r :=
    fun r => InListed.congr fun w hw => by rw [hlisted]; exact hw
  have hold : ∀ e ∈ walk'.entries.values, ∃ d ∈ walk.entries.values,
      d.relative = e.relative ∧ e.remotePath = d.remotePath := by
    intro e he
    have hgete := EntryMap.mem_values.mp he
    by_cases hk : e.relative = r
    · rw [hk] at hgete
      obtain ⟨d, hd, hremote⟩ := hat e hgete
      exact ⟨d, EntryMap.mem_values_of_get? hd, by rw [EntryMap.relative_of_get? hd, hk], hremote⟩
    · rw [hget _ hk] at hgete
      exact ⟨e, EntryMap.mem_values.mpr hgete, rfl, rfl⟩
  have hpassable : ∀ a, a ≠ r → Passable rules scopePath walk.entries a →
      Passable rules scopePath walk'.entries a := by
    intro a ha hp
    obtain ⟨d, hd, hrest⟩ := hp
    exact ⟨d, by rw [hget a ha]; exact hd, hrest⟩
  refine ⟨by rw [hlisted, hpending]; exact h.once, fun w hw => ?_, by rw [hlisted]; exact h.ordered,
    fun e he => ?_, fun e he => ?_, fun w hw p hp hroot => ?_, fun e he a ha => ?_⟩
  · rw [hlisted, hpending] at hw
    obtain ⟨p, hp, hq, hplaced⟩ := h.placed w hw
    exact ⟨p, hp, hq, hplaced.imp_right (hopened _)⟩
  · obtain ⟨d, hd, hrel, hremote⟩ := hold e he
    rw [hremote, h.located d hd, hrel]
  · obtain ⟨d, hd, hrel, _⟩ := hold e he
    rw [← hrel]
    exact (h.found d hd).imp_right (hopened _)
  · rw [hpending] at hw
    refine hpassable p (fun heq => ?_) (h.waits w hw p hp hroot)
    exact hwaits w hw (heq ▸ hp)
  · obtain ⟨d, hd, hrel, _⟩ := hold e he
    rw [← hrel] at ha
    exact hpassable a (fun heq => hbeneath d hd (heq ▸ ha)) (h.closed d hd a ha)

/-- A folder whose listing failed is dropped, or marked, and nothing lies beneath it. -/
theorem unlisted_sealed {folder : RelPath} {error : ApiError} {walk walk' : Walk}
    (h : Sealed station root rules scopePath walk) {real : Option (List Char)}
    (hfolder : (folder, real) ∈ walk.listed) (hlist : station.list folder = .error error)
    (hstep : unlisted station root rules (root.path.append scopePath) folder error walk =
      .go walk') : Sealed station root rules scopePath walk' := by
  obtain ⟨r, hr, hunder, _⟩ := h.placed _ (List.mem_append_left _ hfolder)
  have hnot : ¬Unlocked station walk (root.path.append r) := by
    intro hopened
    obtain ⟨_, listing, hok⟩ := hopened
    rw [← hr, hlist] at hok
    cases hok
  have hwaits : ∀ w ∈ walk.pending, w.1 ≠ root.path.append r := by
    intro w hw heq
    have honce := h.once
    rw [List.map_append] at honce
    exact (List.nodup_append.mp honce).2.2 folder (List.mem_map.mpr ⟨_, hfolder, rfl⟩) w.1
      (List.mem_map_of_mem hw) (hr.trans heq.symm)
  have hbeneath := h.nothing_beneath hunder hnot
  have hrelative : ∀ relative, root.relative folder = .ok relative → relative = r :=
    fun relative hrel => append_injective root.path ((relative_eq_ok hrel).symm.trans hr)
  rw [unlisted] at hstep
  split at hstep
  · cases hstep
  · split at hstep
    · cases hstep
    · split at hstep
      · cases hrel : root.relative folder with
        | error e => rw [hrel] at hstep; cases hstep
        | ok relative =>
          rw [hrel] at hstep
          cases hstep
          obtain rfl := hrelative relative hrel
          refine h.change rfl rfl (fun k hk => ?_) (fun e he => ?_) hwaits hbeneath
          · rw [EntryMap.get?_erase, if_neg (Ne.symm hk)]
          · rw [EntryMap.get?_erase, if_pos rfl] at he
            cases he
      · split at hstep
        · cases hrel : root.relative folder with
          | error e => rw [hrel] at hstep; cases hstep
          | ok relative =>
            cases hname : (parentAndName folder).mapError unsafePathError with
            | error e => rw [hrel, hname] at hstep; cases hstep
            | ok pair =>
              rw [hrel, hname] at hstep
              obtain ⟨_, name⟩ := pair
              obtain rfl := hrelative relative hrel
              simp only at hstep
              cases hget : walk.entries.get? relative with
              | none =>
                rw [hget] at hstep
                cases hstep
                exact h.congr rfl rfl rfl
              | some entry =>
                rw [hget] at hstep
                cases hstep
                have hentry := EntryMap.relative_of_get? hget
                have hne : entry.relative ≠ .root :=
                  EntryMap.relative_ne_root (EntryMap.mem_values_of_get? hget)
                refine h.change (r := relative) rfl rfl (fun k hk => ?_) (fun e he => ?_) hwaits
                  hbeneath
                · rw [EntryMap.get?_insert (by exact hne), if_neg]
                  rw [hentry]
                  exact Ne.symm hk
                · rw [EntryMap.get?_insert (by exact hne), if_pos hentry] at he
                  obtain rfl := Option.some.inj he
                  exact ⟨entry, hget, rfl⟩
        · cases hstep

theorem walkFolder_sealed {budget : Nat} {walk : Walk}
    (h : Sealed station root rules scopePath walk) :
    (∀ walk', walkFolder station root rules (root.path.append scopePath) budget walk = .go walk' →
      Sealed station root rules scopePath walk') ∧
    ∀ walk', walkFolder station root rules (root.path.append scopePath) budget walk =
      .stop (.ok walk') → Sealed station root rules scopePath walk' := by
  rw [walkFolder]
  cases hpending : walk.pending with
  | nil =>
    refine ⟨fun _ hgo => (by cases hgo), fun _ hstop => ?_⟩
    cases hstop
    exact h
  | cons next rest =>
    obtain ⟨folder, real⟩ := next
    simp only
    split
    · exact ⟨fun _ hgo => (by cases hgo), fun _ hstop => (by cases hstop)⟩
    · have hpopped : Sealed station root rules scopePath { walk with
          pending := rest, listed := walk.listed ++ [(folder, real)] } :=
        h.pop hpending rfl rfl rfl
      cases hlist : station.list folder with
      | error error =>
        refine ⟨fun walk' hgo => ?_, fun walk' hstop => ?_⟩
        · exact unlisted_sealed hpopped (show (folder, real) ∈ walk.listed ++ [(folder, real)] by simp)
            hlist hgo
        · obtain ⟨_, rfl⟩ := unlisted_stop hstop
          exact hpopped.congr rfl rfl rfl
      | ok listing =>
        simp only
        cases hrel : root.relative folder with
        | error e => exact ⟨fun _ hgo => (by cases hgo), fun _ hstop => (by cases hstop)⟩
        | ok folderRelative =>
          obtain rfl := relative_eq_ok hrel
          obtain ⟨r, hr, hunder, _⟩ := h.placed (root.path.append folderRelative, real)
            (by rw [hpending]; simp)
          obtain rfl : folderRelative = r := append_injective root.path hr
          have hturn : FolderTurn station root rules scopePath folderRelative { walk with
              pending := rest
              listed := walk.listed ++ [(root.path.append folderRelative, real)]
              incompleteDirectories :=
                if listing.whole then walk.incompleteDirectories
                else walk.incompleteDirectories ++ [folderRelative]
              linkGuardUnchecked :=
                if real.isNone then walk.linkGuardUnchecked + 1 else walk.linkGuardUnchecked } :=
            ⟨hpopped.congr rfl rfl rfl, ⟨walk.listed, real, rfl⟩, hunder, ⟨listing, hlist⟩,
              fun hroot => h.waits (root.path.append folderRelative, real)
                (by rw [hpending]; simp) folderRelative rfl hroot⟩
          simp only
          split
          · exact ⟨fun _ hgo => (by cases hgo), fun _ hstop => (by cases hstop)⟩
          · rename_i hitems
            refine ⟨fun _ hgo => (by cases hgo), fun walk' hstop => ?_⟩
            cases hstop
            exact (walkItems_sealed hturn hitems).sealed
          · rename_i hitems
            refine ⟨fun walk' hgo => ?_, fun _ hstop => (by cases hstop)⟩
            cases hgo
            exact (walkItems_sealed hturn hitems).sealed

/-! ## From the shared folder down -/

omit [Unicode] in
theorem pairwise_prefixes (p : RelPath) : p.prefixes.Pairwise fun a b => b ∉ a.ancestors := by
  have hdepth : p.prefixes.Pairwise fun a b => a.depth < b.depth := by
    induction p with
    | root => simp [prefixes]
    | child p n ih =>
      cases p with
      | root => simp [prefixes, ancestors]
      | child p m =>
        have hprefixes : (Path.child (.child p m) n).prefixes =
            (Path.child p m).prefixes ++ [.child (.child p m) n] := by
          simp [prefixes, ancestors]
        rw [hprefixes, List.pairwise_append]
        refine ⟨ih, by simp, fun a ha b hb => ?_⟩
        rw [List.mem_singleton.mp hb]
        have := depth_le_of_atOrUnder (mem_prefixes.mp ha)
        simp only [depth_child] at this ⊢
        omega
  refine hdepth.imp fun hlt hmem => ?_
  have := depth_lt_of_mem_ancestors hmem
  omega

variable (root) in
/-- What holds on the way down, once some of the folders have been looked at. -/
structure Approached (scope : Scope) (done : List RelPath) (walk : Walk) : Prop where
  listed : walk.listed = []
  one : walk.pending.length ≤ 1
  pending : ∀ w ∈ walk.pending, w.1 = root.path.append scope.path
  located : ∀ e ∈ walk.entries.values, e.remotePath = root.path.append e.relative
  onWay : ∀ e ∈ walk.entries.values,
    AtOrUnder e.relative scope.path ∧ root.path.append e.relative ∈ done
  folders : ∀ e ∈ walk.entries.values, e.mountPointType = none ∧
    (e.kind = .directory ∨ e.relative = scope.path ∧ walk.pending = [])
  present : ∀ r, r ≠ .root → root.path.append r ∈ done → ∃ e, walk.entries.get? r = some e

omit [Unicode] in
/-- One more folder of the way down, of any kind that may be recorded, or none. -/
theorem Approached.record {scope : Scope} {done : List RelPath} {path : RelPath}
    {walk walk' : Walk} (h : Approached root scope done walk)
    (hlisted : walk'.listed = walk.listed) (hone : walk'.pending.length ≤ 1)
    (hpending : ∀ w ∈ walk'.pending, w.1 = root.path.append scope.path)
    (hempty : walk.pending = [] → walk'.pending = [])
    (hentries : (∃ e r, e.relative = r ∧ r ≠ .root ∧ path = root.path.append r ∧
        e.remotePath = path ∧ AtOrUnder r scope.path ∧ e.mountPointType = none ∧
        (e.kind = .directory ∨ r = scope.path ∧ walk'.pending = []) ∧
        walk'.entries = walk.entries.insert e) ∨
      (∀ r, r ≠ .root → path ≠ root.path.append r) ∧ walk'.entries = walk.entries) :
    Approached root scope (done ++ [path]) walk' := by
  rcases hentries with ⟨e, r, hrel, hroot, hpath, hremote, hat, hmount, hkind, hinsert⟩ |
    ⟨habove, hsame⟩
  · have hne : e.relative ≠ .root := hrel ▸ hroot
    refine ⟨by rw [hlisted]; exact h.listed, hone, hpending, fun d hd => ?_, fun d hd => ?_,
      fun d hd => ?_, fun k hk hmem => ?_⟩
    · rw [hinsert] at hd
      rcases EntryMap.of_mem_values_insert hd with rfl | hd
      · rw [hremote, hpath, hrel]
      · exact h.located d hd
    · rw [hinsert] at hd
      rcases EntryMap.of_mem_values_insert hd with rfl | hd
      · rw [hrel]
        exact ⟨hat, by simp [hpath]⟩
      · obtain ⟨hon, hdone⟩ := h.onWay d hd
        exact ⟨hon, List.mem_append_left _ hdone⟩
    · rw [hinsert] at hd
      rcases EntryMap.of_mem_values_insert hd with rfl | hd
      · exact ⟨hmount, by rw [hrel]; exact hkind⟩
      · obtain ⟨hdmount, hdkind⟩ := h.folders d hd
        exact ⟨hdmount, hdkind.imp_right fun hc => ⟨hc.1, hempty hc.2⟩⟩
    · rw [hinsert, EntryMap.get?_insert hne]
      by_cases heq : e.relative = k
      · exact ⟨e, if_pos heq⟩
      · rw [if_neg heq]
        rcases List.mem_append.mp hmem with hmem | hmem
        · exact h.present k hk hmem
        · refine absurd ?_ heq
          rw [hrel]
          exact append_injective root.path (hpath.symm.trans (List.mem_singleton.mp hmem).symm)
  · refine ⟨by rw [hlisted]; exact h.listed, hone, hpending, by rw [hsame]; exact h.located,
      fun d hd => ?_, fun d hd => ?_, fun k hk hmem => ?_⟩
    · rw [hsame] at hd
      obtain ⟨hon, hdone⟩ := h.onWay d hd
      exact ⟨hon, List.mem_append_left _ hdone⟩
    · rw [hsame] at hd
      obtain ⟨hdmount, hdkind⟩ := h.folders d hd
      exact ⟨hdmount, hdkind.imp_right fun hc => ⟨hc.1, hempty hc.2⟩⟩
    · rw [hsame]
      rcases List.mem_append.mp hmem with hmem | hmem
      · exact h.present k hk hmem
      · exact absurd (List.mem_singleton.mp hmem).symm (habove k hk)

omit [Unicode] in
theorem containsChild_iff {path : RelPath} :
    root.containsChild path = true ↔ ∃ r, r ≠ .root ∧ path = root.path.append r := by
  rw [RemoteRoot.containsChild, Option.any_eq_true]
  simp only [below?_eq_some, decide_eq_true_eq]
  constructor
  · intro h
    obtain ⟨r, hr, hne⟩ := h
    exact ⟨r, hne, hr⟩
  · intro h
    obtain ⟨r, hne, hr⟩ := h
    exact ⟨r, hr, hne⟩

theorem approachBelow_cases {path : RelPath} {info : RemoteItem} {approach : Approach} {walk : Walk}
    (h : approachBelow root path info approach = .ok walk) :
    walk.listed = approach.walk.listed ∧ walk.pending = approach.walk.pending ∧
      ((∃ r size mtime, r ≠ .root ∧ path = root.path.append r ∧
          walk.entries = approach.walk.entries.insert ⟨r, path, info.kind, size, mtime, none, none⟩) ∨
        (∀ r, r ≠ .root → path ≠ root.path.append r) ∧ walk.entries = approach.walk.entries) := by
  simp only [approachBelow] at h
  split at h
  · rename_i hbelow
    obtain ⟨r, hr, hpath⟩ := containsChild_iff.mp hbelow
    cases hrel : root.relative path with
    | error e => rw [hrel] at h; cases h
    | ok relative =>
      rw [hrel] at h
      simp only at h
      split at h
      · cases h
      · rename_i size mtime _
        split at h
        · cases h
        · cases h
          obtain rfl : relative = r :=
            append_injective root.path ((relative_eq_ok hrel).symm.trans hpath)
          exact ⟨rfl, rfl, .inl ⟨relative, size, mtime, hr, hpath, rfl⟩⟩
  · rename_i hbelow
    cases h
    refine ⟨rfl, rfl, .inr ⟨fun r hr heq => hbelow (containsChild_iff.mpr ⟨r, hr, heq⟩), rfl⟩⟩

theorem approachFolder_approached {scope : Scope} {done : List RelPath} {path : RelPath}
    {approach approach' : Approach} (h : Approached root scope done approach.walk)
    (hpath : AtOrUnder path (root.path.append scope.path))
    (hstep : approachFolder station root scope (root.path.append scope.path) path approach =
      .ok (.go approach')) :
    Approached root scope (done ++ [path]) approach'.walk := by
  simp only [approachFolder] at hstep
  split at hstep
  · cases hstep
  · split at hstep
    · split at hstep <;> cases hstep
    · rename_i info _
      split at hstep
      · cases hstep
      · rename_i hkind
        split at hstep
        · cases hstep
        · split at hstep
          · cases hstep
          · rename_i walk hbelow
            obtain ⟨hlisted, hpending, hentries⟩ := approachBelow_cases hbelow
            have hstill : ∀ pending : List Waiting, (pending = [] ∨ pending = walk.pending ∨
                pending = walk.pending.map fun first => (first.1, reportedRealPath info.details)) →
                pending.length ≤ 1 ∧ (∀ w ∈ pending, w.1 = root.path.append scope.path) ∧
                  (approach.walk.pending = [] → pending = []) := by
              intro pending hcases
              rcases hcases with rfl | rfl | rfl
              · simp
              · rw [hpending]
                exact ⟨h.one, h.pending, id⟩
              · rw [hpending]
                refine ⟨by simpa using h.one, fun w hw => ?_, fun hnil => by simp [hnil]⟩
                obtain ⟨w', hw', rfl⟩ := List.mem_map.mp hw
                exact h.pending w' hw'
            obtain ⟨hone, hscope, hempty⟩ := hstill
              (if (decide (path = root.path.append scope.path) && decide (scope.path ≠ .root) &&
                !info.isdir) = true then [] else if decide (path = root.path.append scope.path) = true
                  then walk.pending.map fun first => (first.1, reportedRealPath info.details)
                else walk.pending) (by
              split
              · exact .inl rfl
              · split
                · exact .inr (.inr rfl)
                · exact .inr (.inl rfl))
            have hentry : ∀ walk' : Walk, walk'.listed = walk.listed →
                walk'.pending = (if (decide (path = root.path.append scope.path) &&
                  decide (scope.path ≠ .root) && !info.isdir) = true then []
                  else if decide (path = root.path.append scope.path) = true
                  then walk.pending.map fun first => (first.1, reportedRealPath info.details)
                  else walk.pending) → walk'.entries = walk.entries →
                Approached root scope (done ++ [path]) walk' := by
              intro walk' hl hp he
              refine h.record (by rw [hl, hlisted]) (by rw [hp]; exact hone)
                (by rw [hp]; exact hscope) (by rw [hp]; exact hempty) ?_
              rw [he]
              refine hentries.imp (fun hnew => ?_) id
              obtain ⟨r, size, mtime, hr, hpr, hinsert⟩ := hnew
              have hat : AtOrUnder r scope.path := (atOrUnder_append hr).mp (hpr ▸ hpath)
              refine ⟨⟨r, path, info.kind, size, mtime, none, none⟩, r, rfl, hr, hpr, rfl, hat, rfl,
                ?_, hinsert⟩
              by_cases hdir : info.isdir = true
              · exact .inl (by simp [RemoteItem.kind, hdir])
              · -- only the scope itself may be a file, and then nothing waits
                have hfile : (decide (path = root.path.append scope.path) &&
                    decide (scope.path ≠ .root) && !info.isdir) = true := by
                  by_contra hnot
                  rw [Bool.not_eq_true] at hnot hdir
                  exact hkind (by rw [hnot, hdir]; rfl)
                rw [hp, if_pos hfile]
                simp only [Bool.and_eq_true, decide_eq_true_eq] at hfile
                exact .inr ⟨append_injective root.path (hpr.symm.trans hfile.1.1), rfl⟩
            split at hstep
            · cases hstep
              exact hentry _ rfl rfl rfl
            · cases hstep
              exact hentry _ rfl rfl rfl

theorem approachFolder_stop {scope : Scope} {path : RelPath} {approach : Approach} {walk' : Walk}
    (hstep : approachFolder station root scope (root.path.append scope.path) path approach =
      .ok (.stop walk')) : ∃ exists', walk' = { approach.walk with rootExists := exists' } := by
  simp only [approachFolder] at hstep
  split at hstep
  · cases hstep
  · split at hstep
    · split at hstep
      · cases hstep
        exact ⟨_, rfl⟩
      · cases hstep
    · split at hstep
      · cases hstep
      · split at hstep
        · cases hstep
        · split at hstep
          · cases hstep
          · split at hstep <;> cases hstep

theorem approachAll_approached {scope : Scope} {done paths : List RelPath} {approach : Approach}
    {next : Fuel.Next Approach Walk} (h : Approached root scope done approach.walk)
    (hpaths : ∀ path ∈ paths, AtOrUnder path (root.path.append scope.path))
    (hrun : approachAll station root scope (root.path.append scope.path) paths approach = .ok next) :
    (∀ approach', next = .go approach' → Approached root scope (done ++ paths) approach'.walk) ∧
      ∀ walk', next = .stop walk' →
        ∃ before, before <+: done ++ paths ∧ Approached root scope before walk' := by
  induction paths generalizing done approach with
  | nil =>
    cases hrun
    refine ⟨fun approach' heq => ?_, fun walk' heq => by cases heq⟩
    cases heq
    simpa using h
  | cons path paths ih =>
    rw [approachAll] at hrun
    cases hstep : approachFolder station root scope (root.path.append scope.path) path approach with
    | error e => rw [hstep] at hrun; cases hrun
    | ok result =>
      rw [hstep] at hrun
      cases result with
      | go approach1 =>
        have h1 := approachFolder_approached h (hpaths path (.head _)) hstep
        have hrest := ih h1 (fun p hp => hpaths p (.tail _ hp)) hrun
        rw [List.append_assoc, List.singleton_append] at hrest
        exact hrest
      | stop walk1 =>
        cases hrun
        refine ⟨fun approach' heq => (by cases heq), fun walk' heq => ?_⟩
        cases heq
        obtain ⟨_, rfl⟩ := approachFolder_stop hstep
        exact ⟨done, List.prefix_append _ _, h.listed, h.one, h.pending, h.located, h.onWay,
          h.folders, h.present⟩

/-- On the way down every folder above an entry is an entry, and may be gone beneath. -/
theorem Approached.closed {scope : Scope} {done : List RelPath} {walk : Walk}
    (h : Approached root scope done walk) (hdone : done <+: (root.path.append scope.path).prefixes)
    {e : RemoteEntry} (he : e ∈ walk.entries.values) {a : RelPath} (ha : a ∈ e.relative.ancestors) :
    Passable rules scope.path walk.entries a := by
  obtain ⟨hat, hmem⟩ := h.onWay e he
  have hroot := ne_root_of_mem_ancestors ha
  have habove : root.path.append a ∈ (root.path.append e.relative).ancestors :=
    (mem_ancestors_append hroot).mpr ha
  have hscope := mem_ancestors_of_atOrUnder_right ha hat
  have hall : root.path.append a ∈ (root.path.append scope.path).prefixes :=
    mem_prefixes.mpr (.inr ((mem_ancestors_append hroot).mpr hscope))
  obtain ⟨rest, hrest⟩ := hdone
  have hin : root.path.append a ∈ done := by
    rw [← hrest, List.mem_append] at hall
    rcases hall with hin | hlater
    · exact hin
    · have hpairwise := pairwise_prefixes (root.path.append scope.path)
      rw [← hrest] at hpairwise
      exact absurd habove ((List.pairwise_append.mp hpairwise).2.2 _ hmem _ hlater)
  obtain ⟨d, hd⟩ := h.present a hroot hin
  obtain ⟨hmount, hkind⟩ := h.folders d (EntryMap.mem_values_of_get? hd)
  have hdrel := EntryMap.relative_of_get? hd
  refine ⟨d, hd, ?_, hmount, .inl (.inr hscope)⟩
  rcases hkind with hdir | ⟨heq, _⟩
  · exact hdir
  · rw [hdrel] at heq
    exact absurd hscope (heq ▸ not_mem_ancestors_self a)

/-! ## No digest

The walk reads what the NAS lists, and no file. -/

theorem readItem_undigested {folder folderRelative : RelPath} {real : Option (List Char)}
    {visited : List (List Char)} {item : RemoteItem} {listed : ListedEntry}
    (h : readItem root rules folder folderRelative real visited item = .ok (.inr listed)) :
    listed.entry.contentMd5 = none := by
  simp only [readItem] at h
  split at h
  · cases h
  · split at h
    · cases h
    · split at h
      · cases h
      · cases h
      · split at h
        · cases h
        · split at h
          · cases h
          · cases h
            rfl

omit [Unicode] in
theorem undigested_insert {entries : RemoteMap} {e : RemoteEntry}
    (h : ∀ d ∈ entries.values, d.contentMd5 = none) (he : e.contentMd5 = none) :
    ∀ d ∈ (entries.insert e).values, d.contentMd5 = none := by
  intro d hd
  rcases EntryMap.of_mem_values_insert hd with rfl | hd
  · exact he
  · exact h d hd

theorem walkItem_undigested {folder folderRelative : RelPath} {real : Option (List Char)}
    {budget : Nat} {item : RemoteItem} {walk walk' : Walk} {stop : Bool}
    (h : ∀ e ∈ walk.entries.values, e.contentMd5 = none)
    (hstep : walkItem root rules folder folderRelative real budget item walk = .ok (walk', stop)) :
    ∀ e ∈ walk'.entries.values, e.contentMd5 = none := by
  rw [walkItem] at hstep
  split at hstep
  · cases hstep
  · cases hstep
    exact h
  · rename_i listed hread
    have hkept := undigested_insert h (readItem_undigested hread)
    obtain ⟨counts, more, ⟨_, rfl⟩ | ⟨_, _, ⟨_, rfl⟩ | ⟨_, rfl⟩⟩⟩ := recordEntry_cases hstep
    · exact h
    · exact hkept
    · exact hkept

theorem walkItems_undigested {folder folderRelative : RelPath} {real : Option (List Char)}
    {budget : Nat} {items : List RemoteItem} {walk walk' : Walk} {stop : Bool}
    (h : ∀ e ∈ walk.entries.values, e.contentMd5 = none)
    (hrun : walkItems root rules folder folderRelative real budget items walk = .ok (walk', stop)) :
    ∀ e ∈ walk'.entries.values, e.contentMd5 = none := by
  induction items generalizing walk with
  | nil =>
    cases hrun
    exact h
  | cons item items ih =>
    rw [walkItems] at hrun
    split at hrun
    · cases hrun
    · rename_i hitem
      cases hrun
      exact walkItem_undigested h hitem
    · rename_i hitem
      exact ih (walkItem_undigested h hitem) hrun

theorem unlisted_undigested {folder : RelPath} {error : ApiError} {walk walk' : Walk}
    (h : ∀ e ∈ walk.entries.values, e.contentMd5 = none)
    (hrun : unlisted station root rules scopePath folder error walk = .go walk') :
    ∀ e ∈ walk'.entries.values, e.contentMd5 = none := by
  simp only [unlisted] at hrun
  split at hrun
  · cases hrun
  · split at hrun
    · cases hrun
    · split at hrun
      · split at hrun
        · cases hrun
        · cases hrun
          intro e he
          rw [EntryMap.mem_values, EntryMap.get?_erase] at he
          split at he
          · cases he
          · exact h e (EntryMap.mem_values.mpr he)
      · split at hrun
        · split at hrun
          · cases hrun
          · cases hrun
          · cases hrun
            dsimp only
            split
            · rename_i entry hentry
              exact undigested_insert h (h entry (EntryMap.mem_values_of_get? hentry))
            · exact h
        · cases hrun

theorem walkFolder_undigested {budget : Nat} {walk : Walk}
    (h : ∀ e ∈ walk.entries.values, e.contentMd5 = none) :
    (∀ walk', walkFolder station root rules scopePath budget walk = .go walk' →
      ∀ e ∈ walk'.entries.values, e.contentMd5 = none) ∧
    ∀ walk', walkFolder station root rules scopePath budget walk = .stop (.ok walk') →
      ∀ e ∈ walk'.entries.values, e.contentMd5 = none := by
  rw [walkFolder]
  split
  · refine ⟨fun _ hgo => (by cases hgo), fun _ hstop => ?_⟩
    cases hstop
    exact h
  · dsimp only
    split
    · exact ⟨fun _ hgo => (by cases hgo), fun _ hstop => (by cases hstop)⟩
    · split
      · refine ⟨fun _ hgo => unlisted_undigested (by exact h) hgo, fun _ hstop => ?_⟩
        obtain ⟨_, rfl⟩ := unlisted_stop hstop
        exact h
      · split
        · exact ⟨fun _ hgo => (by cases hgo), fun _ hstop => (by cases hstop)⟩
        · split
          · exact ⟨fun _ hgo => (by cases hgo), fun _ hstop => (by cases hstop)⟩
          · rename_i hitems
            refine ⟨fun _ hgo => (by cases hgo), fun _ hstop => ?_⟩
            cases hstop
            exact walkItems_undigested (by exact h) hitems
          · rename_i hitems
            refine ⟨fun _ hgo => ?_, fun _ hstop => (by cases hstop)⟩
            cases hgo
            exact walkItems_undigested (by exact h) hitems

theorem approachFolder_undigested {scope : Scope} {scopePath path : RelPath} {approach : Approach}
    {next : Fuel.Next Approach Walk} (h : ∀ e ∈ approach.walk.entries.values, e.contentMd5 = none)
    (hstep : approachFolder station root scope scopePath path approach = .ok next) :
    (∀ approach', next = .go approach' →
      ∀ e ∈ approach'.walk.entries.values, e.contentMd5 = none) ∧
    ∀ walk', next = .stop walk' → ∀ e ∈ walk'.entries.values, e.contentMd5 = none := by
  simp only [approachFolder] at hstep
  split at hstep
  · cases hstep
  · split at hstep
    · split at hstep
      · cases hstep
        refine ⟨fun _ hgo => (by cases hgo), fun _ hstop => ?_⟩
        cases hstop
        exact h
      · cases hstep
    · split at hstep
      · cases hstep
      · split at hstep
        · cases hstep
        · split at hstep
          · cases hstep
          · rename_i walk hbelow
            have hentries : ∀ e ∈ walk.entries.values, e.contentMd5 = none := by
              obtain ⟨_, _, ⟨_, _, _, _, _, hsame⟩ | ⟨_, hsame⟩⟩ := approachBelow_cases hbelow
              · rw [hsame]
                exact undigested_insert h rfl
              · rw [hsame]
                exact h
            split at hstep
            all_goals
              cases hstep
              refine ⟨fun _ hgo => ?_, fun _ hstop => (by cases hstop)⟩
              cases hgo
              exact hentries

theorem approachAll_undigested {scope : Scope} {scopePath : RelPath} {paths : List RelPath}
    {approach : Approach} {next : Fuel.Next Approach Walk}
    (h : ∀ e ∈ approach.walk.entries.values, e.contentMd5 = none)
    (hrun : approachAll station root scope scopePath paths approach = .ok next) :
    (∀ approach', next = .go approach' →
      ∀ e ∈ approach'.walk.entries.values, e.contentMd5 = none) ∧
    ∀ walk', next = .stop walk' → ∀ e ∈ walk'.entries.values, e.contentMd5 = none := by
  induction paths generalizing approach with
  | nil =>
    cases hrun
    refine ⟨fun _ hgo => ?_, fun _ hstop => (by cases hstop)⟩
    cases hgo
    exact h
  | cons path paths ih =>
    rw [approachAll] at hrun
    split at hrun
    · rename_i hstep
      exact ih ((approachFolder_undigested h hstep).1 _ rfl) hrun
    · exact approachFolder_undigested h hrun

/-! ## The whole walk -/

theorem undigested_of_remoteInventoryScoped {scope : Scope} {budget fuel : Nat} {walk : Walk}
    (h : remoteInventoryScoped station root rules scope budget fuel = some (.ok walk)) :
    ∀ e ∈ walk.entries.values, e.contentMd5 = none := by
  simp only [remoteInventoryScoped] at h
  split at h
  · cases h
  · have hstart : ∀ e ∈ (Walk.start ‹RelPath›).entries.values, e.contentMd5 = none := by
      intro e he
      simp [Walk.start, EntryMap.mem_values, EntryMap.empty, EntryMap.get?] at he
    split at h
    · cases h
    · rename_i happroach
      cases h
      exact (approachAll_undigested hstart happroach).2 _ rfl
    · rename_i happroach
      exact Fuel.run_inv (Q := fun result => ∀ walk, result = .ok walk →
          ∀ e ∈ walk.entries.values, e.contentMd5 = none)
        ((approachAll_undigested hstart happroach).1 _ rfl)
        (fun _ s' hs => (walkFolder_undigested hs).1 s')
        (fun s r hs hstop walk hr => (walkFolder_undigested hs).2 walk (hr ▸ hstop)) h walk rfl

theorem passable_of_remoteInventoryScoped {scope : Scope} {budget fuel : Nat} {walk : Walk}
    (h : remoteInventoryScoped station root rules scope budget fuel = some (.ok walk)) :
    (∀ e ∈ walk.entries.values, e.remotePath = root.path.append e.relative) ∧
      ∀ e ∈ walk.entries.values, ∀ a ∈ e.relative.ancestors,
        Passable rules scope.path walk.entries a := by
  simp only [remoteInventoryScoped] at h
  cases hjoin : (root.join scope.path).mapError unsafePathError with
  | error e => rw [hjoin] at h; cases h
  | ok scopePath =>
    rw [hjoin] at h
    obtain rfl := RemoteRoot.join_eq (Loop.mapError_eq_ok.mp hjoin)
    have hstart : Approached root scope [] (Walk.start (root.path.append scope.path)) := by
      refine ⟨rfl, Nat.le_refl 1, by simp [Walk.start], ?_, ?_, ?_, fun _ _ hmem => by cases hmem⟩
      all_goals
        intro e he
        simp [Walk.start, EntryMap.mem_values, EntryMap.empty, EntryMap.get?] at he
    have hall := fun (next : Fuel.Next Approach Walk)
        (hrun : approachAll station root scope (root.path.append scope.path)
          (root.path.append scope.path).prefixes
          ⟨Walk.start (root.path.append scope.path), none⟩ = .ok next) =>
      approachAll_approached hstart (fun _ => mem_prefixes.mp) hrun
    simp only at h
    cases happroach : approachAll station root scope (root.path.append scope.path)
        (root.path.append scope.path).prefixes ⟨Walk.start (root.path.append scope.path), none⟩ with
    | error e => rw [happroach] at h; cases h
    | ok next =>
      have hnext := hall next happroach
      rw [happroach] at h
      cases next with
      | stop walk' =>
        cases h
        obtain ⟨before, hprefix, hdown⟩ := hnext.2 _ rfl
        exact ⟨hdown.located, fun e he a ha => hdown.closed (by simpa using hprefix) he ha⟩
      | go approach =>
        have hdown : Approached root scope (root.path.append scope.path).prefixes approach.walk := by
          simpa using hnext.1 approach rfl
        have hbegin : Sealed station root rules scope.path approach.walk := by
          refine ⟨?_, fun w hw => ?_, ?_, hdown.located, fun e he => .inl (hdown.onWay e he).1,
            fun w hw r hr hroot => ?_, fun e he a ha => hdown.closed (List.prefix_refl _) he ha⟩
          · rw [hdown.listed, List.nil_append]
            have hone := hdown.one
            cases hp : approach.walk.pending with
            | nil => simp
            | cons w rest =>
              rw [hp, List.length_cons] at hone
              rw [List.length_eq_zero_iff.mp (Nat.le_zero.mp (Nat.le_of_succ_le_succ hone))]
              simp
          · rw [hdown.listed, List.nil_append] at hw
            exact ⟨scope.path, hdown.pending w hw, ⟨.root, rfl⟩, .inl rfl⟩
          · intro before w after hsplit
            rw [hdown.listed] at hsplit
            simp at hsplit
          · obtain rfl : scope.path = r :=
              append_injective root.path ((hdown.pending w hw).symm.trans hr)
            obtain ⟨d, hd⟩ := hdown.present scope.path hroot (mem_prefixes.mpr (atOrUnder_refl _))
            obtain ⟨hmount, hkind⟩ := hdown.folders d (EntryMap.mem_values_of_get? hd)
            refine ⟨d, hd, ?_, hmount, .inl (atOrUnder_refl _)⟩
            rcases hkind with hdir | ⟨_, hnil⟩
            · exact hdir
            · rw [hnil] at hw
              simp at hw
        have hend := Fuel.run_inv (Q := fun result => ∀ walk, result = .ok walk →
            Sealed station root rules scope.path walk) hbegin
          (fun _ s' hs => (walkFolder_sealed hs).1 s')
          (fun s r hs hstop walk hr => (walkFolder_sealed hs).2 walk (hr ▸ hstop)) h walk rfl
        exact ⟨hend.located, hend.closed⟩

/-- Whatever the NAS answers and however long the walk goes on, the inventory it returns is one the
planner can rely on: every entry lies at its own path below the destination, and every folder on the
way to it is an entry, a folder, no link or mount point and no folder whose listing was refused, and,
unless the scope lies at or beneath it, neither managed nor ignored. -/
theorem remoteInventoryScoped_sealed {scope : Scope} {budget fuel : Nat} {walk : Walk}
    (h : remoteInventoryScoped station root rules scope budget fuel = some (.ok walk)) :
    RemoteInventory.Walked root ⟨walk.rootExists, walk.entries⟩ ∧
      ∀ e ∈ walk.entries.values, ∀ a ∈ e.relative.ancestors,
        Passable rules scope.path walk.entries a := by
  obtain ⟨hlocated, hpassable⟩ := passable_of_remoteInventoryScoped h
  refine ⟨⟨fun e he a ha => ?_, hlocated⟩, hpassable⟩
  obtain ⟨d, hd, hdir, _⟩ := hpassable e he a ha
  exact ⟨d, hd, hdir⟩

end Sealed

/-! ## A folder in a folder

The destination holds a folder `d` and in it a file `x`. -/

namespace NestedFolder

open Small

def dir : RelPath := path [name 'd']

def dirItem : RemoteItem :=
  ⟨absoluteText (root.path.append dir), ['d'], true,
    some ⟨some 0, some 0, none, some "/volume1/s/t/d".toList⟩⟩

def fileItem : RemoteItem :=
  ⟨absoluteText (root.path.append (.child dir (name 'x'))), ['x'], false,
    some ⟨some 1, some 0, none, some "/volume1/s/t/d/x".toList⟩⟩

def items (folder : RelPath) : List RemoteItem :=
  if folder = root.path then [dirItem] else [fileItem]

def station : FileStation where
  describe _ _ := none
  getInfo path := .ok (some [⟨absoluteText path, some "t".toList, some true, none,
    some ⟨none, none, none, some "/volume1/s/t".toList⟩⟩])
  listing folder _ := ⟨fun _ => false, fun _ _ _ =>
    .ok (some ⟨1, (items folder).map RemoteItem.wire⟩)⟩
  confirmSession _ := true
  cancelledAt _ := false
  cancelledBefore _ := false

theorem list_root : station.list root.path = .ok ⟨[dirItem], true⟩ := by
  have hpass : listDirectoryPass station.describe (absoluteText root.path) listPageSize
      (station.listing root.path 0) = .ok ⟨[dirItem], 1, none⟩ := by
    rw [listDirectoryPass, passLoop]
    rfl
  rw [FileStation.list, listDirectory, hpass]
  rfl

theorem list_dir : station.list (root.path.append dir) = .ok ⟨[fileItem], true⟩ := by
  have hpass : listDirectoryPass station.describe (absoluteText (root.path.append dir)) listPageSize
      (station.listing (root.path.append dir) 0) = .ok ⟨[fileItem], 1, none⟩ := by
    rw [listDirectoryPass, passLoop]
    rfl
  rw [FileStation.list, listDirectory, hpass]
  rfl

def real : List Char := "/volume1/s/t".toList

def dirReal : List Char := "/volume1/s/t/d".toList

def begun : Walk :=
  ⟨true, .empty, true, [], [], 0, ⟨0, 0, 0, 0⟩, [], [real], [(root.path, some real)], []⟩

def first : Walk :=
  { begun with
    entries := .insert .empty ⟨dir, root.path.append dir, .directory, 0, 0, none, none⟩
    linkChecks := ⟨0, 1, 0, 0⟩
    visitedRealPaths := [dirReal, real]
    pending := [(root.path.append dir, some dirReal)]
    listed := [(root.path, some real)] }

def second : Walk :=
  { first with
    entries := .insert first.entries ⟨.child dir (name 'x'),
      root.path.append (.child dir (name 'x')), .file, 1, 0, none, none⟩
    linkChecks := ⟨1, 1, 0, 0⟩
    pending := []
    listed := [(root.path, some real), (root.path.append dir, some dirReal)] }

/-- Three turns list both folders and find nothing left to list. -/
theorem sealed_nested : letI := charwise
    ∃ walk, remoteInventoryScoped station root noRules ⟨.root⟩ 10 3 = some (.ok walk) ∧
      walk.entries.keys = [dir, .child dir (name 'x')] ∧
      RemoteInventory.Walked root ⟨walk.rootExists, walk.entries⟩ ∧
      ∀ e ∈ walk.entries.values, ∀ a ∈ e.relative.ancestors,
        Passable noRules .root walk.entries a := by
  let _ := charwise
  have happroach : approachAll station root ⟨.root⟩ root.path root.path.prefixes
      ⟨Walk.start root.path, none⟩ = .ok (.go ⟨begun, some real⟩) := rfl
  have hfirst : walkFolder station root noRules root.path 10 begun = .go first := by
    simp only [walkFolder, begun, list_root]
    rfl
  have hsecond : walkFolder station root noRules root.path 10 first = .go second := by
    simp only [walkFolder, first, begun, list_dir]
    rfl
  have hjoin : (root.join .root).mapError unsafePathError = .ok root.path := rfl
  have hrun : remoteInventoryScoped station root noRules ⟨.root⟩ 10 3 = some (.ok second) := by
    simp only [remoteInventoryScoped, hjoin, happroach, Fuel.run, hfirst, hsecond]
    rfl
  exact ⟨second, hrun, by decide +kernel, remoteInventoryScoped_sealed hrun⟩

end NestedFolder

end DriveSync
