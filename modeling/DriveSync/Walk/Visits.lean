import DriveSync.Lib.Loop
import DriveSync.Small
import DriveSync.Walk.Walk

/-!
# DriveSync.Walk.Visits

What the remote walk visits. Every folder that waits has a real path of its own, remembered when the
folder was put to wait, so with finitely many real paths the walk ends, lists each of them at most
once and never goes through a link.
-/

namespace DriveSync

open Path

/-! ## The paths of a listing -/

theorem rsplitSlash_eq_some {text a : List Char} {n : { s : List Char // '/' ∉ s }}
    (h : rsplitSlash text = some (a, n)) : text = a ++ '/' :: n.1 := by
  rw [rsplitSlash] at h
  split at h
  · rename_i hmem
    obtain ⟨rfl, rfl⟩ := Prod.mk.inj (Option.some.inj h)
    have hcut := List.takeWhile_append_dropWhile (p := (· ≠ '/')) (l := text.reverse)
    obtain ⟨rest, hrest⟩ : ∃ rest, text.reverse.dropWhile (· ≠ '/') = '/' :: rest := by
      cases hd : text.reverse.dropWhile (· ≠ '/') with
      | nil =>
        rw [List.dropWhile_eq_nil_iff] at hd
        exact absurd (hd '/' (List.mem_reverse.mpr hmem)) (by simp)
      | cons c rest =>
        have := List.head?_dropWhile_not (fun c => decide (c ≠ '/')) text.reverse
        rw [hd] at this
        exact ⟨rest, by simpa using this⟩
    rw [hrest] at hcut ⊢
    have := congrArg List.reverse hcut
    simpa using this.symm
  · cases h

/-- An item that passes the check of its path lies in the listed folder, under its own name. -/
theorem path_of_parentAndNameText {path parent : List Char} {folder : RelPath} {name : Name}
    (h : parentAndNameText path = .ok (parent, name)) (hparent : parent = absoluteText folder)
    (hfolder : folder ≠ .root) : path = absoluteText (.child folder name) := by
  rw [parentAndNameText] at h
  split at h
  · cases h
  · rename_i a n hsplit
    split at h
    · cases h
    · obtain ⟨ha, rfl⟩ := Prod.mk.inj (Except.ok.inj h)
      have htext := rsplitSlash_eq_some hsplit
      rw [ha, hparent] at htext
      rw [htext, absoluteText, absoluteText, render_child hfolder]
      rfl

theorem below?_eq_some {base p q : RelPath} : below? base p = some q ↔ p = base.append q := by
  induction p generalizing q with
  | root =>
    simp only [below?]
    split
    · rename_i hbase
      subst hbase
      cases q <;> simp
    · rename_i hbase
      cases q with
      | root => simpa using Ne.symm hbase
      | child q n => simp
  | child p n ih =>
    simp only [below?]
    split
    · rename_i hbase
      subst hbase
      constructor
      · rintro h; cases h; rfl
      · intro h
        rw [← append_injective (child p n) (show append (child p n) .root = _ from h)]
    · rename_i hbase
      cases q with
      | root => simpa using hbase
      | child q m =>
        rw [Option.map_eq_some_iff]
        constructor
        · rintro ⟨q', hq', heq⟩
          obtain ⟨rfl, rfl⟩ := child.inj heq
          rw [ih.mp hq']; rfl
        · intro h
          obtain ⟨hp, rfl⟩ := child.inj h
          exact ⟨q, ih.mpr hp, rfl⟩

theorem relative_eq_ok {root : RemoteRoot} {remote relative : RelPath}
    (h : root.relative remote = .ok relative) : remote = root.path.append relative := by
  rw [RemoteRoot.relative] at h
  split at h
  · cases h
  · rename_i q hq
    cases hv : validateRelative q with
    | error e => rw [hv] at h; cases h
    | ok u =>
      rw [hv] at h
      obtain rfl := Except.ok.inj h
      exact below?_eq_some.mp hq

section Walk

variable [Unicode] {station : FileStation} {root : RemoteRoot} {rules : IgnoreRules}

/-! ## One item -/

/-- What `readItem` makes of an item a path can address. -/
structure ReadAs (root : RemoteRoot) (rules : IgnoreRules) (remote : RelPath)
    (folderReal : Option (List Char)) (visited : List (List Char)) (item : RemoteItem)
    (listed : ListedEntry) : Prop where
  relative : root.relative remote = .ok listed.entry.relative
  ne_root : listed.entry.relative ≠ .root
  remotePath : listed.entry.remotePath = remote
  kind : listed.entry.kind = item.kind
  real : listed.real = reportedRealPath item.details
  link : listed.link = linkVerdict folderReal item.name listed.real item.isdir visited
  mount : listed.entry.mountPointType = none →
    listed.link = none ∧ usableMountType item.details = none
  excluded : listed.excluded = excludedFromWalk rules listed.entry.relative item.isdir

theorem readItem_cases {folder folderRelative : RelPath} {folderReal : Option (List Char)}
    {visited : List (List Char)} {item : RemoteItem} {read : ListedSkip ⊕ ListedEntry}
    (hfolder : folder ≠ .root)
    (h : readItem root rules folder folderRelative folderReal visited item = .ok read) :
    ∃ name : Name, name.1 = item.name ∧ item.path = absoluteText (.child folder name) ∧
      ((∃ skip, read = .inl skip ∧ skip.remotePath = item.path ∧
          skip.reason = .unrepresentableName ∧
          ∃ text reason, root.relative (.child folder name) =
            .error (.unsafeRemotePath text reason)) ∨
        ∃ listed, read = .inr listed ∧
          ReadAs root rules (.child folder name) folderReal visited item listed) := by
  rw [readItem] at h
  split at h
  · cases h
  · rename_i parent name hparse
    split at h
    · cases h
    · rename_i hconsistent
      rw [not_or, not_not, not_not] at hconsistent
      obtain ⟨hparent, hname⟩ := hconsistent
      refine ⟨name, hname, path_of_parentAndNameText hparse hparent hfolder, ?_⟩
      split at h
      · rename_i text reason hrel
        cases h
        exact .inl ⟨_, rfl, rfl, rfl, text, reason, hrel⟩
      · cases h
      · rename_i relative hrel
        split at h
        · cases h
        · rename_i hroot
          split at h
          · cases h
          · cases h
            refine .inr ⟨_, rfl, hrel, hroot, rfl, rfl, rfl, rfl, fun hmount => ?_, rfl⟩
            simp only at hmount ⊢
            split at hmount
            · cases hmount
            · rename_i hlink
              exact ⟨hlink, hmount⟩

/-- What `recordEntry` does when it succeeds: the budget is spent, or the entry is a new one, and
waits when the walk goes into it. -/
theorem recordEntry_cases {folderRelative : RelPath} {folderReal : Option (List Char)}
    {budget : Nat} {item : RemoteItem} {listed : ListedEntry} {walk walk' : Walk} {stop : Bool}
    (h : recordEntry folderRelative folderReal budget item listed walk = .ok (walk', stop)) :
    ∃ counts more,
      (stop = true ∧ walk' = { walk with
          linkChecks := counts, skipped := walk.skipped ++ more, complete := false }) ∨
      (stop = false ∧ walk.entries.get? listed.entry.relative = none ∧
        ((listed.descends = true ∧ walk' = { walk with
            linkChecks := counts
            skipped := walk.skipped ++ more
            entries := walk.entries.insert listed.entry
            visitedRealPaths :=
              (listed.real.map walkedRealPathKey).toList ++ walk.visitedRealPaths
            pending := (listed.entry.remotePath, listed.real) :: walk.pending }) ∨
          (listed.descends = false ∧ walk' = { walk with
            linkChecks := counts
            skipped := walk.skipped ++ more
            entries := walk.entries.insert listed.entry }))) := by
  simp only [recordEntry] at h
  by_cases hbudget : budget ≤ walk.entries.values.length
  · rw [if_pos hbudget] at h
    cases h
    exact ⟨_, _, .inl ⟨rfl, rfl⟩⟩
  · rw [if_neg hbudget] at h
    by_cases hold : walk.entries.contains listed.entry.relative = true
    · rw [if_pos hold] at h
      cases h
    · rw [if_neg hold] at h
      have hnone : walk.entries.get? listed.entry.relative = none := by
        simpa [EntryMap.contains] using hold
      by_cases hdescends : listed.descends = true
      · rw [if_pos hdescends] at h
        cases h
        exact ⟨_, _, .inr ⟨rfl, hnone, .inl ⟨hdescends, rfl⟩⟩⟩
      · rw [if_neg hdescends] at h
        cases h
        exact ⟨_, _, .inr ⟨rfl, hnone, .inr ⟨by simpa using hdescends, rfl⟩⟩⟩

/-! ## What every turn keeps -/

variable (station root rules) in
/-- The one way a folder comes to wait: as an item of a listed folder that lies where it is listed,
is no mount point, and is neither managed by DSM nor ignored. -/
structure DescendsBy (parent child : Waiting) (item : RemoteItem) (relative : RelPath) : Prop where
  item_listed : ∃ listing, station.list parent.1 = .ok listing ∧ item ∈ listing.items
  item_path : item.path = absoluteText child.1
  isdir : item.isdir = true
  relative_eq : child.1 = root.path.append relative
  name : ∃ name : Name, name.1 = item.name ∧ child.1 = .child parent.1 name
  real : ∃ parentReal real, parent.2 = some parentReal ∧ child.2 = some real ∧
    reportedRealPath item.details = some real ∧
    walkedRealPathKey real = walkedRealPathKey (expectedRealPath parentReal item.name)
  mount : usableMountType item.details = none
  managed : isDsmManaged relative = false
  ignored : rules.isIgnored relative true = false

variable (station root rules) in
structure Visited (scopePath : RelPath) (walk : Walk) : Prop where
  real : ∀ w ∈ walk.listed ++ walk.pending,
    ∃ r, w.2 = some r ∧ walkedRealPathKey r ∈ walk.visitedRealPaths
  distinct : ((walk.listed ++ walk.pending).map fun w => w.2.map walkedRealPathKey).Nodup
  below : ∀ w ∈ walk.listed ++ walk.pending, ∃ relative, w.1 = root.path.append relative
  reached : ∀ w ∈ walk.listed ++ walk.pending, w.1 = scopePath ∨
    ∃ parent ∈ walk.listed, ∃ item relative, DescendsBy station root rules parent w item relative
  located : ∀ e ∈ walk.entries.values, e.remotePath = root.path.append e.relative

variable (station) in
/-- A folder that was in its parent's listing and is gone when it is listed itself. -/
def Gone (walk : Walk) (remote : RelPath) : Prop :=
  remote ∈ walk.listed.map (·.1) ∧ ∃ e, station.list remote = .error e ∧ e.apiCode = some 408

variable (station root) in
/-- What the walk keeps of an item: a name no path can address is named, a folder that is gone is
dropped, and every other item is an entry at its path. -/
def Recorded (walk : Walk) (folder : RelPath) (item : RemoteItem) : Prop :=
  ∃ name : Name, name.1 = item.name ∧ item.path = absoluteText (.child folder name) ∧
    ((∃ skip ∈ walk.skipped, skip.remotePath = item.path ∧ skip.reason = .unrepresentableName ∧
        ∃ text reason, root.relative (.child folder name) =
          .error (.unsafeRemotePath text reason)) ∨
      Gone station walk (.child folder name) ∨
      ∃ e ∈ walk.entries.values, e.remotePath = .child folder name ∧ e.kind = item.kind)

variable (station) in
/-- Nothing recorded is lost from one state to a later one, but for folders that are gone. -/
structure Grows (walk walk' : Walk) : Prop where
  skipped : ∀ skip ∈ walk.skipped, skip ∈ walk'.skipped
  listed : ∀ w ∈ walk.listed, w ∈ walk'.listed
  entries : ∀ e ∈ walk.entries.values,
    (∃ e' ∈ walk'.entries.values, e'.remotePath = e.remotePath ∧ e'.kind = e.kind) ∨
      Gone station walk' e.remotePath

omit [Unicode] in
theorem Grows.refl (walk : Walk) : Grows station walk walk :=
  ⟨fun _ h => h, fun _ h => h, fun e h => .inl ⟨e, h, rfl, rfl⟩⟩

omit [Unicode] in
theorem Gone.mono {walk walk' : Walk} (h : Grows station walk walk') {remote : RelPath}
    (hg : Gone station walk remote) : Gone station walk' remote := by
  obtain ⟨hmem, herr⟩ := hg
  obtain ⟨w, hw, rfl⟩ := List.mem_map.mp hmem
  exact ⟨List.mem_map_of_mem (h.listed w hw), herr⟩

omit [Unicode] in
theorem Grows.trans {walk walk' walk'' : Walk} (h : Grows station walk walk')
    (h' : Grows station walk' walk'') : Grows station walk walk'' := by
  refine ⟨fun s hs => h'.skipped s (h.skipped s hs), fun w hw => h'.listed w (h.listed w hw),
    fun e he => ?_⟩
  rcases h.entries e he with ⟨e', he', hpath, hkind⟩ | hg
  · rw [← hpath, ← hkind]
    exact h'.entries e' he'
  · exact .inr (hg.mono h')

omit [Unicode] in
theorem Recorded.mono {walk walk' : Walk} (h : Grows station walk walk') {folder : RelPath}
    {item : RemoteItem} (hr : Recorded station root walk folder item) :
    Recorded station root walk' folder item := by
  obtain ⟨name, hname, hpath, ⟨skip, hskip, hs⟩ | hg | ⟨e, he, hremote, hkind⟩⟩ := hr
  · exact ⟨name, hname, hpath, .inl ⟨skip, h.skipped skip hskip, hs⟩⟩
  · exact ⟨name, hname, hpath, .inr (.inl (hg.mono h))⟩
  · refine ⟨name, hname, hpath, .inr ?_⟩
    rcases h.entries e he with ⟨e', he', hpath', hkind'⟩ | hg
    · exact .inr ⟨e', he', hpath'.trans hremote, hkind'.trans hkind⟩
    · exact .inl (hremote ▸ hg)

/-- The real paths not yet walked, and the folders that wait. -/
def left (reals : List (List Char)) (walk : Walk) : Nat :=
  walk.pending.length +
    reals.countP fun r => !walk.visitedRealPaths.contains (walkedRealPathKey r)

theorem Visited.push {scopePath : RelPath} {walk walk' : Walk} {child : Waiting} {r : List Char}
    (hv : Visited station root rules scopePath walk) (hlisted : walk'.listed = walk.listed)
    (hpending : walk'.pending = child :: walk.pending)
    (hvisited : walk'.visitedRealPaths = walkedRealPathKey r :: walk.visitedRealPaths)
    (hlocated : ∀ e ∈ walk'.entries.values, e.remotePath = root.path.append e.relative)
    (hreal : child.2 = some r) (hnew : walkedRealPathKey r ∉ walk.visitedRealPaths)
    (hreached : ∃ parent ∈ walk.listed, ∃ item relative,
      DescendsBy station root rules parent child item relative) :
    Visited station root rules scopePath walk' := by
  have hmem : ∀ w, w ∈ walk'.listed ++ walk'.pending ↔ w = child ∨ w ∈ walk.listed ++ walk.pending := by
    intro w
    rw [hlisted, hpending]
    simp only [List.mem_append, List.mem_cons]
    tauto
  constructor
  · intro w hw
    rw [hvisited]
    rcases (hmem w).mp hw with rfl | hw
    · exact ⟨r, hreal, .head _⟩
    · obtain ⟨r', hr', hin⟩ := hv.real w hw
      exact ⟨r', hr', .tail _ hin⟩
  · rw [hlisted, hpending, List.map_append, List.map_cons, List.nodup_middle, List.nodup_cons,
      ← List.map_append]
    refine ⟨fun h => ?_, hv.distinct⟩
    obtain ⟨w, hw, heq⟩ := List.mem_map.mp h
    obtain ⟨r', hr', hin⟩ := hv.real w hw
    rw [hr', hreal] at heq
    rw [Option.map_some, Option.map_some, Option.some.injEq] at heq
    exact hnew (heq ▸ hin)
  · intro w hw
    rcases (hmem w).mp hw with rfl | hw
    · obtain ⟨_, _, _, relative, hd⟩ := hreached
      exact ⟨relative, hd.relative_eq⟩
    · exact hv.below w hw
  · intro w hw
    rw [hlisted]
    rcases (hmem w).mp hw with rfl | hw
    · exact .inr hreached
    · exact hv.reached w hw
  · exact hlocated

theorem Visited.congr {scopePath : RelPath} {walk walk' : Walk}
    (hv : Visited station root rules scopePath walk) (hlisted : walk'.listed = walk.listed)
    (hpending : walk'.pending = walk.pending)
    (hvisited : walk'.visitedRealPaths = walk.visitedRealPaths)
    (hlocated : ∀ e ∈ walk'.entries.values, e.remotePath = root.path.append e.relative) :
    Visited station root rules scopePath walk' := by
  constructor
  · rw [hlisted, hpending, hvisited]; exact hv.real
  · rw [hlisted, hpending]; exact hv.distinct
  · rw [hlisted, hpending]; exact hv.below
  · rw [hlisted, hpending]; exact hv.reached
  · exact hlocated

theorem Visited.pop {scopePath : RelPath} {walk walk' : Walk} {next : Waiting}
    {rest : List Waiting} (hv : Visited station root rules scopePath walk)
    (hpending : walk.pending = next :: rest) (hlisted' : walk'.listed = walk.listed ++ [next])
    (hpending' : walk'.pending = rest) (hvisited : walk'.visitedRealPaths = walk.visitedRealPaths)
    (hentries : walk'.entries = walk.entries) : Visited station root rules scopePath walk' := by
  have hsame : walk'.listed ++ walk'.pending = walk.listed ++ walk.pending := by
    rw [hlisted', hpending', hpending]; simp
  constructor
  · rw [hsame, hvisited]; exact hv.real
  · rw [hsame]; exact hv.distinct
  · rw [hsame]; exact hv.below
  · rw [hsame, hlisted']
    intro w hw
    refine (hv.reached w hw).imp id ?_
    rintro ⟨parent, hparent, hby⟩
    exact ⟨parent, List.mem_append_left _ hparent, hby⟩
  · rw [hentries]; exact hv.located

omit [Unicode] in
theorem Grows.of_eq {walk walk' : Walk} (hlisted : ∀ w ∈ walk.listed, w ∈ walk'.listed)
    (hskipped : walk'.skipped = walk.skipped) (hentries : walk'.entries = walk.entries) :
    Grows station walk walk' :=
  ⟨fun _ h => by rw [hskipped]; exact h, hlisted,
    fun e h => .inl ⟨e, by rw [hentries]; exact h, rfl, rfl⟩⟩

theorem left_lt {walk walk' : Walk} {next : Waiting} {rest : List Waiting}
    {reals : List (List Char)} (hpending : walk.pending = next :: rest)
    (hpending' : walk'.pending = rest) (hvisited : walk'.visitedRealPaths = walk.visitedRealPaths) :
    left reals walk' < left reals walk := by
  rw [left, left, hpending, hpending', hvisited, List.length_cons]
  omega

theorem walkItem_visited {scopePath folder folderRelative : RelPath} {real : List Char}
    {budget : Nat} {listing : DirectoryRead} {item : RemoteItem} {walk walk' : Walk} {stop : Bool}
    {reals : List (List Char)} (hv : Visited station root rules scopePath walk)
    (hfolder : (folder, some real) ∈ walk.listed) (hlist : station.list folder = .ok listing)
    (hitem : item ∈ listing.items)
    (hreported : item.isdir = true → ∃ r ∈ reals, reportedRealPath item.details = some r)
    (h : walkItem root rules folder folderRelative (some real) budget item walk =
      .ok (walk', stop)) :
    Visited station root rules scopePath walk' ∧ Grows station walk walk' ∧
      walk'.listed = walk.listed ∧ left reals walk' ≤ left reals walk ∧
      (stop = false → walk'.complete = walk.complete ∧ Recorded station root walk' folder item) ∧
      (stop = true → walk'.complete = false) := by
  obtain ⟨_, hbelow⟩ := hv.below _ (List.mem_append_left _ hfolder)
  have hroot : folder ≠ .root := by
    rintro rfl
    exact root.path_ne_root (append_eq_root.mp hbelow.symm).1
  rw [walkItem] at h
  cases hread : readItem root rules folder folderRelative (some real) walk.visitedRealPaths item with
  | error e => rw [hread] at h; cases h
  | ok read =>
    rw [hread] at h
    obtain ⟨name, hname, hpath, ⟨skip, rfl, hskip⟩ | ⟨listed, rfl, has⟩⟩ :=
      readItem_cases hroot hread
    · cases h
      refine ⟨⟨hv.real, hv.distinct, hv.below, hv.reached, hv.located⟩,
        ⟨fun s hs => List.mem_append_left _ hs, fun _ hw => hw,
          fun e he => .inl ⟨e, he, rfl, rfl⟩⟩, rfl, Nat.le_refl _, fun _ => ⟨rfl, ?_⟩,
        fun hstop => absurd hstop (by simp)⟩
      exact ⟨name, hname, hpath, .inl ⟨skip, by simp, hskip⟩⟩
    · obtain ⟨counts, more, ⟨rfl, rfl⟩ | ⟨rfl, hnew, hcases⟩⟩ := recordEntry_cases h
      · refine ⟨⟨hv.real, hv.distinct, hv.below, hv.reached, hv.located⟩,
          ⟨fun s hs => List.mem_append_left _ hs, fun _ hw => hw,
            fun e he => .inl ⟨e, he, rfl, rfl⟩⟩, rfl, Nat.le_refl _,
          fun hstop => absurd hstop (by simp), fun _ => rfl⟩
      · have hvalues : ∀ e, e ∈ (walk.entries.insert listed.entry).values ↔
            e = listed.entry ∨ e ∈ walk.entries.values :=
          fun e => EntryMap.mem_values_insert has.ne_root hnew
        have hlocated : ∀ e ∈ (walk.entries.insert listed.entry).values,
            e.remotePath = root.path.append e.relative := by
          intro e he
          rcases (hvalues e).mp he with rfl | he
          · rw [has.remotePath]; exact relative_eq_ok has.relative
          · exact hv.located e he
        have hgrows : ∀ walk' : Walk, walk'.listed = walk.listed →
            walk'.skipped = walk.skipped ++ more →
            walk'.entries = walk.entries.insert listed.entry → Grows station walk walk' :=
          fun walk' hl hs he => ⟨fun s h => by rw [hs]; exact List.mem_append_left _ h,
            fun w h => by rw [hl]; exact h,
            fun e h => .inl ⟨e, by rw [he]; exact (hvalues e).mpr (.inr h), rfl, rfl⟩⟩
        have hrecorded : ∀ walk' : Walk, walk'.entries = walk.entries.insert listed.entry →
            Recorded station root walk' folder item :=
          fun walk' he => ⟨name, hname, hpath, .inr (.inr ⟨listed.entry,
            by rw [he]; exact (hvalues _).mpr (.inl rfl), has.remotePath, has.kind⟩)⟩
        rcases hcases with ⟨hdescends, rfl⟩ | ⟨_, rfl⟩
        · simp only [ListedEntry.descends, Bool.and_eq_true, decide_eq_true_eq,
            Option.isNone_iff_eq_none, Bool.not_eq_true', has.kind, has.excluded,
            excludedFromWalk, Bool.or_eq_false_iff] at hdescends
          obtain ⟨⟨hkind, hmount⟩, hmanaged, hignored⟩ := hdescends
          have hdir : item.isdir = true := by
            by_contra hfile
            simp [RemoteItem.kind, hfile] at hkind
          obtain ⟨hlink, husable⟩ := has.mount hmount
          rw [has.link] at hlink
          obtain ⟨r, hr, hkey, hunvisited⟩ := linkVerdict_eq_none hlink
          have hr' := has.real ▸ hr
          obtain ⟨r', hr'mem, hr'eq⟩ := hreported hdir
          obtain rfl : r = r' := Option.some.inj (hr'.symm.trans hr'eq)
          rw [hdir] at hignored
          have hvisited : (listed.real.map walkedRealPathKey).toList ++ walk.visitedRealPaths =
              walkedRealPathKey r :: walk.visitedRealPaths := by rw [hr]; rfl
          refine ⟨hv.push rfl rfl hvisited hlocated hr (hunvisited hdir)
              ⟨_, hfolder, item, listed.entry.relative, ?_⟩,
            hgrows _ rfl rfl rfl, rfl, ?_, fun _ => ⟨rfl, hrecorded _ rfl⟩,
            fun hstop => absurd hstop (by simp)⟩
          · exact ⟨⟨listing, hlist, hitem⟩, by rw [has.remotePath]; exact hpath, hdir,
              by rw [has.remotePath]; exact relative_eq_ok has.relative,
              ⟨name, hname, has.remotePath⟩, ⟨real, r, rfl, hr, hr', hkey⟩, husable, hmanaged,
              hignored⟩
          · have hlt : reals.countP (fun a => !((listed.real.map walkedRealPathKey).toList ++
                walk.visitedRealPaths).contains (walkedRealPathKey a)) <
                reals.countP fun a => !walk.visitedRealPaths.contains (walkedRealPathKey a) := by
              rw [hvisited]
              refine Fuel.countP_lt (fun a _ ha => ?_) hr'mem (by simp)
                (by simpa using hunvisited hdir)
              simp only [List.contains_cons, Bool.not_or, Bool.and_eq_true] at ha
              exact ha.2
            simp only [left, List.length_cons]
            omega
        · exact ⟨⟨hv.real, hv.distinct, hv.below, hv.reached, hlocated⟩, hgrows _ rfl rfl rfl, rfl,
            Nat.le_refl _, fun _ => ⟨rfl, hrecorded _ rfl⟩, fun hstop => absurd hstop (by simp)⟩

theorem walkItems_visited {scopePath folder folderRelative : RelPath} {real : List Char}
    {budget : Nat} {listing : DirectoryRead} {items : List RemoteItem} {walk walk' : Walk}
    {stop : Bool} {reals : List (List Char)} (hv : Visited station root rules scopePath walk)
    (hfolder : (folder, some real) ∈ walk.listed) (hlist : station.list folder = .ok listing)
    (hitems : ∀ item ∈ items, item ∈ listing.items)
    (hreported : ∀ item ∈ listing.items, item.isdir = true →
      ∃ r ∈ reals, reportedRealPath item.details = some r)
    (h : walkItems root rules folder folderRelative (some real) budget items walk =
      .ok (walk', stop)) :
    Visited station root rules scopePath walk' ∧ Grows station walk walk' ∧
      walk'.listed = walk.listed ∧ left reals walk' ≤ left reals walk ∧
      (stop = false → ∀ item ∈ items, Recorded station root walk' folder item) ∧
      (stop = true → walk'.complete = false) := by
  induction items generalizing walk with
  | nil =>
    cases h
    exact ⟨hv, .refl _, rfl, Nat.le_refl _, fun _ _ hitem => absurd hitem (by simp),
      fun hstop => absurd hstop (by simp)⟩
  | cons item items ih =>
    rw [walkItems] at h
    cases hitem : walkItem root rules folder folderRelative (some real) budget item walk with
    | error e => rw [hitem] at h; cases h
    | ok result =>
      obtain ⟨walk1, stop1⟩ := result
      rw [hitem] at h
      obtain ⟨hv1, hgrows1, hlisted1, hleft1, hgo1, hstop1⟩ := walkItem_visited hv hfolder hlist
        (hitems item (.head _)) (hreported item (hitems item (.head _))) hitem
      cases stop1 with
      | true =>
        cases h
        exact ⟨hv1, hgrows1, hlisted1, hleft1, fun h => absurd h (by simp), fun _ => hstop1 rfl⟩
      | false =>
        obtain ⟨hv2, hgrows2, hlisted2, hleft2, hgo2, hstop2⟩ := ih hv1 (by rw [hlisted1]; exact hfolder)
          (fun item' h' => hitems item' (.tail _ h')) h
        refine ⟨hv2, hgrows1.trans hgrows2, hlisted2.trans hlisted1, hleft2.trans hleft1,
          fun hstop item' hitem' => ?_, hstop2⟩
        rcases List.mem_cons.mp hitem' with rfl | hitem'
        · exact (hgo1 rfl).2.mono hgrows2
        · exact hgo2 hstop item' hitem'

/-! ## One folder -/

omit [Unicode] in
theorem insert_marked {entries : RemoteMap} {entry : RemoteEntry} (marked : RemoteEntry)
    (hlocated : ∀ e ∈ entries.values, e.remotePath = root.path.append e.relative)
    (hentry : entry ∈ entries.values) (hrelative : marked.relative = entry.relative)
    (hremote : marked.remotePath = entry.remotePath) (hkind : marked.kind = entry.kind) :
    (∀ e ∈ entries.values,
      ∃ e' ∈ (entries.insert marked).values, e'.remotePath = e.remotePath ∧ e'.kind = e.kind) ∧
      ∀ e ∈ (entries.insert marked).values, e.remotePath = root.path.append e.relative := by
  have hne := EntryMap.relative_ne_root hentry
  rw [← hrelative] at hne
  have hvalues : ∀ e, e ∈ (entries.insert marked).values ↔
      (if marked.relative = e.relative then some marked else entries.get? e.relative) = some e := by
    intro e
    rw [EntryMap.mem_values, EntryMap.get?_insert hne]
  constructor
  · intro e he
    by_cases heq : marked.relative = e.relative
    · obtain rfl := EntryMap.eq_of_relative_eq hentry he (hrelative.symm.trans heq)
      exact ⟨marked, (hvalues _).mpr (if_pos rfl), hremote, hkind⟩
    · exact ⟨e, (hvalues e).mpr (by rw [if_neg heq]; exact EntryMap.mem_values.mp he), rfl, rfl⟩
  · intro e he
    have he := (hvalues e).mp he
    split at he
    · obtain rfl := Option.some.inj he
      rw [hremote, hrelative]
      exact hlocated entry hentry
    · exact hlocated e (EntryMap.mem_values.mpr he)

/-- What a folder that could not be listed leaves as it was. -/
theorem unlisted_go {scopePath folder : RelPath} {error : ApiError} {walk walk' : Walk}
    (hlocated : ∀ e ∈ walk.entries.values, e.remotePath = root.path.append e.relative)
    (hfolder : folder ∈ walk.listed.map (·.1)) (hlist : station.list folder = .error error)
    (h : unlisted station root rules scopePath folder error walk = .go walk') :
    walk'.listed = walk.listed ∧ walk'.pending = walk.pending ∧
      walk'.visitedRealPaths = walk.visitedRealPaths ∧ Grows station walk walk' ∧
      ∀ e ∈ walk'.entries.values, e.remotePath = root.path.append e.relative := by
  rw [unlisted] at h
  split at h
  · cases h
  · split at h
    · cases h
    · split at h
      · rename_i hgone
        cases hrel : root.relative folder with
        | error e => rw [hrel] at h; cases h
        | ok relative =>
          rw [hrel] at h
          cases h
          have hget : ∀ e, e ∈ (walk.entries.erase relative).values ↔
              e ∈ walk.entries.values ∧ e.relative ≠ relative := by
            intro e
            rw [EntryMap.mem_values, EntryMap.mem_values, EntryMap.get?_erase]
            split
            · rename_i heq; simp [heq]
            · rename_i hne; simp [Ne.symm hne]
          refine ⟨rfl, rfl, rfl, ⟨fun _ hs => hs, fun _ hw => hw, ?_⟩, ?_⟩
          · intro e he
            by_cases heq : e.relative = relative
            · refine .inr ⟨?_, error, ?_, hgone.2⟩
              all_goals rw [hlocated e he, heq, ← relative_eq_ok hrel]
              · exact hfolder
              · exact hlist
            · exact .inl ⟨e, (hget e).mpr ⟨he, heq⟩, rfl, rfl⟩
          · exact fun e he => hlocated e ((hget e).mp he).1
      · split at h
        · cases hrel : root.relative folder with
          | error e => rw [hrel] at h; cases h
          | ok relative =>
            cases hname : (parentAndName folder).mapError unsafePathError with
            | error e => rw [hrel, hname] at h; cases h
            | ok pair =>
              rw [hrel, hname] at h
              obtain ⟨_, name⟩ := pair
              simp only at h
              cases hget : walk.entries.get? relative with
              | none =>
                rw [hget] at h
                cases h
                exact ⟨rfl, rfl, rfl, ⟨fun s hs => List.mem_append_left _ hs, fun _ hw => hw,
                  fun e he => .inl ⟨e, he, rfl, rfl⟩⟩, hlocated⟩
              | some entry =>
                rw [hget] at h
                cases h
                obtain ⟨hkeep, hloc⟩ := insert_marked
                  { entry with mountPointType := some unlistableEntryMountType } hlocated
                  (EntryMap.mem_values_of_get? hget) rfl rfl rfl
                exact ⟨rfl, rfl, rfl, ⟨fun s hs => List.mem_append_left _ hs, fun _ hw => hw,
                  fun e he => .inl (hkeep e he)⟩, hloc⟩
        · cases h

theorem unlisted_stop {scopePath folder : RelPath} {error : ApiError} {walk walk' : Walk}
    (h : unlisted station root rules scopePath folder error walk = .stop (.ok walk')) :
    ∃ exists', walk' = { walk with rootExists := exists' } := by
  simp only [unlisted] at h
  split at h
  · cases h; exact ⟨_, rfl⟩
  · split at h
    · cases h; exact ⟨_, rfl⟩
    · split at h
      · split at h <;> cases h
      · split at h
        · split at h <;> cases h
        · cases h

variable (station) in
/-- DSM reports a real path for every folder it shows, and the listings show finitely many. -/
structure RealPathsReported (reals : List (List Char)) : Prop where
  looked : ∀ path item, station.info path = .ok item → item.isdir = true →
    ∃ r, reportedRealPath item.details = some r
  listed : ∀ folder listing, station.list folder = .ok listing → ∀ item ∈ listing.items,
    item.isdir = true → ∃ r ∈ reals, reportedRealPath item.details = some r

variable (station root rules) in
/-- Between two turns every item of every folder listed so far is recorded. -/
structure Walking (scopePath : RelPath) (walk : Walk) : Prop where
  visited : Visited station root rules scopePath walk
  recorded : ∀ w ∈ walk.listed, ∀ listing, station.list w.1 = .ok listing →
    ∀ item ∈ listing.items, Recorded station root walk w.1 item

variable (station root rules) in
/-- What the walk has done when it ends, however it ends. -/
structure Walked (scopePath : RelPath) (walk : Walk) : Prop where
  visited : Visited station root rules scopePath walk
  recorded : walk.complete = true → ∀ w ∈ walk.listed, ∀ listing,
    station.list w.1 = .ok listing → ∀ item ∈ listing.items, Recorded station root walk w.1 item

theorem Walking.pop {scopePath : RelPath} {walk walk' : Walk} {next : Waiting}
    {rest : List Waiting} (hw : Walking station root rules scopePath walk)
    (hpending : walk.pending = next :: rest) (hlisted' : walk'.listed = walk.listed ++ [next])
    (hpending' : walk'.pending = rest) (hvisited : walk'.visitedRealPaths = walk.visitedRealPaths)
    (hentries : walk'.entries = walk.entries) (hskipped : walk'.skipped = walk.skipped)
    (hnext : ∀ listing, station.list next.1 = .ok listing →
      ∀ item ∈ listing.items, Recorded station root walk' next.1 item) :
    Walking station root rules scopePath walk' := by
  have hgrows : Grows station walk walk' :=
    .of_eq (fun _ h => by rw [hlisted']; exact List.mem_append_left _ h) hskipped hentries
  refine ⟨hw.visited.pop hpending hlisted' hpending' hvisited hentries, fun w hmem => ?_⟩
  rw [hlisted', List.mem_append, List.mem_singleton] at hmem
  rcases hmem with hmem | rfl
  · exact fun listing hl item hitem => (hw.recorded w hmem listing hl item hitem).mono hgrows
  · exact hnext

/-- A turn takes one folder off what waits, and keeps what the walk keeps. -/
theorem walkFolder_cases {scopePath : RelPath} (budget : Nat) {reals : List (List Char)}
    {walk : Walk} (hreported : RealPathsReported station reals)
    (hw : Walking station root rules scopePath walk) :
    (∀ walk', walkFolder station root rules scopePath budget walk = .go walk' →
      Walking station root rules scopePath walk' ∧ left reals walk' < left reals walk) ∧
    ∀ walk', walkFolder station root rules scopePath budget walk = .stop (.ok walk') →
      Walked station root rules scopePath walk' := by
  rw [walkFolder]
  cases hpending : walk.pending with
  | nil =>
    refine ⟨fun _ h => (by cases h), fun _ h => ?_⟩
    cases h
    exact ⟨hw.visited, fun _ => hw.recorded⟩
  | cons next rest =>
    obtain ⟨folder, real⟩ := next
    simp only
    split
    · exact ⟨fun _ h => (by cases h), fun _ h => (by cases h)⟩
    · obtain ⟨r, hr, _⟩ := hw.visited.real (folder, real) (by rw [hpending]; simp)
      simp only at hr
      subst hr
      cases hlist : station.list folder with
      | error error =>
        have hpopped : Walking station root rules scopePath { walk with
            pending := rest, listed := walk.listed ++ [(folder, some r)] } :=
          hw.pop hpending rfl rfl rfl rfl rfl fun listing h => by rw [hlist] at h; cases h
        refine ⟨fun walk' h => ?_, fun walk' h => ?_⟩
        · obtain ⟨hlisted, hpend, hvis, hgrows, hloc⟩ :=
            unlisted_go hpopped.visited.located (by simp) hlist h
          refine ⟨⟨hpopped.visited.congr hlisted hpend hvis hloc, ?_⟩, ?_⟩
          · rw [hlisted]
            exact fun w hmem listing hl item hitem =>
              (hpopped.recorded w hmem listing hl item hitem).mono hgrows
          · exact left_lt hpending hpend hvis
        · obtain ⟨_, rfl⟩ := unlisted_stop h
          exact ⟨hpopped.visited.congr rfl rfl rfl hpopped.visited.located,
            fun _ => hpopped.recorded⟩
      | ok listing =>
        simp only
        cases hrel : root.relative folder with
        | error e => exact ⟨fun _ h => (by cases h), fun _ h => (by cases h)⟩
        | ok folderRelative =>
          simp only
          split
          · exact ⟨fun _ h => (by cases h), fun _ h => (by cases h)⟩
          all_goals
            rename_i hitems
            obtain ⟨hv', hgrows, hlisted, hleft, hgo, hstop⟩ := walkItems_visited
              (by exact hw.visited.pop hpending rfl rfl rfl rfl) (by simp) hlist (fun _ h => h)
              (hreported.listed folder listing hlist) hitems
          · refine ⟨fun _ h => (by cases h), fun walk' h => ?_⟩
            cases h
            exact ⟨hv', fun hcomplete => absurd hcomplete (by simp [hstop rfl])⟩
          · refine ⟨fun walk' h => ?_, fun _ h => (by cases h)⟩
            cases h
            refine ⟨⟨hv', fun w hmem => ?_⟩, hleft.trans_lt (left_lt hpending rfl rfl)⟩
            rw [hlisted, List.mem_append, List.mem_singleton] at hmem
            rcases hmem with hmem | rfl
            · refine fun listing' hl item hitem =>
                (hw.recorded w hmem listing' hl item hitem).mono (Grows.trans ?_ hgrows)
              exact .of_eq (fun _ h => List.mem_append_left _ h) rfl rfl
            · intro listing' hl
              obtain rfl : listing = listing' := Except.ok.inj (hlist.symm.trans hl)
              exact hgo rfl

/-! ## From the shared folder down -/

variable (root) in
/-- On the way down nothing has been listed, and only the scope waits. -/
structure Approaching (scopePath : RelPath) (walk : Walk) : Prop where
  listed : walk.listed = []
  pending : walk.pending.length ≤ 1
  scope : ∀ w ∈ walk.pending, w.1 = scopePath
  located : ∀ e ∈ walk.entries.values, e.remotePath = root.path.append e.relative

theorem approachBelow_ok {path : RelPath} {info : RemoteItem} {approach : Approach} {walk' : Walk}
    {scopePath : RelPath} (ha : Approaching root scopePath approach.walk)
    (h : approachBelow root path info approach = .ok walk') :
    Approaching root scopePath walk' := by
  simp only [approachBelow] at h
  split at h
  · cases hrel : root.relative path with
    | error e => rw [hrel] at h; cases h
    | ok relative =>
      rw [hrel] at h
      simp only at h
      split at h
      · cases h
      · rename_i size mtimeSeconds _
        split at h
        · cases h
        · cases h
          refine ⟨ha.listed, ha.pending, ha.scope, fun e he => ?_⟩
          rcases EntryMap.of_mem_values_insert he with rfl | he
          · exact relative_eq_ok hrel
          · exact ha.located e he
  · cases h
    exact ha

/-- A step down leaves the scope waiting, with the real path DSM reported for it. -/
theorem approachFolder_go {scope : Scope} {scopePath path : RelPath} {approach approach' : Approach}
    {reals : List (List Char)} (hreported : RealPathsReported station reals)
    (ha : Approaching root scopePath approach.walk)
    (h : approachFolder station root scope scopePath path approach = .ok (.go approach')) :
    Approaching root scopePath approach'.walk ∧
      (path = scopePath → scopePath = root.path.append scope.path →
        ∀ w ∈ approach'.walk.pending,
          ∃ r, w.2 = some r ∧ walkedRealPathKey r ∈ approach'.walk.visitedRealPaths) := by
  simp only [approachFolder] at h
  split at h
  · cases h
  · split at h
    · split at h <;> cases h
    · rename_i info hinfo
      split at h
      · cases h
      · rename_i hkind
        split at h
        · cases h
        · split at h
          · cases h
          · rename_i walk hbelow
            have hwalk := approachBelow_ok ha hbelow
            -- the scope waits as before, but for the real path, or not at all when it is a file
            have hone : ∀ pending : List Waiting, (pending = [] ∨ pending = walk.pending ∨
                pending = walk.pending.map fun first => (first.1, reportedRealPath info.details)) →
                pending.length ≤ 1 ∧ ∀ w ∈ pending, w.1 = scopePath := by
              rintro _ (rfl | rfl | rfl)
              · simp
              · exact ⟨hwalk.pending, hwalk.scope⟩
              · refine ⟨by simpa using hwalk.pending, fun w hw => ?_⟩
                obtain ⟨w', hw', rfl⟩ := List.mem_map.mp hw
                exact hwalk.scope w' hw'
            have hcases := hone (if (decide (path = scopePath) && decide (scope.path ≠ .root) &&
                !info.isdir) = true then [] else if decide (path = scopePath) = true then
                  walk.pending.map fun first => (first.1, reportedRealPath info.details)
                else walk.pending) (by
              split
              · exact .inl rfl
              · split
                · exact .inr (.inr rfl)
                · exact .inr (.inl rfl))
            split at h
            · cases h
              refine ⟨⟨hwalk.listed, hcases.1, hcases.2, hwalk.located⟩, ?_⟩
              rintro rfl - w hw
              simp only [decide_true, Bool.true_and, if_true] at hw hkind
              split at hw
              · cases hw
              · rename_i hfile
                obtain ⟨r, hr⟩ := hreported.looked _ _ hinfo (by
                  by_contra hdir
                  exact hkind (by simpa [hdir] using hfile))
                obtain ⟨w', _, rfl⟩ := List.mem_map.mp hw
                exact ⟨r, hr, by simp [hr]⟩
            · rename_i hnot
              cases h
              refine ⟨⟨hwalk.listed, hcases.1, hcases.2, hwalk.located⟩, ?_⟩
              rintro rfl hscope
              refine absurd ?_ hnot
              rw [RemoteRoot.containsChild, below?_eq_some.mpr hscope, hscope]
              by_cases hroot : scope.path = .root
              · simp [hroot]
              · simp [hroot]

theorem approachAll_go {scope : Scope} {scopePath : RelPath} {paths : List RelPath}
    {approach approach' : Approach} {reals : List (List Char)}
    (hreported : RealPathsReported station reals)
    (ha : Approaching root scopePath approach.walk)
    (h : approachAll station root scope scopePath paths approach = .ok (.go approach')) :
    Approaching root scopePath approach'.walk ∧
      (paths.getLast? = some scopePath → scopePath = root.path.append scope.path →
        ∀ w ∈ approach'.walk.pending,
          ∃ r, w.2 = some r ∧ walkedRealPathKey r ∈ approach'.walk.visitedRealPaths) := by
  induction paths generalizing approach with
  | nil =>
    cases h
    exact ⟨ha, fun h => by cases h⟩
  | cons path paths ih =>
    rw [approachAll] at h
    split at h
    · rename_i approach1 hstep
      obtain ⟨ha1, hlast1⟩ := approachFolder_go hreported ha hstep
      obtain ⟨ha2, hlast2⟩ := ih ha1 h
      refine ⟨ha2, fun hlast => ?_⟩
      cases paths with
      | nil =>
        cases h
        exact hlast1 (by simpa using hlast)
      | cons p ps => exact hlast2 (by simpa using hlast)
    · rename_i hne
      exact absurd h (hne approach')

theorem approachAll_stop {scope : Scope} {scopePath : RelPath} {paths : List RelPath}
    {approach : Approach} {walk' : Walk} {reals : List (List Char)}
    (hreported : RealPathsReported station reals)
    (ha : Approaching root scopePath approach.walk)
    (h : approachAll station root scope scopePath paths approach = .ok (.stop walk')) :
    walk'.listed = [] := by
  induction paths generalizing approach with
  | nil => cases h
  | cons path paths ih =>
    rw [approachAll] at h
    split at h
    · rename_i approach1 hstep
      exact ih (approachFolder_go hreported ha hstep).1 h
    · rw [approachFolder] at h
      split at h
      · cases h
      · split at h
        · split at h
          · cases h
            exact ha.listed
          · cases h
        · simp only at h
          split at h
          · cases h
          · split at h
            · cases h
            · split at h
              · cases h
              · split at h <;> cases h

/-! ## The whole walk -/

variable (station root rules) in
/-- What a walk that came to a result has visited and kept. -/
structure VisitsOnce (scopePath : RelPath) (walk : Walk) : Prop where
  real : ∀ w ∈ walk.listed, ∃ r, w.2 = some r
  once : (walk.listed.map fun w => w.2.map walkedRealPathKey).Nodup
  through : ∀ w ∈ walk.listed, w.1 = scopePath ∨
    ∃ parent ∈ walk.listed, ∃ item relative, DescendsBy station root rules parent w item relative
  kept : walk.complete = true → ∀ w ∈ walk.listed, ∀ listing, station.list w.1 = .ok listing →
    ∀ item ∈ listing.items, ∃ name : Name, name.1 = item.name ∧
      item.path = absoluteText (.child w.1 name) ∧
      ((∃ skip ∈ walk.skipped, skip.remotePath = item.path ∧ skip.reason = .unrepresentableName ∧
          ∃ text reason, root.relative (.child w.1 name) =
            .error (.unsafeRemotePath text reason)) ∨
        Gone station walk (.child w.1 name) ∨
        ∃! e, e ∈ walk.entries.values ∧ e.remotePath = .child w.1 name)

theorem Walked.visitsOnce {scopePath : RelPath} {walk : Walk}
    (h : Walked station root rules scopePath walk) :
    VisitsOnce station root rules scopePath walk := by
  obtain ⟨hv, hrecorded⟩ := h
  refine ⟨fun w hw => ?_, ?_, fun w hw => hv.reached w (List.mem_append_left _ hw),
    fun hcomplete w hw listing hl item hitem => ?_⟩
  · obtain ⟨r, hr, _⟩ := hv.real w (List.mem_append_left _ hw)
    exact ⟨r, hr⟩
  · have := hv.distinct
    rw [List.map_append] at this
    exact this.sublist (List.sublist_append_left _ _)
  · obtain ⟨name, hname, hpath, hkept⟩ := hrecorded hcomplete w hw listing hl item hitem
    refine ⟨name, hname, hpath, hkept.imp id (Or.imp id ?_)⟩
    rintro ⟨e, he, hremote, _⟩
    refine ⟨e, ⟨he, hremote⟩, fun e' h' => ?_⟩
    refine EntryMap.eq_of_relative_eq h'.1 he (append_injective root.path ?_)
    rw [← hv.located e he, ← hv.located e' h'.1, hremote, h'.2]

/-- The walk comes to a result, and visits each real folder once and never through a link. -/
theorem remoteInventoryScoped_visits {reals : List (List Char)}
    (h : RealPathsReported station reals) (scope : Scope) (budget : Nat) :
    ∃ fuel result,
      (∀ n, fuel ≤ n → remoteInventoryScoped station root rules scope budget n = some result) ∧
      ∀ walk, result = .ok walk →
        VisitsOnce station root rules (root.path.append scope.path) walk := by
  simp only [remoteInventoryScoped]
  cases hjoin : (root.join scope.path).mapError unsafePathError with
  | error e => exact ⟨0, _, fun _ _ => rfl, fun _ h => by cases h⟩
  | ok scopePath =>
    obtain rfl := RemoteRoot.join_eq (Loop.mapError_eq_ok.mp hjoin)
    have hstart : Approaching root (root.path.append scope.path)
        (Walk.start (root.path.append scope.path)) :=
      ⟨rfl, Nat.le_refl 1, by simp [Walk.start], fun e he => by
        simp [Walk.start, EntryMap.mem_values, EntryMap.empty, EntryMap.get?] at he⟩
    simp only
    cases happroach : approachAll station root scope (root.path.append scope.path)
        (root.path.append scope.path).prefixes ⟨Walk.start (root.path.append scope.path), none⟩ with
    | error e => exact ⟨0, _, fun _ _ => rfl, fun _ h => by cases h⟩
    | ok next =>
      cases next with
      | stop walk =>
        refine ⟨0, _, fun _ _ => rfl, fun walk' h' => ?_⟩
        cases h'
        have hnil := approachAll_stop h hstart happroach
        constructor <;> simp [hnil]
      | go approach =>
        obtain ⟨hdown, hwaits⟩ := approachAll_go h hstart happroach
        have hwaits := hwaits (by rw [prefixes, List.getLast?_append]; rfl) rfl
        have hbegin : Walking station root rules (root.path.append scope.path) approach.walk := by
          refine ⟨⟨?_, ?_, ?_, ?_, hdown.located⟩, by simp [hdown.listed]⟩
          all_goals rw [hdown.listed, List.nil_append]
          · exact hwaits
          · have hlength := hdown.pending
            cases hp : approach.walk.pending with
            | nil => simp
            | cons w rest =>
              rw [hp, List.length_cons] at hlength
              rw [List.length_eq_zero_iff.mp (Nat.le_zero.mp (Nat.le_of_succ_le_succ hlength))]
              simp
          · exact fun w hw => ⟨scope.path, hdown.scope w hw⟩
          · exact fun w hw => .inl (hdown.scope w hw)
        obtain ⟨result, hresult⟩ := Fuel.exists_run (left reals) hbegin fun s s' hs hgo =>
          (walkFolder_cases budget h hs).1 s' hgo
        refine ⟨_, result, fun n hn => Fuel.run_of_le hresult hn, fun walk hwalk => ?_⟩
        subst hwalk
        refine (Fuel.run_inv (Q := fun result => ∀ walk, result = .ok walk →
            Walked station root rules (root.path.append scope.path) walk) hbegin
          (fun s s' hs hgo => ((walkFolder_cases budget h hs).1 s' hgo).1)
          (fun s r hs hstop walk hr => (walkFolder_cases budget h hs).2 walk (hr ▸ hstop))
          hresult walk rfl).visitsOnce

end Walk

/-! ## A name with a newline

The destination holds one file, whose name no path can address. -/

namespace NewlineName

open Small

def real : List Char := "/volume1/s/t".toList

def fileName : Name := ⟨"a\nb".toList, by decide⟩

def file : RemoteItem :=
  ⟨absoluteText (.child root.path fileName), fileName.1, false,
    some ⟨some 1, some 0, none, some "/volume1/s/t/a\nb".toList⟩⟩

def folder : Folder (id : List Char → List Char) := ⟨[file], List.pairwise_singleton _ _⟩

def station : FileStation where
  describe _ _ := none
  getInfo path := .ok (some [⟨absoluteText path, some "t".toList, some true, none,
    some ⟨none, none, none, some real⟩⟩])
  listing _ _ := served fun _ => folder
  confirmSession _ := true
  cancelledAt _ := false
  cancelledBefore _ := false

theorem list_eq (p : RelPath) : station.list p = .ok ⟨[file], true⟩ := by
  have hpass : listDirectoryPass station.describe (absoluteText p) listPageSize
      (station.listing p 0) = .ok ⟨[file], 1, none⟩ := by
    rw [listDirectoryPass, passLoop]
    rfl
  rw [FileStation.list, listDirectory, hpass]
  rfl

theorem reported : RealPathsReported station [] := by
  constructor
  · intro path item h hdir
    simp only [FileStation.info, station, ne_eq, not_true_eq_false, if_false] at h
    cases h
    exact ⟨real, rfl⟩
  · intro folder listing h item hitem hdir
    rw [list_eq] at h
    cases h
    rw [List.mem_singleton.mp hitem] at hdir
    cases hdir

def begun : Walk :=
  ⟨true, .empty, true, [], [], 0, ⟨0, 0, 0, 0⟩, [], [real], [(root.path, some real)], []⟩

def ended : Walk :=
  { begun with
    skipped := [⟨.root, file.name, file.path, .file, .unrepresentableName, false,
      "control characters are not allowed"⟩]
    pending := []
    listed := [(root.path, some real)] }

theorem remoteInventory_eq (more : Nat) : letI := charwise
    remoteInventory station root noRules (more + 2) = some (.ok ended) := by
  let := charwise
  have happroach : approachAll station root ⟨.root⟩ root.path root.path.prefixes
      ⟨Walk.start root.path, none⟩ = .ok (.go ⟨begun, some real⟩) := rfl
  have hturn : walkFolder station root noRules root.path 18446744073709551615 begun =
      .go ended := by
    simp only [walkFolder, begun, list_eq]
    rfl
  have hjoin : (root.join .root).mapError unsafePathError = .ok root.path := rfl
  simp only [remoteInventory, remoteInventoryScoped, hjoin, happroach, Fuel.run, hturn]
  rfl

/-- A file that is neither managed by DSM nor ignored is listed, and is no entry. -/
theorem not_every_entry_kept : letI := charwise
    ¬∀ (station : FileStation) (root : RemoteRoot) (rules : IgnoreRules) (reals : List (List Char)),
      RealPathsReported station reals → ∀ fuel walk,
        remoteInventory station root rules fuel = some (.ok walk) →
        ∀ w ∈ walk.listed, ∀ listing, station.list w.1 = .ok listing → ∀ item ∈ listing.items,
          ∀ name relative, item.path = absoluteText (.child w.1 name) →
            root.path.append relative = .child w.1 name →
            excludedFromWalk rules relative item.isdir = false →
            ∃! e, e ∈ walk.entries.values ∧ e.remotePath = .child w.1 name := by
  let := charwise
  intro h
  obtain ⟨e, ⟨he, _⟩, _⟩ := h station root noRules [] reported 2 ended (remoteInventory_eq 0)
    (root.path, some real) (List.mem_singleton_self _) _ (list_eq _) file
    (List.mem_singleton_self _) fileName (.child .root fileName) rfl rfl rfl
  simp [ended, begun, EntryMap.mem_values, EntryMap.empty, EntryMap.get?] at he

/-- What the walk has done there: it has listed the destination, and named the file. -/
theorem ended_visits : letI := charwise
    VisitsOnce station root noRules (root.path.append .root) ended := by
  let := charwise
  obtain ⟨fuel, result, hrun, hvisits⟩ :=
    @remoteInventoryScoped_visits _ station root noRules [] reported ⟨.root⟩ 18446744073709551615
  have hended := remoteInventory_eq fuel
  rw [remoteInventory, hrun (fuel + 2) (by omega)] at hended
  exact hvisits ended (Option.some.inj hended)

end NewlineName

end DriveSync
