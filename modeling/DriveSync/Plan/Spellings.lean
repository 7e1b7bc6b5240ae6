import DriveSync.Plan.Correspondence

/-!
# DriveSync.Plan.Spellings

What a plan leaves alone, and the spellings it meets. Every path of the two inventories, and every
folder on the way to it, belongs to the class of its fold.

* `isProtected`: the predicate every deletion, replacement and rename decision asks.
* `Shield`: the folds a plan neither carries nor deletes, with everything beneath them.
* `classes`: the spellings noted of each fold; `noted_of_mem_classes` says which those are.
-/

namespace DriveSync

open Path

section Protection

variable [Unicode]

/-- Protected by its NAS spelling alone: a mount point or link, DSM-managed, or excluded. -/
def isProtectedAsSpelled (entry : RemoteEntry) (rules : IgnoreRules) : Bool :=
  entry.mountPointType.isSome || isDsmManaged entry.relative ||
    rules.excludesForDeletion entry.relative (entry.kind = .directory)

/-- Whether the plan must leave an entry as it is: never delete it, replace it or rename what holds
it. Asked under its NAS spelling, and under the local spelling its pair gives it. -/
def isProtected (entry : RemoteEntry) (rules : IgnoreRules) (pairs : Correspondence) : Bool :=
  if isProtectedAsSpelled entry rules then true
  else
    let loc := pairs.localRelative entry.relative
    decide (loc ≠ entry.relative) &&
      (isDsmManaged loc || rules.excludesForDeletion loc (entry.kind = .directory))

/-- Whether a comparison treats an entry as excluded: the rules as both walks apply them. -/
def isExcludedFromComparison (entry : RemoteEntry) (rules : IgnoreRules)
    (pairs : Correspondence) : Bool :=
  if entry.mountPointType.isSome || isDsmManaged entry.relative ||
      rules.isIgnored entry.relative (entry.kind = .directory) then true
  else
    let loc := pairs.localRelative entry.relative
    decide (loc ≠ entry.relative) &&
      (isDsmManaged loc || rules.isIgnored loc (entry.kind = .directory))

theorem isProtected_of_isProtectedAsSpelled {entry : RemoteEntry} {rules : IgnoreRules}
    {pairs : Correspondence} (h : isProtectedAsSpelled entry rules = true) :
    isProtected entry rules pairs = true := by
  simp [isProtected, h]

end Protection

/-! ## Shielded folds -/

/-- Whether a strict ancestor of a folded path is among the folds. -/
def foldHasAncestorIn (fold : RelPath) (folds : Std.TreeSet RelPath) : Bool :=
  fold.ancestors.any folds.contains

/-- Paths a plan must neither carry nor delete, as folds. -/
structure Shield where
  folds : Std.TreeSet RelPath

namespace Shield

/-- A fold among the shielded ones, or beneath one of them. -/
def coversFold (shield : Shield) (fold : RelPath) : Bool :=
  shield.folds.contains fold || foldHasAncestorIn fold shield.folds

def insert (shield : Shield) (fold : RelPath) : Shield := ⟨shield.folds.insert fold⟩

theorem coversFold_iff {shield : Shield} {fold : RelPath} :
    shield.coversFold fold = true ↔ ∃ f ∈ shield.folds, AtOrUnder f fold := by
  simp only [coversFold, foldHasAncestorIn, Bool.or_eq_true, Std.TreeSet.contains_iff_mem,
    List.any_eq_true]
  constructor
  · rintro (h | ⟨a, ha, h⟩)
    · exact ⟨fold, h, .inl rfl⟩
    · exact ⟨a, h, .inr ha⟩
  · rintro ⟨f, hf, rfl | h⟩
    · exact .inl hf
    · exact .inr ⟨f, h, hf⟩

theorem mem_insert {shield : Shield} {fold f : RelPath} :
    f ∈ (shield.insert fold).folds ↔ f = fold ∨ f ∈ shield.folds := by
  simp only [insert, Std.TreeSet.mem_insert, compare_eq_iff_eq, eq_comm (a := f)]

theorem coversFold_of_atOrUnder {shield : Shield} {a p : RelPath} (h : AtOrUnder a p)
    (ha : shield.coversFold a = true) : shield.coversFold p = true := by
  rw [coversFold_iff] at ha ⊢
  obtain ⟨f, hf, hfa⟩ := ha
  exact ⟨f, hf, hfa.trans h⟩

variable [Unicode]

/-- True for a path itself and everything beneath a shielded one. -/
def covers (shield : Shield) (relative : RelPath) : Bool :=
  shield.coversFold (portableFold relative)

theorem covers_of_atOrUnder {shield : Shield} {a p : RelPath} (h : AtOrUnder a p)
    (ha : shield.covers a = true) : shield.covers p = true :=
  coversFold_of_atOrUnder h.map ha

theorem covers_insert (shield : Shield) (p : RelPath) :
    (shield.insert (portableFold p)).covers p = true :=
  coversFold_iff.mpr ⟨_, mem_insert.mpr (.inl rfl), .inl rfl⟩

theorem covers_of_subset {shield shield' : Shield} (h : ∀ f ∈ shield.folds, f ∈ shield'.folds)
    {p : RelPath} (hp : shield.covers p = true) : shield'.covers p = true := by
  rw [covers, coversFold_iff] at hp ⊢
  obtain ⟨f, hf, hfp⟩ := hp
  exact ⟨f, h f hf, hfp⟩

theorem covers_congr {shield : Shield} {p q : RelPath} (h : portableFold p = portableFold q) :
    shield.covers p = shield.covers q := by
  rw [covers, covers, h]

end Shield

/-! ## The spellings of a class -/

/-- Up to two distinct spellings of one side. -/
structure Noted where
  first : Option RelPath
  other : Option RelPath
deriving DecidableEq, Repr

namespace Noted

def empty : Noted := ⟨none, none⟩

/-- `note_spelling`. -/
def note (noted : Noted) (spelling : RelPath) : Noted :=
  match noted.first with
  | none => { noted with first := some spelling }
  | some existing =>
    if existing = spelling then noted
    else if noted.other.isNone then { noted with other := some spelling }
    else noted

/-- What noting a list of spellings remembers: the first, and the first that differs from it. -/
theorem foldl_note (l : List RelPath) :
    l.foldl note empty = ⟨l.head?, l.find? fun p => decide (l.head? ≠ some p)⟩ := by
  refine Loop.foldl_done (I := fun done noted =>
    noted = Noted.mk done.head? (done.find? fun p => decide (done.head? ≠ some p))) l rfl ?_
  rintro done a rest noted - rfl
  have hcons : ∀ (b : RelPath) (k : List RelPath),
      (b :: k).find? (fun p => decide ((b :: k).head? ≠ some p)) = k.find? fun p => b != p := by
    intro b k
    simp [decide_not]; rfl
  cases done with
  | nil => simp [note]
  | cons b done =>
    rw [List.cons_append, hcons, hcons, List.find?_append]
    cases hfind : done.find? fun p => b != p <;> by_cases hba : b = a <;> simp [note, hba]

variable {l : List RelPath}

theorem first_foldl_note : (l.foldl note empty).first = l.head? := by rw [foldl_note]

theorem mem_of_first {p : RelPath} (h : (l.foldl note empty).first = some p) : p ∈ l := by
  rw [first_foldl_note] at h
  exact List.mem_of_head? h

/-- A second spelling follows a first one, and differs from it. -/
theorem other_foldl_note {q : RelPath} (h : (l.foldl note empty).other = some q) :
    q ∈ l ∧ ∃ p, (l.foldl note empty).first = some p ∧ p ≠ q := by
  rw [foldl_note] at h ⊢
  have hq := List.mem_of_find?_eq_some h
  refine ⟨hq, ?_⟩
  cases l with
  | nil => simp at hq
  | cons p l =>
    have := List.find?_some h
    exact ⟨p, rfl, by simpa using this⟩

/-- A class with no second spelling has at most one. -/
theorem eq_first_of_other {p : RelPath} (h : (l.foldl note empty).other = none)
    (hp : (l.foldl note empty).first = some p) : ∀ q ∈ l, q = p := by
  rw [foldl_note] at h hp
  simp only at h hp
  intro q hq
  have := List.find?_eq_none.mp h q hq
  simp only [decide_eq_true_eq, not_not] at this
  rw [hp] at this
  exact (Option.some.inj this).symm

end Noted

/-- The spellings noted of one portable fold, on each side. -/
structure Spellings where
  loc : Noted
  remote : Noted
deriving DecidableEq, Repr

namespace Spellings

def empty : Spellings := ⟨.empty, .empty⟩

def note (cls : Spellings) (isLocal : Bool) (spelling : RelPath) : Spellings :=
  if isLocal then { cls with loc := cls.loc.note spelling }
  else { cls with remote := cls.remote.note spelling }

end Spellings

/-- A local path, or a folder on the way to one. -/
def IsLocalSpelling (L : LocalInventory) (p : RelPath) : Prop :=
  ∃ x ∈ L.entries.keys, AtOrUnder p x

theorem isLocalSpelling_of_mem_keys {L : LocalInventory} {x : RelPath}
    (h : x ∈ L.entries.keys) : IsLocalSpelling L x := ⟨x, h, .inl rfl⟩

theorem mem_keys_of_isLocalSpelling {L : LocalInventory}
    (closed : L.entries.ParentClosed LocalEntry.kind) {x : RelPath} (h : IsLocalSpelling L x) :
    x ∈ L.entries.keys := by
  obtain ⟨y, hy, hxy⟩ := h
  rcases hxy with rfl | hxy
  · exact hy
  · obtain ⟨e, he⟩ := EntryMap.mem_keys.mp hy
    rw [← EntryMap.relative_of_get? he] at hxy
    obtain ⟨d, hd, _⟩ := closed e (EntryMap.mem_values_of_get? he) x hxy
    exact EntryMap.mem_keys.mpr ⟨d, hd⟩

section Classes

variable [Unicode]

/-- Every path that is considered, with its folders, and whether it is local. Protected remote
entries take no part. -/
def considered (L : LocalInventory) (R : RemoteInventory) (rules : IgnoreRules) :
    List (RelPath × Bool) :=
  (L.entries.keys.map (·, true) ++
    (R.entries.values.filter fun entry => !isProtectedAsSpelled entry rules).map
      fun entry => (entry.relative, false)).flatMap
    fun (relative, isLocal) => relative.prefixes.map (·, isLocal)

def noteClass (classes : Std.TreeMap RelPath Spellings) (spelling : RelPath × Bool) :
    Std.TreeMap RelPath Spellings :=
  let fold := portableFold spelling.1
  classes.insert fold ((classes.getD fold .empty).note spelling.2 spelling.1)

def classes (L : LocalInventory) (R : RemoteInventory) (rules : IgnoreRules) :
    Std.TreeMap RelPath Spellings :=
  (considered L R rules).foldl noteClass ∅

/-! ## What a class has noted -/

/-- An unprotected remote path, or a folder on the way to one. -/
def IsRemoteSpelling (R : RemoteInventory) (rules : IgnoreRules) (p : RelPath) : Prop :=
  ∃ e ∈ R.entries.values, isProtectedAsSpelled e rules = false ∧ AtOrUnder p e.relative

theorem mem_keys_of_isRemoteSpelling {R : RemoteInventory} {rules : IgnoreRules}
    (closed : R.entries.ParentClosed RemoteEntry.kind) {r : RelPath}
    (h : IsRemoteSpelling R rules r) : r ∈ R.entries.keys := by
  obtain ⟨e, he, _, hr⟩ := h
  rcases hr with rfl | hr
  · exact EntryMap.mem_keys.mpr ⟨e, EntryMap.mem_values.mp he⟩
  · obtain ⟨d, hd, _⟩ := closed e he r hr
    exact EntryMap.mem_keys.mpr ⟨d, hd⟩

variable {L : LocalInventory} {R : RemoteInventory} {rules : IgnoreRules}

theorem mem_considered_local {p : RelPath} :
    (p, true) ∈ considered L R rules ↔ IsLocalSpelling L p := by
  simp [considered, IsLocalSpelling]

theorem mem_considered_remote {p : RelPath} :
    (p, false) ∈ considered L R rules ↔ IsRemoteSpelling R rules p := by
  simp [considered, IsRemoteSpelling, and_assoc]

/-- The spellings of one side and one fold, in the order they are noted. -/
def spellingsOf (l : List (RelPath × Bool)) (fold : RelPath) (isLocal : Bool) : List RelPath :=
  (l.filter fun p => decide (portableFold p.1 = fold ∧ p.2 = isLocal)).map (·.1)

theorem mem_spellingsOf {l : List (RelPath × Bool)} {fold p : RelPath} {isLocal : Bool} :
    p ∈ spellingsOf l fold isLocal ↔ (p, isLocal) ∈ l ∧ portableFold p = fold := by
  simp only [spellingsOf, List.mem_map, List.mem_filter, decide_eq_true_eq, Prod.exists,
    exists_and_right, exists_eq_right]
  constructor
  · rintro ⟨b, h, hf, rfl⟩; exact ⟨h, hf⟩
  · rintro ⟨h, hf⟩; exact ⟨isLocal, h, hf, rfl⟩

/-- The class of a fold. -/
def classOf (l : List (RelPath × Bool)) (fold : RelPath) : Spellings :=
  ⟨(spellingsOf l fold true).foldl Noted.note .empty,
    (spellingsOf l fold false).foldl Noted.note .empty⟩

theorem classOf_append_of_ne {l : List (RelPath × Bool)} {p : RelPath × Bool} {fold : RelPath}
    (h : portableFold p.1 ≠ fold) : classOf (l ++ [p]) fold = classOf l fold := by
  simp [classOf, spellingsOf, h]

theorem classOf_append (l : List (RelPath × Bool)) (p : RelPath × Bool) :
    classOf (l ++ [p]) (portableFold p.1) = (classOf l (portableFold p.1)).note p.2 p.1 := by
  obtain ⟨p, isLocal⟩ := p
  cases isLocal <;> simp [classOf, spellingsOf, Spellings.note, List.foldl_append]

theorem classOf_of_forall_ne {l : List (RelPath × Bool)} {fold : RelPath}
    (h : ∀ p ∈ l, portableFold p.1 ≠ fold) : classOf l fold = .empty := by
  have hnil : ∀ isLocal, spellingsOf l fold isLocal = [] := by
    intro isLocal
    rw [List.eq_nil_iff_forall_not_mem]
    intro p hp
    obtain ⟨hp, hf⟩ := mem_spellingsOf.mp hp
    exact h _ hp hf
  simp [classOf, hnil, Spellings.empty]

/-- The classes of the loop are the folds of what is considered. -/
theorem getElem?_foldl_noteClass (l : List (RelPath × Bool)) (fold : RelPath) :
    (l.foldl noteClass ∅)[fold]? =
      if ∃ p ∈ l, portableFold p.1 = fold then some (classOf l fold) else none := by
  refine Loop.foldl_done (I := fun done (m : Std.TreeMap RelPath Spellings) => m[fold]? =
    if ∃ p ∈ done, portableFold p.1 = fold then some (classOf done fold) else none) l
    (by rw [if_neg (by simp)]; exact Std.TreeMap.getElem?_emptyc) ?_
  intro done p rest m _ ih
  rw [noteClass, Std.TreeMap.getElem?_insert]
  by_cases hp : portableFold p.1 = fold
  · subst hp
    rw [if_pos Std.ReflCmp.compare_self, if_pos ⟨p, by simp⟩, classOf_append,
      Std.TreeMap.getD_eq_getD_getElem?, ih]
    split
    · rfl
    · rename_i hnone
      rw [classOf_of_forall_ne fun q hq hf => hnone ⟨q, hq, hf⟩]
      rfl
  · have hex : (∃ q ∈ done ++ [p], portableFold q.1 = fold) ↔
        ∃ q ∈ done, portableFold q.1 = fold := by
      simp only [List.mem_append, List.mem_singleton, or_and_right, exists_or, exists_eq_left, hp,
        or_false]
    rw [if_neg fun h => hp (compare_eq_iff_eq.mp h), classOf_append_of_ne hp, ih]
    simp only [hex]

theorem mem_toList_classes {cls : RelPath × Spellings} :
    cls ∈ (classes L R rules).toList ↔
      cls.2 = classOf (considered L R rules) cls.1 ∧
        ∃ p ∈ considered L R rules, portableFold p.1 = cls.1 := by
  obtain ⟨fold, spellings⟩ := cls
  rw [Std.TreeMap.mem_toList_iff_getElem?_eq_some, classes, getElem?_foldl_noteClass]
  split
  · rename_i h
    exact ⟨fun heq => ⟨(Option.some.inj heq).symm, h⟩, fun heq => congrArg some heq.1.symm⟩
  · rename_i h
    simp only [reduceCtorEq, h, and_false]

/-- One side of a class has noted spellings of that side and fold, and remembers at least two of
several. -/
structure Noted.Of (noted : Noted) (spelled : RelPath → Prop) (fold : RelPath) : Prop where
  first : ∀ p, noted.first = some p → spelled p ∧ portableFold p = fold
  other : ∀ q, noted.other = some q →
    spelled q ∧ portableFold q = fold ∧ ∃ p, noted.first = some p ∧ p ≠ q
  all : noted.other = none → ∀ q, spelled q → portableFold q = fold → noted.first = some q

theorem noted_of {l : List RelPath} {spelled : RelPath → Prop} {fold : RelPath}
    (h : ∀ p, p ∈ l ↔ spelled p ∧ portableFold p = fold) :
    (l.foldl Noted.note .empty).Of spelled fold := by
  constructor
  · intro p hp
    exact (h p).mp (Noted.mem_of_first hp)
  · intro q hq
    obtain ⟨hmem, hfirst⟩ := Noted.other_foldl_note hq
    exact ⟨((h q).mp hmem).1, ((h q).mp hmem).2, hfirst⟩
  · intro hnone q hq hf
    have hmem := (h q).mpr ⟨hq, hf⟩
    cases hfirst : (l.foldl Noted.note .empty).first with
    | none =>
      rw [Noted.first_foldl_note, List.head?_eq_none_iff] at hfirst
      rw [hfirst] at hmem
      simp at hmem
    | some p => rw [Noted.eq_first_of_other hnone hfirst q hmem]

/-- A class of the loop, by what its two sides have noted. -/
theorem noted_of_mem_classes {cls : RelPath × Spellings}
    (h : cls ∈ (classes L R rules).toList) :
    cls.2.loc.Of (IsLocalSpelling L) cls.1 ∧
      cls.2.remote.Of (IsRemoteSpelling R rules) cls.1 := by
  rw [(mem_toList_classes.mp h).1]
  refine ⟨noted_of fun p => ?_, noted_of fun p => ?_⟩
  · rw [mem_spellingsOf, mem_considered_local]
  · rw [mem_spellingsOf, mem_considered_remote]

variable (R rules) in
/-- The class of a path that is considered is one of the loop's. -/
theorem exists_class_of_local {p : RelPath} (h : IsLocalSpelling L p) :
    (portableFold p, classOf (considered L R rules) (portableFold p)) ∈
      (classes L R rules).toList :=
  mem_toList_classes.mpr ⟨rfl, _, mem_considered_local.mpr h, rfl⟩

end Classes

end DriveSync
