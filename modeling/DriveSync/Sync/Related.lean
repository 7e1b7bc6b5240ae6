import DriveSync.Sync.Deferrals

/-!
# DriveSync.Sync.Related

What the index of deferrals answers, against the relations its questions name.

* `ExactAt`    — the four answers about one path, against `=` and `Encloses` over the records.
* `Answerable` — the records and the path for which the look-ups of the index meet them.
* `exactAt_iff` — the answers are exact there and nowhere else.

A walk up the separators of a path ends at its first name, so a deferral of the root is found only
by a query for the root itself; and what lies beneath the root is sought from "/" on, where a name
that sorts before '/' is not.
-/

namespace DriveSync

open Path

section Index

variable [Unicode] {records : List DeferredPath} {p : RelPath}

/-- `f` is one of the recorded paths. -/
def RecordedIn (records : List DeferredPath) (f : RelPath) : Prop :=
  ∃ record ∈ records, record.relative = f

/-- The index of the records answers each question about `p` as the relation it names does. -/
structure ExactAt (records : List DeferredPath) (p : RelPath) : Prop where
  covering : ((DeferralIndex.fromRecords records).covering p).isSome = true ↔
    ∃ f, RecordedIn records f ∧ (f = p ∨ Encloses f p)
  hasDescendant : (DeferralIndex.fromRecords records).hasDescendant p = true ↔
    ∃ f, RecordedIn records f ∧ Encloses p f
  relatesTo : (DeferralIndex.fromRecords records).relatesTo p = true ↔
    ∃ f, RecordedIn records f ∧ ((f = p ∨ Encloses f p) ∨ Encloses p f)
  spellingRelated : ((DeferralIndex.fromRecords records).spellingRelated p).isSome = true ↔
    ∃ f, RecordedIn records f ∧ ((portableFold f = portableFold p ∨
      Encloses (portableFold f) (portableFold p)) ∨ Encloses (portableFold p) (portableFold f))

/-- The string of a path begins at or after the separator. -/
def FromSlash (f : RelPath) : Prop := ∃ c ∈ f.render.head?, '/' ≤ c

/-- Below the root, a recorded root needs another record at or above the path. For the root itself
some record must be another path, and the root must be recorded or some fold begin at or after
the separator. -/
def Answerable (records : List DeferredPath) (p : RelPath) : Prop :=
  if p = .root then
    records = [] ∨
      (∃ f, RecordedIn records f ∧ f ≠ .root) ∧
        (RecordedIn records .root ∨ ∃ f, RecordedIn records f ∧ FromSlash (portableFold f))
  else RecordedIn records .root → ∃ f, RecordedIn records f ∧ AtOrUnder f p

theorem mem_foldl_records {index : DeferralIndex} : p ∈ (records.foldl (fun index record =>
    DeferralIndex.insert index record.relative record.reason) index).exact ↔
      p ∈ index.exact ∨ RecordedIn records p := by
  induction records generalizing index with
  | nil => simp [RecordedIn]
  | cons record records ih =>
    rw [List.foldl_cons, ih, DeferralIndex.mem_insert]
    simp only [RecordedIn, List.mem_cons, exists_eq_or_imp, or_assoc, eq_comm (a := p)]

theorem mem_fromRecords : p ∈ (DeferralIndex.fromRecords records).exact ↔ RecordedIn records p := by
  rw [DeferralIndex.fromRecords, mem_foldl_records]
  simp

/-! ## A path below the root -/

omit [Unicode] in
/-- The walk up the separators leaves out the root alone. -/
theorem eq_or_encloses {f : RelPath} (hp : p ≠ .root) :
    (f = p ∨ Encloses f p) ↔ AtOrUnder f p ∨ f = .root := by
  by_cases hf : f = .root
  · simp [hf, encloses_root, hp]
  · rw [encloses_iff_mem_ancestors hf, AtOrUnder, eq_comm]
    simp [hf]

theorem portableFold_ne_root (hp : p ≠ .root) : portableFold p ≠ .root := by
  simpa [portableFold] using hp

omit [Unicode] in
/-- With no root recorded, or another record that answers for it, the relation over the records is
the one the walk computes. -/
theorem exists_or_root {R : RelPath → Prop}
    (h : RecordedIn records .root → ∃ f, RecordedIn records f ∧ R f) :
    (∃ f, RecordedIn records f ∧ (R f ∨ f = .root)) ↔ ∃ f, RecordedIn records f ∧ R f := by
  constructor
  · rintro ⟨f, hf, hR | rfl⟩
    · exact ⟨f, hf, hR⟩
    · exact h hf
  · rintro ⟨f, hf, hR⟩
    exact ⟨f, hf, .inl hR⟩

theorem covering_below : ((DeferralIndex.fromRecords records).covering p).isSome = true ↔
    ∃ f, RecordedIn records f ∧ AtOrUnder f p := by
  simp only [DeferralIndex.covering_isSome, mem_fromRecords]

theorem hasDescendant_below (hp : p ≠ .root) :
    (DeferralIndex.fromRecords records).hasDescendant p = true ↔
      ∃ f, RecordedIn records f ∧ Encloses p f := by
  simp only [DeferralIndex.hasDescendant_iff hp, mem_fromRecords, encloses_iff_mem_ancestors hp]

theorem exactAt_below (hp : p ≠ .root)
    (h : RecordedIn records .root → ∃ f, RecordedIn records f ∧ AtOrUnder f p) :
    ExactAt records p := by
  have hfold := portableFold_ne_root hp
  have hcovering : ((DeferralIndex.fromRecords records).covering p).isSome = true ↔
      ∃ f, RecordedIn records f ∧ (f = p ∨ Encloses f p) := by
    rw [covering_below]
    simp only [eq_or_encloses hp]
    exact (exists_or_root h).symm
  refine ⟨hcovering, hasDescendant_below hp, ?_, ?_⟩
  · rw [DeferralIndex.relatesTo, Bool.or_eq_true, hcovering, hasDescendant_below hp]
    simp only [and_or_left, exists_or]
  · rw [DeferralIndex.spellingRelated_isSome hp]
    simp only [mem_fromRecords, eq_or_encloses hfold, encloses_iff_mem_ancestors hfold]
    have hroot : ∀ f : RelPath, portableFold f = .root ↔ f = .root := fun f => map_eq_root
    simp only [hroot, or_right_comm]
    refine (exists_or_root fun hr => ?_).symm
    obtain ⟨f, hf, hfp⟩ := h hr
    exact ⟨f, hf, .inl hfp.map⟩

/-- A recorded root is above every path, but the walk from `p` meets the other records only. -/
theorem answerable_below (hp : p ≠ .root) (h : ExactAt records p)
    (hroot : RecordedIn records .root) : ∃ f, RecordedIn records f ∧ AtOrUnder f p :=
  covering_below.mp (h.covering.mpr ⟨.root, hroot, .inr (encloses_root.mpr hp)⟩)

/-! ## The root -/

omit [Unicode] in
theorem slash_root_le {f : RelPath} : (root : RelPath).slash ≤ f.render ↔ FromSlash f := by
  have hslash : (root : RelPath).slash = ['/'] := rfl
  rw [hslash, FromSlash]
  cases f.render with
  | nil => simp
  | cons c t =>
    rw [← not_lt, List.cons_lt_cons_iff]
    simp [le_iff_eq_or_lt, not_lt]

theorem isEmpty_exact : (DeferralIndex.fromRecords records).exact.isEmpty = false ↔
    ∃ f, RecordedIn records f := by
  simp only [Std.TreeMap.isEmpty_eq_false_iff_exists_mem, mem_fromRecords]

theorem covering_root : ((DeferralIndex.fromRecords records).covering .root).isSome = true ↔
    RecordedIn records .root := by
  rw [covering_below]
  simp [AtOrUnder, eq_comm]

theorem hasDescendant_root : (DeferralIndex.fromRecords records).hasDescendant .root = true ↔
    ∃ f, RecordedIn records f := by
  rw [DeferralIndex.hasDescendant, if_pos rfl, Bool.not_eq_true', isEmpty_exact]

omit [Unicode] in
theorem isSome_find?_key {ν : Type} (entries : Std.TreeMap RelPath ν) (sought : RelPath → Prop)
    [DecidablePred sought] : (entries.toList.find? fun entry => decide (sought entry.1)).isSome =
      true ↔ ∃ f ∈ entries, sought f := by
  rw [List.find?_isSome]
  simp only [decide_eq_true_eq, Prod.exists, Std.TreeMap.mem_toList_iff_getElem?_eq_some,
    Std.TreeMap.mem_iff_isSome_getElem?, Option.isSome_iff_exists]
  constructor
  · rintro ⟨f, v, hv, hf⟩
    exact ⟨f, ⟨v, hv⟩, hf⟩
  · rintro ⟨f, ⟨v, hv⟩, hf⟩
    exact ⟨f, v, hv, hf⟩

theorem spellingRelated_root :
    ((DeferralIndex.fromRecords records).spellingRelated .root).isSome = true ↔
      RecordedIn records .root ∨ ∃ f, RecordedIn records f ∧ FromSlash (portableFold f) := by
  set index := DeferralIndex.fromRecords records
  have hmem : ∀ f, f ∈ index.folded ↔ ∃ q, RecordedIn records q ∧ portableFold q = f := by
    simp only [index.linked, mem_fromRecords, index, implies_true]
  have hself : (index.folded[(root : RelPath)]?).isSome = true ↔ RecordedIn records .root := by
    rw [Std.TreeMap.isSome_getElem?_iff_mem, hmem]
    constructor
    · rintro ⟨q, hq, h⟩
      rwa [map_eq_root.mp h] at hq
    · intro h
      exact ⟨.root, h, rfl⟩
  have hbeneath : (index.folded.toList.find? fun entry =>
      decide ((root : RelPath).slash ≤ entry.1.render)).isSome = true ↔
        ∃ f, RecordedIn records f ∧ FromSlash (portableFold f) := by
    rw [isSome_find?_key index.folded fun f => (root : RelPath).slash ≤ f.render]
    simp only [slash_root_le, hmem]
    constructor
    · rintro ⟨_, ⟨q, hq, rfl⟩, hf⟩
      exact ⟨q, hq, hf⟩
    · rintro ⟨q, hq, hf⟩
      exact ⟨_, ⟨q, hq, rfl⟩, hf⟩
  rw [← hself, ← hbeneath, DeferralIndex.spellingRelated]
  have hfold : portableFold .root = .root := rfl
  simp only [hfold, ancestors_root, List.findSome?_cons, List.findSome?_nil]
  cases index.folded[(root : RelPath)]? with
  | some found => simp
  | none => simp

omit [Unicode] in
theorem exists_recorded : (∃ f, RecordedIn records f) ↔ records ≠ [] := by
  cases records <;> simp [RecordedIn]

omit [Unicode] in
/-- Every record is the root or beneath it. -/
theorem exists_related_root (records : List DeferredPath) (fold : RelPath → RelPath) :
    (∃ f, RecordedIn records f ∧ ((fold f = .root ∨ Encloses (fold f) .root) ∨
      Encloses .root (fold f))) ↔ records ≠ [] := by
  rw [← exists_recorded]
  simp only [not_encloses_root, encloses_root, or_false, ne_eq, em, and_true]

theorem relatesTo_root :
    (DeferralIndex.fromRecords records).relatesTo .root = true ↔ records ≠ [] := by
  rw [DeferralIndex.relatesTo, Bool.or_eq_true, covering_root, hasDescendant_root, exists_recorded]
  exact or_iff_right_of_imp fun h => exists_recorded.mp ⟨_, h⟩

theorem exactAt_root : ExactAt records .root ↔ Answerable records .root := by
  have hspelling : ((DeferralIndex.fromRecords records).spellingRelated .root).isSome = true ↔
      RecordedIn records .root ∨ ∃ f, RecordedIn records f ∧ FromSlash (portableFold f) :=
    spellingRelated_root
  have hcovering : RecordedIn records .root ↔
      ∃ f, RecordedIn records f ∧ (f = .root ∨ Encloses f .root) := by simp [not_encloses_root]
  have hrelates := (exists_related_root records id).symm
  rw [Answerable, if_pos rfl]
  constructor
  · intro h
    by_cases hnil : records = []
    · exact .inl hnil
    · obtain ⟨f, hf, hne⟩ :=
        h.hasDescendant.mp (hasDescendant_root.mpr (exists_recorded.mpr hnil))
      exact .inr ⟨⟨f, hf, encloses_root.mp hne⟩,
        hspelling.mp (h.spellingRelated.mpr ((exists_related_root _ _).mpr hnil))⟩
  · rintro (rfl | ⟨⟨f, hf, hne⟩, hreached⟩)
    · refine ⟨covering_root.trans hcovering, ?_, relatesTo_root.trans hrelates, ?_⟩
      · rw [hasDescendant_root]
        simp [RecordedIn]
      · rw [hspelling]
        simp [RecordedIn]
    · have hsome : ∃ f, RecordedIn records f := ⟨f, hf⟩
      refine ⟨covering_root.trans hcovering, ?_, relatesTo_root.trans hrelates, ?_⟩
      · rw [hasDescendant_root]
        exact iff_of_true hsome ⟨f, hf, encloses_root.mpr hne⟩
      · exact iff_of_true (hspelling.mpr hreached)
          ((exists_related_root _ _).mpr (exists_recorded.mp hsome))

/-- The index answers exactly where its look-ups reach what is recorded, and nowhere else. -/
theorem exactAt_iff : ExactAt records p ↔ Answerable records p := by
  by_cases hp : p = .root
  · rw [hp, exactAt_root]
  · rw [Answerable, if_neg hp]
    exact ⟨answerable_below hp, exactAt_below hp⟩

end Index

/-- A deferral of the root covers no path; one of a name that sorts before '/' is not related to
the root. -/
theorem not_exactAt_root :
    letI := charwise
    ¬ ExactAt [⟨.root, .remoteRefused, ""⟩] (.child .root ⟨['a'], by decide⟩) ∧
      ¬ ExactAt [⟨.child .root ⟨['.', 'h'], by decide⟩, .sourceChanged, ""⟩] .root := by
  let := charwise
  constructor
  · intro h
    have hroot := h.covering.mpr ⟨.root, ⟨_, .head _, rfl⟩, .inr (encloses_root.mpr (by decide))⟩
    exact absurd hroot (by decide +kernel)
  · intro h
    have hidden := h.spellingRelated.mpr ⟨.child .root ⟨['.', 'h'], by decide⟩, ⟨_, .head _, rfl⟩,
      .inr (encloses_root.mpr (by decide))⟩
    exact absurd hidden (by decide +kernel)

end DriveSync
