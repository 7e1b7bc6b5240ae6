import DriveSync.Plan.Resolve

/-!
# DriveSync.Plan.Withheld

What a resolution decides when some local paths are withheld: taken out of the local inventory and
put among its skips, or refused by the destination. Whatever the new shield does not cover is
decided as it was, and the new shield covers all that the old one did.

* `Withheld`: an inventory and the same with some paths withheld.
* `covers_of_covers`: the shield only grows.
* `remoteRelative_eq_of_not_covers`, `localRelative_eq_of_not_covers`,
  `isLeftover_eq_of_not_covers`, `isProtected_eq_of_not_covers`: outside it nothing changes.
-/

namespace DriveSync

open Path

section Withheld

variable [Unicode]

/-- `L'` and `refused'` are `L` and `refused` with some local paths withheld. -/
structure Withheld (L L' : LocalInventory) (refused refused' : List SkippedEntry) : Prop where
  kept : ∀ k e, L'.entries.get? k = some e → L.entries.get? k = some e
  gone : ∀ k e, L.entries.get? k = some e → L'.entries.get? k = none →
    ∃ skip ∈ L'.skipped ++ refused', AtOrUnder (portableFold skip.relative) (portableFold k)
  skipped : ∀ skip ∈ L.skipped ++ refused, skip ∈ L'.skipped ++ refused'

variable {L L' : LocalInventory} {R : RemoteInventory} {rules : IgnoreRules} {delete : Bool}
  {refused refused' : List SkippedEntry}

/-! ## The classes -/

theorem covers_blocked_of_skip {skip : SkippedEntry} (h : skip ∈ L.skipped ++ refused)
    {p : RelPath} (hp : AtOrUnder (portableFold skip.relative) (portableFold p)) :
    (resolveSpellings L R rules delete refused).blocked.covers p = true := by
  rw [blocked_resolveSpellings]
  refine Shield.coversFold_iff.mpr ⟨_, ?_, hp⟩
  exact (decideClasses_decided L R rules delete refused).blocked_init _
    (mem_initialState.mpr ⟨skip, h, rfl⟩)

/-- Two records of one fold whose spellings are the same, and at most one, are the same. -/
theorem Noted.Of.eq_of_unique {noted noted' : Noted} {spelled spelled' : RelPath → Prop}
    {fold : RelPath} (h : noted.Of spelled fold) (h' : noted'.Of spelled' fold)
    (same : ∀ p, portableFold p = fold → (spelled p ↔ spelled' p))
    (unique : ∀ p q, spelled p → spelled q → portableFold p = fold → portableFold q = fold →
      p = q) : noted = noted' := by
  have hother : noted.other = none := by
    cases hq : noted.other with
    | none => rfl
    | some q =>
      obtain ⟨hqs, hqf, p, hp, hne⟩ := h.other q hq
      obtain ⟨hps, hpf⟩ := h.first p hp
      exact absurd (unique p q hps hqs hpf hqf) hne
  have hother' : noted'.other = none := by
    cases hq : noted'.other with
    | none => rfl
    | some q =>
      obtain ⟨hqs, hqf, p, hp, hne⟩ := h'.other q hq
      obtain ⟨hps, hpf⟩ := h'.first p hp
      exact absurd (unique p q ((same p hpf).mpr hps) ((same q hqf).mpr hqs) hpf hqf) hne
  have hfirst : noted.first = noted'.first := by
    cases hp : noted.first with
    | some p =>
      obtain ⟨hps, hpf⟩ := h.first p hp
      exact (h'.all hother' p ((same p hpf).mp hps) hpf).symm
    | none =>
      cases hp' : noted'.first with
      | none => rfl
      | some p =>
        obtain ⟨hps, hpf⟩ := h'.first p hp'
        rw [h.all hother p ((same p hpf).mpr hps) hpf] at hp
        cases hp
  obtain ⟨first, other⟩ := noted
  obtain ⟨first', other'⟩ := noted'
  simp only at hother hother' hfirst
  rw [hother, hother', hfirst]

/-- The remote half of a class is noted from the remote inventory alone. -/
theorem spellingsOf_remote (fold : RelPath) : spellingsOf (considered L R rules) fold false =
    spellingsOf (considered L' R rules) fold false := by
  have hlocal : ∀ m : List (RelPath × Bool), (∀ p ∈ m, p.2 = true) →
      m.filter (fun p => decide (portableFold p.1 = fold ∧ p.2 = false)) = [] := by
    intro m hm
    rw [List.filter_eq_nil_iff]
    intro p hp
    simp [hm p hp]
  simp only [spellingsOf, considered, List.flatMap_append, List.filter_append]
  congr 2
  rw [hlocal, hlocal]
  all_goals
    intro p hp
    obtain ⟨q, hq, hpq⟩ := List.mem_flatMap.mp hp
    obtain ⟨k, _, rfl⟩ := List.mem_map.mp hq
    obtain ⟨a, _, rfl⟩ := List.mem_map.mp hpq
    rfl

/-- What a class comes to reads the local inventory only at its local spelling. -/
theorem decideClass_congr {cls : Spellings}
    (h : ∀ p, cls.loc.first = some p → L.entries.get? p = L'.entries.get? p) :
    decideClass L R delete cls = decideClass L' R delete cls := by
  obtain ⟨⟨l1, l2⟩, ⟨r1, r2⟩⟩ := cls
  simp only [decideClass]
  split
  · rfl
  · split
    · rfl
    · split
      · rename_i l r _ _
        simp only [decidePair, h l rfl]
      · rfl

section Same

variable (h : Withheld L L' refused refused') (closed : L.entries.ParentClosed LocalEntry.kind)
  (distinct : L.entries.DistinctFolds)

include h in
theorem get?_eq_of_not_covers {k : RelPath}
    (hk : (resolveSpellings L' R rules delete refused').blocked.covers k = false) :
    L.entries.get? k = L'.entries.get? k := by
  cases hL' : L'.entries.get? k with
  | some e => exact h.kept k e hL'
  | none =>
    cases hL : L.entries.get? k with
    | none => rfl
    | some e =>
      obtain ⟨skip, hskip, hfold⟩ := h.gone k e hL hL'
      rw [covers_blocked_of_skip hskip hfold] at hk
      cases hk

include h closed in
theorem isLocalSpelling_iff_of_not_covers {p : RelPath}
    (hp : (resolveSpellings L' R rules delete refused').blocked.covers p = false) :
    IsLocalSpelling L p ↔ IsLocalSpelling L' p := by
  constructor
  · intro hL
    obtain ⟨e, he⟩ := EntryMap.mem_keys.mp (mem_keys_of_isLocalSpelling closed hL)
    rw [get?_eq_of_not_covers h hp] at he
    exact isLocalSpelling_of_mem_keys (EntryMap.mem_keys.mpr ⟨e, he⟩)
  · rintro ⟨x, hx, hpx⟩
    obtain ⟨e, he⟩ := EntryMap.mem_keys.mp hx
    exact ⟨x, EntryMap.mem_keys.mpr ⟨e, h.kept x e he⟩, hpx⟩

include h closed distinct in
theorem classOf_eq_of_not_covers {fold : RelPath}
    (hf : (resolveSpellings L' R rules delete refused').blocked.coversFold fold = false) :
    classOf (considered L R rules) fold = classOf (considered L' R rules) fold := by
  have hloc : ((spellingsOf (considered L R rules) fold true).foldl Noted.note .empty) =
      (spellingsOf (considered L' R rules) fold true).foldl Noted.note .empty := by
    have hof : ∀ M : LocalInventory,
        ((spellingsOf (considered M R rules) fold true).foldl Noted.note .empty).Of
          (IsLocalSpelling M) fold := fun M => noted_of fun p => by
      rw [mem_spellingsOf, mem_considered_local]
    refine (hof L).eq_of_unique (hof L') ?_ ?_
    · intro p hp
      exact isLocalSpelling_iff_of_not_covers h closed (by rw [Shield.covers, hp]; exact hf)
    · intro p q hp hq hpf hqf
      exact eq_of_fold_eq distinct (mem_keys_of_isLocalSpelling closed hp)
        (mem_keys_of_isLocalSpelling closed hq) (hpf.trans hqf.symm)
  rw [classOf, classOf, hloc, spellingsOf_remote]

include h closed distinct in
/-- An uncovered class is the same class of both inventories, and comes to the same. -/
theorem class_of_not_covers {cls : RelPath × Spellings}
    (hf : (resolveSpellings L' R rules delete refused').blocked.coversFold cls.1 = false) :
    (cls ∈ (classes L R rules).toList ↔ cls ∈ (classes L' R rules).toList) ∧
      (cls ∈ (classes L R rules).toList →
        decideClass L R delete cls.2 = decideClass L' R delete cls.2) := by
  constructor
  · rw [mem_toList_classes, mem_toList_classes, classOf_eq_of_not_covers h closed distinct hf]
    refine and_congr Iff.rfl ?_
    have hsame : ∀ p b, portableFold p = cls.1 →
        ((p, b) ∈ considered L R rules ↔ (p, b) ∈ considered L' R rules) := by
      intro p b hp
      cases b with
      | true =>
        rw [mem_considered_local, mem_considered_local]
        exact isLocalSpelling_iff_of_not_covers h closed (by rw [Shield.covers, hp]; exact hf)
      | false => rw [mem_considered_remote, mem_considered_remote]
    constructor
    · rintro ⟨⟨p, b⟩, hmem, hp⟩
      exact ⟨(p, b), (hsame p b hp).mp hmem, hp⟩
    · rintro ⟨⟨p, b⟩, hmem, hp⟩
      exact ⟨(p, b), (hsame p b hp).mpr hmem, hp⟩
  · intro hcls
    refine decideClass_congr fun p hp => ?_
    obtain ⟨_, hpf⟩ := (noted_of_mem_classes hcls).1.first p hp
    exact get?_eq_of_not_covers h (by rw [Shield.covers, hpf]; exact hf)

include h closed distinct in
/-- What was blocked still is. -/
theorem covers_blocked_of_covers {p : RelPath}
    (hp : (resolveSpellings L R rules delete refused).blocked.covers p = true) :
    (resolveSpellings L' R rules delete refused').blocked.covers p = true := by
  obtain ⟨f, hf, hfp⟩ := Shield.coversFold_iff.mp hp
  rw [blocked_resolveSpellings] at hf
  rcases (decideClasses_decided L R rules delete refused).blocked f hf with
    hf | ⟨cls, hcls, rfl, reports, hdec, _⟩
  · obtain ⟨skip, hskip, rfl⟩ := mem_initialState.mp hf
    exact covers_blocked_of_skip (h.skipped skip hskip) hfp
  · refine Shield.coversFold_of_atOrUnder hfp ?_
    by_contra hcov
    rw [Bool.not_eq_true] at hcov
    obtain ⟨hmem, hsame⟩ := class_of_not_covers h closed distinct hcov
    rw [hsame hcls] at hdec
    have := (decideClasses_decided L' R rules delete refused').collision cls (hmem.mp hcls) _ hdec
    rw [blocked_resolveSpellings, this] at hcov
    cases hcov

/-! ## The pairing -/

include h closed in
theorem caseRename_iff_of_not_covers {x r : RelPath}
    (hx : (resolveSpellings L' R rules delete refused').blocked.covers x = false) :
    CaseRename L R rules x r ↔ CaseRename L' R rules x r := by
  have hlocal : ∀ p, portableFold p = portableFold x → (IsLocalSpelling L p ↔ IsLocalSpelling L' p) :=
    fun p hp => isLocalSpelling_iff_of_not_covers h closed ((Shield.covers_congr hp).trans hx)
  have hget := get?_eq_of_not_covers h hx
  constructor
  · intro hr
    exact ⟨(hlocal x rfl).mp hr.isLocal, hr.isRemote, hr.fold_eq,
      fun x' hx' hf => hr.onlyLocal x' ((hlocal x' hf).mpr hx') hf, hr.onlyRemote, hr.nfc_ne,
      hr.differ, hget ▸ hr.kind_eq⟩
  · intro hr
    exact ⟨(hlocal x rfl).mpr hr.isLocal, hr.isRemote, hr.fold_eq,
      fun x' hx' hf => hr.onlyLocal x' ((hlocal x' hf).mp hx') hf, hr.onlyRemote, hr.nfc_ne,
      hr.differ, hget ▸ hr.kind_eq⟩

include h in
theorem nfcPair_iff_of_not_covers {x r : RelPath}
    (hx : (resolveSpellings L' R rules delete refused').blocked.covers x = false) :
    Correspondence.NfcPair L R x r ↔ Correspondence.NfcPair L' R x r := by
  have hkeys : ∀ p, nfc p = nfc x → (p ∈ L.entries.keys ↔ p ∈ L'.entries.keys) := by
    intro p hp
    rw [EntryMap.mem_keys, EntryMap.mem_keys, get?_eq_of_not_covers h
      ((Shield.covers_congr (portableFold_eq_of_nfc_eq hp)).trans hx)]
  constructor
  · intro hr
    exact ⟨(hkeys x rfl).mp hr.isLocal, hr.isRemote, hr.nfc_eq, hr.notRemote,
      mt (hkeys r hr.nfc_eq).mpr hr.notLocal, hr.onlyRemote,
      fun x' hx' hn => hr.onlyLocal x' ((hkeys x' hn).mpr hx') hn⟩
  · intro hr
    exact ⟨(hkeys x rfl).mpr hr.isLocal, hr.isRemote, hr.nfc_eq, hr.notRemote,
      mt (hkeys r hr.nfc_eq).mp hr.notLocal, hr.onlyRemote,
      fun x' hx' hn => hr.onlyLocal x' ((hkeys x' hn).mp hx') hn⟩

include h closed distinct in
theorem mem_renamesOf_iff_of_not_covers {x r : RelPath}
    (hx : (resolveSpellings L' R rules delete refused').blocked.covers x = false) :
    (x, r) ∈ renamesOf L R rules delete refused ↔ (x, r) ∈ renamesOf L' R rules delete refused' := by
  have hx' : (resolveSpellings L R rules delete refused).blocked.covers x = false :=
    Bool.eq_false_iff.mpr fun hcov => by
      rw [covers_blocked_of_covers h closed distinct hcov] at hx
      cases hx
  rw [renamesOf, renamesOf, mem_renames, mem_renames, caseRename_iff_of_not_covers h closed hx]
  simp [hx, hx']

include h closed distinct in
theorem toRemote_eq_of_not_covers {x : RelPath}
    (hx : (resolveSpellings L' R rules delete refused').blocked.covers x = false) :
    (resolve L R rules delete refused).pairs.toRemote[x]? =
      (resolve L' R rules delete refused').pairs.toRemote[x]? := by
  refine Option.ext fun r => ?_
  rw [toRemote_resolve, toRemote_resolve, nfcPair_iff_of_not_covers h hx]
  simp only [mem_renamesOf_iff_of_not_covers h closed distinct hx]

include h closed distinct in
theorem toLocal_eq_of_not_covers {r : RelPath}
    (hr : (resolveSpellings L' R rules delete refused').blocked.covers r = false) :
    (resolve L R rules delete refused).pairs.toLocal[r]? =
      (resolve L' R rules delete refused').pairs.toLocal[r]? := by
  refine Option.ext fun x => ?_
  rw [toLocal_resolve, toLocal_resolve]
  by_cases hfold : portableFold x = portableFold r
  · have hx : (resolveSpellings L' R rules delete refused').blocked.covers x = false :=
      (Shield.covers_congr hfold).trans hr
    rw [mem_renamesOf_iff_of_not_covers h closed distinct hx, nfcPair_iff_of_not_covers h hx]
  · -- a pair is of one fold
    have hno : ∀ (M : LocalInventory) (skips : List SkippedEntry),
        ¬((x, r) ∈ renamesOf M R rules delete skips ∨ Correspondence.NfcPair M R x r) := by
      rintro M skips (hren | hnfc)
      · exact hfold (mem_renames.mp hren).2.1.fold_eq.symm
      · exact hfold (portableFold_eq_of_nfc_eq hnfc.nfc_eq).symm
    exact iff_of_false (hno L refused) (hno L' refused')

include h closed distinct in
theorem remoteRelative_eq_of_not_covers {p : RelPath}
    (hp : (resolveSpellings L' R rules delete refused').blocked.covers p = false) :
    (resolve L R rules delete refused).pairs.remoteRelative p =
      (resolve L' R rules delete refused').pairs.remoteRelative p := by
  refine inherit_congr fun a ha => toRemote_eq_of_not_covers h closed distinct ?_
  exact Bool.eq_false_iff.mpr fun hcov => by
    rw [Shield.covers_of_atOrUnder ha hcov] at hp
    cases hp

include h closed distinct in
theorem localRelative_eq_of_not_covers {p : RelPath}
    (hp : (resolveSpellings L' R rules delete refused').blocked.covers p = false) :
    (resolve L R rules delete refused).pairs.localRelative p =
      (resolve L' R rules delete refused').pairs.localRelative p := by
  refine inherit_congr fun a ha => toLocal_eq_of_not_covers h closed distinct ?_
  exact Bool.eq_false_iff.mpr fun hcov => by
    rw [Shield.covers_of_atOrUnder ha hcov] at hp
    cases hp

include h closed distinct in
theorem isProtected_eq_of_not_covers {e : RemoteEntry}
    (he : (resolveSpellings L' R rules delete refused').blocked.covers e.relative = false) :
    isProtected e rules (resolve L R rules delete refused).pairs =
      isProtected e rules (resolve L' R rules delete refused').pairs := by
  simp only [isProtected, localRelative_eq_of_not_covers h closed distinct he]

/-! ## The leftovers and the shield -/

include h closed distinct in
theorem isLeftover_eq_of_not_covers {p : RelPath}
    (hp : (resolveSpellings L' R rules delete refused').blocked.covers p = false) :
    (resolve L R rules delete refused).isLeftover p =
      (resolve L' R rules delete refused').isLeftover p := by
  have hmem : ∀ old kept, AtOrUnder old p →
      ((old, kept) ∈ (resolve L R rules delete refused).leftovers ↔
        (old, kept) ∈ (resolve L' R rules delete refused').leftovers) := by
    intro old kept hold
    have hcov : (resolveSpellings L' R rules delete refused').blocked.covers old = false :=
      Bool.eq_false_iff.mpr fun hcov => by
        rw [Shield.covers_of_atOrUnder hold hcov] at hp
        cases hp
    have hcov' : (resolveSpellings L R rules delete refused).blocked.covers old = false :=
      Bool.eq_false_iff.mpr fun hcov' => by
        rw [covers_blocked_of_covers h closed distinct hcov'] at hcov
        cases hcov
    rw [leftovers_resolve, leftovers_resolve, mem_leftovers_resolveSpellings,
      mem_leftovers_resolveSpellings]
    constructor
    · rintro ⟨cls, hcls, hf, hdec, _⟩
      have hcls' : (resolveSpellings L' R rules delete refused').blocked.coversFold cls.1 = false :=
        hf ▸ hcov
      obtain ⟨hiff, hsame⟩ := class_of_not_covers h closed distinct hcls'
      exact ⟨cls, hiff.mp hcls, hf, hsame hcls ▸ hdec, hcls'⟩
    · rintro ⟨cls, hcls, hf, hdec, hcls'⟩
      obtain ⟨hiff, hsame⟩ := class_of_not_covers h closed distinct hcls'
      have hcls := hiff.mpr hcls
      exact ⟨cls, hcls, hf, hsame hcls ▸ hdec, hf ▸ hcov'⟩
  rw [Bool.eq_iff_iff, Resolution.isLeftover, Resolution.isLeftover]
  simp only [List.any_eq_true, decide_eq_true_eq, Prod.exists]
  constructor
  · rintro ⟨old, kept, hold, hat⟩
    exact ⟨old, kept, (hmem old kept hat).mp hold, hat⟩
  · rintro ⟨old, kept, hold, hat⟩
    exact ⟨old, kept, (hmem old kept hat).mpr hold, hat⟩

include h in
theorem mem_values_of_not_covers {x : LocalEntry} (hx : x ∈ L.entries.values)
    (hcov : (resolveSpellings L' R rules delete refused').blocked.covers x.relative = false) :
    x ∈ L'.entries.values := by
  refine EntryMap.mem_values_of_get? (k := x.relative) ?_
  rw [← get?_eq_of_not_covers h hcov]
  exact EntryMap.mem_values.mp hx

include h closed distinct in
/-- The shield only grows. -/
theorem covers_of_covers {p : RelPath}
    (hp : (resolve L R rules delete refused).shield.covers p = true) :
    (resolve L' R rules delete refused').shield.covers p = true := by
  rcases covers_resolve_cases closed distinct hp with hp | ⟨x, hx, hxp, hwhy⟩
  · exact covers_resolve_of_blocked (covers_blocked_of_covers h closed distinct hp)
  · refine Shield.coversFold_of_atOrUnder hxp ?_
    by_cases hcov : (resolveSpellings L' R rules delete refused').blocked.covers x.relative = true
    · exact covers_resolve_of_blocked hcov
    · rw [Bool.not_eq_true] at hcov
      have hx' := mem_values_of_not_covers h hx hcov
      have hremote := remoteRelative_eq_of_not_covers h closed distinct hcov
      rcases hwhy with hexcluded | ⟨r, hr, hconflict⟩
      · refine covers_resolve_of_pairedExclusion hx' ?_
        simp only [pairedExclusion] at hexcluded ⊢
        rwa [hremote] at hexcluded
      · refine covers_resolve_of_conflicts hx' ⟨r, ?_, isSome_typeConflict_mono hconflict ?_⟩
        · rw [Correspondence.remoteOf, ← hremote]
          exact hr
        · intro _ e _ hkept
          by_cases hecov : (resolveSpellings L' R rules delete refused').blocked.covers
              e.relative = true
          · exact .inr hecov
          · rw [Bool.not_eq_true] at hecov
            refine .inl ?_
            rw [← isProtected_eq_of_not_covers h closed distinct hecov]
            refine hkept.resolve_right fun hcov' => ?_
            rw [covers_blocked_of_covers h closed distinct hcov'] at hecov
            cases hecov

end Same

end Withheld

end DriveSync
