import DriveSync.Status.Canary

/-!
# DriveSync.Status.Stored

What `store` leaves of a pass and of the file before it, and what a later pass is served of that.

* `Expected`: the records there should be, told apart by path: one of each pair that agrees, and the
  earlier ones of other paths.
* `holds_store`: the file has them in order, the first of them where they are too many.
* `digest_serve_iff`: a pass without an audit is served exactly the records it can use.
-/

namespace DriveSync
namespace StatusCache

open SortedMerge (value? Sorted both)

/-- The records of the file before, in order, if it is about this query. -/
def Slot.previous (cache : Cache) (slot : Slot) : List Record :=
  match slot.lines? cache with
  | some (_, lines) => (legible none lines).1
  | none => []

/-- The lines of a file that is about this query are records in order, and each record a pass carries
of them has its digests. -/
def CarriesAll (cache : Cache) (slot : Slot) (sides : Sides) (isScoped : Bool) : Prop :=
  ∀ header lines, slot.lines? cache = some (header, lines) → (legible none lines).2 ≠ .mangled ∧
    ∀ r ∈ (legible none lines).1, (writerOf cache sides isScoped).refuses r = false

/-- The unexpired record of the file before that holds the evidence of a pair. -/
structure Seen (cache : Cache) (slot : Slot) (p : RelText) (f : StoredEntry)
    (s : Record) : Prop where
  mem : s ∈ slot.previous cache
  path : s.p = p
  unexpired : s.isExpired cache.now cache.expiry = false
  same : ∃ md5s, s.digests = some md5s ∧ (entryOf s md5s).isSameEvidenceAs f = true

/-- An unexpired record of the file before, as it is written again. A pass over the whole tree only
keeps one whose path exists locally. -/
structure Kept (cache : Cache) (slot : Slot) (sides : Sides) (isScoped : Bool) (s r : Record) :
    Prop where
  mem : s ∈ slot.previous cache
  unexpired : s.isExpired cache.now cache.expiry = false
  inScope : isScoped = true ∨ (sides.source s.p).isSome = true
  again : ∃ md5s, s.digests = some md5s ∧ r = (entryOf s md5s).toRecord s.p

/-- The pair under a path, where this pass compares it and saw it agree. -/
def Agreeing (cache : Cache) (sides : Sides) (comparison : Comparison) (p : RelText)
    (f : StoredEntry) : Prop := comparison.contains p = true ∧ observed cache sides p = some f

/-- The records a file should have: a pair that agrees, from when its evidence was first seen, or from
now on; and the earlier records of other paths. -/
inductive Expected (cache : Cache) (slot : Slot) (sides : Sides) (comparison : Comparison)
    (isScoped : Bool) : Record → Prop where
  | again {p : RelText} {f : StoredEntry} {s : Record} : Agreeing cache sides comparison p f →
      Seen cache slot p f s →
      Expected cache slot sides comparison isScoped (({ f with observedAt := s.t }).toRecord p)
  | fresh {p : RelText} {f : StoredEntry} : Agreeing cache sides comparison p f →
      (∀ s, ¬Seen cache slot p f s) →
      Expected cache slot sides comparison isScoped (({ f with observedAt := cache.now }).toRecord p)
  | kept {s r : Record} : Kept cache slot sides isScoped s r →
      (∀ f, ¬Agreeing cache sides comparison s.p f) →
      Expected cache slot sides comparison isScoped r

/-- The file has the expected records in order, and where it is full only the last of them are
missing. -/
structure Holds (expected : Record → Prop) (records : List Record) : Prop where
  sorted : records.Pairwise fun a b => a.p < b.p
  limit : records.length ≤ entryLimit
  sound : ∀ r ∈ records, expected r
  complete : ∀ r, expected r →
    r ∈ records ∨ records.length = entryLimit ∧ ∀ s ∈ records, s.p < r.p

section Store

variable {cache : Cache} {slot : Slot} {sides : Sides} {comparison : Comparison} {isScoped : Bool}
  {p : RelText} {c : StoredEntry}

theorem carryOver_eq {header : Header} {lines : List Line}
    (hlines : slot.lines? cache = some (header, lines)) :
    carryOver cache slot sides isScoped = (writerOf cache sides isScoped).upcomingFrom lines := by
  unfold carryOver
  rw [opened_eq, hlines]
  rfl

/-- All of the file before is carried that the merge takes. -/
theorem carryOver_of_carriesAll (hcarries : CarriesAll cache slot sides isScoped) :
    carryOver cache slot sides isScoped =
      ((slot.previous cache).filterMap (writerOf cache sides isScoped).taken, false) := by
  unfold Slot.previous
  cases hlines : slot.lines? cache with
  | none => exact carryOver_of_none hlines sides
  | some found =>
    obtain ⟨header, lines⟩ := found
    obtain ⟨hending, hnone⟩ := hcarries header lines hlines
    have hany : (legible none lines).1.any (writerOf cache sides isScoped).refuses = false :=
      List.any_eq_false.mpr fun r hr => by simp [hnone r hr]
    rw [carryOver_eq hlines]
    show (writerOf cache sides isScoped).upcomingOf (legible none lines).1 (legible none lines).2 = _
    unfold CarriedRecords.upcomingOf
    rw [List.takeWhile_eq_self_iff.mpr fun r hr => by simp [hnone r hr], hany, Bool.or_false,
      beq_eq_false_iff_ne.mpr hending]

theorem taken_eq_some {s : Record} : (writerOf cache sides isScoped).taken s = some (p, c) ↔
    s.isExpired cache.now cache.expiry = false ∧
      (isScoped = true ∨ (sides.source s.p).isSome = true) ∧
      ∃ md5s, s.digests = some md5s ∧ s.p = p ∧ entryOf s md5s = c := by
  unfold CarriedRecords.taken
  have hjudges : (writerOf cache sides isScoped).judges s = true ↔
      s.isExpired cache.now cache.expiry = false ∧
        (isScoped = true ∨ (sides.source s.p).isSome = true) := by
    simp [CarriedRecords.judges, CarriedRecords.isInScope, writerOf]
  by_cases hj : (writerOf cache sides isScoped).judges s = true
  · obtain ⟨hexpired, hscope⟩ := hjudges.mp hj
    rw [if_pos hj]
    simp only [Option.map_eq_some_iff, hexpired, hscope, true_and, Prod.mk.injEq]
    rfl
  · rw [if_neg hj]
    constructor
    · intro hnone
      cases hnone
    · rintro ⟨hexpired, hscope, _⟩
      exact absurd (hjudges.mpr ⟨hexpired, hscope⟩) hj

theorem value?_carryOver (hcarries : CarriesAll cache slot sides isScoped) :
    value? (carryOver cache slot sides isScoped).1 p = some c ↔
      ∃ s ∈ slot.previous cache, s.isExpired cache.now cache.expiry = false ∧
        (isScoped = true ∨ (sides.source s.p).isSome = true) ∧
        ∃ md5s, s.digests = some md5s ∧ s.p = p ∧ entryOf s md5s = c := by
  rw [← (sorted_carryOver cache slot sides isScoped).mem_iff, carryOver_of_carriesAll hcarries,
    List.mem_filterMap]
  simp only [taken_eq_some]

/-- A pair that agrees is one of two local files. -/
theorem Agreeing.source {f : StoredEntry} (h : Agreeing cache sides comparison p f) :
    (sides.source p).isSome = true := by
  obtain ⟨hpair, _⟩ := observed_eq_some h.2
  obtain ⟨l, r, hl, _⟩ := pair?_eq_some.mp hpair
  rw [hl]
  rfl

theorem Seen.carried {f : StoredEntry} {s : Record} (hcarries : CarriesAll cache slot sides isScoped)
    (hagree : Agreeing cache sides comparison p f) (h : Seen cache slot p f s) :
    ∃ c, value? (carryOver cache slot sides isScoped).1 p = some c ∧ c.isSameEvidenceAs f = true ∧
      c.observedAt = s.t := by
  obtain ⟨md5s, hdigests, hsame⟩ := h.same
  exact ⟨entryOf s md5s, (value?_carryOver hcarries).mpr ⟨s, h.mem, h.unexpired,
    .inr (h.path ▸ hagree.source), md5s, hdigests, h.path, rfl⟩, hsame, rfl⟩

theorem seen_of_carried {f : StoredEntry} (hcarries : CarriesAll cache slot sides isScoped)
    (hc : value? (carryOver cache slot sides isScoped).1 p = some c)
    (hsame : c.isSameEvidenceAs f = true) : ∃ s, Seen cache slot p f s ∧ s.t = c.observedAt := by
  obtain ⟨s, hs, hexpired, _, md5s, hdigests, hpath, rfl⟩ := (value?_carryOver hcarries).mp hc
  exact ⟨s, ⟨hs, hpath, hexpired, md5s, hdigests, hsame⟩, rfl⟩

theorem dated_now {f : StoredEntry} (h : Agreeing cache sides comparison p f) :
    { f with observedAt := cache.now } = f := by
  obtain ⟨_, _, _, hnow⟩ := observed_eq_some h.2
  rw [← hnow]

/-- The records there should be are those of the merge. -/
theorem expected_iff (hcarries : CarriesAll cache slot sides isScoped) {r : Record} :
    Expected cache slot sides comparison isScoped r ↔
      ∃ e, value? (merged (observationStream cache sides comparison)
        (carryOver cache slot sides isScoped).1) r.p = some e ∧ r = e.toRecord r.p := by
  have hf := sorted_observationStream cache sides comparison
  have hc := sorted_carryOver cache slot sides isScoped
  constructor
  · intro h
    cases h with
    | @again p f s hagree hseen =>
      obtain ⟨c, hcarried, hsame, htime⟩ := hseen.carried hcarries hagree
      refine ⟨{ f with observedAt := s.t }, ?_, rfl⟩
      rw [StoredEntry.p_toRecord, value?_merged hf hc, hcarried,
        value?_observationStream.mpr ⟨hagree.1, hagree.2⟩]
      show some (dated f c) = _
      rw [dated_of_same hsame, htime]
    | @fresh p f hagree hunseen =>
      refine ⟨f, ?_, by rw [dated_now hagree]; rfl⟩
      rw [StoredEntry.p_toRecord, value?_merged hf hc,
        value?_observationStream.mpr ⟨hagree.1, hagree.2⟩]
      cases hcarried : value? (carryOver cache slot sides isScoped).1 p with
      | none => rfl
      | some c =>
        show some (dated f c) = _
        rw [dated_of_not_same]
        by_contra hsame
        obtain ⟨s, hs, _⟩ := seen_of_carried hcarries hcarried (Bool.eq_true_of_not_eq_false hsame)
        exact hunseen s hs
    | @kept s r hkept hother =>
      obtain ⟨md5s, hdigests, rfl⟩ := hkept.again
      have hcarried := (value?_carryOver hcarries).mpr
        ⟨s, hkept.mem, hkept.unexpired, hkept.inScope, md5s, hdigests, rfl, rfl⟩
      refine ⟨entryOf s md5s, ?_, rfl⟩
      rw [StoredEntry.p_toRecord, value?_merged hf hc, hcarried]
      cases hfresh : value? (observationStream cache sides comparison) s.p with
      | none => rfl
      | some f => exact absurd (value?_observationStream.mp hfresh) (hother f)
  · rintro ⟨e, he, hr⟩
    rw [value?_merged hf hc] at he
    cases hfresh : value? (observationStream cache sides comparison) r.p with
    | none =>
      rw [hfresh, SortedMerge.both_none_left] at he
      obtain ⟨s, hs, hexpired, hscope, md5s, hdigests, hpath, rfl⟩ :=
        (value?_carryOver hcarries).mp he
      refine .kept ⟨hs, hexpired, hscope, md5s, hdigests, by rw [hpath]; exact hr⟩ ?_
      intro f hagree
      rw [hpath] at hagree
      rw [value?_observationStream.mpr hagree] at hfresh
      cases hfresh
    | some f =>
      have hagree : Agreeing cache sides comparison r.p f := value?_observationStream.mp hfresh
      rw [hfresh] at he
      cases hcarried : value? (carryOver cache slot sides isScoped).1 r.p with
      | none =>
        rw [hcarried] at he
        obtain rfl : f = e := Option.some.inj he
        rw [hr, ← dated_now hagree]
        refine .fresh hagree fun s hseen => ?_
        obtain ⟨c, hc', _⟩ := hseen.carried hcarries hagree
        rw [hcarried] at hc'
        cases hc'
      | some c =>
        rw [hcarried] at he
        have he : dated f c = e := Option.some.inj he
        by_cases hsame : c.isSameEvidenceAs f = true
        · obtain ⟨s, hseen, htime⟩ := seen_of_carried hcarries hcarried hsame
          rw [hr, ← he, dated_of_same hsame, ← htime]
          exact .again hagree hseen
        · rw [hr, ← he, dated_of_not_same (Bool.eq_false_iff.mpr hsame), ← dated_now hagree]
          refine .fresh hagree fun s hseen => ?_
          obtain ⟨c', hc', hsame', _⟩ := hseen.carried hcarries hagree
          rw [hcarried] at hc'
          obtain rfl := Option.some.inj hc'
          exact hsame hsame'

theorem holds_store (hcarries : CarriesAll cache slot sides isScoped) :
    ∃ records, store cache slot sides comparison isScoped = cache.fileOf records ∧
      Holds (Expected cache slot sides comparison isScoped) records := by
  have hf := sorted_observationStream cache sides comparison
  have hc := sorted_carryOver cache slot sides isScoped
  obtain ⟨m, _, houtcome, hstore⟩ := store_eq cache slot sides comparison isScoped
  have hgood : (carryOver cache slot sides isScoped).2 = false := by
    rw [carryOver_of_carriesAll hcarries]
  rw [hgood] at houtcome
  have hm : m = .written (((merged (observationStream cache sides comparison)
      (carryOver cache slot sides isScoped).1).take entryLimit).map fun x => x.2.toRecord x.1) := by
    rcases houtcome with ⟨hbad, _⟩ | ⟨_, hm⟩
    · cases hbad
    · simpa using hm
  have hmerged : Sorted (merged (observationStream cache sides comparison)
      (carryOver cache slot sides isScoped).1) := SortedMerge.sorted_merge dated hf hc
  have hvalue : ∀ {r : Record}, Expected cache slot sides comparison isScoped r ↔
      ∃ e, (r.p, e) ∈ merged (observationStream cache sides comparison)
        (carryOver cache slot sides isScoped).1 ∧ r = e.toRecord r.p := by
    intro r
    rw [expected_iff hcarries]
    simp only [hmerged.mem_iff]
  subst hm
  generalize merged (observationStream cache sides comparison)
    (carryOver cache slot sides isScoped).1 = merge at hstore hmerged hvalue
  refine ⟨_, hstore, ?_, ?_, ?_, ?_⟩
  · rw [List.pairwise_map]
    exact hmerged.sublist (List.take_sublist _ _)
  · simp only [List.length_map, List.length_take]
    omega
  · intro r hr
    obtain ⟨x, hx, rfl⟩ := List.mem_map.mp hr
    exact hvalue.mpr ⟨x.2, List.mem_of_mem_take hx, rfl⟩
  · intro r hr
    obtain ⟨e, he, heq⟩ := hvalue.mp hr
    rw [← List.take_append_drop entryLimit merge] at he
    rcases List.mem_append.mp he with hin | hout
    · exact .inl (List.mem_map.mpr ⟨(r.p, e), hin, heq.symm⟩)
    · refine .inr ⟨?_, ?_⟩
      · have hlonger := List.length_pos_of_mem hout
        rw [List.length_drop] at hlonger
        rw [List.length_map, List.length_take]
        omega
      · intro s hs
        obtain ⟨x, hx, rfl⟩ := List.mem_map.mp hs
        have hsplit := hmerged
        rw [← List.take_append_drop entryLimit merge] at hsplit
        exact (List.pairwise_append.mp hsplit).2.2 x hx (r.p, e) hout

end Store

/-! ## What a later pass makes of the file -/

/-- A later pass is about the same query. -/
structure SameQuery (cache later : Cache) : Prop where
  options : later.options = { cache.options with
    refresh := later.options.refresh
    maxAgeSeconds := later.options.maxAgeSeconds
    canary := later.options.canary }
  clock : cache.now ≤ later.now

/-- The digest a record has of one side. -/
def Record.md5 (r : Record) : Side → Option (BitVec 128)
  | .source => parseMd5 r.lmd5
  | .remote => parseMd5 r.rmd5

theorem md5_of_digests {r : Record} {a b : BitVec 128} (h : r.digests = some (a, b)) :
    r.md5 .source = some a ∧ r.md5 .remote = some b := by
  unfold Record.digests at h
  split at h
  · rename_i hlocal hremote
    cases h
    exact ⟨hlocal, hremote⟩
  · cases h

theorem Expected.digests {cache : Cache} {slot : Slot} {sides : Sides} {comparison : Comparison}
    {isScoped : Bool} {r : Record} (h : Expected cache slot sides comparison isScoped r) :
    r.digests.isSome = true := by
  cases h with
  | again => rw [StoredEntry.digests_toRecord]; rfl
  | fresh => rw [StoredEntry.digests_toRecord]; rfl
  | kept hkept =>
    obtain ⟨md5s, _, rfl⟩ := hkept.again
    rw [StoredEntry.digests_toRecord]
    rfl

/-- The records of a file written in order are all read. -/
theorem legible_written {records : List Record} (h : records.Pairwise fun a b => a.p < b.p) :
    ∀ previous, (∀ last, previous = some last → ∀ r ∈ records, last < r.p) →
      legible previous (records.map .record ++ [.sentinel]) = (records, .sentinel) := by
  induction records with
  | nil => intro previous _; rfl
  | cons r records ih =>
    intro previous hafter
    obtain ⟨hfirst, hrest⟩ := List.pairwise_cons.mp h
    have hin : outOfOrder previous r.p = false := by
      cases previous with
      | none => rfl
      | some last =>
        have hlt := hafter last rfl r (.head _)
        simp [outOfOrder, hlt]
    have hnext := ih hrest (some r.p) (by rintro last ⟨⟩ s hs; exact hfirst s hs)
    rw [List.map_cons, List.cons_append, legible_record hin, hnext]

section Served

variable {cache later : Cache} {header : Header} {slot : Slot} {sides : Sides}
  {comparison : Comparison} {lines : List Line} {records : List Record}

variable (records) in
theorem SameQuery.lines? (h : SameQuery cache later) : (cache.fileOf records).lines? later =
    some (cache.header records.length, records.map .record ++ [.sentinel]) := by
  have hmatch : headerMismatch later (cache.header records.length) = none := by
    have hclock := h.clock
    unfold headerMismatch Cache.header
    rw [h.options]
    simp only [ne_eq, not_true_eq_false, ↓reduceIte, gt_iff_lt, ite_eq_right_iff]
    intro hlt
    omega
  simp [Cache.fileOf, Slot.lines?, hmatch]

theorem not_readerGivesUp (hsorted : records.Pairwise fun a b => a.p < b.p)
    (hdigests : ∀ r ∈ records, r.digests.isSome = true) :
    ¬ReaderGivesUp later header (records.map .record ++ [.sentinel]) := by
  have hlegible := legible_written hsorted none (by rintro last ⟨⟩)
  rintro (hending | ⟨r, hr, hrefuses⟩)
  · exact hending (by rw [hlegible])
  · rw [hlegible] at hr
    have hsome := hdigests r hr
    simp [readerRefuses, Option.isNone_iff_eq_none, Option.isSome_iff_ne_none.mp hsome] at hrefuses

/-- A record that describes the entries under its path leaves its digests in both. -/
theorem digest_supply {r : Record} {a b : BitVec 128} (hdescribes : r.describes sides = true)
    (hdigests : r.digests = some (a, b)) (side : Side) :
    ((sides.supplySource r.p a).supplyRemote r.p b).digest side r.p = r.md5 side := by
  obtain ⟨hlocal, hremote⟩ := Bool.and_eq_true_iff.mp hdescribes
  obtain ⟨l, hl, _⟩ := (Option.any_eq_true ..).mp hlocal
  obtain ⟨m, hm, _⟩ := (Option.any_eq_true ..).mp hremote
  cases side with
  | source =>
    rw [(md5_of_digests hdigests).1]
    simp [Sides.digest, Sides.supplySource, Sides.supplyRemote, hl]
  | remote =>
    rw [(md5_of_digests hdigests).2]
    simp [Sides.digest, Sides.supplySource, Sides.supplyRemote, hm]

/-- Where no sample is held back, every usable record is served. -/
theorem readLines_fills (hstride : (cache.audit header).stride = 0) (lines : List Line)
    {st st' : Reading} (h : readLines cache header comparison lines st = .ok st') :
    ∀ r ∈ (legible st.previous lines).1, usable cache header comparison st.sides r = true →
      ∀ side, st'.sides.digest side r.p = r.md5 side := by
  induction lines generalizing st with
  | nil => cases h
  | cons line lines ih =>
    cases line with
    | unreadable => cases h
    | sentinel =>
      intro r hr
      cases hr
    | unparseable => cases h
    | record s =>
      rw [readLines] at h
      obtain ⟨next, hnext, hlater⟩ := Loop.bind_eq_ok.mp h
      have hout : outOfOrder st.previous s.p = false := by
        by_contra hout
        rw [readRecord, if_pos (Bool.eq_true_of_not_eq_false hout)] at hnext
        cases hnext
      have hprevious := readRecord_previous hnext
      rw [legible_record hout]
      have hrest := ih hlater
      rw [hprevious] at hrest
      intro r hr husable side
      have husableNext : usable cache header comparison next.sides r = true := by
        rcases readRecord_usable hnext with ⟨_, rfl⟩ | ⟨_, a, b, _, rfl⟩
        · exact husable
        · rw [usable, supply_describes]
          exact husable
      rcases List.mem_cons.mp hr with rfl | hr
      · rcases readRecord_usable hnext with ⟨hunused, _⟩ | ⟨_, a, b, hdigests, hsupplied⟩
        · rw [husable] at hunused
          cases hunused
        · obtain ⟨_, hdescribes⟩ := Bool.and_eq_true_iff.mp husable
          have hsides : next.sides = (st.sides.supplySource r.p a).supplyRemote r.p b := by
            rw [hsupplied, Reading.supply, hstride]
            rfl
          have hkept : st'.sides.digest side r.p = next.sides.digest side r.p := by
            have hsupplies := readLines_supplied lines hlater
            rw [hprevious] at hsupplies
            rcases hsupplies r.p with ⟨hsource, hremote⟩ | ⟨s, hs, hpath, _⟩
            · cases side with
              | source => rw [Sides.digest, hsource]; rfl
              | remote => rw [Sides.digest, hremote]; rfl
            · have hlt := (legible_sorted lines (some r.p)).2 r.p rfl s hs
              rw [hpath] at hlt
              exact absurd hlt (lt_irrefl _)
          rw [hkept, hsides]
          exact digest_supply hdescribes hdigests side
      · exact hrest r hr husableNext side

/-- A pass without an audit has, of each side, the digests of the records it can use. -/
theorem digest_serve_iff (hreads : Reads cache comparison)
    (hlines : slot.lines? cache = some (header, lines)) (htrusted : ¬ReaderGivesUp cache header lines)
    (hstride : (cache.audit header).stride = 0) (hbare : sides.Bare) (side : Side) (p : RelText)
    (d : BitVec 128) : (serve cache slot sides comparison).2.1.digest side p = some d ↔
      ∃ r ∈ (legible none lines).1, usable cache header comparison sides r = true ∧ r.p = p ∧
        r.md5 side = some d := by
  have hok := (readInto_isOk sides hlines hreads).mpr htrusted
  have hinto : readInto cache slot sides comparison = _ := readInto_of_lines hlines hreads
  cases hread : readingOf cache header lines sides comparison with
  | error error =>
    rw [hinto, hread] at hok
    cases hok
  | ok st =>
    rw [hread] at hinto
    have hserve : (serve cache slot sides comparison).2.1 = st.sides := by
      rw [serve, hinto]
      rfl
    have hfills := readLines_fills hstride lines hread
    rw [hserve]
    constructor
    · intro hdigest
      rcases readLines_supplied lines hread p with ⟨hsource, hremote⟩ | ⟨r, hr, rfl, md5s, hby⟩
      · have hsame : st.sides.digest side p = sides.digest side p := by
          cases side with
          | source => rw [Sides.digest, hsource]; rfl
          | remote => rw [Sides.digest, hremote]; rfl
        rw [hsame, hbare side p] at hdigest
        cases hdigest
      · have husable : usable cache header comparison sides r = true := by
          simp [usable, hby.judged, hby.digests, hby.compared, hby.describes]
        exact ⟨r, hr, husable, rfl, (hfills r hr husable side).symm.trans hdigest⟩
    · rintro ⟨r, hr, husable, rfl, hmd5⟩
      rw [hfills r hr husable side, hmd5]

end Served

/-- What a pass stores of a file it can carry has the records there should be, in order; and a later
pass trusts it, and is served the records of it that it can use. -/
theorem stored_served (cache : Cache) (slot : Slot) (sides : Sides) (comparison : Comparison)
    (isScoped : Bool) (hcarries : CarriesAll cache slot sides isScoped) :
    ∃ records, store cache slot sides comparison isScoped = cache.fileOf records ∧
      (cache.fileOf records).header?.map (·.entries) = some records.length ∧
      Holds (Expected cache slot sides comparison isScoped) records ∧
      ∀ later sides' comparison', SameQuery cache later →
        (readInto later (cache.fileOf records) sides' comparison').isOk = true ∧
        (later.options.refresh = false → later.auditDue (cache.header records.length) = false →
          sides'.Bare → ∀ side p d,
            ((serve later (cache.fileOf records) sides' comparison').2.1.digest side p = some d ↔
              ∃ r ∈ records, usable later (cache.header records.length) comparison' sides' r = true ∧
                r.p = p ∧ r.md5 side = some d)) := by
  obtain ⟨records, hstore, hholds⟩ := holds_store hcarries
  refine ⟨records, hstore, rfl, hholds, fun later sides' comparison' hsame => ?_⟩
  have hlines := hsame.lines? records
  have htrusted : ¬ReaderGivesUp later (cache.header records.length)
      (records.map .record ++ [.sentinel]) :=
    not_readerGivesUp hholds.sorted fun r hr => (hholds.sound r hr).digests
  have hlegible := legible_written hholds.sorted none (by rintro last ⟨⟩)
  refine ⟨?_, fun hrefresh hdue hbare side p d => ?_⟩
  · by_cases hreads : Reads later comparison'
    · exact (readInto_isOk sides' hlines hreads).mpr htrusted
    · rw [readInto_of_not_reads hreads]
      rfl
  · by_cases hreads : Reads later comparison'
    · have hstride := audit_of_not_due (Bool.eq_false_iff.mp hdue)
      rw [digest_serve_iff hreads hlines htrusted hstride hbare side p d, hlegible]
    · have hempty : comparison'.paths = [] := by
        simpa [Reads, hrefresh] using hreads
      rw [serve, readInto_of_not_reads hreads]
      constructor
      · intro hdigest
        have hnone : sides'.digest side p = some d := hdigest
        rw [hbare side p] at hnone
        cases hnone
      · rintro ⟨r, _, husable, _⟩
        simp [usable, Comparison.contains, hempty] at husable

/-! A file of two records: the first has expired, or the second, too young to be served, has lost its
digests. -/

namespace TwoRecords

open TruncatedFile (options cache kept)
open SteppedOver (only)

def expired : Record := { kept with t := -1000000 }

def young : Record := { kept with p := "b".toList, m := 999999000, lmd5 := [] }

def slot (records : List Record) : Slot :=
  .file ⟨some { cache.header records.length with generatedAt := 999999 },
    records.map .record ++ [.sentinel]⟩

/-- One pair, under the path of the first record and with its evidence, and one under a third path. -/
def sides : Sides where
  source p := if p = "a".toList ∨ p = "c".toList then some ⟨.file, 1, 0, ⟨1, 2⟩, some 7⟩ else none
  remote p := if p = "a".toList ∨ p = "c".toList then some ⟨.file, 1, 0, some 7⟩ else none

theorem trusted {records : List Record} {p : RelText}
    (h : (readInto cache (slot records) sides (only p)).isOk = true) :
    ∀ header lines, (slot records).lines? cache = some (header, lines) →
      ¬ReaderGivesUp cache header lines := by
  intro header lines hlines
  have hreads : Reads cache (only p) := by
    unfold Reads
    rfl
  exact (readInto_isOk sides hlines hreads).mp h

/-- Evidence in a record that has expired is dated anew, and a record the reader passes over makes the
merge drop the others. -/
theorem not_stored : (¬∀ (cache : Cache) (slot : Slot) (sides : Sides) (comparison : Comparison)
      (isScoped : Bool),
        (∀ header lines, slot.lines? cache = some (header, lines) →
          ¬ReaderGivesUp cache header lines) →
        ∀ p f s md5s, Agreeing cache sides comparison p f → s ∈ slot.previous cache → s.p = p →
          s.digests = some md5s → (entryOf s md5s).isSameEvidenceAs f = true →
          ∀ r ∈ (store cache slot sides comparison isScoped).records, r.p = p → r.t = s.t) ∧
    ¬∀ (cache : Cache) (slot : Slot) (sides : Sides) (comparison : Comparison) (isScoped : Bool),
      (∀ header lines, slot.lines? cache = some (header, lines) →
        ¬ReaderGivesUp cache header lines) →
      ∀ s ∈ slot.previous cache, s.isExpired cache.now cache.expiry = false →
        (isScoped = true ∨ (sides.source s.p).isSome = true) → s.p ∉ comparison.paths →
        (store cache slot sides comparison isScoped).records.length < entryLimit →
        ∃ r ∈ (store cache slot sides comparison isScoped).records, r.p = s.p := by
  constructor
  · intro h
    have hdated : (⟨1, 0, ⟨1, 2⟩, 7, 0, 7, 1000000⟩ : StoredEntry).toRecord "a".toList ∈
        (store cache (slot [expired]) sides (only "a".toList) false).records := by
      decide +kernel
    have htime := h cache (slot [expired]) sides (only "a".toList) false
      (trusted (p := "a".toList) (by decide +kernel)) "a".toList ⟨1, 0, ⟨1, 2⟩, 7, 0, 7, 1000000⟩
      expired (7, 7) ⟨by decide +kernel, by decide +kernel⟩ (by decide +kernel) rfl
      (by decide +kernel) (by decide +kernel) _ hdated rfl
    revert htime
    decide +kernel
  · intro h
    have hwritten : (store cache (slot [kept, young]) sides (only "c".toList) true).records =
        [(⟨1, 0, ⟨1, 2⟩, 7, 0, 7, 1000000⟩ : StoredEntry).toRecord "c".toList] := by
      decide +kernel
    obtain ⟨r, hr, hpath⟩ := h cache (slot [kept, young]) sides (only "c".toList) true
      (trusted (p := "c".toList) (by decide +kernel)) kept (by decide +kernel) (by decide +kernel)
      (.inl rfl) (by decide) (by rw [hwritten]; decide)
    rw [hwritten] at hr
    rw [List.mem_singleton.mp hr] at hpath
    revert hpath
    decide

def audited : Cache := { cache with canaryAt := cache.now }

theorem bare_cleared : sides.cleared.Bare := by
  intro side p
  cases side with
  | source =>
    show ((sides.source p).map _).bind _ = none
    cases sides.source p <;> rfl
  | remote =>
    show ((sides.remote p).map _).bind _ = none
    cases sides.remote p <;> rfl

theorem stored_served_kept : ∃ records,
    store audited (slot [kept]) sides (only "c".toList) true = audited.fileOf records ∧
      Holds (Expected audited (slot [kept]) sides (only "c".toList) true) records ∧
      (serve audited (audited.fileOf records) sides.cleared (only "a".toList)).2.1.digest
        .source "a".toList = some 7 := by
  have hcarries : CarriesAll audited (slot [kept]) sides true := by
    rintro header lines hlines
    cases hlines
    exact ⟨by decide +kernel, by decide +kernel⟩
  obtain ⟨records, hstore, _, hholds, hlater⟩ :=
    stored_served audited (slot [kept]) sides (only "c".toList) true hcarries
  obtain ⟨_, hserved⟩ := hlater audited sides.cleared (only "a".toList) ⟨rfl, le_refl _⟩
  have hrecords : kept ∈ records := by
    rw [← records_fileOf audited records, ← hstore]
    decide +kernel
  have husable : usable audited (audited.header 0) (only "a".toList) sides.cleared kept =
      true := by decide +kernel
  refine ⟨records, hstore, hholds, (hserved rfl rfl bare_cleared .source "a".toList 7).mpr ?_⟩
  exact ⟨kept, hrecords, husable, rfl, by decide +kernel⟩

end TwoRecords

end StatusCache
end DriveSync
