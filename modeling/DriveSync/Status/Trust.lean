import DriveSync.Status.Records

/-!
# DriveSync.Status.Trust

Whether the reader of a cache file and its writer trust the same files. They do, but for three kinds
of damage: a file that ends without its sentinel, which only the reader gives up, and a malformed
digest in a record that only one of the two judges.
-/

namespace DriveSync
namespace StatusCache

open SortedMerge (value? Sorted before value?_merge mem_take sorted_merge both)

/-- The records of a file, wherever they stand. -/
def Slot.records : Slot → List Record
  | .file stored => stored.lines.filterMap fun line =>
    match line with
    | .record r => some r
    | _ => none
  | _ => []

@[simp] theorem records_fileOf (cache : Cache) (records : List Record) :
    (cache.fileOf records).records = records := by
  simp [Cache.fileOf, Slot.records, List.filterMap_map]

/-- The file is read: the pass is not told to ignore it, and has something to compare. -/
def Reads (cache : Cache) (comparison : Comparison) : Prop :=
  (cache.options.refresh || comparison.paths.isEmpty) = false

section Pass

variable (cache : Cache) (slot : Slot) (sides : Sides) (comparison : Comparison) (live : Live)
  (isScoped : Bool)

/-- What `serve` leaves of the cache's handle. -/
def servedCache : Cache := (serve cache slot sides comparison).2.2

/-- The inventories a pass hands to `store`: what was served, and the rest computed live. -/
def observedSides : Sides :=
  computeLive live (serve cache slot sides comparison).2.1 comparison

/-- The pairs the pass saw agree. -/
def freshOf : Evidence :=
  observationStream cache (observedSides cache slot sides comparison live) comparison

/-- The file the pass leaves. -/
def leaves : Slot :=
  store (servedCache cache slot sides comparison) slot
    (observedSides cache slot sides comparison live) comparison isScoped

/-- `serve` puts a digest under a path that had none. -/
def Supplies (p : RelText) : Prop :=
  let served := (serve cache slot sides comparison).2.1
  ((sides.source p).bind (·.contentMd5) = none ∧ ((served.source p).bind (·.contentMd5)).isSome) ∨
  ((sides.remote p).bind (·.contentMd5) = none ∧ ((served.remote p).bind (·.contentMd5)).isSome)

/-- Of a file the reader rejects nothing is carried forward; one it accepts the writer does not
reject; and what is served of a record keeps the time the record was observed. -/
structure TrustsAlike : Prop where
  rejected : (readInto cache slot sides comparison).isOk = false →
    ∀ w ∈ (leaves cache slot sides comparison live isScoped).records,
      ∃ x ∈ freshOf cache slot sides comparison live, w = x.2.toRecord x.1
  accepted : Reads cache comparison → (readInto cache slot sides comparison).isOk = true →
    writeMerged (servedCache cache slot sides comparison) slot
      (observedSides cache slot sides comparison live) comparison isScoped true
      ≠ some .carriedRejected
  dated : ∀ p, Supplies cache slot sides comparison p → ∃ r ∈ slot.records, r.p = p ∧
    ∀ w ∈ (leaves cache slot sides comparison live isScoped).records, w.p = p → w.t = r.t

end Pass

/-! ## When they do -/

/-- A record of the stored file is in the file written: fewer paths than the limit come before it,
and no pair of this pass stands in its place, or one of the same evidence dated otherwise. -/
def Keeps (fresh carried : Evidence) : Prop :=
  ∃ c ∈ carried, before (merged fresh carried) c.1 < entryLimit ∧
    ∀ f, value? fresh c.1 = some f → c.2.isSameEvidenceAs f = true ∧ c.2.observedAt ≠ f.observedAt

section Condition

variable (cache : Cache) (header : Header) (sides : Sides) (isScoped : Bool) (lines : List Line)

/-- A scan of the lines by the writer's rules. -/
def writerOf : CarriedRecords :=
  ⟨none, cache.now, cache.expiry, isScoped, sides.source, none, none⟩

/-- The file lacks its sentinel, or a record not expired nor racy has a malformed digest. -/
def ReaderGivesUp : Prop :=
  (legible none lines).2 ≠ .sentinel ∨
    ∃ r ∈ (legible none lines).1, readerRefuses cache header r = true

/-- A line is no record in order, or a record not expired and in scope has a malformed digest; and
the writer comes to it. -/
def WriterGivesUp (fresh : Evidence) : Prop :=
  ((legible none lines).2 = .mangled ∨
    ∃ r ∈ (legible none lines).1, (writerOf cache sides isScoped).refuses r = true) ∧
  ¬CutShort fresh ((writerOf cache sides isScoped).upcomingFrom lines).1 0

end Condition

/-- The damage the reader gives a file up for, the writer gives it up for too, or it carries nothing
of the file anyway; and the writer gives no other file up. -/
def Agrees (cache : Cache) (slot : Slot) (sides : Sides) (comparison : Comparison) (live : Live)
    (isScoped : Bool) : Prop :=
  Reads cache comparison → ∀ header lines, slot.lines? cache = some (header, lines) →
    let fresh := freshOf cache slot sides comparison live
    (ReaderGivesUp cache header lines → WriterGivesUp cache sides isScoped lines fresh ∨
      ¬Keeps fresh ((writerOf cache sides isScoped).upcomingFrom lines).1) ∧
    (¬ReaderGivesUp cache header lines → ¬WriterGivesUp cache sides isScoped lines fresh)

/-! ## What each does with a file -/

section Files

variable {cache : Cache} {slot : Slot} {sides : Sides} {comparison : Comparison} {live : Live}
  {isScoped : Bool} {header : Header} {lines : List Line}

theorem readInto_of_not_reads (h : ¬Reads cache comparison) :
    readInto cache slot sides comparison = .ok (⟨0, [], none⟩, sides, cache) := by
  unfold readInto
  rw [if_pos (Bool.eq_true_of_not_eq_false h)]

variable (sides comparison) in
theorem readInto_of_none (h : slot.lines? cache = none) :
    readInto cache slot sides comparison = .ok (⟨0, [], none⟩, sides, cache) ∨
      readInto cache slot sides comparison = .error .header := by
  unfold readInto
  split
  · exact .inl rfl
  · cases slot with
    | absent => exact .inl rfl
    | unusable => exact .inl rfl
    | file stored =>
      simp only [Slot.lines?] at h
      cases hheader : stored.header with
      | none => exact .inr (by simp [hheader])
      | some header =>
        rw [hheader, Option.bind_some] at h
        split at h
        · rename_i hmismatch
          exact .inl (by simp [hheader, hmismatch])
        · cases h

/-- The reading of a file about this query, from its first line. -/
def readingOf (cache : Cache) (header : Header) (lines : List Line) (sides : Sides)
    (comparison : Comparison) : Except Corrupt Reading :=
  readLines cache header comparison lines ⟨⟨0, [], none⟩, sides, none, 0⟩

theorem readInto_of_lines (h : slot.lines? cache = some (header, lines))
    (hreads : Reads cache comparison) : readInto cache slot sides comparison =
      (readingOf cache header lines sides comparison).map fun st => (st.served, st.sides,
        { cache with canaryAt := if cache.auditDue header then cache.now else header.canaryAt }) := by
  unfold readInto readingOf
  rw [if_neg (by simp [show (cache.options.refresh || comparison.paths.isEmpty) = false from hreads])]
  cases slot with
  | absent => cases h
  | unusable => cases h
  | file stored =>
    simp only [Slot.lines?] at h
    cases hheader : stored.header with
    | none => simp [hheader] at h
    | some found =>
      rw [hheader, Option.bind_some] at h
      split at h
      · cases h
      · rename_i hmatch
        cases h
        simp only [hheader, hmatch]
        cases readLines cache header comparison stored.lines ⟨⟨0, [], none⟩, sides, none, 0⟩ <;> rfl

theorem isOk_map {α β : Type} (f : α → β) (x : Except Corrupt α) : (x.map f).isOk = x.isOk := by
  cases x <;> rfl

variable (sides) in
theorem readInto_isOk (h : slot.lines? cache = some (header, lines))
    (hreads : Reads cache comparison) :
    (readInto cache slot sides comparison).isOk = true ↔ ¬ReaderGivesUp cache header lines := by
  rw [readInto_of_lines h hreads, isOk_map]
  unfold readingOf
  rw [readLines_isOk]
  unfold ReaderGivesUp
  simp

variable (cache slot sides comparison) in
/-- What serving leaves: the handle but for the time of its audit, and the inventories as they were,
without a digest, or as the records read say. -/
theorem serve_cases : (∃ n, servedCache cache slot sides comparison = { cache with canaryAt := n }) ∧
    ((serve cache slot sides comparison).2.1 = sides ∨
      (serve cache slot sides comparison).2.1 = sides.cleared ∨
      ∃ header lines, slot.lines? cache = some (header, lines) ∧ Reads cache comparison ∧
        ¬ReaderGivesUp cache header lines ∧ Supplied cache header comparison
          (legible none lines).1 sides (serve cache slot sides comparison).2.1) := by
  unfold servedCache serve
  cases h : readInto cache slot sides comparison with
  | error e => exact ⟨⟨cache.canaryAt, rfl⟩, .inr (.inl rfl)⟩
  | ok result =>
    by_cases hreads : Reads cache comparison
    · cases hlines : slot.lines? cache with
      | none =>
        rcases readInto_of_none sides comparison hlines with heq | heq
        · rw [heq] at h
          cases h
          exact ⟨⟨cache.canaryAt, rfl⟩, .inl rfl⟩
        · rw [heq] at h
          cases h
      | some found =>
        obtain ⟨header, lines⟩ := found
        have hok := readInto_isOk sides hlines hreads
        rw [h] at hok
        rw [readInto_of_lines hlines hreads] at h
        cases hst : readingOf cache header lines sides comparison with
        | error e =>
          rw [hst] at h
          cases h
        | ok st =>
          rw [hst] at h
          cases h
          exact ⟨⟨_, rfl⟩, .inr (.inr ⟨header, lines, rfl, hreads, hok.mp rfl,
            readLines_supplied lines hst⟩)⟩
    · rw [readInto_of_not_reads hreads] at h
      cases h
      exact ⟨⟨cache.canaryAt, rfl⟩, .inl rfl⟩

theorem computeLive_source (p : RelText) : ((computeLive live sides comparison).source p).isSome =
    (sides.source p).isSome := Option.isSome_map

variable (cache slot sides comparison live) in
theorem observedSides_source (p : RelText) :
    ((observedSides cache slot sides comparison live).source p).isSome = (sides.source p).isSome := by
  unfold observedSides
  rw [computeLive_source]
  rcases (serve_cases cache slot sides comparison).2 with h | h | ⟨_, _, _, _, _, h⟩
  · rw [h]
  · rw [h]
    exact Option.isSome_map
  · rcases h p with ⟨h, _⟩ | ⟨r, _, rfl, _, hby⟩
    · rw [h]
    · rw [hby.source]
      exact Option.isSome_map

theorem upcomingFrom_congr {sides' : Sides}
    (h : ∀ p, (sides'.source p).isSome = (sides.source p).isSome) :
    (writerOf cache sides' isScoped).upcomingFrom lines =
      (writerOf cache sides isScoped).upcomingFrom lines := by
  have hjudges : (writerOf cache sides' isScoped).judges = (writerOf cache sides isScoped).judges := by
    funext r
    simp only [CarriedRecords.judges, CarriedRecords.isInScope, writerOf, h]
  have hrefuses : (writerOf cache sides' isScoped).refuses =
      (writerOf cache sides isScoped).refuses := by
    funext r
    simp only [CarriedRecords.refuses, hjudges]
  have htaken : (writerOf cache sides' isScoped).taken = (writerOf cache sides isScoped).taken := by
    funext r
    simp only [CarriedRecords.taken, hjudges]
  unfold CarriedRecords.upcomingFrom CarriedRecords.upcomingOf
  rw [hrefuses, htaken]
  rfl

/-- What there is to carry of a file is a matter of its lines. -/
theorem carryOver_of_lines (hlines : slot.lines? cache = some (header, lines)) :
    carryOver cache slot (observedSides cache slot sides comparison live) isScoped =
      (writerOf cache sides isScoped).upcomingFrom lines := by
  unfold carryOver
  rw [opened_eq, hlines,
    ← upcomingFrom_congr (observedSides_source cache slot sides comparison live)]
  rfl

theorem carryOver_of_none (hlines : slot.lines? cache = none) (sides' : Sides) :
    carryOver cache slot sides' isScoped = ([], false) := by
  unfold carryOver
  rw [opened_eq, hlines]
  rfl

variable (cache slot sides comparison live isScoped) in
/-- The file a pass leaves. -/
theorem leaves_records : ∃ m,
    writeMerged (servedCache cache slot sides comparison) slot
      (observedSides cache slot sides comparison live) comparison isScoped true = some m ∧
    Outcome (freshOf cache slot sides comparison live)
      (carryOver cache slot (observedSides cache slot sides comparison live) isScoped).1
      (carryOver cache slot (observedSides cache slot sides comparison live) isScoped).2 [] m ∧
    (leaves cache slot sides comparison live isScoped).records = match m with
      | .written records => records
      | .carriedRejected => ((freshOf cache slot sides comparison live).take entryLimit).map
        fun x => x.2.toRecord x.1 := by
  obtain ⟨⟨n, hn⟩, _⟩ := serve_cases cache slot sides comparison
  unfold leaves
  rw [hn]
  obtain ⟨m, hm, ho, hstore⟩ := store_eq { cache with canaryAt := n } slot
    (observedSides cache slot sides comparison live) comparison isScoped
  refine ⟨m, hm, ho, ?_⟩
  rw [hstore, records_fileOf]
  rfl

end Files

/-! ## Agreement -/

section Evidence

variable {fresh carried : Evidence} {x : RelText × StoredEntry}

theorem value?_merged (hf : Sorted fresh) (hc : Sorted carried) (p : RelText) :
    value? (merged fresh carried) p = both dated (value? fresh p) (value? carried p) :=
  value?_merge dated hf hc p

theorem mem_take_merged (hf : Sorted fresh) (hc : Sorted carried) :
    x ∈ (merged fresh carried).take entryLimit ↔
      both dated (value? fresh x.1) (value? carried x.1) = some x.2 ∧
        before (merged fresh carried) x.1 < entryLimit := by
  have hs : Sorted (merged fresh carried) := sorted_merge dated hf hc
  rw [mem_take hs, ← value?_merged hf hc, ← hs.mem_iff]

theorem dated_of_same {f c : StoredEntry} (h : c.isSameEvidenceAs f = true) :
    dated f c = { f with observedAt := c.observedAt } := by
  rw [dated, if_pos h]

theorem dated_of_not_same {f c : StoredEntry} (h : c.isSameEvidenceAs f = false) :
    dated f c = f := by
  rw [dated, if_neg (by simp [h])]

/-- A file written has nothing of the stored one if and only if nothing of it is kept. -/
theorem written_fresh_iff (hf : Sorted fresh) (hc : Sorted carried) :
    (∀ x ∈ (merged fresh carried).take entryLimit, ∃ y ∈ fresh,
      x.2.toRecord x.1 = y.2.toRecord y.1) ↔ ¬Keeps fresh carried := by
  constructor
  · rintro h ⟨⟨p, c⟩, hmem, hlimit, hkept⟩
    have hcarried := hc.value?_of_mem hmem
    cases hfresh : value? fresh p with
    | none =>
      obtain ⟨⟨q, f⟩, hy, heq⟩ := h (p, c) ((mem_take_merged hf hc).mpr
        ⟨by rw [hfresh, hcarried]; rfl, hlimit⟩)
      obtain rfl : p = q := congrArg Record.p heq
      rw [hf.value?_of_mem hy] at hfresh
      cases hfresh
    | some f =>
      obtain ⟨hsame, hne⟩ := hkept f hfresh
      obtain ⟨⟨q, f'⟩, hy, heq⟩ := h (p, dated f c) ((mem_take_merged hf hc).mpr
        ⟨by rw [hfresh, hcarried]; rfl, hlimit⟩)
      obtain rfl : p = q := congrArg Record.p heq
      rw [hf.value?_of_mem hy] at hfresh
      cases hfresh
      rw [dated_of_same hsame] at heq
      exact hne (congrArg Record.t heq)
  · intro h x hx
    obtain ⟨hx, hlimit⟩ := (mem_take_merged hf hc).mp hx
    cases hfresh : value? fresh x.1 with
    | none =>
      rw [hfresh, SortedMerge.both_none_left] at hx
      refine absurd ⟨x, SortedMerge.mem_of_value? hx, hlimit, fun f h => ?_⟩ h
      rw [hfresh] at h
      cases h
    | some f =>
      refine ⟨(x.1, f), SortedMerge.mem_of_value? hfresh, ?_⟩
      suffices heq : x.2 = f by rw [heq]
      rw [hfresh] at hx
      cases hcarried : value? carried x.1 with
      | none =>
        rw [hcarried] at hx
        exact (Option.some.inj hx).symm
      | some c =>
        rw [hcarried] at hx
        have hx : dated f c = x.2 := Option.some.inj hx
        by_cases hsame : c.isSameEvidenceAs f = true
        · by_cases htime : c.observedAt = f.observedAt
          · rw [← hx, dated_of_same hsame, htime]
          · refine absurd ⟨(x.1, c), SortedMerge.mem_of_value? hcarried, hlimit, fun f' h => ?_⟩ h
            rw [hfresh] at h
            cases h
            exact ⟨hsame, htime⟩
        · rw [← hx, dated_of_not_same (Bool.eq_false_iff.mpr hsame)]

theorem before_mono {l : Evidence} {p q : RelText} (h : p ≤ q) : before l p ≤ before l q :=
  List.countP_mono_left fun y _ hy => by
    simp only [decide_eq_true_eq] at hy ⊢
    exact hy.trans_le h

end Evidence

section Dated

variable {cache : Cache} {slot : Slot} {sides : Sides} {comparison : Comparison} {live : Live}
  {isScoped : Bool} {header : Header} {lines : List Line} {r : Record}
  {md5s : BitVec 128 × BitVec 128}

/-- What a record says, as the writer carries it. -/
def entryOf (r : Record) (md5s : BitVec 128 × BitVec 128) : StoredEntry :=
  ⟨r.s, r.m, decodeIdentity r.n, md5s.1, r.rm, md5s.2, r.t⟩

/-- A pair whose digests were both served is the evidence of the record they were served from. -/
theorem isSameEvidenceAs_of_suppliedBy {f : StoredEntry}
    (h : SuppliedBy cache header comparison sides (serve cache slot sides comparison).2.1 r md5s)
    (hf : observed cache (observedSides cache slot sides comparison live) r.p = some f) :
    (entryOf r md5s).isSameEvidenceAs f = true := by
  obtain ⟨hlocal, hremote⟩ := Bool.and_eq_true_iff.mp h.describes
  obtain ⟨l, hl, hlocal⟩ := (Option.any_eq_true ..).mp hlocal
  obtain ⟨m, hm, hremote⟩ := (Option.any_eq_true ..).mp hremote
  have hsource : (observedSides cache slot sides comparison live).source r.p =
      some { l with contentMd5 := some md5s.1 } := by
    simp [observedSides, computeLive, h.source, hl]
  have hremoteOf : (observedSides cache slot sides comparison live).remote r.p =
      some { m with contentMd5 := some md5s.2 } := by
    simp [observedSides, computeLive, h.remote, hm]
  simp only [Record.describesLocal, Record.describesRemote, Bool.and_eq_true,
    decide_eq_true_eq] at hlocal hremote
  obtain ⟨⟨⟨hkind, hsize⟩, hmtime⟩, hidentity⟩ := hlocal
  obtain ⟨⟨hkind', hsize'⟩, hmtime'⟩ := hremote
  unfold observed at hf
  rw [hsource, hremoteOf] at hf
  simp only [hkind, hkind', and_self, if_true] at hf
  split at hf
  · cases hf
    simp [StoredEntry.isSameEvidenceAs, entryOf, hsize, hmtime, hmtime', ← hidentity,
      decodeIdentity_encodeIdentity]
  · cases hf

theorem mem_of_mem_legible {s : Record} (lines : List Line) : ∀ previous,
    s ∈ (legible previous lines).1 → .record s ∈ lines := by
  induction lines with
  | nil => intro previous h; cases h
  | cons line lines ih =>
    intro previous h
    cases line with
    | unreadable => cases h
    | sentinel => cases h
    | unparseable => cases h
    | record r =>
      by_cases hout : outOfOrder previous r.p = true
      · simp [legible, hout] at h
      · rw [legible_record (Bool.eq_false_iff.mpr hout)] at h
        rcases List.mem_cons.mp h with rfl | h
        · exact .head _
        · exact .tail _ (ih _ h)

theorem mem_records (hlines : slot.lines? cache = some (header, lines)) {s : Record}
    (h : s ∈ (legible none lines).1) : s ∈ slot.records := by
  cases slot with
  | absent => cases hlines
  | unusable => cases hlines
  | file stored =>
    simp only [Slot.lines?] at hlines
    cases hheader : stored.header with
    | none => simp [hheader] at hlines
    | some found =>
      rw [hheader, Option.bind_some] at hlines
      split at hlines
      · cases hlines
      · cases hlines
        exact List.mem_filterMap.mpr ⟨.record s, mem_of_mem_legible _ _ h, rfl⟩

/-- What is carried comes before the record the writer gives the file up for. -/
theorem lt_of_mem_upcoming {c : CarriedRecords} {records : List Record} {ending : Ending}
    (hsorted : records.Pairwise fun a b => a.p < b.p) (hr : r ∈ records)
    (hafter : r ∉ records.takeWhile fun s => !c.refuses s) {x : RelText × StoredEntry}
    (hx : x ∈ (c.upcomingOf records ending).1) : x.1 < r.p := by
  obtain ⟨s, hs, htaken⟩ := List.mem_filterMap.mp hx
  rw [fst_of_taken htaken]
  rw [← List.takeWhile_append_dropWhile (p := fun s => !c.refuses s) (l := records)] at hsorted hr
  have hr := (List.mem_append.mp hr).resolve_left hafter
  exact (List.pairwise_append.mp hsorted).2.2 s hs r hr

theorem value?_freshOf {p : RelText} {f : StoredEntry}
    (h : value? (freshOf cache slot sides comparison live) p = some f) :
    observed cache (observedSides cache slot sides comparison live) p = some f := by
  obtain ⟨q, _, heq⟩ := List.mem_filterMap.mp (SortedMerge.mem_of_value? h)
  obtain ⟨g, hg, heq⟩ := Option.map_eq_some_iff.mp heq
  cases heq
  exact hg

/-- A record served that is carried: it is one the writer judges, with the digests served. -/
theorem taken_of_suppliedBy
    (h : SuppliedBy cache header comparison sides (serve cache slot sides comparison).2.1 r md5s) :
    (writerOf cache sides isScoped).taken r = some (r.p, entryOf r md5s) := by
  obtain ⟨hexpired, _⟩ := Bool.and_eq_true_iff.mp h.judged
  obtain ⟨hlocal, _⟩ := Bool.and_eq_true_iff.mp h.describes
  obtain ⟨l, hl, _⟩ := (Option.any_eq_true ..).mp hlocal
  have hjudges : (writerOf cache sides isScoped).judges r = true :=
    Bool.and_eq_true_iff.mpr ⟨hexpired, by simp [CarriedRecords.isInScope, writerOf, hl]⟩
  unfold CarriedRecords.taken
  rw [if_pos hjudges, h.digests]
  rfl

/-- A pair under the path of a record served is written with that record's time. -/
theorem observedAt_of_suppliedBy (hr : r ∈ (legible none lines).1)
    (h : SuppliedBy cache header comparison sides (serve cache slot sides comparison).2.1 r md5s)
    (hwriter : ¬WriterGivesUp cache sides isScoped lines (freshOf cache slot sides comparison live))
    {x : RelText × StoredEntry} (hp : x.1 = r.p)
    (hx : x ∈ (merged (freshOf cache slot sides comparison live)
      ((writerOf cache sides isScoped).upcomingFrom lines).1).take entryLimit) :
    x.2.observedAt = r.t := by
  have hfresh : Sorted (freshOf cache slot sides comparison live) := sorted_observationStream ..
  have hcarried := sorted_upcomingFrom (writerOf cache sides isScoped) lines
  obtain ⟨hvalue, hlimit⟩ := (mem_take_merged hfresh hcarried).mp hx
  rw [hp] at hvalue hlimit
  by_cases hpre : r ∈ (legible none lines).1.takeWhile
      fun s => !(writerOf cache sides isScoped).refuses s
  · have hmem : (r.p, entryOf r md5s) ∈ ((writerOf cache sides isScoped).upcomingFrom lines).1 :=
      List.mem_filterMap.mpr ⟨r, hpre, taken_of_suppliedBy h⟩
    rw [hcarried.value?_of_mem hmem] at hvalue
    cases hf : value? (freshOf cache slot sides comparison live) r.p with
    | none =>
      rw [hf] at hvalue
      have hvalue : entryOf r md5s = x.2 := Option.some.inj hvalue
      rw [← hvalue]
      rfl
    | some f =>
      rw [hf] at hvalue
      have hvalue : dated f (entryOf r md5s) = x.2 := Option.some.inj hvalue
      rw [← hvalue, dated_of_same (isSameEvidenceAs_of_suppliedBy h (value?_freshOf hf))]
      rfl
  · -- a record past the one the file is given up for: the limit was reached before it
    have hrefused : ∃ s ∈ (legible none lines).1,
        (writerOf cache sides isScoped).refuses s = true := by
      by_contra hnone
      refine hpre ?_
      rwa [List.takeWhile_eq_self_iff.mpr fun s hs => by
        simpa using fun hs' => hnone ⟨s, hs, hs'⟩]
    obtain ⟨f, _, c, hc, hle, hcut⟩ := not_not.mp (not_and.mp hwriter (.inr hrefused))
    have hlt := lt_of_mem_upcoming (legible_sorted lines none).1 hr hpre hc
    have hmono := before_mono (l := merged (freshOf cache slot sides comparison live)
      ((writerOf cache sides isScoped).upcomingFrom lines).1) (hle.trans hlt.le)
    omega

theorem upcomingFrom_snd (c : CarriedRecords) (lines : List Line) :
    (c.upcomingFrom lines).2 = true ↔ (legible c.previous lines).2 = .mangled ∨
      ∃ r ∈ (legible c.previous lines).1, c.refuses r = true := by
  simp [CarriedRecords.upcomingFrom, CarriedRecords.upcomingOf]

/-- What the writer comes to, in terms of the lines. -/
theorem outcome_of_lines {m : Merge} (hlines : slot.lines? cache = some (header, lines))
    (h : Outcome (freshOf cache slot sides comparison live)
      (carryOver cache slot (observedSides cache slot sides comparison live) isScoped).1
      (carryOver cache slot (observedSides cache slot sides comparison live) isScoped).2 [] m) :
    (WriterGivesUp cache sides isScoped lines (freshOf cache slot sides comparison live) ∧
      m = .carriedRejected) ∨
    (¬WriterGivesUp cache sides isScoped lines (freshOf cache slot sides comparison live) ∧
      m = .written (((merged (freshOf cache slot sides comparison live)
        ((writerOf cache sides isScoped).upcomingFrom lines).1).take entryLimit).map
          fun x => x.2.toRecord x.1)) := by
  rw [carryOver_of_lines hlines] at h
  have hbad := upcomingFrom_snd (writerOf cache sides isScoped) lines
  rcases h with ⟨htrue, hcut, hm⟩ | ⟨hnot, hm⟩
  · exact .inl ⟨⟨hbad.mp htrue, hcut⟩, hm⟩
  · refine .inr ⟨fun ⟨hgives, hcut⟩ => ?_, by simpa using hm⟩
    rcases hnot with hfalse | hcut'
    · rw [hbad.mpr hgives] at hfalse
      cases hfalse
    · exact hcut hcut'

theorem not_supplies {p : RelText} (h : (serve cache slot sides comparison).2.1 = sides ∨
    (serve cache slot sides comparison).2.1 = sides.cleared) :
    ¬Supplies cache slot sides comparison p := by
  intro hsupplies
  rcases h with h | h
  · unfold Supplies at hsupplies
    rw [h] at hsupplies
    rcases hsupplies with ⟨hnone, hsome⟩ | ⟨hnone, hsome⟩ <;> rw [hnone] at hsome <;> cases hsome
  · unfold Supplies at hsupplies
    rw [h] at hsupplies
    rcases hsupplies with ⟨_, hsome⟩ | ⟨_, hsome⟩
    · cases hp : sides.source p <;> simp [Sides.cleared, hp] at hsome
    · cases hp : sides.remote p <;> simp [Sides.cleared, hp] at hsome

/-- What is served is served from a record. -/
theorem exists_suppliedBy {p : RelText} (h : Supplies cache slot sides comparison p) :
    ∃ header lines, slot.lines? cache = some (header, lines) ∧ Reads cache comparison ∧
      ¬ReaderGivesUp cache header lines ∧ ∃ r ∈ (legible none lines).1, r.p = p ∧ ∃ md5s,
        SuppliedBy cache header comparison sides (serve cache slot sides comparison).2.1 r md5s := by
  rcases (serve_cases cache slot sides comparison).2 with hsame | hcleared |
    ⟨header, lines, hlines, hreads, hok, hsupplied⟩
  · exact absurd h (not_supplies (.inl hsame))
  · exact absurd h (not_supplies (.inr hcleared))
  · refine ⟨header, lines, hlines, hreads, hok, (hsupplied p).resolve_left fun ⟨hs, hr⟩ => ?_⟩
    unfold Supplies at h
    simp only [hs, hr] at h
    rcases h with ⟨hnone, hsome⟩ | ⟨hnone, hsome⟩ <;> rw [hnone] at hsome <;> cases hsome

end Dated

section Claim

variable {cache : Cache} {slot : Slot} {sides : Sides} {comparison : Comparison} {live : Live}
  {isScoped : Bool}

theorem TrustsAlike.agrees (h : TrustsAlike cache slot sides comparison live isScoped) :
    Agrees cache slot sides comparison live isScoped := by
  intro hreads header lines hlines
  obtain ⟨m, hm, ho, hrecords⟩ := leaves_records cache slot sides comparison live isScoped
  have hok := readInto_isOk sides hlines hreads
  have hfresh : Sorted (freshOf cache slot sides comparison live) := sorted_observationStream ..
  rcases outcome_of_lines hlines ho with ⟨hgives, rfl⟩ | ⟨hnot, rfl⟩
  · refine ⟨fun _ => .inl hgives, fun hread => ?_⟩
    exact absurd hm (h.accepted hreads (hok.mpr hread))
  · refine ⟨fun hread => .inr ?_, fun _ => hnot⟩
    have hrejected : (readInto cache slot sides comparison).isOk = false :=
      Bool.eq_false_iff.mpr fun hisOk => hok.mp hisOk hread
    refine (written_fresh_iff hfresh (sorted_upcomingFrom _ lines)).mp fun x hx => ?_
    refine h.rejected hrejected _ ?_
    rw [hrecords]
    exact List.mem_map_of_mem hx

theorem fresh_of_take {fresh : Evidence} {w : Record}
    (h : w ∈ (fresh.take entryLimit).map fun x => x.2.toRecord x.1) :
    ∃ x ∈ fresh, w = x.2.toRecord x.1 := by
  obtain ⟨x, hx, rfl⟩ := List.mem_map.mp h
  exact ⟨x, List.mem_of_mem_take hx, rfl⟩

theorem Agrees.rejected (h : Agrees cache slot sides comparison live isScoped)
    (hrejected : (readInto cache slot sides comparison).isOk = false) :
    ∀ w ∈ (leaves cache slot sides comparison live isScoped).records,
      ∃ x ∈ freshOf cache slot sides comparison live, w = x.2.toRecord x.1 := by
  intro w hw
  obtain ⟨m, hm, ho, hrecords⟩ := leaves_records cache slot sides comparison live isScoped
  have hfresh : Sorted (freshOf cache slot sides comparison live) := sorted_observationStream ..
  rw [hrecords] at hw
  have hreads : Reads cache comparison := by
    by_contra hnot
    rw [readInto_of_not_reads hnot] at hrejected
    cases hrejected
  cases hlines : slot.lines? cache with
  | none =>
    rw [carryOver_of_none hlines] at ho
    rcases ho with ⟨hbad, _⟩ | ⟨_, rfl⟩
    · cases hbad
    · exact fresh_of_take (by simpa using hw)
  | some found =>
    obtain ⟨header, lines⟩ := found
    have hok := readInto_isOk sides hlines hreads
    have hread : ReaderGivesUp cache header lines := by
      by_contra hnot
      rw [hok.mpr hnot] at hrejected
      cases hrejected
    rcases outcome_of_lines hlines ho with ⟨_, rfl⟩ | ⟨hnot, rfl⟩
    · exact fresh_of_take hw
    · have hkeeps := ((h hreads header lines hlines).1 hread).resolve_left hnot
      obtain ⟨x, hx, rfl⟩ := List.mem_map.mp hw
      exact (written_fresh_iff hfresh (sorted_upcomingFrom _ lines)).mpr hkeeps x hx

theorem Agrees.accepted (h : Agrees cache slot sides comparison live isScoped)
    (hreads : Reads cache comparison)
    (haccepted : (readInto cache slot sides comparison).isOk = true) :
    writeMerged (servedCache cache slot sides comparison) slot
      (observedSides cache slot sides comparison live) comparison isScoped true
      ≠ some .carriedRejected := by
  obtain ⟨m, hm, ho, _⟩ := leaves_records cache slot sides comparison live isScoped
  rw [hm]
  cases hlines : slot.lines? cache with
  | none =>
    rw [carryOver_of_none hlines] at ho
    rcases ho with ⟨hbad, _⟩ | ⟨_, rfl⟩
    · cases hbad
    · simp
  | some found =>
    obtain ⟨header, lines⟩ := found
    have hread := (readInto_isOk sides hlines hreads).mp haccepted
    rcases outcome_of_lines hlines ho with ⟨hgives, _⟩ | ⟨_, rfl⟩
    · exact absurd hgives ((h hreads header lines hlines).2 hread)
    · simp

theorem Agrees.dated (h : Agrees cache slot sides comparison live isScoped) (p : RelText)
    (hp : Supplies cache slot sides comparison p) : ∃ r ∈ slot.records, r.p = p ∧
      ∀ w ∈ (leaves cache slot sides comparison live isScoped).records, w.p = p → w.t = r.t := by
  obtain ⟨header, lines, hlines, hreads, hread, r, hr, rfl, md5s, hby⟩ := exists_suppliedBy hp
  refine ⟨r, mem_records hlines hr, rfl, fun w hw hwp => ?_⟩
  obtain ⟨m, hm, ho, hrecords⟩ := leaves_records cache slot sides comparison live isScoped
  have hwriter := (h hreads header lines hlines).2 hread
  rcases outcome_of_lines hlines ho with ⟨hgives, _⟩ | ⟨_, rfl⟩
  · exact absurd hgives hwriter
  · rw [hrecords] at hw
    obtain ⟨x, hx, rfl⟩ := List.mem_map.mp hw
    exact observedAt_of_suppliedBy hr hby hwriter hwp hx

end Claim

/-- The reader and the writer trust the same files when the damage that tells them apart is not
there, and only then. -/
theorem trustsAlike_iff (cache : Cache) (slot : Slot) (sides : Sides) (comparison : Comparison)
    (live : Live) (isScoped : Bool) : TrustsAlike cache slot sides comparison live isScoped ↔
      Agrees cache slot sides comparison live isScoped :=
  ⟨TrustsAlike.agrees, fun h => ⟨h.rejected, h.accepted, h.dated⟩⟩

/-! A file of one record that ends without its sentinel, and a pass over the whole tree. -/

namespace TruncatedFile

def options : CacheOptions where
  binary := "1.0.0".toList
  platform := "linux".toList
  profile := "home".toList
  source := "/src".toList
  remote := "/home".toList
  compare := "content".toList
  refresh := false
  maxAgeSeconds := 14 * 24 * 60 * 60
  canary := 25

def cache : Cache := ⟨options, 1000000, 0⟩

def kept : Record where
  p := "a".toList
  s := 1
  m := 0
  n := "1:2".toList
  lmd5 := hex16 7
  rm := 0
  rmd5 := hex16 7
  t := 999990

def slot : Slot := .file ⟨some { cache.header 1 with generatedAt := 999999 }, [.record kept]⟩

def sides : Sides where
  source p := if p = "a".toList then some ⟨.file, 1, 0, ⟨1, 2⟩, none⟩ else none
  remote _ := none

def comparison : Comparison := ⟨["b".toList], List.pairwise_singleton ..⟩

def live : Live := ⟨fun _ => none, fun _ => none⟩

/-- The reader rejects the file, and the writer carries its record forward. -/
theorem not_trustsAlike : ¬∀ (cache : Cache) (slot : Slot) (sides : Sides)
    (comparison : Comparison) (live : Live) (isScoped : Bool),
      TrustsAlike cache slot sides comparison live isScoped := by
  intro h
  have hrejected : (readInto cache slot sides comparison).isOk = false := by decide +kernel
  have hkept : kept ∈ (leaves cache slot sides comparison live false).records := by decide +kernel
  have hfresh : freshOf cache slot sides comparison live = [] := by decide +kernel
  obtain ⟨x, hx, _⟩ := (h cache slot sides comparison live false).rejected hrejected kept hkept
  rw [hfresh] at hx
  cases hx

end TruncatedFile

end StatusCache
end DriveSync
