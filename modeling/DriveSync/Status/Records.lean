import DriveSync.Lib.SortedMerge
import DriveSync.Status.Cache

/-!
# DriveSync.Status.Records

What the two readers of a cache file make of its lines. Both stop at the first line that is not a
record in order, so each is a fold over the same records (`legible`) and over how they end.

* `readLines_isOk`: when the file is served from; `readLines_supplied`: what is served then.
* `fill_spec`: the stream the writer carries forward.
* `writeMerged_eq`: the file written is a merge of two sorted lists, cut at the limit.
-/

namespace DriveSync
namespace StatusCache

/-- What comes after the last record in order. -/
inductive Ending where
  | sentinel
  | eof
  | mangled
deriving DecidableEq, Repr

/-- The records in order, and what ends them. -/
def legible : Option RelText → List Line → List Record × Ending
  | _, [] => ([], .eof)
  | _, .unreadable :: _ => ([], .mangled)
  | _, .sentinel :: _ => ([], .sentinel)
  | _, .unparseable :: _ => ([], .mangled)
  | previous, .record r :: lines =>
    if outOfOrder previous r.p then ([], .mangled)
    else
      let (records, ending) := legible (some r.p) lines
      (r :: records, ending)

theorem legible_record {previous : Option RelText} {r : Record} {lines : List Line}
    (h : outOfOrder previous r.p = false) : legible previous (.record r :: lines) =
      (r :: (legible (some r.p) lines).1, (legible (some r.p) lines).2) := by
  simp [legible, h]

theorem lt_of_not_outOfOrder {p q : RelText} (h : outOfOrder (some p) q = false) : p < q := by
  simpa [outOfOrder] using h

/-- The records come in ascending order, after what came before them. -/
theorem legible_sorted (lines : List Line) : ∀ previous,
    (legible previous lines).1.Pairwise (fun a b => a.p < b.p) ∧
      ∀ last, previous = some last → ∀ r ∈ (legible previous lines).1, last < r.p := by
  induction lines with
  | nil => intro previous; simp [legible]
  | cons line lines ih =>
    intro previous
    cases line with
    | unreadable => simp [legible]
    | sentinel => simp [legible]
    | unparseable => simp [legible]
    | record r =>
      by_cases h : outOfOrder previous r.p = true
      · simp [legible, h]
      · have h := Bool.eq_false_iff.mpr h
        obtain ⟨hsorted, hafter⟩ := ih (some r.p)
        rw [legible_record h]
        refine ⟨List.pairwise_cons.mpr ⟨fun b hb => hafter r.p rfl b hb, hsorted⟩, ?_⟩
        rintro last rfl s hs
        have hlt := lt_of_not_outOfOrder h
        rcases List.mem_cons.mp hs with rfl | hs
        · exact hlt
        · exact hlt.trans (hafter r.p rfl s hs)

/-! ## The reader -/

section Reader

variable (cache : Cache) (header : Header) (comparison : Comparison)

/-- The reader judges a record by its digests only past the checks it makes first. -/
def readerJudges (r : Record) : Bool :=
  !r.isExpired cache.now cache.expiry && !r.isRacy header.generatedAt

/-- A record for which the reader gives the file up. -/
def readerRefuses (r : Record) : Bool := readerJudges cache header r && r.digests.isNone

variable {cache header comparison}

variable (cache header comparison) in
theorem readRecord_cases (st : Reading) {r : Record} (h : outOfOrder st.previous r.p = false) :
    (readerRefuses cache header r = true ∧
      readRecord cache header comparison st r = .error (.malformedDigest r.p)) ∨
    (readerRefuses cache header r = false ∧
      (readRecord cache header comparison st r = .ok { st with previous := some r.p } ∨
        ∃ localMd5 remoteMd5, readerJudges cache header r = true ∧
          r.digests = some (localMd5, remoteMd5) ∧
          comparison.contains r.p = true ∧ r.describes st.sides = true ∧
          readRecord cache header comparison st r =
            .ok (({ st with previous := some r.p } : Reading).supply (cache.audit header)
              cache.options.canary r localMd5 remoteMd5))) := by
  unfold readRecord readerRefuses readerJudges
  rw [if_neg (by simp [h])]
  by_cases hexpired : r.isExpired cache.now cache.expiry = true
  · right
    simp [hexpired]
  · by_cases hracy : r.isRacy header.generatedAt = true
    · right
      simp [hexpired, hracy]
    · cases hdigests : r.digests with
      | none =>
        left
        simp [hexpired, hracy]
      | some md5s =>
        right
        by_cases hmatch : (comparison.contains r.p && r.describes st.sides) = true
        · obtain ⟨hin, hdescribes⟩ := Bool.and_eq_true_iff.mp hmatch
          exact ⟨by simp, .inr ⟨md5s.1, md5s.2, by simp [hexpired, hracy], rfl, hin, hdescribes,
            by simp [hexpired, hracy, hin, hdescribes]⟩⟩
        · exact ⟨by simp, .inl (by simp only [hexpired, hracy, if_neg hmatch]; simp)⟩

@[simp] theorem supply_previous (st : Reading) (audit : Audit) (canary : Nat) (r : Record)
    (a b : BitVec 128) : (st.supply audit canary r a b).previous = st.previous := by
  unfold Reading.supply
  split <;> rfl

theorem readRecord_previous {st st' : Reading} {r : Record}
    (h : readRecord cache header comparison st r = .ok st') : st'.previous = some r.p := by
  by_cases hout : outOfOrder st.previous r.p = true
  · simp [readRecord, hout] at h
  · rcases readRecord_cases cache header comparison st
      (Bool.eq_false_iff.mpr hout) with ⟨_, heq⟩ | ⟨_, heq | ⟨_, _, _, _, _, _, heq⟩⟩
    · rw [heq] at h
      cases h
    · rw [heq] at h
      cases h
      rfl
    · rw [heq] at h
      cases h
      exact supply_previous ..

/-- The file is served from when its records are in order to the sentinel, and none the reader
judges has a malformed digest. -/
theorem readLines_isOk (lines : List Line) (st : Reading) :
    (readLines cache header comparison lines st).isOk = true ↔
      (legible st.previous lines).2 = .sentinel ∧
        (legible st.previous lines).1.any (readerRefuses cache header) = false := by
  induction lines generalizing st with
  | nil => simp [readLines, legible, Except.isOk, Except.toBool]
  | cons line lines ih =>
    cases line with
    | unreadable => simp [readLines, legible, Except.isOk, Except.toBool]
    | sentinel => simp [readLines, legible, Except.isOk, Except.toBool]
    | unparseable => simp [readLines, legible, Except.isOk, Except.toBool]
    | record r =>
      by_cases hout : outOfOrder st.previous r.p = true
      · simp [readLines, readRecord, legible, hout, Except.isOk, Except.toBool, bind, Except.bind]
      · have hout := Bool.eq_false_iff.mpr hout
        rw [legible_record hout, List.any_cons, readLines]
        rcases readRecord_cases cache header comparison st
          hout with ⟨hrefuses, heq⟩ | ⟨hrefuses, hok⟩
        · simp [heq, hrefuses, Except.isOk, Except.toBool, bind, Except.bind]
        · obtain ⟨st', hst'⟩ : ∃ st', readRecord cache header comparison st r = .ok st' := by
            rcases hok with heq | ⟨_, _, _, _, _, _, heq⟩ <;> exact ⟨_, heq⟩
          rw [hst', hrefuses, Bool.false_or, ← readRecord_previous hst']
          exact ih st'

theorem describes_supply (sides : Sides) (r : Record) (p : RelText) (a b : BitVec 128) :
    r.describes ((sides.supplySource p a).supplyRemote p b) = r.describes sides := by
  unfold Record.describes
  congr 1
  · simp only [Sides.supplySource, Sides.supplyRemote]
    cases sides.source r.p with
    | none => rfl
    | some e => simp only [Option.map_some, Option.any_some]; split <;> rfl
  · simp only [Sides.supplySource, Sides.supplyRemote]
    cases sides.remote r.p with
    | none => rfl
    | some e => simp only [Option.map_some, Option.any_some]; split <;> rfl

/-- A record that says what is under its path, and is served. -/
structure SuppliedBy (cache : Cache) (header : Header) (comparison : Comparison)
    (sides sides' : Sides) (r : Record) (md5s : BitVec 128 × BitVec 128) : Prop where
  judged : readerJudges cache header r = true
  digests : r.digests = some md5s
  compared : comparison.contains r.p = true
  describes : r.describes sides = true
  source : sides'.source r.p =
    (sides.source r.p).map fun e => { e with contentMd5 := some md5s.1 }
  remote : sides'.remote r.p =
    (sides.remote r.p).map fun e => { e with contentMd5 := some md5s.2 }

theorem supply_sides (st : Reading) (audit : Audit) (canary : Nat) (r : Record)
    (a b : BitVec 128) : (st.supply audit canary r a b).sides = st.sides ∨
      (st.supply audit canary r a b).sides = (st.sides.supplySource r.p a).supplyRemote r.p b := by
  unfold Reading.supply
  split
  · exact .inl rfl
  · exact .inr rfl

/-- Under each path the inventories are as they were, or as one of the records read says. -/
def Supplied (cache : Cache) (header : Header) (comparison : Comparison) (records : List Record)
    (sides sides' : Sides) : Prop :=
  ∀ p, (sides'.source p = sides.source p ∧ sides'.remote p = sides.remote p) ∨
    ∃ r ∈ records, r.p = p ∧ ∃ md5s, SuppliedBy cache header comparison sides sides' r md5s

theorem Supplied.cons {records : List Record} {sides sides' : Sides} {r : Record}
    (h : Supplied cache header comparison records sides sides') :
    Supplied cache header comparison (r :: records) sides sides' :=
  fun p => (h p).imp_right fun ⟨s, hs, hrest⟩ => ⟨s, .tail _ hs, hrest⟩

theorem Supplied.push {records : List Record} {sides sides' : Sides} {r : Record}
    {a b : BitVec 128} (hjudged : readerJudges cache header r = true)
    (hdigests : r.digests = some (a, b)) (hin : comparison.contains r.p = true)
    (hdescribes : r.describes sides = true)
    (h : Supplied cache header comparison records
      ((sides.supplySource r.p a).supplyRemote r.p b) sides') :
    Supplied cache header comparison (r :: records) sides sides' := by
  intro p
  rcases h p with ⟨hsource, hremote⟩ | ⟨s, hs, rfl, md5s, hby⟩
  · by_cases hp : p = r.p
    · right
      subst hp
      refine ⟨r, .head _, rfl, (a, b), hjudged, hdigests, hin, hdescribes, ?_, ?_⟩
      · rw [hsource]; simp [Sides.supplySource, Sides.supplyRemote]
      · rw [hremote]; simp [Sides.supplySource, Sides.supplyRemote]
    · left
      rw [hsource, hremote]
      simp [Sides.supplySource, Sides.supplyRemote, hp]
  · refine .inr ⟨s, .tail _ hs, rfl, md5s, hby.judged, hby.digests, hby.compared,
      describes_supply sides s _ a b ▸ hby.describes, ?_, ?_⟩
    · rw [hby.source]
      simp only [Sides.supplySource, Sides.supplyRemote, Option.map_map]
      congr 1
      funext e
      simp only [Function.comp_apply]
      split <;> rfl
    · rw [hby.remote]
      simp only [Sides.supplySource, Sides.supplyRemote, Option.map_map]
      congr 1
      funext e
      simp only [Function.comp_apply]
      split <;> rfl

/-- What a file that is served from leaves in the inventories. -/
theorem readLines_supplied (lines : List Line) {st st' : Reading}
    (h : readLines cache header comparison lines st = .ok st') :
    Supplied cache header comparison (legible st.previous lines).1 st.sides st'.sides := by
  induction lines generalizing st with
  | nil => cases h
  | cons line lines ih =>
    cases line with
    | unreadable => cases h
    | sentinel =>
      cases h
      exact fun p => .inl ⟨rfl, rfl⟩
    | unparseable => cases h
    | record r =>
      rw [readLines] at h
      by_cases hout : outOfOrder st.previous r.p = true
      · simp [readRecord, hout, bind, Except.bind] at h
      · have hout := Bool.eq_false_iff.mpr hout
        rw [legible_record hout]
        rcases readRecord_cases cache header comparison st
          hout with ⟨_, heq⟩ | ⟨_, heq | ⟨a, b, hjudged, hdigests, hin, hdescribes, heq⟩⟩
        · rw [heq] at h
          cases h
        · rw [heq] at h
          exact (ih h).cons
        · rw [heq] at h
          have hrest := ih h
          rw [supply_previous] at hrest
          rcases supply_sides { st with previous := some r.p } (cache.audit header)
            cache.options.canary r a b with hsides | hsides
          · rw [hsides] at hrest
            exact hrest.cons
          · rw [hsides] at hrest
            exact hrest.push hjudged hdigests hin hdescribes

end Reader

/-! ## The writer -/

namespace CarriedRecords

/-- The writer judges a record by its digests only past the checks it makes first. -/
def judges (c : CarriedRecords) (r : Record) : Bool :=
  !r.isExpired c.now c.expiry && c.isInScope r

/-- A record for which the writer gives the file up. -/
def refuses (c : CarriedRecords) (r : Record) : Bool := c.judges r && r.digests.isNone

def taken (c : CarriedRecords) (r : Record) : Option (RelText × StoredEntry) :=
  if c.judges r then
    r.digests.map fun md5s => (r.p, ⟨r.s, r.m, decodeIdentity r.n, md5s.1, r.rm, md5s.2, r.t⟩)
  else none

/-- What is carried of the records that are left, and whether the file is given up after that. -/
def upcomingOf (c : CarriedRecords) (records : List Record) (ending : Ending) :
    List (RelText × StoredEntry) × Bool :=
  ((records.takeWhile fun r => !c.refuses r).filterMap c.taken,
    ending == .mangled || records.any c.refuses)

def upcomingFrom (c : CarriedRecords) (lines : List Line) : List (RelText × StoredEntry) × Bool :=
  c.upcomingOf (legible c.previous lines).1 (legible c.previous lines).2

def upcoming (c : CarriedRecords) : List (RelText × StoredEntry) × Bool :=
  match c.reader with
  | none => (c.peeked.toList, false)
  | some lines => (c.peeked.toList ++ (c.upcomingFrom lines).1, (c.upcomingFrom lines).2)

/-- What `fill` makes of a stream with so many turns left to it. -/
inductive Filled (upcoming : List (RelText × StoredEntry) × Bool) (left : Nat) :
    Option CarriedRecords → Prop where
  | rejected (h : upcoming = ([], true)) : Filled upcoming left none
  | ended (c : CarriedRecords) (hpeeked : c.peeked = none) (hup : c.upcoming = upcoming)
    (h : upcoming = ([], false)) (hleft : c.left ≤ left) : Filled upcoming left (some c)
  | peeked (c : CarriedRecords) (x : RelText × StoredEntry) (hpeeked : c.peeked = some x)
    (hup : c.upcoming = upcoming) (hleft : c.left ≤ left) : Filled upcoming left (some c)

theorem Filled.mono {upcoming : List (RelText × StoredEntry) × Bool} {left left' : Nat}
    {c : Option CarriedRecords} (h : Filled upcoming left c) (hle : left ≤ left') :
    Filled upcoming left' c := by
  cases h with
  | rejected h => exact .rejected h
  | ended c hpeeked hup h hleft => exact .ended c hpeeked hup h (hleft.trans hle)
  | peeked c x hpeeked hup hleft => exact .peeked c x hpeeked hup (hleft.trans hle)

theorem upcomingFrom_skipped {c : CarriedRecords} {r : Record} {lines : List Line}
    (hout : outOfOrder c.previous r.p = false) (hskip : c.judges r = false) :
    c.upcomingFrom (.record r :: lines) =
      ({ c with previous := some r.p } : CarriedRecords).upcomingFrom lines := by
  have hrefuses : c.refuses r = false := by simp [refuses, hskip]
  have htaken : c.taken r = none := by simp [taken, hskip]
  unfold upcomingFrom upcomingOf
  rw [legible_record hout, List.takeWhile_cons_of_pos (by simp [hrefuses]),
    List.filterMap_cons_none htaken, List.any_cons, hrefuses, Bool.false_or]
  rfl

theorem fillFrom_filled (lines : List Line) {c : CarriedRecords} (hpeeked : c.peeked = none) :
    Filled (c.upcomingFrom lines) lines.length (c.fillFrom lines) := by
  induction lines generalizing c with
  | nil =>
    refine .ended _ hpeeked ?_ rfl ?_
    · simp [upcoming, upcomingFrom, upcomingOf, legible, hpeeked]
    · simp [left, hpeeked]
  | cons line lines ih =>
    cases line with
    | unreadable => exact .rejected rfl
    | sentinel =>
      refine .ended _ hpeeked ?_ rfl ?_
      · simp [upcoming, upcomingFrom, upcomingOf, legible, hpeeked]
      · simp [left, hpeeked]
    | unparseable => exact .rejected rfl
    | record r =>
      by_cases hout : outOfOrder c.previous r.p = true
      · rw [fillFrom, if_pos hout]
        exact .rejected (by simp [upcomingFrom, upcomingOf, legible, hout])
      · have hout := Bool.eq_false_iff.mpr hout
        rw [fillFrom, if_neg (by simp [hout])]
        by_cases hskip : c.judges r = true
        · obtain ⟨hexpired, hscope⟩ := Bool.and_eq_true_iff.mp hskip
          have hexpired : r.isExpired c.now c.expiry = false := by simpa using hexpired
          have hscope' : ({ c with previous := some r.p } : CarriedRecords).isInScope r = true :=
            hscope
          simp only [hexpired, hscope', Bool.false_eq_true, if_false, Bool.not_true]
          cases hdigests : r.digests with
          | none =>
            have hrefuses : c.refuses r = true := by simp [refuses, hskip, hdigests]
            exact .rejected (by
              simp [upcomingFrom, upcomingOf, legible_record hout, hrefuses])
          | some md5s =>
            have hrefuses : c.refuses r = false := by simp [refuses, hdigests]
            have htaken : c.taken r = some (r.p,
                ⟨r.s, r.m, decodeIdentity r.n, md5s.1, r.rm, md5s.2, r.t⟩) := by
              simp [taken, hskip, hdigests]
            refine .peeked _ _ rfl ?_ ?_
            · unfold upcoming upcomingFrom upcomingOf
              rw [legible_record hout, List.takeWhile_cons_of_pos (by simp [hrefuses]),
                List.filterMap_cons_some htaken, List.any_cons, hrefuses, Bool.false_or]
              rfl
            · simp [left]
        · have hskip := Bool.eq_false_iff.mpr hskip
          rw [upcomingFrom_skipped hout hskip]
          have hle : lines.length ≤ (Line.record r :: lines).length := Nat.le_succ _
          have ih := (ih (c := { c with previous := some r.p }) hpeeked).mono hle
          rcases Bool.and_eq_false_iff.mp hskip with hexpired | hscope
          · have hexpired : r.isExpired c.now c.expiry = true := by simpa using hexpired
            simpa only [hexpired, if_true] using ih
          · have hscope' : ({ c with previous := some r.p } : CarriedRecords).isInScope r = false :=
              hscope
            simpa only [hscope', Bool.not_false, if_true, ite_self] using ih

theorem fill_filled (c : CarriedRecords) : Filled c.upcoming c.left c.fill := by
  unfold fill
  cases hpeeked : c.peeked with
  | some x =>
    rw [if_pos (by rfl)]
    exact .peeked c x hpeeked rfl (Nat.le_refl _)
  | none =>
    rw [if_neg (by simp)]
    cases hreader : c.reader with
    | none =>
      exact .ended c hpeeked rfl (by simp [upcoming, hreader, hpeeked]) (Nat.le_refl _)
    | some lines =>
      have h := fillFrom_filled lines hpeeked
      simpa [upcoming, left, hreader, hpeeked] using h

theorem upcoming_of_peeked {c : CarriedRecords} {x : RelText × StoredEntry}
    (h : c.peeked = some x) : c.upcoming =
      (x :: ({ c with peeked := none } : CarriedRecords).upcoming.1,
        ({ c with peeked := none } : CarriedRecords).upcoming.2) := by
  unfold upcoming
  cases c.reader with
  | none => simp [h]
  | some lines => rw [h]; rfl

theorem left_of_peeked {c : CarriedRecords} {x : RelText × StoredEntry} (h : c.peeked = some x) :
    c.left = ({ c with peeked := none } : CarriedRecords).left + 1 := by
  simp [left, h]

end CarriedRecords

/-! ## The merge -/

open SortedMerge (Sorted before before_cons sorted_merge)

abbrev Evidence := List (RelText × StoredEntry)

/-- A pair observed again, dated when the same evidence was first seen. -/
def dated (fresh previous : StoredEntry) : StoredEntry :=
  if previous.isSameEvidenceAs fresh then { fresh with observedAt := previous.observedAt }
  else fresh

def merged (fresh carried : Evidence) : Evidence := SortedMerge.merge dated fresh carried

/-- The limit is reached before a pair of this pass, with records still to carry after it. What
follows is not read. -/
def CutShort (fresh carried : Evidence) (written : Nat) : Prop :=
  ∃ f ∈ fresh, ∃ c ∈ carried, f.1 ≤ c.1 ∧ entryLimit ≤ written + before (merged fresh carried) f.1

/-- What is left of a merge, given what was written and whether the stored file is given up. -/
def Outcome (fresh carried : Evidence) (bad : Bool) (written : List Record) (m : Merge) : Prop :=
  (bad = true ∧ ¬CutShort fresh carried written.length ∧ m = .carriedRejected) ∨
  ((bad = false ∨ CutShort fresh carried written.length) ∧ m = .written (written ++
    ((merged fresh carried).take (entryLimit - written.length)).map fun x => x.2.toRecord x.1))

section Merged

variable {fresh carried : Evidence} {x y : RelText × StoredEntry} {n : Nat}

theorem not_cutShort_nil_left : ¬CutShort [] carried n := fun ⟨_, hf, _⟩ => by cases hf

theorem not_cutShort_nil_right : ¬CutShort fresh [] n := fun ⟨_, _, _, hc, _⟩ => by cases hc

@[simp] theorem merged_nil_left : merged [] carried = carried :=
  SortedMerge.merge_nil_left dated carried

@[simp] theorem merged_nil_right : merged fresh [] = fresh :=
  SortedMerge.merge_nil_right dated fresh

theorem merged_of_gt (h : y.1 < x.1) :
    merged (x :: fresh) (y :: carried) = y :: merged (x :: fresh) carried := by
  rw [merged, SortedMerge.merge, if_neg h.le.not_gt, if_pos h]
  rfl

theorem merged_of_lt (h : x.1 < y.1) :
    merged (x :: fresh) (y :: carried) = x :: merged fresh (y :: carried) := by
  rw [merged, SortedMerge.merge, if_pos h]
  rfl

theorem merged_of_eq (h : y.1 = x.1) :
    merged (x :: fresh) (y :: carried) = (x.1, dated x.2 y.2) :: merged fresh carried := by
  rw [merged, SortedMerge.merge, if_neg h.not_gt, if_neg h.not_lt]
  rfl

/-- A record carried on its own. -/
theorem cutShort_carried (hf : Sorted (x :: fresh)) (hlt : y.1 < x.1) :
    CutShort (x :: fresh) (y :: carried) n ↔ CutShort (x :: fresh) carried (n + 1) := by
  have hafter : ∀ f ∈ x :: fresh, y.1 < f.1 := by
    intro f hf'
    rcases List.mem_cons.mp hf' with rfl | hf'
    · exact hlt
    · exact hlt.trans ((List.pairwise_cons.mp hf).1 f hf')
  unfold CutShort
  rw [merged_of_gt hlt]
  constructor
  · rintro ⟨f, hf', c, hc, hle, hlimit⟩
    rw [before_cons (hafter f hf')] at hlimit
    rcases List.mem_cons.mp hc with rfl | hc
    · exact absurd hle (hafter f hf').not_ge
    · exact ⟨f, hf', c, hc, hle, by omega⟩
  · rintro ⟨f, hf', c, hc, hle, hlimit⟩
    refine ⟨f, hf', c, .tail _ hc, hle, ?_⟩
    rw [before_cons (hafter f hf')]
    omega

/-- Past the limit nothing counts any more. -/
theorem cutShort_full (hfull : entryLimit ≤ n) (hf : Sorted (x :: fresh)) (hlt : y.1 < x.1) :
    CutShort (x :: fresh) (y :: carried) n ↔ CutShort (x :: fresh) carried n := by
  rw [cutShort_carried hf hlt]
  unfold CutShort
  constructor
  · rintro ⟨f, hf, c, hc, hle, _⟩
    exact ⟨f, hf, c, hc, hle, by omega⟩
  · rintro ⟨f, hf, c, hc, hle, _⟩
    exact ⟨f, hf, c, hc, hle, by omega⟩

/-- A pair of this pass, with room for it, and then what comes after it. -/
theorem cutShort_next {carried' : Evidence} {z : RelText × StoredEntry} (hroom : n < entryLimit)
    (hf : Sorted (x :: fresh)) (hz : z.1 = x.1)
    (hmerged : merged (x :: fresh) carried = z :: merged fresh carried')
    (hsorted : Sorted (merged (x :: fresh) carried))
    (hcarried : ∀ c, x.1 < c.1 → (c ∈ carried ↔ c ∈ carried')) :
    CutShort (x :: fresh) carried n ↔ CutShort fresh carried' (n + 1) := by
  have hafter : ∀ f ∈ fresh, z.1 < f.1 := fun f hf' => hz ▸ (List.pairwise_cons.mp hf).1 f hf'
  unfold CutShort
  rw [hmerged] at hsorted ⊢
  constructor
  · rintro ⟨f, hf', c, hc, hle, hlimit⟩
    rcases List.mem_cons.mp hf' with rfl | hf'
    · rw [← hz, hsorted.before_head] at hlimit
      omega
    · rw [before_cons (hafter f hf')] at hlimit
      exact ⟨f, hf', c, (hcarried c (hz ▸ (hafter f hf').trans_le hle)).mp hc, hle, by omega⟩
  · rintro ⟨f, hf', c, hc, hle, hlimit⟩
    refine ⟨f, .tail _ hf', c, (hcarried c (hz ▸ (hafter f hf').trans_le hle)).mpr hc, hle, ?_⟩
    rw [before_cons (hafter f hf')]
    omega

end Merged

section Loop

variable {fresh carried : Evidence} {bad : Bool} {out : List Record} {x y : RelText × StoredEntry}
  {m : Merge}

theorem outcome_full (hfull : entryLimit ≤ out.length)
    (h : bad = false ∨ CutShort fresh carried out.length) :
    Outcome fresh carried bad out (.written out) := by
  refine .inr ⟨h, ?_⟩
  rw [Nat.sub_eq_zero_of_le hfull]
  simp

theorem take_written {z : RelText × StoredEntry} {rest : Evidence} {r : Record}
    (hroom : out.length < entryLimit) (hr : z.2.toRecord z.1 = r) :
    out ++ ((z :: rest).take (entryLimit - out.length)).map (fun x => x.2.toRecord x.1) =
      (out ++ [r]) ++ (rest.take (entryLimit - (out ++ [r]).length)).map
        fun x => x.2.toRecord x.1 := by
  obtain ⟨k, hk⟩ : ∃ k, entryLimit - out.length = k + 1 := ⟨entryLimit - out.length - 1, by omega⟩
  have hk' : entryLimit - (out ++ [r]).length = k := by
    rw [List.length_append, List.length_singleton]
    omega
  rw [hk, hk', List.take_succ_cons, List.map_cons, hr, List.append_assoc]
  rfl

/-- A record carried on its own, past the limit or before it. -/
theorem outcome_carried (hf : ∀ x fresh', fresh = x :: fresh' → Sorted fresh ∧ y.1 < x.1)
    (h : Outcome fresh carried bad
      (if entryLimit ≤ out.length then out else out ++ [y.2.toRecord y.1]) m) :
    Outcome fresh (y :: carried) bad out m := by
  have hmerged : merged fresh (y :: carried) = y :: merged fresh carried := by
    cases fresh with
    | nil => rw [merged_nil_left, merged_nil_left]
    | cons x fresh => exact merged_of_gt (hf x fresh rfl).2
  by_cases hfull : entryLimit ≤ out.length
  · rw [if_pos hfull] at h
    have hcut : CutShort fresh (y :: carried) out.length ↔ CutShort fresh carried out.length := by
      cases fresh with
      | nil => exact iff_of_false not_cutShort_nil_left not_cutShort_nil_left
      | cons x fresh => exact cutShort_full hfull (hf x fresh rfl).1 (hf x fresh rfl).2
    have htake : entryLimit - out.length = 0 := by omega
    unfold Outcome at h ⊢
    rw [hcut, htake]
    rw [htake] at h
    simpa using h
  · rw [if_neg hfull] at h
    have hcut : CutShort fresh (y :: carried) out.length ↔
        CutShort fresh carried (out ++ [y.2.toRecord y.1]).length := by
      rw [List.length_append, List.length_singleton]
      cases fresh with
      | nil => exact iff_of_false not_cutShort_nil_left not_cutShort_nil_left
      | cons x fresh => exact cutShort_carried (hf x fresh rfl).1 (hf x fresh rfl).2
    unfold Outcome at h ⊢
    rw [hcut, hmerged, take_written (by omega) rfl]
    exact h

/-- A pair of this pass, with room for it. -/
theorem outcome_fresh {carried' : Evidence} {z : RelText × StoredEntry}
    (hroom : out.length < entryLimit) (hf : Sorted (x :: fresh)) (hc : Sorted carried)
    (hz : z.1 = x.1) (hmerged : merged (x :: fresh) carried = z :: merged fresh carried')
    (hcarried : ∀ c, x.1 < c.1 → (c ∈ carried ↔ c ∈ carried'))
    (h : Outcome fresh carried' bad (out ++ [z.2.toRecord x.1]) m) :
    Outcome (x :: fresh) carried bad out m := by
  have hcut := cutShort_next hroom hf hz hmerged (sorted_merge dated hf hc) hcarried
  unfold Outcome at h ⊢
  rw [hcut, hmerged, take_written hroom (by rw [hz])]
  simpa using h

theorem writeCarried_eq (m : Merging) (p : RelText) (stored : StoredEntry) :
    m.writeCarried p stored = ⟨m.fresh, { m.carried with peeked := none },
      if entryLimit ≤ m.written.length then m.written
      else m.written ++ [stored.toRecord p]⟩ := by
  unfold Merging.writeCarried
  split <;> rfl

theorem writeFresh_beside {m : Merging} {p q : RelText} {previous : StoredEntry}
    (hpeeked : m.carried.peeked = some (q, previous)) (h : q ≠ p) (stored : StoredEntry)
    (rest : Evidence) : m.writeFresh p stored rest =
      if entryLimit ≤ m.written.length then .stop (.written m.written)
      else .go ⟨rest, m.carried, m.written ++ [stored.toRecord p]⟩ := by
  simp [Merging.writeFresh, hpeeked, h]

theorem writeFresh_over {m : Merging} {p : RelText} {previous : StoredEntry}
    (hpeeked : m.carried.peeked = some (p, previous)) (stored : StoredEntry)
    (rest : Evidence) : m.writeFresh p stored rest =
      if entryLimit ≤ m.written.length then .stop (.written m.written)
      else .go ⟨rest, { m.carried with peeked := none },
        m.written ++ [(dated stored previous).toRecord p]⟩ := by
  simp [Merging.writeFresh, hpeeked, dated]

open CarriedRecords in
/-- The loop comes to an end, and to this one. -/
theorem run_turn (fuel : Nat) {fresh carried : Evidence} {c : CarriedRecords} {out : List Record}
    (hup : c.upcoming = (carried, bad)) (hf : Sorted fresh) (hc : Sorted carried)
    (hfuel : fresh.length + c.left < fuel) :
    ∃ m, Fuel.run Merging.turn fuel ⟨fresh, c, out⟩ = some m ∧ Outcome fresh carried bad out m := by
  induction fuel generalizing fresh carried c out with
  | zero => omega
  | succ fuel ih =>
    have hfilled := fill_filled c
    rw [hup] at hfilled
    simp only [Fuel.run, Merging.turn]
    cases hfill : c.fill with
    | none =>
      rw [hfill] at hfilled
      cases hfilled with | rejected h =>
      cases h
      exact ⟨_, rfl, .inl ⟨rfl, not_cutShort_nil_right, rfl⟩⟩
    | some c' =>
      rw [hfill] at hfilled
      cases hfilled with
      | ended _ hpeeked hup' h hleft =>
        cases h
        cases fresh with
        | nil =>
          simp only [hpeeked]
          exact ⟨_, rfl, .inr ⟨.inl rfl, by simp⟩⟩
        | cons x fresh =>
          simp only [hpeeked, Merging.writeFresh]
          by_cases hfull : entryLimit ≤ out.length
          · rw [if_pos hfull]
            exact ⟨_, rfl, outcome_full hfull (.inl rfl)⟩
          · rw [if_neg hfull]
            rw [List.length_cons] at hfuel
            obtain ⟨m, hm, ho⟩ := ih hup' hf.tail hc (by omega)
            exact ⟨m, hm, outcome_fresh (by omega) hf hc rfl (by simp) (fun _ _ => Iff.rfl) ho⟩
      | peeked _ y hpeeked hup' hleft =>
        rw [upcoming_of_peeked hpeeked] at hup'
        obtain ⟨rfl, rfl⟩ := Prod.mk.inj hup'
        rw [left_of_peeked hpeeked] at hleft
        cases fresh with
        | nil =>
          simp only [hpeeked, writeCarried_eq]
          obtain ⟨m, hm, ho⟩ := ih (c := { c' with peeked := none }) rfl hf hc.tail (by omega)
          exact ⟨m, hm, outcome_carried (fun _ _ h => by cases h) ho⟩
        | cons x fresh =>
          simp only [hpeeked]
          rw [List.length_cons] at hfuel
          by_cases hgt : y.1 < x.1
          · rw [if_pos hgt, writeCarried_eq]
            obtain ⟨m, hm, ho⟩ := ih (c := { c' with peeked := none }) rfl hf hc.tail (by
              rw [List.length_cons]
              omega)
            refine ⟨m, hm, outcome_carried (fun _ _ h => ?_) ho⟩
            cases h
            exact ⟨hf, hgt⟩
          · rw [if_neg hgt]
            by_cases heq : y.1 = x.1
            · obtain ⟨q, previous⟩ := y
              cases heq
              rw [writeFresh_over hpeeked]
              by_cases hfull : entryLimit ≤ out.length
              · rw [if_pos hfull]
                exact ⟨_, rfl, outcome_full hfull (.inr ⟨x, .head _, _, .head _, le_refl x.1,
                  hfull.trans (Nat.le_add_right _ _)⟩)⟩
              · rw [if_neg hfull]
                obtain ⟨m, hm, ho⟩ := ih (c := { c' with peeked := none }) rfl hf.tail hc.tail
                  (by omega)
                refine ⟨m, hm, outcome_fresh (z := (x.1, dated x.2 previous)) (by omega) hf hc rfl
                  (merged_of_eq rfl) (fun c hlt => ⟨fun h => ?_, .tail _⟩) ho⟩
                rcases List.mem_cons.mp h with rfl | h
                · exact absurd hlt (lt_irrefl _)
                · exact h
            · have hlt : x.1 < y.1 := lt_of_le_of_ne (not_lt.mp hgt) (Ne.symm heq)
              rw [writeFresh_beside hpeeked heq]
              by_cases hfull : entryLimit ≤ out.length
              · rw [if_pos hfull]
                exact ⟨_, rfl, outcome_full hfull (.inr ⟨x, .head _, y, .head _, hlt.le,
                  hfull.trans (Nat.le_add_right _ _)⟩)⟩
              · rw [if_neg hfull]
                have hleft' : fresh.length + c'.left < fuel := by
                  rw [left_of_peeked hpeeked]
                  omega
                obtain ⟨m, hm, ho⟩ := ih (upcoming_of_peeked hpeeked) hf.tail hc hleft'
                exact ⟨m, hm, outcome_fresh (by omega) hf hc rfl (merged_of_lt hlt)
                  (fun _ _ => Iff.rfl) ho⟩

end Loop

/-! ## A file written -/

section Written

variable (cache : Cache) (slot : Slot) (sides : Sides) (comparison : Comparison) (isScoped : Bool)

theorem sorted_observationStream : Sorted (observationStream cache sides comparison) := by
  unfold Sorted observationStream
  rw [List.pairwise_filterMap]
  refine comparison.sorted.imp fun {p q} hlt x hx y hy => ?_
  simp only [Option.map_eq_some_iff] at hx hy
  obtain ⟨_, _, rfl⟩ := hx
  obtain ⟨_, _, rfl⟩ := hy
  exact hlt

theorem fst_of_taken {c : CarriedRecords} {r : Record} {x : RelText × StoredEntry}
    (h : c.taken r = some x) : x.1 = r.p := by
  unfold CarriedRecords.taken at h
  split at h
  · obtain ⟨_, _, rfl⟩ := Option.map_eq_some_iff.mp h
    rfl
  · cases h

theorem sorted_upcomingFrom (c : CarriedRecords) (lines : List Line) :
    Sorted (c.upcomingFrom lines).1 := by
  unfold Sorted CarriedRecords.upcomingFrom CarriedRecords.upcomingOf
  rw [List.pairwise_filterMap]
  refine ((legible_sorted lines c.previous).1.sublist (List.takeWhile_sublist _)).imp
    fun {r s} hlt x hx y hy => ?_
  rw [fst_of_taken hx, fst_of_taken hy]
  exact hlt

/-- What a pass would carry forward of the file it finds, and whether it gives the file up. -/
def carryOver : List (RelText × StoredEntry) × Bool :=
  (CarriedRecords.opened cache slot sides.source isScoped).upcoming

/-- The file is about this query, and has these lines. -/
def Slot.lines? : Option (Header × List Line) :=
  match slot with
  | .absent | .unusable => none
  | .file stored => stored.header.bind fun header =>
    if (headerMismatch cache header).isSome then none else some (header, stored.lines)

theorem opened_eq : CarriedRecords.opened cache slot sides.source isScoped =
    ⟨(slot.lines? cache).map (·.2), cache.now, cache.expiry, isScoped, sides.source, none, none⟩ := by
  unfold CarriedRecords.opened Slot.lines?
  cases slot with
  | absent => rfl
  | unusable => rfl
  | file stored =>
    cases hheader : stored.header with
    | none => simp [hheader]
    | some header =>
      simp only [hheader, Option.bind_some]
      split <;> rfl

theorem sorted_carryOver : Sorted (carryOver cache slot sides isScoped).1 := by
  unfold carryOver
  rw [opened_eq]
  cases slot.lines? cache with
  | none => exact List.Pairwise.nil
  | some found => exact sorted_upcomingFrom _ _

/-- Every attempt to write comes to an end. -/
theorem writeMerged_carried : ∃ m, writeMerged cache slot sides comparison isScoped true = some m ∧
    Outcome (observationStream cache sides comparison) (carryOver cache slot sides isScoped).1
      (carryOver cache slot sides isScoped).2 [] m := by
  unfold writeMerged
  exact run_turn _ rfl (sorted_observationStream ..) (sorted_carryOver ..) (Nat.lt_succ_self _)

theorem writeMerged_alone : writeMerged cache slot sides comparison isScoped false =
    some (.written (((observationStream cache sides comparison).take entryLimit).map
      fun x => x.2.toRecord x.1)) := by
  have hup : (CarriedRecords.empty sides.source).upcoming = ([], false) := rfl
  obtain ⟨m, hm, h⟩ : ∃ m, writeMerged cache slot sides comparison isScoped false = some m ∧
      Outcome (observationStream cache sides comparison) [] false [] m :=
    run_turn _ hup (sorted_observationStream ..) .nil (Nat.lt_succ_self _)
  rcases h with ⟨h, _⟩ | ⟨_, rfl⟩
  · cases h
  · simpa using hm

/-- The file a pass leaves is one it wrote, from the merge or from what it observed alone. -/
theorem store_eq : ∃ m, writeMerged cache slot sides comparison isScoped true = some m ∧
    Outcome (observationStream cache sides comparison) (carryOver cache slot sides isScoped).1
      (carryOver cache slot sides isScoped).2 [] m ∧
    store cache slot sides comparison isScoped = cache.fileOf (match m with
      | .written records => records
      | .carriedRejected => ((observationStream cache sides comparison).take entryLimit).map
        fun x => x.2.toRecord x.1) := by
  obtain ⟨m, hm, ho⟩ := writeMerged_carried cache slot sides comparison isScoped
  refine ⟨m, hm, ho, ?_⟩
  unfold store
  rw [hm]
  cases m with
  | written records => rfl
  | carriedRejected => simp only [writeMerged_alone]

end Written

end StatusCache
end DriveSync
