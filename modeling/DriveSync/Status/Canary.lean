import Mathlib.Data.Int.CardIntervalMod
import DriveSync.Status.Passes

/-!
# DriveSync.Status.Canary

The sample a pass holds back from a file that is due for an audit, and the epoch the file keeps of
it. The sample is every `stride`-th of the usable records, from `offset` on; both are computed from
the header, before it is known how many records are usable.

* `readLines_tallied`: how many records a reading serves and holds back.
* `audits_iff`: when the epoch a pass writes stands for the sample it should.
* `spaced_of_reaches`: how far apart two samples are.
-/

namespace DriveSync
namespace StatusCache

/-- The records a pass can use: those it would serve, or hold back. -/
def usable (cache : Cache) (header : Header) (comparison : Comparison) (sides : Sides)
    (r : Record) : Bool :=
  readerJudges cache header r && r.digests.isSome && comparison.contains r.p && r.describes sides

/-- How many of the first `k` usable records the sample falls on. -/
def Audit.hits (audit : Audit) (k : Nat) : Nat := k.count (· % audit.stride = audit.offset)

/-- How many of `k` usable records are held back. -/
def Audit.heldBack (audit : Audit) (canary k : Nat) : Nat :=
  if audit.stride = 0 then 0 else min canary (audit.hits k)

/-- Every usable record is served or held back. -/
structure Reading.Tallied (st : Reading) (audit : Audit) (canary : Nat) : Prop where
  whole : st.served.supplied + st.served.probes.length = st.eligible
  probes : st.served.probes.length = audit.heldBack canary st.eligible

section Tally

variable {cache : Cache} {header : Header} {comparison : Comparison}

theorem hits_succ (audit : Audit) (k : Nat) :
    audit.hits (k + 1) = audit.hits k + if k % audit.stride = audit.offset then 1 else 0 := by
  rw [Audit.hits, Nat.count_succ]
  rfl

theorem Reading.Tallied.supply {st : Reading} {audit : Audit} {canary : Nat}
    (h : st.Tallied audit canary) (r : Record) (a b : BitVec 128) :
    (st.supply audit canary r a b).Tallied audit canary ∧
      (st.supply audit canary r a b).eligible = st.eligible + 1 := by
  obtain ⟨hwhole, hprobes⟩ := h
  unfold Audit.heldBack at hprobes
  unfold Reading.supply
  split
  · rename_i hheld
    simp only [Bool.and_eq_true, decide_eq_true_eq, beq_iff_eq] at hheld
    obtain ⟨⟨hstride, hhit⟩, hroom⟩ := hheld
    refine ⟨⟨?_, ?_⟩, rfl⟩
    · simp only [List.length_append, List.length_singleton]
      omega
    · rw [if_neg (by omega)] at hprobes
      simp only [List.length_append, List.length_singleton, Audit.heldBack,
        if_neg (show audit.stride ≠ 0 by omega), hits_succ, if_pos hhit]
      omega
  · rename_i hserved
    refine ⟨⟨?_, ?_⟩, rfl⟩
    · simp only
      omega
    · simp only [Audit.heldBack, hits_succ]
      split
      · rename_i hzero
        rw [if_pos hzero] at hprobes
        exact hprobes
      · rename_i hstride
        rw [if_neg hstride] at hprobes
        simp only [Bool.and_eq_true, decide_eq_true_eq, beq_iff_eq] at hserved
        by_cases hhit : st.eligible % audit.stride = audit.offset
        · have hfull : ¬st.served.probes.length < canary := fun hroom =>
            hserved ⟨⟨by omega, hhit⟩, hroom⟩
          rw [if_pos hhit]
          omega
        · rw [if_neg hhit]
          omega

theorem supply_describes (st : Reading) (audit : Audit) (canary : Nat) (r s : Record)
    (a b : BitVec 128) : s.describes (st.supply audit canary r a b).sides = s.describes st.sides := by
  rcases supply_sides st audit canary r a b with hsides | hsides
  · rw [hsides]
  · rw [hsides]
    exact describes_supply st.sides s r.p a b

/-- A record that is usable is served or held back, and any other is passed over. -/
theorem readRecord_usable {st st' : Reading} {r : Record}
    (h : readRecord cache header comparison st r = .ok st') :
    (usable cache header comparison st.sides r = false ∧ st' = { st with previous := some r.p }) ∨
      usable cache header comparison st.sides r = true ∧ ∃ a b, r.digests = some (a, b) ∧
        st' = ({ st with previous := some r.p } : Reading).supply (cache.audit header)
          cache.options.canary r a b := by
  unfold readRecord at h
  split at h
  · cases h
  · simp only at h
    split at h
    · rename_i hexpired
      cases h
      exact .inl ⟨by simp [usable, readerJudges, hexpired], rfl⟩
    · rename_i hkept
      split at h
      · rename_i hracy
        cases h
        exact .inl ⟨by simp [usable, readerJudges, hracy], rfl⟩
      · rename_i hcalm
        split at h
        · cases h
        · rename_i a b hdigests
          split at h
          · rename_i hmatch
            cases h
            obtain ⟨hin, hdescribes⟩ := Bool.and_eq_true_iff.mp hmatch
            exact .inr ⟨by simp [usable, readerJudges, hkept, hcalm, hdigests, hin, hdescribes],
              a, b, hdigests, rfl⟩
          · rename_i hmatch
            cases h
            refine .inl ⟨?_, rfl⟩
            rw [usable, Bool.and_assoc, Bool.eq_false_of_not_eq_true hmatch, Bool.and_false]

theorem readLines_tallied (lines : List Line) {st st' : Reading}
    (hst : st.Tallied (cache.audit header) cache.options.canary)
    (h : readLines cache header comparison lines st = .ok st') :
    st'.Tallied (cache.audit header) cache.options.canary ∧ st'.eligible =
      st.eligible + (legible st.previous lines).1.countP (usable cache header comparison st.sides) := by
  induction lines generalizing st with
  | nil => cases h
  | cons line lines ih =>
    cases line with
    | unreadable => cases h
    | sentinel =>
      cases h
      exact ⟨hst, by simp [legible]⟩
    | unparseable => cases h
    | record r =>
      rw [readLines] at h
      obtain ⟨next, hnext, h⟩ := Loop.bind_eq_ok.mp h
      have hout : outOfOrder st.previous r.p = false := by
        by_contra hout
        rw [readRecord, if_pos (Bool.eq_true_of_not_eq_false hout)] at hnext
        cases hnext
      rw [legible_record hout, List.countP_cons]
      have hst' : ({ st with previous := some r.p } : Reading).Tallied (cache.audit header)
          cache.options.canary := ⟨hst.whole, hst.probes⟩
      rcases readRecord_usable hnext with ⟨hunused, rfl⟩ | ⟨hused, a, b, _, rfl⟩
      · obtain ⟨htallied, heligible⟩ := ih hst' h
        refine ⟨htallied, ?_⟩
        rw [heligible, hunused]
        simp
      · obtain ⟨hsupplied, hone⟩ := hst'.supply r a b
        obtain ⟨htallied, heligible⟩ := ih hsupplied h
        refine ⟨htallied, ?_⟩
        have hsame : usable cache header comparison (Reading.supply
            { st with previous := some r.p } (cache.audit header) cache.options.canary r a b).sides =
              usable cache header comparison st.sides := by
          funext s
          simp only [usable, supply_describes]
        rw [heligible, hone, hsame, supply_previous, hused]
        simp only [↓reduceIte]
        omega

end Tally

/-! ## The sample there should be -/

/-- The stride and the canary against the number of usable records: the sample is the ceiling of what
it should be, or the canary's whole. -/
def Audit.Reaches (audit : Audit) (canary k : Nat) : Prop :=
  k % audit.stride = 0 ∨ audit.offset < k % audit.stride ∨ canary ≤ k / audit.stride

instance (audit : Audit) (canary k : Nat) : Decidable (audit.Reaches canary k) :=
  inferInstanceAs (Decidable (_ ∨ _ ∨ _))

theorem hits_eq {audit : Audit} (hoffset : audit.offset < audit.stride) (k : Nat) :
    audit.hits k = k / audit.stride + if audit.offset < k % audit.stride then 1 else 0 := by
  have hcount := Nat.count_modEq_card k (show 0 < audit.stride by omega) audit.offset
  rw [Nat.mod_eq_of_lt hoffset] at hcount
  rw [Audit.hits, ← hcount]
  congr 1
  funext i
  rw [Nat.ModEq, Nat.mod_eq_of_lt hoffset]

theorem ceil_div (k : Nat) {stride : Nat} (hstride : 0 < stride) :
    (k + stride - 1) / stride = k / stride + if k % stride = 0 then 0 else 1 := by
  have hk := Nat.div_add_mod k stride
  have hlt := Nat.mod_lt k hstride
  split
  · rename_i hzero
    have heq : k + stride - 1 = stride * (k / stride) + (stride - 1) := by omega
    have hsmall : (stride - 1) / stride = 0 := Nat.div_eq_of_lt (by omega)
    rw [heq, Nat.mul_add_div hstride, hsmall]
  · rename_i hrest
    have heq : k + stride - 1 = stride * (k / stride + 1) + (k % stride - 1) := by
      rw [Nat.mul_add, Nat.mul_one]
      omega
    have hsmall : (k % stride - 1) / stride = 0 := Nat.div_eq_of_lt (by omega)
    rw [heq, Nat.mul_add_div hstride, hsmall]

/-- The sample is as large as it should be, and there is one, exactly where it reaches. -/
theorem heldBack_iff {audit : Audit} {canary k : Nat} (hoffset : audit.offset < audit.stride)
    (hcanary : 0 < canary) (hk : 0 < k) :
    (min canary ((k + audit.stride - 1) / audit.stride) ≤ audit.heldBack canary k ∧
      1 ≤ audit.heldBack canary k) ↔ audit.Reaches canary k := by
  have hstride : 0 < audit.stride := by omega
  have hdiv := Nat.div_add_mod k audit.stride
  have hwhole : 0 ≤ k / audit.stride := Nat.zero_le _
  rw [Audit.heldBack, if_neg (by omega), ceil_div k hstride, hits_eq hoffset]
  unfold Audit.Reaches
  by_cases hzero : k % audit.stride = 0
  · have hpos : 0 < k / audit.stride := by
      rcases Nat.eq_zero_or_pos (k / audit.stride) with hnone | hpos
      · rw [hnone, hzero] at hdiv
        omega
      · exact hpos
    simp only [hzero, ↓reduceIte, true_or, iff_true]
    omega
  · by_cases hpast : audit.offset < k % audit.stride
    · simp only [hzero, hpast, ↓reduceIte, true_or, or_true, iff_true]
      omega
    · simp only [hzero, hpast, ↓reduceIte, false_or]
      omega

/-! ## A pass -/

/-- The header of a file that has one. -/
def Slot.header? : Slot → Option Header
  | .file stored => stored.header
  | _ => none

section Files

variable {cache : Cache} {header : Header} {slot : Slot} {lines : List Line} {sides : Sides}
  {comparison : Comparison}

theorem stride_pos (entries : Nat) {canary : Nat} (hcanary : 0 < canary) :
    0 < canaryStride entries canary := by
  unfold canaryStride
  rw [if_neg (by omega)]
  omega

theorem audit_of_due (hcanary : 0 < cache.options.canary) (hdue : cache.auditDue header = true) :
    (cache.audit header).stride = canaryStride header.entries cache.options.canary ∧
      (cache.audit header).offset < (cache.audit header).stride := by
  have hpos := stride_pos header.entries hcanary
  simp only [Cache.audit, hdue, ↓reduceIte, if_neg (show canaryStride header.entries
    cache.options.canary ≠ 0 by omega)]
  refine ⟨trivial, ?_⟩
  have hlt := Int.emod_lt_of_pos header.generatedAt
    (show (0 : Int) < canaryStride header.entries cache.options.canary by omega)
  have hnonneg := Int.emod_nonneg header.generatedAt
    (show (canaryStride header.entries cache.options.canary : Int) ≠ 0 by omega)
  omega

theorem audit_of_not_due (hdue : ¬cache.auditDue header = true) :
    (cache.audit header).stride = 0 := by
  simp [Cache.audit, hdue]

/-- An audit is due a whole interval after the epoch, and no sooner. -/
theorem auditDue_iff : cache.auditDue header = true ↔
    header.canaryAt + canaryIntervalSeconds ≤ cache.now := by
  unfold Cache.auditDue saturate canaryIntervalSeconds
  rw [decide_eq_true_eq]
  omega

/-- What serving from a file that is trusted comes to. -/
theorem serve_of_opens (hreads : Reads cache comparison)
    (hlines : slot.lines? cache = some (header, lines)) (htrusted : ¬ReaderGivesUp cache header lines) :
    let served := serve cache slot sides comparison
    let k := (legible none lines).1.countP (usable cache header comparison sides)
    served.1.supplied + served.1.probes.length = k ∧
      served.1.probes.length = (cache.audit header).heldBack cache.options.canary k ∧
      served.2.2.canaryAt = if cache.auditDue header then cache.now else header.canaryAt := by
  have hok := (readInto_isOk sides hlines hreads).mpr htrusted
  have hinto : readInto cache slot sides comparison = _ := readInto_of_lines hlines hreads
  cases hread : readingOf cache header lines sides comparison with
  | error error =>
    rw [hinto, hread] at hok
    cases hok
  | ok st =>
    rw [hread] at hinto
    have hserve : serve cache slot sides comparison = (st.served, st.sides,
        { cache with canaryAt := if cache.auditDue header then cache.now else header.canaryAt }) := by
      rw [serve, hinto]
      rfl
    have hstart : (⟨⟨0, [], none⟩, sides, none, 0⟩ : Reading).Tallied (cache.audit header)
        cache.options.canary := ⟨rfl, by simp [Audit.heldBack, Audit.hits]⟩
    obtain ⟨htallied, heligible⟩ := readLines_tallied lines hstart hread
    simp only [hserve]
    rw [Nat.zero_add] at heligible
    rw [← heligible]
    exact ⟨htallied.whole, htallied.probes, trivial⟩

/-- Nothing is served of a file that is not read, or not trusted. -/
theorem serve_of_not_opens (sides : Sides) (hclosed : ¬∃ header lines, Reads cache comparison ∧
    slot.lines? cache = some (header, lines) ∧ ¬ReaderGivesUp cache header lines) :
    (serve cache slot sides comparison).1 = ⟨0, [], none⟩ ∧
      (serve cache slot sides comparison).2.2 = cache := by
  unfold serve
  by_cases hreads : Reads cache comparison
  · cases hlines : slot.lines? cache with
    | none =>
      rcases readInto_of_none sides comparison hlines with heq | heq <;> rw [heq] <;> exact ⟨rfl, rfl⟩
    | some found =>
      obtain ⟨header, lines⟩ := found
      have hnot : ¬(readInto cache slot sides comparison).isOk = true := by
        intro hok
        exact hclosed ⟨header, lines, hreads, hlines, (readInto_isOk sides hlines hreads).mp hok⟩
      cases hread : readInto cache slot sides comparison with
      | error error => exact ⟨rfl, rfl⟩
      | ok result =>
        rw [hread] at hnot
        exact absurd rfl hnot
  · rw [readInto_of_not_reads hreads]
    exact ⟨rfl, rfl⟩

end Files

namespace Pass

variable (pass : Pass) (profile : CacheOptions) (w : World)

/-- The pass reads its file, and trusts it. -/
def Opens (header : Header) (lines : List Line) : Prop :=
  Reads (pass.cache profile w) pass.comparison ∧
    w.slot.lines? (pass.cache profile w) = some (header, lines) ∧
    ¬ReaderGivesUp (pass.cache profile w) header lines

def usableCount (header : Header) (lines : List Line) : Nat :=
  (legible none lines).1.countP (usable (pass.cache profile w) header pass.comparison pass.sides)

/-- The pass serves a stored digest. -/
def Warm : Prop := 0 < (pass.served profile w).1.supplied

/-- The pass holds back a sample. -/
def Samples : Prop := (pass.served profile w).1.probes ≠ []

/-- A pass that serves stored digests and writes a later epoch than it read held back the sample that
the stride makes of the usable records, and one record at the least. -/
def Audits : Prop :=
  ∀ header lines, w.slot.lines? (pass.cache profile w) = some (header, lines) →
    pass.Warm profile w → ∀ written, (pass.leaving profile w).slot.header? = some written →
      header.canaryAt < written.canaryAt →
        let k := pass.usableCount profile w header lines
        let stride := canaryStride header.entries pass.canary
        min pass.canary ((k + stride - 1) / stride) ≤ (pass.served profile w).1.probes.length ∧
          1 ≤ (pass.served profile w).1.probes.length

/-- The sample of a file that is due for an audit reaches the records that are usable. -/
def SampleReaches : Prop :=
  ∀ header lines, pass.Opens profile w header lines →
    (pass.cache profile w).auditDue header = true → 0 < pass.usableCount profile w header lines →
      ((pass.cache profile w).audit header).Reaches pass.canary
        (pass.usableCount profile w header lines)

end Pass

section Pass

variable {pass : Pass} {profile : CacheOptions} {w : World} {header : Header} {lines : List Line}

theorem opens_of_warm (h : pass.Warm profile w) : ∃ header lines, pass.Opens profile w header lines := by
  by_contra hclosed
  obtain ⟨hserved, _⟩ := serve_of_not_opens pass.sides hclosed
  unfold Pass.Warm Pass.served at h
  rw [hserved] at h
  exact Nat.lt_irrefl 0 h

theorem opens_of_samples (h : pass.Samples profile w) :
    ∃ header lines, pass.Opens profile w header lines := by
  by_contra hclosed
  obtain ⟨hserved, _⟩ := serve_of_not_opens pass.sides hclosed
  unfold Pass.Samples Pass.served at h
  rw [hserved] at h
  exact h rfl

/-- The epoch a pass writes is the one its reading came to. -/
theorem canaryAt_written (hstores : pass.stores = true) {written : Header}
    (h : (pass.leaving profile w).slot.header? = some written) :
    written.canaryAt = (pass.served profile w).2.2.canaryAt := by
  obtain ⟨m, _, _, hstore⟩ := store_eq (pass.served profile w).2.2
    (pass.populate profile w).1 (pass.populate profile w).2 pass.comparison pass.isScoped
  simp only [Pass.leaving, hstores, if_true, hstore, Cache.fileOf] at h
  cases h
  rfl

theorem opens_unique {header' : Header} {lines' : List Line} (h : pass.Opens profile w header lines)
    (h' : w.slot.lines? (pass.cache profile w) = some (header', lines')) :
    header' = header ∧ lines' = lines := by
  obtain ⟨rfl, rfl⟩ := Prod.mk.inj (Option.some.inj (h'.symm.trans h.2.1))
  exact ⟨rfl, rfl⟩

/-- The sample and the epoch of a pass that trusts its file. -/
theorem served_of_opens (h : pass.Opens profile w header lines) :
    (pass.served profile w).1.supplied + (pass.served profile w).1.probes.length =
        pass.usableCount profile w header lines ∧
      (pass.served profile w).1.probes.length = ((pass.cache profile w).audit header).heldBack
        pass.canary (pass.usableCount profile w header lines) ∧
      (pass.served profile w).2.2.canaryAt =
        if (pass.cache profile w).auditDue header then pass.now w else header.canaryAt :=
  serve_of_opens h.1 h.2.1 h.2.2

theorem heldBack_of_due (hcanary : 0 < pass.canary)
    (hdue : (pass.cache profile w).auditDue header = true) {k : Nat} (hk : 0 < k) :
    (min pass.canary ((k + canaryStride header.entries pass.canary - 1) /
        canaryStride header.entries pass.canary) ≤
          ((pass.cache profile w).audit header).heldBack pass.canary k ∧
      1 ≤ ((pass.cache profile w).audit header).heldBack pass.canary k) ↔
        ((pass.cache profile w).audit header).Reaches pass.canary k := by
  obtain ⟨hstride, hoffset⟩ := @audit_of_due (pass.cache profile w) header hcanary hdue
  rw [← heldBack_iff hoffset hcanary hk, hstride]
  rfl

/-- A pass keeps the promise of its epoch exactly where it does not store, or its sample reaches. -/
theorem audits_iff (hcanary : 0 < pass.canary) :
    pass.Audits profile w ↔ (pass.stores = true → pass.SampleReaches profile w) := by
  constructor
  · intro haudits hstores header lines hopens hdue hk
    obtain ⟨hwhole, hprobes, hepoch⟩ := served_of_opens hopens
    rw [if_pos hdue] at hepoch
    refine (heldBack_of_due hcanary hdue hk).mp ?_
    rw [← hprobes]
    by_cases hwarm : pass.Warm profile w
    · obtain ⟨written, hwritten⟩ : ∃ written,
          (pass.leaving profile w).slot.header? = some written := by
        obtain ⟨m, _, _, hstore⟩ := store_eq (pass.served profile w).2.2
          (pass.populate profile w).1 (pass.populate profile w).2 pass.comparison pass.isScoped
        simp only [Pass.leaving, hstores, if_true, hstore, Cache.fileOf]
        exact ⟨_, rfl⟩
      refine haudits header lines hopens.2.1 hwarm written hwritten ?_
      have hlater := auditDue_iff.mp hdue
      rw [canaryAt_written hstores hwritten, hepoch]
      show header.canaryAt < (pass.cache profile w).now
      unfold canaryIntervalSeconds at hlater
      omega
    · -- every usable record was held back
      have hstride := stride_pos header.entries hcanary
      have hnone : (pass.served profile w).1.supplied = 0 := by
        unfold Pass.Warm at hwarm
        omega
      have hceil : (pass.usableCount profile w header lines +
          canaryStride header.entries pass.canary - 1) /
            canaryStride header.entries pass.canary ≤ pass.usableCount profile w header lines := by
        rw [Nat.div_le_iff_le_mul_add_pred hstride]
        have := Nat.le_mul_of_pos_left (pass.usableCount profile w header lines) hstride
        omega
      omega
  · intro hreaches header lines hlines hwarm written hwritten hlater
    obtain ⟨header', lines', hopens⟩ := opens_of_warm hwarm
    obtain ⟨rfl, rfl⟩ := opens_unique hopens hlines
    obtain ⟨hwhole, hprobes, hepoch⟩ := served_of_opens hopens
    have hstores : pass.stores = true := by
      by_contra hnot
      rw [slot_leaving hnot] at hwritten
      split at hwritten
      · cases hwritten
      · obtain ⟨stored, hslot, hheader⟩ := header_of_lines hlines
        rw [hslot] at hwritten
        obtain rfl := Option.some.inj (hheader.symm.trans hwritten)
        exact lt_irrefl _ hlater
    rw [canaryAt_written hstores hwritten, hepoch] at hlater
    have hdue : (pass.cache profile w).auditDue header = true := by
      by_contra hnot
      rw [if_neg hnot] at hlater
      exact lt_irrefl _ hlater
    have hk : 0 < pass.usableCount profile w header lines := by
      unfold Pass.Warm at hwarm
      omega
    simp only [hprobes]
    exact (heldBack_of_due hcanary hdue hk).mpr (hreaches hstores header lines hopens hdue hk)

end Pass

/-! ## Runs -/

/-- A pass at a time of its own. -/
structure Visit where
  pass : Pass
  clock : Int

namespace Visit

variable (v : Visit) (profile : CacheOptions) (w : World)

/-- The file as the pass meets it, whatever the clock says by now. -/
def met : World := { w with clock := v.clock }

def leaving : World := v.pass.leaving profile (v.met w)

/-- The pass's clock. -/
def now : Int := v.clock + v.pass.waited

def After (profile : CacheOptions) (v : Visit) (w w' : World) : Prop := w' = v.leaving profile w

def Audits : Prop := v.pass.Audits profile (v.met w)

def SampleReaches : Prop := v.pass.SampleReaches profile (v.met w)

def Samples : Prop := v.pass.Samples profile (v.met w)

/-- Served warm, and no sample held back. -/
def Quiet : Prop := v.pass.Warm profile (v.met w) ∧ ¬v.Samples profile w

end Visit

/-- The world a run comes to. -/
def afterAll (profile : CacheOptions) (w : World) (visits : List Visit) : World :=
  visits.foldl (fun w v => v.leaving profile w) w

/-- A profile that is served warm and not sampled. -/
def AllQuiet (profile : CacheOptions) : List Visit → World → Prop
  | [], _ => True
  | v :: visits, w => v.Quiet profile w ∧ AllQuiet profile visits (v.leaving profile w)

/-- Of two samples with none between them, the profile being served warm, the second is taken by the
first pass that comes an interval or more after the first. -/
def Spaced (profile : CacheOptions) (w : World) (visits : List Visit) : Prop :=
  ∀ before x between y after, visits = before ++ x :: (between ++ y :: after) →
    x.Samples profile (afterAll profile w before) →
    AllQuiet profile between (x.leaving profile (afterAll profile w before)) →
    y.Samples profile (afterAll profile w (before ++ x :: between)) →
    ∀ z ∈ between, z.now < x.now + canaryIntervalSeconds

section Runs

variable {profile : CacheOptions} {w : World} {v : Visit}

/-- No epoch is later than a time. -/
def AuditedBy (w : World) (t : Int) : Prop :=
  ∀ header, w.slot.header? = some header → header.canaryAt ≤ t

theorem header?_of_opens {pass : Pass} {header : Header} {lines : List Line}
    (h : pass.Opens profile w header lines) : w.slot.header? = some header := by
  obtain ⟨stored, hslot, hheader⟩ := header_of_lines h.2.1
  rw [hslot]
  exact hheader

/-- A pass that samples leaves no epoch later than its own clock. -/
theorem auditedBy_of_samples (h : v.Samples profile w) :
    AuditedBy (v.leaving profile w) v.now := by
  obtain ⟨header, lines, hopens⟩ := opens_of_samples h
  obtain ⟨_, hprobes, hepoch⟩ := served_of_opens hopens
  have hdue : (v.pass.cache profile (v.met w)).auditDue header = true := by
    by_contra hnot
    rw [Audit.heldBack, if_pos (audit_of_not_due hnot)] at hprobes
    exact h (List.eq_nil_of_length_eq_zero hprobes)
  have hlater : header.canaryAt + canaryIntervalSeconds ≤ v.now := auditDue_iff.mp hdue
  intro written hwritten
  by_cases hstores : v.pass.stores = true
  · rw [canaryAt_written hstores hwritten, hepoch, if_pos hdue]
    exact le_rfl
  · unfold Visit.leaving at hwritten
    rw [slot_leaving hstores] at hwritten
    split at hwritten
    · cases hwritten
    · rw [header?_of_opens hopens] at hwritten
      obtain rfl := Option.some.inj hwritten
      unfold canaryIntervalSeconds at hlater
      omega

/-- A warm pass that does not sample, though its sample would reach, comes before the interval is
over, and leaves the epoch. -/
theorem quiet_step {t : Int} (hcanary : 0 < v.pass.canary) (hw : AuditedBy w t)
    (hquiet : v.Quiet profile w) (hreaches : v.SampleReaches profile w) :
    v.now < t + canaryIntervalSeconds ∧ AuditedBy (v.leaving profile w) t := by
  obtain ⟨hwarm, hnone⟩ := hquiet
  obtain ⟨header, lines, hopens⟩ := opens_of_warm hwarm
  obtain ⟨hwhole, hprobes, hepoch⟩ := served_of_opens hopens
  have hread : header.canaryAt ≤ t := hw header (header?_of_opens (w := v.met w) hopens)
  have hk : 0 < v.pass.usableCount profile (v.met w) header lines := by
    unfold Pass.Warm at hwarm
    omega
  have hdue : ¬(v.pass.cache profile (v.met w)).auditDue header = true := by
    intro hdue
    have hsample := ((heldBack_of_due hcanary hdue hk).mpr
      (hreaches header lines hopens hdue hk)).2
    rw [← hprobes] at hsample
    exact hnone (List.ne_nil_of_length_pos hsample)
  have hsoon : ¬header.canaryAt + canaryIntervalSeconds ≤ v.now := fun h => hdue (auditDue_iff.mpr h)
  refine ⟨by unfold canaryIntervalSeconds at *; omega, ?_⟩
  intro written hwritten
  by_cases hstores : v.pass.stores = true
  · rw [canaryAt_written hstores hwritten, hepoch, if_neg hdue]
    exact hread
  · unfold Visit.leaving at hwritten
    rw [slot_leaving hstores] at hwritten
    split at hwritten
    · cases hwritten
    · rw [header?_of_opens hopens] at hwritten
      obtain rfl := Option.some.inj hwritten
      exact hread

theorem quiet_run {t : Int} {visits : List Visit} (hcanary : ∀ v ∈ visits, 0 < v.pass.canary)
    (hw : AuditedBy w t) (hquiet : AllQuiet profile visits w)
    (hreaches : EachStep (Visit.After profile) (fun v w => v.SampleReaches profile w) visits w) :
    ∀ z ∈ visits, z.now < t + canaryIntervalSeconds := by
  induction visits generalizing w with
  | nil => simp
  | cons v visits ih =>
    obtain ⟨hfirst, hrest⟩ := hreaches _ rfl
    obtain ⟨hsoon, hw'⟩ := quiet_step (hcanary v List.mem_cons_self) hw hquiet.1 hfirst
    intro z hz
    rcases List.mem_cons.mp hz with rfl | hz
    · exact hsoon
    · exact ih (fun v hv => hcanary v (List.mem_cons_of_mem _ hv)) hw' hquiet.2 hrest z hz

/-- The condition of a run is one of each of its parts. -/
theorem eachStep_append {C : Visit → World → Prop} {visits visits' : List Visit}
    (h : EachStep (Visit.After profile) C (visits ++ visits') w) :
    EachStep (Visit.After profile) C visits w ∧
      EachStep (Visit.After profile) C visits' (afterAll profile w visits) := by
  induction visits generalizing w with
  | nil => exact ⟨trivial, h⟩
  | cons v visits ih =>
    obtain ⟨hfirst, hrest⟩ := h _ rfl
    obtain ⟨hvisits, hvisits'⟩ := ih hrest
    refine ⟨?_, hvisits'⟩
    rintro _ rfl
    exact ⟨hfirst, hvisits⟩

theorem spaced_of_reaches {visits : List Visit} (hcanary : ∀ v ∈ visits, 0 < v.pass.canary)
    (hreaches : EachStep (Visit.After profile) (fun v w => v.SampleReaches profile w) visits w) :
    Spaced profile w visits := by
  rintro before x between y after rfl hsamples hquiet _
  obtain ⟨_, hfrom⟩ := eachStep_append hreaches
  obtain ⟨_, hfrom⟩ := hfrom _ rfl
  obtain ⟨hbetween, _⟩ := eachStep_append hfrom
  exact quiet_run (fun v hv => hcanary v (by simp [hv])) (auditedBy_of_samples hsamples) hquiet hbetween

end Runs

/-- In every run, the epochs stand for their samples exactly where those samples reach; and then two
samples are at most an interval and a pass apart. -/
theorem audited_run (profile : CacheOptions) (w : World) (visits : List Visit)
    (hcanary : ∀ v ∈ visits, 0 < v.pass.canary) :
    (EachStep (Visit.After profile) (fun v w => v.Audits profile w) visits w ↔
      EachStep (Visit.After profile)
        (fun v w => v.pass.stores = true → v.SampleReaches profile w) visits w) ∧
    (EachStep (Visit.After profile) (fun v w => v.SampleReaches profile w) visits w →
      Spaced profile w visits) := by
  refine ⟨?_, spaced_of_reaches hcanary⟩
  induction visits generalizing w with
  | nil => exact Iff.rfl
  | cons v visits ih =>
    have hrest := ih (v.leaving profile w) fun v hv => hcanary v (List.mem_cons_of_mem _ hv)
    have hfirst := @audits_iff v.pass profile (v.met w) (hcanary v List.mem_cons_self)
    constructor
    · rintro h _ rfl
      exact ⟨hfirst.mp (h _ rfl).1, hrest.mp (h _ rfl).2⟩
    · rintro h _ rfl
      exact ⟨hfirst.mpr (h _ rfl).1, hrest.mpr (h _ rfl).2⟩

/-! ## A sample that steps over the only usable record

Two pairs are stored at an odd time, so that every second record from the second on is the sample.
The next pass is asked about one of them. -/

namespace SteppedOver

open Refreshed (profile)

def sides : Sides where
  source p := if p = "a".toList ∨ p = "b".toList then some ⟨.file, 1, 0, ⟨1, 2⟩, none⟩ else none
  remote p := if p = "a".toList ∨ p = "b".toList then some ⟨.file, 1, 0, none⟩ else none

theorem bare_sides : sides.Bare := by
  intro side p
  cases side <;> simp [Sides.digest, sides]

def pass (comparison : Comparison) (isScoped : Bool) : Pass where
  waited := 0
  refresh := false
  maxAgeSeconds := 14 * 24 * 60 * 60
  canary := 1
  isScoped := isScoped
  sides := sides
  bare := bare_sides
  comparison := comparison
  live := ⟨fun _ => some 7, fun _ => some 7⟩
  again := ⟨fun _ => none, fun _ => none⟩
  completed := true
  cancelled := false

def both : Comparison := ⟨["a".toList, "b".toList], by decide⟩

def only (p : RelText) : Comparison := ⟨[p], List.pairwise_singleton ..⟩

def everything : Visit := ⟨pass both false, 1000001⟩

/-- The next day, one of the two pairs. -/
def narrowed : Visit := ⟨pass (only "a".toList) true, 1086401⟩

/-- The next day, both pairs again. -/
def repeated : Visit := ⟨pass both false, 1086401⟩

def stored : World := everything.leaving profile (.new 0)

/-- The one usable record is served, none is held back, and the epoch is written. -/
theorem not_audited_run : ¬∀ (profile : CacheOptions) (w : World) (visits : List Visit),
    (∀ v ∈ visits, 0 < v.pass.canary) →
      EachStep (Visit.After profile) (fun v w => v.Audits profile w) visits w ∧
        Spaced profile w visits := by
  intro h
  obtain ⟨haudits, _⟩ := h profile (.new 0) [everything, narrowed] (by decide)
  have hsecond : narrowed.Audits profile stored := ((haudits _ rfl).2 _ rfl).1
  have hread : ((narrowed.met stored).slot.lines? (narrowed.pass.cache profile
      (narrowed.met stored))).map (·.1.canaryAt) = some 0 := by decide +kernel
  have hleft : (narrowed.leaving profile stored).slot.header?.map (·.canaryAt) = some 1086401 := by
    decide +kernel
  obtain ⟨⟨header, lines⟩, hlines, hold⟩ := Option.map_eq_some_iff.mp hread
  obtain ⟨written, hwritten, hnew⟩ := Option.map_eq_some_iff.mp hleft
  have hnewer : header.canaryAt < written.canaryAt := by
    rw [hnew, show header.canaryAt = 0 from hold]
    decide
  have hwarm : narrowed.pass.Warm profile (narrowed.met stored) := by
    unfold Pass.Warm
    decide +kernel
  have hnone : (narrowed.pass.served profile (narrowed.met stored)).1.probes.length = 0 := by
    decide +kernel
  have hsample := (hsecond header lines hlines hwarm written hwritten hnewer).2
  omega

/-- The sample of either pass reaches what is usable. -/
theorem reaches_repeated : EachStep (Visit.After profile) (fun v w => v.SampleReaches profile w)
    [everything, repeated] (.new 0) := by
  have hfirst : ((everything.met (.new 0)).slot.lines?
      (everything.pass.cache profile (everything.met (.new 0)))).isNone = true := by decide +kernel
  have hsecond : ((repeated.met stored).slot.lines?
      (repeated.pass.cache profile (repeated.met stored))).all (fun read => decide
        (((repeated.pass.cache profile (repeated.met stored)).audit read.1).Reaches
          repeated.pass.canary
          (repeated.pass.usableCount profile (repeated.met stored) read.1 read.2))) = true := by
    decide +kernel
  rintro _ rfl
  refine ⟨fun header lines hopens => ?_, ?_⟩
  · rw [hopens.2.1] at hfirst
    cases hfirst
  · rintro _ rfl
    refine ⟨fun header lines hopens _ _ => ?_, trivial⟩
    have hread := hopens.2.1
    rw [show everything.leaving profile (.new 0) = stored from rfl] at hread
    rw [hread] at hsecond
    exact of_decide_eq_true hsecond

theorem audited_run_repeated :
    EachStep (Visit.After profile) (fun v w => v.Audits profile w) [everything, repeated] (.new 0) ∧
      Spaced profile (.new 0) [everything, repeated] := by
  obtain ⟨haudits, hspaced⟩ := audited_run profile (.new 0) [everything, repeated] (by decide)
  refine ⟨haudits.mpr ?_, hspaced reaches_repeated⟩
  rintro _ rfl
  obtain ⟨hfirst, hrest⟩ := reaches_repeated _ rfl
  refine ⟨fun _ => hfirst, ?_⟩
  rintro _ rfl
  exact ⟨fun _ => (hrest _ rfl).1, trivial⟩

end SteppedOver

end StatusCache
end DriveSync
