import DriveSync.Lib.Along
import DriveSync.Status.Trust

/-!
# DriveSync.Status.Passes

Runs of status passes over one profile, on one cache file. `known` is the ghost of what the passes
computed live: the last digest of each side of a pair, under the metadata it was computed for. A
digest served is the last one computed, but for the passes that see a stored record contradicted and
leave it in the file.
-/

namespace DriveSync
namespace StatusCache

open SortedMerge (value? Sorted before)

/-- The metadata a pair is known by. -/
structure PairIdentity where
  size : Nat
  mtimeMs : Int
  identity : FileIdentity
  remoteMtimeSeconds : Int
deriving DecidableEq, Repr

inductive Side where
  | source
  | remote
deriving DecidableEq, Repr

namespace Sides

/-- The digest one side has under a path. -/
def digest (sides : Sides) : Side → RelText → Option (BitVec 128)
  | .source, p => (sides.source p).bind (·.contentMd5)
  | .remote, p => (sides.remote p).bind (·.contentMd5)

/-- The pair under a path: two files of one size. -/
def pair? (sides : Sides) (p : RelText) : Option PairIdentity :=
  match sides.source p, sides.remote p with
  | some l, some r =>
    if l.kind = .file ∧ r.kind = .file ∧ l.size = r.size then
      some ⟨l.size, l.mtimeMs, l.identity, r.mtimeSeconds⟩
    else none
  | _, _ => none

/-- As the walks leave the inventories. -/
def Bare (sides : Sides) : Prop := ∀ side p, sides.digest side p = none

end Sides

/-- One status pass: what it is asked, what its walks find, and what it computes live, the first time
and again where the canary fails. It may end before its digests are computed, or before it stores. -/
structure Pass where
  waited : Nat
  refresh : Bool
  maxAgeSeconds : Int
  canary : Nat
  isScoped : Bool
  sides : Sides
  bare : sides.Bare
  comparison : Comparison
  live : Live
  again : Live
  completed : Bool
  cancelled : Bool

/-- A cache file, the time, and what was last computed live. -/
structure World where
  slot : Slot
  clock : Int
  known : Side → RelText → PairIdentity → Option (BitVec 128)

def World.new (clock : Int) : World := ⟨.absent, clock, fun _ _ _ => none⟩

namespace Pass

variable (pass : Pass) (profile : CacheOptions) (w : World)

def now : Int := w.clock + pass.waited

/-- The profile's cache, opened for this pass. -/
def cache : Cache where
  options := { profile with
    refresh := pass.refresh
    maxAgeSeconds := pass.maxAgeSeconds
    canary := pass.canary }
  now := pass.now w
  canaryAt := 0

def served : Served × Sides × Cache :=
  serve (pass.cache profile w) w.slot pass.sides pass.comparison

/-- The inventories once the digests that were not served are computed. -/
def computed : Sides := computeLive pass.live (pass.served profile w).2.1 pass.comparison

/-- The canary finds a stored digest that a live one contradicts. -/
def mismatches : Bool :=
  pass.completed && (verifyCanary (pass.served profile w).1.probes (pass.computed profile w)).isSome

/-- `populate_status_digests`: the file it leaves in place, and the inventories it fills. -/
def populate : Slot × Sides :=
  if pass.mismatches profile w then
    (.absent, computeLive pass.again (pass.computed profile w).cleared pass.comparison)
  else (w.slot, pass.computed profile w)

def stores : Bool := pass.completed && !pass.cancelled

/-- What the pass computes live, the last time it does. -/
def computes (side : Side) (p : RelText) : Option (BitVec 128) :=
  let first := if ((pass.served profile w).2.1.digest side p).isSome then none
    else (pass.computed profile w).digest side p
  if pass.mismatches profile w then ((pass.populate profile w).2.digest side p).or first else first

/-- The pass, to its end. -/
def leaving : World where
  slot :=
    let (slot, sides) := pass.populate profile w
    if pass.stores then
      store (pass.served profile w).2.2 slot sides pass.comparison pass.isScoped
    else slot
  clock := pass.now w
  known side p identity :=
    if pass.sides.pair? p = some identity then
      (pass.computes profile w side p).or (w.known side p identity)
    else w.known side p identity

/-- A digest served is the one last computed live for that path under that metadata; and a refresh
that finds a pair different leaves no record of it. -/
structure Honest : Prop where
  served : ∀ side p d, (pass.served profile w).2.1.digest side p = some d →
    ∃ identity, pass.sides.pair? p = some identity ∧ w.known side p identity = some d
  removed : pass.refresh = true → pass.stores = true → ∀ p l r,
    pass.comparison.contains p = true → pass.computes profile w .source p = some l →
    pass.computes profile w .remote p = some r → l ≠ r →
    ∀ record ∈ (pass.leaving profile w).slot.records, record.p = p →
      record.describes pass.sides = false

/-- A record that says what is under its path, but for a digest the pass computes live. -/
def Contradicts (r : Record) : Prop :=
  r.describes pass.sides = true ∧
    ((∃ d, pass.computes profile w .source r.p = some d ∧ parseMd5 r.lmd5 ≠ some d) ∨
      ∃ d, pass.computes profile w .remote r.p = some d ∧ parseMd5 r.rmd5 ≠ some d)

/-- The pass gets rid of a record it contradicts: the canary discards the file; or the pass stores,
and the record has expired, or the pair now agrees on other digests, or has no room. -/
def GetsRidOf (r : Record) : Prop :=
  pass.mismatches profile w = true ∨ pass.stores = true ∧
    (r.isExpired (pass.now w) (pass.cache profile w).expiry = true ∨
      pass.comparison.contains r.p = true ∧
        (observed (pass.cache profile w) (pass.computed profile w) r.p).isSome ∨
      entryLimit ≤ before (merged
        (freshOf (pass.cache profile w) w.slot pass.sides pass.comparison pass.live)
        (carryOver (pass.cache profile w) w.slot (pass.computed profile w) pass.isScoped).1) r.p)

/-- No record that can be served, or that a refresh is to remove, is contradicted and left. -/
def Settles : Prop :=
  ∀ r ∈ w.slot.records, r.isRacy r.t = false ∨ pass.refresh = true ∧ pass.stores = true →
    pass.Contradicts profile w r → pass.GetsRidOf profile w r

end Pass

/-- What one pass after another makes of the world. -/
def After (profile : CacheOptions) (pass : Pass) (w w' : World) : Prop := w' = pass.leaving profile w

/-! ## Pairs and records -/

namespace StoredEntry

def pair (e : StoredEntry) : PairIdentity := ⟨e.size, e.mtimeMs, e.identity, e.remoteMtimeSeconds⟩

@[simp] theorem pair_dated (f c : StoredEntry) : (dated f c).pair = f.pair := by
  unfold dated
  split <;> rfl

@[simp] theorem localMd5_dated (f c : StoredEntry) : (dated f c).localMd5 = f.localMd5 := by
  unfold dated
  split <;> rfl

@[simp] theorem remoteMd5_dated (f c : StoredEntry) : (dated f c).remoteMd5 = f.remoteMd5 := by
  unfold dated
  split <;> rfl

@[simp] theorem p_toRecord (p : RelText) (e : StoredEntry) : (e.toRecord p).p = p := rfl

@[simp] theorem t_toRecord (p : RelText) (e : StoredEntry) : (e.toRecord p).t = e.observedAt := rfl

@[simp] theorem digests_toRecord (p : RelText) (e : StoredEntry) :
    (e.toRecord p).digests = some (e.localMd5, e.remoteMd5) := by
  simp [Record.digests, toRecord, parseMd5_hex16]

end StoredEntry

theorem encodeIdentity_inj {a b : FileIdentity} (h : encodeIdentity a = encodeIdentity b) :
    a = b := by
  rw [← decodeIdentity_encodeIdentity a, h, decodeIdentity_encodeIdentity]

section Pairs

variable {sides : Sides} {p : RelText} {e : StoredEntry}

theorem pair?_eq_some {identity : PairIdentity} : sides.pair? p = some identity ↔
    ∃ l r, sides.source p = some l ∧ sides.remote p = some r ∧ l.kind = .file ∧ r.kind = .file ∧
      l.size = r.size ∧ identity = ⟨l.size, l.mtimeMs, l.identity, r.mtimeSeconds⟩ := by
  unfold Sides.pair?
  cases hl : sides.source p with
  | none => simp
  | some l =>
    cases hr : sides.remote p with
    | none => simp
    | some r =>
      by_cases h : l.kind = .file ∧ r.kind = .file ∧ l.size = r.size
      · simp only [if_pos h, Option.some.injEq]
        constructor
        · rintro rfl
          exact ⟨l, r, rfl, rfl, h.1, h.2.1, h.2.2, rfl⟩
        · rintro ⟨_, _, rfl, rfl, _, _, _, rfl⟩
          rfl
      · simp only [if_neg h]
        constructor
        · intro h'
          cases h'
        · rintro ⟨_, _, hl', hr', hkind, hkind', hsize, _⟩
          cases hl'
          cases hr'
          exact absurd ⟨hkind, hkind', hsize⟩ h

theorem describes_toRecord :
    (e.toRecord p).describes sides = true ↔ sides.pair? p = some e.pair := by
  rw [pair?_eq_some]
  simp only [Record.describes, Bool.and_eq_true, Option.any_eq_true, Record.describesLocal,
    Record.describesRemote, decide_eq_true_eq, StoredEntry.p_toRecord]
  constructor
  · rintro ⟨⟨l, hl, ⟨⟨hkind, hsize⟩, hmtime⟩, hidentity⟩, r, hr, ⟨hkind', hsize'⟩, hmtime'⟩
    refine ⟨l, r, hl, hr, hkind, hkind', hsize.trans hsize'.symm, ?_⟩
    simp only [StoredEntry.toRecord] at hsize hmtime hidentity hmtime'
    rw [StoredEntry.pair, hsize, hmtime, hmtime', encodeIdentity_inj hidentity]
  · rintro ⟨l, r, hl, hr, hkind, hkind', hsize, hpair⟩
    simp only [StoredEntry.pair, PairIdentity.mk.injEq] at hpair
    obtain ⟨hs, hm, hn, hrm⟩ := hpair
    refine ⟨⟨l, hl, ⟨⟨hkind, hs.symm⟩, hm.symm⟩, ?_⟩, r, hr, ⟨hkind', ?_⟩, hrm.symm⟩
    · simp [StoredEntry.toRecord, hn]
    · simp [StoredEntry.toRecord, hs, hsize]

/-- Metadata is not touched by what a pass does to digests. -/
def SameButDigests (sides sides' : Sides) : Prop :=
  (∀ p, ∃ f : LocalEntry → Option (BitVec 128),
    sides'.source p = (sides.source p).map fun e => { e with contentMd5 := f e }) ∧
  ∀ p, ∃ f : RemoteEntry → Option (BitVec 128),
    sides'.remote p = (sides.remote p).map fun e => { e with contentMd5 := f e }

theorem SameButDigests.pair?_eq {sides' : Sides} (h : SameButDigests sides sides') :
    sides'.pair? p = sides.pair? p := by
  obtain ⟨f, hf⟩ := h.1 p
  obtain ⟨g, hg⟩ := h.2 p
  unfold Sides.pair?
  rw [hf, hg]
  cases sides.source p <;> cases sides.remote p <;> rfl

theorem SameButDigests.trans {a b c : Sides} (hab : SameButDigests a b) (hbc : SameButDigests b c) :
    SameButDigests a c := by
  refine ⟨fun p => ?_, fun p => ?_⟩
  · obtain ⟨f, hf⟩ := hab.1 p
    obtain ⟨g, hg⟩ := hbc.1 p
    exact ⟨fun e => g { e with contentMd5 := f e }, by rw [hg, hf, Option.map_map]; rfl⟩
  · obtain ⟨f, hf⟩ := hab.2 p
    obtain ⟨g, hg⟩ := hbc.2 p
    exact ⟨fun e => g { e with contentMd5 := f e }, by rw [hg, hf, Option.map_map]; rfl⟩

theorem SameButDigests.refl (sides : Sides) : SameButDigests sides sides :=
  ⟨fun _ => ⟨(·.contentMd5), Option.map_id'.symm⟩, fun _ => ⟨(·.contentMd5), Option.map_id'.symm⟩⟩

theorem sameButDigests_cleared (sides : Sides) : SameButDigests sides sides.cleared :=
  ⟨fun _ => ⟨fun _ => none, rfl⟩, fun _ => ⟨fun _ => none, rfl⟩⟩

theorem sameButDigests_computeLive (live : Live) (sides : Sides) (comparison : Comparison) :
    SameButDigests sides (computeLive live sides comparison) := by
  refine ⟨fun p => ⟨fun e => if e.kind = .file ∧ e.contentMd5 = none then live.source p
    else e.contentMd5, ?_⟩, fun p => ⟨fun e => if comparison.contains p ∧ e.kind = .file ∧
      e.contentMd5 = none then live.remote p else e.contentMd5, ?_⟩⟩
  · simp only [computeLive]
    congr 1
    funext e
    split <;> rfl
  · simp only [computeLive]
    congr 1
    funext e
    split <;> rfl

theorem sameButDigests_serve (cache : Cache) (slot : Slot) (sides : Sides)
    (comparison : Comparison) : SameButDigests sides (serve cache slot sides comparison).2.1 := by
  rcases (serve_cases cache slot sides comparison).2 with h | h | ⟨_, _, _, _, _, h⟩
  · rw [h]
    exact .refl sides
  · rw [h]
    exact sameButDigests_cleared sides
  · refine ⟨fun p => ?_, fun p => ?_⟩
    · rcases h p with ⟨h, _⟩ | ⟨r, _, rfl, md5s, hby⟩
      · exact h ▸ (SameButDigests.refl sides).1 p
      · exact ⟨fun _ => some md5s.1, hby.source⟩
    · rcases h p with ⟨_, h⟩ | ⟨r, _, rfl, md5s, hby⟩
      · exact h ▸ (SameButDigests.refl sides).2 p
      · exact ⟨fun _ => some md5s.2, hby.remote⟩

end Pairs

/-! ## What a pass computes -/

section Computed

variable {pass : Pass} {profile : CacheOptions} {w : World} {side : Side} {p : RelText}
  {d : BitVec 128}

theorem pair?_computed : (pass.computed profile w).pair? p = pass.sides.pair? p := by
  unfold Pass.computed
  rw [(sameButDigests_computeLive ..).pair?_eq]
  exact (sameButDigests_serve ..).pair?_eq

theorem pair?_populate : (pass.populate profile w).2.pair? p = pass.sides.pair? p := by
  unfold Pass.populate
  split
  · rw [(sameButDigests_computeLive ..).pair?_eq, (sameButDigests_cleared _).pair?_eq,
      pair?_computed]
  · exact pair?_computed

theorem digest_computeLive {live : Live} {sides : Sides} {comparison : Comparison}
    (h : sides.digest side p = some d) :
    (computeLive live sides comparison).digest side p = some d := by
  cases side with
  | source =>
    obtain ⟨e, he, hd⟩ := Option.bind_eq_some_iff.mp h
    simp [Sides.digest, computeLive, he, hd]
  | remote =>
    obtain ⟨e, he, hd⟩ := Option.bind_eq_some_iff.mp h
    simp [Sides.digest, computeLive, he, hd]

/-- A digest the pass has in the end was served, and then none was computed, or it is the one that
was computed. -/
theorem digest_populate (h : (pass.populate profile w).2.digest side p = some d) :
    ((pass.served profile w).2.1.digest side p = some d ∧ pass.computes profile w side p = none) ∨
      pass.computes profile w side p = some d := by
  unfold Pass.computes
  by_cases hmismatch : pass.mismatches profile w = true
  · right
    simp [hmismatch, h]
  · have hpopulate : (pass.populate profile w).2 = pass.computed profile w := by
      simp [Pass.populate, hmismatch]
    rw [hpopulate] at h
    cases hserved : (pass.served profile w).2.1.digest side p with
    | none =>
      right
      simp [hmismatch, h]
    | some d' =>
      left
      have heq : (pass.computed profile w).digest side p = some d' := digest_computeLive hserved
      rw [h] at heq
      cases heq
      simp [hmismatch]

/-- What is known after a pass of a pair it went over. -/
theorem known_over {identity : PairIdentity} (h : pass.sides.pair? p = some identity) :
    (pass.leaving profile w).known side p identity =
      (pass.computes profile w side p).or (w.known side p identity) := by
  simp [Pass.leaving, h]

theorem known_over_of_ne {identity : PairIdentity} (h : pass.sides.pair? p ≠ some identity) :
    (pass.leaving profile w).known side p identity = w.known side p identity := by
  simp [Pass.leaving, h]

theorem observed_eq_some {cache : Cache} {sides : Sides} {f : StoredEntry}
    (h : observed cache sides p = some f) : sides.pair? p = some f.pair ∧
      (∀ side, sides.digest side p = some f.localMd5) ∧ f.localMd5 = f.remoteMd5 ∧
      f.observedAt = cache.now := by
  unfold observed at h
  split at h
  · rename_i l r hl hr
    split at h
    · rename_i hkinds
      split at h
      · rename_i a b ha hb
        split at h
        · rename_i hagree
          cases h
          refine ⟨pair?_eq_some.mpr ⟨l, r, hl, hr, hkinds.1, hkinds.2, hagree.2, rfl⟩, ?_,
            hagree.1, rfl⟩
          intro side
          cases side with
          | source => simp [Sides.digest, hl, ha]
          | remote => simp [Sides.digest, hr, hb, hagree.1]
        · cases h
      · cases h
    · cases h
  · cases h

end Computed

/-! ## What the file is worth -/

/-- The digest of a pair is what was last computed live for it, on both sides. -/
def Backed (known : Side → RelText → PairIdentity → Option (BitVec 128)) (p : RelText)
    (e : StoredEntry) : Prop := ∀ side, known side p e.pair = some e.localMd5

/-- The file was written by passes, and its records are backed, but for those never served. -/
structure Sound (w : World) : Prop where
  file : ∀ stored, w.slot = .file stored → ∃ header, stored.header = some header ∧
    header.generatedAt ≤ w.clock ∧ ∀ r ∈ w.slot.records, r.t ≤ header.generatedAt
  entry : ∀ r ∈ w.slot.records, ∃ e : StoredEntry, r = e.toRecord r.p ∧ e.localMd5 = e.remoteMd5 ∧
    (r.isRacy r.t = false → Backed w.known r.p e)

theorem sound_new (clock : Int) : Sound (.new clock) :=
  ⟨(fun _ h => by cases h), (fun _ h => by cases h)⟩

section Step

variable {pass : Pass} {profile : CacheOptions} {w : World} {side : Side} {p : RelText}
  {d : BitVec 128}

theorem header_of_lines {cache : Cache} {slot : Slot} {header : Header} {lines : List Line}
    (h : slot.lines? cache = some (header, lines)) :
    ∃ stored, slot = .file stored ∧ stored.header = some header := by
  cases slot with
  | absent => cases h
  | unusable => cases h
  | file stored =>
    refine ⟨stored, rfl, ?_⟩
    simp only [Slot.lines?] at h
    obtain ⟨found, hfound, h⟩ := Option.bind_eq_some_iff.mp h
    split at h
    · cases h
    · cases h
      exact hfound

theorem Sound.served (h : Sound w) (hd : (pass.served profile w).2.1.digest side p = some d) :
    ∃ e : StoredEntry, pass.sides.pair? p = some e.pair ∧ d = e.localMd5 ∧ Backed w.known p e := by
  have hsupplies : Supplies (pass.cache profile w) w.slot pass.sides pass.comparison p := by
    cases side with
    | source => exact .inl ⟨pass.bare .source p, Option.isSome_iff_exists.mpr ⟨d, hd⟩⟩
    | remote => exact .inr ⟨pass.bare .remote p, Option.isSome_iff_exists.mpr ⟨d, hd⟩⟩
  obtain ⟨header, lines, hlines, _, _, r, hr, rfl, md5s, hby⟩ := exists_suppliedBy hsupplies
  have hmem := mem_records hlines hr
  obtain ⟨e, he, hagree, hbacked⟩ := h.entry r hmem
  obtain ⟨stored, hstored, hheader⟩ := header_of_lines hlines
  obtain ⟨header', hheader', _, htimes⟩ := h.file stored hstored
  rw [hheader] at hheader'
  cases hheader'
  have hracy : r.isRacy r.t = false := by
    have hjudged := (Bool.and_eq_true_iff.mp hby.judged).2
    simpa [Record.isRacy, min_eq_left (htimes r hmem)] using hjudged
  have hpair : pass.sides.pair? r.p = some e.pair :=
    describes_toRecord.mp (he ▸ hby.describes)
  have hdigests : some md5s = some (e.localMd5, e.remoteMd5) := by
    rw [← hby.digests, he]
    exact StoredEntry.digests_toRecord ..
  cases hdigests
  refine ⟨e, hpair, ?_, hbacked hracy⟩
  obtain ⟨l, m, hl, hm, _⟩ := pair?_eq_some.mp hpair
  have hsource := hby.source
  have hremote := hby.remote
  cases side with
  | source =>
    simp only [Sides.digest, Pass.served, hsource, hl] at hd
    exact (Option.some.inj hd).symm
  | remote =>
    simp only [Sides.digest, Pass.served, hremote, hm] at hd
    exact (Option.some.inj hd).symm.trans hagree.symm

theorem Sound.observed_backed (h : Sound w) {cache : Cache} {f : StoredEntry}
    (hf : observed cache (pass.populate profile w).2 p = some f) :
    Backed (pass.leaving profile w).known p f := by
  obtain ⟨hpair, hdigest, _, _⟩ := observed_eq_some hf
  rw [pair?_populate] at hpair
  intro side
  rw [known_over hpair]
  rcases digest_populate (hdigest side) with ⟨hserved, hnone⟩ | hcomputed
  · obtain ⟨e, hpair', hd, hbacked⟩ := h.served hserved
    rw [hpair] at hpair'
    rw [hnone, Option.none_or, Option.some.inj hpair', hd]
    exact hbacked side
  · rw [hcomputed, Option.some_or]

/-- A record the pass does not contradict stays backed. -/
theorem backed_of_not_contradicts {e : StoredEntry} (hagree : e.localMd5 = e.remoteMd5)
    (hbacked : Backed w.known p e) (hnot : ¬pass.Contradicts profile w (e.toRecord p)) :
    Backed (pass.leaving profile w).known p e := by
  intro side
  by_cases hpair : pass.sides.pair? p = some e.pair
  · rw [known_over hpair]
    cases hcomputes : pass.computes profile w side p with
    | none => exact (Option.none_or).trans (hbacked side)
    | some d =>
      rw [Option.some_or]
      by_contra hne
      refine hnot ⟨describes_toRecord.mpr hpair, ?_⟩
      cases side with
      | source =>
        refine .inl ⟨d, hcomputes, fun heq => hne ?_⟩
        rw [StoredEntry.toRecord, parseMd5_hex16] at heq
        exact heq.symm
      | remote =>
        refine .inr ⟨d, hcomputes, fun heq => hne ?_⟩
        rw [StoredEntry.toRecord, parseMd5_hex16] at heq
        rw [hagree]
        exact heq.symm
  · rw [known_over_of_ne hpair]
    exact hbacked side

/-- What is carried over is a record of the file, neither expired nor out of scope. -/
theorem exists_of_carryOver {cache : Cache} {slot : Slot} {sides : Sides} {isScoped : Bool}
    {c : StoredEntry} (h : (p, c) ∈ (carryOver cache slot sides isScoped).1) :
    ∃ r ∈ slot.records, (writerOf cache sides isScoped).taken r = some (p, c) := by
  cases hlines : slot.lines? cache with
  | none =>
    rw [carryOver_of_none hlines] at h
    cases h
  | some found =>
    obtain ⟨header, lines⟩ := found
    have hcarry : carryOver cache slot sides isScoped =
        (writerOf cache sides isScoped).upcomingFrom lines := by
      unfold carryOver
      rw [opened_eq, hlines]
      rfl
    rw [hcarry] at h
    obtain ⟨r, hr, htaken⟩ := List.mem_filterMap.mp h
    exact ⟨r, mem_records hlines ((List.takeWhile_sublist _).subset hr), htaken⟩

theorem not_expired_of_taken {c : CarriedRecords} {r : Record} {x : RelText × StoredEntry}
    (h : c.taken r = some x) : r.isExpired c.now c.expiry = false := by
  unfold CarriedRecords.taken at h
  split at h
  · rename_i hjudges
    simpa using (Bool.and_eq_true_iff.mp hjudges).1
  · cases h

theorem taken_toRecord {c : CarriedRecords} {e : StoredEntry} {x : RelText × StoredEntry}
    (h : c.taken (e.toRecord p) = some x) : x = (p, e) := by
  unfold CarriedRecords.taken at h
  split at h
  · rw [StoredEntry.digests_toRecord, Option.map_some] at h
    rw [← Option.some.inj h]
    simp [StoredEntry.toRecord, decodeIdentity_encodeIdentity]
  · cases h

theorem observedAt_of_taken {c : CarriedRecords} {r : Record} {x : RelText × StoredEntry}
    (h : c.taken r = some x) : x.2.observedAt = r.t := by
  unfold CarriedRecords.taken at h
  split at h
  · obtain ⟨md5s, _, rfl⟩ := Option.map_eq_some_iff.mp h
    rfl
  · cases h

theorem le_of_not_expired {r : Record} {now expiry : Int} (h : r.isExpired now expiry = false) :
    r.t ≤ now := by
  simp only [Record.isExpired, Bool.or_eq_false_iff, decide_eq_false_iff_not, not_lt] at h
  exact h.1

theorem value?_observationStream {cache : Cache} {sides : Sides} {comparison : Comparison}
    {f : StoredEntry} :
    value? (observationStream cache sides comparison) p = some f ↔
      comparison.contains p = true ∧ observed cache sides p = some f := by
  rw [← (sorted_observationStream cache sides comparison).mem_iff]
  simp only [observationStream, List.mem_filterMap, Option.map_eq_some_iff, Comparison.contains,
    List.any_eq_true, decide_eq_true_eq]
  constructor
  · rintro ⟨q, hq, g, hg, heq⟩
    cases heq
    exact ⟨⟨p, hq, rfl⟩, hg⟩
  · rintro ⟨⟨q, hq, rfl⟩, hf⟩
    exact ⟨q, hq, f, hf, rfl⟩

theorem observed_of_dated {f : StoredEntry} (c : StoredEntry) :
    ∃ t, dated f c = { f with observedAt := t } ∧ (t = f.observedAt ∨ t = c.observedAt) := by
  unfold dated
  split
  · exact ⟨c.observedAt, rfl, .inr rfl⟩
  · exact ⟨f.observedAt, rfl, .inl rfl⟩

/-- A pair this pass saw agree, dated then or before. -/
def WrittenFresh (pass : Pass) (profile : CacheOptions) (w : World) (r : Record) : Prop :=
  ∃ f t, observed (pass.cache profile w) (pass.populate profile w).2 r.p = some f ∧
    t ≤ pass.now w ∧ r = ({ f with observedAt := t } : StoredEntry).toRecord r.p

/-- A record kept from the file the pass found. -/
def Left (pass : Pass) (profile : CacheOptions) (w : World) (r : Record) : Prop :=
  r ∈ w.slot.records ∧ ¬pass.GetsRidOf profile w r ∧ (pass.stores = true → r.t ≤ pass.now w)

theorem writtenFresh_of_observed {f : StoredEntry}
    (h : observed (pass.cache profile w) (pass.populate profile w).2 p = some f) :
    WrittenFresh pass profile w (f.toRecord p) :=
  ⟨f, f.observedAt, h, (observed_eq_some h).2.2.2.le, rfl⟩

theorem records_of_merge (h : Sound w) {x : RelText × StoredEntry}
    (hx : x ∈ (merged
      (observationStream (pass.cache profile w) (pass.populate profile w).2 pass.comparison)
      (carryOver (pass.cache profile w) (pass.populate profile w).1 (pass.populate profile w).2
        pass.isScoped).1).take entryLimit) :
    WrittenFresh pass profile w (x.2.toRecord x.1) ∨ Left pass profile w (x.2.toRecord x.1) := by
  obtain ⟨p, e⟩ := x
  obtain ⟨hvalue, hlimit⟩ := (mem_take_merged (sorted_observationStream ..)
    (sorted_carryOver ..)).mp hx
  cases hfresh : value? (observationStream (pass.cache profile w) (pass.populate profile w).2
      pass.comparison) p with
  | some f =>
    left
    have hobserved := (value?_observationStream.mp hfresh).2
    rw [hfresh] at hvalue
    cases hcarried : value? (carryOver (pass.cache profile w) (pass.populate profile w).1
        (pass.populate profile w).2 pass.isScoped).1 p with
    | none =>
      rw [hcarried] at hvalue
      cases hvalue
      exact writtenFresh_of_observed hobserved
    | some c =>
      rw [hcarried] at hvalue
      have hvalue : dated f c = e := Option.some.inj hvalue
      obtain ⟨t, hdated, ht⟩ := observed_of_dated (f := f) c
      refine ⟨f, t, hobserved, ?_, by rw [← hvalue, hdated]; rfl⟩
      rcases ht with rfl | rfl
      · exact (observed_eq_some hobserved).2.2.2.le
      · obtain ⟨r, _, htaken⟩ := exists_of_carryOver (SortedMerge.mem_of_value? hcarried)
        exact (observedAt_of_taken htaken).trans_le
          (le_of_not_expired (not_expired_of_taken htaken))
  | none =>
    right
    rw [hfresh, SortedMerge.both_none_left] at hvalue
    obtain ⟨r, hr, htaken⟩ := exists_of_carryOver (SortedMerge.mem_of_value? hvalue)
    by_cases hmismatch : pass.mismatches profile w = true
    · simp [Pass.populate, hmismatch, Slot.records] at hr
    · have hpopulate : pass.populate profile w = (w.slot, pass.computed profile w) := by
        simp [Pass.populate, hmismatch]
      rw [hpopulate] at hr hfresh hlimit htaken
      obtain ⟨e', he, _, _⟩ := h.entry r hr
      have hunexpired := not_expired_of_taken htaken
      rw [he] at htaken
      cases taken_toRecord htaken
      refine ⟨he ▸ hr, ?_, fun _ => he ▸ le_of_not_expired hunexpired⟩
      rintro (hdiscards | ⟨_, hexpired | ⟨hin, hobserved⟩ | hfull⟩)
      · exact hmismatch hdiscards
      · rw [← he] at hexpired
        exact absurd (hunexpired.symm.trans hexpired) (by decide)
      · obtain ⟨f, hf⟩ := Option.isSome_iff_exists.mp hobserved
        exact Option.some_ne_none f ((value?_observationStream.mpr ⟨hin, hf⟩).symm.trans hfresh)
      · exact absurd hlimit (not_lt.mpr hfull)

/-- A pass that does not store leaves the file, or discards it. -/
theorem slot_leaving (hstores : ¬pass.stores = true) : (pass.leaving profile w).slot =
    if pass.mismatches profile w = true then .absent else w.slot := by
  have hslot : (pass.leaving profile w).slot = (pass.populate profile w).1 := by
    simp [Pass.leaving, hstores]
  rw [hslot]
  unfold Pass.populate
  split <;> rfl

theorem header_over (hstores : pass.stores = true) {stored : Stored}
    (h : (pass.leaving profile w).slot = .file stored) :
    ∃ header, stored.header = some header ∧ header.generatedAt = pass.now w := by
  obtain ⟨⟨n, hn⟩, _⟩ := serve_cases (pass.cache profile w) w.slot pass.sides pass.comparison
  have hcache : (pass.served profile w).2.2 = { pass.cache profile w with canaryAt := n } := hn
  obtain ⟨m, _, _, hstore⟩ := store_eq { pass.cache profile w with canaryAt := n }
    (pass.populate profile w).1 (pass.populate profile w).2 pass.comparison pass.isScoped
  simp only [Pass.leaving, hstores, if_true, hcache, hstore, Cache.fileOf] at h
  cases h
  exact ⟨_, rfl, rfl⟩

theorem records_leaving (h : Sound w) {r : Record} (hr : r ∈ (pass.leaving profile w).slot.records) :
    (pass.stores = true ∧ WrittenFresh pass profile w r) ∨ Left pass profile w r := by
  by_cases hstores : pass.stores = true
  · obtain ⟨⟨n, hn⟩, _⟩ := serve_cases (pass.cache profile w) w.slot pass.sides pass.comparison
    have hcache : (pass.served profile w).2.2 = { pass.cache profile w with canaryAt := n } := hn
    obtain ⟨m, _, ho, hstore⟩ := store_eq { pass.cache profile w with canaryAt := n }
      (pass.populate profile w).1 (pass.populate profile w).2 pass.comparison pass.isScoped
    simp only [Pass.leaving, hstores, if_true, hcache, hstore, records_fileOf] at hr
    rcases ho with ⟨_, _, rfl⟩ | ⟨_, rfl⟩
    · obtain ⟨x, hx, rfl⟩ := List.mem_map.mp hr
      have hvalue := (sorted_observationStream ..).value?_of_mem (List.mem_of_mem_take hx)
      exact .inl ⟨hstores, writtenFresh_of_observed (value?_observationStream.mp hvalue).2⟩
    · simp only [List.nil_append, List.length_nil, Nat.sub_zero] at hr
      obtain ⟨x, hx, rfl⟩ := List.mem_map.mp hr
      exact (records_of_merge h hx).imp_left fun hfresh => ⟨hstores, hfresh⟩
  · right
    rw [slot_leaving hstores] at hr
    split at hr
    · cases hr
    · rename_i hmismatch
      exact ⟨hr, fun hrid => hrid.elim hmismatch fun h => hstores h.1, fun h => absurd h hstores⟩

/-- A record left is not contradicted, unless it is never served. -/
theorem not_contradicts_of_left {r : Record} (hsettles : pass.Settles profile w)
    (hleft : Left pass profile w r)
    (hserved : r.isRacy r.t = false ∨ pass.refresh = true ∧ pass.stores = true) :
    ¬pass.Contradicts profile w r :=
  fun hcontradicts => hleft.2.1 (hsettles r hleft.1 hserved hcontradicts)

theorem Sound.leaving (h : Sound w) (hsettles : pass.Settles profile w) :
    Sound (pass.leaving profile w) := by
  have hclock : w.clock ≤ pass.now w := Int.le_add_of_nonneg_right (Int.natCast_nonneg _)
  refine ⟨fun stored hstored => ?_, fun r hr => ?_⟩
  · by_cases hstores : pass.stores = true
    · obtain ⟨header, hheader, htime⟩ := header_over hstores hstored
      refine ⟨header, hheader, htime.le, fun r hr => ?_⟩
      rw [htime]
      rcases records_leaving h hr with ⟨_, f, t, _, hle, hr'⟩ | hleft
      · rw [hr']
        exact hle
      · exact hleft.2.2 hstores
    · rw [slot_leaving hstores] at hstored
      rw [slot_leaving hstores]
      split at hstored
      · cases hstored
      · rename_i hmismatch
        rw [if_neg hmismatch]
        obtain ⟨header, hheader, htime, htimes⟩ := h.file stored hstored
        exact ⟨header, hheader, htime.trans hclock, htimes⟩
  · rcases records_leaving h hr with ⟨_, f, t, hf, _, hr'⟩ | hleft
    · have hbacked := h.observed_backed hf
      refine ⟨_, hr', (observed_eq_some hf).2.2.1, fun _ => hbacked⟩
    · obtain ⟨e, he, hagree, hbacked⟩ := h.entry r hleft.1
      refine ⟨e, he, hagree, fun hracy => backed_of_not_contradicts hagree (hbacked hracy) ?_⟩
      rw [← he]
      exact not_contradicts_of_left hsettles hleft (.inl hracy)

theorem digest_of_computes (h : pass.computes profile w side p = some d) {d' : BitVec 128}
    (h' : (pass.populate profile w).2.digest side p = some d') : d = d' := by
  rcases digest_populate h' with ⟨_, hnone⟩ | hsome
  · rw [hnone] at h
    cases h
  · exact Option.some.inj (h.symm.trans hsome)

/-- In a sound file a pass is served what was last computed, and if it settles what it contradicts,
a pair a refresh finds different is not left. -/
theorem Sound.honest (h : Sound w) (hsettles : pass.Settles profile w) : pass.Honest profile w := by
  refine ⟨fun side p d hd => ?_, fun hrefresh hstores p l r _ hl hr hne record hrecord hp => ?_⟩
  · obtain ⟨e, hpair, rfl, hbacked⟩ := h.served hd
    exact ⟨e.pair, hpair, hbacked side⟩
  · subst hp
    rcases records_leaving h hrecord with ⟨_, f, t, hf, _, _⟩ | hleft
    · obtain ⟨_, hdigest, _, _⟩ := observed_eq_some hf
      exact absurd ((digest_of_computes hl (hdigest .source)).trans
        (digest_of_computes hr (hdigest .remote)).symm) hne
    · refine Bool.eq_false_iff.mpr fun hdescribes => ?_
      obtain ⟨e, he, hagree, _⟩ := h.entry record hleft.1
      refine not_contradicts_of_left hsettles hleft (.inr ⟨hrefresh, hstores⟩) ⟨hdescribes, ?_⟩
      have hlocal : parseMd5 record.lmd5 = some e.localMd5 := by
        rw [he]
        exact parseMd5_hex16 _
      have hremote : parseMd5 record.rmd5 = some e.remoteMd5 := by
        rw [he]
        exact parseMd5_hex16 _
      by_cases heq : l = e.localMd5
      · refine .inr ⟨r, hr, fun hr' => hne ?_⟩
        rw [heq, hagree]
        exact Option.some.inj (hremote.symm.trans hr')
      · exact .inl ⟨l, hl, fun hl' => heq (Option.some.inj (hl'.symm.trans hlocal))⟩

end Step

/-- In every run whose passes settle what they contradict, what is served is what was last computed
live, and a refresh removes the record of a pair it finds different. -/
theorem run_honest (profile : CacheOptions) (clock : Int) (passes : List Pass)
    (h : EachStep (After profile) (fun pass w => pass.Settles profile w) passes (.new clock)) :
    EachStep (After profile) (fun pass w => pass.Honest profile w) passes (.new clock) :=
  eachStep_of (fun _ _ _ hstep hsound hsettles => hstep ▸ hsound.leaving hsettles)
    (fun _ _ hsound hsettles => hsound.honest hsettles) (sound_new clock) h

/-! A refresh finds one side of a recorded pair changed under the same metadata. -/

namespace Refreshed

def profile : CacheOptions where
  binary := "1.0.0".toList
  platform := "linux".toList
  profile := "home".toList
  source := "/src".toList
  remote := "/home".toList
  compare := "content".toList
  refresh := false
  maxAgeSeconds := 14 * 24 * 60 * 60
  canary := 25

def sides : Sides where
  source p := if p = "a".toList then some ⟨.file, 1, 0, ⟨1, 2⟩, none⟩ else none
  remote p := if p = "a".toList then some ⟨.file, 1, 0, none⟩ else none

theorem bare_sides : sides.Bare := by
  intro side p
  by_cases h : p = "a".toList <;> cases side <;> simp [Sides.digest, sides, h]

def pass (refresh : Bool) (md5 : BitVec 128) : Pass where
  waited := 60
  refresh := refresh
  maxAgeSeconds := 14 * 24 * 60 * 60
  canary := 0
  isScoped := false
  sides := sides
  bare := bare_sides
  comparison := ⟨["a".toList], List.pairwise_singleton ..⟩
  live := ⟨fun _ => some md5, fun _ => some 7⟩
  again := ⟨fun _ => none, fun _ => none⟩
  completed := true
  cancelled := false

def first : World := (pass false 7).leaving profile (.new 1000000)

def second : World := (pass true 8).leaving profile first

/-- The record the first pass writes. -/
def kept : Record :=
  (⟨1, 0, ⟨1, 2⟩, 7, 0, 7, 1000060⟩ : StoredEntry).toRecord "a".toList

/-- The record of the first pass is left by the second, and served to the third. -/
theorem not_honest : ¬∀ (profile : CacheOptions) (clock : Int) (passes : List Pass),
    EachStep (After profile) (fun pass w => pass.Honest profile w) passes (.new clock) := by
  intro h
  have hthird := ((h profile 1000000 [pass false 7, pass true 8, pass false 9]) _ rfl).2 _ rfl
  obtain ⟨identity, hpair, hknown⟩ := (hthird.2 _ rfl).1.served .source "a".toList 7
    (by decide +kernel)
  have hlast : second.known .source "a".toList ⟨1, 0, ⟨1, 2⟩, 0⟩ = some 8 := by decide +kernel
  have hidentity : identity = ⟨1, 0, ⟨1, 2⟩, 0⟩ := by
    have : sides.pair? "a".toList = some ⟨1, 0, ⟨1, 2⟩, 0⟩ := by decide +kernel
    exact Option.some.inj (hpair.symm.trans this)
  rw [hidentity] at hknown
  exact absurd (hlast.symm.trans hknown) (by decide)

theorem settles_of_kept {pass : Pass} {w : World} (h : w.slot.records = [kept])
    (hcomputes : ∀ side, pass.computes profile w side "a".toList = none ∨
      pass.computes profile w side "a".toList = some 7) : pass.Settles profile w := by
  intro r hr _ hcontradicts
  rw [h] at hr
  cases List.mem_singleton.mp hr
  have hmd5s : parseMd5 kept.lmd5 = some 7 ∧ parseMd5 kept.rmd5 = some 7 := by decide +kernel
  rcases hcontradicts.2 with ⟨d, hd, hne⟩ | ⟨d, hd, hne⟩
  · rcases hcomputes .source with hnone | hsome
    · exact absurd (hnone.symm.trans hd) (by simp)
    · exact absurd (hmd5s.1.trans (hsome.symm.trans hd)) hne
  · rcases hcomputes .remote with hnone | hsome
    · exact absurd (hnone.symm.trans hd) (by simp)
    · exact absurd (hmd5s.2.trans (hsome.symm.trans hd)) hne

/-- A pass that is served, and a refresh that finds the pair as it was. -/
theorem honest_unchanged : EachStep (After profile) (fun pass w => pass.Honest profile w)
    [pass false 7, pass false 9, pass true 7] (.new 1000000) := by
  refine run_honest profile 1000000 _ ?_
  rintro _ rfl
  refine ⟨(fun r hr => by cases hr), ?_⟩
  rintro _ rfl
  refine ⟨settles_of_kept (by decide +kernel) fun side => ?_, ?_⟩
  · cases side <;> decide +kernel
  · rintro _ rfl
    refine ⟨settles_of_kept (by decide +kernel) fun side => ?_, trivial⟩
    cases side <;> decide +kernel

end Refreshed

end StatusCache
end DriveSync
