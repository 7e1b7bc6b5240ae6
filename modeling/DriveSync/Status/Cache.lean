import Mathlib.Data.Char
import Mathlib.Data.List.Lex
import DriveSync.Inventory
import DriveSync.Lib.Fuel
import DriveSync.Plan.Ticket

/-!
# DriveSync.Status.Cache

The digests a status pass keeps for the next one. A file holds a header and one record a line, in
ascending order of path, and ends with a sentinel. `readInto` serves a pass from it; `store` writes
the pairs the pass saw agree, merged with the records it carries forward. Each reads the file on its
own, one line at a time.
-/

namespace DriveSync
namespace StatusCache

abbrev RelText := List Char

/-- What `i64` arithmetic that saturates makes of a number. -/
def saturate (x : Int) : Int := max (-9223372036854775808) (min 9223372036854775807 x)

/-! ## The fields of a record -/

structure FileIdentity where
  device : UInt64
  inode : UInt64
deriving DecidableEq, Repr

def encodeIdentity (identity : FileIdentity) : List Char :=
  Nat.toDigits 10 identity.device.toNat ++ ':' :: Nat.toDigits 10 identity.inode.toNat

/-- `str::parse::<u64>`. -/
def parseU64 (text : List Char) : Option UInt64 :=
  let digits := if text.head? = some '+' then text.tail else text
  if digits.isEmpty || !digits.all Char.isDigit then none
  else
    let n := Nat.ofDigitChars 10 digits 0
    if n < UInt64.size then some (UInt64.ofNat n) else none

def decodeIdentity (value : List Char) : FileIdentity :=
  let device := parseU64 (value.takeWhile (· != ':'))
  let inode := match value.dropWhile (· != ':') with
    | [] => none
    | _ :: rest => parseU64 rest
  match device, inode with
  | some device, some inode => ⟨device, inode⟩
  | _, _ => ⟨0, 0⟩

/-- `char::to_digit(16)`. -/
def hexValue (c : Char) : Option Nat :=
  if '0' ≤ c ∧ c ≤ '9' then some (c.toNat - '0'.toNat)
  else if 'a' ≤ c ∧ c ≤ 'f' then some (c.toNat - 'a'.toNat + 10)
  else if 'A' ≤ c ∧ c ≤ 'F' then some (c.toNat - 'A'.toNat + 10)
  else none

def hex16 (md5 : BitVec 128) : List Char := hexEncode 32 md5.toNat

def parseMd5 (value : List Char) : Option (BitVec 128) :=
  if value.length = 32 then
    (value.foldlM (fun n c => (hexValue c).map (16 * n + ·)) 0).map (BitVec.ofNat 128)
  else none

theorem isDigit_of_mem {n : Nat} {c : Char} (h : c ∈ Nat.toDigits 10 n) : c.isDigit = true :=
  Nat.isDigit_of_mem_toDigits (by omega) (by omega) h

theorem ne_of_isDigit {c : Char} (h : c.isDigit = true) : c ≠ ':' ∧ c ≠ '+' := by
  constructor <;> rintro rfl <;> cases h

theorem parseU64_toDigits (n : UInt64) : parseU64 (Nat.toDigits 10 n.toNat) = some n := by
  have hplus : (Nat.toDigits 10 n.toNat).head? ≠ some '+' := by
    intro h
    exact (ne_of_isDigit (isDigit_of_mem (List.mem_of_mem_head? h))).2 rfl
  have hdigits : (Nat.toDigits 10 n.toNat).all Char.isDigit = true :=
    List.all_eq_true.mpr fun c hc => isDigit_of_mem hc
  have hnil : (Nat.toDigits 10 n.toNat).isEmpty = false :=
    List.isEmpty_eq_false_iff.mpr Nat.toDigits_ne_nil
  unfold parseU64
  simp only [hplus, if_false, hdigits, hnil, Nat.ofDigitChars_ten_toDigits, Bool.not_true,
    Bool.or_false, Bool.false_eq_true]
  rw [if_pos n.toNat_lt_size, UInt64.ofNat_toNat]

/-- A stored identity is read back as it was. -/
theorem decodeIdentity_encodeIdentity (identity : FileIdentity) :
    decodeIdentity (encodeIdentity identity) = identity := by
  have hcolon : ∀ c ∈ Nat.toDigits 10 identity.device.toNat, (c != ':') = true := fun c hc =>
    bne_iff_ne.mpr (ne_of_isDigit (isDigit_of_mem hc)).1
  unfold decodeIdentity encodeIdentity
  rw [List.takeWhile_append_of_pos hcolon, List.dropWhile_append_of_pos hcolon]
  simp [parseU64_toDigits]

theorem hexValue_hexDigit {n : Nat} (h : n < 16) : hexValue (hexDigit n) = some n := by
  have key : ∀ n < 16, hexValue (hexDigit n) = some n := by decide
  exact key n h

theorem foldlM_hexEncode (width n : Nat) : ∀ start, (hexEncode width n).foldlM
    (fun n c => (hexValue c).map (16 * n + ·)) start =
      some (start * 16 ^ width + n % 16 ^ width) := by
  induction width generalizing n with
  | zero => intro start; simp [hexEncode, Nat.mod_one]
  | succ width ih =>
    intro start
    have hdigit : hexDigit n = hexDigit (n % 16) := by simp [hexDigit]
    rw [hexEncode, List.foldlM_append, ih, hdigit]
    simp only [Option.bind_eq_bind, Option.bind_some, List.foldlM_cons, List.foldlM_nil,
      hexValue_hexDigit (Nat.mod_lt n (by omega)), Option.map_some]
    have hmod : n % 16 ^ (width + 1) = 16 * (n / 16 % 16 ^ width) + n % 16 := by
      rw [Nat.pow_succ, Nat.mul_comm (16 ^ width), Nat.mod_mul, Nat.add_comm]
    have hmul : start * 16 ^ (width + 1) = 16 * (start * 16 ^ width) := by
      rw [Nat.pow_succ, ← Nat.mul_assoc, Nat.mul_comm]
    show some _ = some _
    rw [hmod, hmul]
    congr 1
    omega

/-- A stored digest is read back as it was. -/
theorem parseMd5_hex16 (md5 : BitVec 128) : parseMd5 (hex16 md5) = some md5 := by
  unfold parseMd5 hex16
  rw [if_pos (length_hexEncode 32 _), foldlM_hexEncode, Nat.zero_mul, Nat.zero_add,
    Nat.mod_eq_of_lt (by have := md5.isLt; omega)]
  simp

/-! ## The file -/

/-- One record, as stored. -/
structure Record where
  p : RelText
  s : Nat
  m : Int
  n : List Char
  lmd5 : List Char
  rm : Int
  rmd5 : List Char
  t : Int
deriving DecidableEq, Repr

structure Header where
  schema : List Char
  digestStrength : List Char
  binary : List Char
  platform : List Char
  profile : List Char
  source : List Char
  remote : List Char
  compare : List Char
  generatedAt : Int
  entries : Nat
  canaryAt : Int
deriving DecidableEq, Repr

/-- What reading a line comes to: an error, the sentinel, a record, or text that is none. -/
inductive Line where
  | unreadable
  | sentinel
  | record (record : Record)
  | unparseable
deriving DecidableEq, Repr

/-- A file that opens; its first line may be no header. -/
structure Stored where
  header : Option Header
  lines : List Line
deriving DecidableEq, Repr

/-- What the cache file's path holds, as `open_validated` finds it. -/
inductive Slot where
  | absent
  | unusable
  | file (stored : Stored)
deriving DecidableEq, Repr

/-- Why a file is not trusted. -/
inductive Corrupt where
  | header
  | unreadable
  | unparseable
  | outOfOrder (path : RelText)
  | malformedDigest (path : RelText)
  | truncated
deriving DecidableEq, Repr

/-! ## A pass -/

structure LocalEntry where
  kind : EntryKind
  size : Nat
  mtimeMs : Int
  identity : FileIdentity
  contentMd5 : Option (BitVec 128)
deriving DecidableEq, Repr

structure RemoteEntry where
  kind : EntryKind
  size : Nat
  mtimeSeconds : Int
  contentMd5 : Option (BitVec 128)
deriving DecidableEq, Repr

/-- The entries of the two inventories, by relative path. -/
structure Sides where
  source : RelText → Option LocalEntry
  remote : RelText → Option RemoteEntry

namespace Sides

def supplySource (sides : Sides) (p : RelText) (md5 : BitVec 128) : Sides :=
  { sides with source := fun q => (sides.source q).map fun e =>
      if q = p then { e with contentMd5 := some md5 } else e }

def supplyRemote (sides : Sides) (p : RelText) (md5 : BitVec 128) : Sides :=
  { sides with remote := fun q => (sides.remote q).map fun e =>
      if q = p then { e with contentMd5 := some md5 } else e }

/-- Both inventories without a digest. -/
def cleared (sides : Sides) : Sides :=
  ⟨fun q => (sides.source q).map fun e => { e with contentMd5 := none },
    fun q => (sides.remote q).map fun e => { e with contentMd5 := none }⟩

end Sides

/-- The paths a pass compares, in ascending order. -/
structure Comparison where
  paths : List RelText
  sorted : paths.Pairwise (· < ·)

def Comparison.contains (comparison : Comparison) (p : RelText) : Bool :=
  comparison.paths.any fun q => decide (q = p)

/-- What a pass is asked, and the build and platform it is asked on. -/
structure CacheOptions where
  binary : List Char
  platform : List Char
  profile : List Char
  source : List Char
  remote : List Char
  compare : List Char
  refresh : Bool
  maxAgeSeconds : Int
  canary : Nat
deriving DecidableEq, Repr

structure Cache where
  options : CacheOptions
  now : Int
  canaryAt : Int
deriving DecidableEq, Repr

structure CanaryProbe where
  relative : RelText
  cachedLocal : BitVec 128
  cachedRemote : BitVec 128
deriving DecidableEq, Repr

structure Served where
  supplied : Nat
  probes : List CanaryProbe
  oldestEvidenceEpoch : Option Int
deriving DecidableEq, Repr

def schema : List Char := "sdsync.status-cache.v1".toList

def digestStrength : List Char := "md5-only".toList

def entryLimit : Nat := 20000

def canaryIntervalSeconds : Int := 24 * 60 * 60

def racyWindowSeconds : Int := 1

/-- The first field in which a header describes another query, if there is one. -/
def headerMismatch (cache : Cache) (header : Header) : Option String :=
  let options := cache.options
  if header.schema ≠ schema then some "schema"
  else if header.digestStrength ≠ digestStrength then some "digest strength"
  else if header.binary ≠ options.binary then some "package version"
  else if header.platform ≠ options.platform then some "platform"
  else if header.profile ≠ options.profile then some "profile"
  else if header.source ≠ options.source then some "source"
  else if header.remote ≠ options.remote then some "destination"
  else if header.compare ≠ options.compare then some "compare mode"
  else if header.generatedAt > cache.now then some "write time (in the future)"
  else none

def Cache.expiry (cache : Cache) : Int := saturate (cache.now - cache.options.maxAgeSeconds)

namespace Record

def isExpired (r : Record) (now expiry : Int) : Bool := r.t > now || r.t < expiry

/-- Modified too close to when it was observed for its metadata to tell. -/
def isRacy (r : Record) (generatedAt : Int) : Bool :=
  r.m ≥ saturate (saturate (min r.t generatedAt - racyWindowSeconds) * 1000)

def digests (r : Record) : Option (BitVec 128 × BitVec 128) :=
  match parseMd5 r.lmd5, parseMd5 r.rmd5 with
  | some localMd5, some remoteMd5 => some (localMd5, remoteMd5)
  | _, _ => none

def describesLocal (r : Record) (e : LocalEntry) : Bool :=
  e.kind = .file && e.size = r.s && e.mtimeMs = r.m && encodeIdentity e.identity = r.n

def describesRemote (r : Record) (e : RemoteEntry) : Bool :=
  e.kind = .file && e.size = r.s && e.mtimeSeconds = r.rm

/-- The entries under a record's path are the ones it was observed of. -/
def describes (r : Record) (sides : Sides) : Bool :=
  (sides.source r.p).any r.describesLocal && (sides.remote r.p).any r.describesRemote

end Record

/-- Not strictly after the previous path. -/
def outOfOrder (previous : Option RelText) (p : RelText) : Bool :=
  previous.any fun last => !decide (last < p)

/-! ## Serving -/

/-- Spacing and start of the sample held back from a pass; no spacing, no sample. -/
structure Audit where
  stride : Nat
  offset : Nat
deriving DecidableEq, Repr

def canaryStride (entries canary : Nat) : Nat :=
  if canary = 0 then 0 else max ((max entries 1 + canary - 1) / canary) 1

def Cache.auditDue (cache : Cache) (header : Header) : Bool :=
  saturate (cache.now - header.canaryAt) ≥ canaryIntervalSeconds

def Cache.audit (cache : Cache) (header : Header) : Audit :=
  let stride := if cache.auditDue header then canaryStride header.entries cache.options.canary else 0
  ⟨stride, if stride = 0 then 0 else (header.generatedAt % stride).toNat⟩

/-- How far a file has been read. -/
structure Reading where
  served : Served
  sides : Sides
  previous : Option RelText
  eligible : Nat

/-- A record that describes the entries under its path: withheld as a probe, or served. -/
def Reading.supply (st : Reading) (audit : Audit) (canary : Nat) (r : Record)
    (localMd5 remoteMd5 : BitVec 128) : Reading :=
  if audit.stride > 0 && st.eligible % audit.stride == audit.offset
      && decide (st.served.probes.length < canary) then
    { st with
      served := { st.served with probes := st.served.probes ++ [⟨r.p, localMd5, remoteMd5⟩] }
      eligible := st.eligible + 1 }
  else
    { st with
      served := { st.served with
        supplied := st.served.supplied + 1
        oldestEvidenceEpoch := some
          (st.served.oldestEvidenceEpoch.elim r.t fun oldest => min oldest r.t) }
      sides := (st.sides.supplySource r.p localMd5).supplyRemote r.p remoteMd5
      eligible := st.eligible + 1 }

def readRecord (cache : Cache) (header : Header) (comparison : Comparison) (st : Reading)
    (r : Record) : Except Corrupt Reading :=
  if outOfOrder st.previous r.p then .error (.outOfOrder r.p)
  else
    let st := { st with previous := some r.p }
    if r.isExpired cache.now cache.expiry then .ok st
    else if r.isRacy header.generatedAt then .ok st
    else
      match r.digests with
      | none => .error (.malformedDigest r.p)
      | some (localMd5, remoteMd5) =>
        if comparison.contains r.p && r.describes st.sides then
          .ok (st.supply (cache.audit header) cache.options.canary r localMd5 remoteMd5)
        else .ok st

def readLines (cache : Cache) (header : Header) (comparison : Comparison) :
    List Line → Reading → Except Corrupt Reading
  | [], _ => .error .truncated
  | .unreadable :: _, _ => .error .unreadable
  | .sentinel :: _, st => .ok st
  | .unparseable :: _, _ => .error .unparseable
  | .record r :: lines, st => do
    let st ← readRecord cache header comparison st r
    readLines cache header comparison lines st

/-- Whether a file may be trusted, and what of it was served. -/
def readInto (cache : Cache) (slot : Slot) (sides : Sides) (comparison : Comparison) :
    Except Corrupt (Served × Sides × Cache) :=
  if cache.options.refresh || comparison.paths.isEmpty then .ok (⟨0, [], none⟩, sides, cache)
  else
    match slot with
    | .absent | .unusable => .ok (⟨0, [], none⟩, sides, cache)
    | .file stored =>
      match stored.header with
      | none => .error .header
      | some header =>
        if (headerMismatch cache header).isSome then .ok (⟨0, [], none⟩, sides, cache)
        else do
          let st ← readLines cache header comparison stored.lines
            ⟨⟨0, [], none⟩, sides, none, 0⟩
          pure (st.served, st.sides,
            { cache with canaryAt := if cache.auditDue header then cache.now else header.canaryAt })

/-- Digests from stored evidence. Of a file that is not trusted, nothing is left. -/
def serve (cache : Cache) (slot : Slot) (sides : Sides) (comparison : Comparison) :
    Served × Sides × Cache :=
  match readInto cache slot sides comparison with
  | .ok result => result
  | .error _ => (⟨0, [], none⟩, sides.cleared, cache)

/-- The digests a pass computes of what it reads live. -/
structure Live where
  source : RelText → Option (BitVec 128)
  remote : RelText → Option (BitVec 128)

/-- `compute_live`: every local file, and every remote file to compare, that has no digest yet. -/
def computeLive (live : Live) (sides : Sides) (comparison : Comparison) : Sides where
  source p := (sides.source p).map fun e =>
    if e.kind = .file ∧ e.contentMd5 = none then { e with contentMd5 := live.source p } else e
  remote p := (sides.remote p).map fun e =>
    if comparison.contains p ∧ e.kind = .file ∧ e.contentMd5 = none then
      { e with contentMd5 := live.remote p } else e

/-- The first probe whose live digests are not the stored ones. -/
def verifyCanary (probes : List CanaryProbe) (sides : Sides) : Option RelText :=
  (probes.find? fun probe =>
    ((sides.source probe.relative).bind (·.contentMd5)).any (· != probe.cachedLocal) ||
      ((sides.remote probe.relative).bind (·.contentMd5)).any (· != probe.cachedRemote)).map
    (·.relative)

/-! ## Writing -/

structure StoredEntry where
  size : Nat
  mtimeMs : Int
  identity : FileIdentity
  localMd5 : BitVec 128
  remoteMtimeSeconds : Int
  remoteMd5 : BitVec 128
  observedAt : Int
deriving DecidableEq, Repr

namespace StoredEntry

/-- The same evidence, whenever it was observed. -/
def isSameEvidenceAs (e other : StoredEntry) : Bool :=
  e.size = other.size && e.mtimeMs = other.mtimeMs && e.identity = other.identity &&
    e.localMd5 = other.localMd5 && e.remoteMtimeSeconds = other.remoteMtimeSeconds &&
    e.remoteMd5 = other.remoteMd5

def toRecord (p : RelText) (e : StoredEntry) : Record where
  p := p
  s := e.size
  m := e.mtimeMs
  n := encodeIdentity e.identity
  lmd5 := hex16 e.localMd5
  rm := e.remoteMtimeSeconds
  rmd5 := hex16 e.remoteMd5
  t := e.observedAt

end StoredEntry

/-- The pair under a path, where this pass saw its digests agree. -/
def observed (cache : Cache) (sides : Sides) (p : RelText) : Option StoredEntry :=
  match sides.source p, sides.remote p with
  | some l, some r =>
    if l.kind = .file ∧ r.kind = .file then
      match l.contentMd5, r.contentMd5 with
      | some localMd5, some remoteMd5 =>
        if localMd5 = remoteMd5 ∧ l.size = r.size then
          some ⟨l.size, l.mtimeMs, l.identity, localMd5, r.mtimeSeconds, remoteMd5, cache.now⟩
        else none
      | _, _ => none
    else none
  | _, _ => none

def observationStream (cache : Cache) (sides : Sides) (comparison : Comparison) :
    List (RelText × StoredEntry) :=
  comparison.paths.filterMap fun p => (observed cache sides p).map (p, ·)

/-- The stored records, in the order they were written. -/
structure CarriedRecords where
  reader : Option (List Line)
  now : Int
  expiry : Int
  isScoped : Bool
  source : RelText → Option LocalEntry
  previous : Option RelText
  peeked : Option (RelText × StoredEntry)

namespace CarriedRecords

def empty (source : RelText → Option LocalEntry) : CarriedRecords :=
  ⟨none, 0, 0, false, source, none, none⟩

/-- A file that is absent, unsafe or about another query yields nothing. -/
def opened (cache : Cache) (slot : Slot) (source : RelText → Option LocalEntry) (isScoped : Bool) :
    CarriedRecords :=
  let stream := ⟨none, cache.now, cache.expiry, isScoped, source, none, none⟩
  match slot with
  | .absent | .unusable => stream
  | .file stored =>
    match stored.header with
    | none => stream
    | some header =>
      if (headerMismatch cache header).isSome then stream
      else { stream with reader := some stored.lines }

/-- A stored path this pass would have seen: a pass without a scope saw the whole tree. -/
def isInScope (c : CarriedRecords) (r : Record) : Bool := c.isScoped || (c.source r.p).isSome

/-- The loop of `fill`, from a line on. -/
def fillFrom (c : CarriedRecords) : List Line → Option CarriedRecords
  | [] => some { c with reader := none }
  | .unreadable :: _ => none
  | .sentinel :: _ => some { c with reader := none }
  | .unparseable :: _ => none
  | .record r :: lines =>
    if outOfOrder c.previous r.p then none
    else
      let c := { c with previous := some r.p }
      if r.isExpired c.now c.expiry then c.fillFrom lines
      else if !c.isInScope r then c.fillFrom lines
      else
        match r.digests with
        | none => none
        | some (localMd5, remoteMd5) => some { c with
            reader := some lines
            peeked := some (r.p,
              ⟨r.s, r.m, decodeIdentity r.n, localMd5, r.rm, remoteMd5, r.t⟩) }

/-- The next usable record made available, unless the file is not to be trusted. -/
def fill (c : CarriedRecords) : Option CarriedRecords :=
  if c.peeked.isSome then some c
  else
    match c.reader with
    | none => some c
    | some lines => c.fillFrom lines

end CarriedRecords

/-- What one attempt to write achieved. -/
inductive Merge where
  | written (records : List Record)
  | carriedRejected
deriving DecidableEq, Repr

structure Merging where
  fresh : List (RelText × StoredEntry)
  carried : CarriedRecords
  written : List Record

namespace Merging

/-- A pair observed this pass: dated when the same evidence was first seen. -/
def writeFresh (m : Merging) (p : RelText) (stored : StoredEntry)
    (fresh : List (RelText × StoredEntry)) : Fuel.Next Merging Merge :=
  let (stored, carried) := match m.carried.peeked with
    | some (other, previous) =>
      if other = p then
        (if previous.isSameEvidenceAs stored then
            { stored with observedAt := previous.observedAt } else stored,
          { m.carried with peeked := none })
      else (stored, m.carried)
    | none => (stored, m.carried)
  if entryLimit ≤ m.written.length then .stop (.written m.written)
  else .go ⟨fresh, carried, m.written ++ [stored.toRecord p]⟩

def writeCarried (m : Merging) (p : RelText) (stored : StoredEntry) : Merging :=
  let carried := { m.carried with peeked := none }
  if entryLimit ≤ m.written.length then { m with carried := carried }
  else { m with carried := carried, written := m.written ++ [stored.toRecord p] }

/-- One turn of the merge. -/
def turn (m : Merging) : Fuel.Next Merging Merge :=
  match m.carried.fill with
  | none => .stop .carriedRejected
  | some carried =>
    let m := { m with carried := carried }
    match m.fresh, m.carried.peeked with
    | [], none => .stop (.written m.written)
    | (p, stored) :: fresh, none => m.writeFresh p stored fresh
    | [], some (q, stored) => .go (m.writeCarried q stored)
    | (p, stored) :: fresh, some (q, previous) =>
      if q < p then .go (m.writeCarried q previous) else m.writeFresh p stored fresh

end Merging

/-- Turns enough for everything there is to merge. -/
def CarriedRecords.left (c : CarriedRecords) : Nat :=
  (c.reader.elim 0 List.length) + (if c.peeked.isSome then 1 else 0)

/-- What `write_merged` writes after the header, or that the stored file was not to be trusted. -/
def writeMerged (cache : Cache) (slot : Slot) (sides : Sides) (comparison : Comparison)
    (isScoped carry : Bool) : Option Merge :=
  let fresh := observationStream cache sides comparison
  let carried := if carry then CarriedRecords.opened cache slot sides.source isScoped
    else CarriedRecords.empty sides.source
  Fuel.run Merging.turn (fresh.length + carried.left + 1) ⟨fresh, carried, []⟩

def Cache.header (cache : Cache) (entries : Nat) : Header :=
  let options := cache.options
  ⟨schema, digestStrength, options.binary, options.platform, options.profile, options.source,
    options.remote, options.compare, cache.now, entries, cache.canaryAt⟩

def Cache.fileOf (cache : Cache) (records : List Record) : Slot :=
  .file ⟨some (cache.header records.length), records.map .record ++ [.sentinel]⟩

/-- The file a pass leaves. One that cannot be carried forward is written again without it. -/
def store (cache : Cache) (slot : Slot) (sides : Sides) (comparison : Comparison)
    (isScoped : Bool) : Slot :=
  match writeMerged cache slot sides comparison isScoped true with
  | some (.written records) => cache.fileOf records
  | some .carriedRejected =>
    match writeMerged cache slot sides comparison isScoped false with
    | some (.written records) => cache.fileOf records
    | _ => slot
  | none => slot

end StatusCache
end DriveSync
