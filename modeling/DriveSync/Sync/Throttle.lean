import DriveSync.Lib.Rate
import Mathlib.Tactic.Common

/-!
# DriveSync.Sync.Throttle

The upload budget: a token bucket the workers share. Tokens are kept in billionths of a byte, so
that a nanosecond mints a whole number of them. A step of the code's 128-bit arithmetic that would
leave its range has no result here.

* `take_spec`: what one call does to the budget, and what it answers.
* `run_metered`: any number of calls, of any number of workers.
-/

namespace DriveSync
namespace Throttle

open Rate

def nanosPerSecond : Nat := 1000000000

def u64Max : Nat := 18446744073709551615

def u128Max : Nat := 340282366920938463463374607431768211455

/-! ## Arithmetic -/

def checkedMul (a b : Nat) : Option Nat := if a * b ≤ u128Max then some (a * b) else none

def checkedSub (a b : Nat) : Option Nat := if b ≤ a then some (a - b) else none

def checkedDivCeil (a b : Nat) : Option Nat := if b = 0 then none else some ((a + (b - 1)) / b)

def saturatingMul (a b : Nat) : Nat := min (a * b) u128Max

def saturatingAdd (a b : Nat) : Nat := min (a + b) u128Max

theorem checkedMul_eq {a b : Nat} (h : a * b ≤ u128Max) : checkedMul a b = some (a * b) := if_pos h

theorem checkedSub_eq {a b : Nat} (h : b ≤ a) : checkedSub a b = some (a - b) := if_pos h

theorem checkedDivCeil_eq {a b : Nat} (h : 0 < b) :
    checkedDivCeil a b = some ((a + (b - 1)) / b) := if_neg (by omega)

/-- A 128-bit number as one of 64 bits, or the greatest. -/
def toU64 (n : Nat) : Nat := if n ≤ u64Max then n else u64Max

structure NonZeroU64 where
  get : Nat
  pos : 0 < get
  le : get ≤ u64Max

/-! ## The bucket -/

structure TokenBucket where
  bytesPerSecond : Nat
  capacityScaled : Nat
  availableScaled : Nat
  updated : Nat
deriving DecidableEq, Repr

inductive RateGrant where
  | ready (bytes : Nat)
  | wait (nanos : Nat)
deriving DecidableEq, Repr

def RateGrant.bytes : RateGrant → Nat
  | ready bytes => bytes
  | wait _ => 0

/-- A worker asks for so many bytes. -/
structure Take where
  worker : Nat
  requested : Nat
  now : Nat
deriving DecidableEq, Repr

namespace TokenBucket

/-- A bucket starts full. -/
def new (bytesPerSecond : NonZeroU64) (now : Nat) : Option TokenBucket := do
  let capacityScaled ← checkedMul bytesPerSecond.get nanosPerSecond
  some ⟨bytesPerSecond.get, capacityScaled, capacityScaled, now⟩

def refill (bucket : TokenBucket) (now : Nat) : TokenBucket :=
  let elapsed := now - bucket.updated
  if elapsed = 0 then bucket
  else
    let minted := saturatingMul elapsed bucket.bytesPerSecond
    { bucket with
      updated := now
      availableScaled := min (saturatingAdd bucket.availableScaled minted) bucket.capacityScaled }

def take (bucket : TokenBucket) (requested now : Nat) : Option (RateGrant × TokenBucket) := do
  let bucket := bucket.refill now
  -- never queue for more than one bucket's worth
  let wanted := min requested bucket.bytesPerSecond
  let available := toU64 (bucket.availableScaled / nanosPerSecond)
  if wanted = 0 ∨ 0 < available then
    let granted := min available wanted
    let spent ← checkedMul granted nanosPerSecond
    let left ← checkedSub bucket.availableScaled spent
    some (.ready granted, { bucket with availableScaled := left })
  else
    let full ← checkedMul wanted nanosPerSecond
    let shortfall ← checkedSub full bucket.availableScaled
    let nanos ← checkedDivCeil shortfall bucket.bytesPerSecond
    some (.wait (toU64 nanos), bucket)

/-- The calls one after another, each with what it was answered. -/
def run (bucket : TokenBucket) : List Take → Option (List (Take × RateGrant) × TokenBucket)
  | [] => some ([], bucket)
  | call :: calls => do
    let (grant, bucket) ← bucket.take call.requested call.now
    let (answered, bucket) ← bucket.run calls
    some ((call, grant) :: answered, bucket)

/-- The amount is within the capacity, and the capacity is a second's worth. -/
structure Sound (bucket : TokenBucket) : Prop where
  rate_pos : 0 < bucket.bytesPerSecond
  rate_le : bucket.bytesPerSecond ≤ u64Max
  capacity : bucket.capacityScaled = bucket.bytesPerSecond * nanosPerSecond
  level : bucket.availableScaled ≤ bucket.capacityScaled

end TokenBucket

/-! ## A worker's wait -/

/-- One look at the bucket: what the others take before it, and whether the transfer is cancelled. -/
structure Poll where
  cancelled : Bool
  others : List Take
  now : Nat
deriving DecidableEq, Repr

inductive ReadError where
  | cancelled | attemptEnded | refused | failed
deriving DecidableEq, Repr

/-- Ask until something is granted; a wait is slept through in between. Nothing is returned while the
worker still waits. A size may be narrower than 64 bits. -/
def claim (usizeMax worker requested : Nat) :
    List Poll → TokenBucket → Option (Option (Except ReadError Nat) × TokenBucket)
  | [], bucket => some (none, bucket)
  | poll :: polls, bucket =>
    if poll.cancelled then some (some (.error .cancelled), bucket)
    else do
      let (_, bucket) ← bucket.run poll.others
      let (grant, bucket) ← bucket.take (toU64 requested) poll.now
      match grant with
      | .ready allowance =>
        some (some (.ok (if allowance ≤ usizeMax then allowance else requested)), bucket)
      | .wait _ => claim usizeMax worker requested polls bucket

/-- What is watched while a file is read: its planned size, and whether it is still what was planned
when it ends. -/
structure SourceGuard where
  size : Nat
  intact : Bool
deriving DecidableEq, Repr

/-- What the reader looks at besides the bytes. -/
structure ObservedReader where
  cancelled : Bool
  streamed : Option Nat
  sourceGuard : Option SourceGuard
  retired : Bool
  observer : Option (Nat → Bool)

namespace ObservedReader

/-- More was read than the file was planned to hold. -/
def grown (reader : ObservedReader) (count : Nat) : Bool :=
  match reader.streamed, reader.sourceGuard with
  | some streamed, some guard => decide (0 < count ∧ guard.size < min (streamed + count) u64Max)
  | _, _ => false

/-- The file ended, and is not what was planned. -/
def changed (reader : ObservedReader) (bufferLen count : Nat) : Bool :=
  match reader.sourceGuard with
  | some guard => decide (count = 0 ∧ bufferLen ≠ 0) && !guard.intact
  | none => false

def declined (reader : ObservedReader) (count : Nat) : Bool :=
  match reader.observer with
  | some observer => decide (0 < count) && !observer count
  | none => false

/-- The checks on what was read. -/
def judge (reader : ObservedReader) (bufferLen count : Nat) : Except ReadError Nat :=
  if reader.grown count || reader.changed bufferLen count then .error .refused
  else if reader.retired then .error .attemptEnded
  else if reader.declined count then .error .cancelled
  else .ok count

/-- One read into a buffer: the whole of it without a throttle, what was granted with one. -/
def read (reader : ObservedReader) (claimed : Option (Except ReadError Nat))
    (inner : Nat → Except ReadError Nat) (bufferLen : Nat) : Except ReadError Nat := do
  if reader.cancelled then .error .cancelled
  else
    let room ← claimed.getD (.ok bufferLen)
    let count ← inner room
    reader.judge bufferLen count

end ObservedReader

/-! ## One call -/

namespace TokenBucket

variable {bucket : TokenBucket} {requested now : Nat}

theorem Sound.capacity_le (h : bucket.Sound) : bucket.capacityScaled ≤ u128Max := by
  have hle := Nat.mul_le_mul_right nanosPerSecond h.rate_le
  rw [h.capacity]
  exact Nat.le_trans hle (by decide)

theorem new_sound (rate : NonZeroU64) (started : Nat) :
    ∃ bucket, new rate started = some bucket ∧ bucket.Sound ∧ bucket.bytesPerSecond = rate.get ∧
      bucket.updated = started := by
  have hfits : rate.get * nanosPerSecond ≤ u128Max :=
    Nat.le_trans (Nat.mul_le_mul_right _ rate.le) (by decide)
  refine ⟨⟨rate.get, rate.get * nanosPerSecond, rate.get * nanosPerSecond, started⟩, ?_,
    ⟨rate.pos, rate.le, rfl, Nat.le_refl _⟩, rfl, rfl⟩
  simp [new, checkedMul_eq hfits]

@[simp] theorem refill_bytesPerSecond :
    (bucket.refill now).bytesPerSecond = bucket.bytesPerSecond := by
  unfold refill
  dsimp only
  split <;> rfl

@[simp] theorem refill_capacityScaled :
    (bucket.refill now).capacityScaled = bucket.capacityScaled := by
  unfold refill
  dsimp only
  split <;> rfl

theorem refill_updated : (bucket.refill now).updated = max bucket.updated now := by
  unfold refill
  dsimp only
  split
  · omega
  · show now = _
    omega

/-- Saturation never shows: the capacity cuts off earlier. -/
theorem refill_availableScaled (h : bucket.Sound) : (bucket.refill now).availableScaled =
    min (bucket.availableScaled + bucket.bytesPerSecond * (now - bucket.updated))
      bucket.capacityScaled := by
  have hcapacity := h.capacity_le
  have hlevel := h.level
  unfold refill
  dsimp only
  split
  · rename_i hzero
    rw [hzero, Nat.mul_zero, Nat.add_zero, Nat.min_eq_left hlevel]
  · unfold saturatingAdd saturatingMul
    dsimp only
    rw [Nat.mul_comm (now - bucket.updated)]
    omega

theorem Sound.refill (h : bucket.Sound) (now : Nat) : (bucket.refill now).Sound where
  rate_pos := by simpa using h.rate_pos
  rate_le := by simpa using h.rate_le
  capacity := by simpa using h.capacity
  level := by
    rw [refill_availableScaled h, refill_capacityScaled]
    exact Nat.min_le_right _ _

theorem toU64_pos {n : Nat} : 0 < toU64 n ↔ 0 < n := by
  unfold toU64 u64Max
  split <;> omega

theorem toU64_le {n : Nat} : toU64 n ≤ n := by
  unfold toU64
  split <;> omega

/-- What an answer says of a call: a grant is paid for, and a wait is as long as it takes until a
byte can be. -/
structure Answers (bucket after : TokenBucket) (requested : Nat) (grant : RateGrant) : Prop where
  rate : after.bytesPerSecond = bucket.bytesPerSecond
  updated : after.updated = bucket.updated
  sound : after.Sound
  paid : grant.bytes * nanosPerSecond + after.availableScaled = bucket.availableScaled
  some_byte : 0 < requested → grant ≠ .ready 0
  least : ∀ bytes, grant = .ready bytes → bytes ≤ requested
  wait_le : ∀ nanos, grant = .wait nanos → nanos ≤ nanosPerSecond
  wait_short : ∀ nanos, grant = .wait nanos → bucket.availableScaled < nanosPerSecond
  wait_enough : ∀ nanos, grant = .wait nanos →
    nanosPerSecond ≤ after.availableScaled + after.bytesPerSecond * nanos

theorem ceil_le {a b c : Nat} (hb : 0 < b) (h : a ≤ b * c) : (a + (b - 1)) / b ≤ c := by
  refine Nat.lt_succ_iff.mp ((Nat.div_lt_iff_lt_mul hb).mpr ?_)
  rw [Nat.succ_mul, Nat.mul_comm c b]
  omega

theorem le_mul_ceil (a : Nat) {b : Nat} (hb : 0 < b) : a ≤ b * ((a + (b - 1)) / b) := by
  have hdiv := Nat.div_add_mod (a + (b - 1)) b
  have hmod := Nat.mod_lt (a + (b - 1)) hb
  omega

/-- Every call is answered, whatever the bucket holds. -/
theorem take_spec (h : bucket.Sound) (requested now : Nat) : ∃ grant after,
    bucket.take requested now = some (grant, after) ∧
      Answers (bucket.refill now) after requested grant := by
  have hrefilled := h.refill now
  unfold take
  generalize bucket.refill now = refilled at hrefilled ⊢
  dsimp only
  have hrate := hrefilled.rate_pos
  have hlevel := hrefilled.level
  have hcapacity := hrefilled.capacity_le
  have hdiv := Nat.div_mul_le_self refilled.availableScaled nanosPerSecond
  have hwhole := toU64_le (n := refilled.availableScaled / nanosPerSecond)
  have hmin : min requested refilled.bytesPerSecond * nanosPerSecond ≤ refilled.capacityScaled := by
    rw [hrefilled.capacity]
    exact Nat.mul_le_mul_right _ (Nat.min_le_right _ _)
  split
  · rename_i hready
    generalize hgranted : min (toU64 (refilled.availableScaled / nanosPerSecond))
      (min requested refilled.bytesPerSecond) = granted
    have hpaid : granted * nanosPerSecond ≤ refilled.availableScaled :=
      Nat.le_trans (Nat.mul_le_mul_right _ (by omega)) hdiv
    have hfits : granted * nanosPerSecond ≤ u128Max :=
      Nat.le_trans hpaid (Nat.le_trans hlevel hcapacity)
    refine ⟨.ready granted,
      { refilled with availableScaled := refilled.availableScaled - granted * nanosPerSecond }, ?_,
      rfl, rfl, ⟨hrate, hrefilled.rate_le, hrefilled.capacity, ?_⟩, ?_, ?_, ?_, ?_, ?_, ?_⟩
    · rw [checkedMul_eq hfits, Option.bind_eq_bind, Option.bind_some, checkedSub_eq hpaid,
        Option.bind_some]
    · exact Nat.le_trans (Nat.sub_le _ _) hlevel
    · exact Nat.add_sub_cancel' hpaid
    · intro hrequested hzero
      obtain rfl := RateGrant.ready.inj hzero
      omega
    · intro bytes hbytes
      obtain rfl := RateGrant.ready.inj hbytes
      omega
    all_goals
      intro nanos hnanos
      cases hnanos
  · rename_i hwait
    have hempty : refilled.availableScaled < nanosPerSecond := by
      have hzero : ¬ 0 < refilled.availableScaled / nanosPerSecond := by
        rw [← toU64_pos]
        omega
      exact Nat.div_eq_zero_iff_lt (by decide) |>.mp (by omega)
    generalize hwanted : min requested refilled.bytesPerSecond = wanted at hmin hwait ⊢
    have hone : nanosPerSecond ≤ wanted * nanosPerSecond := Nat.le_mul_of_pos_left _ (by omega)
    have hcovered := Nat.le_trans (Nat.le_of_lt hempty) hone
    generalize hnanos : (wanted * nanosPerSecond - refilled.availableScaled +
      (refilled.bytesPerSecond - 1)) / refilled.bytesPerSecond = nanos
    have hshort : wanted * nanosPerSecond - refilled.availableScaled ≤
        refilled.bytesPerSecond * nanosPerSecond := by
      rw [← hrefilled.capacity]
      exact Nat.le_trans (Nat.sub_le _ _) hmin
    have hle : nanos ≤ nanosPerSecond := hnanos ▸ ceil_le hrate hshort
    have hfits : toU64 nanos = nanos := if_pos (Nat.le_trans hle (by decide))
    refine ⟨.wait nanos, refilled, ?_, rfl, rfl, hrefilled, ?_, ?_, ?_, ?_, fun _ _ => hempty, ?_⟩
    · simp only [checkedMul_eq (Nat.le_trans hmin hcapacity), checkedSub_eq hcovered,
        checkedDivCeil_eq hrate, Option.bind_eq_bind, Option.bind_some, hnanos, hfits]
    · rw [RateGrant.bytes, Nat.zero_mul, Nat.zero_add]
    · intro _ hready
      cases hready
    · intro bytes hready
      cases hready
    · intro nanos' hnanos'
      obtain rfl := RateGrant.wait.inj hnanos'
      exact hle
    · intro nanos' hnanos'
      obtain rfl := RateGrant.wait.inj hnanos'
      have := hnanos ▸ le_mul_ceil (wanted * nanosPerSecond - refilled.availableScaled) hrate
      omega

/-! ## Any number of calls -/

/-- What was granted, and when. -/
def grants (answered : List (Take × RateGrant)) : List (Nat × Nat) :=
  answered.map fun entry => (entry.1.now, entry.2.bytes)

theorem run_metered (h : bucket.Sound) (calls : List Take) : ∃ answered after,
    bucket.run calls = some (answered, after) ∧ answered.map Prod.fst = calls ∧ after.Sound ∧
      after.bytesPerSecond = bucket.bytesPerSecond ∧
      Metered bucket.bytesPerSecond bucket.capacityScaled bucket.availableScaled bucket.updated
        ((grants answered).map fun spend => (spend.1, spend.2 * nanosPerSecond)) ∧
      (∀ call bytes, (call, .ready bytes) ∈ answered → 0 < call.requested →
        0 < bytes ∧ bytes ≤ call.requested) ∧
      ∀ call nanos, (call, .wait nanos) ∈ answered → nanos ≤ nanosPerSecond := by
  induction calls generalizing bucket with
  | nil =>
    refine ⟨[], bucket, rfl, rfl, h, rfl, .nil _ _, ?_, ?_⟩ <;>
    · intro _ _ hmem
      cases hmem
  | cons call calls ih =>
    obtain ⟨grant, next, htake, hnext⟩ := take_spec h call.requested call.now
    obtain ⟨answered, after, hrun, hcalls, hsound, hrate, hmetered, hsome, hwait⟩ :=
      ih hnext.sound
    have hnextRate : next.bytesPerSecond = bucket.bytesPerSecond := by
      rw [hnext.rate, refill_bytesPerSecond]
    have hcapacity : next.capacityScaled = bucket.capacityScaled := by
      rw [hnext.sound.capacity, h.capacity, hnextRate]
    have hpaid := hnext.paid
    rw [refill_availableScaled h] at hpaid
    rw [hnextRate, hcapacity, hnext.updated, refill_updated] at hmetered
    have hfill : grant.bytes * nanosPerSecond + next.availableScaled ≤
        bucket.availableScaled + bucket.bytesPerSecond * (call.now - bucket.updated) := by omega
    have hbrim : grant.bytes * nanosPerSecond + next.availableScaled ≤ bucket.capacityScaled := by
      omega
    refine ⟨(call, grant) :: answered, after, ?_, ?_, hsound, hrate.trans hnextRate, ?_, ?_, ?_⟩
    · simp only [run, htake, hrun, Option.bind_eq_bind, Option.bind_some]
    · rw [List.map_cons, hcalls]
    · exact .cons _ _ _ _ _ _ hfill hbrim hmetered
    · intro call' bytes hmem hrequested
      rcases List.mem_cons.mp hmem with heq | hmem
      · obtain ⟨rfl, rfl⟩ := Prod.mk.inj heq
        refine ⟨Nat.pos_of_ne_zero fun hzero => ?_, hnext.least _ rfl⟩
        exact hnext.some_byte hrequested (by rw [hzero])
      · exact hsome call' bytes hmem hrequested
    · intro call' nanos hmem
      rcases List.mem_cons.mp hmem with heq | hmem
      · obtain ⟨rfl, rfl⟩ := Prod.mk.inj heq
        exact hnext.wait_le _ rfl
      · exact hwait call' nanos hmem

/-- A wait that was slept through is followed by a grant. -/
theorem take_after_wait {next after : TokenBucket} {requested' now' nanos : Nat} {grant : RateGrant}
    (hfirst : Answers (bucket.refill now) next requested (.wait nanos))
    (hsecond : Answers (next.refill now') after requested' grant)
    (hupdated : bucket.updated ≤ now) (hnow : now + nanos ≤ now') (hrequested : 0 < requested') :
    ∃ bytes, grant = .ready bytes ∧ 0 < bytes := by
  cases grant with
  | ready bytes =>
    refine ⟨bytes, rfl, Nat.pos_of_ne_zero fun hzero => ?_⟩
    exact hsecond.some_byte hrequested (by rw [hzero])
  | wait nanos' =>
    have hshort := hsecond.wait_short _ rfl
    rw [refill_availableScaled hfirst.sound, hfirst.updated, refill_updated] at hshort
    have hminted : next.bytesPerSecond * nanos ≤
        next.bytesPerSecond * (now' - max bucket.updated now) :=
      Nat.mul_le_mul_left _ (by omega)
    have hone : nanosPerSecond ≤ next.capacityScaled := by
      rw [hfirst.sound.capacity]
      exact Nat.le_mul_of_pos_left _ hfirst.sound.rate_pos
    have := hfirst.wait_enough _ rfl
    omega

theorem run_after_wait {started : Nat} {calls : List Take} {answered : List (Take × RateGrant)}
    {after : TokenBucket} (h : bucket.Sound)
    (hupdated : ∀ call ∈ calls, started ≤ call.now → bucket.updated ≤ call.now)
    (hsorted : calls.Pairwise fun a b => a.now ≤ b.now)
    (hrun : bucket.run calls = some (answered, after))
    {before rest : List (Take × RateGrant)} {call next : Take} {nanos : Nat} {grant : RateGrant}
    (hsplit : answered = before ++ (call, .wait nanos) :: (next, grant) :: rest)
    (hstarted : started ≤ call.now) (hnow : call.now + nanos ≤ next.now)
    (hrequested : 0 < next.requested) : ∃ bytes, grant = .ready bytes ∧ 0 < bytes := by
  induction calls generalizing bucket answered before with
  | nil =>
    rw [run] at hrun
    obtain ⟨rfl, rfl⟩ := Prod.mk.inj (Option.some.inj hrun)
    simp at hsplit
  | cons first calls ih =>
    obtain ⟨hfirst, hrest⟩ := List.pairwise_cons.mp hsorted
    obtain ⟨grant₁, bucket₁, htake, hnext⟩ := take_spec h first.requested first.now
    simp only [run, htake, Option.bind_eq_bind, Option.bind_some, Option.bind_eq_some_iff] at hrun
    obtain ⟨⟨answered₁, after₁⟩, hrun₁, heq⟩ := hrun
    obtain ⟨rfl, rfl⟩ := Prod.mk.inj (Option.some.inj heq)
    have hupdated₁ : ∀ call ∈ calls, started ≤ call.now → bucket₁.updated ≤ call.now := by
      intro later hmem hlater
      have := hfirst later hmem
      have := hupdated later (.tail _ hmem) hlater
      rw [hnext.updated, refill_updated]
      omega
    cases before with
    | cons entry before => exact ih hnext.sound hupdated₁ hrest hrun₁ (List.cons.inj hsplit).2
    | nil =>
      obtain ⟨hhead, hrestEq⟩ := List.cons.inj hsplit
      obtain ⟨rfl, rfl⟩ := Prod.mk.inj hhead
      cases calls with
      | nil =>
        rw [run] at hrun₁
        obtain ⟨rfl, rfl⟩ := Prod.mk.inj (Option.some.inj hrun₁)
        cases hrestEq
      | cons second calls =>
        obtain ⟨grant₂, bucket₂, htake₂, hnext₂⟩ :=
          take_spec hnext.sound second.requested second.now
        simp only [run, htake₂, Option.bind_eq_bind, Option.bind_some,
          Option.bind_eq_some_iff] at hrun₁
        obtain ⟨⟨answered₂, after₂⟩, hrun₂, heq₂⟩ := hrun₁
        obtain ⟨rfl, rfl⟩ := Prod.mk.inj (Option.some.inj heq₂)
        obtain ⟨rfl, rfl⟩ := Prod.mk.inj (List.cons.inj hrestEq).1
        exact take_after_wait hnext hnext₂ (hupdated _ (.head _) hstarted) hnow hrequested

end TokenBucket

/-! ## What a worker is given -/

open TokenBucket

/-- A worker waits, is cancelled, or is given some of what it asked for. -/
theorem claim_spec {usizeMax worker requested : Nat} (polls : List Poll) {bucket : TokenBucket}
    (h : bucket.Sound) : ∃ result after,
      claim usizeMax worker requested polls bucket = some (result, after) ∧ after.Sound ∧
        ∀ room, result = some (.ok room) → room ≤ requested ∧ (0 < requested → 0 < room) := by
  induction polls generalizing bucket with
  | nil => exact ⟨none, bucket, rfl, h, fun _ heq => by cases heq⟩
  | cons poll polls ih =>
    unfold claim
    split
    · exact ⟨_, bucket, rfl, h, fun _ heq => by cases heq⟩
    · obtain ⟨answered, between, hrun, -, hbetween, -⟩ := run_metered h poll.others
      obtain ⟨grant, after, htake, hafter⟩ := take_spec hbetween (toU64 requested) poll.now
      simp only [hrun, htake, Option.bind_eq_bind, Option.bind_some]
      cases grant with
      | wait nanos => exact ih hafter.sound
      | ready allowance =>
        refine ⟨_, after, rfl, hafter.sound, fun room heq => ?_⟩
        obtain rfl := Except.ok.inj (Option.some.inj heq)
        have hleast := Nat.le_trans (hafter.least _ rfl) toU64_le
        have hpos (hrequested : 0 < requested) : 0 < allowance :=
          Nat.pos_of_ne_zero fun hzero =>
            hafter.some_byte (toU64_pos.mpr hrequested) (by rw [hzero])
        split
        · exact ⟨hleast, hpos⟩
        · exact ⟨Nat.le_refl _, id⟩

theorem ObservedReader.judge_ok {reader : ObservedReader} {bufferLen count shown : Nat}
    (h : reader.judge bufferLen count = .ok shown) : shown = count := by
  unfold judge at h
  split at h
  · cases h
  · split at h
    · cases h
    · split at h
      · cases h
      · exact (Except.ok.inj h).symm

/-- A metered read that ends a file was asked for more. -/
theorem ObservedReader.read_zero {reader : ObservedReader} {claimed : Except ReadError Nat}
    {inner : Nat → Except ReadError Nat} {bufferLen : Nat}
    (h : reader.read (some claimed) inner bufferLen = .ok 0) :
    ∃ room, claimed = .ok room ∧ inner room = .ok 0 := by
  unfold read at h
  split at h
  · cases h
  · cases claimed with
    | error e => cases h
    | ok room =>
      refine ⟨room, rfl, ?_⟩
      cases hinner : inner room with
      | error e =>
        simp only [Option.getD_some, bind, Except.bind, hinner] at h
        cases h
      | ok count =>
        simp only [Option.getD_some, bind, Except.bind, hinner] at h
        rw [ObservedReader.judge_ok h]

/-- What a history of calls keeps to: the rate, a byte or a wait for everyone who asks for one, and
no wait of more than a second or without a byte at its end. -/
structure Paced (rate started : Nat) (answered : List (Take × RateGrant)) : Prop where
  spent : ∀ first last, first ≤ last →
    spentWithin first last (grants answered) * nanosPerSecond ≤
      rate * (last - first) + rate * nanosPerSecond
  some_byte : ∀ call bytes, (call, .ready bytes) ∈ answered → 0 < call.requested →
    0 < bytes ∧ bytes ≤ call.requested
  wait_le : ∀ call nanos, (call, .wait nanos) ∈ answered → nanos ≤ nanosPerSecond
  after_wait : ∀ before rest call next nanos grant,
    answered = before ++ (call, .wait nanos) :: (next, grant) :: rest → started ≤ call.now →
    call.now + nanos ≤ next.now → 0 < next.requested → ∃ bytes, grant = .ready bytes ∧ 0 < bytes

/-- After the bucket was used, a worker that fills a buffer sees the end of a file only if it is at
the end. -/
def EndsHonestly (bucket : TokenBucket) : Prop :=
  ∀ usizeMax worker requested polls claimed after reader inner,
    claim usizeMax worker requested polls bucket = some (some claimed, after) → 0 < requested →
    ObservedReader.read reader (some claimed) inner requested = .ok 0 →
    ∃ room, 0 < room ∧ room ≤ requested ∧ inner room = .ok 0

theorem paced {rate : NonZeroU64} {started : Nat} {bucket after : TokenBucket} {calls : List Take}
    {answered : List (Take × RateGrant)} (h : bucket.Sound) (hrate : bucket.bytesPerSecond = rate.get)
    (hstarted : bucket.updated = started) (hsorted : calls.Pairwise fun a b => a.now ≤ b.now)
    (hrun : bucket.run calls = some (answered, after)) : Paced rate.get started answered := by
  obtain ⟨answered', after', hrun', hcalls, -, -, hmetered, hsome, hwait⟩ := run_metered h calls
  obtain ⟨rfl, rfl⟩ := Prod.mk.inj (Option.some.inj (hrun.symm.trans hrun'))
  refine ⟨fun first last _ => ?_, hsome, hwait, fun before rest call next nanos grant hsplit => ?_⟩
  · have hspends : ((grants answered).map fun spend =>
        (spend.1, spend.2 * nanosPerSecond)).Pairwise fun a b => a.1 ≤ b.1 := by
      unfold grants
      rw [List.map_map, List.pairwise_map]
      rw [← hcalls, List.pairwise_map] at hsorted
      exact hsorted
    have := hmetered.spentWithin_le hspends first last
    rw [spentWithin_scale, h.capacity, hrate] at this
    omega
  · exact run_after_wait h (fun _ _ hle => hstarted ▸ hle) hsorted hrun hsplit

/-- The budget is kept whatever is asked, by however many workers. -/
theorem bucket_exact (rate : NonZeroU64) (started : Nat) (calls : List Take)
    (hsorted : calls.Pairwise fun a b => a.now ≤ b.now) : ∃ bucket answered after,
      TokenBucket.new rate started = some bucket ∧ bucket.run calls = some (answered, after) ∧
        answered.map Prod.fst = calls ∧ after.availableScaled ≤ after.capacityScaled ∧
        after.capacityScaled = rate.get * nanosPerSecond ∧ Paced rate.get started answered ∧
        EndsHonestly after := by
  obtain ⟨bucket, hnew, hsound, hrate, hstarted⟩ := new_sound rate started
  obtain ⟨answered, after, hrun, hcalls, hafter, hkept, -⟩ := run_metered hsound calls
  refine ⟨bucket, answered, after, hnew, hrun, hcalls, hafter.level, ?_,
    paced hsound hrate hstarted hsorted hrun, ?_⟩
  · rw [hafter.capacity, hkept, hrate]
  · intro usizeMax worker requested polls claimed last reader inner hclaim hrequested hread
    obtain ⟨result, last', hclaim', -, hroom⟩ := claim_spec polls hafter
    obtain ⟨rfl, -⟩ := Prod.mk.inj (Option.some.inj (hclaim.symm.trans hclaim'))
    obtain ⟨room, rfl, hinner⟩ := ObservedReader.read_zero hread
    obtain ⟨hle, hpos⟩ := hroom room rfl
    exact ⟨room, hpos hrequested, hle, hinner⟩

/-- Two workers at four bytes a second. -/
theorem bucket_exact_two_workers : ∃ bucket answered after,
    TokenBucket.new ⟨4, by decide, by decide⟩ 5 = some bucket ∧
      bucket.run [⟨0, 9, 5⟩, ⟨1, 9, 5⟩, ⟨1, 2, 250000005⟩] = some (answered, after) ∧
      answered.map Prod.fst = [⟨0, 9, 5⟩, ⟨1, 9, 5⟩, ⟨1, 2, 250000005⟩] ∧
      after.availableScaled ≤ after.capacityScaled ∧ after.capacityScaled = 4 * nanosPerSecond ∧
      Paced 4 5 answered ∧ EndsHonestly after :=
  bucket_exact ⟨4, by decide, by decide⟩ 5 _ (by simp)

end Throttle
end DriveSync
