import DriveSync.Lib.Rate

/-!
# DriveSync.Session.Ledger

The re-authentications a client has made, so that their rate is capped. Times are nanoseconds of a
clock that never goes back. `ReauthenticationLedger.admitNow` is exact (`admit_ok`, `admit_error`):
what it admits keeps both bounds, and what it refuses would have broken one of them, but for the
counter's own end.
-/

namespace DriveSync
namespace Session

open Rate

def nanosPerSecond : Nat := 1000000000

def reauthenticationsPerWindow : Nat := 4

def reauthenticationWindow : Nat := 10 * 60 * nanosPerSecond

def reauthenticationAllowancePeriod : Nat := 15 * 60 * nanosPerSecond

def u32Max : Nat := 4294967295

/-- A duration in minutes, rounded up, and never zero. -/
def wholeMinutes (duration : Nat) : Nat := max ((duration / nanosPerSecond + 59) / 60) 1

structure ReauthenticationLedger where
  started : Nat
  recent : List Nat
  total : Nat
deriving DecidableEq, Repr

namespace ReauthenticationLedger

def new (started : Nat) : ReauthenticationLedger := ⟨started, [], 0⟩

def prune (ledger : ReauthenticationLedger) (now : Nat) : ReauthenticationLedger :=
  { ledger with
    recent := ledger.recent.dropWhile fun at_ => decide (reauthenticationWindow ≤ now - at_) }

/-- What the client's age has earned it so far. -/
def allowance (ledger : ReauthenticationLedger) (now : Nat) : Nat :=
  let seconds := (now - ledger.started) / nanosPerSecond
  let earned := min (seconds / (reauthenticationAllowancePeriod / nanosPerSecond)) u32Max
  min (reauthenticationsPerWindow + earned) u32Max

/-- Record one more re-authentication at `now`, or say why it must not happen. -/
def admitNow (ledger : ReauthenticationLedger) (now : Nat) :
    Except String Unit × ReauthenticationLedger :=
  let ledger := ledger.prune now
  if reauthenticationsPerWindow ≤ ledger.recent.length then
    let oldest := ledger.recent.head?.getD now
    (.error ("DSM ended " ++ toString (ledger.recent.length + 1) ++ " sessions in " ++
      toString (wholeMinutes (now - oldest)) ++ " minutes, so re-authentication stopped"), ledger)
  else if ledger.allowance now ≤ ledger.total then
    (.error ("DSM ended " ++ toString (min (ledger.total + 1) u32Max) ++ " sessions in " ++
      toString (wholeMinutes (now - ledger.started)) ++
      " minutes of this run, so re-authentication stopped"), ledger)
  else
    (.ok (), { ledger with
      recent := ledger.recent ++ [now]
      total := min (ledger.total + 1) u32Max })

/-- Both bounds on the times a client was let re-authenticate. -/
structure Bounded (started : Nat) (times : List Nat) : Prop where
  window : WindowBounded reauthenticationWindow reauthenticationsPerWindow times
  allowance : AllowanceBounded started reauthenticationAllowancePeriod reauthenticationsPerWindow times

/-- The ledger of a client that was let re-authenticate at the given times. -/
structure Records (ledger : ReauthenticationLedger) (clock : Nat) (times : List Nat) : Prop where
  recent : Recent reauthenticationWindow clock times ledger.recent
  sorted : times.Pairwise (· ≤ ·)
  past : ∀ at_ ∈ times, at_ ≤ clock
  started : ledger.started ≤ clock
  total : ledger.total = times.length
  within : times.length ≤ u32Max
  bounded : Bounded ledger.started times

variable {ledger : ReauthenticationLedger} {clock now : Nat} {times : List Nat}

theorem records_new (started : Nat) : Records (.new started) started [] :=
  ⟨recent_nil, .nil, fun _ h => (by cases h), Nat.le_refl _, rfl, Nat.zero_le _,
    ⟨fun _ => Nat.zero_le _, fun _ => Nat.zero_le _⟩⟩

/-- A client's age in periods, whole seconds or not. -/
theorem allowance_eq : ledger.allowance now = min (reauthenticationsPerWindow +
    min ((now - ledger.started) / reauthenticationAllowancePeriod) u32Max) u32Max := by
  unfold allowance
  dsimp only
  rw [Nat.div_div_eq_div_mul]
  rfl

theorem Records.later (h : Records ledger clock times) (hle : clock ≤ now) :
    Records ledger now times :=
  ⟨h.recent.later hle, h.sorted, fun at_ hmem => Nat.le_trans (h.past at_ hmem) hle,
    Nat.le_trans h.started hle, h.total, h.within, h.bounded⟩

theorem Records.prune (h : Records ledger clock times) (hle : clock ≤ now) :
    Records (ledger.prune now) now times :=
  { h.later hle with recent := h.recent.forget hle (by decide) }

/-- The three ways an admission goes. -/
theorem admit_cases (ledger : ReauthenticationLedger) (now : Nat) :
    (∃ reason, ledger.admitNow now = (.error reason, ledger.prune now) ∧
      reauthenticationsPerWindow ≤ (ledger.prune now).recent.length) ∨
    (∃ reason, ledger.admitNow now = (.error reason, ledger.prune now) ∧
      (ledger.prune now).allowance now ≤ (ledger.prune now).total) ∨
    ((ledger.prune now).recent.length < reauthenticationsPerWindow ∧
      (ledger.prune now).total < (ledger.prune now).allowance now ∧
      ledger.admitNow now = (.ok (), { ledger.prune now with
        recent := (ledger.prune now).recent ++ [now]
        total := min ((ledger.prune now).total + 1) u32Max })) := by
  unfold admitNow
  dsimp only
  split
  · rename_i hwindow
    exact .inl ⟨_, rfl, hwindow⟩
  · rename_i hwindow
    split
    · rename_i hallowance
      exact .inr (.inl ⟨_, rfl, hallowance⟩)
    · rename_i hallowance
      exact .inr (.inr ⟨Nat.not_le.mp hwindow, Nat.not_le.mp hallowance, rfl⟩)

theorem admit_started : (ledger.admitNow now).2.started = ledger.started := by
  rcases admit_cases ledger now with ⟨_, heq, _⟩ | ⟨_, heq, _⟩ | ⟨_, _, heq⟩ <;> rw [heq] <;> rfl

/-- What is admitted keeps both bounds. -/
theorem Records.admit_ok (h : Records ledger clock times) (hle : clock ≤ now)
    (hgrant : (ledger.admitNow now).1 = .ok ()) :
    Records (ledger.admitNow now).2 now (times ++ [now]) := by
  have hp := h.prune hle
  rcases admit_cases ledger now with ⟨_, heq, _⟩ | ⟨_, heq, _⟩ | ⟨hwindow, hallowance, heq⟩
  · rw [heq] at hgrant
    cases hgrant
  · rw [heq] at hgrant
    cases hgrant
  · rw [heq]
    rw [allowance_eq, hp.total] at hallowance
    have hlen : times.length < reauthenticationsPerWindow +
        (now - (ledger.prune now).started) / reauthenticationAllowancePeriod := by omega
    have hfits : times.length + 1 ≤ u32Max := by omega
    refine ⟨hp.recent.push, ?_, ?_, hp.started, ?_, ?_, ?_, ?_⟩
    · refine List.pairwise_append.mpr ⟨hp.sorted, List.pairwise_singleton _ _, fun at_ hmem at' hat => ?_⟩
      rw [List.mem_singleton.mp hat]
      exact hp.past at_ hmem
    · intro at_ hmem
      rcases List.mem_append.mp hmem with hmem | hmem
      · exact hp.past at_ hmem
      · exact Nat.le_of_eq (List.mem_singleton.mp hmem)
    · rw [List.length_append, List.length_singleton, hp.total]
      exact Nat.min_eq_left hfits
    · rw [List.length_append, List.length_singleton]
      exact hfits
    · exact windowBounded_push hp.bounded.window hp.recent hwindow
    · exact allowanceBounded_push hp.bounded.allowance hlen

/-- What is refused would break one of the bounds, or the counter is at its end. -/
theorem Records.admit_error (h : Records ledger clock times) (hle : clock ≤ now) {reason : String}
    (hgrant : (ledger.admitNow now).1 = .error reason) :
    Records (ledger.admitNow now).2 now times ∧
      (¬ Bounded ledger.started (times ++ [now]) ∨ times.length = u32Max) := by
  have hp := h.prune hle
  rcases admit_cases ledger now with ⟨_, heq, hwindow⟩ | ⟨_, heq, hallowance⟩ | ⟨_, _, heq⟩
  · rw [heq]
    refine ⟨hp, .inl fun hb => ?_⟩
    refine not_windowBounded_push hp.recent hp.past (fresh_dropWhile ?_) (by decide) hwindow hb.window
    obtain ⟨old, heq, _⟩ := h.recent
    exact (List.pairwise_append.mp (heq ▸ h.sorted)).2.1
  · rw [heq]
    refine ⟨hp, ?_⟩
    rw [allowance_eq, hp.total] at hallowance
    by_cases hend : times.length = u32Max
    · exact .inr hend
    · refine .inl fun hb => not_allowanceBounded_push hp.past hp.started ?_ hb.allowance
      have := hp.within
      omega
  · rw [heq] at hgrant
    cases hgrant

/-! The counter's end: re-logins a period apart keep both bounds, and are refused all the same once
the counter is full. -/

/-- The starts of the first periods. -/
def spaced (n : Nat) : List Nat := (List.range n).map (· * reauthenticationAllowancePeriod)

theorem spaced_succ (n : Nat) :
    spaced (n + 1) = spaced n ++ [n * reauthenticationAllowancePeriod] := by
  simp [spaced, List.range_succ]

theorem spaced_length (n : Nat) : (spaced n).length = n := by simp [spaced]

theorem spaced_bounded (n : Nat) : Bounded 0 (spaced n) := by
  have hperiod : reauthenticationWindow < reauthenticationAllowancePeriod := by decide
  have hpositive : 0 < reauthenticationAllowancePeriod := by decide
  constructor
  · suffices h : ∀ start, inWindow reauthenticationWindow start (spaced n) ≤ 1 from
      fun start => (h start).trans (by decide)
    intro start
    induction n with
    | zero => exact Nat.zero_le _
    | succ n ih =>
      rw [spaced_succ, inWindow_push]
      split
      · rename_i hin
        -- a period is longer than a window, so the earlier ones are out of it
        have hnone : inWindow reauthenticationWindow start (spaced n) = 0 := by
          refine List.countP_eq_zero.mpr fun at_ hmem => ?_
          obtain ⟨k, hk, rfl⟩ := List.mem_map.mp hmem
          have hstep : (k + 1) * reauthenticationAllowancePeriod ≤
              n * reauthenticationAllowancePeriod :=
            Nat.mul_le_mul_right _ (List.mem_range.mp hk)
          rw [Nat.succ_mul] at hstep
          simp only [decide_eq_true_eq]
          omega
        omega
      · exact ih
  · intro elapsed
    rw [Nat.zero_add]
    suffices h : upTo elapsed (spaced n) ≤ elapsed / reauthenticationAllowancePeriod + 1 by
      unfold reauthenticationsPerWindow
      omega
    induction n with
    | zero => exact Nat.zero_le _
    | succ n ih =>
      rw [spaced_succ, upTo_push]
      split
      · rename_i hin
        have hn : n ≤ elapsed / reauthenticationAllowancePeriod :=
          (Nat.le_div_iff_mul_le hpositive).mpr hin
        have hlen : upTo elapsed (spaced n) ≤ n :=
          Nat.le_trans upTo_le_length (Nat.le_of_eq (spaced_length n))
        omega
      · exact ih

/-- A ledger once the given times were asked for, in turn. -/
def after (ledger : ReauthenticationLedger) (times : List Nat) : ReauthenticationLedger :=
  times.foldl (fun ledger now => (ledger.admitNow now).2) ledger

theorem after_started (times : List Nat) : (ledger.after times).started = ledger.started := by
  unfold after
  induction times generalizing ledger with
  | nil => rfl
  | cons now times ih => exact ih.trans admit_started

theorem after_spaced_succ (n : Nat) : (new 0).after (spaced (n + 1)) =
    (((new 0).after (spaced n)).admitNow (n * reauthenticationAllowancePeriod)).2 := by
  rw [spaced_succ, after, List.foldl_append]
  rfl

theorem spaced_records (n : Nat) (hn : n ≤ u32Max) :
    Records ((new 0).after (spaced n)) (n * reauthenticationAllowancePeriod) (spaced n) := by
  induction n with
  | zero => exact records_new 0
  | succ n ih =>
    have hrecords := ih (Nat.le_of_succ_le hn)
    rw [after_spaced_succ]
    cases hgrant : (((new 0).after (spaced n)).admitNow (n * reauthenticationAllowancePeriod)).1 with
    | ok =>
      have h := hrecords.admit_ok (Nat.le_refl _) hgrant
      rw [← spaced_succ] at h
      exact h.later (Nat.mul_le_mul_right _ (Nat.le_succ n))
    | error reason =>
      obtain ⟨_, hbroken | hfull⟩ := hrecords.admit_error (Nat.le_refl _) hgrant
      · rw [← spaced_succ, after_started] at hbroken
        exact absurd (spaced_bounded (n + 1)) hbroken
      · rw [spaced_length] at hfull
        omega

theorem refused_at_end :
    (∃ reason, (((new 0).after (spaced u32Max)).admitNow
      (u32Max * reauthenticationAllowancePeriod)).1 = .error reason) ∧
      Bounded 0 (spaced u32Max ++ [u32Max * reauthenticationAllowancePeriod]) := by
  constructor
  · have hrecords := spaced_records u32Max (Nat.le_refl _)
    cases hgrant : (((new 0).after (spaced u32Max)).admitNow
        (u32Max * reauthenticationAllowancePeriod)).1 with
    | ok =>
      have hwithin := (hrecords.admit_ok (Nat.le_refl _) hgrant).within
      rw [List.length_append, spaced_length, List.length_singleton] at hwithin
      exact absurd hwithin (by decide)
    | error reason => exact ⟨reason, rfl⟩
  · rw [← spaced_succ]
    exact spaced_bounded (u32Max + 1)

end ReauthenticationLedger

end Session
end DriveSync
