import DriveSync.Audit.Types
import DriveSync.Lib.Records
import Mathlib.Data.List.Forall2

/-!
# DriveSync.Logs.Repair

The repair of a log whose last record was cut off: the record is ended if it is whole, and dropped if
it is not. Only the active log is ever written, and nothing is written behind a damage the repair
does not understand.

* `validateCanonicalLogRecords_ok`: what the repair takes for a sound log.
* `mend_ok`: what it does to one.
* `repair_restores`: what it leaves of them all, and that doing it again does nothing.
-/

namespace DriveSync
namespace Logs

open Audit (ErrorKind BridgeResult guardThat)
open Records (AllEnded ended tailStart)
open Lines (unlines)

abbrev Bytes : Type := List UInt8

def newline : UInt8 := 10

/-! ## Records of a log -/

def requireCanonicalLogTermination (bytes : Bytes) : BridgeResult Unit :=
  guardThat (bytes.isEmpty || bytes.getLast? == some newline) .unsafeRuntime

variable {T : Type}

def validateCanonicalLogRecords (validateLine : Bytes → BridgeResult T) (bytes : Bytes) :
    BridgeResult Unit := do
  requireCanonicalLogTermination bytes
  if bytes.isEmpty then .ok ()
  else
    let records := bytes.dropLast
    guardThat (!records.isEmpty) .unsafeRuntime
    (records.splitOn newline).forM fun line => do
      guardThat (!line.isEmpty) .unsafeRuntime
      let _ ← validateLine line
      pure ()

/-! ## Files -/

structure LogFile where
  regular : Bool
  uid : Nat
  mode : Nat
  links : Nat
  bytes : Bytes
deriving DecidableEq, Repr

/-- What one of the paths of a log names. -/
inductive Slot where
  | absent
  | unopenable
  | file (file : LogFile)
deriving DecidableEq, Repr

/-- What may fail while the logs are repaired, by the place of the file among them. -/
inductive IoStep where
  | openFile (index : Nat)
  | stat (index : Nat)
  | readFile (index : Nat)
  | append (index : Nat)
  | truncate (index : Nat)
  | sync (index : Nat)
  | syncDirectory
deriving DecidableEq, Repr

abbrev Faults : Type := IoStep → Bool

def noFaults : Faults := fun _ => false

def attempt (faults : Faults) (step : IoStep) : BridgeResult Unit :=
  guardThat (!faults step) .unsafeRuntime

section Repair

variable (validateLine : Bytes → BridgeResult T) (packageUid maximum : Nat) (faults : Faults)

/-- The package's own plain file, and not too long. -/
def LogFile.isPrivate (packageUid maximum : Nat) (file : LogFile) : Bool :=
  file.regular && file.uid == packageUid && file.mode % 4096 == 384 && file.links == 1 &&
    decide (file.bytes.length ≤ maximum)

/-- What is checked before the content is looked at. -/
def inspect (index : Nat) (file : LogFile) : BridgeResult Unit := do
  attempt faults (.openFile index)
  attempt faults (.stat index)
  guardThat (file.isPrivate packageUid maximum) .unsafeRuntime
  attempt faults (.readFile index)

/-- The last record is ended or dropped, if it lacks its end. -/
def mend (index : Nat) (bytes : Bytes) : BridgeResult Bool × Bytes :=
  if bytes.isEmpty || bytes.getLast? == some newline then (.ok false, bytes)
  else if index ≠ 0 then (.error .unsafeRuntime, bytes)
  else
    let start := tailStart newline bytes
    match validateCanonicalLogRecords validateLine (bytes.take start) with
    | .error error => (.error error, bytes)
    | .ok () =>
      match validateLine (bytes.drop start) with
      | .ok _ =>
        if bytes.length = maximum ∨ faults (.append index) then (.error .unsafeRuntime, bytes)
        else ((attempt faults (.sync index)).map fun _ => true, bytes ++ [newline])
      | .error _ =>
        if faults (.truncate index) then (.error .unsafeRuntime, bytes)
        else ((attempt faults (.sync index)).map fun _ => true, bytes.take start)

def repairFile (index : Nat) (file : LogFile) : BridgeResult Bool × LogFile :=
  match inspect packageUid maximum faults index file with
  | .error error => (.error error, file)
  | .ok () =>
    let mended := mend validateLine maximum faults index file.bytes
    let repaired : BridgeResult Bool := do
      let repaired ← mended.1
      validateCanonicalLogRecords validateLine mended.2
      .ok repaired
    (repaired, { file with bytes := mended.2 })

def repairSlot (index : Nat) : Slot → BridgeResult Bool × Slot
  | .absent => (.ok false, .absent)
  | .unopenable => (.error .unsafeRuntime, .unopenable)
  | .file file =>
    let repaired := repairFile validateLine packageUid maximum faults index file
    (repaired.1, .file repaired.2)

/-- The files in turn, up to the first that cannot be repaired. -/
def repairFrom (index : Nat) : List Slot → BridgeResult Bool × List Slot
  | [] => (.ok false, [])
  | slot :: slots =>
    match repairSlot validateLine packageUid maximum faults index slot with
    | (.error error, slot) => (.error error, slot :: slots)
    | (.ok repaired, slot) =>
      let rest := repairFrom (index + 1) slots
      (rest.1.map fun more => repaired || more, slot :: rest.2)

/-- `rootPrivate` says whether the directory is the package's own. -/
def repairDurableLogTailAt (rootPrivate : Bool) (slots : List Slot) :
    BridgeResult Bool × List Slot :=
  if !rootPrivate then (.error .unsafeRuntime, slots)
  else
    match repairFrom validateLine packageUid maximum faults 0 slots with
    | (.error error, slots) => (.error error, slots)
    | (.ok repaired, slots) =>
      (if repaired then (attempt faults .syncDirectory).map fun _ => true else .ok false, slots)

end Repair

/-! ## Sound logs -/

/-- Nothing but sound records, each ended. -/
def Canonical (validateLine : Bytes → BridgeResult T) (bytes : Bytes) : Prop :=
  ∃ lines, bytes = unlines newline lines ∧
    ∀ line ∈ lines, newline ∉ line ∧ line ≠ [] ∧ ∃ parsed, validateLine line = .ok parsed

variable {validateLine : Bytes → BridgeResult T} {packageUid maximum index : Nat} {faults : Faults}
  {bytes : Bytes}

theorem forM_eq_ok {α : Type} {f : α → BridgeResult Unit} {l : List α} :
    l.forM f = .ok () ↔ ∀ a ∈ l, f a = .ok () := by
  induction l with
  | nil =>
    simp only [List.not_mem_nil, false_implies, implies_true, iff_true]
    rfl
  | cons a l ih =>
    rw [List.forall_mem_cons, ← ih]
    change (f a >>= fun _ => l.forM f) = _ ↔ _
    cases h : f a with
    | error e => simp [bind, Except.bind]
    | ok => simp [bind, Except.bind]

theorem guardThat_isEmpty {line : Bytes} :
    guardThat (!line.isEmpty) .unsafeRuntime = .ok () ↔ line ≠ [] := by
  rw [Audit.guardThat_ok]
  simp

theorem checkLine_ok {line : Bytes} : (do
      guardThat (!line.isEmpty) .unsafeRuntime
      let _ ← validateLine line
      pure () : BridgeResult Unit) = .ok () ↔
    line ≠ [] ∧ ∃ parsed, validateLine line = .ok parsed := by
  rw [← guardThat_isEmpty]
  cases guardThat (!line.isEmpty) ErrorKind.unsafeRuntime with
  | error e => simp [bind, Except.bind]
  | ok =>
    cases validateLine line with
    | error e => simp [bind, Except.bind]
    | ok parsed => simp [bind, Except.bind, pure, Except.pure]

theorem allEnded_unlines (lines : List Bytes) : AllEnded newline (unlines newline lines) := by
  cases lines with
  | nil => exact .inl rfl
  | cons line lines =>
    rw [Records.unlines_eq_intercalate (by simp)]
    exact .inr List.getLast?_concat

theorem Canonical.allEnded (h : Canonical validateLine bytes) : AllEnded newline bytes := by
  obtain ⟨lines, rfl, -⟩ := h
  exact allEnded_unlines lines

theorem validateCanonicalLogRecords_ok :
    validateCanonicalLogRecords validateLine bytes = .ok () ↔ Canonical validateLine bytes := by
  unfold validateCanonicalLogRecords requireCanonicalLogTermination
  constructor
  · intro h
    obtain ⟨_, hended, h⟩ := Loop.bind_eq_ok.mp h
    rw [Audit.guardThat_ok, Bool.or_eq_true, List.isEmpty_iff, beq_iff_eq] at hended
    split at h
    · rename_i hempty
      exact ⟨[], List.isEmpty_iff.mp hempty, fun _ hmem => by cases hmem⟩
    · rename_i hne
      obtain ⟨records, rfl⟩ : ∃ records, bytes = records ++ [newline] := by
        rcases hended with rfl | hended
        · exact absurd rfl hne
        · exact List.getLast?_eq_some_iff.mp hended
      obtain ⟨_, -, h⟩ := Loop.bind_eq_ok.mp h
      rw [List.dropLast_concat] at h
      refine ⟨records.splitOn newline, (Records.unlines_splitOn newline records).symm,
        fun line hmem => ⟨Records.not_mem_of_mem_splitOn hmem, ?_⟩⟩
      exact checkLine_ok.mp (forM_eq_ok.mp h line hmem)
  · rintro ⟨lines, rfl, hlines⟩
    have hended : ((unlines newline lines).isEmpty ||
        (unlines newline lines).getLast? == some newline) = true := by
      simpa [AllEnded] using allEnded_unlines lines
    refine Loop.bind_eq_ok.mpr ⟨(), Audit.guardThat_ok.mpr hended, ?_⟩
    cases lines with
    | nil => rfl
    | cons line lines =>
      have hsplit := Records.splitOn_unlines (fun l hl => (hlines l hl).1)
        (List.cons_ne_nil line lines)
      have hrecords : (unlines newline (line :: lines)).dropLast ≠ [] := by
        obtain ⟨c, line', hline⟩ := List.exists_cons_of_ne_nil (hlines line (.head _)).2.1
        rw [hline, unlines, List.cons_append, List.dropLast_cons_of_ne_nil (by simp)]
        simp
      rw [if_neg (by simp [unlines])]
      refine Loop.bind_eq_ok.mpr ⟨(), guardThat_isEmpty.mpr hrecords, ?_⟩
      rw [hsplit]
      exact forM_eq_ok.mpr fun l hl => checkLine_ok.mpr (hlines l hl).2

/-! ## One log -/

/-- What a repair may do to a log: nothing, or one thing to a last record without its end. -/
inductive Mended (validateLine : Bytes → BridgeResult T) (before : Bytes) : Bytes → Prop where
  | kept : Mended validateLine before before
  | completed (whole fragment : Bytes) (parsed : T) (hsplit : before = whole ++ fragment)
    (hwhole : AllEnded newline whole) (hfragment : newline ∉ fragment) (hne : fragment ≠ [])
    (hvalid : validateLine fragment = .ok parsed) :
    Mended validateLine before (before ++ [newline])
  | dropped (whole fragment : Bytes) (error : ErrorKind) (hsplit : before = whole ++ fragment)
    (hwhole : AllEnded newline whole) (hfragment : newline ∉ fragment) (hne : fragment ≠ [])
    (hinvalid : validateLine fragment = .error error) : Mended validateLine before whole

theorem Mended.ended_prefix {after : Bytes} (h : Mended validateLine bytes after) :
    ended newline bytes <+: ended newline after := by
  cases h with
  | kept => exact List.prefix_refl _
  | completed => exact Records.ended_prefix newline bytes
  | dropped _ fragment error hsplit hwhole hfragment =>
    rw [hsplit, Records.ended_append_fragment hwhole hfragment]

theorem mend_ended (h : AllEnded newline bytes) :
    mend validateLine maximum faults index bytes = (.ok false, bytes) := by
  have hended : (bytes.isEmpty || bytes.getLast? == some newline) = true := by
    simpa [AllEnded] using h
  unfold mend
  rw [if_pos hended]

theorem repaired_of_sync {repaired : Bool} {step : IoStep}
    (h : (attempt faults step).map (fun _ => true) = .ok repaired) : repaired = true := by
  cases hsync : attempt faults step with
  | error e =>
    rw [hsync] at h
    cases h
  | ok =>
    rw [hsync] at h
    exact (Except.ok.inj h).symm

theorem mend_ok {repaired : Bool} {after : Bytes}
    (h : mend validateLine maximum faults index bytes = (.ok repaired, after)) :
    Mended validateLine bytes after ∧ (repaired = false ↔ after = bytes) ∧
      (index ≠ 0 → after = bytes) ∧
      (bytes.length ≤ maximum → after.length ≤ maximum) := by
  unfold mend at h
  split at h
  · obtain ⟨hrepaired, rfl⟩ := Prod.mk.inj h
    obtain rfl := Except.ok.inj hrepaired
    exact ⟨.kept, by simp, fun _ => rfl, id⟩
  rename_i hunended
  split at h
  · cases (Prod.mk.inj h).1
  rename_i hactive
  dsimp only at h
  obtain ⟨hwhole, hfragment⟩ := Records.cut_at_tailStart newline bytes
  have hsplit : bytes = bytes.take (tailStart newline bytes) ++
      bytes.drop (tailStart newline bytes) := (List.take_append_drop _ _).symm
  generalize bytes.take (tailStart newline bytes) = whole at h hwhole hsplit
  generalize bytes.drop (tailStart newline bytes) = fragment at h hfragment hsplit
  have hne : fragment ≠ [] := by
    rintro rfl
    rw [List.append_nil] at hsplit
    subst hsplit
    exact hunended (by simpa [AllEnded] using hwhole)
  split at h
  · cases (Prod.mk.inj h).1
  split at h
  · rename_i parsed hvalid
    split at h
    · cases (Prod.mk.inj h).1
    · rename_i hroom
      obtain ⟨hrepaired, rfl⟩ := Prod.mk.inj h
      have hlength : bytes.length ≠ maximum := fun heq => hroom (.inl heq)
      refine ⟨.completed whole fragment parsed hsplit hwhole hfragment hne hvalid, ?_,
        fun hindex => absurd hindex hactive, fun hle => ?_⟩
      · rw [repaired_of_sync hrepaired]
        simp
      · rw [List.length_append, List.length_singleton]
        omega
  · rename_i error hinvalid
    split at h
    · cases (Prod.mk.inj h).1
    · obtain ⟨hrepaired, rfl⟩ := Prod.mk.inj h
      refine ⟨.dropped whole fragment error hsplit hwhole hfragment hne hinvalid, ?_,
        fun hindex => absurd hindex hactive, fun hle => ?_⟩
      · rw [repaired_of_sync hrepaired]
        simp [hsplit, hne]
      · rw [hsplit, List.length_append] at hle
        omega

/-! ## All of them -/

/-- What became of a path: a file keeps everything but what the repair does to its end. -/
inductive SlotMended (validateLine : Bytes → BridgeResult T) : Slot → Slot → Prop where
  | absent : SlotMended validateLine .absent .absent
  | file (file : LogFile) (bytes : Bytes) (hmended : Mended validateLine file.bytes bytes)
    (hcanonical : Canonical validateLine bytes) :
    SlotMended validateLine (.file file) (.file { file with bytes := bytes })

/-- What passes every check, and is sound. -/
def Sound (validateLine : Bytes → BridgeResult T) (packageUid maximum : Nat) : Slot → Prop
  | .absent => True
  | .unopenable => False
  | .file file => file.isPrivate packageUid maximum = true ∧ Canonical validateLine file.bytes

theorem isPrivate_of_inspect {file : LogFile}
    (h : inspect packageUid maximum faults index file = .ok ()) :
    file.isPrivate packageUid maximum = true := by
  unfold inspect at h
  obtain ⟨_, -, h⟩ := Loop.bind_eq_ok.mp h
  obtain ⟨_, -, h⟩ := Loop.bind_eq_ok.mp h
  obtain ⟨_, hguard, -⟩ := Loop.bind_eq_ok.mp h
  exact Audit.guardThat_ok.mp hguard

theorem inspect_noFaults {file : LogFile} (h : file.isPrivate packageUid maximum = true) :
    inspect packageUid maximum noFaults index file = .ok () := by
  unfold inspect
  rw [h]
  rfl

theorem length_le_of_isPrivate {file : LogFile} (h : file.isPrivate packageUid maximum = true) :
    file.bytes.length ≤ maximum := by
  unfold LogFile.isPrivate at h
  rw [Bool.and_eq_true] at h
  exact of_decide_eq_true h.2

theorem isPrivate_with {file : LogFile} (h : file.isPrivate packageUid maximum = true)
    (hlength : bytes.length ≤ maximum) :
    LogFile.isPrivate packageUid maximum { file with bytes := bytes } = true := by
  unfold LogFile.isPrivate at h ⊢
  rw [Bool.and_eq_true] at h ⊢
  exact ⟨h.1, decide_eq_true hlength⟩

theorem repairSlot_ok {slot slot' : Slot} {repaired : Bool}
    (h : repairSlot validateLine packageUid maximum faults index slot = (.ok repaired, slot')) :
    SlotMended validateLine slot slot' ∧ Sound validateLine packageUid maximum slot' ∧
      (repaired = false ↔ slot' = slot) ∧ (index ≠ 0 → slot' = slot) := by
  cases slot with
  | absent =>
    obtain ⟨hrepaired, rfl⟩ := Prod.mk.inj h
    obtain rfl := Except.ok.inj hrepaired
    exact ⟨.absent, trivial, by simp, fun _ => rfl⟩
  | unopenable => cases (Prod.mk.inj h).1
  | file file =>
    unfold repairSlot repairFile at h
    dsimp only at h
    split at h
    · cases (Prod.mk.inj h).1
    rename_i hinspect
    obtain ⟨hok, rfl⟩ := Prod.mk.inj h
    dsimp only at hok ⊢
    obtain ⟨repaired', hmend, hok⟩ := Loop.bind_eq_ok.mp hok
    obtain ⟨_, hcanonical, hok⟩ := Loop.bind_eq_ok.mp hok
    obtain rfl := Except.ok.inj hok
    generalize hafter : (mend validateLine maximum faults index file.bytes).2 = after at hcanonical ⊢
    obtain ⟨hmended, hrepaired, hactive, hlength⟩ := mend_ok (Prod.ext hmend hafter)
    have hprivate := isPrivate_of_inspect hinspect
    rw [validateCanonicalLogRecords_ok] at hcanonical
    have hsame : (Slot.file { file with bytes := after } = .file file) ↔ after = file.bytes := by
      constructor
      · intro heq
        exact congrArg LogFile.bytes (Slot.file.inj heq)
      · rintro rfl
        rfl
    refine ⟨.file file after hmended hcanonical, ⟨?_, hcanonical⟩, ?_, ?_⟩
    · exact isPrivate_with hprivate (hlength (length_le_of_isPrivate hprivate))
    · rw [hsame]
      exact hrepaired
    · rw [hsame]
      exact hactive

/-- A sound log is left as it is, and found in order if nothing fails. -/
theorem repairSlot_sound (faults : Faults) (index : Nat) {slot : Slot}
    (h : Sound validateLine packageUid maximum slot) :
    (repairSlot validateLine packageUid maximum faults index slot).2 = slot ∧
      repairSlot validateLine packageUid maximum noFaults index slot = (.ok false, slot) := by
  cases slot with
  | absent => exact ⟨rfl, rfl⟩
  | unopenable => exact absurd h id
  | file file =>
    obtain ⟨hprivate, hcanonical⟩ := h
    have hmend (faults : Faults) : mend validateLine maximum faults index file.bytes =
        (.ok false, file.bytes) := mend_ended hcanonical.allEnded
    have hvalid := validateCanonicalLogRecords_ok.mpr hcanonical
    constructor
    · unfold repairSlot repairFile
      dsimp only
      split
      · rfl
      · rw [hmend]
    · unfold repairSlot repairFile
      dsimp only
      rw [inspect_noFaults hprivate]
      dsimp only
      rw [hmend]
      dsimp only
      rw [hvalid]
      rfl

theorem repairFrom_ok {slots slots' : List Slot} {repaired : Bool}
    (h : repairFrom validateLine packageUid maximum faults index slots = (.ok repaired, slots')) :
    List.Forall₂ (SlotMended validateLine) slots slots' ∧
      (∀ slot ∈ slots', Sound validateLine packageUid maximum slot) ∧
      (repaired = false ↔ slots' = slots) ∧ (index ≠ 0 → slots' = slots) ∧
      slots'.tail = slots.tail := by
  induction slots generalizing index repaired slots' with
  | nil =>
    obtain ⟨hrepaired, rfl⟩ := Prod.mk.inj h
    obtain rfl := Except.ok.inj hrepaired
    exact ⟨.nil, fun _ hmem => (by cases hmem), by simp, fun _ => rfl, rfl⟩
  | cons slot slots ih =>
    unfold repairFrom at h
    split at h
    · cases (Prod.mk.inj h).1
    · rename_i first slot' hslot
      obtain ⟨hmended, hsound, hfirst, hkept⟩ := repairSlot_ok hslot
      generalize hrun : repairFrom validateLine packageUid maximum faults (index + 1) slots = run at h
      obtain ⟨result, rest⟩ := run
      obtain ⟨hrest, rfl⟩ := Prod.mk.inj h
      cases result with
      | error e => cases hrest
      | ok more =>
        obtain rfl := Except.ok.inj hrest
        obtain ⟨hall, hsounds, hmore, hrestKept, -⟩ := ih hrun
        obtain rfl := hrestKept (Nat.succ_ne_zero index)
        have hmoreFalse : more = false := hmore.mpr rfl
        refine ⟨.cons hmended hall, ?_, ?_, fun hindex => by rw [hkept hindex], rfl⟩
        · intro s hmem
          rcases List.mem_cons.mp hmem with rfl | hmem
          · exact hsound
          · exact hsounds s hmem
        · rw [hmoreFalse]
          simp [hfirst]

theorem repairFrom_sound (faults : Faults) (index : Nat) {slots : List Slot}
    (h : ∀ slot ∈ slots, Sound validateLine packageUid maximum slot) :
    (repairFrom validateLine packageUid maximum faults index slots).2 = slots ∧
      repairFrom validateLine packageUid maximum noFaults index slots = (.ok false, slots) := by
  induction slots generalizing index with
  | nil => exact ⟨rfl, rfl⟩
  | cons slot slots ih =>
    obtain ⟨hkept, hquiet⟩ := repairSlot_sound faults index (h slot (.head _))
    obtain ⟨hrestKept, hrestQuiet⟩ := ih (index + 1) fun s hs => h s (.tail _ hs)
    constructor
    · unfold repairFrom
      split
      · rename_i hslot
        rw [hslot] at hkept
        rw [← hkept]
      · rename_i hslot
        rw [hslot] at hkept
        dsimp only
        rw [hrestKept, ← hkept]
    · unfold repairFrom
      rw [hquiet, hrestQuiet]
      rfl

/-- What a repair that goes through leaves. -/
structure Restored (validateLine : Bytes → BridgeResult T) (before after : List Slot)
    (repaired : Bool) : Prop where
  /-- Every file holds sound records only, each ended. -/
  canonical : ∀ file, .file file ∈ after → Canonical validateLine file.bytes
  /-- Every path is what it was, but for the end of a file. -/
  slots : List.Forall₂ (SlotMended validateLine) before after
  /-- Every record that was ended still is, in its file and in its order. -/
  lossless : List.Forall₂ (fun slot slot' => ∀ file file', slot = .file file →
    slot' = .file file' → ended newline file.bytes <+: ended newline file'.bytes) before after
  rotated : after.tail = before.tail
  changed : repaired = false ↔ after = before

/-- A repair loses nothing but a record that was never whole, and has no more to do the next time. -/
theorem repair_restores {rootPrivate : Bool} {before after : List Slot} {repaired : Bool}
    (h : repairDurableLogTailAt validateLine packageUid maximum faults rootPrivate before =
      (.ok repaired, after)) :
    Restored validateLine before after repaired ∧
      (∀ faults', (repairDurableLogTailAt validateLine packageUid maximum faults' rootPrivate
        after).2 = after) ∧
      repairDurableLogTailAt validateLine packageUid maximum noFaults rootPrivate after =
        (.ok false, after) := by
  unfold repairDurableLogTailAt at h
  split at h
  · cases (Prod.mk.inj h).1
  rename_i hroot
  split at h
  · cases (Prod.mk.inj h).1
  rename_i found slots hrun
  obtain ⟨hfound, rfl⟩ := Prod.mk.inj h
  have hsame : found = repaired := by
    split at hfound
    · rename_i htrue
      rw [htrue, repaired_of_sync hfound]
    · rename_i hfalse
      rw [← Except.ok.inj hfound]
      simpa using hfalse
  subst hsame
  obtain ⟨hslots, hsounds, hchanged, -, htail⟩ := repairFrom_ok hrun
  refine ⟨⟨fun file hmem => (hsounds _ hmem).2, hslots, hslots.imp ?_, htail, hchanged⟩, ?_, ?_⟩
  · intro slot slot' hmended file file' heq heq'
    cases hmended with
    | absent => cases heq
    | file file₀ bytes hmended =>
      obtain rfl := Slot.file.inj heq
      obtain rfl := Slot.file.inj heq'
      exact hmended.ended_prefix
  · intro faults'
    unfold repairDurableLogTailAt
    rw [if_neg hroot]
    have hkept := (repairFrom_sound faults' 0 hsounds).1
    split
    · rename_i heq
      rw [heq] at hkept
      exact hkept
    · rename_i heq
      rw [heq] at hkept
      exact hkept
  · unfold repairDurableLogTailAt
    rw [if_neg hroot, (repairFrom_sound noFaults 0 hsounds).2]
    rfl

/-- Two logs of records that say `A`, the newer cut off before its last newline. -/
theorem repair_restores_cut_off :
    let onlyA : Bytes → BridgeResult Unit := fun line => guardThat (line == [65]) .unsafeRuntime
    let log (bytes : Bytes) : Slot := .file ⟨true, 1, 384, 1, bytes⟩
    let before := [log [65, 10, 65], .absent, log [65, 10]]
    let after := [log [65, 10, 65, 10], .absent, log [65, 10]]
    Restored onlyA before after true ∧
      (∀ faults, (repairDurableLogTailAt onlyA 1 9 faults true after).2 = after) ∧
      repairDurableLogTailAt onlyA 1 9 noFaults true after = (.ok false, after) :=
  @repair_restores Unit _ 1 9 noFaults true _ _ _ (by decide +kernel)

end Logs
end DriveSync
