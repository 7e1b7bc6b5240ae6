import DriveSync.Lib.Total
import DriveSync.Logs.Feed

/-!
# DriveSync.Logs.Tail

The newest lines of a log, read backwards from its last file in pieces, until enough were found or
the scan's budget is spent.

* `walkBack_ok`: a file read backwards shows its lines, whole and newest first.
* `tail_reads_forwards`: the answer is that of reading everything forwards.
-/

namespace DriveSync
namespace Logs

open Audit (ErrorKind BridgeResult)
open Recent (LongestEnd visitAll)

/-! ## One file -/

/-- A file of a log as it was opened: its bytes, and the positions where a read fails. -/
structure TailFile where
  bytes : Bytes
  fails : Nat → Bool

def TailFile.readExactAt (file : TailFile) (size position : Nat) : BridgeResult Bytes :=
  if file.fails position then .error .unsafeRuntime
  else .ok ((file.bytes.drop position).take size)

/-- How much is read at once; never nothing. -/
structure ChunkSize where
  bytes : Nat
  pos : 0 < bytes

section Walk

variable {σ : Type} (visit : Bytes → σ → σ × Bool)

/-- How a walk over a file ended: whether the budget ended it, what is left of that, the visitor. -/
structure Walked (σ : Type) where
  limited : Bool
  budget : Nat
  state : σ

/-- The lines that end in a piece, newest first; what stands before them, unless the visitor broke. -/
def visitChunk (combined : Bytes) (state : σ) : σ × Option Bytes :=
  match _h : Records.rposition (fun byte => byte == newline) combined with
  | none => (state, some combined)
  | some index =>
    match visit (combined.drop (index + 1)) state with
    | (state, true) => (state, none)
    | (state, false) => visitChunk (combined.take index) state
termination_by combined.length
decreasing_by
  obtain ⟨front, back, rfl, rfl, -⟩ := Records.rposition_eq_some _h
  simp

def walkBack (file : TailFile) (chunk : ChunkSize) (position budget : Nat) (carry : Bytes)
    (state : σ) : BridgeResult (Walked σ) :=
  if position = 0 then
    -- the file's first line, which no newline precedes
    .ok ⟨false, budget, if 0 < file.bytes.length then (visit carry state).1 else state⟩
  else if budget = 0 then .ok ⟨true, budget, state⟩
  else
    let size := min chunk.bytes (min position budget)
    match file.readExactAt size (position - size) with
    | .error error => .error error
    | .ok read =>
      match visitChunk visit (read ++ carry) state with
      | (state, none) => .ok ⟨false, budget - size, state⟩
      | (state, some carry) =>
        walkBack file chunk (position - size) (budget - size) carry state
termination_by position
decreasing_by
  have := chunk.pos
  omega

/-- Where the walk starts: a final newline ends the last line, it does not start an empty one. -/
def walkStart (file : TailFile) : BridgeResult Nat :=
  if 0 < file.bytes.length then do
    let last ← file.readExactAt 1 (file.bytes.length - 1)
    .ok (if last.head? = some newline then file.bytes.length - 1 else file.bytes.length)
  else .ok 0

def visitLinesNewestFirst (file : TailFile) (chunk : ChunkSize) (budget : Nat) (state : σ) :
    BridgeResult (Walked σ) := do
  let position ← walkStart file
  walkBack visit file chunk position budget [] state

end Walk

/-! ## One source -/

def maxLogLineBytes : Nat := 8192

def maxRedactLineBytes : Nat := 32768

def withheldLine (rawBytes : Nat) : String :=
  "[line too long: " ++ toString rawBytes ++ " bytes, withheld]"

/-- How a source is read: which lines the policy shows by their head, how a line is redacted, and
whether the deadline has passed when the clock is looked at for the nth time. -/
structure LogReader where
  visible : Bytes → Bool
  apply : Bytes → String
  passed : Nat → Bool

/-- What was chosen so far, newest first. -/
structure TailState where
  selected : List String
  selectedBytes : Nat
  done : Bool
  deadlineReached : Bool
  looks : Nat
deriving DecidableEq, Repr

structure SourceTail where
  lines : List String
  scanLimited : Bool
  deadlineReached : Bool
deriving DecidableEq, Repr

section Source

variable (reader : LogReader) (chunk : ChunkSize) (requested byteLimit : Nat)

/-- Redacted whole, or withheld whole. -/
def LogReader.shown (line : Bytes) : String :=
  if maxRedactLineBytes < line.length then withheldLine line.length else reader.apply line

/-- A line is looked at and chosen, or the walk ends. -/
def pick (line : Bytes) (state : TailState) : TailState × Bool :=
  if reader.passed state.looks then ({ state with deadlineReached := true }, true)
  else
    let state := { state with looks := state.looks + 1 }
    if !reader.visible (line.take maxLogLineBytes) then (state, false)
    else
      let shown := reader.shown line
      let cost := Audit.Json.stringLength shown + if state.selected.isEmpty then 0 else 1
      if byteLimit < state.selectedBytes + cost then ({ state with done := true }, true)
      else
        let state := { state with
          selected := state.selected ++ [shown]
          selectedBytes := state.selectedBytes + cost }
        if state.selected.length = requested then ({ state with done := true }, true)
        else (state, false)

/-- The files, newest first. -/
def tailFiles : List TailFile → Nat → TailState → BridgeResult (TailState × Bool)
  | [], _, state => .ok (state, false)
  | file :: older, budget, state => do
    let walked ← visitLinesNewestFirst (pick reader requested byteLimit) file chunk budget
      { state with done := false }
    if walked.state.done || walked.limited || walked.state.deadlineReached then
      .ok (walked.state, walked.limited)
    else tailFiles older walked.budget walked.state

/-- Every file is opened before any is read; one that is not there is left out. -/
def openAll : List (BridgeResult (Option TailFile)) → BridgeResult (List TailFile)
  | [] => .ok []
  | slot :: slots => do
    let file ← slot
    let files ← openAll slots
    .ok (file.toList ++ files)

/-- The newest lines of a source, oldest first; `slots` is what opening its files gave. -/
def tailLogSource (scanBudget : Nat) (slots : List (BridgeResult (Option TailFile))) :
    BridgeResult SourceTail :=
  if reader.passed 0 then .ok ⟨[], true, true⟩
  else do
    let opened ← openAll slots
    let (state, limited) ← tailFiles reader chunk requested byteLimit opened.reverse scanBudget
      ⟨[], 2, false, false, 1⟩
    .ok ⟨state.selected.reverse, limited || state.deadlineReached, state.deadlineReached⟩

end Source

/-! ## A file read backwards -/

section Backwards

open Records (rposition_eq_none rposition_eq_some)

variable {σ : Type} {visit : Bytes → σ → σ × Bool} {file : TailFile} {chunk : ChunkSize}
  {state : σ} {walked : Walked σ} {position budget : Nat} {carry : Bytes}

/-- The lines of what stands before a piece and of the piece, newest first. -/
def linesBack (text : Bytes) : List Bytes := (text.splitOn newline).reverse

theorem linesBack_append (text rest : Bytes) :
    linesBack (text ++ newline :: rest) = linesBack rest ++ linesBack text := by
  unfold linesBack
  rw [List.splitOn_append_cons_self, List.reverse_append]

theorem linesBack_of_not_mem {text : Bytes} (h : newline ∉ text) : linesBack text = [text] := by
  unfold linesBack
  rw [List.splitOn_eq_singleton h]
  rfl

/-- A piece shows the lines that end in it; the rest of it is carried on. -/
theorem visitChunk_some (before combined : Bytes) {state' : σ}
    (h : visitChunk visit combined state = (state', some carry)) :
    newline ∉ carry ∧ ∃ seen, linesBack (before ++ combined) = seen ++ linesBack (before ++ carry) ∧
      visitAll visit seen state = (state', false) := by
  fun_induction visitChunk visit combined state with
  | case1 combined state hnone =>
    obtain ⟨rfl, hcarry⟩ := Prod.mk.inj h
    obtain rfl := Option.some.inj hcarry
    exact ⟨rposition_eq_none hnone, [], rfl, rfl⟩
  | case2 combined state index hsome next hbroke => cases (Prod.mk.inj h).2
  | case3 combined state index hsome next hvisit ih =>
    obtain ⟨front, back, rfl, rfl, hback⟩ := rposition_eq_some hsome
    have hdrop : (front ++ newline :: back).drop (front.length + 1) = back := by simp
    rw [List.take_left] at h ih
    rw [hdrop] at hvisit
    obtain ⟨hcarry, seen, hlines, hseen⟩ := ih h
    refine ⟨hcarry, back :: seen, ?_, ?_⟩
    · rw [← List.append_assoc, linesBack_append, linesBack_of_not_mem hback, hlines]
      rfl
    · rw [visitAll, hvisit]
      exact hseen

theorem visitChunk_none (before combined : Bytes) {state' : σ}
    (h : visitChunk visit combined state = (state', none)) :
    ∃ seen rest, linesBack (before ++ combined) = seen ++ rest ∧
      visitAll visit seen state = (state', true) := by
  fun_induction visitChunk visit combined state with
  | case1 combined state hnone => cases (Prod.mk.inj h).2
  | case2 combined state index hsome next hbroke =>
    obtain ⟨rfl, -⟩ := Prod.mk.inj h
    obtain ⟨front, back, rfl, rfl, hback⟩ := rposition_eq_some hsome
    have hdrop : (front ++ newline :: back).drop (front.length + 1) = back := by simp
    rw [hdrop] at hbroke
    refine ⟨[back], linesBack (before ++ front), ?_, ?_⟩
    · rw [← List.append_assoc, linesBack_append, linesBack_of_not_mem hback]
    · rw [Recent.visitAll_singleton, hbroke]
  | case3 combined state index hsome next hvisit ih =>
    obtain ⟨front, back, rfl, rfl, hback⟩ := rposition_eq_some hsome
    have hdrop : (front ++ newline :: back).drop (front.length + 1) = back := by simp
    rw [List.take_left] at h ih
    rw [hdrop] at hvisit
    obtain ⟨seen, rest, hlines, hseen⟩ := ih h
    refine ⟨back :: seen, rest, ?_, ?_⟩
    · rw [← List.append_assoc, linesBack_append, linesBack_of_not_mem hback, hlines]
      rfl
    · rw [visitAll, hvisit]
      exact hseen

/-- How a walk over lines ended, with how many bytes there were to scan and how many it could. -/
inductive Ended (visit : Bytes → σ → σ × Bool) (lines : List Bytes) (state : σ)
    (bytes budget : Nat) : Walked σ → Prop where
  /-- All of them were shown, or as many as the visitor wanted. -/
  | shown (seen rest : List Bytes) (walked : Walked σ) (broke : Bool)
    (hlines : lines = seen ++ rest) (hvisit : visitAll visit seen state = (walked.state, broke))
    (hall : broke = false → rest = [] ∧ budget = walked.budget + bytes)
    (hlimited : walked.limited = false) : Ended visit lines state bytes budget walked
  /-- The budget was spent before the first of them was reached. -/
  | spent (seen rest : List Bytes) (walked : Walked σ)
    (hlines : lines = seen ++ rest) (hvisit : visitAll visit seen state = (walked.state, false))
    (hless : budget < bytes) (hlimited : walked.limited = true) :
    Ended visit lines state bytes budget walked

/-- What was shown before comes first. -/
theorem Ended.after {lines seen : List Bytes} {state' : σ} {bytes bytes' budget' : Nat}
    (h : Ended visit lines state' bytes budget walked)
    (hseen : visitAll visit seen state = (state', false))
    (hbytes : bytes' + budget = bytes + budget') :
    Ended visit (seen ++ lines) state bytes' budget' walked := by
  cases h with
  | shown seen' rest _ broke hlines hvisit hall hlimited =>
    refine .shown (seen ++ seen') rest walked broke (by rw [hlines, List.append_assoc]) ?_ ?_ hlimited
    · rw [Recent.visitAll_append hseen, hvisit]
    · intro hbroke
      obtain ⟨hrest, hspent⟩ := hall hbroke
      exact ⟨hrest, by omega⟩
  | spent seen' rest _ hlines hvisit hless hlimited =>
    refine .spent (seen ++ seen') rest walked (by rw [hlines, List.append_assoc]) ?_ (by omega) hlimited
    rw [Recent.visitAll_append hseen, hvisit]

theorem take_of_readExactAt {size : Nat} {read : Bytes} (hsize : size ≤ position)
    (h : file.readExactAt size (position - size) = .ok read) :
    file.bytes.take position = file.bytes.take (position - size) ++ read := by
  unfold TailFile.readExactAt at h
  split at h
  · cases h
  · rw [← Except.ok.inj h, ← List.take_add, Nat.sub_add_cancel hsize]

/-- What is left of a file is read backwards, with what was carried on from behind. -/
theorem walkBack_ok (hnonempty : 0 < file.bytes.length) (hcarry : newline ∉ carry)
    (hposition : position ≤ file.bytes.length)
    (h : walkBack visit file chunk position budget carry state = .ok walked) :
    Ended visit (linesBack (file.bytes.take position ++ carry)) state position budget walked := by
  fun_induction walkBack visit file chunk position budget carry state with
  | case1 budget carry state =>
    obtain rfl := Except.ok.inj h
    have hvisit : visitAll visit [carry] state = visit carry state :=
      Recent.visitAll_singleton carry
    rw [List.take_zero, List.nil_append, linesBack_of_not_mem hcarry]
    refine .shown [carry] [] _ (visit carry state).2 rfl ?_ (fun _ => ⟨rfl, rfl⟩) rfl
    rw [hvisit, if_pos hnonempty]
  | case2 position carry state hpos =>
    obtain rfl := Except.ok.inj h
    exact .spent [] _ _ rfl rfl (by omega) rfl
  | case3 => cases h
  | case4 position budget carry state hpos hbudget size read hread state' hchunk =>
    obtain rfl := Except.ok.inj h
    have hsize : size ≤ position := by omega
    obtain ⟨seen, rest, hlines, hseen⟩ :=
      visitChunk_none (file.bytes.take (position - size)) _ hchunk
    rw [take_of_readExactAt hsize hread, List.append_assoc]
    exact .shown seen rest _ true hlines hseen (fun h => by cases h) rfl
  | case5 position budget carry state hpos hbudget size read hread state' carry' hchunk ih =>
    have hsize : size ≤ position := by omega
    obtain ⟨hcarry', seen, hlines, hseen⟩ :=
      visitChunk_some (file.bytes.take (position - size)) _ hchunk
    rw [take_of_readExactAt hsize hread, List.append_assoc, hlines]
    exact (ih hcarry' (by omega) h).after hseen (by omega)

theorem walkStart_ok (h : walkStart file = .ok position) :
    position = (stripNewline file.bytes).length := by
  unfold walkStart at h
  split at h
  · rename_i hpos
    obtain ⟨last, hlast, h⟩ := Loop.bind_eq_ok.mp h
    unfold TailFile.readExactAt at hlast
    split at hlast
    · cases hlast
    obtain rfl := Except.ok.inj hlast
    obtain rfl := Except.ok.inj h
    have hhead : ((file.bytes.drop (file.bytes.length - 1)).take 1).head? = file.bytes.getLast? := by
      rw [List.head?_take, if_neg (by omega), List.head?_drop, List.getLast?_eq_getElem?]
    unfold stripNewline Records.scan
    rw [hhead]
    split
    · rw [List.length_dropLast]
    · rfl
  · rename_i hempty
    obtain rfl := Except.ok.inj h
    have hnil : file.bytes = [] := List.length_eq_zero_iff.mp (by omega)
    rw [hnil]
    rfl

/-- A file's lines are shown whole and newest first, all of them if the budget is enough. -/
theorem visitLinesNewestFirst_ok
    (h : visitLinesNewestFirst visit file chunk budget state = .ok walked) :
    Ended visit (awkRecords file.bytes).reverse state (stripNewline file.bytes).length budget
      walked := by
  unfold visitLinesNewestFirst at h
  obtain ⟨position, hstart, h⟩ := Loop.bind_eq_ok.mp h
  obtain rfl := walkStart_ok hstart
  unfold awkRecords
  split
  · rename_i hempty
    have hnil : file.bytes = [] := List.isEmpty_iff.mp hempty
    rw [hnil] at h ⊢
    unfold walkBack at h
    rw [hnil] at h
    obtain rfl := Except.ok.inj h
    exact .shown [] [] _ false rfl rfl (fun _ => ⟨rfl, rfl⟩) rfl
  · rename_i hnonempty
    have hne : file.bytes ≠ [] := fun hnil => hnonempty (List.isEmpty_iff.mpr hnil)
    have htake : file.bytes.take (stripNewline file.bytes).length ++ [] =
        stripNewline file.bytes := by
      unfold stripNewline Records.scan
      split
      · rw [List.length_dropLast, ← List.dropLast_eq_take, List.append_nil]
      · rw [List.take_length, List.append_nil]
    have hlength : (stripNewline file.bytes).length ≤ file.bytes.length := by
      rw [← htake, List.append_nil, List.length_take]
      omega
    have := walkBack_ok (List.length_pos_iff.mpr hne) (by simp) hlength h
    rw [htake] at this
    exact this

end Backwards

/-! ## What is chosen -/

section Chosen

variable {reader : LogReader} {chunk : ChunkSize} {requested byteLimit : Nat} {state : TailState}

/-- The lines a reader may see, as they are shown. -/
def candidates (reader : LogReader) (lines : List Bytes) : List String :=
  (lines.filter fun line => reader.visible (line.take maxLogLineBytes)).map reader.shown

/-- The bytes of an array of texts as it is written. -/
def encodedLength (lines : List String) : Nat :=
  2 + total Audit.Json.stringLength lines + (lines.length - 1)

/-- Whether an answer keeps to the count and to the bytes that were asked for. -/
def Allowed (requested byteLimit : Nat) (lines : List String) : Prop :=
  lines.length ≤ requested ∧ (lines = [] ∨ encodedLength lines ≤ byteLimit)

instance : DecidablePred (Allowed requested byteLimit) := fun _ => instDecidableAnd

theorem encodedLength_cons (line : String) (lines : List String) :
    encodedLength (line :: lines) = encodedLength lines +
      (Audit.Json.stringLength line + if lines.isEmpty then 0 else 1) := by
  unfold encodedLength
  cases lines with
  | nil => simp
  | cons next lines =>
    simp only [total_cons, List.length_cons, List.isEmpty_cons, Bool.false_eq_true, if_false]
    omega

theorem encodedLength_le {lines lines' : List String} (h : lines <:+ lines') :
    encodedLength lines ≤ encodedLength lines' := by
  obtain ⟨front, rfl⟩ := h
  induction front with
  | nil => exact Nat.le_refl _
  | cons line front ih =>
    rw [List.cons_append, encodedLength_cons]
    omega

theorem Allowed.of_suffix (s t : List String) (h : s <:+ t) (ht : Allowed requested byteLimit t) :
    Allowed requested byteLimit s := by
  refine ⟨Nat.le_trans h.length_le ht.1, ?_⟩
  rcases ht.2 with rfl | hbytes
  · exact .inl (List.suffix_nil.mp h)
  · exact .inr (Nat.le_trans (encodedLength_le h) hbytes)

/-- The reader is not pressed for time. -/
def LogReader.Unhurried (reader : LogReader) : Prop := ∀ look, reader.passed look = false

/-- So many were chosen, and there is room for more. -/
structure Choosing (requested byteLimit : Nat) (state : TailState) (chosen : List String) : Prop where
  selected : state.selected.reverse = chosen
  bytes : state.selectedBytes = encodedLength chosen
  going : state.done = false
  timely : state.deadlineReached = false
  allowed : Allowed requested byteLimit chosen
  room : chosen.length < requested

/-- The choice is made, whatever lines there are before. -/
structure Chosen (requested byteLimit : Nat) (state : TailState) (lines : List String) : Prop where
  done : state.done = true
  timely : state.deadlineReached = false
  longest : ∀ front, LongestEnd (Allowed requested byteLimit) (front ++ lines)
    state.selected.reverse

theorem candidates_append (xs ys : List Bytes) :
    candidates reader (xs ++ ys) = candidates reader xs ++ candidates reader ys := by
  unfold candidates
  rw [List.filter_append, List.map_append]

theorem Chosen.before {lines : List String} (h : Chosen requested byteLimit state lines)
    (front : List String) : Chosen requested byteLimit state (front ++ lines) where
  done := h.done
  timely := h.timely
  longest front' := by
    rw [← List.append_assoc]
    exact h.longest (front' ++ front)

/-- A choice that no further line can join is made. -/
theorem longest_of_full {chosen : List String} (h : Allowed requested byteLimit chosen)
    (hfull : chosen.length = requested) (front : List String) :
    LongestEnd (Allowed requested byteLimit) (front ++ chosen) chosen := by
  refine Recent.longestEnd_append Allowed.of_suffix h front fun before line _ hmore => ?_
  have := hmore.1
  rw [List.length_cons] at this
  omega

theorem longest_of_over {chosen : List String} {line : String}
    (h : Allowed requested byteLimit chosen) (hover : byteLimit < encodedLength (line :: chosen))
    (front : List String) :
    LongestEnd (Allowed requested byteLimit) (front ++ (line :: chosen)) chosen := by
  rw [List.append_cons]
  refine Recent.longestEnd_append Allowed.of_suffix h _ fun before line' heq hmore => ?_
  have hline : line' = line := by
    have := congrArg List.getLast? heq
    rw [List.getLast?_concat, List.getLast?_concat] at this
    exact (Option.some.inj this).symm
  rw [hline] at hmore
  rcases hmore.2 with hnil | hbytes
  · cases hnil
  · omega

/-- One line more is shown to the reader. -/
theorem pick_step (hunhurried : reader.Unhurried) {chosen : List String} {line : Bytes}
    (h : Choosing requested byteLimit state chosen) {state' : TailState} {broke : Bool}
    (hpick : pick reader requested byteLimit line state = (state', broke)) :
    (broke = false → Choosing requested byteLimit state' (candidates reader [line] ++ chosen)) ∧
      (broke = true → Chosen requested byteLimit state' (candidates reader [line] ++ chosen)) := by
  unfold pick at hpick
  rw [hunhurried, if_neg Bool.false_ne_true] at hpick
  dsimp only at hpick
  by_cases hvisible : reader.visible (line.take maxLogLineBytes) = true
  · have hshown : candidates reader [line] = [reader.shown line] := by simp [candidates, hvisible]
    rw [hvisible, Bool.not_true, if_neg Bool.false_ne_true] at hpick
    rw [hshown, List.singleton_append]
    generalize reader.shown line = shown at hpick ⊢
    have hempty : state.selected.isEmpty = chosen.isEmpty := by
      rw [← h.selected, List.isEmpty_reverse]
    have hcost : state.selectedBytes + (Audit.Json.stringLength shown +
        if state.selected.isEmpty then 0 else 1) = encodedLength (shown :: chosen) := by
      rw [encodedLength_cons, h.bytes, hempty]
    have hselected : (state.selected ++ [shown]).reverse = shown :: chosen := by
      rw [List.reverse_append, h.selected]
      rfl
    have hlength : (state.selected ++ [shown]).length = (shown :: chosen).length := by
      rw [← hselected, List.length_reverse]
    rw [hcost, hlength] at hpick
    split at hpick
    · rename_i hover
      obtain ⟨rfl, rfl⟩ := Prod.mk.inj hpick
      refine ⟨fun hbroke => (by cases hbroke), fun _ => ⟨rfl, h.timely, fun front => ?_⟩⟩
      rw [h.selected]
      exact longest_of_over h.allowed hover front
    · rename_i hfits
      have hallowed : Allowed requested byteLimit (shown :: chosen) :=
        ⟨h.room, .inr (Nat.le_of_not_lt hfits)⟩
      split at hpick
      · rename_i hfull
        obtain ⟨rfl, rfl⟩ := Prod.mk.inj hpick
        refine ⟨fun hbroke => (by cases hbroke), fun _ => ⟨rfl, h.timely, fun front => ?_⟩⟩
        rw [hselected]
        exact longest_of_full hallowed hfull front
      · rename_i hmore
        obtain ⟨rfl, rfl⟩ := Prod.mk.inj hpick
        refine ⟨fun _ => ⟨hselected, rfl, h.going, h.timely, hallowed, ?_⟩,
          fun hbroke => (by cases hbroke)⟩
        exact Nat.lt_of_le_of_ne hallowed.1 hmore
  · have hhidden : candidates reader [line] = [] := by simp [candidates, hvisible]
    rw [(Bool.not_eq_true _).mp hvisible, Bool.not_false, if_pos rfl] at hpick
    obtain ⟨rfl, rfl⟩ := Prod.mk.inj hpick
    rw [hhidden, List.nil_append]
    exact ⟨fun _ => ⟨h.selected, h.bytes, h.going, h.timely, h.allowed, h.room⟩,
      fun hbroke => by cases hbroke⟩

/-- The choice among lines, newest first, behind which some were chosen. -/
theorem visitAll_pick (hunhurried : reader.Unhurried) {chosen : List String} {lines : List Bytes}
    (h : Choosing requested byteLimit state chosen) {state' : TailState} {broke : Bool}
    (hvisit : visitAll (pick reader requested byteLimit) lines state = (state', broke)) :
    (broke = false → Choosing requested byteLimit state' (candidates reader lines.reverse ++ chosen)) ∧
      (broke = true → Chosen requested byteLimit state'
        (candidates reader lines.reverse ++ chosen)) := by
  induction lines generalizing state chosen with
  | nil =>
    obtain ⟨rfl, rfl⟩ := Prod.mk.inj hvisit
    exact ⟨fun _ => h, fun hbroke => by cases hbroke⟩
  | cons line lines ih =>
    rw [List.reverse_cons, candidates_append, List.append_assoc]
    unfold visitAll at hvisit
    split at hvisit
    · rename_i next hpick
      obtain ⟨rfl, rfl⟩ := Prod.mk.inj hvisit
      exact ⟨fun hbroke => (by cases hbroke),
        fun _ => ((pick_step hunhurried h hpick).2 rfl).before _⟩
    · rename_i next hpick
      exact ih ((pick_step hunhurried h hpick).1 rfl) hvisit

/-! ## A source -/

variable {scanBudget budget : Nat} {files : List TailFile} {limited : Bool}

/-- The lines of the files, oldest first. -/
def historyLines (files : List TailFile) : List Bytes :=
  files.flatMap fun file => awkRecords file.bytes

/-- The bytes there are to scan; a file's final newline is not scanned. -/
def historyBytes (files : List TailFile) : Nat :=
  total (fun file => (stripNewline file.bytes).length) files

/-- Where the walk over the files got to: the lines that were shown, and what was chosen of them. -/
inductive Found (reader : LogReader) (requested byteLimit : Nat) (files : List TailFile)
    (budget : Nat) (chosen : List String) (state : TailState) : Bool → Prop where
  | all (hchosen : Choosing requested byteLimit state
      (candidates reader (historyLines files) ++ chosen)) :
    Found reader requested byteLimit files budget chosen state false
  | enough (before seen : List Bytes) (hlines : historyLines files = before ++ seen)
      (hchosen : Chosen requested byteLimit state (candidates reader seen ++ chosen)) :
    Found reader requested byteLimit files budget chosen state false
  | spent (before seen : List Bytes) (hlines : historyLines files = before ++ seen)
      (hchosen : Choosing requested byteLimit state (candidates reader seen ++ chosen))
      (hless : budget < historyBytes files) :
    Found reader requested byteLimit files budget chosen state true

theorem tailFiles_ok (hunhurried : reader.Unhurried) {chosen : List String} {state' : TailState}
    (hstate : Choosing requested byteLimit state chosen)
    (h : tailFiles reader chunk requested byteLimit files budget state = .ok (state', limited)) :
    Found reader requested byteLimit files.reverse budget chosen state' limited := by
  induction files generalizing budget state chosen with
  | nil =>
    obtain ⟨rfl, rfl⟩ := Prod.mk.inj (Except.ok.inj h)
    exact .all hstate
  | cons file older ih =>
    unfold tailFiles at h
    rw [show ({ state with done := false } : TailState) = state by rw [← hstate.going]] at h
    obtain ⟨walked, hwalked, h⟩ := Loop.bind_eq_ok.mp h
    have hlines : historyLines (file :: older).reverse =
        historyLines older.reverse ++ awkRecords file.bytes := by
      unfold historyLines
      rw [List.reverse_cons, List.flatMap_append, List.flatMap_singleton]
    have hbytes : historyBytes (file :: older).reverse =
        (stripNewline file.bytes).length + historyBytes older.reverse := by
      unfold historyBytes
      rw [total_perm (List.reverse_perm _), total_perm (List.reverse_perm _), total_cons]
    cases visitLinesNewestFirst_ok hwalked with
    | shown seen rest _ broke hsplit hvisit hall hlimited =>
      have hfile : awkRecords file.bytes = rest.reverse ++ seen.reverse := by
        rw [← List.reverse_append, ← hsplit, List.reverse_reverse]
      obtain ⟨hgoing, hdone⟩ := visitAll_pick hunhurried hstate hvisit
      cases broke with
      | true =>
        have hchosen := hdone rfl
        rw [hchosen.done, Bool.true_or, Bool.true_or, if_pos rfl] at h
        obtain ⟨rfl, rfl⟩ := Prod.mk.inj (Except.ok.inj h)
        rw [hlimited]
        refine .enough (historyLines older.reverse ++ rest.reverse) seen.reverse ?_ hchosen
        rw [hlines, hfile, List.append_assoc]
      | false =>
        have hchosen := hgoing rfl
        obtain ⟨rfl, hbudget⟩ := hall rfl
        rw [hchosen.going, hlimited, hchosen.timely, Bool.false_or, Bool.false_or,
          if_neg Bool.false_ne_true] at h
        rw [List.reverse_nil, List.nil_append] at hfile
        rw [← hfile] at hchosen
        cases ih hchosen h with
        | all hchosen =>
          refine .all ?_
          rw [hlines, candidates_append, List.append_assoc]
          exact hchosen
        | enough before seen' holder hchosen =>
          refine .enough before (seen' ++ awkRecords file.bytes) ?_ ?_
          · rw [hlines, holder, List.append_assoc]
          · rw [candidates_append, List.append_assoc]
            exact hchosen
        | spent before seen' holder hchosen hless =>
          refine .spent before (seen' ++ awkRecords file.bytes) ?_ ?_ (by omega)
          · rw [hlines, holder, List.append_assoc]
          · rw [candidates_append, List.append_assoc]
            exact hchosen
    | spent seen rest _ hsplit hvisit hless hlimited =>
      have hfile : awkRecords file.bytes = rest.reverse ++ seen.reverse := by
        rw [← List.reverse_append, ← hsplit, List.reverse_reverse]
      have hchosen := (visitAll_pick hunhurried hstate hvisit).1 rfl
      rw [hlimited, Bool.or_true, Bool.true_or, if_pos rfl] at h
      obtain ⟨rfl, rfl⟩ := Prod.mk.inj (Except.ok.inj h)
      refine .spent (historyLines older.reverse ++ rest.reverse) seen.reverse ?_ hchosen (by omega)
      rw [hlines, hfile, List.append_assoc]

/-- A visitor that also notes the lines it is shown, oldest first. -/
def noting {σ : Type} (visit : Bytes → σ → σ × Bool) (line : Bytes) (state : σ × List Bytes) :
    (σ × List Bytes) × Bool :=
  (((visit line state.1).1, line :: state.2), (visit line state.1).2)

theorem visitAll_noting {σ : Type} {visit : Bytes → σ → σ × Bool} {lines : List Bytes}
    {state state' : σ × List Bytes} {broke : Bool}
    (h : visitAll (noting visit) lines state = (state', broke)) :
    ∃ seen, seen <+: lines ∧ state'.2 = seen.reverse ++ state.2 := by
  induction lines generalizing state with
  | nil =>
    obtain ⟨rfl, -⟩ := Prod.mk.inj h
    exact ⟨[], List.prefix_refl _, rfl⟩
  | cons line lines ih =>
    unfold visitAll at h
    split at h
    · rename_i next hvisit
      obtain ⟨rfl, -⟩ := Prod.mk.inj h
      have hnext : next.2 = line :: state.2 := congrArg (fun r => r.1.2) hvisit.symm
      exact ⟨[line], ⟨lines, rfl⟩, by rw [hnext]; rfl⟩
    · rename_i next hvisit
      have hnext : next.2 = line :: state.2 := congrArg (fun r => r.1.2) hvisit.symm
      obtain ⟨seen, hseen, hnoted⟩ := ih h
      refine ⟨line :: seen, List.cons_prefix_cons.mpr ⟨rfl, hseen⟩, ?_⟩
      rw [hnoted, hnext, List.reverse_cons, List.append_assoc]
      rfl

/-- The lines a walk shows are lines of the file, each whole, from the last one back. -/
theorem noted_suffix {σ : Type} {visit : Bytes → σ → σ × Bool} {file : TailFile} {state : σ}
    {walked : Walked (σ × List Bytes)}
    (h : visitLinesNewestFirst (noting visit) file chunk budget (state, []) = .ok walked) :
    walked.state.2 <:+ awkRecords file.bytes := by
  have hseen : ∃ seen, seen <+: (awkRecords file.bytes).reverse ∧
      walked.state.2 = seen.reverse := by
    cases visitLinesNewestFirst_ok h with
    | shown seen rest _ broke hsplit hvisit =>
      obtain ⟨noted, hprefix, hnoted⟩ := visitAll_noting hvisit
      exact ⟨noted, hprefix.trans ⟨rest, hsplit.symm⟩, by rw [hnoted, List.append_nil]⟩
    | spent seen rest _ hsplit hvisit =>
      obtain ⟨noted, hprefix, hnoted⟩ := visitAll_noting hvisit
      exact ⟨noted, hprefix.trans ⟨rest, hsplit.symm⟩, by rw [hnoted, List.append_nil]⟩
  obtain ⟨seen, hprefix, hnoted⟩ := hseen
  rw [hnoted, ← List.reverse_prefix, List.reverse_reverse]
  exact hprefix

/-- Everything read forwards: the visible lines, taken from the newest back while they are allowed. -/
def forwardLines (reader : LogReader) (requested byteLimit : Nat) (files : List TailFile) :
    List String :=
  Recent.takeBack (Allowed requested byteLimit) (candidates reader (historyLines files))

theorem longestEnd_forwardLines (files : List TailFile) : LongestEnd (Allowed requested byteLimit)
    (candidates reader (historyLines files)) (forwardLines reader requested byteLimit files) :=
  Recent.longestEnd_takeBack Allowed.of_suffix ⟨Nat.zero_le _, .inl rfl⟩ _

/-- The answer is that of reading everything forwards. -/
structure ReadsForwards (reader : LogReader) (chunk : ChunkSize) (requested byteLimit scanBudget : Nat)
    (files : List TailFile) (answer : SourceTail) : Prop where
  complete : answer.scanLimited = false →
    answer.lines = forwardLines reader requested byteLimit files
  /-- If the scan was cut short, they are the last of these. -/
  limited : answer.scanLimited = true →
    answer.lines <:+ forwardLines reader requested byteLimit files
  /-- And the budget was less than there was to scan. -/
  unscanned : answer.scanLimited = true → scanBudget < historyBytes files
  /-- A visitor is only ever shown whole lines of a file, from the last one back. -/
  whole : ∀ file ∈ files, ∀ (σ : Type) (visit : Bytes → σ → σ × Bool) (budget : Nat) (state : σ)
    (walked : Walked (σ × List Bytes)),
    visitLinesNewestFirst (noting visit) file chunk budget (state, []) = .ok walked →
      walked.state.2 <:+ awkRecords file.bytes

/-- The backward reader answers what a forward one would, as far as its budget lets it. -/
theorem tail_reads_forwards (hrequested : 1 ≤ requested) (hunhurried : reader.Unhurried)
    {slots : List (BridgeResult (Option TailFile))} {answer : SourceTail}
    (h : tailLogSource reader chunk requested byteLimit scanBudget slots = .ok answer) :
    ∃ files, openAll slots = .ok files ∧
      ReadsForwards reader chunk requested byteLimit scanBudget files answer := by
  unfold tailLogSource at h
  rw [hunhurried, if_neg Bool.false_ne_true] at h
  obtain ⟨files, hopened, h⟩ := Loop.bind_eq_ok.mp h
  refine ⟨files, hopened, ?_⟩
  obtain ⟨⟨state, limited⟩, hfound, h⟩ := Loop.bind_eq_ok.mp h
  obtain rfl := Except.ok.inj h
  have hnothing : Choosing requested byteLimit ⟨[], 2, false, false, 1⟩ [] :=
    ⟨rfl, rfl, rfl, rfl, ⟨Nat.zero_le _, .inl rfl⟩, hrequested⟩
  have hfound := tailFiles_ok hunhurried hnothing hfound
  rw [List.reverse_reverse] at hfound
  have hwhole : ∀ file ∈ files, ∀ (σ : Type) (visit : Bytes → σ → σ × Bool) (budget : Nat)
      (state : σ) (walked : Walked (σ × List Bytes)),
      visitLinesNewestFirst (noting visit) file chunk budget (state, []) = .ok walked →
        walked.state.2 <:+ awkRecords file.bytes := fun _ _ _ _ _ _ _ hwalk => noted_suffix hwalk
  have hforwards : LongestEnd (Allowed requested byteLimit)
      (candidates reader (historyLines files)) (forwardLines reader requested byteLimit files) :=
    longestEnd_forwardLines files
  cases hfound with
  | all hchosen =>
    rw [List.append_nil] at hchosen
    refine ⟨fun _ => ?_, fun hlimited => ?_, fun hlimited => ?_, hwhole⟩
    · rw [hchosen.selected]
      exact (hforwards.longest _ (List.suffix_refl _) hchosen.allowed).eq_of_length_le
        hforwards.suffix.length_le
    · rw [Bool.false_or, hchosen.timely] at hlimited
      cases hlimited
    · rw [Bool.false_or, hchosen.timely] at hlimited
      cases hlimited
  | enough before seen hlines hchosen =>
    rw [List.append_nil] at hchosen
    refine ⟨fun _ => ?_, fun hlimited => ?_, fun hlimited => ?_, hwhole⟩
    · rw [hlines, candidates_append] at hforwards
      exact (hchosen.longest _).unique hforwards
    · rw [Bool.false_or, hchosen.timely] at hlimited
      cases hlimited
    · rw [Bool.false_or, hchosen.timely] at hlimited
      cases hlimited
  | spent before seen hlines hchosen hless =>
    rw [List.append_nil] at hchosen
    refine ⟨fun hlimited => (by cases hlimited), fun _ => ?_, fun _ => hless, hwhole⟩
    rw [hlines, candidates_append] at hforwards
    refine hforwards.longest _ ?_ ?_
    · rw [hchosen.selected]
      exact List.suffix_append _ _
    · rw [hchosen.selected]
      exact hchosen.allowed

/-- A log of two lines, and one rotation that is not there; the newest line is asked for. -/
theorem tail_reads_forwards_newest :
    let reader : LogReader := ⟨fun _ => true, fun line => toString line.length, fun _ => false⟩
    let slots : List (BridgeResult (Option TailFile)) :=
      [.ok none, .ok (some ⟨[97, 10, 98, 99, 10], fun _ => false⟩)]
    ∃ files, openAll slots = .ok files ∧
      ReadsForwards reader ⟨2, by decide⟩ 1 9 4 files ⟨["2"], false, false⟩ :=
  tail_reads_forwards (by decide) (fun _ => rfl) (by decide +kernel)

end Chosen

end Logs
end DriveSync
