import DriveSync.Lib.Recent
import DriveSync.Logs.Activity
import Mathlib.Data.List.DropRight

/-!
# DriveSync.Logs.Feed

The activity feed: the newest records of all the files of the log, as one document. Each file is cut
to its last lines before the files are put together, and the whole is cut again.

* `isTail_tailLines`: the last lines of a text.
* `renderActivityFeed_ok`: what a feed holds.
* `activity_windows_iff`: cutting each file first changes nothing, unless a text that lacks its last
  newline is glued to a file that was cut.
-/

namespace DriveSync
namespace Logs

open Audit (ErrorKind BridgeResult)
open Records (IsTail Glued breaks)
open Recent (Holds LongestEnd)

/-! ## Lines -/

/-- A text without the newline that ends its last line. -/
def stripNewline (bytes : Bytes) : Bytes := Records.scan newline bytes

/-- The loop over the indices from the last: `seen` newlines were met behind `index`. -/
def tailLoop (bytes scan : Bytes) (lines : Nat) : Nat → Nat → Bytes
  | 0, _ => bytes
  | index + 1, seen =>
    if scan[index]? = some newline then
      if seen + 1 = lines then bytes.drop (index + 1)
      else tailLoop bytes scan lines index (seen + 1)
    else tailLoop bytes scan lines index seen

/-- The last lines of a text; a last line without its newline is one. -/
def tailLines (bytes : Bytes) (lines : Nat) : Bytes :=
  if lines = 0 ∨ bytes.isEmpty then []
  else tailLoop bytes (stripNewline bytes) lines (stripNewline bytes).length 0

/-- The records of a text, as the shell's reader takes them. -/
def awkRecords (buffer : Bytes) : List Bytes :=
  if buffer.isEmpty then [] else (stripNewline buffer).splitOn newline

/-! ## The feed -/

def maxActivityResponseBytes : Nat := 1048000

def feedOpen : Bytes := ascii "\x7b\"schema\":\"sdsync.dsm-activity.v1\",\"events\":["

def feedClose : Bytes := ascii "]\x7d"

def comma : UInt8 := 44

def ActivityEvent.text (event : ActivityEvent) : Bytes :=
  event.prefixBytes ++ quoteActivityField event.message ++ ascii "\x7d"

/-- An event of the ring, which is there. -/
def ringEvent (ring : List (Option ActivityEvent)) (requested record : Nat) :
    BridgeResult ActivityEvent :=
  match ring[record % requested]? with
  | some (some event) => .ok event
  | _ => .error .internal

/-- What is read of a window: the ring, how many records were written to it, and the markers. -/
structure FeedRead where
  ring : List (Option ActivityEvent)
  count : Nat
  malformedMarkers : Nat
deriving DecidableEq, Repr

/-- The records are read; the last may be one that is still being written. -/
def readRecords (requested : Nat) (inFlight : Bool) : List Bytes → FeedRead → BridgeResult FeedRead
  | [], read => .ok read
  | record :: rest, read =>
    match renderActivityEvent record with
    | .ok event =>
      readRecords requested inFlight rest
        { ring := read.ring.set (read.count % requested) (some event)
          count := read.count + 1
          malformedMarkers := read.malformedMarkers + event.requestMarkerMalformed.toNat }
    | .error error => if inFlight && rest.isEmpty then .ok read else .error error

/-- The byte budget walked back from the newest event. -/
def selectEvents (ring : List (Option ActivityEvent)) (requested count oldest : Nat) :
    Nat → Nat → BridgeResult (Nat × Nat)
  | 0, selectedBytes => .ok (selectedBytes, 0)
  | record + 1, selectedBytes =>
    if record < oldest then .ok (selectedBytes, record + 1)
    else do
      let event ← ringEvent ring requested record
      let separator := if record + 1 < count then 1 else 0
      let cost := event.prefixBytes.length + quotedActivityLength event.message + 1 + separator
      if maxActivityResponseBytes < selectedBytes + cost then .ok (selectedBytes, record + 1)
      else selectEvents ring requested count oldest record (selectedBytes + cost)

/-- The events from one on, oldest first. -/
def assembleEvents (ring : List (Option ActivityEvent)) (requested selectedFirst : Nat) :
    Nat → Nat → Bytes → BridgeResult Bytes
  | 0, _, document => .ok document
  | left + 1, record, document => do
    let document := if selectedFirst < record then document ++ [comma] else document
    let event ← ringEvent ring requested record
    assembleEvents ring requested selectedFirst left (record + 1)
      (document ++ event.prefixBytes ++ quoteActivityField event.message ++ ascii "\x7d")

def renderActivityFeed (window : Bytes) (requested : Nat) : BridgeResult (Bytes × Nat) := do
  let inFlight := !window.isEmpty && !(window.getLast? == some newline)
  let read ← readRecords requested inFlight (awkRecords window)
    ⟨List.replicate requested none, 0, 0⟩
  let oldest := read.count - min read.count requested
  let selected ← selectEvents read.ring requested read.count oldest read.count
    (feedOpen ++ feedClose).length
  let document ← assembleEvents read.ring requested selected.2 (read.count - selected.2) selected.2
    feedOpen
  .ok (document ++ feedClose, read.malformedMarkers)

/-- What the feed is rendered from: each file's last lines, put together and cut again. -/
def activityWindow (history : List Bytes) (requested : Nat) : Bytes :=
  tailLines (history.map fun source => tailLines source requested).flatten requested

/-- The document of a request for some lines, before it is checked once more on its way out. -/
def activityDocument (history : List Bytes) (lines : Nat) : BridgeResult Bytes :=
  let requested := max lines 1
  if history.isEmpty then .ok (feedOpen ++ feedClose)
  else (renderActivityFeed (activityWindow history requested) requested).map Prod.fst

/-! ## Last lines -/

variable {bytes window document : Bytes} {requested : Nat}

/-- The text of the last lines, by the line it starts at. -/
theorem isTail_drop {index : Nat} (hindex : index < (stripNewline bytes).length)
    (hnewline : (stripNewline bytes)[index]? = some newline) {lines : Nat}
    (hseen : ((stripNewline bytes).drop (index + 1)).count newline + 1 = lines) :
    IsTail newline lines bytes (bytes.drop (index + 1)) := by
  have hsplit : bytes = bytes.take index ++ newline :: bytes.drop (index + 1) := by
    have hat : bytes[index]? = some newline := by
      unfold stripNewline Records.scan at hnewline
      split at hnewline
      · rw [List.getElem?_dropLast] at hnewline
        split at hnewline
        · exact hnewline
        · cases hnewline
      · exact hnewline
    obtain ⟨hlt, heq⟩ := List.getElem?_eq_some_iff.mp hat
    rw [← heq, List.getElem_cons_drop, List.take_append_drop]
  have hne : bytes.drop (index + 1) ≠ [] := by
    rw [Ne, List.drop_eq_nil_iff]
    intro hend
    unfold stripNewline Records.scan at hindex hnewline
    split at hindex
    · rw [List.length_dropLast] at hindex
      omega
    · rename_i hlast
      rw [if_neg hlast] at hnewline
      refine hlast ?_
      rw [List.getLast?_eq_getElem?, show bytes.length - 1 = index by omega]
      exact hnewline
  refine .inr ⟨bytes.take index, hsplit, hne, ?_⟩
  have hscan : stripNewline bytes =
      bytes.take (index + 1) ++ Records.scan newline (bytes.drop (index + 1)) := by
    unfold stripNewline
    rw [← Records.scan_append hne, List.take_append_drop]
  have hlength : (bytes.take (index + 1)).length = index + 1 := by
    have := congrArg List.length hsplit
    have hpos := List.length_pos_iff.mpr hne
    rw [List.length_drop] at hpos
    rw [List.length_take]
    omega
  rw [hscan, List.drop_append_of_le_length (by omega), List.drop_of_length_le (by omega),
    List.nil_append] at hseen
  exact hseen

theorem isTail_tailLoop {lines index seen : Nat} (hindex : index ≤ (stripNewline bytes).length)
    (hseen : ((stripNewline bytes).drop index).count newline = seen) (hfew : seen < lines) :
    IsTail newline lines bytes (tailLoop bytes (stripNewline bytes) lines index seen) := by
  induction index generalizing seen with
  | zero =>
    rw [List.drop_zero] at hseen
    exact .inl ⟨by unfold breaks; exact hseen ▸ hfew, rfl⟩
  | succ index ih =>
    have hdrop : (stripNewline bytes).drop index =
        (stripNewline bytes)[index] :: (stripNewline bytes).drop (index + 1) :=
      List.drop_eq_getElem_cons (by omega)
    have hat : (stripNewline bytes)[index]? = some (stripNewline bytes)[index] :=
      List.getElem?_eq_getElem (by omega)
    unfold tailLoop
    split
    · rename_i hnewline
      have heq : (stripNewline bytes)[index] = newline := Option.some.inj (hat.symm.trans hnewline)
      split
      · rename_i hlines
        exact isTail_drop (by omega) hnewline (by omega)
      · refine ih (by omega) ?_ (by omega)
        rw [hdrop, heq, List.count_cons_self, hseen]
    · rename_i hother
      refine ih (by omega) ?_ hfew
      have hne : (stripNewline bytes)[index] ≠ newline := fun heq => hother (by rw [hat, heq])
      rw [hdrop, List.count_cons_of_ne hne, hseen]

theorem isTail_tailLines (h : 1 ≤ requested) (bytes : Bytes) :
    IsTail newline requested bytes (tailLines bytes requested) := by
  unfold tailLines
  split
  · rename_i hempty
    have hnil : bytes = [] := List.isEmpty_iff.mp (hempty.resolve_left (by omega))
    subst hnil
    exact .inl ⟨h, rfl⟩
  · refine isTail_tailLoop (Nat.le_refl _) ?_ h
    rw [List.drop_length]
    rfl

/-! ## What a feed holds -/

def acceptedEvents (window : Bytes) : List ActivityEvent :=
  (awkRecords window).filterMap fun record => (renderActivityEvent record).toOption

/-- Events with commas between them. -/
def joinEvents : List ActivityEvent → Bytes
  | [] => []
  | event :: rest => event.text ++ rest.flatMap fun next => comma :: next.text

/-- The document that holds these events. -/
def feedOf (events : List ActivityEvent) : Bytes := feedOpen ++ joinEvents events ++ feedClose

/-- Whether the events fit in one answer. -/
def Fits (requested : Nat) (events : List ActivityEvent) : Prop :=
  events.length ≤ requested ∧ (feedOf events).length ≤ maxActivityResponseBytes

/-- What was read so far: the newest events stand in the ring. -/
structure Reads (requested : Nat) (read : FeedRead) (events : List ActivityEvent) : Prop where
  cells : read.ring.length = requested
  holds : Holds read.ring events
  count : read.count = events.length

variable {read read' : FeedRead} {events before : List ActivityEvent} {event : ActivityEvent}

theorem reads_nothing (requested : Nat) : Reads requested ⟨List.replicate requested none, 0, 0⟩ [] :=
  ⟨List.length_replicate, Holds.fresh requested, rfl⟩

theorem Reads.write (h : Reads requested read events) (event : ActivityEvent) (markers : Nat) :
    Reads requested ⟨read.ring.set (read.count % requested) (some event), read.count + 1, markers⟩
      (events ++ [event]) where
  cells := by rw [List.length_set, h.cells]
  holds := by
    have := h.holds.push event
    rw [h.cells, ← h.count] at this
    exact this
  count := by rw [List.length_append, List.length_singleton, ← h.count]

theorem Reads.ringEvent (h : Reads requested read events) {record : Nat}
    (hrecent : read.count ≤ record + requested) (hevent : events[record]? = some event) :
    ringEvent read.ring requested record = .ok event := by
  have hcell := h.holds record event (by rw [h.cells, ← h.count]; exact hrecent) hevent
  rw [h.cells] at hcell
  unfold Logs.ringEvent
  rw [hcell]

theorem readRecords_ok {inFlight : Bool} {records : List Bytes}
    (h : readRecords requested inFlight records read = .ok read')
    (hread : Reads requested read before) :
    Reads requested read'
      (before ++ records.filterMap fun record => (renderActivityEvent record).toOption) := by
  induction records generalizing read before with
  | nil =>
    obtain rfl := Except.ok.inj h
    simpa using hread
  | cons record rest ih =>
    unfold readRecords at h
    split at h
    · rename_i event hevent
      rw [List.filterMap_cons_some (by rw [hevent]; rfl), List.append_cons]
      exact ih h (hread.write event _)
    · rename_i error herror
      split at h
      · rename_i hlast
        obtain rfl := Except.ok.inj h
        have hrest : rest = [] := List.isEmpty_iff.mp (Bool.and_eq_true_iff.mp hlast).2
        rw [hrest, List.filterMap_cons_none (by rw [herror]; rfl), List.filterMap_nil,
          List.append_nil]
        exact hread
      · cases h

/-! ## Its length -/

theorem length_text (event : ActivityEvent) : event.text.length =
    event.prefixBytes.length + quotedActivityLength event.message + 1 := by
  unfold ActivityEvent.text
  rw [List.length_append, List.length_append, quoteActivityField_length]
  rfl

theorem length_feedOf_cons (event : ActivityEvent) (events : List ActivityEvent) :
    (feedOf (event :: events)).length =
      (feedOf events).length + (event.text.length + if events = [] then 0 else 1) := by
  unfold feedOf
  cases events with
  | nil =>
    simp only [joinEvents, List.flatMap_nil, List.append_nil, List.length_append, if_true]
    omega
  | cons next events =>
    simp only [joinEvents, List.flatMap_cons, List.length_append, List.length_cons, reduceCtorEq,
      if_false]
    omega

theorem length_feedOf_le {events' : List ActivityEvent} (h : events <:+ events') :
    (feedOf events).length ≤ (feedOf events').length := by
  obtain ⟨front, rfl⟩ := h
  induction front with
  | nil => exact Nat.le_refl _
  | cons event front ih =>
    rw [List.cons_append, length_feedOf_cons]
    omega

theorem Fits.of_suffix (s t : List ActivityEvent) (h : s <:+ t) (ht : Fits requested t) :
    Fits requested s :=
  ⟨Nat.le_trans h.length_le ht.1, Nat.le_trans (length_feedOf_le h) ht.2⟩

/-! ## Its events -/

/-- The first event that can still be in the ring. -/
def oldestOf (read : FeedRead) (requested : Nat) : Nat := read.count - min read.count requested

theorem selectEvents_ok (hread : Reads requested read events) {record selectedBytes : Nat}
    (hrecord : record ≤ read.count) (holdest : oldestOf read requested ≤ record)
    (hbytes : selectedBytes = (feedOf (events.drop record)).length)
    (hfits : Fits requested (events.drop record)) :
    ∃ bytes first, selectEvents read.ring requested read.count (oldestOf read requested) record
        selectedBytes = .ok (bytes, first) ∧ first ≤ record ∧ oldestOf read requested ≤ first ∧
      LongestEnd (Fits requested) events (events.drop first) := by
  induction record generalizing selectedBytes with
  | zero =>
    refine ⟨selectedBytes, 0, rfl, Nat.le_refl _, holdest, ?_⟩
    exact Recent.longestEnd_of_stop Fits.of_suffix hfits (fun _ h => by cases h)
  | succ record ih =>
    have hstop (hnot : ¬ Fits requested (events.drop record)) :
        LongestEnd (Fits requested) events (events.drop (record + 1)) := by
      refine Recent.longestEnd_of_stop Fits.of_suffix hfits fun before h => ?_
      rwa [← Nat.succ.inj h]
    have hcount := hread.count
    unfold selectEvents
    split
    · rename_i hbefore
      refine ⟨selectedBytes, record + 1, rfl, Nat.le_refl _, holdest, hstop fun h => ?_⟩
      have hlength := h.1
      rw [List.length_drop] at hlength
      unfold oldestOf at hbefore
      omega
    · rename_i hrecent
      obtain ⟨event, hevent, hdrop⟩ := Recent.exists_drop_cons (show record < events.length by omega)
      have hnewest : read.count ≤ record + requested := by
        unfold oldestOf at hrecent
        omega
      have hlast : events.drop (record + 1) = [] ↔ ¬ record + 1 < read.count := by
        rw [List.drop_eq_nil_iff]
        omega
      rw [hread.ringEvent hnewest hevent]
      -- what the event adds to the answer
      have hcost : selectedBytes + (event.prefixBytes.length + quotedActivityLength event.message +
          1 + if record + 1 < read.count then 1 else 0) = (feedOf (events.drop record)).length := by
        rw [hdrop, length_feedOf_cons, length_text, hbytes]
        simp only [hlast, ite_not]
      simp only [bind, Except.bind, hcost]
      split
      · rename_i hfull
        exact ⟨selectedBytes, record + 1, rfl, Nat.le_refl _, holdest,
          hstop fun h => absurd h.2 (by omega)⟩
      · rename_i hroom
        have hlength : (events.drop record).length ≤ requested := by
          rw [List.length_drop]
          omega
        obtain ⟨bytes, first, hselect, hle, hfirst⟩ := ih (by omega) (by omega) rfl
          ⟨hlength, by omega⟩
        exact ⟨bytes, first, hselect, by omega, hfirst⟩

theorem assembleEvents_rest (hread : Reads requested read events) {first left record : Nat}
    (hleft : record + left = read.count) (hrecent : read.count ≤ record + requested)
    (hfirst : first < record) (document : Bytes) :
    assembleEvents read.ring requested first left record document =
      .ok (document ++ (events.drop record).flatMap fun next => comma :: next.text) := by
  have hcount := hread.count
  induction left generalizing record document with
  | zero => simp [assembleEvents, List.drop_of_length_le (show events.length ≤ record by omega)]
  | succ left ih =>
    obtain ⟨event, hevent, hdrop⟩ := Recent.exists_drop_cons (show record < events.length by omega)
    unfold assembleEvents
    rw [if_pos hfirst, hread.ringEvent hrecent hevent, hdrop, List.flatMap_cons]
    refine (ih (by omega) (by omega) (by omega) _).trans ?_
    simp [ActivityEvent.text, List.append_assoc]

theorem assembleEvents_ok (hread : Reads requested read events) {first : Nat}
    (hfirst : first ≤ read.count) (hrecent : read.count ≤ first + requested) (document : Bytes) :
    assembleEvents read.ring requested first (read.count - first) first document =
      .ok (document ++ joinEvents (events.drop first)) := by
  have hcount := hread.count
  cases hleft : read.count - first with
  | zero =>
    simp [assembleEvents, joinEvents, List.drop_of_length_le (show events.length ≤ first by omega)]
  | succ left =>
    obtain ⟨event, hevent, hdrop⟩ := Recent.exists_drop_cons (show first < events.length by omega)
    unfold assembleEvents
    rw [if_neg (Nat.lt_irrefl first), hread.ringEvent hrecent hevent, hdrop, joinEvents]
    refine (assembleEvents_rest hread (by omega) (by omega) (by omega) _).trans ?_
    simp [ActivityEvent.text, List.append_assoc]

/-- A feed holds the longest end of what was accepted that fits the request and one answer. -/
structure FeedExact (window : Bytes) (requested : Nat) (document : Bytes) : Prop where
  holds : ∃ kept, LongestEnd (Fits requested) (acceptedEvents window) kept ∧ document = feedOf kept
  bounded : document.length ≤ maxActivityResponseBytes

theorem renderActivityFeed_ok {markers : Nat}
    (h : renderActivityFeed window requested = .ok (document, markers)) :
    FeedExact window requested document := by
  unfold renderActivityFeed at h
  dsimp only at h
  obtain ⟨read, hread, h⟩ := Loop.bind_eq_ok.mp h
  have hreads := readRecords_ok hread (reads_nothing requested)
  rw [List.nil_append] at hreads
  change Reads requested read (acceptedEvents window) at hreads
  generalize haccepted : acceptedEvents window = events at hreads
  have hnone : events.drop read.count = [] := List.drop_of_length_le (by rw [hreads.count])
  have hfits : Fits requested (events.drop read.count) := by
    rw [hnone]
    exact ⟨Nat.zero_le _, by decide⟩
  have hempty : (feedOpen ++ feedClose).length = (feedOf (events.drop read.count)).length := by
    rw [hnone]
    rfl
  obtain ⟨bytes, first, hselect, hfirst, holdest, hlongest⟩ :=
    selectEvents_ok hreads (Nat.le_refl _) (Nat.sub_le _ _) hempty hfits
  unfold oldestOf at hselect holdest
  obtain ⟨selected, hselected, h⟩ := Loop.bind_eq_ok.mp h
  obtain rfl := Except.ok.inj (hselect.symm.trans hselected)
  obtain ⟨assembled, hassembled, h⟩ := Loop.bind_eq_ok.mp h
  dsimp only at hassembled
  rw [assembleEvents_ok hreads hfirst (by omega)] at hassembled
  obtain rfl := Except.ok.inj hassembled
  obtain ⟨rfl, -⟩ := Prod.mk.inj (Except.ok.inj h)
  refine ⟨⟨events.drop first, ?_, rfl⟩, hlongest.meets.2⟩
  rw [haccepted]
  exact hlongest

/-- Whatever the log's files are, the document of a request holds what the feed should. -/
theorem activityDocument_ok {history : List Bytes} {lines : Nat}
    (h : activityDocument history lines = .ok document) :
    FeedExact (activityWindow history (max lines 1)) (max lines 1) document := by
  unfold activityDocument at h
  dsimp only at h
  split at h
  · rename_i hempty
    obtain rfl := Except.ok.inj h
    obtain rfl := List.isEmpty_iff.mp hempty
    have hwindow : activityWindow [] (max lines 1) = [] := by
      unfold activityWindow tailLines
      simp
    rw [hwindow]
    refine ⟨⟨[], ⟨List.suffix_refl _, ⟨Nat.zero_le _, by decide⟩, ?_⟩, rfl⟩, by decide⟩
    intro other hother _
    exact hother
  · cases hfeed : renderActivityFeed (activityWindow history (max lines 1)) (max lines 1) with
    | error e =>
      rw [hfeed] at h
      cases h
    | ok feed =>
      rw [hfeed] at h
      obtain rfl := Except.ok.inj h
      exact renderActivityFeed_ok hfeed

/-- The window of files cut first is that of the log, and the feed holds what it should. -/
structure WindowsAgree (history : List Bytes) (requested : Nat) : Prop where
  window : activityWindow history requested = tailLines history.flatten requested
  feed : ∀ document markers,
    renderActivityFeed (activityWindow history requested) requested = .ok (document, markers) →
      FeedExact (activityWindow history requested) requested document

/-- Cutting each file first changes nothing, unless a file that was cut is glued to the one before. -/
theorem activity_windows_iff {history : List Bytes} (h : 1 ≤ requested) :
    WindowsAgree history requested ↔ ¬ Glued newline requested history := by
  have hlaw : activityWindow history requested = tailLines history.flatten requested ↔
      ¬ Glued newline requested history := Records.tail_flatten_iff (isTail_tailLines h)
  exact ⟨fun hagree => hlaw.mp hagree.window,
    fun hglued => ⟨hlaw.mpr hglued, fun _ _ hfeed => renderActivityFeed_ok hfeed⟩⟩

/-- Each of the two files ends its own record. -/
theorem windowsAgree_ended : WindowsAgree [[97, 10], [98, 10]] 1 := by
  refine (activity_windows_iff (by decide)).mpr ?_
  rintro ⟨before, file, after, c, hsplit, hlast, hc, -⟩
  match before with
  | [] => cases hlast
  | [first] =>
    obtain ⟨rfl, -⟩ := List.cons.inj hsplit
    exact hc (Option.some.inj hlast).symm
  | first :: second :: rest =>
    have hlength := congrArg List.length hsplit
    simp at hlength

/-- A record that lacks its newline is put before the last line of the next file, not its first. -/
theorem not_windowsAgree_glued : ¬ WindowsAgree [[97], [120, 10, 121, 10]] 1 := by
  intro h
  have hwindow := h.window
  revert hwindow
  decide

end Logs
end DriveSync
