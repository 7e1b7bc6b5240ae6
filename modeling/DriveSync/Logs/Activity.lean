import DriveSync.Lib.Decimal
import DriveSync.Logs.Repair

/-!
# DriveSync.Logs.Activity

A record of the activity log is one line of fields between bars, of one of three widths. This is the
reader of the feed: it looks at bytes, as the shell's does.
-/

namespace DriveSync
namespace Logs

open Audit (ErrorKind BridgeResult)
open Decimal (isDigit textLt)

def ascii (text : String) : Bytes := text.toList.map fun c => c.toNat.toUInt8

def bar : UInt8 := 124

def dot : UInt8 := 46

def asciiLowercase (byte : UInt8) : Bool := 97 ≤ byte && byte ≤ 122

def asciiAlphanumeric (byte : UInt8) : Bool :=
  isDigit byte || asciiLowercase byte || (65 ≤ byte && byte ≤ 90)

def lowerHex (byte : UInt8) : Bool := isDigit byte || (97 ≤ byte && byte ≤ 102)

/-! ## Quoting -/

def quoteActivityField (text : Bytes) : Bytes :=
  34 :: text.flatMap (fun byte => if byte = 92 || byte = 34 then [92, byte] else [byte]) ++ [34]

def quotedActivityLength (text : Bytes) : Nat :=
  text.length + (text.filter fun byte => byte = 92 || byte = 34).length + 2

theorem quoteActivityField_length (text : Bytes) :
    (quoteActivityField text).length = quotedActivityLength text := by
  unfold quoteActivityField quotedActivityLength
  rw [List.cons_append, List.length_cons, List.length_append, List.length_singleton]
  induction text with
  | nil => rfl
  | cons byte text ih =>
    rw [List.flatMap_cons, List.length_append, List.filter_cons]
    split
    · simp only [List.length_cons, List.length_nil] at ih ⊢
      omega
    · simp only [List.length_cons, List.length_nil] at ih ⊢
      omega

/-! ## Fields -/

def activityCategories : List Bytes :=
  ["audit", "bridge", "authentication", "security", "configuration", "secrets", "routines",
    "operations", "notifications", "sync", "controller", "scheduler"].map ascii

def activityLevels : List Bytes := ["trace", "debug", "info", "warn", "error"].map ascii

def activityStates : List Bytes :=
  ["running", "succeeded", "failed", "deferred", "scheduled", "changed", "unavailable",
    "requested", "cancelled"].map ascii

def digits (field : Bytes) : Bool := !field.isEmpty && field.all isDigit

def lowercase (part : Bytes) : Bool :=
  !part.isEmpty && part.all fun byte => asciiLowercase byte || byte = 95

/-- Two words of small letters with a dot between them. -/
def codeShape (field : Bytes) : Bool :=
  field.contains dot && lowercase (field.takeWhile (· ≠ dot)) &&
    lowercase ((field.dropWhile (· ≠ dot)).drop 1)

def profileShape (field : Bytes) : Bool :=
  !field.isEmpty && field.all fun byte => asciiAlphanumeric byte || byte = 95 || byte = 45

def controlFree (field : Bytes) : Bool :=
  !field.any fun byte => (1 ≤ byte && byte ≤ 31) || byte = 127

/-- A number above any a user id can be, compared as text. -/
def overCeiling (uid : Bytes) : Bool :=
  10 < uid.length || (uid.length = 10 && textLt (ascii "4294967295") uid)

def uidShape (uid : Bytes) : Bool :=
  (uid.head?.map fun byte => 49 ≤ byte && byte ≤ 57).getD false && uid.all isDigit &&
    !overCeiling uid

def actorShape (actor : Bytes) : Bool :=
  !actor.isEmpty && actor.length ≤ 256 && controlFree actor

def messageShape (message : Bytes) : Bool := message.length ≤ 4096 && controlFree message

def recordFields (record : Bytes) : List Bytes :=
  if record.isEmpty then [] else record.splitOn bar

/-! ## Request ids -/

def requestMarker : Bytes := ascii " request_id="

/-- What follows the first marker in a message. -/
def afterMarker : Bytes → Option Bytes
  | [] => none
  | byte :: rest =>
    if requestMarker.isPrefixOf (byte :: rest) then some ((byte :: rest).drop requestMarker.length)
    else afterMarker rest

def requestIdShape (value : Bytes) : Bool := value.length = 32 && value.all lowerHex

def clientRequestId (message : Bytes) : Bytes :=
  match afterMarker message with
  | none => ascii "null"
  | some value => if requestIdShape value then quoteActivityField value else ascii "null"

def requestMarkerMalformed (message : Bytes) : Bool :=
  match afterMarker message with
  | none => false
  | some value => !requestIdShape value

/-! ## Events -/

/-- A record that was accepted, rendered up to its message. -/
structure ActivityEvent where
  prefixBytes : Bytes
  message : Bytes
  requestMarkerMalformed : Bool
deriving DecidableEq, Repr

/-- The record is not one, and the package reports its state as corrupt. -/
def packageStateCorrupt : ErrorKind := .unsafeRuntime

/-- The fields of a record, whichever of the three widths it has. -/
structure ActivityFields (F : Type) where
  epoch : F
  code : F
  profile : F
  state : F
  graded : Option (F × F)
  actor : Option (F × F)
  message : F
deriving DecidableEq, Repr

def fieldsOf {F : Type} : List F → Option (ActivityFields F)
  | [epoch, code, profile, state, message] =>
    some ⟨epoch, code, profile, state, none, none, message⟩
  | [epoch, code, profile, state, category, level, message] =>
    some ⟨epoch, code, profile, state, some (category, level), none, message⟩
  | [epoch, code, profile, state, category, level, uid, actor, message] =>
    some ⟨epoch, code, profile, state, some (category, level), some (uid, actor), message⟩
  | _ => none

namespace ActivityFields

def map {F G : Type} (f : F → G) (fields : ActivityFields F) : ActivityFields G :=
  { epoch := f fields.epoch
    code := f fields.code
    profile := f fields.profile
    state := f fields.state
    graded := fields.graded.map (Prod.map f f)
    actor := fields.actor.map (Prod.map f f)
    message := f fields.message }

variable (fields : ActivityFields Bytes)

def category : Bytes := (fields.graded.map Prod.fst).getD (ascii "operations")

def level : Bytes := (fields.graded.map Prod.snd).getD (ascii "info")

def actorUid : Bytes := (fields.actor.map Prod.fst).getD (ascii "null")

def quotedActor : Bytes :=
  (fields.actor.map fun actor => quoteActivityField actor.2).getD (ascii "null")

def accepted : Bool :=
  digits fields.epoch && codeShape fields.code && profileShape fields.profile &&
    activityStates.contains fields.state &&
    (fields.graded.map fun graded =>
      activityCategories.contains graded.1 && activityLevels.contains graded.2).getD true &&
    (fields.actor.map fun actor => uidShape actor.1 && actorShape actor.2).getD true &&
    messageShape fields.message

def rendered : Bytes :=
  ascii "\x7b\"epoch\":" ++ fields.epoch ++
  ascii ",\"code\":" ++ quoteActivityField fields.code ++
  ascii ",\"profile\":" ++ quoteActivityField fields.profile ++
  ascii ",\"state\":" ++ quoteActivityField fields.state ++
  ascii ",\"category\":" ++ quoteActivityField fields.category ++
  ascii ",\"level\":" ++ quoteActivityField fields.level ++
  ascii ",\"actor_uid\":" ++ fields.actorUid ++
  ascii ",\"actor\":" ++ fields.quotedActor ++
  ascii ",\"client_request_id\":" ++ clientRequestId fields.message ++
  ascii ",\"message\":"

end ActivityFields

def renderActivityEvent (record : Bytes) : BridgeResult ActivityEvent :=
  match fieldsOf (recordFields record) with
  | none => .error packageStateCorrupt
  | some fields =>
    if fields.accepted then
      .ok ⟨fields.rendered, fields.message, Logs.requestMarkerMalformed fields.message⟩
    else .error packageStateCorrupt

end Logs
end DriveSync
