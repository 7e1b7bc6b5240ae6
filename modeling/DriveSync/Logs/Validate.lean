import DriveSync.Lib.Utf8
import DriveSync.Logs.Activity

/-!
# DriveSync.Logs.Validate

The writers' own check of an activity record, beside that of the feed's reader. The two were written
apart: this one reads text, and numbers as numbers. They ask for one shape (`Loose`), and each
refuses something of it that the other lets through: `Foreign` this one, `Signed` the reader.
-/

namespace DriveSync
namespace Logs

open Audit (ErrorKind BridgeResult)
open Decimal (isDigit value dropPlus parseUnsigned)
open Utf8 (encode decode)

def u32Max : Nat := 4294967295

def u64Max : Nat := 18446744073709551615

/-! ## The check -/

def validSegment (segment : Bytes) : Bool :=
  !segment.isEmpty && segment.all fun byte => asciiLowercase byte || byte = 95

def validActivityCode (code : Bytes) : Bool :=
  if code.contains dot then
    let event := (code.dropWhile (· ≠ dot)).drop 1
    validSegment (code.takeWhile (· ≠ dot)) && validSegment event && !event.contains dot
  else false

def validActivityState (state : String) : Bool :=
  ["running", "succeeded", "failed", "deferred", "scheduled", "changed", "unavailable",
    "requested", "cancelled"].contains state

/-- Whether the policy has a level for a category. -/
def policyCategory (category : String) : Bool :=
  ["audit", "bridge", "authentication", "security", "configuration", "secrets", "routines",
    "operations", "notifications", "sync", "controller", "scheduler"].contains category

def validActivityLevel (level : String) : Bool :=
  ["trace", "debug", "info", "warn", "error"].contains level

/-- The fields of a record that is text. -/
def ActivityFields.validated (fields : ActivityFields (List Char)) : Bool :=
  (parseUnsigned u64Max (encode fields.epoch)).isSome && validActivityCode (encode fields.code) &&
    Audit.validAuditProfile (String.ofList fields.profile) &&
    validActivityState (String.ofList fields.state) &&
    (fields.graded.map fun graded => policyCategory (String.ofList graded.1) &&
      validActivityLevel (String.ofList graded.2)).getD true &&
    (fields.actor.map fun actor =>
      ((parseUnsigned u32Max (encode actor.1)).filter (· ≠ 0)).isSome &&
        Audit.validAuthenticatedUsername (String.ofList actor.2)).getD true &&
    (encode fields.message).length ≤ 4096 &&
    !fields.message.any fun c => Audit.isControl c || c.toNat = 127

def validateActivityLogLine (line : Bytes) : BridgeResult (List Char) :=
  match decode line with
  | none => .error .unsafeRuntime
  | some text =>
    match fieldsOf (text.splitOn '|') with
    | none => .error .unsafeRuntime
    | some fields => if fields.validated then .ok text else .error .unsafeRuntime

/-! ## What both ask for -/

/-- A number, before which a plus may stand. -/
def unsignedShape (field : Bytes) : Bool := digits (dropPlus field)

def userShape (uid actor : Bytes) : Bool :=
  unsignedShape uid && value (dropPlus uid) != 0 && value (dropPlus uid) ≤ u32Max && actorShape actor

def ActivityFields.loose (fields : ActivityFields Bytes) : Bool :=
  unsignedShape fields.epoch && codeShape fields.code && profileShape fields.profile &&
    activityStates.contains fields.state &&
    (fields.graded.map fun graded =>
      activityCategories.contains graded.1 && activityLevels.contains graded.2).getD true &&
    (fields.actor.map fun actor => userShape actor.1 actor.2).getD true &&
    messageShape fields.message

/-- A record of the shape both ask for. -/
def Loose (line : Bytes) : Prop :=
  ∃ fields, fieldsOf (recordFields line) = some fields ∧ fields.loose = true

/-- A number with a plus before it, or a user id with a naught. -/
def ActivityFields.Signed (fields : ActivityFields Bytes) : Prop :=
  fields.epoch.head? = some Decimal.plus ∨
    ∃ actor, fields.actor = some actor ∧
      (actor.1.head? = some Decimal.plus ∨ actor.1.head? = some 48)

def Signed (line : Bytes) : Prop := ∃ fields, fieldsOf (recordFields line) = some fields ∧ fields.Signed

/-- A control character the reader's bytes do not show: the null, and those above ASCII. -/
def hiddenControl (c : Char) : Bool := c.toNat = 0 || (128 ≤ c.toNat && c.toNat < 160)

/-- A field that is text and holds such a character. -/
def HasMark (marks : Char → Bool) (field : Bytes) : Prop :=
  ∃ text, decode field = some text ∧ text.any marks = true

def ActivityFields.Foreign (fields : ActivityFields Bytes) : Prop :=
  u64Max < value (dropPlus fields.epoch) ∨ 255 < fields.profile.length ∨
    HasMark hiddenControl fields.message ∨
    ∃ actor, fields.actor = some actor ∧
      HasMark (fun c => hiddenControl c || Audit.invisibleMark c) actor.2

/-- No text at all, or one with a number, a name or a character that is out of range. -/
def Foreign (line : Bytes) : Prop :=
  decode line = none ∨ ∃ fields, fieldsOf (recordFields line) = some fields ∧ fields.Foreign

/-! ## The reader of the feed -/

variable {line : Bytes}

theorem dropPlus_of_not_plus {field : Bytes} (h : field.head? ≠ some Decimal.plus) :
    dropPlus field = field := by
  unfold dropPlus
  rw [if_neg h]

theorem digits_iff {field : Bytes} :
    digits field = true ↔ unsignedShape field = true ∧ field.head? ≠ some Decimal.plus := by
  unfold unsignedShape
  by_cases h : field.head? = some Decimal.plus
  · constructor
    · intro hdigits
      cases field with
      | nil => cases h
      | cons byte field =>
        obtain rfl := Option.some.inj h
        unfold digits at hdigits
        rw [List.all_cons] at hdigits
        simp [show isDigit Decimal.plus = false by decide] at hdigits
    · exact fun hboth => absurd h hboth.2
  · rw [dropPlus_of_not_plus h]
    exact ⟨fun hdigits => ⟨hdigits, h⟩, fun hboth => hboth.1⟩

theorem value_ceiling : value (ascii "4294967295") = u32Max := by decide

theorem overCeiling_iff {first : UInt8} {rest : Bytes} (hall : (first :: rest).all isDigit = true)
    (hfirst : 0 < Decimal.digitOf first) :
    overCeiling (first :: rest) = true ↔ u32Max < value (first :: rest) := by
  have hlow : Decimal.tens 9 ≤ u32Max := by decide
  have hhigh : u32Max < Decimal.tens 10 := by decide
  have hceiling : (ascii "4294967295").length = 10 := by decide
  have hless := Decimal.value_lt_tens hall
  unfold overCeiling
  rw [Bool.or_eq_true, Bool.and_eq_true, decide_eq_true_eq, decide_eq_true_eq]
  rcases Nat.lt_trichotomy (first :: rest).length 10 with hlength | hlength | hlength
  · have := Decimal.tens_mono (Nat.le_of_lt_succ hlength)
    constructor
    · rintro (hlong | ⟨hsame, -⟩)
      · omega
      · omega
    · intro hover
      omega
  · rw [← value_ceiling, Decimal.value_lt_iff (hceiling.trans hlength.symm) (by decide) hall]
    constructor
    · rintro (hlong | ⟨-, hover⟩)
      · omega
      · exact hover
    · exact fun hover => .inr ⟨hlength, hover⟩
  · have hlong : 10 ≤ rest.length := Nat.le_of_lt_succ hlength
    have := Decimal.tens_mono hlong
    have := @Decimal.tens_le_value rest first hfirst
    exact ⟨fun _ => by omega, fun _ => .inl hlength⟩

theorem firstDigit_iff {first : UInt8} : (49 ≤ first ∧ first ≤ 57) ↔
    isDigit first = true ∧ first ≠ Decimal.plus ∧ first ≠ 48 := by
  have hplus : Decimal.plus.toNat = 43 := rfl
  unfold isDigit
  rw [Bool.and_eq_true, decide_eq_true_eq, decide_eq_true_eq, Ne, Ne, ← UInt8.toNat_inj,
    ← UInt8.toNat_inj, UInt8.le_iff_toNat_le, UInt8.le_iff_toNat_le, UInt8.le_iff_toNat_le, hplus]
  simp only [UInt8.reduceToNat]
  omega

/-- A user id as the reader compares it, by its text, is one that is in range. -/
theorem uidShape_iff {uid : Bytes} : uidShape uid = true ↔
    (unsignedShape uid && value (dropPlus uid) != 0 && value (dropPlus uid) ≤ u32Max) = true ∧
      uid.head? ≠ some Decimal.plus ∧ uid.head? ≠ some 48 := by
  cases uid with
  | nil => simp [uidShape, unsignedShape, digits, dropPlus]
  | cons first rest =>
    have hcommon : uidShape (first :: rest) = true ↔ (isDigit first = true ∧ first ≠ Decimal.plus ∧
        first ≠ 48) ∧ (first :: rest).all isDigit = true ∧ ¬ overCeiling (first :: rest) = true := by
      unfold uidShape
      rw [← firstDigit_iff]
      simp only [List.head?_cons, Option.map_some, Option.getD_some, Bool.and_eq_true,
        decide_eq_true_eq, Bool.not_eq_true', Bool.not_eq_true, and_assoc]
    rw [hcommon, List.head?_cons]
    simp only [ne_eq, Option.some.injEq]
    by_cases hplus : first = Decimal.plus
    · simp [hplus]
    · have hdrop : dropPlus (first :: rest) = first :: rest :=
        dropPlus_of_not_plus (by simpa using hplus)
      unfold unsignedShape digits
      simp only [hdrop, List.isEmpty_cons, Bool.not_false, Bool.true_and, Bool.and_eq_true,
        bne_iff_ne, ne_eq, decide_eq_true_eq]
      constructor
      · rintro ⟨⟨hdigit, -, hnaught⟩, hall, hceiling⟩
        have hpos := (Decimal.digitOf_pos hdigit).mpr hnaught
        rw [overCeiling_iff hall hpos] at hceiling
        have := @Decimal.tens_le_value rest first hpos
        have := Decimal.tens_pos rest.length
        exact ⟨⟨⟨hall, by omega⟩, by omega⟩, hplus, hnaught⟩
      · rintro ⟨⟨⟨hall, -⟩, hrange⟩, -, hnaught⟩
        have hdigit : isDigit first = true := by
          rw [List.all_cons, Bool.and_eq_true] at hall
          exact hall.1
        have hpos := (Decimal.digitOf_pos hdigit).mpr hnaught
        rw [overCeiling_iff hall hpos]
        exact ⟨⟨hdigit, hplus, hnaught⟩, hall, by omega⟩

theorem renderActivityEvent_ok_iff :
    (∃ event, renderActivityEvent line = .ok event) ↔ Loose line ∧ ¬ Signed line := by
  unfold renderActivityEvent Loose Signed
  cases hfields : fieldsOf (recordFields line) with
  | none => simp
  | some fields =>
    simp only [Option.some.injEq, exists_eq_left']
    have haccepted : fields.accepted = true ↔ fields.loose = true ∧ ¬ fields.Signed := by
      unfold ActivityFields.accepted ActivityFields.loose ActivityFields.Signed userShape
      simp only [Bool.and_eq_true]
      rw [digits_iff]
      cases hactor : fields.actor with
      | none =>
        simp only [Option.map_none, Option.getD_none]
        simp only [reduceCtorEq, false_and, exists_false, or_false]
        tauto
      | some actor =>
        simp only [Option.map_some, Option.getD_some, Bool.and_eq_true, Option.some.injEq,
          exists_eq_left']
        have := @uidShape_iff actor.1
        simp only [Bool.and_eq_true] at this
        tauto
    rw [← haccepted]
    split
    · rename_i h
      simp [h]
    · rename_i h
      simp [h]

/-! ## The writers' check -/

theorem parseUnsigned_isSome_iff {bound : Nat} {field : Bytes} :
    (parseUnsigned bound field).isSome = true ↔
      unsignedShape field = true ∧ value (dropPlus field) ≤ bound := by
  rw [Option.isSome_iff_exists]
  unfold unsignedShape digits
  rw [Bool.and_eq_true, Bool.not_eq_true', ← Bool.not_eq_true, List.isEmpty_iff]
  constructor
  · rintro ⟨number, h⟩
    obtain ⟨hne, hall, hbound, -⟩ := Decimal.parseUnsigned_eq_some.mp h
    exact ⟨⟨hne, hall⟩, hbound⟩
  · rintro ⟨⟨hne, hall⟩, hbound⟩
    exact ⟨_, Decimal.parseUnsigned_eq_some.mpr ⟨hne, hall, hbound, rfl⟩⟩

theorem parseUid_isSome_iff {field : Bytes} :
    ((parseUnsigned u32Max field).filter (· ≠ 0)).isSome = true ↔
      (unsignedShape field && value (dropPlus field) != 0 && value (dropPlus field) ≤ u32Max) =
        true := by
  rw [Option.isSome_filter, Option.any_eq_true]
  simp only [Bool.and_eq_true, bne_iff_ne, decide_eq_true_eq]
  constructor
  · rintro ⟨number, h, hzero⟩
    obtain ⟨hne, hall, hbound, rfl⟩ := Decimal.parseUnsigned_eq_some.mp h
    refine ⟨⟨?_, hzero⟩, hbound⟩
    exact (parseUnsigned_isSome_iff.mp (by rw [h]; rfl)).1
  · rintro ⟨⟨hshape, hzero⟩, hbound⟩
    obtain ⟨number, h⟩ := Option.isSome_iff_exists.mp (parseUnsigned_isSome_iff.mpr ⟨hshape, hbound⟩)
    obtain ⟨-, -, -, rfl⟩ := Decimal.parseUnsigned_eq_some.mp h
    exact ⟨_, h, hzero⟩

theorem validActivityCode_eq (code : Bytes) : validActivityCode code = codeShape code := by
  unfold validActivityCode codeShape
  split
  · rename_i hdot
    rw [hdot, Bool.true_and]
    change (lowercase _ && lowercase _ && _) = _
    cases hevent : lowercase ((code.dropWhile (· ≠ dot)).drop 1) with
    | false => simp
    | true =>
      have hnone : ((code.dropWhile (· ≠ dot)).drop 1).contains dot = false := by
        rw [← Bool.not_eq_true, List.contains_iff_mem]
        intro hmem
        unfold lowercase at hevent
        rw [Bool.and_eq_true, List.all_eq_true] at hevent
        exact absurd (hevent.2 dot hmem) (by decide)
      rw [hnone, Bool.not_false, Bool.and_true]
  · rename_i hdot
    rw [(Bool.not_eq_true _).mp hdot, Bool.false_and, Bool.false_and]

theorem ascii_eq_encode {text : String} (h : ∀ c ∈ text.toList, c.toNat < 128) :
    ascii text = encode text.toList := by
  unfold ascii
  generalize text.toList = chars at h
  induction chars with
  | nil => rfl
  | cons c chars ih =>
    rw [List.map_cons, Utf8.encode_cons, Utf8.encodeChar_low (h c (.head _)),
      ih fun d hd => h d (.tail _ hd)]
    rfl

theorem contains_ascii {names : List String}
    (hnames : (names.all fun name => name.toList.all fun c => c.toNat < 128) = true)
    (field : List Char) : (names.map ascii).contains (encode field) =
      names.contains (String.ofList field) := by
  have h (name : String) (hname : name ∈ names) (c : Char) (hc : c ∈ name.toList) :
      c.toNat < 128 :=
    of_decide_eq_true (List.all_eq_true.mp (List.all_eq_true.mp hnames name hname) c hc)
  rw [Bool.eq_iff_iff, List.contains_iff_mem, List.contains_iff_mem, List.mem_map]
  constructor
  · rintro ⟨name, hname, heq⟩
    rw [ascii_eq_encode (h name hname)] at heq
    rw [← Utf8.encode_inj heq, String.ofList_toList]
    exact hname
  · intro hname
    refine ⟨_, hname, ?_⟩
    rw [ascii_eq_encode (h _ hname), String.toList_ofList]

/-! ## Text and its bytes -/

theorem agree_profile : Utf8.Agree
    (fun byte => asciiAlphanumeric byte || byte = 95 || byte = 45)
    (fun c => Audit.asciiAlphanumeric c || c = '_' || c = '-') := by
  refine Utf8.agree_of_low (by decide) (by decide +kernel) fun c hc => ?_
  have hle (d : Char) (hd : d.toNat < 128) : ¬ c ≤ d := fun hle => by
    have : c.toNat ≤ d.toNat := hle
    omega
  have hne (d : Char) (hd : d.toNat < 128) : ¬ c = d := fun heq => by
    rw [heq] at hc
    omega
  simp [Audit.asciiAlphanumeric, hle '9' (by decide), hle 'z' (by decide), hle 'Z' (by decide),
    hne '_' (by decide), hne '-' (by decide)]

theorem any_or (p q : Char → Bool) (text : List Char) :
    (text.any fun c => p c || q c) = (text.any p || text.any q) := by
  rw [Bool.eq_iff_iff]
  simp only [List.any_eq_true, Bool.or_eq_true, and_or_left, exists_or]

/-- The control characters the reader's bytes do show. -/
def plainControl (c : Char) : Bool := (1 ≤ c.toNat && c.toNat ≤ 31) || c.toNat = 127

theorem agree_control :
    Utf8.Agree (fun byte => (1 ≤ byte && byte ≤ 31) || byte = 127) plainControl := by
  refine Utf8.agree_of_low (by decide) (by decide +kernel) fun c hc => ?_
  unfold plainControl
  rw [Bool.or_eq_false_iff, Bool.and_eq_false_iff]
  exact ⟨.inr (decide_eq_false (by omega)), decide_eq_false (by omega)⟩

theorem isControl_eq (c : Char) : Audit.isControl c = (plainControl c || hiddenControl c) := by
  unfold Audit.isControl plainControl hiddenControl
  rw [Bool.eq_iff_iff]
  simp only [Bool.or_eq_true, Bool.and_eq_true, decide_eq_true_eq]
  omega

theorem controlFree_encode (text : List Char) :
    controlFree (encode text) = !text.any plainControl := by
  unfold controlFree
  rw [Utf8.any_encode agree_control]

theorem hasMark_encode {marks : Char → Bool} {text : List Char} :
    HasMark marks (encode text) ↔ text.any marks = true := by
  unfold HasMark
  rw [Utf8.decode_encode]
  simp

theorem isEmpty_ofList (text : List Char) : (String.ofList text).isEmpty = text.isEmpty := by
  cases text with
  | nil => rfl
  | cons c text =>
    rw [List.isEmpty_cons, String.isEmpty_eq_false_iff]
    intro h
    have := congrArg String.toList h
    simp at this

theorem isEmpty_encode (text : List Char) : (encode text).isEmpty = text.isEmpty := by
  rw [Bool.eq_iff_iff, List.isEmpty_iff, List.isEmpty_iff, Utf8.encode_eq_nil]

theorem validAuditProfile_iff {profile : List Char} :
    Audit.validAuditProfile (String.ofList profile) = true ↔
      profileShape (encode profile) = true ∧ ¬ 255 < (encode profile).length := by
  have hchars : (encode profile).all
      (fun byte => asciiAlphanumeric byte || byte = 95 || byte = 45) =
        profile.all fun c => Audit.asciiAlphanumeric c || c = '_' || c = '-' :=
    Utf8.all_encode agree_profile profile
  unfold Audit.validAuditProfile profileShape
  rw [hchars, isEmpty_encode]
  by_cases hall : String.ofList profile = "all"
  · have hprofile : profile = "all".toList := by rw [← hall, String.toList_ofList]
    rw [hprofile]
    decide
  · unfold Audit.validExistingName
    rw [← Utf8.length_encode, isEmpty_ofList, String.toList_ofList, beq_false_of_ne hall,
      bne_iff_ne.mpr hall, Bool.false_or, Bool.and_true]
    by_cases hnone : String.ofList profile = "none"
    · have hprofile : profile = "none".toList := by rw [← hnone, String.toList_ofList]
      rw [hprofile]
      decide
    · rw [beq_false_of_ne hnone, Bool.false_or]
      simp only [Bool.and_eq_true, decide_eq_true_eq, Nat.not_lt]
      tauto

theorem messageShape_iff {message : List Char} :
    (decide ((encode message).length ≤ 4096) &&
      !message.any fun c => Audit.isControl c || c.toNat = 127) = true ↔
        messageShape (encode message) = true ∧ ¬ HasMark hiddenControl (encode message) := by
  have hcontrol : (message.any fun c => Audit.isControl c || c.toNat = 127) =
      (message.any plainControl || message.any hiddenControl) := by
    rw [← any_or]
    congr 1
    funext c
    rw [isControl_eq]
    unfold plainControl
    rw [Bool.eq_iff_iff]
    simp only [Bool.or_eq_true]
    tauto
  unfold messageShape
  rw [hcontrol, controlFree_encode, hasMark_encode]
  simp only [Bool.and_eq_true, Bool.not_eq_true', Bool.or_eq_false_iff, Bool.not_eq_true]
  tauto

theorem actorShape_iff {actor : List Char} (hbar : '|' ∉ actor) :
    Audit.validAuthenticatedUsername (String.ofList actor) = true ↔
      actorShape (encode actor) = true ∧
        ¬ HasMark (fun c => hiddenControl c || Audit.invisibleMark c) (encode actor) := by
  have hall : (actor.all fun c => !Audit.isControl c && c != '|' && !Audit.invisibleMark c) =
      (!actor.any plainControl && !actor.any fun c => hiddenControl c || Audit.invisibleMark c) := by
    have hpoint (c : Char) (hc : c ∈ actor) :
        (!Audit.isControl c && c != '|' && !Audit.invisibleMark c) =
          !(plainControl c || (hiddenControl c || Audit.invisibleMark c)) := by
      have hne : (c != '|') = true := bne_iff_ne.mpr fun heq => hbar (heq ▸ hc)
      rw [hne, isControl_eq, Bool.and_true, Bool.not_or, Bool.not_or, Bool.not_or, Bool.and_assoc]
    rw [← Bool.not_or, ← any_or, List.not_any_eq_all_not, Bool.eq_iff_iff, List.all_eq_true,
      List.all_eq_true]
    exact ⟨fun h c hc => hpoint c hc ▸ h c hc, fun h c hc => (hpoint c hc).symm ▸ h c hc⟩
  unfold Audit.validAuthenticatedUsername actorShape
  rw [String.toList_ofList, isEmpty_ofList, isEmpty_encode, ← Utf8.length_encode, hall,
    controlFree_encode, hasMark_encode]
  simp only [Bool.and_eq_true, Bool.not_eq_true', Bool.not_eq_true]
  tauto

/-! ## The two of them -/

theorem fieldsOf_map {F G : Type} (f : F → G) (pieces : List F) :
    fieldsOf (pieces.map f) = (fieldsOf pieces).map (ActivityFields.map f) :=
  match pieces with
  | [] | [_] | [_, _] | [_, _, _] | [_, _, _, _] | [_, _, _, _, _] | [_, _, _, _, _, _]
  | [_, _, _, _, _, _, _] | [_, _, _, _, _, _, _, _] | [_, _, _, _, _, _, _, _, _]
  | _ :: _ :: _ :: _ :: _ :: _ :: _ :: _ :: _ :: _ :: _ => rfl

theorem actor_mem {F : Type} {pieces : List F} {fields : ActivityFields F} {actor : F × F}
    (h : fieldsOf pieces = some fields) (hactor : fields.actor = some actor) :
    actor.2 ∈ pieces := by
  unfold fieldsOf at h
  split at h
  · obtain rfl := Option.some.inj h
    cases hactor
  · obtain rfl := Option.some.inj h
    cases hactor
  · obtain rfl := Option.some.inj h
    obtain rfl := Option.some.inj hactor
    simp
  · cases h

theorem fieldsOf_recordFields (text : List Char) : fieldsOf (recordFields (encode text)) =
    (fieldsOf (text.splitOn '|')).map (ActivityFields.map encode) := by
  unfold recordFields
  rw [isEmpty_encode]
  split
  · rename_i hempty
    rw [List.isEmpty_iff.mp hempty]
    rfl
  · rw [← fieldsOf_map, ← Utf8.splitOn_encode (by decide)]
    rfl

theorem contains_states (state : List Char) : activityStates.contains (encode state) =
    validActivityState (String.ofList state) := contains_ascii (by decide) state

theorem contains_categories (category : List Char) :
    activityCategories.contains (encode category) = policyCategory (String.ofList category) :=
  contains_ascii (by decide) category

theorem contains_levels (level : List Char) : activityLevels.contains (encode level) =
    validActivityLevel (String.ofList level) := contains_ascii (by decide) level

theorem validated_iff {fields : ActivityFields (List Char)}
    (hactor : ∀ actor, fields.actor = some actor → '|' ∉ actor.2) :
    fields.validated = true ↔
      (fields.map encode).loose = true ∧ ¬ (fields.map encode).Foreign := by
  obtain ⟨epoch, code, profile, state, graded, actor, message⟩ := fields
  have hmessage := @messageShape_iff message
  have hprofile := @validAuditProfile_iff profile
  have hepoch := @parseUnsigned_isSome_iff u64Max (encode epoch)
  have hgraded : ((graded.map fun graded => policyCategory (String.ofList graded.1) &&
      validActivityLevel (String.ofList graded.2)).getD true) =
        (((graded.map (Prod.map encode encode)).map fun graded =>
          activityCategories.contains graded.1 && activityLevels.contains graded.2).getD true) := by
    cases graded with
    | none => rfl
    | some graded =>
      simp only [Option.map_some, Option.getD_some, Prod.map, contains_categories, contains_levels]
  unfold ActivityFields.validated ActivityFields.loose ActivityFields.Foreign
  dsimp only [ActivityFields.map] at hactor ⊢
  rw [validActivityCode_eq, contains_states, hgraded]
  simp only [Bool.and_eq_true, Nat.not_lt] at hmessage hprofile hepoch ⊢
  rw [and_assoc, hmessage, hepoch, hprofile, not_or, not_or, not_or, Nat.not_lt, Nat.not_lt]
  cases actor with
  | none =>
    constructor
    · rintro ⟨⟨⟨⟨⟨⟨⟨hshape, hbound⟩, hcode⟩, hname, hlength⟩, hstate⟩, hgrade⟩, -⟩, hmessage, hmarks⟩
      exact ⟨⟨⟨⟨⟨⟨⟨hshape, hcode⟩, hname⟩, hstate⟩, hgrade⟩, rfl⟩, hmessage⟩, hbound, hlength, hmarks,
        by simp⟩
    · rintro ⟨⟨⟨⟨⟨⟨⟨hshape, hcode⟩, hname⟩, hstate⟩, hgrade⟩, -⟩, hmessage⟩, hbound, hlength, hmarks, -⟩
      exact ⟨⟨⟨⟨⟨⟨⟨hshape, hbound⟩, hcode⟩, hname, hlength⟩, hstate⟩, hgrade⟩, rfl⟩, hmessage, hmarks⟩
  | some actor =>
    have huser := actorShape_iff (hactor actor rfl)
    have huid := @parseUid_isSome_iff (encode actor.1)
    simp only [Option.map_some, Option.getD_some, Bool.and_eq_true, Option.some.injEq,
      exists_eq_left', Prod.map] at huser huid ⊢
    rw [huser, huid]
    unfold userShape
    simp only [Bool.and_eq_true]
    constructor
    · rintro ⟨⟨⟨⟨⟨⟨⟨hshape, hbound⟩, hcode⟩, hname, hlength⟩, hstate⟩, hgrade⟩, huid, hactor, hactorMarks⟩,
        hmessage, hmarks⟩
      exact ⟨⟨⟨⟨⟨⟨⟨hshape, hcode⟩, hname⟩, hstate⟩, hgrade⟩, huid, hactor⟩, hmessage⟩, hbound, hlength,
        hmarks, hactorMarks⟩
    · rintro ⟨⟨⟨⟨⟨⟨⟨hshape, hcode⟩, hname⟩, hstate⟩, hgrade⟩, huid, hactor⟩, hmessage⟩, hbound, hlength,
        hmarks, hactorMarks⟩
      exact ⟨⟨⟨⟨⟨⟨⟨hshape, hbound⟩, hcode⟩, hname, hlength⟩, hstate⟩, hgrade⟩, huid, hactor, hactorMarks⟩,
        hmessage, hmarks⟩

theorem validateActivityLogLine_ok_iff {line : Bytes} :
    (∃ text, validateActivityLogLine line = .ok text) ↔ Loose line ∧ ¬ Foreign line := by
  unfold validateActivityLogLine Foreign
  cases hdecode : decode line with
  | none => simp
  | some text =>
    obtain rfl := Utf8.decode_eq_some.mp hdecode
    unfold Loose
    rw [fieldsOf_recordFields]
    dsimp only
    cases hfields : fieldsOf (text.splitOn '|') with
    | none => simp
    | some fields =>
      have hvalidated := @validated_iff fields fun actor hactor =>
        Records.not_mem_of_mem_splitOn (actor_mem hfields hactor)
      simp only [Option.map_some, Option.some.injEq, exists_eq_left', reduceCtorEq, false_or]
      rw [← hvalidated]
      split
      · rename_i h
        simp [h]
      · rename_i h
        simp [h]

/-- The two checks agree on a line exactly if both refuse something of it or neither does. -/
theorem validators_agree_iff {line : Bytes} :
    ((∃ text, validateActivityLogLine line = .ok text) ↔
        ∃ event, renderActivityEvent line = .ok event) ↔
      (¬ Loose line ∨ (Foreign line ↔ Signed line)) := by
  rw [validateActivityLogLine_ok_iff, renderActivityEvent_ok_iff]
  by_cases hloose : Loose line
  · simp only [hloose, true_and, not_true_eq_false, false_or]
    exact not_iff_not
  · simp only [hloose, false_and, not_false_eq_true, true_or]

/-- A message that is not text: the feed shows it, and no later mutation can be verified. -/
theorem not_validators_agree_latin :
    let line := ascii "7|sync.failed|photos|failed|caf" ++ [233]
    ¬ ((∃ text, validateActivityLogLine line = .ok text) ↔
      ∃ event, renderActivityEvent line = .ok event) := by
  intro line hagree
  have hrefused : validateActivityLogLine line = .error .unsafeRuntime := by decide +kernel
  have hshown : (renderActivityEvent line).toOption.isSome = true := by decide +kernel
  cases hevent : renderActivityEvent line with
  | error error =>
    rw [hevent] at hshown
    cases hshown
  | ok event =>
    obtain ⟨text, htext⟩ := hagree.mpr ⟨event, hevent⟩
    rw [hrefused] at htext
    cases htext

end Logs
end DriveSync
