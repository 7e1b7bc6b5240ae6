import Mathlib.Data.List.Basic
import Mathlib.Tactic.Common

/-!
# DriveSync.Lib.Decimal

Decimal numbers as texts of digits.

* `value_lt_iff`: of two texts of one length, the one that stands first spells the smaller number.
* `parseUnsigned_isSome`: what is read as a number that has a bound.
-/

namespace DriveSync
namespace Decimal

def isDigit (byte : UInt8) : Bool := 48 ≤ byte && byte ≤ 57

def digitOf (byte : UInt8) : Nat := byte.toNat - 48

/-- A number with one more digit behind it. -/
def push (number : Nat) (byte : UInt8) : Nat := 10 * number + digitOf byte

def readOn (number : Nat) (text : List UInt8) : Nat :=
  text.foldl push number

/-- The number a text of digits spells. -/
def value (text : List UInt8) : Nat := readOn 0 text

def tens : Nat → Nat
  | 0 => 1
  | n + 1 => 10 * tens n

/-- Whether one text stands before another in the order of their bytes. -/
def textLt : List UInt8 → List UInt8 → Bool
  | _, [] => false
  | [], _ :: _ => true
  | a :: as, b :: bs => a < b || (a == b && textLt as bs)

def plus : UInt8 := 43

/-- The digits after one before, as long as the number keeps to its bound. -/
def parseDigits (bound : Nat) : List UInt8 → Nat → Option Nat
  | [], number => some number
  | byte :: rest, number =>
    if !isDigit byte then none
    else if bound < push number byte then none
    else parseDigits bound rest (push number byte)

/-- A number without a minus, before which a plus may stand. -/
def parseUnsigned (bound : Nat) (text : List UInt8) : Option Nat :=
  let digits := if text.head? = some plus then text.drop 1 else text
  if digits.isEmpty then none else parseDigits bound digits 0

variable {text text' : List UInt8} {byte : UInt8} {number bound : Nat}

@[simp] theorem readOn_nil : readOn number [] = number := rfl

@[simp] theorem readOn_cons :
    readOn number (byte :: text) = readOn (push number byte) text := List.foldl_cons

theorem digitOf_le (h : isDigit byte = true) : digitOf byte ≤ 9 := by
  unfold isDigit at h
  unfold digitOf
  simp only [Bool.and_eq_true, decide_eq_true_eq, UInt8.le_iff_toNat_le] at h
  have : (57 : UInt8).toNat = 57 := rfl
  omega

theorem digitOf_pos (h : isDigit byte = true) : 0 < digitOf byte ↔ byte ≠ 48 := by
  unfold isDigit at h
  simp only [Bool.and_eq_true, decide_eq_true_eq, UInt8.le_iff_toNat_le, UInt8.reduceToNat] at h
  have hnaught : (48 : UInt8).toNat = 48 := rfl
  rw [Ne, ← UInt8.toNat_inj, hnaught]
  unfold digitOf
  omega

theorem readOn_eq (number : Nat) (text : List UInt8) :
    readOn number text = number * tens text.length + value text := by
  induction text generalizing number with
  | nil => simp [value, tens]
  | cons byte text ih =>
    have hvalue : value (byte :: text) = digitOf byte * tens text.length + value text := by
      unfold value
      rw [readOn_cons, push, Nat.mul_zero, Nat.zero_add, ih]
      rfl
    rw [readOn_cons, push, ih, hvalue, List.length_cons, tens, Nat.add_mul, Nat.mul_comm 10 number,
      Nat.mul_assoc, Nat.add_assoc]

theorem value_cons : value (byte :: text) = digitOf byte * tens text.length + value text := by
  unfold value
  rw [readOn_cons, push, Nat.mul_zero, Nat.zero_add, readOn_eq]
  rfl

theorem tens_pos (n : Nat) : 0 < tens n := by
  induction n with
  | zero => exact Nat.one_pos
  | succ n ih =>
    unfold tens
    omega

theorem tens_mono {m n : Nat} (h : m ≤ n) : tens m ≤ tens n := by
  induction h with
  | refl => exact Nat.le_refl _
  | step _ ih =>
    rw [tens]
    omega

theorem value_lt_tens (h : text.all isDigit = true) : value text < tens text.length := by
  induction text with
  | nil => exact tens_pos 0
  | cons byte text ih =>
    rw [List.all_cons, Bool.and_eq_true] at h
    have hrest := ih h.2
    have hdigit := Nat.mul_le_mul_right (tens text.length) (digitOf_le h.1)
    rw [value_cons, List.length_cons, tens]
    omega

/-- A text that starts with a digit other than naught spells a number as long as it is. -/
theorem tens_le_value (h : 0 < digitOf byte) : tens text.length ≤ value (byte :: text) := by
  have := Nat.mul_le_mul_right (tens text.length) h
  rw [value_cons]
  omega

theorem digitOf_lt {byte' : UInt8} (h : isDigit byte = true) (h' : isDigit byte' = true) :
    digitOf byte < digitOf byte' ↔ byte < byte' := by
  unfold isDigit at h h'
  simp only [Bool.and_eq_true, decide_eq_true_eq, UInt8.le_iff_toNat_le] at h h'
  rw [UInt8.lt_iff_toNat_lt]
  unfold digitOf
  have : (48 : UInt8).toNat = 48 := rfl
  omega

theorem value_lt_iff (hlength : text.length = text'.length) (h : text.all isDigit = true)
    (h' : text'.all isDigit = true) : value text < value text' ↔ textLt text text' = true := by
  induction text generalizing text' with
  | nil =>
    cases text' with
    | nil => simp [textLt]
    | cons byte' text' => cases hlength
  | cons byte text ih =>
    cases text' with
    | nil => cases hlength
    | cons byte' text' =>
      rw [List.all_cons, Bool.and_eq_true] at h h'
      rw [List.length_cons, List.length_cons, Nat.succ.injEq] at hlength
      have hrest := ih hlength h.2 h'.2
      have hsmall := value_lt_tens h.2
      have hsmall' := value_lt_tens h'.2
      rw [value_cons, value_cons, hlength]
      rw [hlength] at hsmall
      rw [textLt, Bool.or_eq_true, Bool.and_eq_true, decide_eq_true_eq, beq_iff_eq, ← hrest,
        ← digitOf_lt h.1 h'.1]
      rcases Nat.lt_trichotomy (digitOf byte) (digitOf byte') with hlt | heq | hgt
      · have := Nat.mul_le_mul_right (tens text'.length) hlt
        rw [Nat.succ_mul] at this
        exact ⟨fun _ => .inl hlt, fun _ => by omega⟩
      · have hbyte : byte = byte' := by
          have hle := (digitOf_lt h.1 h'.1).not.mp (by omega)
          have hle' := (digitOf_lt h'.1 h.1).not.mp (by omega)
          rw [UInt8.lt_iff_toNat_lt] at hle hle'
          exact UInt8.toNat_inj.mp (by omega)
        rw [heq]
        constructor
        · intro hlt
          exact .inr ⟨hbyte, by omega⟩
        · rintro (hlt | ⟨-, hlt⟩)
          · omega
          · omega
      · have := Nat.mul_le_mul_right (tens text'.length) hgt
        rw [Nat.succ_mul] at this
        constructor
        · intro hlt
          omega
        · rintro (hlt | ⟨hbyte, -⟩)
          · omega
          · rw [hbyte] at hgt
            omega

/-! ## Reading -/

theorem le_readOn (number : Nat) (text : List UInt8) : number ≤ readOn number text := by
  rw [readOn_eq]
  have := Nat.le_mul_of_pos_right number (tens_pos text.length)
  omega

theorem parseDigits_eq_some {result : Nat} (hnumber : number ≤ bound) :
    parseDigits bound text number = some result ↔
      text.all isDigit = true ∧ readOn number text ≤ bound ∧ result = readOn number text := by
  induction text generalizing number with
  | nil =>
    unfold parseDigits
    constructor
    · intro h
      exact ⟨rfl, hnumber, (Option.some.inj h).symm⟩
    · rintro ⟨-, -, rfl⟩
      rfl
  | cons byte text ih =>
    unfold parseDigits
    rw [List.all_cons, Bool.and_eq_true, readOn_cons]
    split
    · rename_i hdigit
      constructor
      · intro h
        cases h
      · rintro ⟨⟨h, -⟩, -⟩
        rw [h] at hdigit
        cases hdigit
    · rename_i hdigit
      have hbyte : isDigit byte = true := by simpa using hdigit
      have hle := le_readOn (push number byte) text
      split
      · constructor
        · intro h
          cases h
        · rintro ⟨-, h, -⟩
          omega
      · rw [ih (by omega)]
        exact ⟨fun h => ⟨⟨hbyte, h.1⟩, h.2⟩, fun h => ⟨h.1.2, h.2⟩⟩

/-- A text without the plus that may stand before it. -/
def dropPlus (text : List UInt8) : List UInt8 :=
  if text.head? = some plus then text.drop 1 else text

theorem parseUnsigned_eq_some {result : Nat} : parseUnsigned bound text = some result ↔
    dropPlus text ≠ [] ∧ (dropPlus text).all isDigit = true ∧ value (dropPlus text) ≤ bound ∧
      result = value (dropPlus text) := by
  have hunfold : parseUnsigned bound text =
      if (dropPlus text).isEmpty then none else parseDigits bound (dropPlus text) 0 := rfl
  rw [hunfold]
  split
  · rename_i hempty
    constructor
    · intro h
      cases h
    · rintro ⟨h, -⟩
      exact absurd (List.isEmpty_iff.mp hempty) h
  · rename_i hsome
    have hne : dropPlus text ≠ [] := fun hnil => hsome (List.isEmpty_iff.mpr hnil)
    rw [parseDigits_eq_some (Nat.zero_le _)]
    exact ⟨fun h => ⟨hne, h⟩, fun h => h.2⟩

end Decimal
end DriveSync
