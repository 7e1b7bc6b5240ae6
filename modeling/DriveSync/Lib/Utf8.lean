import Mathlib.Data.List.Basic

/-!
# DriveSync.Lib.Utf8

Texts and the bytes that spell them. A byte below 128 spells one character and stands in no other's
spelling, so what is asked of such bytes can be asked of the bytes as well as of the text.

* `decode_eq_some`: the two are inverse.
* `all_encode`, `any_encode`: a question about every byte, or about some.
* `splitOn_encode`: a text in pieces.
-/

namespace DriveSync
namespace Utf8

def encode (text : List Char) : List UInt8 := text.flatMap String.utf8EncodeChar

def decode (bytes : List UInt8) : Option (List Char) :=
  bytes.toByteArray.utf8Decode?.map Array.toList

variable {text : List Char} {bytes : List UInt8} {c : Char}

@[simp] theorem encode_nil : encode [] = [] := rfl

@[simp] theorem encode_cons : encode (c :: text) = String.utf8EncodeChar c ++ encode text := by
  rw [encode, List.flatMap_cons]
  rfl

theorem decode_encode (text : List Char) : decode (encode text) = some text := by
  have h : (encode text).toByteArray = text.utf8Encode := rfl
  unfold decode
  rw [h, List.utf8Decode?_utf8Encode]
  rfl

theorem decode_eq_some : decode bytes = some text ↔ encode text = bytes := by
  constructor
  · intro h
    unfold decode at h
    obtain ⟨array, harray, rfl⟩ := Option.map_eq_some_iff.mp h
    have hsome : bytes.toByteArray.utf8Decode?.isSome = true := by rw [harray]; rfl
    have hback := @ByteArray.utf8Encode_get_utf8Decode? bytes.toByteArray hsome
    simp only [harray, Option.get_some] at hback
    have hdata : (encode array.toList).toByteArray = bytes.toByteArray := hback
    have := congrArg (fun b => b.data.toList) hdata
    simpa using this
  · rintro rfl
    exact decode_encode text

theorem encode_inj {text' : List Char} (h : encode text = encode text') : text = text' := by
  have := decode_encode text
  rw [h, decode_encode] at this
  exact (Option.some.inj this).symm

/-! ## Single characters -/

theorem encodeChar_low (h : c.toNat < 128) :
    String.utf8EncodeChar c = [UInt8.ofNat c.toNat] := by
  unfold String.utf8EncodeChar
  rw [if_pos (show c.val.toNat ≤ 0x7f from Nat.le_of_lt_succ h)]
  rfl

theorem encodeChar_high (h : 128 ≤ c.toNat) : ∀ b ∈ String.utf8EncodeChar c, 128 ≤ b := by
  intro b hb
  have hval : 128 ≤ c.val.toNat := h
  unfold String.utf8EncodeChar at hb
  rw [if_neg (by omega)] at hb
  rw [UInt8.le_iff_toNat_le]
  split at hb
  · simp only [List.mem_cons, List.not_mem_nil, or_false] at hb
    rcases hb with rfl | rfl <;> simp <;> omega
  · split at hb
    · simp only [List.mem_cons, List.not_mem_nil, or_false] at hb
      rcases hb with rfl | rfl | rfl <;> simp <;> omega
    · simp only [List.mem_cons, List.not_mem_nil, or_false] at hb
      rcases hb with rfl | rfl | rfl | rfl <;> simp <;> omega

theorem encodeChar_ne_nil (c : Char) : String.utf8EncodeChar c ≠ [] := String.utf8EncodeChar_ne_nil

/-- A question about a character, asked of the bytes that spell it. -/
def Agree (p : UInt8 → Bool) (q : Char → Bool) : Prop :=
  (∀ c : Char, c.toNat < 128 → p (UInt8.ofNat c.toNat) = q c) ∧
    (∀ b : UInt8, 128 ≤ b → p b = false) ∧ ∀ c : Char, 128 ≤ c.toNat → q c = false

variable {p : UInt8 → Bool} {q : Char → Bool}

theorem agree_of_low (hlow : ∀ n < 128, p (UInt8.ofNat n) = q (Char.ofNat n))
    (hbyte : ∀ n < 256, 128 ≤ n → p (UInt8.ofNat n) = false)
    (hchar : ∀ c : Char, 128 ≤ c.toNat → q c = false) : Agree p q := by
  refine ⟨fun c hc => ?_, fun b hb => ?_, hchar⟩
  · rw [hlow c.toNat hc, Char.ofNat_toNat]
  · rw [← hbyte b.toNat (UInt8.toNat_lt b) (UInt8.le_iff_toNat_le.mp hb), UInt8.ofNat_toNat]

theorem all_encodeChar (h : Agree p q) (c : Char) : (String.utf8EncodeChar c).all p = q c := by
  by_cases hc : c.toNat < 128
  · rw [encodeChar_low hc, List.all_cons, List.all_nil, Bool.and_true, h.1 c hc]
  · rw [h.2.2 c (by omega)]
    obtain ⟨b, rest, hb⟩ := List.exists_cons_of_ne_nil (encodeChar_ne_nil c)
    have hmem : b ∈ String.utf8EncodeChar c := by rw [hb]; exact .head _
    have hbyte := h.2.1 b (encodeChar_high (by omega) b hmem)
    rw [hb, List.all_cons, hbyte, Bool.false_and]

theorem any_encodeChar (h : Agree p q) (c : Char) : (String.utf8EncodeChar c).any p = q c := by
  by_cases hc : c.toNat < 128
  · rw [encodeChar_low hc, List.any_cons, List.any_nil, Bool.or_false, h.1 c hc]
  · rw [h.2.2 c (by omega), List.any_eq_false]
    intro b hb
    rw [h.2.1 b (encodeChar_high (by omega) b hb)]
    exact Bool.false_ne_true

theorem all_encode (h : Agree p q) (text : List Char) : (encode text).all p = text.all q := by
  induction text with
  | nil => rfl
  | cons c text ih => rw [encode_cons, List.all_append, List.all_cons, all_encodeChar h, ih]

theorem any_encode (h : Agree p q) (text : List Char) : (encode text).any p = text.any q := by
  induction text with
  | nil => rfl
  | cons c text ih => rw [encode_cons, List.any_append, List.any_cons, any_encodeChar h, ih]

theorem length_encode (text : List Char) :
    (encode text).length = (String.ofList text).utf8ByteSize := by
  have h : (String.ofList text).toByteArray = (encode text).toByteArray := String.toByteArray_ofList
  unfold String.utf8ByteSize
  rw [h, List.size_toByteArray]

theorem encode_eq_nil : encode text = [] ↔ text = [] := by
  cases text with
  | nil => simp
  | cons c text => simp

/-! ## Pieces -/

theorem splitOn_append_of_not_mem {α : Type} [BEq α] [LawfulBEq α] {sep : α} {front : List α}
    (h : sep ∉ front) (rest : List α) :
    (front ++ rest).splitOn sep = (rest.splitOn sep).modifyHead (front ++ ·) := by
  induction front with
  | nil =>
    obtain ⟨first, others, hsplit⟩ := List.exists_cons_of_ne_nil (List.splitOn_ne_nil sep rest)
    rw [List.nil_append, hsplit]
    rfl
  | cons x front ih =>
    rw [List.mem_cons, not_or] at h
    have hx : ¬ (x == sep) = true := fun heq => h.1 (eq_of_beq heq).symm
    rw [List.cons_append, List.splitOn_cons_eq_if_modifyHead, if_neg hx, ih h.2]
    obtain ⟨first, others, hsplit⟩ := List.exists_cons_of_ne_nil (List.splitOn_ne_nil sep rest)
    rw [hsplit]
    rfl

theorem splitOn_encode {sep : Char} (hsep : sep.toNat < 128) (text : List Char) :
    (encode text).splitOn (UInt8.ofNat sep.toNat) = (text.splitOn sep).map encode := by
  induction text with
  | nil => simp
  | cons c text ih =>
    rw [encode_cons, List.splitOn_cons_eq_if_modifyHead]
    by_cases hc : c = sep
    · rw [hc, encodeChar_low hsep, if_pos (beq_self_eq_true sep), List.singleton_append,
        List.splitOn_cons_eq_if_modifyHead, if_pos (beq_self_eq_true _), ih]
      rfl
    · have hnot : UInt8.ofNat sep.toNat ∉ String.utf8EncodeChar c := by
        intro hmem
        by_cases hlow : c.toNat < 128
        · rw [encodeChar_low hlow, List.mem_singleton] at hmem
          have hnat := congrArg UInt8.toNat hmem
          simp only [UInt8.toNat_ofNat'] at hnat
          refine hc (Char.ext ?_)
          apply UInt32.toNat_inj.mp
          change c.toNat = sep.toNat
          omega
        · have hhigh := encodeChar_high (by omega) _ hmem
          rw [UInt8.le_iff_toNat_le] at hhigh
          simp only [UInt8.toNat_ofNat'] at hhigh
          simp at hhigh
          omega
      have hne : ¬ (c == sep) = true := fun heq => hc (eq_of_beq heq)
      rw [if_neg hne, splitOn_append_of_not_mem hnot, ih]
      obtain ⟨first, others, hsplit⟩ := List.exists_cons_of_ne_nil (List.splitOn_ne_nil sep text)
      rw [hsplit]
      simp

end Utf8
end DriveSync
