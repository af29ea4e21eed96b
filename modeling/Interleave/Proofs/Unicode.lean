import Mathlib
import Interleave.Text.Utf8

set_option autoImplicit false

/-! The bytes of a text decode to the text again. -/

namespace Interleave.Utf8

theorem encode_append (left right : String) :
    encode (left ++ right) = encode left ++ encode right := by
  unfold encode
  rw [String.toList_append, List.flatMap_append]

def bytes (chars : List Char) : List UInt8 := chars.flatMap String.utf8EncodeChar

theorem bytes_append (left right : List Char) :
    bytes (left ++ right) = bytes left ++ bytes right := List.flatMap_append

theorem encode_ofList (chars : List Char) : encode (String.ofList chars) = bytes chars := by
  unfold encode bytes
  rw [String.toList_ofList]

private theorem toNat_range (char : Char) :
    char.toNat < 0xd800 ∨ 0xdfff < char.toNat ∧ char.toNat < 0x110000 := char.valid

theorem toNat_byte {value : Nat} (small : value < 256) : (UInt8.ofNat value).toNat = value := by
  rw [UInt8.toNat_ofNat']
  exact Nat.mod_eq_of_lt small

section

variable {a b c d : UInt8} {char : Char}

private theorem decodeOnto_single (done : List Char) (tail : List UInt8) (single : a < 0x80) :
    decodeOnto done (a :: tail) = decodeOnto (Char.ofNat a.toNat :: done) tail := by
  rw [decodeOnto.eq_def]
  exact if_pos single

private theorem decodeOnto_pair (done : List Char) (tail : List UInt8) (longer : ¬a < 0x80)
    (found : pair? a b = some char) :
    decodeOnto done (a :: b :: tail) = decodeOnto (char :: done) tail := by
  rw [decodeOnto.eq_def]
  simp only [if_neg longer, found]

private theorem decodeOnto_triple (done : List Char) (tail : List UInt8) (longer : ¬a < 0x80)
    (noPair : pair? a b = none) (found : triple? a b c = some char) :
    decodeOnto done (a :: b :: c :: tail) = decodeOnto (char :: done) tail := by
  rw [decodeOnto.eq_def]
  simp only [if_neg longer, noPair, found]

private theorem decodeOnto_quadruple (done : List Char) (tail : List UInt8) (longer : ¬a < 0x80)
    (noPair : pair? a b = none) (noTriple : triple? a b c = none)
    (found : quadruple? a b c d = some char) :
    decodeOnto done (a :: b :: c :: d :: tail) = decodeOnto (char :: done) tail := by
  rw [decodeOnto.eq_def]
  simp only [if_neg longer, noPair, noTriple, found]

end

private theorem not_single {lead : Nat} (small : lead < 256) (large : 0x80 ≤ lead) :
    ¬UInt8.ofNat lead < 0x80 := by
  rw [UInt8.lt_iff_toNat_lt, toNat_byte small]
  exact Nat.not_lt.mpr large

private theorem pair?_bytes {point : Nat} (lower : 0x7f < point) (upper : point ≤ 0x7ff) :
    pair? (UInt8.ofNat (point / 64 % 0x20 + 0xc0)) (UInt8.ofNat (point % 0x40 + 0x80)) =
      some (Char.ofNat point) := by
  unfold pair? continues payload
  simp only [UInt8.le_iff_toNat_le]
  rw [toNat_byte (by omega), toNat_byte (by omega), if_pos]
  · congr 2
    omega
  · simp
    omega

private theorem pair?_eq_none {lead : Nat} (small : lead < 256) (large : 0xe0 ≤ lead) (b : UInt8) :
    pair? (UInt8.ofNat lead) b = none := by
  unfold pair?
  simp only [UInt8.le_iff_toNat_le, toNat_byte small]
  rw [if_neg]
  simp
  omega

private theorem triple?_bytes {point : Nat} (lower : 0x7ff < point) (upper : point ≤ 0xffff)
    (noSurrogate : point < 0xd800 ∨ 0xdfff < point) :
    triple? (UInt8.ofNat (point / 4096 % 0x10 + 0xe0)) (UInt8.ofNat (point / 64 % 0x40 + 0x80))
      (UInt8.ofNat (point % 0x40 + 0x80)) = some (Char.ofNat point) := by
  unfold triple? continues payload
  simp only [UInt8.le_iff_toNat_le, beq_iff_eq, ← UInt8.toNat_inj]
  rw [toNat_byte (by omega), toNat_byte (by omega), toNat_byte (by omega), if_pos]
  · congr 2
    omega
  · simp
    split_ifs <;> omega

private theorem triple?_eq_none {lead : Nat} (small : lead < 256) (large : 0xf0 ≤ lead)
    (b c : UInt8) :
    triple? (UInt8.ofNat lead) b c = none := by
  unfold triple?
  simp only [UInt8.le_iff_toNat_le, beq_iff_eq, ← UInt8.toNat_inj]
  rw [toNat_byte small, if_neg]
  simp
  split_ifs <;> omega

private theorem quadruple?_bytes {point : Nat} (lower : 0xffff < point) (upper : point < 0x110000) :
    quadruple? (UInt8.ofNat (point / 262144 % 0x08 + 0xf0))
      (UInt8.ofNat (point / 4096 % 0x40 + 0x80)) (UInt8.ofNat (point / 64 % 0x40 + 0x80))
      (UInt8.ofNat (point % 0x40 + 0x80)) = some (Char.ofNat point) := by
  unfold quadruple? continues payload
  simp only [UInt8.le_iff_toNat_le, beq_iff_eq, ← UInt8.toNat_inj]
  rw [toNat_byte (by omega), toNat_byte (by omega), toNat_byte (by omega),
    toNat_byte (by omega), if_pos]
  · congr 2
    omega
  · simp
    split_ifs <;> omega

/-- The bytes of a character are read back as this character, whatever comes after them. -/
theorem decodeOnto_char (char : Char) (done : List Char) (rest : List UInt8) :
    decodeOnto done (String.utf8EncodeChar char ++ rest) = decodeOnto (char :: done) rest := by
  have range := toNat_range char
  have same : char = Char.ofNat char.toNat := (Char.ofNat_toNat char).symm
  have value : char.val.toNat = char.toNat := rfl
  generalize char.toNat = point at range same value
  subst same
  unfold String.utf8EncodeChar
  rw [value]
  by_cases one : point ≤ 0x7f
  · rw [if_pos one, List.singleton_append, decodeOnto_single, toNat_byte (by omega)]
    rw [UInt8.lt_iff_toNat_lt, toNat_byte (by omega)]
    exact Nat.lt_succ_of_le one
  rw [if_neg one]
  by_cases two : point ≤ 0x7ff
  · rw [if_pos two]
    exact decodeOnto_pair _ _ (not_single (by omega) (by omega)) (pair?_bytes (by omega) two)
  rw [if_neg two]
  by_cases three : point ≤ 0xffff
  · rw [if_pos three]
    exact decodeOnto_triple _ _ (not_single (by omega) (by omega))
      (pair?_eq_none (by omega) (by omega) _) (triple?_bytes (by omega) three (by omega))
  rw [if_neg three]
  exact decodeOnto_quadruple _ _ (not_single (by omega) (by omega))
    (pair?_eq_none (by omega) (by omega) _) (triple?_eq_none (by omega) (by omega) _ _)
    (quadruple?_bytes (by omega) (by omega))

private theorem decodeOnto_encode (chars done : List Char) :
    decodeOnto done (chars.flatMap String.utf8EncodeChar) = (done.reverse ++ chars, []) := by
  induction chars generalizing done with
  | nil => simp [decodeOnto]
  | cons char chars ih =>
      rw [List.flatMap_cons, decodeOnto_char, ih, List.reverse_cons, List.append_assoc,
        List.singleton_append]

theorem decode_encode (text : String) : decode (encode text) = (text, []) := by
  unfold decode encode
  rw [decodeOnto_encode]
  simp

/-! ### ASCII -/

theorem utf8EncodeChar_ascii {char : Char} (ascii : char.toNat < 0x80) :
    String.utf8EncodeChar char = [UInt8.ofNat char.toNat] := by
  unfold String.utf8EncodeChar
  exact if_pos (Nat.le_of_lt_succ ascii)

theorem bytes_singleton (char : Char) : bytes [char] = String.utf8EncodeChar char :=
  List.flatMap_singleton ..

theorem bytes_cons_ascii {char : Char} (ascii : char.toNat < 0x80) (chars : List Char) :
    bytes (char :: chars) = UInt8.ofNat char.toNat :: bytes chars := by
  unfold bytes
  rw [List.flatMap_cons, utf8EncodeChar_ascii ascii, List.singleton_append]

theorem utf8EncodeChar_large {char : Char} (large : 0x80 ≤ char.toNat) {byte : UInt8}
    (member : byte ∈ String.utf8EncodeChar char) : 0x80 ≤ byte.toNat := by
  have range := toNat_range char
  have value : char.val.toNat = char.toNat := rfl
  unfold String.utf8EncodeChar at member
  rw [value] at member
  generalize char.toNat = point at large range member
  rw [if_neg (by omega)] at member
  split at member
  · simp only [List.mem_cons, List.not_mem_nil, or_false] at member
    rcases member with rfl | rfl <;> rw [toNat_byte (by omega)] <;> omega
  · split at member
    · simp only [List.mem_cons, List.not_mem_nil, or_false] at member
      rcases member with rfl | rfl | rfl <;> rw [toNat_byte (by omega)] <;> omega
    · simp only [List.mem_cons, List.not_mem_nil, or_false] at member
      rcases member with rfl | rfl | rfl | rfl <;> rw [toNat_byte (by omega)] <;> omega

end Interleave.Utf8
