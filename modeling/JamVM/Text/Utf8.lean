import Mathlib.Tactic.IntervalCases

/-! # Modified UTF-8

The conversions between 16-bit code units and NUL-terminated modified UTF-8. An `int` is a
32-bit vector, and a `char` is signed or unsigned, as the compiler has it. Memory is the list
of bytes from a pointer on; reading past its end gives `none`.
-/

namespace JamVM.Text

open Nat hiding bit
open List
open BitVec (and_twoPow eq_of_toNat_eq lt_def ofNat ofNat_add toNat toNat_add toNat_setWidth
  toNat_shiftLeft twoPow)

def promote (signed : Bool) (char : BitVec 8) : BitVec 32 :=
  if signed then char.signExtend 32 else char.setWidth 32

def getUtf8Char (signed : Bool) : List (BitVec 8) → Option (BitVec 32 × List (BitVec 8))
  | [] => none
  | first :: rest =>
    let x := promote signed first
    if x &&& 0x80 ≠ 0 then
      match rest with
      | [] => none
      | second :: rest =>
        let y := promote signed second
        if x &&& 0x20 ≠ 0 then
          match rest with
          | [] => none
          | third :: rest =>
            let z := promote signed third
            some (((x &&& 0xf) <<< 12) + ((y &&& 0x3f) <<< 6) + (z &&& 0x3f), rest)
        else
          some (((x &&& 0x1f) <<< 6) + (y &&& 0x3f), rest)
    else
      some (x, rest)

theorem getUtf8Char_lt
    (read : getUtf8Char signed memory = some (value, rest)) : rest.length < memory.length := by
  unfold getUtf8Char at read
  split at read
  · cases read
  · dsimp only at read
    split_ifs at read <;> (try split at read) <;> (try split at read) <;> grind

def utf8Len (signed : Bool) : List (BitVec 8) → Option (BitVec 32)
  | [] => none
  | first :: rest =>
    if first = 0 then
      some 0
    else
      let x := promote signed first
      let length := if x &&& 0x80 ≠ 0 then (if x &&& 0x20 ≠ 0 then 3 else 2) else 1
      (utf8Len signed (rest.drop (length - 1))).map (· + 1)
termination_by memory => memory.length
decreasing_by
  simp only [length_drop, length_cons]
  omega

def convertUtf8 (signed : Bool) : List (BitVec 8) → Option (List (BitVec 16))
  | [] => none
  | first :: rest =>
    if first = 0 then
      some []
    else
      match read : getUtf8Char signed (first :: rest) with
      | none => none
      | some (value, post) =>
        have := getUtf8Char_lt read
        (convertUtf8 signed post).map (value.setWidth 16 :: ·)
termination_by memory => memory.length
decreasing_by assumption

def charLen (c : BitVec 16) : Nat := if c = 0 ∨ c > 0x7f then (if c > 0x7ff then 3 else 2) else 1

def utf8CharLen : List (BitVec 16) → BitVec 32
  | [] => 0
  | c :: unicode => BitVec.ofNat 32 (charLen c) + utf8CharLen unicode

def encode (c : BitVec 16) : List (BitVec 8) :=
  let int := c.setWidth 32
  if c = 0 ∨ c > 0x7f then
    (if c > 0x7ff then
      [(int >>> 12 ||| 0xe0).setWidth 8, (((int >>> 6) &&& 0x3f) ||| 0x80).setWidth 8]
    else
      [(int >>> 6 ||| 0xc0).setWidth 8]) ++
      [((int &&& 0x3f) ||| 0x80).setWidth 8]
  else
    [int.setWidth 8]

def unicode2Utf8 : List (BitVec 16) → List (BitVec 8)
  | [] => [0]
  | c :: unicode => encode c ++ unicode2Utf8 unicode

/-! ## Bytes -/

section
variable {signed : Bool} {char : BitVec 8} {int : BitVec 32}

theorem promote_and (mask : BitVec 8) :
    promote signed char &&& mask.setWidth 32 = (char &&& mask).setWidth 32 := by
  cases signed <;> ext i inside <;>
    simp only [promote, Bool.false_eq_true, if_true, if_false, BitVec.getElem_and,
      BitVec.getElem_signExtend, BitVec.getElem_setWidth, BitVec.getLsbD_and]
  all_goals grind

theorem promote_bit (bit : Nat) (nonzero : (twoPow 8 bit).setWidth 32 ≠ 0) :
    promote signed char &&& (twoPow 8 bit).setWidth 32 ≠ 0 ↔ char.getLsbD bit = true := by
  rw [promote_and, and_twoPow]
  split_ifs with isSet
  · exact iff_of_true nonzero isSet
  · exact iff_of_false (not_not.mpr rfl) isSet

theorem promote_bit7 : promote signed char &&& 0x80 ≠ 0 ↔ char.getLsbD 7 = true :=
  promote_bit 7 (by decide)

theorem promote_bit5 : promote signed char &&& 0x20 ≠ 0 ↔ char.getLsbD 5 = true :=
  promote_bit 5 (by decide)

theorem ne_zero_of_bit7 (high : char.getLsbD 7 = true) : char ≠ 0 := by
  rintro rfl
  cases high

theorem leading3_and (int : BitVec 32) :
    (int ||| 0xe0).setWidth 8 &&& 0xf#8 = (int &&& 0xf).setWidth 8 := by
  ext i inside
  interval_cases i <;> simp

theorem leading2_and (int : BitVec 32) :
    (int ||| 0xc0).setWidth 8 &&& 0x1f#8 = (int &&& 0x1f).setWidth 8 := by
  ext i inside
  interval_cases i <;> simp

theorem trailing_and (int : BitVec 32) :
    ((int &&& 0x3f) ||| 0x80).setWidth 8 &&& 0x3f#8 = (int &&& 0x3f).setWidth 8 := by
  ext i inside
  interval_cases i <;> simp

theorem toNat_part (c : BitVec 16) (shift bits : Nat) (small : bits ≤ 8)
    (isMask : mask.toNat = 2 ^ bits - 1) :
    ((((c.setWidth 32 >>> shift) &&& mask).setWidth 8).setWidth 32).toNat =
      c.toNat / 2 ^ shift % 2 ^ bits := by
  have size : 2 ^ bits ≤ 2 ^ 8 := Nat.pow_le_pow_right (by decide) small
  have wide : c.toNat % 2 ^ 32 = c.toNat := mod_eq_of_lt (by have := c.isLt; omega)
  rw [toNat_setWidth, toNat_setWidth, BitVec.toNat_and, isMask,
    and_two_pow_sub_one_eq_mod, BitVec.toNat_ushiftRight, toNat_setWidth, wide,
    shiftRight_eq_div_pow]
  omega

theorem join3 (c : BitVec 16) :
    (((c.setWidth 32 >>> 12) &&& 0xf#32).setWidth 8).setWidth 32 <<< 12 +
      (((c.setWidth 32 >>> 6) &&& 0x3f#32).setWidth 8).setWidth 32 <<< 6 +
      (((c.setWidth 32 >>> 0) &&& 0x3f#32).setWidth 8).setWidth 32 = c.setWidth 32 := by
  have first := toNat_part c 12 4 (by decide) (show (0xf#32).toNat = _ from rfl)
  have second := toNat_part c 6 6 (by decide) (show (0x3f#32).toNat = _ from rfl)
  have third := toNat_part c 0 6 (by decide) (show (0x3f#32).toNat = _ from rfl)
  apply eq_of_toNat_eq
  rw [toNat_add, toNat_add, toNat_shiftLeft, toNat_shiftLeft,
    shiftLeft_eq, shiftLeft_eq, first, second, third, toNat_setWidth]
  omega

theorem join2 (c : BitVec 16) (short : ¬ c > 0x7ff) :
    (((c.setWidth 32 >>> 6) &&& 0x1f#32).setWidth 8).setWidth 32 <<< 6 +
      (((c.setWidth 32 >>> 0) &&& 0x3f#32).setWidth 8).setWidth 32 = c.setWidth 32 := by
  have bound : c.toNat ≤ 0x7ff := by exact Nat.le_of_not_lt short
  have first := toNat_part c 6 5 (by decide) (show (0x1f#32).toNat = _ from rfl)
  have second := toNat_part c 0 6 (by decide) (show (0x3f#32).toNat = _ from rfl)
  apply eq_of_toNat_eq
  rw [toNat_add, toNat_shiftLeft, shiftLeft_eq, first, second, toNat_setWidth]
  omega

theorem getLsbD_small {c : BitVec 16} (small : ¬ c > limit)
    (bound : limit.toNat < 2 ^ bit) : c.getLsbD bit = false := by
  rw [gt_iff_lt, lt_def] at small
  exact testBit_lt_two_pow (by omega)

theorem promote_small (positive : char.getLsbD 7 = false) :
    promote signed char = char.setWidth 32 := by
  cases signed with
  | false => rfl
  | true =>
    have isPositive : char.msb = false := by rw [BitVec.msb_eq_getLsbD_last, positive]
    exact BitVec.signExtend_eq_setWidth_of_msb_false isPositive

end

/-! ## Code units -/

section
variable (signed : Bool) {first : BitVec 8} (second third : BitVec 8) (rest : List (BitVec 8))

theorem getUtf8Char_one (single : first.getLsbD 7 = false) :
    getUtf8Char signed (first :: rest) = some (first.setWidth 32, rest) := by
  rw [getUtf8Char.eq_def]
  dsimp only
  rw [if_neg (promote_bit7.not.mpr (Bool.eq_false_iff.mp single)), promote_small single]

theorem getUtf8Char_two (long : first.getLsbD 7 = true) (short : first.getLsbD 5 = false) :
    getUtf8Char signed (first :: second :: rest) =
      some ((first &&& 0x1f#8).setWidth 32 <<< 6 + (second &&& 0x3f#8).setWidth 32, rest) := by
  rw [getUtf8Char, if_pos (promote_bit7.mpr long)]
  rw [if_neg (promote_bit5.not.mpr (Bool.eq_false_iff.mp short)), ← promote_and, ← promote_and]
  rfl

theorem getUtf8Char_three (long : first.getLsbD 7 = true) (longer : first.getLsbD 5 = true) :
    getUtf8Char signed (first :: second :: third :: rest) =
      some ((first &&& 0xf#8).setWidth 32 <<< 12 + (second &&& 0x3f#8).setWidth 32 <<< 6 +
        (third &&& 0x3f#8).setWidth 32, rest) := by
  rw [getUtf8Char, if_pos (promote_bit7.mpr long)]
  rw [if_pos (promote_bit5.mpr longer), ← promote_and, ← promote_and, ← promote_and]
  rfl

theorem utf8Len_one (nonzero : first ≠ 0) (single : first.getLsbD 7 = false) :
    utf8Len signed (first :: rest) = (utf8Len signed rest).map (· + 1) := by
  rw [utf8Len, if_neg nonzero]
  dsimp only
  rw [if_neg (promote_bit7.not.mpr (Bool.eq_false_iff.mp single))]
  rfl

theorem utf8Len_two (long : first.getLsbD 7 = true) (short : first.getLsbD 5 = false) :
    utf8Len signed (first :: second :: rest) = (utf8Len signed rest).map (· + 1) := by
  rw [utf8Len, if_neg (ne_zero_of_bit7 long)]
  dsimp only
  rw [if_pos (promote_bit7.mpr long), if_neg (promote_bit5.not.mpr (Bool.eq_false_iff.mp short))]
  rfl

theorem utf8Len_three (long : first.getLsbD 7 = true) (longer : first.getLsbD 5 = true) :
    utf8Len signed (first :: second :: third :: rest) = (utf8Len signed rest).map (· + 1) := by
  rw [utf8Len, if_neg (ne_zero_of_bit7 long)]
  dsimp only
  rw [if_pos (promote_bit7.mpr long), if_pos (promote_bit5.mpr longer)]
  rfl

end

inductive Encoded (c : BitVec 16) : List (BitVec 8) → Prop
  | one {first : BitVec 8} : charLen c = 1 → first ≠ 0 → first.getLsbD 7 = false →
      first.setWidth 32 = c.setWidth 32 → Encoded c [first]
  | two {first second : BitVec 8} : charLen c = 2 → first.getLsbD 7 = true →
      first.getLsbD 5 = false → second.getLsbD 7 = true →
      (first &&& 0x1f#8).setWidth 32 <<< 6 + (second &&& 0x3f#8).setWidth 32 = c.setWidth 32 →
      Encoded c [first, second]
  | three {first second third : BitVec 8} : charLen c = 3 → first.getLsbD 7 = true →
      first.getLsbD 5 = true → second.getLsbD 7 = true → third.getLsbD 7 = true →
      (first &&& 0xf#8).setWidth 32 <<< 12 + (second &&& 0x3f#8).setWidth 32 <<< 6 +
        (third &&& 0x3f#8).setWidth 32 = c.setWidth 32 →
      Encoded c [first, second, third]

theorem encode_encoded (c : BitVec 16) : Encoded c (encode c) := by
  unfold encode
  split_ifs with long three
  · refine .three (by rw [charLen, if_pos long, if_pos three]) (by simp) (by simp) (by simp)
      (by simp) ?_
    have leading := leading3_and (c.setWidth 32 >>> 12)
    have middle := trailing_and (c.setWidth 32 >>> 6)
    have trailing := trailing_and (c.setWidth 32)
    rw [leading, middle, trailing]
    exact join3 c
  · refine .two (by rw [charLen, if_pos long, if_neg three]) (by simp) ?_ (by simp) ?_
    · have high := getLsbD_small three (show (0x7ff#16).toNat < 2 ^ 11 by decide)
      simpa using high
    · have leading := leading2_and (c.setWidth 32 >>> 6)
      have trailing := trailing_and (c.setWidth 32)
      rw [leading, trailing]
      exact join2 c three
  · obtain ⟨nonzero, small⟩ := not_or.mp long
    have bound : c.toNat ≤ 0x7f := by exact Nat.le_of_not_lt small
    have isSmall := getLsbD_small small (show (0x7f#16).toNat < 2 ^ 7 by decide)
    refine .one (by rw [charLen, if_neg long]) ?_ (by simpa using isSmall) ?_
    · intro isZero
      apply nonzero
      have isNat := congrArg toNat isZero
      apply eq_of_toNat_eq
      simp only [BitVec.ofNat_eq_ofNat, toNat_setWidth, BitVec.toNat_ofNat] at isNat ⊢
      omega
    · apply eq_of_toNat_eq
      simp only [toNat_setWidth]
      omega

theorem convertUtf8_cons (nonzero : first ≠ 0)
    (read : getUtf8Char signed (first :: rest) = some (value, post)) :
    convertUtf8 signed (first :: rest) =
      (convertUtf8 signed post).map (value.setWidth 16 :: ·) := by
  rw [convertUtf8, if_neg nonzero]
  split
  · rename_i unread
    cases read.symm.trans unread
  · rename_i value post found
    cases read.symm.trans found
    rfl

namespace Encoded

variable {c : BitVec 16} {bytes : List (BitVec 8)} (encoded : Encoded c bytes) (signed : Bool)
  (rest : List (BitVec 8))
include encoded

theorem getUtf8Char_append : getUtf8Char signed (bytes ++ rest) = some (c.setWidth 32, rest) := by
  cases encoded with
  | one _ _ single value => exact value ▸ getUtf8Char_one signed rest single
  | two _ long short _ value => exact value ▸ getUtf8Char_two signed _ rest long short
  | three _ long longer _ _ value => exact value ▸ getUtf8Char_three signed _ _ rest long longer

theorem utf8Len_append : utf8Len signed (bytes ++ rest) = (utf8Len signed rest).map (· + 1) := by
  cases encoded with
  | one _ nonzero single => exact utf8Len_one signed rest nonzero single
  | two _ long short => exact utf8Len_two signed _ rest long short
  | three _ long longer => exact utf8Len_three signed _ _ rest long longer

omit signed rest in
theorem zero_notMem : 0 ∉ bytes := by
  have nonzero {byte : BitVec 8} (high : byte.getLsbD 7 = true) := (ne_zero_of_bit7 high).symm
  cases encoded with
  | one _ other => exact not_mem_cons_of_ne_of_not_mem other.symm not_mem_nil
  | two _ first _ second =>
    exact not_mem_cons_of_ne_of_not_mem (nonzero first)
      (not_mem_cons_of_ne_of_not_mem (nonzero second) not_mem_nil)
  | three _ first _ second third =>
    exact not_mem_cons_of_ne_of_not_mem (nonzero first)
      (not_mem_cons_of_ne_of_not_mem (nonzero second)
        (not_mem_cons_of_ne_of_not_mem (nonzero third) not_mem_nil))

omit signed rest in
theorem length_eq : bytes.length = charLen c := by
  cases encoded with
  | one isLength | two isLength | three isLength => exact isLength.symm

theorem convertUtf8_append :
    convertUtf8 signed (bytes ++ rest) = (convertUtf8 signed rest).map (c :: ·) := by
  have read := encoded.getUtf8Char_append signed rest
  have noZero := encoded.zero_notMem
  have same : (c.setWidth 32).setWidth 16 = c := by simp
  cases bytes with
  | nil => cases encoded
  | cons first =>
    have nonzero : first ≠ 0 := fun isZero => noZero (isZero ▸ mem_cons_self)
    rw [cons_append] at read ⊢
    rw [convertUtf8_cons nonzero read, same]

end Encoded

/-! ## Sequences -/

/-- Encoding and decoding are inverse, and the two counts are those of bytes and of code
units, as far as an `int` can hold them. Memory goes on after the terminating NUL. -/
theorem utf8_round_trip (signed : Bool) (unicode : List (BitVec 16)) (memory : List (BitVec 8)) :
    ∃ bytes, unicode2Utf8 unicode = bytes ++ [0] ∧ 0 ∉ bytes ∧
      utf8CharLen unicode = ofNat 32 bytes.length ∧
      utf8Len signed (unicode2Utf8 unicode ++ memory) = some (ofNat 32 unicode.length) ∧
      convertUtf8 signed (unicode2Utf8 unicode ++ memory) = some unicode := by
  induction unicode with
  | nil => exact ⟨[], rfl, not_mem_nil, rfl, by simp [unicode2Utf8, utf8Len],
      by simp [unicode2Utf8, convertUtf8]⟩
  | cons c unicode ih =>
    obtain ⟨bytes, written, noZero, count, length, converted⟩ := ih
    have encoded := encode_encoded c
    refine ⟨encode c ++ bytes, ?_, ?_, ?_, ?_, ?_⟩
    · rw [unicode2Utf8, written, append_assoc]
    · rw [mem_append]
      exact not_or.mpr ⟨encoded.zero_notMem, noZero⟩
    · rw [utf8CharLen, count, length_append, encoded.length_eq, ofNat_add]
    · rw [unicode2Utf8, append_assoc, encoded.utf8Len_append, length, Option.map_some,
        length_cons, ofNat_add]
      rfl
    · rw [unicode2Utf8, append_assoc, encoded.convertUtf8_append, converted, Option.map_some]

end JamVM.Text
