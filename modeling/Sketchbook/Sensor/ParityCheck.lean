import Mathlib.Data.List.OfFn
import Mathlib.Data.Nat.Bitwise
import Sketchbook.Sensor.BinaryReading

/-!
# The two parity checks of CRC.ino

CRC.ino computes the parity of a 32-bit word twice: `loop` shifts an `unsigned long` and folds its
bits 1 to 31 into a `byte`, and `crc` folds characters 30 down to 0 of the word's binary text. Both
compare the result with the bit they left out, bit 0 of the word and character 31 of the text.
sketch_feb03a has the same `crc`.

`checks_agree` says that both checks accept exactly the words with an even number of ones, and that
inverting an odd number of characters reverses the verdict.
-/

set_option autoImplicit false
set_option relaxedAutoImplicit false

namespace Sketchbook.Sensor.ParityCheck

open Arduino.Text Foundation.BitWord

namespace CRC

/-- `crc` of CRC.ino. -/
def crc (input : List Char) : Bool := BinaryReading.crc input

/-- A turn of the loop over the bits of `bitstream1`. -/
def checksumStep (bitstream1 : BitVec 32) (checksumcalc : BitVec 8) (i : ℕ) : BitVec 8 :=
  (checksumcalc.setWidth 32 ^^^ ((bitstream1 >>> i) &&& 1#32)).setWidth 8

/-- The value of `checksumcalc` behind `for (int i = 1; i < 32; i++)`. -/
def checksumcalc (bitstream1 : BitVec 32) : BitVec 8 :=
  (List.range' 1 31).foldl (checksumStep bitstream1) 0

end CRC

namespace SketchFeb03a

/-- `crc` of sketch_feb03a, which its scan calls. -/
def crc (input : List Char) : Bool := BinaryReading.crc input

end SketchFeb03a

/-! ### The text of a word -/

/-- The bits of a word, most significant first. -/
def bits (word : BitVec 32) : List Bool := List.ofFn fun i : Fin 32 ↦ word.getMsbD i

/-- The binary text of a word, most significant bit first. -/
def binaryString (word : BitVec 32) : List Char := BinaryReading.bitText (bits word)

/-- The other binary digit. -/
def flipChar (character : Char) : Char := if character = '1' then '0' else '1'

/-- A text with the characters at some positions inverted. -/
def flippedText (positions : Finset ℕ) (text : List Char) : List Char :=
  text.mapIdx fun index character ↦ if index ∈ positions then flipChar character else character

@[simp] theorem length_bits (word : BitVec 32) : (bits word).length = 32 := List.length_ofFn

/-- Inverting characters of the text of a word inverts its bits. -/
theorem flippedText_bitText (positions : Finset ℕ) (word : List Bool) :
    flippedText positions (BinaryReading.bitText word) =
      BinaryReading.bitText (flipped positions word) := by
  apply List.ext_getElem
  · simp [flippedText]
  · intro index hleft hright
    have hindex : index < word.length := by simpa using hright
    simp only [flippedText, flipped, BinaryReading.bitText, List.getElem_mapIdx, List.getElem_map]
    by_cases hmem : index ∈ positions <;> cases word[index] <;>
      simp [hmem, flipChar, BinaryReading.bitChar]

/-! ### The two folds -/

/-- `crc` accepts the text of a word exactly when its parity is even. -/
theorem crc_bitText_iff (word : List Bool) (h : word.length = 32) :
    BinaryReading.crc (BinaryReading.bitText word) = true ↔ parity word = false := by
  have hwhole := BinaryReading.crc_eq_true_iff word h []
  rwa [List.append_nil] at hwhole

/-- The shift loop keeps the parity of the bits it has seen in the lowest bit of the byte. -/
theorem foldl_checksumStep (bitstream1 : BitVec 32) (indices : List ℕ) (checksum : Bool) :
    indices.foldl (CRC.checksumStep bitstream1) ((BitVec.ofBool checksum).setWidth 8) =
      (BitVec.ofBool (checksum ^^ parity (indices.map bitstream1.getLsbD))).setWidth 8 := by
  induction indices generalizing checksum with
  | nil => simp
  | cons i indices ih =>
    have hstep : CRC.checksumStep bitstream1 ((BitVec.ofBool checksum).setWidth 8) i =
        (BitVec.ofBool (checksum ^^ bitstream1.getLsbD i)).setWidth 8 := by
      rw [CRC.checksumStep, BitVec.and_one_eq_setWidth_ofBool_getLsbD, BitVec.getLsbD_ushiftRight,
        Nat.add_zero]
      cases checksum <;> cases bitstream1.getLsbD i <;> rfl
    rw [List.foldl_cons, hstep, ih, List.map_cons, parity_cons, Bool.xor_assoc]

/-- The bits of a word are those of the shift loop in reverse order, and bit 0. -/
theorem bits_eq (word : BitVec 32) :
    bits word = ((List.range' 1 31).map word.getLsbD).reverse ++ [word.getLsbD 0] := by
  apply List.ext_getElem
  · simp
  · intro index hleft hright
    have hindex : index < 32 := by simpa using hleft
    rw [List.getElem_append]
    simp only [bits, List.getElem_ofFn, BitVec.getMsbD_eq_getLsbD, hindex, decide_true,
      Bool.true_and, List.length_reverse, List.length_map, List.length_range', List.getElem_reverse,
      List.getElem_map, List.getElem_range', List.getElem_singleton]
    split_ifs with hlt
    · congr 1
      omega
    · congr 1
      omega

theorem checksumcalc_eq_iff (word : BitVec 32) :
    (CRC.checksumcalc word).setWidth 32 = word &&& 1#32 ↔ parity (bits word) = false := by
  have hfold := foldl_checksumStep word (List.range' 1 31) false
  have hcalc : CRC.checksumcalc word =
      (BitVec.ofBool (parity ((List.range' 1 31).map word.getLsbD))).setWidth 8 := by
    rwa [Bool.false_xor] at hfold
  rw [hcalc, bits_eq, parity_append, parity_reverse, BitVec.and_one_eq_setWidth_ofBool_getLsbD]
  cases parity ((List.range' 1 31).map word.getLsbD) <;> cases word.getLsbD 0 <;> decide

/-- Both checks of CRC.ino accept the words with an even number of ones, the copy of `crc` in
sketch_feb03a accepts the same texts, and inverting an odd number of characters of the text of a
word reverses the verdict. -/
theorem checks_agree (word : BitVec 32) :
    (CRC.crc (binaryString word) = true ↔
        (CRC.checksumcalc word).setWidth 32 = word &&& 1#32) ∧
      (CRC.crc (binaryString word) = true ↔ Even ((bits word).count true)) ∧
      (SketchFeb03a.crc (binaryString word) = true ↔ Even ((bits word).count true)) ∧
      ∀ positions ⊆ Finset.range 32, Odd positions.card →
        CRC.crc (flippedText positions (binaryString word)) = !CRC.crc (binaryString word) ∧
          SketchFeb03a.crc (flippedText positions (binaryString word)) =
            !SketchFeb03a.crc (binaryString word) := by
  have haccepts := crc_bitText_iff (bits word) (length_bits word)
  have hflip (positions : Finset ℕ) (hsub : positions ⊆ Finset.range 32)
      (hodd : Odd positions.card) :
      BinaryReading.crc (flippedText positions (binaryString word)) =
        !BinaryReading.crc (binaryString word) := by
    have hparity : parity (flipped positions (bits word)) = !parity (bits word) := by
      rw [parity_flipped, length_bits, Finset.inter_eq_left.mpr hsub]
      simp [hodd]
    rw [Bool.eq_not, Ne, Bool.eq_iff_iff, binaryString, flippedText_bitText,
      crc_bitText_iff _ (by simp), haccepts, hparity]
    cases parity (bits word) <;> decide
  refine ⟨haccepts.trans (checksumcalc_eq_iff word).symm,
    haccepts.trans (parity_eq_false_iff (bits word)),
    haccepts.trans (parity_eq_false_iff (bits word)), fun positions hsub hodd ↦ ?_⟩
  exact ⟨hflip positions hsub hodd, hflip positions hsub hodd⟩

/-- The verdict on the word of the sketch with its first and its last two characters inverted. -/
theorem checks_agree_sketchWord :
    CRC.crc (flippedText {0, 30, 31} (binaryString 2491444487)) =
      !CRC.crc (binaryString 2491444487) :=
  ((checks_agree 2491444487).2.2.2 {0, 30, 31} (by decide) (by decide)).1

example : binaryString 2491444487 = "10010100100000000110110100000111".toList := by decide

end Sketchbook.Sensor.ParityCheck
