import Mathlib.Algebra.Order.Field.Rat
import Mathlib.Data.List.GetD
import Sketchbook.Arduino.Text
import Sketchbook.Foundation.BitWord

/-!
# Reading a received bit string: bintodec and crc

The receivers write a frame as a string of the characters `1` and `0` and read it back with two
functions that several sketches copy. `bintodec` turns eight characters into tenths of a degree, by
adding a power of two for each character `1`; every other character adds nothing. `crc` compares the
exclusive or of characters 30 down to 0 with character 31.

`pow` and the floating point sum are exact on these arguments, so temperatures are rationals.
`bintodec_eq_value` and `crc_eq_true_iff` say what the two loops compute on the text of a bit word.
-/

set_option autoImplicit false
set_option relaxedAutoImplicit false

namespace Sketchbook.Sensor.BinaryReading

open Arduino.Text Foundation.BitWord

/-- The temperature in degrees that eight characters spell. -/
def bintodec (input : List Char) : ℚ :=
  (List.range 8).foldl
    (fun value i ↦ if charAt input i = '1' then value + 2 ^ (7 - i) else value) 0 / 10

/-- The even-parity check over the 32 characters of a frame. -/
def crc (input : List Char) : Bool :=
  let checksumcalc := (List.range 31).foldl
    (fun checksum step ↦ if charAt input (30 - step) = '1' then checksum ^^^ 1
      else checksum ^^^ 0) 0
  let y : ℤ := ((charAt input 31).toNat : ℤ) - ('0'.toNat : ℤ)
  decide (y = (checksumcalc : ℕ))

/-! ### The text of a bit word -/

/-- The character a receiver writes for a bit. -/
def bitChar (bit : Bool) : Char := if bit then '1' else '0'

/-- The text of a bit word. -/
def bitText (word : List Bool) : List Char := word.map bitChar

@[simp] theorem bitChar_eq_one_iff (bit : Bool) : bitChar bit = '1' ↔ bit = true := by
  cases bit <;> decide

theorem bitChar_injective : Function.Injective bitChar := by
  intro first second
  cases first <;> cases second <;> decide

theorem bitChar_ne_nul (bit : Bool) : bitChar bit ≠ nul := by
  cases bit <;> decide

@[simp] theorem length_bitText (word : List Bool) : (bitText word).length = word.length := by
  simp [bitText]

theorem nul_notMem_bitText (word : List Bool) : nul ∉ bitText word := by
  intro h
  obtain ⟨bit, -, hbit⟩ := List.mem_map.mp h
  exact bitChar_ne_nul bit hbit

theorem bitText_injective : Function.Injective bitText :=
  List.map_injective_iff.mpr bitChar_injective

/-- The fold of `bintodec` over eight characters is the value of the flags `character = '1'`. -/
theorem bintodec_eq_value (input : List Char) (h : input.length = 8) :
    bintodec input = (value (input.map (· = '1')) : ℚ) / 10 := by
  obtain ⟨a, b, c, d, e, f, g, i, rfl⟩ : ∃ a b c d e f g i, input = [a, b, c, d, e, f, g, i] := by
    match input, h with
    | [a, b, c, d, e, f, g, i], _ => exact ⟨a, b, c, d, e, f, g, i, rfl⟩
  have hbit (character : Char) :
      ((decide (character = '1')).toNat : ℚ) = if character = '1' then 1 else 0 := by
    by_cases hone : character = '1' <;> simp [hone]
  have hstep (total power : ℚ) (p : Prop) [Decidable p] :
      (if p then total + power else total) = total + power * if p then 1 else 0 := by
    split_ifs <;> ring
  unfold bintodec value
  simp only [List.range_succ_eq_map, List.range_zero, List.map_cons, List.map_nil, List.foldl_cons,
    List.foldl_nil, charAt, List.getD_cons_zero, List.getD_cons_succ, Nat.succ_eq_add_one, hstep]
  push_cast
  simp only [hbit]
  ring

/-- The temperature that the text of an eight-bit word spells. -/
theorem bintodec_bitText (word : List Bool) (h : word.length = 8) :
    bintodec (bitText word) = (value word : ℚ) / 10 := by
  rw [bintodec_eq_value _ (by simpa using h)]
  congr 3
  simp [bitText, List.map_map, Function.comp_def]

/-! ### The parity check -/

/-- The checksum loop runs over a bit word from its last bit down to its first. -/
theorem foldl_checksum (word : List Bool) (checksum : Bool) :
    word.foldl (fun (total : ℕ) bit ↦ if bit then total ^^^ 1 else total ^^^ 0) checksum.toNat =
      (checksum ^^ parity word).toNat := by
  induction word generalizing checksum with
  | nil => simp
  | cons bit word ih =>
    have hstep : (if bit then checksum.toNat ^^^ 1 else checksum.toNat ^^^ 0) =
        (checksum ^^ bit).toNat := by
      cases bit <;> cases checksum <;> rfl
    rw [List.foldl_cons, hstep, ih, parity_cons, Bool.xor_assoc]

/-- On a text that starts with the 32 characters of a bit word, `crc` accepts exactly the words of
even parity. -/
theorem crc_eq_true_iff (word : List Bool) (h : word.length = 32) (rest : List Char) :
    crc (bitText word ++ rest) = true ↔ parity word = false := by
  have hchar (index : ℕ) (hindex : index < 32) :
      charAt (bitText word ++ rest) index = bitChar (word[index]) := by
    unfold charAt
    rw [List.getD_append _ _ _ _ (by simpa [h] using hindex),
      List.getD_eq_getElem _ _ (by simpa [h] using hindex)]
    simp [bitText]
  have hfold : (List.range 31).foldl
      (fun checksum step ↦ if charAt (bitText word ++ rest) (30 - step) = '1' then checksum ^^^ 1
        else checksum ^^^ 0) 0 = (parity (word.take 31)).toNat := by
    have hreverse : (word.take 31).reverse = (List.range 31).map fun step ↦
        word.getD (30 - step) false := by
      apply List.ext_getElem
      · simp [h]
      · intro index hleft hright
        have hindex : index < 31 := by simpa using hright
        simp only [List.getElem_reverse, List.getElem_take, List.getElem_map, List.getElem_range,
          List.length_take, h]
        rw [List.getD_eq_getElem _ _ (by omega)]
        congr 1
    have hsum := foldl_checksum (word.take 31).reverse false
    rw [parity_reverse, Bool.false_xor] at hsum
    rw [← hsum, hreverse, List.foldl_map]
    apply List.foldl_ext
    intro checksum step hstep
    have hlt : step < 31 := List.mem_range.mp hstep
    rw [hchar _ (by omega), List.getD_eq_getElem _ _ (by omega)]
    simp only [bitChar_eq_one_iff]
  have hsplit : parity word = (parity (word.take 31) ^^ word[31]) := by
    have hword : word = word.take 31 ++ [word[31]] := by
      rw [List.take_append_getElem (by omega), List.take_of_length_le (by omega)]
    conv_lhs => rw [hword]
    rw [parity_append]
    simp
  unfold crc
  simp only [hfold, hchar 31 (by omega), hsplit]
  cases word[31] <;> cases parity (word.take 31) <;> decide

end Sketchbook.Sensor.BinaryReading
