import Sketchbook.Foundation.ShiftRegister
import Sketchbook.OneWire.RomSearch

/-!
# The check sums of the OneWire library

OneWire.cpp has two versions of `crc8`: one with a table of 256 bytes, and a slower and smaller one
that goes bit by bit. Both compute the residue of a shift register (`crc8_eq_residue`), so they
agree on every input. The last byte of a ROM code and of a scratchpad is the check sum of the bytes
before it. Two words that pass this check and are no longer than 127 bits differ in at least four
bits, so up to three flipped bits are always noticed.

`crc16` has no table. It handles a byte at once with a parity table of 16 entries and a few shifts,
and that is eight steps of a register as well (`crc16_eq_foldl_feed`).
-/

set_option autoImplicit false
set_option relaxedAutoImplicit false

namespace Sketchbook.OneWire.CheckSum

open Foundation.ShiftRegister

/-- The bits of bytes in the order in which the wire carries them. -/
def bitsOf (bytes : List (BitVec 8)) : List Bool := bytes.flatMap bitsOfByte

@[simp] theorem length_bitsOf (bytes : List (BitVec 8)) :
    (bitsOf bytes).length = 8 * bytes.length := by
  induction bytes with
  | nil => rfl
  | cons byte rest ih =>
    rw [bitsOf, List.flatMap_cons, List.length_append, List.length_cons]
    rw [bitsOf] at ih
    rw [ih, bitsOfByte, List.length_map, List.length_range]
    omega

theorem bitsOfByte_injective : Function.Injective bitsOfByte := by
  intro first second h
  refine BitVec.eq_of_getLsbD_eq fun place hplace ↦ ?_
  have hentry := congrArg (·[place]?) h
  simpa [bitsOfByte, hplace] using hentry

theorem bitsOf_injective : Function.Injective bitsOf := by
  intro first
  induction first with
  | nil =>
    intro second h
    have hlength := congrArg List.length h
    rw [length_bitsOf, length_bitsOf, List.length_nil] at hlength
    exact (List.length_eq_zero_iff.mp (by omega)).symm
  | cons byte rest ih =>
    intro second h
    cases second with
    | nil =>
      have hlength := congrArg List.length h
      rw [length_bitsOf, length_bitsOf, List.length_nil, List.length_cons] at hlength
      omega
    | cons other otherRest =>
      rw [bitsOf, bitsOf, List.flatMap_cons, List.flatMap_cons] at h
      obtain ⟨hbyte, hrest⟩ := List.append_inj h rfl
      rw [bitsOfByte_injective hbyte, ih hrest]

/-! ### The check sum of eight bits -/

/-- `dscrc_table`. -/
def dscrcTable : List (BitVec 8) :=
  [0, 94, 188, 226, 97, 63, 221, 131, 194, 156, 126, 32, 163, 253, 31, 65,
    157, 195, 33, 127, 252, 162, 64, 30, 95, 1, 227, 189, 62, 96, 130, 220,
    35, 125, 159, 193, 66, 28, 254, 160, 225, 191, 93, 3, 128, 222, 60, 98,
    190, 224, 2, 92, 223, 129, 99, 61, 124, 34, 192, 158, 29, 67, 161, 255,
    70, 24, 250, 164, 39, 121, 155, 197, 132, 218, 56, 102, 229, 187, 89, 7,
    219, 133, 103, 57, 186, 228, 6, 88, 25, 71, 165, 251, 120, 38, 196, 154,
    101, 59, 217, 135, 4, 90, 184, 230, 167, 249, 27, 69, 198, 152, 122, 36,
    248, 166, 68, 26, 153, 199, 37, 123, 58, 100, 134, 216, 91, 5, 231, 185,
    140, 210, 48, 110, 237, 179, 81, 15, 78, 16, 242, 172, 47, 113, 147, 205,
    17, 79, 173, 243, 112, 46, 204, 146, 211, 141, 111, 49, 178, 236, 14, 80,
    175, 241, 19, 77, 206, 144, 114, 44, 109, 51, 209, 143, 12, 82, 176, 238,
    50, 108, 142, 208, 83, 13, 239, 177, 240, 174, 76, 18, 145, 207, 45, 115,
    202, 148, 118, 40, 171, 245, 23, 73, 8, 86, 180, 234, 105, 55, 213, 139,
    87, 9, 235, 181, 54, 104, 138, 212, 149, 203, 41, 119, 244, 170, 72, 22,
    233, 183, 85, 11, 136, 214, 52, 106, 43, 117, 151, 201, 74, 20, 246, 168,
    116, 42, 200, 150, 21, 75, 169, 247, 182, 232, 10, 84, 215, 137, 107, 53]

/-- `crc8` with the table, for the bytes it reads. -/
def crc8 (bytes : List (BitVec 8)) : BitVec 8 :=
  bytes.foldl (fun crc byte ↦ dscrcTable.getD (crc ^^^ byte).toNat 0) 0

/-- One turn of the inner loop of `crc8` without the table: `crc` and `inbyte`. -/
def crc8Bit (state : BitVec 8 × BitVec 8) : BitVec 8 × BitVec 8 :=
  let mix := (state.1 ^^^ state.2) &&& 0x01
  let crc := state.1 >>> 1
  (if mix ≠ 0 then crc ^^^ 0x8C else crc, state.2 >>> 1)

/-- `crc8` without the table. -/
def crc8Bitwise (bytes : List (BitVec 8)) : BitVec 8 :=
  bytes.foldl (fun crc byte ↦ (crc8Bit^[8] (crc, byte)).1) 0

/-- The polynomial of `crc8`. -/
def polynomial8 : BitVec 8 := 0x8C

/-- A turn moves the sum of the two variables. -/
theorem crc8Bit_xor (state : BitVec 8 × BitVec 8) :
    (crc8Bit state).1 ^^^ (crc8Bit state).2 = shift polynomial8 (state.1 ^^^ state.2) := by
  have hmix : ((state.1 ^^^ state.2) &&& 0x01 ≠ 0) ↔ (state.1 ^^^ state.2).getLsbD 0 = true := by
    rw [← bne_iff_ne, BitVec.and_comm]
    have h := RomSearch.bitMask_and_ne_zero (state.1 ^^^ state.2) (show 0 < 8 by decide)
    rw [BitVec.shiftLeft_zero] at h
    exact Bool.eq_iff_iff.mp h
  rw [crc8Bit, shift, BitVec.ushiftRight_xor_distrib]
  simp only [hmix]
  split
  · rw [BitVec.xor_assoc, BitVec.xor_comm 0x8C, ← BitVec.xor_assoc]
    rfl
  · rfl

/-- Eight turns of the loop without the table. -/
theorem crc8Bit_iterate (crc byte : BitVec 8) :
    (crc8Bit^[8] (crc, byte)).1 = shifts polynomial8 8 (crc ^^^ byte) := by
  have hturns (count : ℕ) (state : BitVec 8 × BitVec 8) :
      (crc8Bit^[count] state).1 ^^^ (crc8Bit^[count] state).2 =
          shifts polynomial8 count (state.1 ^^^ state.2) ∧
        (crc8Bit^[count] state).2 = state.2 >>> count := by
    induction count generalizing state with
    | zero => exact ⟨rfl, by simp⟩
    | succ count ih =>
      rw [Function.iterate_succ_apply]
      obtain ⟨hsum, hbyte⟩ := ih (crc8Bit state)
      rw [hsum, crc8Bit_xor, hbyte]
      refine ⟨rfl, ?_⟩
      rw [crc8Bit, ← BitVec.shiftRight_add, Nat.add_comm]
  obtain ⟨hsum, hbyte⟩ := hturns 8 (crc, byte)
  have hempty : byte >>> 8 = 0#8 := by
    refine BitVec.eq_of_getLsbD_eq fun place _ ↦ ?_
    rw [BitVec.getLsbD_ushiftRight, BitVec.getLsbD_zero]
    exact BitVec.getLsbD_of_ge _ _ (by omega)
  rw [hbyte, hempty, BitVec.xor_zero] at hsum
  exact hsum

/-- The entries of the table are eight steps of the register. -/
theorem dscrcTable_getD (index : BitVec 8) :
    dscrcTable.getD index.toNat 0 = shifts polynomial8 8 index := by
  revert index
  decide +kernel

/-- Feeding the bits of a byte. -/
theorem foldl_feed_bitsOfByte (crc byte : BitVec 8) :
    (bitsOfByte byte).foldl (feed polynomial8) crc = shifts polynomial8 8 (crc ^^^ byte) :=
  foldl_feed polynomial8 8 crc byte fun _ hplace ↦ BitVec.getLsbD_of_ge _ _ hplace

/-- The check sum is the residue of the bits. -/
theorem crc8_eq_residue (bytes : List (BitVec 8)) :
    crc8 bytes = residue polynomial8 (bitsOf bytes) := by
  rw [crc8, residue, bitsOf, List.foldl_flatMap]
  refine List.foldl_ext _ _ _ fun crc byte _ ↦ ?_
  rw [dscrcTable_getD, foldl_feed_bitsOfByte]

/-- Both versions of `crc8` agree on every input. -/
theorem crc8_eq_crc8Bitwise (bytes : List (BitVec 8)) : crc8 bytes = crc8Bitwise bytes := by
  rw [crc8, crc8Bitwise]
  refine List.foldl_ext _ _ _ fun crc byte _ ↦ ?_
  rw [dscrcTable_getD, crc8Bit_iterate]

/-! ### What the check sum notices -/

/-- A byte behind some bytes makes the check sum zero exactly when it is theirs. -/
theorem crc8_append_eq_zero_iff (bytes : List (BitVec 8)) (byte : BitVec 8) :
    crc8 (bytes ++ [byte]) = 0 ↔ crc8 bytes = byte := by
  rw [crc8, List.foldl_append, List.foldl_cons, List.foldl_nil, dscrcTable_getD]
  constructor
  · exact fun h ↦ BitVec.xor_eq_zero_iff.mp (eq_zero_of_shifts (by decide) h)
  · intro h
    rw [crc8] at h
    rw [h, BitVec.xor_self]
    exact shifts_zero_register _ _

/-- The parity of a register. -/
def parity8 (register : BitVec 8) : Bool := Foundation.BitWord.parity (bitsOfByte register)

theorem parity8_xor (first second : BitVec 8) :
    parity8 (first ^^^ second) = (parity8 first ^^ parity8 second) := by
  have hlength : (bitsOfByte first).length = (bitsOfByte second).length := rfl
  rw [parity8, bitsOfByte_xor, parity_zipWith_xor hlength]
  rfl

theorem parity8_shift (register : BitVec 8) :
    parity8 (shift polynomial8 register) = parity8 register := by
  revert register
  decide +kernel

/-- The register does not repeat within 127 steps. -/
theorem shifts_one_ne_one (count : ℕ) (hpositive : 0 < count) (hlt : count < 127) :
    shifts polynomial8 count 1#8 ≠ 1#8 := by
  revert hpositive
  revert count
  decide +kernel

/-- Bytes with the same residue are far apart. -/
theorem four_le_distance_of_residue_eq {first second : List (BitVec 8)}
    (hlength : first.length = second.length) (hshort : first.length ≤ 15)
    (hresidue : residue polynomial8 (bitsOf first) = residue polynomial8 (bitsOf second))
    (hne : first ≠ second) : 4 ≤ distance (bitsOf first) (bitsOf second) := by
  refine four_le_distance (by decide) shifts_one_ne_one parity8_xor parity8_shift (by decide) ?_ ?_
    hresidue fun h ↦ hne (bitsOf_injective h)
  · rw [length_bitsOf, length_bitsOf, hlength]
  · rw [length_bitsOf]
    omega

/-- Different words of at most 15 bytes with the same check sum differ in at least four bits. -/
theorem four_le_distance_of_crc8_eq {first second : List (BitVec 8)}
    (hlength : first.length = second.length) (hshort : first.length ≤ 15)
    (hcrc : crc8 first = crc8 second) (hne : first ≠ second) :
    4 ≤ distance (bitsOf first) (bitsOf second) := by
  rw [crc8_eq_residue, crc8_eq_residue] at hcrc
  exact four_le_distance_of_residue_eq hlength hshort hcrc hne

theorem four_le_distance_of_crc8_eq_addresses :
    4 ≤ distance (bitsOf [0x28, 1, 0, 0, 0, 0, 0]) (bitsOf [0x28, 0x18, 1, 0, 0, 0, 0]) :=
  four_le_distance_of_crc8_eq rfl (by decide) (by decide +kernel) (by decide)

/-- Different words of at most 15 bytes that pass the check of their last byte differ in at least
four bits, that byte included. -/
theorem four_le_distance_of_checked {first second : List (BitVec 8)} {firstSum secondSum : BitVec 8}
    (hlength : first.length = second.length) (hshort : first.length < 15)
    (hfirst : crc8 first = firstSum) (hsecond : crc8 second = secondSum)
    (hne : first ++ [firstSum] ≠ second ++ [secondSum]) :
    4 ≤ distance (bitsOf (first ++ [firstSum])) (bitsOf (second ++ [secondSum])) := by
  have hzero := ((crc8_append_eq_zero_iff first firstSum).mpr hfirst).trans
    ((crc8_append_eq_zero_iff second secondSum).mpr hsecond).symm
  rw [crc8_eq_residue, crc8_eq_residue] at hzero
  refine four_le_distance_of_residue_eq ?_ ?_ hzero hne
  · rw [List.length_append, List.length_append, hlength]
    rfl
  · rw [List.length_append]
    exact hshort

/-! ### The check sum of sixteen bits -/

/-- `oddparity`. -/
def oddparity : List Bool :=
  [false, true, true, false, true, false, false, true, true, false, false, true, false, true, true,
    false]

/-- One turn of the loop of `crc16`. -/
def crc16Byte (crc : BitVec 16) (input : BitVec 8) : BitVec 16 :=
  let cdata := (input.setWidth 16 ^^^ crc) &&& 0xFF
  let crc := crc >>> 8
  let crc :=
    if oddparity.getD (cdata &&& 0x0F).toNat false ^^ oddparity.getD (cdata >>> 4).toNat false
    then crc ^^^ 0xC001 else crc
  let cdata := cdata <<< 6
  let crc := crc ^^^ cdata
  let cdata := cdata <<< 1
  crc ^^^ cdata

/-- `crc16`, for the bytes it reads and the check sum it goes on from. -/
def crc16 (input : List (BitVec 8)) (crc : BitVec 16) : BitVec 16 := input.foldl crc16Byte crc

/-- `check_crc16`, with the two bytes it reads from `inverted_crc`. -/
def checkCrc16 (input : List (BitVec 8)) (low high : BitVec 8) (crc : BitVec 16) : Bool :=
  let crc := ~~~crc16 input crc
  crc &&& 0xFF == low.setWidth 16 && crc >>> 8 == high.setWidth 16

/-- The polynomial of `crc16`. -/
def polynomial16 : BitVec 16 := 0xA001

/-- What the parity and the shifts contribute is eight steps of the register. -/
theorem parity_shifts (byte : BitVec 8) :
    crc16Byte 0#16 byte = shifts polynomial16 8 (byte.setWidth 16) := by
  revert byte
  decide +kernel

theorem and_ff (word : BitVec 16) : word &&& 0xFF = (lowByte word).setWidth 16 := by
  refine BitVec.eq_of_getLsbD_eq fun place hplace ↦ ?_
  interval_cases place <;> simp [lowByte]

theorem foldl_feed_bitsOfByte16 (crc : BitVec 16) (input : BitVec 8) :
    (bitsOfByte input).foldl (feed polynomial16) crc =
      shifts polynomial16 8 (crc ^^^ input.setWidth 16) := by
  have hfeed := foldl_feed polynomial16 8 crc (input.setWidth 16) fun place hplace ↦ by
    rw [BitVec.getLsbD_setWidth, BitVec.getLsbD_of_ge input place hplace, Bool.and_false]
  have hbits : (List.range 8).map (input.setWidth 16).getLsbD = bitsOfByte input := by
    refine List.map_congr_left fun place hplace ↦ ?_
    have hlt : place < 16 := Nat.lt_trans (List.mem_range.mp hplace) (by decide)
    rw [BitVec.getLsbD_setWidth, decide_eq_true hlt, Bool.true_and]
  rw [← hbits, hfeed]

/-- A turn of `crc16` feeds the bits of a byte. -/
theorem crc16Byte_eq (crc : BitVec 16) (input : BitVec 8) :
    crc16Byte crc input = (bitsOfByte input).foldl (feed polynomial16) crc := by
  have hempty : input.setWidth 16 >>> 8 = 0#16 := by
    refine BitVec.eq_of_getLsbD_eq fun place _ ↦ ?_
    rw [BitVec.getLsbD_ushiftRight, BitVec.getLsbD_setWidth, BitVec.getLsbD_zero,
      BitVec.getLsbD_of_ge input (8 + place) (by omega), Bool.and_false]
  have hlow : (lowByte (crc ^^^ input.setWidth 16)).setWidth 16 &&& 0xFF =
      (lowByte (crc ^^^ input.setWidth 16)).setWidth 16 := by
    rw [and_ff]
    simp [lowByte]
  have hsplit : crc16Byte crc input =
      crc >>> 8 ^^^ crc16Byte 0#16 (lowByte (crc ^^^ input.setWidth 16)) := by
    unfold crc16Byte
    rw [BitVec.xor_zero, hlow, BitVec.xor_comm (input.setWidth 16) crc, and_ff]
    dsimp only
    split <;> simp [BitVec.xor_assoc]
  rw [foldl_feed_bitsOfByte16, shifts_eight, BitVec.ushiftRight_xor_distrib, hempty,
    BitVec.xor_zero, hsplit, parity_shifts]

/-- `crc16` with its parity table feeds the bits of the bytes. -/
theorem crc16_eq_foldl_feed (input : List (BitVec 8)) (crc : BitVec 16) :
    crc16 input crc = (bitsOf input).foldl (feed polynomial16) crc := by
  rw [crc16, bitsOf, List.foldl_flatMap]
  exact List.foldl_ext _ _ _ fun crc byte _ ↦ crc16Byte_eq crc byte

/-- The word of two bytes, the low one first. -/
def littleEndian (low high : BitVec 8) : BitVec 16 := low.setWidth 16 ^^^ high.setWidth 16 <<< 8

theorem getLsbD_littleEndian (low high : BitVec 8) (place : ℕ) :
    (littleEndian low high).getLsbD place =
      (decide (place < 16) &&
        if place < 8 then low.getLsbD place else high.getLsbD (place - 8)) := by
  rw [littleEndian, BitVec.getLsbD_xor, BitVec.getLsbD_setWidth, BitVec.getLsbD_shiftLeft,
    BitVec.getLsbD_setWidth]
  by_cases hplace : place < 16
  · by_cases hlow : place < 8
    · simp [hplace, hlow]
    · have hrest : place - 8 < 16 := by omega
      simp [hplace, hlow, hrest, BitVec.getLsbD_of_ge low place (Nat.not_lt.mp hlow)]
  · simp [hplace]

/-- Two more bytes are added to the check sum and moved out. -/
theorem crc16_append (input : List (BitVec 8)) (low high : BitVec 8) (crc : BitVec 16) :
    crc16 (input ++ [low, high]) crc =
      shifts polynomial16 16 (crc16 input crc ^^^ littleEndian low high) := by
  have hhigh : shifts polynomial16 8 (high.setWidth 16 <<< 8) = high.setWidth 16 := by
    rw [shifts_of_clear]
    · refine BitVec.eq_of_getLsbD_eq fun place hplace ↦ ?_
      rw [BitVec.getLsbD_ushiftRight, BitVec.getLsbD_shiftLeft, Nat.add_sub_cancel_left]
      by_cases hbyte : place < 8
      · have hlt : 8 + place < 16 := by omega
        simp [hlt]
      · rw [BitVec.getLsbD_setWidth, BitVec.getLsbD_of_ge high place (Nat.not_lt.mp hbyte),
          Bool.and_false, Bool.and_false]
    · intro place hplace
      simp [hplace]
  rw [crc16, List.foldl_append, List.foldl_cons, List.foldl_cons, List.foldl_nil, ← crc16,
    crc16Byte_eq, crc16Byte_eq, foldl_feed_bitsOfByte16, foldl_feed_bitsOfByte16]
  conv_lhs => rw [← hhigh]
  rw [← shifts_xor, littleEndian, BitVec.xor_assoc]
  exact (shifts_add polynomial16 8 8 _).symm

/-- `check_crc16` accepts two bytes exactly when the check sum over the message with these bytes
behind it is the constant that the inverted check sum leaves. -/
theorem checkCrc16_iff (input : List (BitVec 8)) (low high : BitVec 8) (crc : BitVec 16) :
    checkCrc16 input low high crc = true ↔ crc16 (input ++ [low, high]) crc = 0xB001 := by
  have hcheck : checkCrc16 input low high crc = true ↔
      ~~~crc16 input crc = littleEndian low high := by
    unfold checkCrc16
    dsimp only
    generalize ~~~crc16 input crc = word
    rw [Bool.and_eq_true, beq_iff_eq, beq_iff_eq]
    constructor
    · rintro ⟨hlow, hhigh⟩
      refine BitVec.eq_of_getLsbD_eq fun place hplace ↦ ?_
      rw [getLsbD_littleEndian, decide_eq_true hplace, Bool.true_and]
      split
      · next hbyte =>
        have hbit := congrArg (·.getLsbD place) hlow
        rw [and_ff] at hbit
        simpa [lowByte, hplace, hbyte] using hbit
      · next hbyte =>
        have hbit := congrArg (·.getLsbD (place - 8)) hhigh
        have hback : 8 + (place - 8) = place := by omega
        have hrest : place - 8 < 16 := by omega
        simpa [hback, hrest] using hbit
    · rintro rfl
      refine ⟨?_, ?_⟩
      · rw [and_ff]
        refine BitVec.eq_of_getLsbD_eq fun place hplace ↦ ?_
        rw [BitVec.getLsbD_setWidth, lowByte, BitVec.getLsbD_setWidth, getLsbD_littleEndian,
          BitVec.getLsbD_setWidth]
        by_cases hbyte : place < 8
        · simp [hplace, hbyte]
        · simp [hbyte, BitVec.getLsbD_of_ge low place (Nat.not_lt.mp hbyte)]
      · refine BitVec.eq_of_getLsbD_eq fun place hplace ↦ ?_
        rw [BitVec.getLsbD_ushiftRight, getLsbD_littleEndian, BitVec.getLsbD_setWidth]
        by_cases hbyte : place < 8
        · have hlt : 8 + place < 16 := by omega
          simp [hplace, hlt]
        · have hge : ¬ 8 + place < 16 := by omega
          simp [hge, BitVec.getLsbD_of_ge high place (Nat.not_lt.mp hbyte)]
  have hones : shifts polynomial16 16 0xFFFF#16 = 0xB001#16 := by decide +kernel
  have hxor : crc16 input crc ^^^ littleEndian low high = 0xFFFF#16 ↔
      ~~~crc16 input crc = littleEndian low high := by
    have hnot : ~~~crc16 input crc = crc16 input crc ^^^ 0xFFFF#16 := by
      rw [BitVec.xor_comm]
      exact BitVec.not_def
    rw [hnot]
    constructor
    · intro h
      rw [← h, ← BitVec.xor_assoc, BitVec.xor_self, BitVec.zero_xor]
    · intro h
      rw [← h, ← BitVec.xor_assoc, BitVec.xor_self, BitVec.zero_xor]
  rw [hcheck, crc16_append, ← hxor]
  constructor
  · intro h
    rw [h, hones]
    rfl
  · intro h
    exact shifts_injective (show polynomial16.getLsbD 15 = true by decide) 16 (h.trans hones.symm)

end Sketchbook.OneWire.CheckSum
