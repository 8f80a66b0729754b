import Sketchbook.PulseScan.ScanAcceptance

/-!
# A frame of sketch_feb03a that lost one pulse

The sensor sends its frame back to back. When the receiver loses one bit pulse of the first copy,
the bits behind it move up by one place and the sync of the second copy is read as bit 32. The
classifier then writes the character before it once more, so the window is not rejected for that
pulse.

`lostPulse_reading_iff` says for every frame and every lost pulse when the window is rejected or
still gives the temperature of the frame. The window passes the id check when the bits that moved
repeat the ones they replace, and it passes the parity check when the lost bit equals the one
written twice. What remains is whether the temperature bits change when they move up.
-/

set_option autoImplicit false
set_option relaxedAutoImplicit false

namespace Sketchbook.PulseScan.LostPulse

open Arduino.Text Foundation.BitWord Sensor.BinaryReading Sensor.PulseClassifier
open FrameScan ScanAcceptance

/-- The buffer holds two copies of a frame back to back, the first without one of its bit pulses and
with its sync at index `i`. -/
def HoldsLostPulse (timings : Fin bufferSize → ℤ) (i : Fin bufferSize) (word : FrameWord)
    (lost : ℕ) : Prop :=
  ∃ (before first second after : List ℤ) (sync1 sync2 : ℤ),
    (i : ℕ) = before.length ∧ lengths.within syncLength sync1 ∧ Spells word.bits first ∧
      lengths.within syncLength sync2 ∧ Spells word.bits second ∧
      List.ofFn timings = before ++ sync1 :: (first.eraseIdx lost ++ sync2 :: (second ++ after))

/-- The 32 bits that are read when a pulse is lost: the others, and the last of them again. -/
def received (word : FrameWord) (lost : ℕ) : List Bool :=
  word.bits.eraseIdx lost ++ [if 30 < lost then word.bit 30 else word.bit 31]

variable {timings : Fin bufferSize → ℤ} {globals : Globals} {i : Fin bufferSize} {word : FrameWord}
  {lost : ℕ}

theorem length_eraseIdx_bits (word : FrameWord) (hlost : lost < 32) :
    (word.bits.eraseIdx lost).length = 31 := by
  rw [List.length_eraseIdx_of_lt (by rw [word.length_eq]; exact hlost), word.length_eq]

theorem length_received (word : FrameWord) (hlost : lost < 32) :
    (received word lost).length = 32 := by
  rw [received, List.length_append, length_eraseIdx_bits word hlost]
  rfl

/-- Removing a pulse removes its bit. -/
theorem spells_eraseIdx {bits : List Bool} {pulses : List ℤ} (h : Spells bits pulses) (lost : ℕ) :
    Spells (bits.eraseIdx lost) (pulses.eraseIdx lost) := by
  rw [List.eraseIdx_eq_take_drop_succ, List.eraseIdx_eq_take_drop_succ]
  exact List.rel_append (List.forall₂_take lost h) (List.forall₂_drop (lost + 1) h)

/-- The last of the bits that were not lost. -/
theorem getLast_eraseIdx_bits (hlost : lost < 32) (hne : word.bits.eraseIdx lost ≠ []) :
    (word.bits.eraseIdx lost).getLast hne = if 30 < lost then word.bit 30 else word.bit 31 := by
  have hlength := length_eraseIdx_bits word hlost
  rw [List.getLast_eq_getElem, List.getElem_eraseIdx]
  simp only [hlength, word.getElem_bits]
  rfl

/-- The window of the incomplete copy is written as the text of the received bits and one more. -/
theorem capture_of_holds (hlost : lost < 32) (hholds : HoldsLostPulse timings i word lost)
    (bitreceived : Char) :
    lengths.within syncLength (timings i) ∧ ∃ (h : i + 33 < bufferSize) (next : Bool),
      lengths.capture bitreceived (window timings i h) =
        bitText (received word lost) ++ [bitChar next] := by
  obtain ⟨before, first, second, after, sync1, sync2, hi, hsync1, hfirst, hsync2, hsecond, heq⟩ :=
    hholds
  have hspells := spells_eraseIdx hfirst lost
  have hlength : (first.eraseIdx lost).length = 31 := by
    rw [← hspells.length_eq, length_eraseIdx_bits word hlost]
  have hcount : second.length = 32 := by rw [← hsecond.length_eq, word.length_eq]
  obtain ⟨htiming, h, hwindow⟩ := window_of_ofFn heq hi (by
    rw [List.length_append, hlength, List.length_cons, List.length_append, hcount]
    omega)
  have hne : word.bits.eraseIdx lost ≠ [] := by
    intro hnil
    have hzero := length_eraseIdx_bits word hlost
    rw [hnil] at hzero
    exact absurd hzero (by decide)
  have hbits : word.bits ≠ [] := fun hnil ↦ hne (by rw [hnil]; rfl)
  obtain ⟨next, later, hnext⟩ := List.exists_cons_of_ne_nil hbits
  rw [hnext] at hsecond
  obtain ⟨t, rest, ht, -, rfl⟩ := List.forall₂_cons_left_iff.mp hsecond
  rw [htiming]
  refine ⟨hsync1, h, next, ?_⟩
  have hread : (first.eraseIdx lost ++ sync2 :: (t :: rest ++ after)).take 33 =
      first.eraseIdx lost ++ [sync2, t] := by
    rw [List.take_append, hlength, List.take_of_length_le (by omega)]
    rfl
  rw [hwindow, hread, capture_append, capture_of_spells hspells,
    foldl_classify_of_spells hspells hne, PulseLengths.capture, PulseLengths.capture,
    PulseLengths.capture, classify_of_sync hsync2,
    classify_of_bit ht, getLast_eraseIdx_bits hlost]
  simp [received, bitText]

/-- The received bits pass the id check exactly when the lost bit is behind the id, or behind its
last one with a zero moving up into the id. -/
theorem received_id_iff (hlost : lost < 32) :
    (received word lost).take 16 = idBits ↔ (lost < 16 → 9 ≤ lost ∧ word.bit 16 = false) := by
  have hslice := slice_eraseIdx_eq_iff word.bits lost 0 16
    (by rw [word.length_eq]; exact hlost) (by rw [word.length_eq]; decide)
  rw [List.drop_zero, List.drop_zero, word.id] at hslice
  rw [received, List.take_append_of_le_length (by rw [length_eraseIdx_bits word hlost]; decide),
    hslice]
  simp only [word.getElem_bits]
  constructor
  · intro hrepeat hlt
    have hlast : word.bit 16 = word.bit 15 := hrepeat 15 (by omega) (by decide) (by decide)
    rw [word.bit_of_id 15 (by decide)] at hlast
    refine ⟨?_, hlast⟩
    by_contra hfirst
    have hone : word.bit 9 = word.bit 8 := hrepeat 8 (by omega) (by decide) (by decide)
    rw [word.bit_of_id 9 (by decide), word.bit_of_id 8 (by decide)] at hone
    exact absurd hone (by decide)
  · intro hzero m hm _ hlt
    obtain ⟨hfirst, hlast⟩ := hzero (by omega)
    have hzeros : ∀ index < 16, 9 ≤ index → idBits.getD index false = false := by decide
    have hbit : word.bit m = false := by
      rw [word.bit_of_id m hlt]
      exact hzeros m hlt (by omega)
    rw [hbit]
    rcases Nat.lt_or_ge (m + 1) 16 with hnext | hnext
    · rw [word.bit_of_id _ hnext]
      exact hzeros (m + 1) hnext (by omega)
    · rw [show m + 1 = 16 by omega]
      exact hlast

/-- The received bits have even parity exactly when the lost bit is the one that is written twice.
-/
theorem received_parity_iff (hlost : lost < 32) :
    parity (received word lost) = false ↔
      word.bit lost = if 30 < lost then word.bit 30 else word.bit 31 := by
  have heven := (parity_eq_false_iff word.bits).mpr word.even
  have hindex : lost < word.bits.length := by
    rw [word.length_eq]
    exact hlost
  rw [received, parity_append, parity_eraseIdx _ _ hindex, heven, word.getElem_bits hindex]
  simp only [Bool.false_xor, parity_cons, parity_nil, Bool.xor_false]
  exact bne_eq_false_iff_eq

/-- The received temperature is that of the frame exactly when the bits that move into it repeat the
ones they replace. -/
theorem received_temperature_iff (hlost : lost < 32) :
    bitText (((received word lost).take 24).drop 16) = word.temperature ↔
      ∀ m, lost ≤ m → 16 ≤ m → m < 24 → word.bit (m + 1) = word.bit m := by
  have hslice := slice_eraseIdx_eq_iff word.bits lost 16 24
    (by rw [word.length_eq]; exact hlost) (by rw [word.length_eq]; decide)
  simp only [word.getElem_bits] at hslice
  rw [received, List.take_append_of_le_length (by rw [length_eraseIdx_bits word hlost]; decide),
    FrameWord.temperature, bitText_injective.eq_iff, hslice]

/-- The lost bits that lead to no wrong reading: the first nine, the last eight, those that differ
from the last bit, those in the id of a frame with a one behind the id, and those for which the
bits that move up through the temperature are all equal. -/
def LossHarmless (word : FrameWord) (lost : ℕ) : Prop :=
  lost < 9 ∨ 24 ≤ lost ∨ word.bit lost ≠ word.bit 31 ∨ (lost < 16 ∧ word.bit 16 = true) ∨
    ∀ m, lost ≤ m → 16 ≤ m → m < 24 → word.bit (m + 1) = word.bit m

/-- When the received bits that pass the id and the parity check have the temperature of the frame.
-/
theorem received_harmless_iff (word : FrameWord) (lost : ℕ) :
    ((lost < 16 → 9 ≤ lost ∧ word.bit 16 = false) →
        (word.bit lost = if 30 < lost then word.bit 30 else word.bit 31) →
        ∀ m, lost ≤ m → 16 ≤ m → m < 24 → word.bit (m + 1) = word.bit m) ↔
      LossHarmless word lost := by
  unfold LossHarmless
  by_cases hlate : 24 ≤ lost
  · refine iff_of_true (fun _ _ m hm _ hlt ↦ ?_) (Or.inr (Or.inl hlate))
    omega
  · rw [if_neg (by omega)]
    constructor
    · intro himp
      by_contra hnone
      push Not at hnone
      obtain ⟨hlater, -, hrepeat, hzero, m, hm, hleft, hlt, hdiffers⟩ := hnone
      have hid (hin : lost < 16) : 9 ≤ lost ∧ word.bit 16 = false :=
        ⟨hlater, Bool.eq_false_iff.mpr (hzero hin)⟩
      exact hdiffers (himp hid hrepeat m hm hleft hlt)
    · rintro (hfirst | hlast | hdiffers | ⟨hin, hone⟩ | hsame) hid hrepeat
      · have hlater := (hid (by omega)).1
        omega
      · exact absurd hlast hlate
      · exact absurd hrepeat hdiffers
      · rw [(hid hin).2] at hone
        exact absurd hone Bool.false_ne_true
      · exact hsame

/-- With one bit pulse lost, the window at the first sync is rejected or gives the temperature of
the frame exactly when the loss is harmless. -/
theorem lostPulse_reading_iff (hlost : lost < 32) (hholds : HoldsLostPulse timings i word lost)
    (hfree : globals.capturedState = false) :
    ((scanBody timings globals i).capturedState = true →
        (scanBody timings globals i).tempOut = word.temperature) ↔
      LossHarmless word lost := by
  obtain ⟨hsync, h, next, htext⟩ := capture_of_holds hlost hholds globals.bitreceived
  have hlength := length_received word hlost
  have hvalid : '?' ∉ [bitChar next] := by cases next <;> decide
  have hset : (scanBody timings globals i).capturedState = true ↔
      (received word lost).take 16 = idBits ∧ parity (received word lost) = false := by
    rw [scanBody_capturedState_iff hfree, and_iff_right hsync, exists_prop_of_true h, htext,
      accepts_iff hlength, and_iff_right hvalid]
  have htempOut (haccepted : (scanBody timings globals i).capturedState = true) :
      (scanBody timings globals i).tempOut = bitText (((received word lost).take 24).drop 16) := by
    have haccepts : Accepts (lengths.capture globals.bitreceived (window timings i h)) := by
      rw [htext, accepts_iff hlength]
      exact ⟨hvalid, hset.mp haccepted⟩
    rw [scanBody_tempOut hsync h haccepts, htext, substring_bitText hlength]
  rw [← received_harmless_iff, ← received_id_iff hlost, ← received_parity_iff hlost,
    ← received_temperature_iff hlost, ← and_imp, ← hset]
  exact forall_congr' fun haccepted ↦ by rw [htempOut haccepted]

theorem holdsLostPulse_lostPulseTimings :
    HoldsLostPulse lostPulseTimings ⟨0, by decide⟩ tenDegrees 16 := by
  have hspells := spells_map_bitLength tenDegrees.bits
  exact ⟨[], _, _, (List.ofFn lostPulseTimings).drop 65, syncLength, syncLength, rfl, by decide,
    hspells, by decide, hspells, by decide +kernel⟩

/-- A frame of 10 degrees that lost a pulse is read as 20 degrees. -/
theorem not_forall_lostPulse_reading :
    ¬ ∀ (timings : Fin bufferSize → ℤ) (globals : Globals) (i : Fin bufferSize) (word : FrameWord)
      (lost : ℕ), lost < 32 → HoldsLostPulse timings i word lost → globals.capturedState = false →
      (scanBody timings globals i).capturedState = true →
      (scanBody timings globals i).tempOut = word.temperature := by
  intro hkeeps
  have hreading := hkeeps lostPulseTimings powerOn ⟨0, by decide⟩ tenDegrees 16 (by decide)
    holdsLostPulse_lostPulseTimings rfl (by decide +kernel)
  exact absurd hreading (by decide +kernel)

/-- The loss of bit pulse 17 of that frame. -/
theorem tenDegrees_lostPulse_iff :
    ((scanBody lostPulseTimings powerOn ⟨0, by decide⟩).capturedState = true →
        (scanBody lostPulseTimings powerOn ⟨0, by decide⟩).tempOut = tenDegrees.temperature) ↔
      LossHarmless tenDegrees 16 :=
  lostPulse_reading_iff (by decide) holdsLostPulse_lostPulseTimings rfl

end Sketchbook.PulseScan.LostPulse
