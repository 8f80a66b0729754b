import Sketchbook.PulseScan.LoopPass

/-!
# Which temperatures sketch_feb03a accepts

The sensor sends twelve bits of identification, a temperature in tenths of a degree as a signed
number of twelve bits, seven further bits and a parity bit; sketch_jan24c decodes the temperature as
such a number. sketch_feb03a compares sixteen bits with its sensor id, the last four of which belong
to the temperature, and reads the other eight as an unsigned number.

`tempOut_eq_tenths_iff` says what follows for a frame that stands alone between two syncs: a pass
uploads its temperature exactly when that is at least 0 and at most 25.5 degrees.
-/

set_option autoImplicit false
set_option relaxedAutoImplicit false

namespace Sketchbook.PulseScan.SignedTemperature

open Arduino.Text Foundation.BitWord Sensor.BinaryReading Sensor.PulseClassifier
open FrameScan ScanAcceptance LoopPass

/-! ### The frames of the sensor -/

/-- The twelve bits that identify the sensor. -/
def sensorBits : List Bool :=
  [false, true, true, true, true, true, true, false, true, false, false, false]

/-- The bits a sensor can choose: a temperature, and seven bits that no receiver reads. -/
structure SensorFrame where
  temperature : List Bool
  free : List Bool
  length_temperature : temperature.length = 12
  length_free : free.length = 7

namespace SensorFrame

/-- The 31 bits in front of the parity bit. -/
def body (frame : SensorFrame) : List Bool := sensorBits ++ frame.temperature ++ frame.free

/-- The 32 bits of a frame. -/
def bits (frame : SensorFrame) : List Bool := frame.body ++ [parity frame.body]

/-- The temperature in tenths of a degree. -/
def tenths (frame : SensorFrame) : ℤ := signedValue frame.temperature

theorem length_bits (frame : SensorFrame) : frame.bits.length = 32 := by
  simp [bits, body, sensorBits, frame.length_temperature, frame.length_free]

theorem parity_bits (frame : SensorFrame) : parity frame.bits = false := by
  simp [bits]

/-- The temperature bits follow the identification. -/
theorem bits_eq (frame : SensorFrame) :
    frame.bits = sensorBits ++ (frame.temperature ++ (frame.free ++ [parity frame.body])) := by
  simp [bits, body]

theorem temperature_eq (frame : SensorFrame) :
    frame.temperature = frame.temperature.take 4 ++ frame.temperature.drop 4 :=
  (List.take_append_drop 4 frame.temperature).symm

/-- Every signed number of twelve bits is a temperature, with any further bits. -/
theorem exists_tenths_eq (number : ℤ) (hlower : -2048 ≤ number) (hupper : number < 2048)
    (free : List Bool) (hfree : free.length = 7) :
    ∃ frame : SensorFrame, frame.tenths = number ∧ frame.free = free := by
  obtain ⟨word, hlength, hvalue⟩ := exists_signedValue_eq 11 number hlower hupper
  exact ⟨⟨word, free, hlength, hfree⟩, hvalue, rfl⟩

theorem length_low (frame : SensorFrame) : (frame.temperature.drop 4).length = 8 := by
  rw [List.length_drop, frame.length_temperature]

theorem high_ne_nil (frame : SensorFrame) : frame.temperature.take 4 ≠ [] := by
  rw [← List.length_pos_iff, List.length_take, frame.length_temperature]
  decide

/-- The frame starts with the id exactly when the upper four temperature bits are zero. -/
theorem take_bits_eq_iff (frame : SensorFrame) :
    frame.bits.take 16 = idBits ↔ ∀ bit ∈ frame.temperature.take 4, bit = false := by
  have hid : idBits = sensorBits ++ List.replicate 4 false := by decide
  have htake : frame.bits.take 16 = sensorBits ++ frame.temperature.take 4 := by
    rw [bits_eq, List.take_append, List.take_append_of_le_length]
    · rfl
    · simp [frame.length_temperature, sensorBits]
  have hlength : (frame.temperature.take 4).length = 4 := by
    rw [List.length_take, frame.length_temperature]
    rfl
  rw [htake, hid, List.append_cancel_left_eq, List.eq_replicate_iff, and_iff_right hlength]

/-- They are zero exactly for temperatures of eight unsigned bits. -/
theorem high_eq_zero_iff (frame : SensorFrame) :
    (∀ bit ∈ frame.temperature.take 4, bit = false) ↔ 0 ≤ frame.tenths ∧ frame.tenths ≤ 255 := by
  have hbounds := signedValue_append_bounds_iff frame.high_ne_nil (frame.temperature.drop 4)
  rw [← temperature_eq, frame.length_low] at hbounds
  rw [← hbounds, tenths]
  exact and_congr_right fun _ ↦ by omega

end SensorFrame

/-! ### A frame alone between two syncs -/

/-- A buffer with two syncs, 33 pulses apart, and the pulses of a word between them. -/
structure HoldsAlone (timings : Fin bufferSize → ℤ) (word : List Bool) (i : ℕ)
    (h : i + 33 < bufferSize) : Prop where
  opening : lengths.within syncLength (timings ⟨i, Nat.lt_of_le_of_lt (Nat.le_add_right i 33) h⟩)
  spells : Spells word (bitPulses timings i h)
  closing : lengths.within syncLength (timings ⟨i + 33, h⟩)
  alone : ∀ k : Fin bufferSize, lengths.within syncLength (timings k) →
    (k : ℕ) = i ∨ (k : ℕ) = i + 33

variable {timings : Fin bufferSize → ℤ} {frame : SensorFrame} {i : ℕ} {h : i + 33 < bufferSize}

/-- The text of the window is that of the frame, with its last bit repeated. -/
theorem HoldsAlone.capture_eq (hholds : HoldsAlone timings frame.bits i h) (bitreceived : Char) :
    ∃ last, '?' ∉ [last] ∧
      lengths.capture bitreceived (window timings i h) = bitText frame.bits ++ [last] := by
  have hne : frame.bits ≠ [] := by
    rw [← List.length_pos_iff, frame.length_bits]
    decide
  refine ⟨bitChar (frame.bits.getLast hne), ?_, capture_window hholds.spells hholds.closing hne _⟩
  cases frame.bits.getLast hne <;> decide

/-- The window passes exactly when the upper four temperature bits are zero. -/
theorem HoldsAlone.passes_iff (hholds : HoldsAlone timings frame.bits i h) (bitreceived : Char) :
    Passes timings bitreceived i ↔ 0 ≤ frame.tenths ∧ frame.tenths ≤ 255 := by
  obtain ⟨last, hlast, htext⟩ := hholds.capture_eq bitreceived
  have haccepts : Accepts (lengths.capture bitreceived (window timings i h)) ↔
      frame.bits.take 16 = idBits := by
    rw [htext, accepts_iff frame.length_bits, and_iff_right hlast,
      and_iff_left frame.parity_bits]
  rw [← frame.high_eq_zero_iff, ← frame.take_bits_eq_iff, ← haccepts]
  constructor
  · rintro ⟨_, _, hpasses⟩
    exact hpasses
  · intro hpasses
    exact ⟨h, hholds.opening, hpasses⟩

/-- A window that passes reads the temperature of the frame. -/
theorem HoldsAlone.reading_eq (hholds : HoldsAlone timings frame.bits i h) (bitreceived : Char)
    (hrange : 0 ≤ frame.tenths ∧ frame.tenths ≤ 255) :
    reading timings bitreceived i = (frame.tenths : ℚ) / 10 := by
  obtain ⟨last, -, htext⟩ := hholds.capture_eq bitreceived
  have hslice : (frame.bits.take 24).drop 16 = frame.temperature.drop 4 := by
    have hlength : (sensorBits ++ frame.temperature).length = 24 := by
      rw [List.length_append, frame.length_temperature]
      rfl
    have hsensor : sensorBits.length = 12 := rfl
    rw [frame.bits_eq, ← List.append_assoc, List.take_left' hlength,
      show 16 = 12 + 4 from rfl, ← List.drop_drop, List.drop_left' hsensor]
  have hvalue : frame.tenths = value (frame.temperature.drop 4) := by
    have hzero := frame.high_eq_zero_iff.mpr hrange
    have heq := (signedValue_append_eq_iff frame.high_ne_nil (frame.temperature.drop 4)).mpr hzero
    rwa [← frame.temperature_eq] at heq
  rw [reading, dif_pos h, htext, substring_bitText frame.length_bits, hslice,
    bintodec_bitText _ frame.length_low, hvalue, Int.cast_natCast]

/-! ### What a pass uploads -/

/-- Whatever a window reads is a number of eight bits, in tenths. -/
theorem exists_reading_eq (timings : Fin bufferSize → ℤ) (bitreceived : Char)
    (h : i + 33 < bufferSize) :
    ∃ number : ℕ, number < 256 ∧ reading timings bitreceived i = (number : ℚ) / 10 := by
  have hlength :
      (substring (lengths.capture bitreceived (window timings i h)) 16 24).length = 8 := by
    rw [substring, List.length_drop, List.length_take, length_capture, window, List.length_ofFn]
    rfl
  have hlt := value_lt ((substring (lengths.capture bitreceived (window timings i h)) 16 24).map
    fun character ↦ decide (character = '1'))
  rw [List.length_map, hlength] at hlt
  refine ⟨_, hlt, ?_⟩
  rw [reading, dif_pos h]
  exact bintodec_eq_value _ hlength

/-- A frame that stands alone in the buffer is accepted and its temperature uploaded exactly when it
is at least 0 and at most 25.5 degrees. -/
theorem tempOut_eq_tenths_iff {globals : Globals} (hfree : globals.capturedState = false)
    (hholds : HoldsAlone timings frame.bits i h) (bus : OneWireBus) :
    ((scan timings globals).capturedState = true ∧
        (pass timings bus globals).tempOut = some ((frame.tenths : ℚ) / 10)) ↔
      0 ≤ frame.tenths ∧ frame.tenths ≤ 255 := by
  have haccepted : (pass timings bus globals).tempOut = some ((frame.tenths : ℚ) / 10) →
      (scan timings globals).capturedState = true := by
    intro huploaded
    rw [← isSome_tempOut timings bus, huploaded, Option.isSome_some]
  rw [and_iff_right_of_imp haccepted, pass_tempOut_eq_some_iff hfree]
  constructor
  · rintro ⟨j, hfirst, hreading⟩
    obtain ⟨hfits, hsync⟩ := hfirst.passes.opensWindow
    rcases hholds.alone _ hsync with hi | hlater
    · obtain rfl : j = i := hi
      exact (hholds.passes_iff _).mp hfirst.passes
    · obtain ⟨number, hlt, hnumber⟩ :=
        exists_reading_eq timings (carried timings globals.bitreceived j) hfits
      rw [hnumber, div_left_inj' (by norm_num)] at hreading
      have htenths : (number : ℤ) = frame.tenths := by exact_mod_cast hreading
      omega
  · intro hrange
    refine ⟨i, ⟨(hholds.passes_iff _).mpr hrange, fun j hj hother ↦ ?_⟩,
      hholds.reading_eq _ hrange⟩
    obtain ⟨hfits, hsync⟩ := hother.opensWindow
    rcases hholds.alone _ hsync with hi | hlater
    · exact hj.ne hi
    · change j = i + 33 at hlater
      omega

/-! ### Frames of 10 and of 25.6 degrees -/

/-- A buffer with the pulses of a frame between two syncs, and nothing else. -/
def aloneTimings (frame : SensorFrame) : Fin bufferSize → ℤ :=
  bufferOf [nominalFrame frame.bits, [syncLength]]

theorem holdsAlone_aloneTimings {frame : SensorFrame}
    (hpulses : bitPulses (aloneTimings frame) 0 (by decide) = frame.bits.map lengths.bitLength)
    (hsyncs : ∀ k : Fin bufferSize,
      lengths.within syncLength (aloneTimings frame k) ↔ (k : ℕ) = 0 ∨ (k : ℕ) = 33) :
    HoldsAlone (aloneTimings frame) frame.bits 0 (by decide) where
  opening := (hsyncs _).mpr (Or.inl rfl)
  spells := hpulses ▸ spells_map_bitLength frame.bits
  closing := (hsyncs _).mpr (Or.inr rfl)
  alone k := (hsyncs k).mp

/-- A frame of 10 degrees. -/
def mild : SensorFrame where
  temperature :=
    [false, false, false, false, false, true, true, false, false, true, false, false]
  free := List.replicate 7 false
  length_temperature := rfl
  length_free := rfl

theorem mild_tempOut :
    ((scan (aloneTimings mild) powerOn).capturedState = true ∧
        (pass (aloneTimings mild) ⟨false, 0, fun _ ↦ 0⟩ powerOn).tempOut =
          some ((mild.tenths : ℚ) / 10)) ↔
      0 ≤ mild.tenths ∧ mild.tenths ≤ 255 :=
  tempOut_eq_tenths_iff rfl
    (holdsAlone_aloneTimings (by decide +kernel) (by decide +kernel)) _

/-- A frame of 25.6 degrees. -/
def warm : SensorFrame where
  temperature :=
    [false, false, false, true, false, false, false, false, false, false, false, false]
  free := List.replicate 7 false
  length_temperature := rfl
  length_free := rfl

theorem not_forall_tempOut_eq_tenths :
    ¬ ∀ (frame : SensorFrame) (timings : Fin bufferSize → ℤ) (i : ℕ) (h : i + 33 < bufferSize)
      (globals : Globals) (bus : OneWireBus), globals.capturedState = false →
      HoldsAlone timings frame.bits i h →
      (pass timings bus globals).tempOut = some ((frame.tenths : ℚ) / 10) := by
  intro hall
  have huploaded := hall warm (aloneTimings warm) 0 (by decide) powerOn ⟨false, 0, fun _ ↦ 0⟩ rfl
    (holdsAlone_aloneTimings (by decide +kernel) (by decide +kernel))
  have hrejected : (scan (aloneTimings warm) powerOn).capturedState = false := by decide +kernel
  rw [LoopPass.pass, report_tempOut, hrejected, if_neg Bool.false_ne_true] at huploaded
  exact absurd huploaded (by simp)

end Sketchbook.PulseScan.SignedTemperature
