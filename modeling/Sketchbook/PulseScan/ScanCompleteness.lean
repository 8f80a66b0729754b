import Sketchbook.PulseScan.CorruptedPulse
import Sketchbook.PulseScan.LoopPass
import Sketchbook.PulseScan.ScanMemory

/-!
# The scan of sketch_feb03a finds a frame that is there

A scan stops at the first window that passes the checks. Windows that open before a frame can fail
the checks, and they change `bitreceived`, but they do not hide the frame: its first character
comes from a pulse in the window of a bit, so its text does not depend on what `bitreceived` was.
`frame_captured` says that a frame anywhere in the buffer makes the scan end with a capture, that
the temperature is the one of the first window that passes, and that the scan never leaves the
array.
-/

set_option autoImplicit false
set_option relaxedAutoImplicit false

namespace Sketchbook.PulseScan.ScanCompleteness

open Arduino.Text Foundation.BitWord Sensor.BinaryReading Sensor.PulseClassifier
open FrameScan ScanAcceptance CorruptedPulse
  LoopPass ScanMemory

/-- A frame passes whatever the earlier windows have carried along. -/
theorem passes_of_holdsFrame {timings : Fin bufferSize → ℤ} {i : Fin bufferSize}
    {h : i + 33 < bufferSize} {word : FrameWord} (hframe : HoldsFrame timings i h word)
    (bitreceived : Char) : Passes timings bitreceived i := by
  have hfree : { powerOn with bitreceived := bitreceived }.capturedState = false := rfl
  exact (scanBody_capturedState_iff_passes hfree).mp (hframe.reading hfree).1

/-- The scan over memory takes the first window that passes: it builds its last String from the text
of that window and `temp_out` from characters 16 to 23 of it. -/
theorem run_of_firstPass {timings : ℕ → ℤ} {memory : Memory} (hfree : memory.capturedState = false)
    {first : ℕ} (hfirst : FirstPass (array timings) memory.bitreceived first)
    (hfits : first + 33 < bufferSize) :
    (run timings memory.start).memory.capturedState = true ∧
      (run timings memory.start).built.getLast? = some (lengths.capture
        (carried (array timings) memory.bitreceived first) (window (array timings) first hfits)) ∧
      (run timings memory.start).memory.tempOut = substring (lengths.capture
        (carried (array timings) memory.bitreceived first)
          (window (array timings) first hfits)) 16 24 := by
  obtain ⟨_, hsync, haccepts⟩ := hfirst.passes
  have hi : first < bufferSize := by omega
  have hstart : memory.globals.capturedState = false := hfree
  obtain ⟨hstate, hcarried⟩ := reach_of_not_passes (array timings) hstart (Nat.le_of_lt hi)
    hfirst.first
  have hreach : (runTo timings memory.start first).memory.globals =
      reach (array timings) memory.globals first :=
    runTo_globals timings memory.start (Nat.le_of_lt hi)
  have hbefore : (runTo timings memory.start first).memory.capturedState = false :=
    (congrArg Globals.capturedState hreach).trans hstate
  have hchar : (runTo timings memory.start first).memory.bitreceived =
      carried (array timings) memory.bitreceived first :=
    (congrArg Globals.bitreceived hreach).trans hcarried
  obtain ⟨hglobals, -, -, hbuilt⟩ := turn_of_opens hbefore hsync hfits
  rw [← runTo_succ, hreach] at hglobals
  rw [← runTo_succ, hchar] at hbuilt
  have hcaptured : (runTo timings memory.start (first + 1)).memory.capturedState = true :=
    (congrArg Globals.capturedState hglobals).trans (hfirst.acceptedAt hfree hi).2
  have hend : run timings memory.start = runTo timings memory.start (first + 1) :=
    runTo_of_captured (Nat.succ_le_of_lt hi) hcaptured
  have hreading := scanBody_tempOut (i := ⟨first, hi⟩) hsync hfits (hcarried.symm ▸ haccepts)
  rw [hcarried] at hreading
  rw [hend]
  refine ⟨hcaptured, ?_, (congrArg Globals.tempOut hglobals).trans hreading⟩
  rw [hbuilt, List.getLast?_concat]

/-- If `captured_state` is false and the pulses of a frame stand at some index, the scan ends with
`captured_state` set and with the temperature characters of the first window that is accepted, and
reads no element outside of the array. -/
theorem frame_captured {timings : ℕ → ℤ} {memory : Memory} (hfree : memory.capturedState = false)
    {i : Fin bufferSize} {h : i + 33 < bufferSize} {word : FrameWord}
    (hframe : HoldsFrame (array timings) i h word) :
    (run timings memory.start).memory.capturedState = true ∧
      (∃ first ≤ (i : ℕ), ∃ hfits : first + 33 < bufferSize,
        FirstPass (array timings) memory.bitreceived first ∧
          (run timings memory.start).built.getLast? = some (lengths.capture
            (carried (array timings) memory.bitreceived first)
              (window (array timings) first hfits)) ∧
          (run timings memory.start).memory.tempOut = substring (lengths.capture
            (carried (array timings) memory.bitreceived first)
              (window (array timings) first hfits)) 16 24) ∧
      ∀ index ∈ (run timings memory.start).reads, index < bufferSize := by
  have hpasses := passes_of_holdsFrame hframe (carried (array timings) memory.bitreceived i)
  obtain ⟨first, hfirst⟩ := exists_firstPass ⟨(i : ℕ), hpasses⟩
  have hle : first ≤ i := by
    by_contra hgt
    exact hfirst.first i (Nat.lt_of_not_le hgt) hpasses
  obtain ⟨hfits, -⟩ := hfirst.passes
  obtain ⟨hset, hbuilt, htempOut⟩ := run_of_firstPass hfree hfirst hfits
  exact ⟨hset, ⟨first, hle, hfits, hfirst, hbuilt, htempOut⟩, run_reads timings memory⟩

/-- The frame of 10 degrees behind a sync and a zero, in a memory of zeros. -/
def lateFrame (index : ℕ) : ℤ :=
  ([syncLength, bit0Length] ++ nominalFrame tenDegrees.bits ++ [syncLength]).getD index 0

/-- The scan captures the late frame, also when `bitreceived` is a `1` at its start. -/
theorem frame_captured_lateFrame :
    (run lateFrame (Memory.start ⟨'1', fun _ ↦ nul, false, [], []⟩)).memory.capturedState =
      true := by
  have hframe : HoldsFrame (array lateFrame) ⟨2, by decide⟩ (by decide) tenDegrees :=
    { sync := by decide
      spells := by
        have hpulses : bitPulses (array lateFrame) 2 (by decide) =
            tenDegrees.bits.map lengths.bitLength := by decide
        rw [hpulses]
        exact spells_map_bitLength _
      closing := by decide }
  exact (frame_captured rfl hframe).1

end Sketchbook.PulseScan.ScanCompleteness
