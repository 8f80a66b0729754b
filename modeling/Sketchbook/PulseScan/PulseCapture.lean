import Mathlib.Logic.Function.Basic
import Sketchbook.Foundation.LevelRun
import Sketchbook.PulseScan.LoopPass

/-!
# The capture loop of sketch_feb03a

`loop` fills its buffer by polling: it waits for the pin to be HIGH, counts the samples while it is
LOW, stores the count when it lies inside a gate, and waits until the pin is LOW again. When 155
counts are stored it scans them, and `loop` starts over with `pinstate` as the capture left it,
except that an accepted frame sets it to 1.

Every sample of the pin is one step (`step`): `phase` is the inner loop that polls, and a step
executes the source from one `digitalRead` to the next. `counter` and `timings` are 16 bits wide, as
an `int` of the AVR board is. `stateAt` is the state behind a number of samples, for any infinite
sequence of them; the step that completes a buffer also takes the answers of the one-wire bus.
-/

set_option autoImplicit false
set_option relaxedAutoImplicit false

namespace Sketchbook.PulseScan.PulseCapture

open FrameScan ScanAcceptance LoopPass Foundation.LevelRun

/-- The loops that poll the pin, in the order of the source. -/
inductive Phase
  | awaitHigh
  | countLow
  | awaitLow
deriving DecidableEq

/-- What a `digitalRead` answers, and what the bus answers if the pass ends with it. -/
structure PinRead where
  high : Bool
  bus : OneWireBus

/-- `loop` at a `digitalRead`. -/
structure CaptureState where
  phase : Phase
  counter : BitVec 16
  i : ℕ
  timings : Fin bufferSize → BitVec 16
  globals : Globals

/-- The comparison `counter > BIT0_LENGTH - DEVIATION / 2 && counter < SYNC + DEVIATION / 2`. -/
def gate (counter : BitVec 16) : Prop :=
  bit0Length - deviation / 2 < counter.toInt ∧ counter.toInt < syncLength + deviation / 2

instance (counter : BitVec 16) : Decidable (gate counter) := inferInstanceAs (Decidable (_ ∧ _))

/-- The statements behind the loop that counts: the gate, and `counter = 0`. The outer loop runs
them with `i < buffer_size` only. -/
def endLow (s : CaptureState) : CaptureState :=
  if h : gate s.counter ∧ s.i < bufferSize then
    { s with
      phase := .awaitLow
      counter := 0
      i := s.i + 1
      timings := Function.update s.timings ⟨s.i, h.2⟩ s.counter }
  else { s with phase := .awaitLow, counter := 0 }

/-- The beginning of `loop`, up to its first `digitalRead`. -/
def beginPass (pinstate : Bool) (s : CaptureState) : CaptureState :=
  let s := { s with i := 0, counter := 0 }
  if pinstate then endLow s else { s with phase := .awaitHigh }

/-- The timings as the scan reads them. -/
def captured (s : CaptureState) (k : Fin bufferSize) : ℤ := (s.timings k).toInt

/-- The end of `loop`, when the pin is LOW behind the last count, and the beginning of the next. -/
def endPass (bus : OneWireBus) (s : CaptureState) : CaptureState :=
  beginPass (scan (captured s) s.globals).capturedState
    { s with globals := (pass (captured s) bus s.globals).globals }

/-- The source from one `digitalRead` to the next. -/
def step (s : CaptureState) (read : PinRead) : CaptureState :=
  match s.phase with
  | .awaitHigh => if read.high then endLow s else s
  | .countLow => if read.high then endLow s else { s with counter := s.counter + 1 }
  | .awaitLow =>
    if read.high then s
    else if s.i < bufferSize then { s with phase := .countLow, counter := s.counter + 1 }
    else endPass read.bus s

/-- The first `digitalRead`: `setup` leaves 1 in `pinstate`. -/
def firstRead : CaptureState := beginPass true ⟨.awaitHigh, 0, 0, fun _ ↦ 0, powerOn⟩

/-- The state behind a number of samples. -/
def stateAt (reads : ℕ → PinRead) : ℕ → CaptureState
  | 0 => firstRead
  | n + 1 => step (stateAt reads n) (reads n)

/-! ### Single steps -/

variable {s : CaptureState} {read : PinRead}

/-- A count inside the gate is stored. -/
theorem endLow_of_gate (hgate : gate s.counter) (hroom : s.i < bufferSize) :
    endLow s = { s with
      phase := .awaitLow
      counter := 0
      i := s.i + 1
      timings := Function.update s.timings ⟨s.i, hroom⟩ s.counter } := by
  rw [endLow, dif_pos ⟨hgate, hroom⟩]

theorem endLow_of_not_gate (hgate : ¬ gate s.counter) :
    endLow s = { s with phase := .awaitLow, counter := 0 } := by
  rw [endLow, dif_neg fun h ↦ hgate h.1]

@[simp] theorem endLow_phase (s : CaptureState) : (endLow s).phase = .awaitLow := by
  unfold endLow
  split_ifs <;> rfl

@[simp] theorem endLow_counter (s : CaptureState) : (endLow s).counter = 0 := by
  unfold endLow
  split_ifs <;> rfl

theorem not_gate_zero : ¬ gate 0 := by decide

/-- A pass begins in the loop that `pinstate` selects, with nothing counted or stored. -/
theorem beginPass_eq (pinstate : Bool) (s : CaptureState) :
    beginPass pinstate s =
      { s with phase := if pinstate then .awaitLow else .awaitHigh, counter := 0, i := 0 } := by
  unfold beginPass
  cases pinstate with
  | false => rfl
  | true => exact endLow_of_not_gate (s := { s with i := 0, counter := 0 }) not_gate_zero

theorem step_countLow_low (hphase : s.phase = .countLow) (hlow : read.high = false) :
    step s read = { s with counter := s.counter + 1 } := by
  rw [step, hphase]
  simp [hlow]

theorem step_countLow_high (hphase : s.phase = .countLow) (hhigh : read.high = true) :
    step s read = endLow s := by
  rw [step, hphase]
  simp [hhigh]

theorem step_awaitLow_high (hphase : s.phase = .awaitLow) (hhigh : read.high = true) :
    step s read = s := by
  rw [step, hphase]
  simp [hhigh]

theorem step_awaitLow_low (hphase : s.phase = .awaitLow) (hlow : read.high = false)
    (hroom : s.i < bufferSize) :
    step s read = { s with phase := .countLow, counter := s.counter + 1 } := by
  rw [step, hphase]
  simp [hlow, hroom]

theorem step_awaitLow_end (hphase : s.phase = .awaitLow) (hlow : read.high = false)
    (hfull : ¬ s.i < bufferSize) : step s read = endPass read.bus s := by
  rw [step, hphase]
  simp [hlow, hfull]

theorem step_awaitHigh_high (hphase : s.phase = .awaitHigh) (hhigh : read.high = true) :
    step s read = endLow s := by
  rw [step, hphase]
  simp [hhigh]

theorem step_awaitHigh_low (hphase : s.phase = .awaitHigh) (hlow : read.high = false) :
    step s read = s := by
  rw [step, hphase]
  simp [hlow]

/-! ### LOW runs -/

/-- Each further LOW sample adds one, modulo 2 ^ 16. -/
theorem foldl_step_low (hphase : s.phase = .countLow) (hlow : read.high = false) (m : ℕ) :
    (List.replicate m read).foldl step s = { s with counter := s.counter + BitVec.ofNat 16 m } := by
  induction m generalizing s with
  | zero => simp
  | succ m ih =>
    rw [List.replicate_succ, List.foldl_cons, step_countLow_low hphase hlow,
      ih (s := { s with counter := s.counter + 1 }) hphase]
    have hsum : s.counter + 1 + BitVec.ofNat 16 m = s.counter + BitVec.ofNat 16 (m + 1) := by
      rw [BitVec.add_assoc, BitVec.add_comm 1, BitVec.ofNat_add]
      rfl
    simp only [hsum]

/-- A whole LOW run is counted modulo 2 ^ 16. -/
theorem foldl_step_lowRun (hphase : s.phase = .awaitLow) (hcounter : s.counter = 0)
    (hroom : s.i < bufferSize) (hlow : read.high = false) {length : ℕ} (hpos : 0 < length) :
    (List.replicate length read).foldl step s =
      { s with phase := .countLow, counter := BitVec.ofNat 16 length } := by
  obtain ⟨m, rfl⟩ := Nat.exists_eq_succ_of_ne_zero (Nat.ne_of_gt hpos)
  rw [List.replicate_succ, List.foldl_cons, step_awaitLow_low hphase hlow hroom,
    foldl_step_low (s := { s with phase := .countLow, counter := s.counter + 1 }) rfl hlow]
  have hsum : s.counter + 1 + BitVec.ofNat 16 m = BitVec.ofNat 16 (m + 1) := by
    rw [hcounter, BitVec.ofNat_add, BitVec.add_comm (BitVec.ofNat 16 m)]
    rfl
  simp only [hsum]

/-- The state behind a number of equal samples. -/
theorem stateAt_add {reads : ℕ → PinRead} {n m : ℕ} (h : ∀ k < m, reads (n + k) = read) :
    stateAt reads (n + m) = (List.replicate m read).foldl step (stateAt reads n) := by
  induction m with
  | zero => rfl
  | succ m ih =>
    rw [List.replicate_succ', List.foldl_append, ← ih fun k hk ↦ h k (Nat.lt_succ_of_lt hk),
      ← Nat.add_assoc, stateAt, h m (Nat.lt_succ_self m)]
    rfl

end Sketchbook.PulseScan.PulseCapture
