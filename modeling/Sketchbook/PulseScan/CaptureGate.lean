import Sketchbook.PulseScan.PulseCapture

/-!
# The gate of the capture loop and the windows of the classifier

The capture loop of sketch_feb03a stores a LOW run when its length is more than
`BIT0_LENGTH - DEVIATION / 2` and less than `SYNC + DEVIATION / 2`. The scan reads a length as a
zero, a one or a sync when it is closer to the nominal length than `DEVIATION`, twice as wide. A
length between the two bounds is readable, and yet the gate drops it (`Dropped`).

`lossless_iff` says that over any sequence of LOW runs the gate drops no readable run exactly when
none of the runs has such a length.
-/

set_option autoImplicit false
set_option relaxedAutoImplicit false

namespace Sketchbook.PulseScan.CaptureGate

open FrameScan ScanAcceptance LoopPass PulseCapture Sensor.PulseClassifier

/-! ### Runs and what is stored of them -/

/-- A LOW run of the pin and the HIGH samples behind it. -/
structure PinRun where
  low : ℕ
  high : ℕ
  low_pos : 0 < low
  high_pos : 0 < high

/-- The samples of a run. -/
def samples (bus : OneWireBus) (run : PinRun) : List PinRead :=
  List.replicate run.low ⟨false, bus⟩ ++ List.replicate run.high ⟨true, bus⟩

/-- The capture loop over a sequence of runs. -/
def captureRuns (bus : OneWireBus) (s : CaptureState) (runs : List PinRun) : CaptureState :=
  (runs.flatMap (samples bus)).foldl step s

/-- The values stored so far in a pass. -/
def stored (s : CaptureState) : List (BitVec 16) := (List.ofFn s.timings).take s.i

/-- The counter behind a run. -/
def counted (run : PinRun) : BitVec 16 := BitVec.ofNat 16 run.low

/-- The loop waits for the next LOW run. -/
structure Waiting (s : CaptureState) : Prop where
  phase : s.phase = .awaitLow
  counter : s.counter = 0

variable {bus : OneWireBus} {s : CaptureState}

theorem endLow_i (hroom : s.i < bufferSize) :
    (endLow s).i = s.i + if gate s.counter then 1 else 0 := by
  split_ifs with hgate
  · rw [endLow_of_gate hgate hroom]
  · rw [endLow_of_not_gate hgate]
    rfl

/-- The end of a LOW run appends its count exactly if that passes the gate. -/
theorem stored_endLow (hroom : s.i < bufferSize) :
    stored (endLow s) = stored s ++ if gate s.counter then [s.counter] else [] := by
  split_ifs with hgate
  · have hlength :
        s.i < (List.ofFn (Function.update s.timings ⟨s.i, hroom⟩ s.counter)).length := by
      rwa [List.length_ofFn]
    have hkept : (List.ofFn (Function.update s.timings ⟨s.i, hroom⟩ s.counter)).take s.i =
        (List.ofFn s.timings).take s.i := by
      apply List.ext_getElem
      · simp
      · intro k hleft hright
        rw [List.length_take] at hright
        rw [List.getElem_take, List.getElem_take, List.getElem_ofFn, List.getElem_ofFn,
          Function.update_of_ne]
        intro heq
        have hk := congrArg Fin.val heq
        simp only at hk
        omega
    rw [endLow_of_gate hgate hroom, stored, List.take_succ_eq_append_getElem hlength,
      List.getElem_ofFn, Function.update_self, hkept]
    rfl
  · rw [endLow_of_not_gate hgate, List.append_nil]
    rfl

theorem foldl_step_high {read : PinRead} (hphase : s.phase = .awaitLow) (hhigh : read.high = true)
    (m : ℕ) : (List.replicate m read).foldl step s = s := by
  induction m with
  | zero => rfl
  | succ m ih => rw [List.replicate_succ, List.foldl_cons, step_awaitLow_high hphase hhigh, ih]

/-- The capture loop over one run. -/
theorem captureRuns_singleton (h : Waiting s) (hroom : s.i < bufferSize) (run : PinRun) :
    captureRuns bus s [run] = endLow { s with phase := .countLow, counter := counted run } := by
  obtain ⟨m, hm⟩ := Nat.exists_eq_succ_of_ne_zero (Nat.ne_of_gt run.high_pos)
  rw [captureRuns, List.flatMap_singleton, samples, List.foldl_append,
    foldl_step_lowRun h.phase h.counter hroom rfl run.low_pos, hm, List.replicate_succ,
    List.foldl_cons, step_countLow_high rfl rfl, foldl_step_high (endLow_phase _) rfl]
  rfl

theorem captureRuns_append (first second : List PinRun) :
    captureRuns bus s (first ++ second) = captureRuns bus (captureRuns bus s first) second := by
  rw [captureRuns, List.flatMap_append, List.foldl_append]
  rfl

/-- Behind a run the loop waits again, and the run is stored exactly if it passes the gate. -/
theorem captureRuns_one (bus : OneWireBus) (h : Waiting s) (hroom : s.i < bufferSize)
    (run : PinRun) :
    Waiting (captureRuns bus s [run]) ∧
      (captureRuns bus s [run]).i = s.i + (if gate (counted run) then 1 else 0) ∧
      stored (captureRuns bus s [run]) =
        stored s ++ (if gate (counted run) then [counted run] else []) := by
  rw [captureRuns_singleton h hroom]
  have hcounting : ({ s with phase := .countLow, counter := counted run } : CaptureState).i <
    bufferSize := hroom
  exact ⟨⟨endLow_phase _, endLow_counter _⟩, endLow_i hcounting, stored_endLow hcounting⟩

/-- How many of the runs the gate lets through. -/
def gated (runs : List PinRun) : ℕ := runs.countP fun run ↦ gate (counted run)

/-- While the buffer has room the loop waits behind every sequence of runs. -/
theorem captureRuns_waiting (bus : OneWireBus) (h : Waiting s) (runs : List PinRun)
    (hroom : s.i + gated runs < bufferSize) :
    Waiting (captureRuns bus s runs) ∧ (captureRuns bus s runs).i = s.i + gated runs := by
  induction runs generalizing s with
  | nil => exact ⟨h, rfl⟩
  | cons run rest ih =>
    have hcount : gated (run :: rest) = (if gate (counted run) then 1 else 0) + gated rest := by
      rw [gated, List.countP_cons, Nat.add_comm]
      simp [gated]
    obtain ⟨hwaiting, hi, -⟩ := captureRuns_one bus h (by omega) run
    obtain ⟨hlast, hlastI⟩ := ih hwaiting (by omega)
    have hsplit : captureRuns bus s (run :: rest) =
        captureRuns bus (captureRuns bus s [run]) rest := captureRuns_append [run] rest
    rw [hsplit]
    exact ⟨hlast, by omega⟩

/-! ### Which runs are lost -/

/-- The scan reads the length as a bit or as a sync. -/
def Readable (length : ℤ) : Prop :=
  lengths.within bit0Length length ∨ lengths.within bit1Length length ∨
    lengths.within syncLength length

/-- A length the scan can read and the gate drops: at the short end of a zero or at the long end of
a sync. -/
def Dropped (length : ℤ) : Prop :=
  (bit0Length - deviation < length ∧ length ≤ bit0Length - deviation / 2) ∨
    (syncLength + deviation / 2 ≤ length ∧ length < syncLength + deviation)

/-- The run behind the others is stored, with its true length. -/
def StoresRun (bus : OneWireBus) (s : CaptureState) (before : List PinRun) (run : PinRun) : Prop :=
  ∃ value : BitVec 16, value.toInt = run.low ∧
    stored (captureRuns bus s (before ++ [run])) = stored (captureRuns bus s before) ++ [value]

/-- Every readable run is stored that begins while the buffer has room. -/
def Lossless (bus : OneWireBus) (s : CaptureState) (runs : List PinRun) : Prop :=
  ∀ before run after, runs = before ++ run :: after → s.i + gated before < bufferSize →
    Readable run.low → StoresRun bus s before run

theorem toInt_counted {run : PinRun} (h : (run.low : ℤ) < 2 ^ 15) :
    (counted run).toInt = run.low := by
  have hlt : run.low < 2 ^ 15 := by exact_mod_cast h
  rw [counted, BitVec.toInt_eq_toNat_of_lt] <;> rw [BitVec.toNat_ofNat] <;> omega

theorem Readable.lt {length : ℤ} (h : Readable length) : length < 2 ^ 15 := by
  simp only [Readable, PulseLengths.within, lengths, bit0Length, bit1Length, syncLength,
    deviation] at h
  omega

/-- The gate drops a readable length exactly when it lies between the two bounds. -/
theorem Readable.gate_iff {run : PinRun} (h : Readable run.low) :
    gate (counted run) ↔ ¬ Dropped run.low := by
  rw [gate, toInt_counted h.lt]
  simp only [Readable, Dropped, PulseLengths.within, lengths, bit0Length, bit1Length, syncLength,
    deviation] at h ⊢
  omega

theorem Dropped.readable {length : ℤ} (h : Dropped length) : Readable length := by
  simp only [Readable, Dropped, PulseLengths.within, lengths, bit0Length, bit1Length, syncLength,
    deviation] at h ⊢
  omega

/-- A readable run that begins while the buffer has room is stored exactly if the gate does not drop
its length. -/
theorem storesRun_iff (h : Waiting s) {before : List PinRun} {run : PinRun}
    (hroom : s.i + gated before < bufferSize) (hreadable : Readable run.low) :
    StoresRun bus s before run ↔ ¬ Dropped run.low := by
  obtain ⟨hwaiting, hi⟩ := captureRuns_waiting bus h before hroom
  obtain ⟨-, -, hstored⟩ := captureRuns_one bus hwaiting (by rw [hi]; exact hroom) run
  rw [← hreadable.gate_iff, StoresRun, captureRuns_append, hstored]
  constructor
  · rintro ⟨value, -, happended⟩
    by_contra hgate
    rw [if_neg hgate, List.append_nil] at happended
    exact absurd happended (by simp)
  · intro hgate
    rw [if_pos hgate]
    exact ⟨_, toInt_counted hreadable.lt, rfl⟩

/-- Over any sequence of LOW runs, every readable run that begins while the buffer has room is
stored exactly when none of these runs has a length between the bounds of the gate and those of the
scan. -/
theorem lossless_iff (bus : OneWireBus) {s : CaptureState} (h : Waiting s) (runs : List PinRun) :
    Lossless bus s runs ↔
      ∀ before run after, runs = before ++ run :: after → s.i + gated before < bufferSize →
        ¬ Dropped run.low := by
  constructor
  · intro hlossless before run after hsplit hroom hdropped
    have hstored := hlossless before run after hsplit hroom hdropped.readable
    exact (storesRun_iff h hroom hdropped.readable).mp hstored hdropped
  · intro hdropped before run after hsplit hroom hreadable
    exact (storesRun_iff h hroom hreadable).mpr (hdropped before run after hsplit hroom)

/-! ### A short zero -/

theorem waiting_firstRead : Waiting firstRead := by
  rw [firstRead, beginPass_eq, if_pos rfl]
  exact ⟨rfl, rfl⟩

/-- A run of the nominal length of a zero. -/
def nominalZero : PinRun := ⟨380, 1, by decide, by decide⟩

theorem nominalZero_lossless :
    Lossless ⟨false, 0, fun _ ↦ 0⟩ firstRead [nominalZero] ↔
      ∀ before run after, [nominalZero] = before ++ run :: after →
        firstRead.i + gated before < bufferSize → ¬ Dropped run.low :=
  lossless_iff _ waiting_firstRead _

/-- A zero 50 samples shorter than nominal. -/
def shortZero : PinRun := ⟨330, 1, by decide, by decide⟩

theorem not_forall_lossless :
    ¬ ∀ (bus : OneWireBus) (s : CaptureState) (runs : List PinRun), Waiting s →
      Lossless bus s runs := by
  intro hall
  have hdropped : Dropped shortZero.low := Or.inl (by decide)
  have hroom : firstRead.i + gated [] < bufferSize := by
    rw [firstRead, beginPass_eq]
    decide
  have hstored := hall ⟨false, 0, fun _ ↦ 0⟩ firstRead [shortZero] waiting_firstRead [] shortZero []
    rfl hroom hdropped.readable
  exact (storesRun_iff waiting_firstRead hroom hdropped.readable).mp hstored hdropped

end Sketchbook.PulseScan.CaptureGate
