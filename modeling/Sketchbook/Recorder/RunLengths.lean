import Mathlib.Data.BitVec
import Mathlib.Data.Nat.ModEq
import Mathlib.Logic.Function.Basic
import Mathlib.Tactic.SplitIfs
import Sketchbook.Foundation.LevelRun

/-!
# The run lengths of the RF recorder

sketch_jan20a waits for a signal and then counts, in turns, the samples above an upper threshold and
the samples below a lower one. A count ends at the first sample outside its level or at
`maxSignalLength`; the sample that ends it belongs to no run. The counts are stored in an array of
bytes, and `setup` prints the array.

`runLength` is the length of the run that an entry is about, read off the samples, and
`recording_storedData` says that the entry is this length modulo 256. The cap of sketch_jan20a is
1024, so a longer run is lost: `storesRuns_iff` says which signals are recorded faithfully and
`distinguishes_iff` which signals give different recordings. The other sketches with this loop have
caps that fit into a byte (`storesRuns_of_cap`).
-/

set_option autoImplicit false
set_option relaxedAutoImplicit false

namespace Sketchbook.Recorder.RunLengths

open Foundation.LevelRun

/-! ### The sketch -/

/-- The constants in which the recording sketches differ. -/
structure RunRecorder where
  dataSize : ℕ
  maxSignalLength : ℕ

def sketchJan20a : RunRecorder := ⟨500, 1024⟩

/-- The recording loop of sketch_jan20c, where it is part of `loop`. -/
def sketchJan20c : RunRecorder := ⟨1500, 250⟩

def sketchJan27a : RunRecorder := ⟨1600, 255⟩

def upperThreshold : ℕ := 100

def lowerThreshold : ℕ := 80

/-- The values of `analogRead`, in order, of a signal that ends the waiting of `setup`. -/
structure Signal where
  sample : ℕ → ℕ
  starts : ∃ n, ¬ sample n < 1

/-- The loop `while (analogRead(rfReceivePin) < 1)`: the index of the sample that ends it. -/
def awaitSignal (signal : Signal) : ℕ := Nat.find signal.starts

/-- A counting loop, from the next sample to be read on: the count and what is next then. -/
def measure (recorder : RunRecorder) (signal : Signal) (test : ℕ → Bool) (dataCounter next : ℕ) :
    ℕ × ℕ :=
  if test (signal.sample next) = true ∧ dataCounter < recorder.maxSignalLength then
    measure recorder signal test (dataCounter + 1) (next + 1)
  else (dataCounter, next + 1)
termination_by recorder.maxSignalLength - dataCounter

/-- The array, as memory from its first cell on, and the index of the next sample. -/
structure RecorderState where
  storedData : ℕ → BitVec 8
  next : ℕ

/-- A turn of the recording loop. -/
def recordPair (recorder : RunRecorder) (signal : Signal) (i : ℕ) (s : RecorderState) :
    RecorderState :=
  let low := measure recorder signal (fun sample ↦ decide (sample > upperThreshold)) 0 s.next
  let storedData := Function.update s.storedData i (BitVec.ofNat 8 low.1)
  let high := measure recorder signal (fun sample ↦ decide (sample < lowerThreshold)) 0 low.2
  ⟨Function.update storedData (i + 1) (BitVec.ofNat 8 high.1), high.2⟩

/-- The loop `for (int i = 0; i < dataSize; i = i + 2)`. -/
def recordFrom (recorder : RunRecorder) (signal : Signal) (i : ℕ) (s : RecorderState) :
    RecorderState :=
  if i < recorder.dataSize then recordFrom recorder signal (i + 2) (recordPair recorder signal i s)
  else s
termination_by recorder.dataSize - i

/-- The state behind the recording loop. -/
def recording (recorder : RunRecorder) (signal : Signal) : RecorderState :=
  recordFrom recorder signal 0 ⟨fun _ ↦ 0, awaitSignal signal + 1⟩

/-- What `setup` prints: the duration, and a line for each pair of entries. -/
structure Report where
  signalDuration : BitVec 32
  rows : List (BitVec 8 × BitVec 8)

/-- `startTime`, with the value of `micros()` behind each sample: 0 unless there was a wait. -/
def startTime (micros : ℕ → BitVec 32) (signal : Signal) : BitVec 32 :=
  if awaitSignal signal = 0 then 0 else micros (awaitSignal signal - 1)

/-- `setup`. -/
def setup (recorder : RunRecorder) (micros : ℕ → BitVec 32) (signal : Signal) : Report :=
  let s := recording recorder signal
  ⟨micros (s.next - 1) - startTime micros signal,
    (List.range ((recorder.dataSize + 1) / 2)).map fun k ↦
      (s.storedData (2 * k), s.storedData (2 * k + 1))⟩

/-! ### The runs of a signal -/

/-- The level that the samples of an entry have: above the upper threshold for even entries, below
the lower one for odd ones. -/
def level (entry sample : ℕ) : Bool :=
  if entry % 2 = 0 then decide (sample > upperThreshold) else decide (sample < lowerThreshold)

/-- The first sample that an entry is about: the one behind the sample that ended the run before
it. -/
def runStart (recorder : RunRecorder) (signal : Signal) : ℕ → ℕ
  | 0 => awaitSignal signal + 1
  | entry + 1 =>
    runStart recorder signal entry +
      runFrom (fun n ↦ level entry (signal.sample n)) (runStart recorder signal entry)
        recorder.maxSignalLength + 1

/-- The number of consecutive samples with the level of an entry, capped at `maxSignalLength`. -/
def runLength (recorder : RunRecorder) (signal : Signal) (entry : ℕ) : ℕ :=
  runFrom (fun n ↦ level entry (signal.sample n)) (runStart recorder signal entry)
    recorder.maxSignalLength

variable {recorder : RunRecorder} {signal : Signal}

theorem runLength_le (recorder : RunRecorder) (signal : Signal) (entry : ℕ) :
    runLength recorder signal entry ≤ recorder.maxSignalLength := runFrom_le _ _ _

theorem runStart_succ (recorder : RunRecorder) (signal : Signal) (entry : ℕ) :
    runStart recorder signal (entry + 1) =
      runStart recorder signal entry + runLength recorder signal entry + 1 := rfl

/-! ### The recording loop -/

/-- A counting loop adds the run that begins at the next sample, as far as the cap allows, and reads
one sample more. -/
theorem measure_eq {test holds : ℕ → Bool} (htest : ∀ n, test (signal.sample n) = holds n)
    (dataCounter next : ℕ) :
    measure recorder signal test dataCounter next =
      (dataCounter + runFrom holds next (recorder.maxSignalLength - dataCounter),
        next + runFrom holds next (recorder.maxSignalLength - dataCounter) + 1) := by
  fun_induction measure recorder signal test dataCounter next with
  | case1 dataCounter next h ih =>
    have hholds : holds next = true := (htest next).symm.trans h.1
    have hlimit : recorder.maxSignalLength - dataCounter =
        recorder.maxSignalLength - (dataCounter + 1) + 1 := by omega
    rw [ih, hlimit, runFrom_succ hholds]
    ext <;> dsimp only <;> omega
  | case2 dataCounter next h =>
    have hnone : runFrom holds next (recorder.maxSignalLength - dataCounter) = 0 := by
      cases hholds : holds next with
      | false => exact runFrom_of_not_level hholds
      | true =>
        have hfull : ¬ dataCounter < recorder.maxSignalLength :=
          fun hlt ↦ h ⟨(htest next).trans hholds, hlt⟩
        rw [Nat.sub_eq_zero_of_le (Nat.le_of_not_lt hfull)]
        exact Nat.eq_zero_of_le_zero (runFrom_le _ _ _)
    rw [hnone]
    rfl

/-- When these entries are stored, they are their run lengths modulo 256, and the samples of their
runs have been read. -/
structure Recorded (recorder : RunRecorder) (signal : Signal) (entries : ℕ) (s : RecorderState) :
    Prop where
  next_eq : s.next = runStart recorder signal entries
  storedData_eq : ∀ entry < entries,
    s.storedData entry = BitVec.ofNat 8 (runLength recorder signal entry)

variable {s : RecorderState} {i : ℕ}

theorem recorded_start (recorder : RunRecorder) (signal : Signal) :
    Recorded recorder signal 0 ⟨fun _ ↦ 0, awaitSignal signal + 1⟩ :=
  ⟨rfl, fun entry hentry ↦ absurd hentry (Nat.not_lt_zero entry)⟩

/-- A counting loop that begins where the run of an entry does counts that run. -/
theorem measure_runStart {test : ℕ → Bool} (htest : ∀ sample, test sample = level i sample) :
    measure recorder signal test 0 (runStart recorder signal i) =
      (runLength recorder signal i, runStart recorder signal (i + 1)) := by
  rw [measure_eq fun n ↦ htest (signal.sample n), Nat.zero_add, Nat.sub_zero, runStart_succ]
  rfl

/-- A turn of the recording loop stores the next two entries. -/
theorem Recorded.pair (h : Recorded recorder signal i s) (heven : i % 2 = 0) :
    Recorded recorder signal (i + 2) (recordPair recorder signal i s) := by
  have hlow (sample : ℕ) : decide (sample > upperThreshold) = level i sample := by
    rw [level, if_pos heven]
  have hhigh (sample : ℕ) : decide (sample < lowerThreshold) = level (i + 1) sample := by
    rw [level, if_neg (by omega)]
  have hstate : recordPair recorder signal i s =
      ⟨Function.update (Function.update s.storedData i
          (BitVec.ofNat 8 (runLength recorder signal i))) (i + 1)
          (BitVec.ofNat 8 (runLength recorder signal (i + 1))),
        runStart recorder signal (i + 2)⟩ := by
    rw [recordPair, h.next_eq, measure_runStart hlow]
    dsimp only
    rw [measure_runStart hhigh]
  rw [hstate]
  refine ⟨rfl, fun entry hentry ↦ ?_⟩
  dsimp only
  rcases Nat.lt_trichotomy entry i with hlt | rfl | hgt
  · rw [Function.update_of_ne (by omega), Function.update_of_ne (by omega)]
    exact h.storedData_eq entry hlt
  · rw [Function.update_of_ne (by omega), Function.update_self]
  · obtain rfl : entry = i + 1 := by omega
    rw [Function.update_self]

theorem Recorded.recordFrom (h : Recorded recorder signal i s) (heven : i % 2 = 0) {entry : ℕ}
    (hentry : entry < recorder.dataSize) :
    (recordFrom recorder signal i s).storedData entry =
      BitVec.ofNat 8 (runLength recorder signal entry) := by
  fun_induction RunLengths.recordFrom recorder signal i s with
  | case1 i s hlt ih => exact ih (h.pair heven) (by omega)
  | case2 i s hge => exact h.storedData_eq entry (by omega)

/-- An entry of the array is the length of its run modulo 256. -/
theorem recording_storedData (recorder : RunRecorder) (signal : Signal) {entry : ℕ}
    (hentry : entry < recorder.dataSize) :
    (recording recorder signal).storedData entry =
      BitVec.ofNat 8 (runLength recorder signal entry) :=
  (recorded_start recorder signal).recordFrom rfl hentry

/-- An array of an even size is not written past its end. -/
theorem recordFrom_behind (hsize : recorder.dataSize % 2 = 0) (heven : i % 2 = 0) {entry : ℕ}
    (hentry : recorder.dataSize ≤ entry) :
    (recordFrom recorder signal i s).storedData entry = s.storedData entry := by
  fun_induction RunLengths.recordFrom recorder signal i s with
  | case1 i s hlt ih =>
    rw [ih (by omega), recordPair]
    dsimp only
    rw [Function.update_of_ne (by omega), Function.update_of_ne (by omega)]
  | case2 i s hge => rfl

/-- `setup` prints the run lengths modulo 256, two in a line. -/
theorem setup_rows (hsize : recorder.dataSize % 2 = 0) (micros : ℕ → BitVec 32) :
    (setup recorder micros signal).rows = (List.range (recorder.dataSize / 2)).map fun k ↦
      (BitVec.ofNat 8 (runLength recorder signal (2 * k)),
        BitVec.ofNat 8 (runLength recorder signal (2 * k + 1))) := by
  have hturns : (recorder.dataSize + 1) / 2 = recorder.dataSize / 2 := by omega
  rw [setup, hturns]
  refine List.map_congr_left fun k hk ↦ ?_
  have hk := List.mem_range.mp hk
  rw [recording_storedData _ _ (by omega), recording_storedData _ _ (by omega)]

/-! ### Lengths that fit into a byte -/

/-- Every entry of the array is the length of its run. -/
def StoresRuns (recorder : RunRecorder) (signal : Signal) : Prop :=
  ∀ entry < recorder.dataSize,
    ((recording recorder signal).storedData entry).toNat = runLength recorder signal entry

/-- Signals with different run lengths give different recordings. -/
def Distinguishes (recorder : RunRecorder) (first second : Signal) : Prop :=
  (∃ entry < recorder.dataSize,
      runLength recorder first entry ≠ runLength recorder second entry) →
    ∃ entry < recorder.dataSize,
      (recording recorder first).storedData entry ≠ (recording recorder second).storedData entry

theorem storesRuns_iff (recorder : RunRecorder) (signal : Signal) :
    StoresRuns recorder signal ↔
      ∀ entry < recorder.dataSize, runLength recorder signal entry < 256 := by
  refine forall₂_congr fun entry hentry ↦ ?_
  rw [recording_storedData _ _ hentry, BitVec.toNat_ofNat]
  exact Nat.mod_eq_iff_lt (by decide)

theorem storedData_eq_iff {first second : Signal} {entry : ℕ} (hentry : entry < recorder.dataSize) :
    (recording recorder first).storedData entry = (recording recorder second).storedData entry ↔
      runLength recorder first entry ≡ runLength recorder second entry [MOD 256] := by
  rw [recording_storedData _ _ hentry, recording_storedData _ _ hentry, ← BitVec.toNat_inj,
    BitVec.toNat_ofNat, BitVec.toNat_ofNat]
  rfl

theorem distinguishes_iff (recorder : RunRecorder) (first second : Signal) :
    Distinguishes recorder first second ↔
      ((∀ entry < recorder.dataSize,
          runLength recorder first entry ≡ runLength recorder second entry [MOD 256]) →
        ∀ entry < recorder.dataSize,
          runLength recorder first entry = runLength recorder second entry) := by
  have hsame : (∀ entry < recorder.dataSize, (recording recorder first).storedData entry =
      (recording recorder second).storedData entry) ↔ ∀ entry < recorder.dataSize,
        runLength recorder first entry ≡ runLength recorder second entry [MOD 256] :=
    forall₂_congr fun entry hentry ↦ storedData_eq_iff hentry
  rw [← hsame, ← not_imp_not, Distinguishes]
  simp only [not_forall, exists_prop]

/-- A recorder whose cap fits into a byte stores every run. -/
theorem storesRuns_of_cap (hcap : recorder.maxSignalLength < 256) (signal : Signal) :
    StoresRuns recorder signal :=
  (storesRuns_iff recorder signal).mpr fun entry _ ↦
    Nat.lt_of_le_of_lt (runLength_le recorder signal entry) hcap

/-- The recorders whose caps were chosen for a byte store every run. -/
theorem siblings_storeRuns (signal : Signal) :
    StoresRuns sketchJan20c signal ∧ StoresRuns sketchJan27a signal :=
  ⟨storesRuns_of_cap (by decide) signal, storesRuns_of_cap (by decide) signal⟩

/-- sketch_jan20a stores the runs of a signal exactly when all of them are shorter than 256 samples,
and tells two signals apart unless their run lengths differ by multiples of 256 only. -/
theorem recordsRuns_iff (first second : Signal) :
    (StoresRuns sketchJan20a first ↔ ∀ entry < 500, runLength sketchJan20a first entry < 256) ∧
      (Distinguishes sketchJan20a first second ↔
        ((∀ entry < 500, runLength sketchJan20a first entry ≡
            runLength sketchJan20a second entry [MOD 256]) →
          ∀ entry < 500, runLength sketchJan20a first entry =
            runLength sketchJan20a second entry)) :=
  ⟨storesRuns_iff sketchJan20a first, distinguishes_iff sketchJan20a first second⟩

/-! ### A run of 256 samples -/

theorem runLength_of_not_level {entry : ℕ}
    (h : level entry (signal.sample (runStart recorder signal entry)) = false) :
    runLength recorder signal entry = 0 := runFrom_of_not_level h

/-- A signal that stays between the thresholds. -/
def betweenThresholds : Signal := ⟨fun _ ↦ 90, 0, by decide⟩

/-- A signal that stays between the thresholds behind 256 samples above them. -/
def longRun : Signal := ⟨fun n ↦ if n < 257 then 200 else 90, 0, by decide⟩

theorem level_between (entry : ℕ) : level entry 90 = false := by
  unfold level
  split_ifs <;> rfl

theorem runLength_betweenThresholds (entry : ℕ) :
    runLength sketchJan20a betweenThresholds entry = 0 :=
  runLength_of_not_level (level_between entry)

theorem runStart_longRun : runStart sketchJan20a longRun 0 = 1 := by
  have hfirst : awaitSignal longRun = 0 := (Nat.find_eq_zero _).mpr (by decide)
  rw [runStart, hfirst]

theorem runLength_longRun_zero : runLength sketchJan20a longRun 0 = 256 := by
  rw [runLength, runStart_longRun]
  refine runFrom_eq (fun k hk ↦ ?_) (by decide) fun _ ↦ rfl
  have hsample : longRun.sample (1 + k) = 200 := if_pos (by omega)
  rw [hsample]
  rfl

theorem runLength_longRun_succ (entry : ℕ) :
    runLength sketchJan20a longRun (entry + 1) = 0 := by
  have hstart : 257 < runStart sketchJan20a longRun (entry + 1) := by
    induction entry with
    | zero =>
      rw [runStart_succ, runStart_longRun, runLength_longRun_zero]
      omega
    | succ entry ih =>
      rw [runStart_succ]
      omega
  have hsample (n : ℕ) (hn : 257 < n) : longRun.sample n = 90 := if_neg (Nat.lt_asymm hn)
  refine runLength_of_not_level ?_
  rw [hsample _ hstart]
  exact level_between _

/-- The long run and none at all agree modulo 256. -/
theorem runLength_longRun_modEq (entry : ℕ) :
    runLength sketchJan20a longRun entry ≡
      runLength sketchJan20a betweenThresholds entry [MOD 256] := by
  rw [runLength_betweenThresholds]
  cases entry with
  | zero => rw [runLength_longRun_zero]; rfl
  | succ entry => rw [runLength_longRun_succ]

theorem recordsRuns_iff_longRun :
    StoresRuns sketchJan20a betweenThresholds ∧ ¬ StoresRuns sketchJan20a longRun ∧
      ¬ Distinguishes sketchJan20a longRun betweenThresholds := by
  obtain ⟨hstores, hdistinguishes⟩ := recordsRuns_iff longRun betweenThresholds
  refine ⟨?_, fun hlong ↦ ?_, fun hapart ↦ ?_⟩
  · refine (recordsRuns_iff betweenThresholds longRun).1.mpr fun entry _ ↦ ?_
    rw [runLength_betweenThresholds]
    decide
  · have hlt := hstores.mp hlong 0 (by decide)
    rw [runLength_longRun_zero] at hlt
    exact absurd hlt (by decide)
  · have hsame := hdistinguishes.mp hapart (fun entry _ ↦ runLength_longRun_modEq entry) 0
      (by decide)
    rw [runLength_longRun_zero, runLength_betweenThresholds] at hsame
    exact absurd hsame (by decide)

/-- A run of 256 samples is stored as 0, like one without a sample. -/
theorem not_forall_recordsRuns :
    (¬ ∀ signal, StoresRuns sketchJan20a signal) ∧
      ¬ ∀ first second, Distinguishes sketchJan20a first second := by
  constructor
  · intro hstores
    have hlt := (storesRuns_iff _ _).mp (hstores longRun) 0 (by decide)
    rw [runLength_longRun_zero] at hlt
    exact absurd hlt (by decide)
  · intro hdistinguishes
    have hsame := (distinguishes_iff _ _ _).mp (hdistinguishes longRun betweenThresholds)
      (fun entry _ ↦ runLength_longRun_modEq entry) 0 (by decide)
    rw [runLength_longRun_zero, runLength_betweenThresholds] at hsame
    exact absurd hsame (by decide)

end Sketchbook.Recorder.RunLengths
