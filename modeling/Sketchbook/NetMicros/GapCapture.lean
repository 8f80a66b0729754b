import Mathlib.Logic.Function.Basic
import Mathlib.Order.Monotone.Basic
import Sketchbook.Foundation.WrappedClock
import Sketchbook.NetMicros.FrameReport

/-!
# The capture loop of net_micros

net_micros polls the pin and calls each HIGH sample a change, since it compares with `oldstate`,
which stays 0. At such a sample it takes the difference to the time of the one before as a duration
and stores it when it lies between 1000 and 10200. Behind 70 durations `loop` scans them, sets
`lastTime` to 0 and starts over.

`micros` is the true time modulo 2 ^ 32, and `lastTime`, `duration` and `timings` are `int`s of 16
bits. A stored value should be the true time between two consecutive HIGH samples of one capture
(`StoresGap`). `captured_gaps` says when it is: when there was a HIGH sample before in the same
capture, less than 2 ^ 16 microseconds ago. For the first HIGH sample of a capture the duration is
the time of day modulo 2 ^ 16, and a longer gap is stored as its remainder.
-/

set_option autoImplicit false
set_option relaxedAutoImplicit false

namespace Sketchbook.NetMicros.GapCapture

open Foundation.WrappedClock
open FrameReport (length1 syncLength bit0Length deviation)

/-- A `digitalRead` of the pin, and the true time in microseconds at which `micros()` is read if the
pin is HIGH. -/
structure PinSample where
  high : Bool
  time : ℕ

/-- The samples since power on. Time does not run backwards. -/
structure Sampling where
  sample : ℕ → PinSample
  monotone : Monotone fun n ↦ (sample n).time

/-- `micros()` at a true time. -/
def micros (time : ℕ) : BitVec 32 := BitVec.ofNat 32 time

/-- The globals of the capture at a `digitalRead`. -/
structure CaptureState where
  i : ℕ
  lastTime : BitVec 16
  duration : BitVec 16
  timings : Fin length1 → BitVec 16

/-- `duration = time - lastTime`: a difference of 32 bits, cut off to an `int`. -/
def difference (time : BitVec 32) (lastTime : BitVec 16) : BitVec 16 :=
  (time - lastTime.signExtend 32).setWidth 16

/-- The comparison `duration > BIT0_LENGTH - DEVIATION && duration < SYNC + DEVIATION`. -/
def gate (duration : BitVec 16) : Prop :=
  bit0Length - deviation < duration.toInt ∧ duration.toInt < syncLength + deviation

instance (duration : BitVec 16) : Decidable (gate duration) := inferInstanceAs (Decidable (_ ∧ _))

/-- The state at the next `digitalRead`. When the buffer is full `loop` comes to its end before,
where it sets `lastTime` to 0, and to its beginning, where it sets `i` to 0; the scan between leaves
the globals of the capture alone. -/
def enter (s : CaptureState) : CaptureState :=
  if s.i < length1 then s else { s with i := 0, lastTime := 0 }

/-- A turn of `while (i < length1)`. -/
def captureBody (s : CaptureState) (sample : PinSample) : CaptureState :=
  if sample.high then
    let time := micros sample.time
    let s := { s with duration := difference time s.lastTime, lastTime := time.setWidth 16 }
    if h : gate s.duration ∧ s.i < length1 then
      { s with timings := Function.update s.timings ⟨s.i, h.2⟩ s.duration, i := s.i + 1 }
    else s
  else s

/-- The globals at power on. -/
def powerOn : CaptureState := ⟨0, 0, 0, fun _ ↦ 0⟩

/-- The state behind a number of samples. -/
def stateAt (sampling : Sampling) : ℕ → CaptureState
  | 0 => powerOn
  | n + 1 => captureBody (enter (stateAt sampling n)) (sampling.sample n)

/-! ### The stored values -/

/-- The two samples belong to the same capture: no pass has ended between them. -/
def SameCapture (sampling : Sampling) (m n : ℕ) : Prop :=
  ∀ k, m < k → k ≤ n → (stateAt sampling k).i < length1

/-- The last HIGH sample before a point of the same capture. -/
structure LastHigh (sampling : Sampling) (m n : ℕ) : Prop where
  before : m < n
  high : (sampling.sample m).high = true
  last : ∀ k, m < k → k < n → (sampling.sample k).high = false
  same : SameCapture sampling m n

/-- The duration that is computed at a HIGH sample. -/
def durationAt (sampling : Sampling) (n : ℕ) : BitVec 16 :=
  difference (micros (sampling.sample n).time) (enter (stateAt sampling n)).lastTime

/-- The sample stores a duration. -/
structure Stores (sampling : Sampling) (n : ℕ) : Prop where
  high : (sampling.sample n).high = true
  gate : gate (durationAt sampling n)

/-- The stored value is the true time since the last HIGH sample of the same capture. -/
def StoresGap (sampling : Sampling) (n : ℕ) : Prop :=
  ∃ m, LastHigh sampling m n ∧
    (durationAt sampling n).toInt = (sampling.sample n).time - (sampling.sample m).time

/-- There is a HIGH sample before in the same capture, less than 2 ^ 16 microseconds ago. -/
def ShortGap (sampling : Sampling) (n : ℕ) : Prop :=
  ∃ m, LastHigh sampling m n ∧ (sampling.sample n).time < (sampling.sample m).time + 2 ^ 16

/-- The values stored so far in a capture are true times between consecutive HIGH samples of it. -/
def Faithful (sampling : Sampling) (n : ℕ) : Prop :=
  ∀ k : Fin length1, (k : ℕ) < (stateAt sampling n).i → ∃ m later, later < n ∧
    LastHigh sampling m later ∧ (sampling.sample later).high = true ∧
      ((stateAt sampling n).timings k).toInt =
        (sampling.sample later).time - (sampling.sample m).time

/-! ### Arithmetic of the words -/

/-- The duration depends on the lower 16 bits of both times only. -/
theorem difference_eq (time : ℕ) (lastTime : BitVec 16) :
    difference (micros time) lastTime = BitVec.ofNat 16 time - lastTime := by
  have hextended : (lastTime.signExtend 32).setWidth 16 = lastTime := by
    apply BitVec.eq_of_getLsbD_eq
    intro bit hbit
    simp [BitVec.getLsbD_signExtend, hbit]
    omega
  have hlow := congrArg BitVec.toNat hextended
  rw [BitVec.toNat_setWidth] at hlow
  have hextendedLt := (lastTime.signExtend 32).isLt
  apply BitVec.eq_of_toNat_eq
  rw [difference, micros, BitVec.toNat_setWidth, BitVec.toNat_sub, BitVec.toNat_sub,
    BitVec.toNat_ofNat, BitVec.toNat_ofNat, ← hlow]
  omega

theorem setWidth_micros (time : ℕ) : (micros time).setWidth 16 = BitVec.ofNat 16 time :=
  BitVec.setWidth_ofNat_of_le (by decide) time

/-- A duration inside the gate is a positive `int`. -/
theorem toInt_of_gate {duration : BitVec 16} (h : gate duration) :
    duration.toInt = duration.toNat := by
  have hpositive : 0 < duration.toInt := lt_of_le_of_lt (by decide) h.1
  rw [BitVec.toInt_eq_toNat_cond] at hpositive ⊢
  have hlt := duration.isLt
  split_ifs at hpositive ⊢
  · rfl
  · omega

/-! ### The time of the last HIGH sample -/

variable {sampling : Sampling} {n : ℕ}

/-- A HIGH sample computes a duration and keeps its own time. -/
theorem captureBody_high {s : CaptureState} {sample : PinSample} (h : sample.high = true) :
    (captureBody s sample).lastTime = BitVec.ofNat 16 sample.time := by
  rw [captureBody, if_pos h]
  dsimp only
  split_ifs <;> exact setWidth_micros _

/-- A LOW sample changes nothing. -/
theorem captureBody_low {s : CaptureState} {sample : PinSample} (h : sample.high = false) :
    captureBody s sample = s := by
  rw [captureBody, h]
  rfl

theorem stateAt_succ_of_low (h : (sampling.sample n).high = false) :
    stateAt sampling (n + 1) = enter (stateAt sampling n) := captureBody_low h

theorem enter_of_lt {s : CaptureState} (h : s.i < length1) : enter s = s := if_pos h

theorem enter_of_full {s : CaptureState} (h : ¬ s.i < length1) :
    enter s = { s with i := 0, lastTime := 0 } := if_neg h

/-- There is room at every `digitalRead`. -/
theorem enter_i_lt (s : CaptureState) : (enter s).i < length1 := by
  unfold enter
  split_ifs with h
  · exact h
  · exact Nat.succ_pos 69

/-- Two last HIGH samples are the same. -/
theorem LastHigh.eq {m m' : ℕ} (h : LastHigh sampling m n) (h' : LastHigh sampling m' n) :
    m = m' := by
  rcases lt_trichotomy m m' with hlt | heq | hgt
  · exact absurd (h.last m' hlt h'.before) (by rw [h'.high]; decide)
  · exact heq
  · exact absurd (h'.last m hgt h.before) (by rw [h.high]; decide)

/-- What `lastTime` is at a `digitalRead`: the time of the last HIGH sample of the capture, or 0 if
there was none. -/
def LastTimeAt (sampling : Sampling) (n : ℕ) : Prop :=
  (∃ m, LastHigh sampling m n ∧
    (enter (stateAt sampling n)).lastTime = BitVec.ofNat 16 (sampling.sample m).time) ∨
  (¬ ∃ m, LastHigh sampling m n) ∧ (enter (stateAt sampling n)).lastTime = 0

/-- A HIGH sample is the last one behind it, unless it has filled the buffer. -/
theorem lastTimeAt_of_high (h : (sampling.sample n).high = true) : LastTimeAt sampling (n + 1) := by
  by_cases hroom : (stateAt sampling (n + 1)).i < length1
  · refine Or.inl
      ⟨n, ⟨Nat.lt_succ_self n, h, fun k hlower hupper ↦ ?_, fun k hlower hupper ↦ ?_⟩, ?_⟩
    · omega
    · obtain rfl : k = n + 1 := by omega
      exact hroom
    · rw [enter_of_lt hroom]
      exact captureBody_high h
  · refine Or.inr ⟨fun ⟨m, hm⟩ ↦ hroom (hm.same (n + 1) hm.before le_rfl), ?_⟩
    rw [enter_of_full hroom]

/-- A LOW sample leaves the last HIGH sample where it is. -/
theorem lastTimeAt_of_low (h : (sampling.sample n).high = false) (hn : LastTimeAt sampling n) :
    LastTimeAt sampling (n + 1) := by
  have hstate := stateAt_succ_of_low h
  have hroom : (stateAt sampling (n + 1)).i < length1 := by
    rw [hstate]
    exact enter_i_lt _
  have hlast : (enter (stateAt sampling (n + 1))).lastTime =
      (enter (stateAt sampling n)).lastTime := by
    rw [enter_of_lt hroom, hstate]
  unfold LastTimeAt
  rw [hlast]
  rcases hn with ⟨m, hm, htime⟩ | ⟨hnone, hzero⟩
  · refine Or.inl ⟨m, ⟨Nat.lt_succ_of_lt hm.before, hm.high, fun k hlower hupper ↦ ?_,
      fun k hlower hupper ↦ ?_⟩, htime⟩
    · rcases Nat.lt_succ_iff_lt_or_eq.mp hupper with hlt | rfl
      · exact hm.last k hlower hlt
      · exact h
    · rcases Nat.le_succ_iff.mp hupper with hle | rfl
      · exact hm.same k hlower hle
      · exact hroom
  · refine Or.inr ⟨fun ⟨m, hm⟩ ↦ hnone ⟨m, ?_, hm.high, fun k hlower hupper ↦ ?_,
      fun k hlower hupper ↦ ?_⟩, hzero⟩
    · rcases Nat.lt_succ_iff_lt_or_eq.mp hm.before with hlt | rfl
      · exact hlt
      · exact absurd hm.high (by rw [h]; decide)
    · exact hm.last k hlower (Nat.lt_succ_of_lt hupper)
    · exact hm.same k hlower (Nat.le_succ_of_le hupper)

theorem lastTimeAt (sampling : Sampling) (n : ℕ) : LastTimeAt sampling n := by
  induction n with
  | zero => exact Or.inr ⟨fun ⟨m, hm⟩ ↦ absurd hm.before (Nat.not_lt_zero m), rfl⟩
  | succ n ih =>
    cases hhigh : (sampling.sample n).high with
    | true => exact lastTimeAt_of_high hhigh
    | false => exact lastTimeAt_of_low hhigh ih

/-! ### The stored values of a run -/

/-- The duration behind a HIGH sample of the same capture is their time difference, cut off. -/
theorem durationAt_of_lastHigh {m : ℕ} (h : LastHigh sampling m n) :
    durationAt sampling n = BitVec.ofNat 16 (sampling.sample n).time -
      BitVec.ofNat 16 (sampling.sample m).time := by
  rw [durationAt, difference_eq]
  rcases lastTimeAt sampling n with ⟨m', hm', htime⟩ | ⟨hnone, -⟩
  · rw [htime, h.eq hm']
  · exact absurd ⟨m, h⟩ hnone

/-- A stored value is the true gap exactly when there is a last HIGH sample in the capture and it
lies less than 2 ^ 16 microseconds back. -/
theorem storesGap_iff (h : Stores sampling n) : StoresGap sampling n ↔ ShortGap sampling n := by
  have hsigned := toInt_of_gate h.gate
  refine exists_congr fun m ↦ and_congr_right fun hm ↦ ?_
  have hle : (sampling.sample m).time ≤ (sampling.sample n).time :=
    sampling.monotone hm.before.le
  rw [hsigned, ← toNat_sub_eq_iff hle, durationAt_of_lastHigh hm]
  omega

/-- A sample that stores a value appends it; any other leaves the stored values, or begins a
capture without values. -/
theorem Stores.next (h : Stores sampling n) :
    (stateAt sampling (n + 1)).i = (enter (stateAt sampling n)).i + 1 ∧
      (stateAt sampling (n + 1)).timings = Function.update (enter (stateAt sampling n)).timings
        ⟨(enter (stateAt sampling n)).i, enter_i_lt _⟩ (durationAt sampling n) := by
  rw [stateAt, captureBody, if_pos h.high]
  dsimp only
  rw [dif_pos ⟨h.gate, enter_i_lt _⟩]
  exact ⟨rfl, rfl⟩

theorem stateAt_of_not_stores (h : ¬ Stores sampling n) :
    (stateAt sampling (n + 1)).i = (enter (stateAt sampling n)).i ∧
      (stateAt sampling (n + 1)).timings = (enter (stateAt sampling n)).timings := by
  cases hhigh : (sampling.sample n).high with
  | false =>
    rw [stateAt_succ_of_low hhigh]
    exact ⟨rfl, rfl⟩
  | true =>
    rw [stateAt, captureBody, if_pos hhigh]
    dsimp only
    rw [dif_neg fun hgate ↦ h ⟨hhigh, hgate.1⟩]
    exact ⟨rfl, rfl⟩

/-- At a `digitalRead` the stored values are those of the state before, or none. -/
theorem Faithful.enter (h : Faithful sampling n) (k : Fin length1)
    (hk : (k : ℕ) < (enter (stateAt sampling n)).i) :
    ∃ m later, later < n ∧ LastHigh sampling m later ∧ (sampling.sample later).high = true ∧
      ((GapCapture.enter (stateAt sampling n)).timings k).toInt =
        (sampling.sample later).time - (sampling.sample m).time := by
  by_cases hroom : (stateAt sampling n).i < length1
  · rw [enter_of_lt hroom] at hk ⊢
    exact h k hk
  · rw [enter_of_full hroom] at hk
    exact absurd hk (Nat.not_lt_zero _)

theorem Faithful.step (h : Faithful sampling n)
    (hstores : Stores sampling n → StoresGap sampling n) : Faithful sampling (n + 1) := by
  intro k hk
  by_cases hsample : Stores sampling n
  · obtain ⟨hi, htimings⟩ := hsample.next
    rw [htimings]
    rw [hi] at hk
    by_cases hlast : (k : ℕ) = (GapCapture.enter (stateAt sampling n)).i
    · obtain rfl : k = ⟨(GapCapture.enter (stateAt sampling n)).i, enter_i_lt _⟩ := Fin.ext hlast
      obtain ⟨m, hm, hgap⟩ := hstores hsample
      rw [Function.update_self]
      exact ⟨m, n, Nat.lt_succ_self n, hm, hsample.high, hgap⟩
    · have hne : k ≠ ⟨(GapCapture.enter (stateAt sampling n)).i, enter_i_lt _⟩ :=
        fun heq ↦ hlast (congrArg Fin.val heq)
      rw [Function.update_of_ne hne]
      obtain ⟨m, later, hlater, hgap⟩ := h.enter k (by omega)
      exact ⟨m, later, Nat.lt_succ_of_lt hlater, hgap⟩
  · obtain ⟨hi, htimings⟩ := stateAt_of_not_stores hsample
    rw [htimings]
    obtain ⟨m, later, hlater, hgap⟩ := h.enter k (hi ▸ hk)
    exact ⟨m, later, Nat.lt_succ_of_lt hlater, hgap⟩

/-- Each stored value is the true time since the last HIGH sample of its capture exactly when there
is one less than 2 ^ 16 microseconds ago, and as long as that holds of every stored value all of
them are true gaps, whatever the samples. -/
theorem captured_gaps (sampling : Sampling) :
    (∀ n, Stores sampling n → (StoresGap sampling n ↔ ShortGap sampling n)) ∧
      ∀ last, (∀ n < last, Stores sampling n → ShortGap sampling n) → Faithful sampling last := by
  refine ⟨fun n ↦ storesGap_iff, fun last ↦ ?_⟩
  induction last with
  | zero => exact fun _ k hk ↦ absurd hk (Nat.not_lt_zero _)
  | succ last ih =>
    intro hshort
    have hbefore := ih fun n hn ↦ hshort n (Nat.lt_succ_of_lt hn)
    exact hbefore.step fun hstores ↦
      (storesGap_iff hstores).mpr (hshort last (Nat.lt_succ_self last) hstores)

/-! ### Equal gaps -/

/-- A pin that is HIGH at every sample, with equal times between the samples. -/
def equalGaps (gap : ℕ) : Sampling where
  sample n := ⟨true, 500 + gap * n⟩
  monotone := fun _ _ hle ↦ Nat.add_le_add_left (Nat.mul_le_mul_left _ hle) _

theorem lastHigh_equalGaps {gap n : ℕ} (hroom : (stateAt (equalGaps gap) (n + 1)).i < length1) :
    LastHigh (equalGaps gap) n (n + 1) where
  before := Nat.lt_succ_self n
  high := rfl
  last k hk hlt := absurd hlt (by omega)
  same k hk hle := by
    obtain rfl : k = n + 1 := by omega
    exact hroom

/-- Gaps of 2000 microseconds are stored as they are, and a first gap of 2 ^ 16 + 2000 is not. -/
theorem captured_gaps_equalGaps :
    StoresGap (equalGaps 2000) 1 ∧ Faithful (equalGaps 2000) 20 ∧
      ¬ StoresGap (equalGaps 67536) 1 := by
  obtain ⟨hgap, hfaithful⟩ := captured_gaps (equalGaps 2000)
  have hroom : ∀ n < 20, (stateAt (equalGaps 2000) n).i < length1 := by decide +kernel
  have hshort (n : ℕ) (hn : n < 20) (hstores : Stores (equalGaps 2000) n) :
      ShortGap (equalGaps 2000) n := by
    cases n with
    | zero => exact absurd hstores.gate (by decide +kernel)
    | succ n =>
      refine ⟨n, lastHigh_equalGaps (hroom (n + 1) hn), ?_⟩
      show 500 + 2000 * (n + 1) < 500 + 2000 * n + 2 ^ 16
      omega
  have hfirst : Stores (equalGaps 2000) 1 := ⟨rfl, by decide +kernel⟩
  have hlong : Stores (equalGaps 67536) 1 := ⟨rfl, by decide +kernel⟩
  refine ⟨(hgap 1 hfirst).mpr (hshort 1 (by decide) hfirst), hfaithful 20 hshort, fun hstored ↦ ?_⟩
  obtain ⟨m, hlast, htime⟩ := ((captured_gaps _).1 1 hlong).mp hstored
  obtain rfl : m = 0 := Nat.lt_one_iff.mp hlast.before
  exact absurd htime (by decide)

/-- The first gap is stored as 2000. -/
theorem not_forall_faithful_gaps : ¬ ∀ sampling last, Faithful sampling last := by
  intro h
  have hstored : (stateAt (equalGaps 67536) 2).i = 1 ∧
      (stateAt (equalGaps 67536) 2).timings ⟨0, by decide⟩ = 2000 := by decide +kernel
  obtain ⟨m, later, hlater, hm, -, hvalue⟩ := h (equalGaps 67536) 2 ⟨0, by decide⟩ (by
    rw [hstored.1]
    decide)
  rw [hstored.2] at hvalue
  have hbefore := hm.before
  obtain rfl : later = 1 := by omega
  obtain rfl : m = 0 := by omega
  exact absurd hvalue (by decide)

end Sketchbook.NetMicros.GapCapture
