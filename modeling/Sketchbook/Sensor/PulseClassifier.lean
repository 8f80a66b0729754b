import Mathlib.Data.Int.Notation
import Mathlib.Tactic.SplitIfs
import Sketchbook.Foundation.Memory
import Sketchbook.Sensor.BinaryReading

/-!
# The classifier of the scanning receivers

sketch_feb03a and net_micros read the pulses behind a sync with the same code and lengths of their
own. A pulse that lies within `DEVIATION` of the length of a bit is written as that bit and one near
neither bit nor sync as `?`. The branch for a sync does not assign `bitreceived`, so the character
before it is written again.

`PulseLengths` holds the lengths of a sketch, far enough apart that no pulse is near two of them.
The characters of a window are the values that `bitreceived` takes (`capture_eq`), so that a NUL can
only be the value it has before anything was classified.
-/

set_option autoImplicit false
set_option relaxedAutoImplicit false

namespace Sketchbook.Sensor.PulseClassifier

open Arduino.Text Foundation.Memory BinaryReading

/-- The nominal lengths of a sketch and the distance that a pulse may have from them. -/
structure PulseLengths where
  syncLength : ℤ
  bit1Length : ℤ
  bit0Length : ℤ
  deviation : ℤ
  bits_apart : bit0Length + 2 * deviation ≤ bit1Length
  sync_apart : bit1Length + 2 * deviation ≤ syncLength
  deviation_nonneg : 0 ≤ deviation

namespace PulseLengths

variable (lengths : PulseLengths)

/-- The comparison `t > (length - DEVIATION) && t < (length + DEVIATION)` of the source. -/
def within (length t : ℤ) : Prop := length - lengths.deviation < t ∧ t < length + lengths.deviation

instance (length t : ℤ) : Decidable (lengths.within length t) :=
  inferInstanceAs (Decidable (_ ∧ _))

/-- The value of `bitreceived` after the classifier has seen a pulse. -/
def classify (bitreceived : Char) (t : ℤ) : Char :=
  if lengths.within lengths.bit1Length t then '1'
  else if lengths.within lengths.bit0Length t then '0'
  else if lengths.within lengths.syncLength t then bitreceived
  else '?'

/-- The inner loop over the pulses behind a sync: the characters it writes. -/
def capture (bitreceived : Char) : List ℤ → List Char
  | [] => []
  | t :: rest => lengths.classify bitreceived t :: capture (lengths.classify bitreceived t) rest

/-- The pulse length of a bit. -/
def bitLength (bit : Bool) : ℤ := if bit then lengths.bit1Length else lengths.bit0Length

end PulseLengths

variable {lengths : PulseLengths}

/-! ### One pulse -/

/-- A pulse in the window of a bit is read as that bit. -/
theorem classify_of_bit {bit : Bool} {t : ℤ} (h : lengths.within (lengths.bitLength bit) t)
    (bitreceived : Char) : lengths.classify bitreceived t = bitChar bit := by
  have hbits := lengths.bits_apart
  unfold PulseLengths.classify
  cases bit with
  | true =>
    have hone : lengths.within lengths.bit1Length t := h
    rw [if_pos hone]
    rfl
  | false =>
    have hzero : lengths.within lengths.bit0Length t := h
    have hone : ¬ lengths.within lengths.bit1Length t := by
      unfold PulseLengths.within at hzero ⊢
      omega
    rw [if_neg hone, if_pos hzero]
    rfl

theorem not_sync_of_bit (bit : Bool) {t : ℤ} (h : lengths.within (lengths.bitLength bit) t) :
    ¬ lengths.within lengths.syncLength t := by
  have hbits := lengths.bits_apart
  have hsync := lengths.sync_apart
  have hdeviation := lengths.deviation_nonneg
  unfold PulseLengths.within PulseLengths.bitLength at *
  cases bit <;> simp only [if_true, Bool.false_eq_true, if_false] at h <;> omega

/-- A sync repeats the character written before it. -/
theorem classify_of_sync {t : ℤ} (h : lengths.within lengths.syncLength t) (bitreceived : Char) :
    lengths.classify bitreceived t = bitreceived := by
  have hone : ¬ lengths.within lengths.bit1Length t := fun hbit ↦ not_sync_of_bit true hbit h
  have hzero : ¬ lengths.within lengths.bit0Length t := fun hbit ↦ not_sync_of_bit false hbit h
  unfold PulseLengths.classify
  rw [if_neg hone, if_neg hzero, if_pos h]

/-- A pulse that is no sync is classified whatever was written before. -/
theorem classify_eq_of_not_sync {t : ℤ} (h : ¬ lengths.within lengths.syncLength t)
    (first second : Char) : lengths.classify first t = lengths.classify second t := by
  unfold PulseLengths.classify
  rw [if_neg h, if_neg h]

/-- Every pulse is read as a bit it is in the window of, as the character before it, or as `?`. -/
theorem classify_cases (lengths : PulseLengths) (t : ℤ) :
    (∃ bit, lengths.within (lengths.bitLength bit) t) ∨ lengths.within lengths.syncLength t ∨
      ∀ c, lengths.classify c t = '?' := by
  by_cases hone : lengths.within lengths.bit1Length t
  · exact Or.inl ⟨true, hone⟩
  · by_cases hzero : lengths.within lengths.bit0Length t
    · exact Or.inl ⟨false, hzero⟩
    · by_cases hsync : lengths.within lengths.syncLength t
      · exact Or.inr (Or.inl hsync)
      · refine Or.inr (Or.inr fun c ↦ ?_)
        unfold PulseLengths.classify
        rw [if_neg hone, if_neg hzero, if_neg hsync]

/-- The classifier writes a NUL only while `bitreceived` has not been assigned. -/
theorem eq_nul_of_classify (bitreceived : Char) (t : ℤ)
    (h : lengths.classify bitreceived t = nul) : bitreceived = nul := by
  rcases classify_cases lengths t with ⟨bit, hbit⟩ | hsync | hunknown
  · rw [classify_of_bit hbit] at h
    exact absurd h (bitChar_ne_nul bit)
  · rwa [classify_of_sync hsync] at h
  · rw [hunknown] at h
    exact absurd h (by decide)

/-! ### The text of a window -/

/-- The text consists of the values that `bitreceived` takes. -/
theorem capture_eq (bitreceived : Char) (pulses : List ℤ) :
    lengths.capture bitreceived pulses = successive lengths.classify bitreceived pulses := by
  induction pulses generalizing bitreceived with
  | nil => rfl
  | cons t rest ih => rw [PulseLengths.capture, ih, successive_cons]

@[simp] theorem length_capture (bitreceived : Char) (pulses : List ℤ) :
    (lengths.capture bitreceived pulses).length = pulses.length := by
  rw [capture_eq, length_successive]

theorem capture_append (bitreceived : Char) (first second : List ℤ) :
    lengths.capture bitreceived (first ++ second) = lengths.capture bitreceived first ++
      lengths.capture (first.foldl lengths.classify bitreceived) second := by
  rw [capture_eq, capture_eq, capture_eq, successive_append]

/-- A NUL in the text is its first character. -/
theorem nul_notMem_capture {bitreceived : Char} {pulses : List ℤ}
    (h : (lengths.capture bitreceived pulses).head? ≠ some nul) :
    nul ∉ lengths.capture bitreceived pulses := by
  rw [capture_eq] at h ⊢
  exact notMem_successive eq_nul_of_classify h

/-! ### The text in memory -/

/-- A turn of the inner loop adds the character of its pulse to the cells. -/
theorem update_stored_capture (bitreceived : Char) (memory : ℕ → Char) (timings : ℕ → ℤ)
    (i n : ℕ) :
    Function.update (stored memory (lengths.capture bitreceived (behind timings i n))) n
        (lengths.classify ((behind timings i n).foldl lengths.classify bitreceived)
          (timings (i + (n + 1)))) =
      stored memory (lengths.capture bitreceived (behind timings i (n + 1))) := by
  rw [capture_eq, capture_eq]
  exact update_stored_successive lengths.classify bitreceived memory timings i n

end Sketchbook.Sensor.PulseClassifier
