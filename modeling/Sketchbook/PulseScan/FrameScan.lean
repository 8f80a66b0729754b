import Mathlib.Data.List.Forall2
import Mathlib.Data.List.OfFn
import Sketchbook.Sensor.PulseClassifier

/-!
# The frame scan of sketch_feb03a

sketch_feb03a fills an array with the lengths of 155 pulses and then scans it for a frame: a sync
pulse followed by 33 pulses, which an inner loop classifies one by one and writes as characters into
`captured_data`. The window is accepted when the text has no `?`, starts with the sensor id and
passes `crc`; then `temp_out` is characters 16 to 23 of the text. `bitreceived` is a global and
survives from one window to the next.

`captured_data` has 33 cells and all of them are written before the String is built, which is
modelled as the cells up to the first NUL. A NUL can only be the value `bitreceived` has before
anything was classified. An `int` of the source is an unbounded integer here.
-/

set_option autoImplicit false
set_option relaxedAutoImplicit false

namespace Sketchbook.PulseScan.FrameScan

open Arduino.Text Foundation.BitWord Sensor.BinaryReading Sensor.PulseClassifier

def bufferSize : ℕ := 155
def syncLength : ℤ := 1740
def bit1Length : ℤ := 745
def bit0Length : ℤ := 380
def deviation : ℤ := 80

/-- The lengths of the sketch. -/
def lengths : PulseLengths where
  syncLength := syncLength
  bit1Length := bit1Length
  bit0Length := bit0Length
  deviation := deviation
  bits_apart := by decide
  sync_apart := by decide
  deviation_nonneg := by decide

def sensorId : List Char := "0111111010000000".toList

/-- The globals that the scan reads and writes. -/
structure Globals where
  bitreceived : Char
  capturedData : List Char
  capturedState : Bool
  temp : List Char
  tempOut : List Char
deriving DecidableEq

/-- The pulses `timings[i + 1]` to `timings[i + 33]`. -/
def window (timings : Fin bufferSize → ℤ) (i : ℕ) (h : i + 33 < bufferSize) : List ℤ :=
  List.ofFn fun k : Fin 33 ↦ timings ⟨i + (k + 1), by omega⟩

/-- The checks of the captured data. -/
def checkCaptured (globals : Globals) : Globals :=
  let capturedDataStr := cString globals.capturedData
  if indexOf capturedDataStr '?' = -1 then
    let globals := { globals with temp := substring capturedDataStr 0 16 }
    if globals.temp = sensorId then
      if crc capturedDataStr then
        { globals with capturedState := true, tempOut := substring capturedDataStr 16 24 }
      else globals
    else globals
  else globals

/-- One turn of the scan. -/
def scanBody (timings : Fin bufferSize → ℤ) (globals : Globals) (i : Fin bufferSize) : Globals :=
  if h : lengths.within syncLength (timings i) ∧ i + 33 < bufferSize then
    checkCaptured { globals with
      bitreceived := (window timings i h.2).foldl lengths.classify globals.bitreceived
      capturedData := lengths.capture globals.bitreceived (window timings i h.2) }
  else globals

/-- A turn of `while (i < buffer_size && captured_state == false)`. -/
def scanStep (timings : Fin bufferSize → ℤ) (globals : Globals) (i : Fin bufferSize) : Globals :=
  if globals.capturedState = false then scanBody timings globals i else globals

/-- The whole scan of the array. -/
def scan (timings : Fin bufferSize → ℤ) (globals : Globals) : Globals :=
  (List.finRange bufferSize).foldl (scanStep timings) globals

/-- The window at an index reads the pulses that the buffer holds behind it. -/
theorem window_of_ofFn {timings : Fin bufferSize → ℤ} {before rest : List ℤ} {t : ℤ}
    (hholds : List.ofFn timings = before ++ t :: rest) {i : Fin bufferSize}
    (hi : (i : ℕ) = before.length) (hrest : 33 ≤ rest.length) :
    timings i = t ∧ ∃ h : i + 33 < bufferSize, window timings i h = rest.take 33 := by
  have hlength := congrArg List.length hholds
  simp only [List.length_ofFn, List.length_append, List.length_cons] at hlength
  have hfits : (i : ℕ) + 33 < bufferSize := by omega
  have hcell (k : ℕ) (hk : i + k < bufferSize) : some (timings ⟨i + k, hk⟩) = (t :: rest)[k]? := by
    have hsame := congrArg (fun cells : List ℤ ↦ cells[i + k]?) hholds
    rw [List.getElem?_append_right (by omega), hi, Nat.add_sub_cancel_left] at hsame
    rw [← hsame, ← hi, List.getElem?_eq_getElem (by simpa using hk), List.getElem_ofFn]
  refine ⟨Option.some.inj (hcell 0 i.isLt), hfits, ?_⟩
  apply List.ext_getElem?
  intro k
  by_cases hk : k < 33
  · have hread := hcell (k + 1) (by omega)
    rw [List.getElem?_cons_succ] at hread
    rw [List.getElem?_take_of_lt hk, ← hread, window, List.getElem?_ofFn, dif_pos hk]
  · rw [List.getElem?_eq_none (by simp [window]; omega), List.getElem?_eq_none (by simp; omega)]

/-! ### The pulses of a word -/

/-- The pulses of a word, one in the window of each bit. -/
def Spells (word : List Bool) (pulses : List ℤ) : Prop :=
  List.Forall₂ (fun bit t ↦ lengths.within (lengths.bitLength bit) t) word pulses

/-- No pulse of a word is a sync. -/
theorem not_sync_of_spells {word : List Bool} {pulses : List ℤ} (h : Spells word pulses) :
    ∀ t ∈ pulses, ¬ lengths.within syncLength t := by
  induction h with
  | nil => exact fun t hmem ↦ absurd hmem List.not_mem_nil
  | cons hbit _ ih => exact List.forall_mem_cons.mpr ⟨not_sync_of_bit _ hbit, ih⟩

/-- Pulses that spell a word are written as its text. -/
theorem capture_of_spells {word : List Bool} {pulses : List ℤ} (h : Spells word pulses)
    (bitreceived : Char) : lengths.capture bitreceived pulses = bitText word := by
  induction h generalizing bitreceived with
  | nil => rfl
  | cons hbit _ ih =>
    rw [PulseLengths.capture, classify_of_bit hbit, ih]
    rfl

/-- Pulses that spell a word leave its last bit in `bitreceived`. -/
theorem foldl_classify_of_spells {word : List Bool} {pulses : List ℤ} (h : Spells word pulses)
    (hne : word ≠ []) (bitreceived : Char) :
    pulses.foldl lengths.classify bitreceived = bitChar (word.getLast hne) := by
  induction h generalizing bitreceived with
  | nil => exact absurd rfl hne
  | @cons bit t word pulses hbit hrest ih =>
    rw [List.foldl_cons, classify_of_bit hbit]
    cases hrest with
    | nil => rfl
    | cons hnext hlater =>
      rw [ih (List.cons_ne_nil _ _), List.getLast_cons (List.cons_ne_nil _ _)]

/-- A text without `?` from pulses without a sync spells a word. -/
theorem exists_spells {bitreceived : Char} {pulses : List ℤ}
    (hsync : ∀ t ∈ pulses, ¬ lengths.within syncLength t)
    (hvalid : '?' ∉ lengths.capture bitreceived pulses) :
    ∃ word, Spells word pulses := by
  induction pulses generalizing bitreceived with
  | nil => exact ⟨[], List.Forall₂.nil⟩
  | cons t rest ih =>
    rw [PulseLengths.capture, List.mem_cons, not_or] at hvalid
    rw [List.forall_mem_cons] at hsync
    obtain ⟨word, hword⟩ := ih hsync.2 hvalid.2
    rcases classify_cases lengths t with ⟨bit, hbit⟩ | ht | hunknown
    · exact ⟨bit :: word, List.Forall₂.cons hbit hword⟩
    · exact absurd ht hsync.1
    · exact absurd (hunknown bitreceived).symm hvalid.1

end Sketchbook.PulseScan.FrameScan
