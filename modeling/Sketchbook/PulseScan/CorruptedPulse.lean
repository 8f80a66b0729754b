import Mathlib.Logic.Function.Basic
import Sketchbook.PulseScan.ScanAcceptance

/-!
# A frame of sketch_feb03a with one corrupted pulse

A window holds a frame when a sync, the pulses of its 32 bits and another sync follow each other
(`HoldsFrame`). The scan accepts it and reads its temperature. `corruptedPulse_reading` says that no
replacement of one of the 33 pulses behind the first sync leads to another reading.

A replaced pulse is read as a bit, as `?`, or as a repetition of the character before it. The check
for `?` rejects the second case. In the other two the character is a bit again: at the first place
only a zero passes the id check, and elsewhere the character before is a bit. A changed bit then
fails the parity check.
-/

set_option autoImplicit false
set_option relaxedAutoImplicit false

namespace Sketchbook.PulseScan.CorruptedPulse

open Arduino.Text Foundation.BitWord Sensor.BinaryReading Sensor.PulseClassifier
open FrameScan ScanAcceptance

/-- The 34 pulses from an index on are the frame of a word between two syncs. -/
structure HoldsFrame (timings : Fin bufferSize → ℤ) (i : Fin bufferSize) (h : i + 33 < bufferSize)
    (word : FrameWord) : Prop where
  sync : lengths.within syncLength (timings i)
  spells : Spells word.bits (bitPulses timings i h)
  closing : lengths.within syncLength (timings ⟨i + 33, h⟩)

variable {timings : Fin bufferSize → ℤ} {globals : Globals} {i : Fin bufferSize}
  {h : i + 33 < bufferSize} {word : FrameWord}

/-- A frame is accepted and its temperature read. -/
theorem HoldsFrame.reading (hframe : HoldsFrame timings i h word)
    (hfree : globals.capturedState = false) :
    (scanBody timings globals i).capturedState = true ∧
      (scanBody timings globals i).tempOut = word.temperature := by
  have hne : word.bits ≠ [] := by
    intro hnil
    have hlength := word.length_eq
    rw [hnil] at hlength
    exact absurd hlength (by decide)
  have htext : lengths.capture globals.bitreceived (window timings i h) =
      bitText word.bits ++ [bitChar (word.bits.getLast hne)] :=
    capture_window hframe.spells hframe.closing hne _
  have haccepts : Accepts (lengths.capture globals.bitreceived (window timings i h)) := by
    rw [htext, accepts_iff word.length_eq]
    refine ⟨?_, word.id, (parity_eq_false_iff _).mpr word.even⟩
    cases word.bits.getLast hne <;> decide
  refine ⟨(scanBody_capturedState_iff hfree).mpr ⟨hframe.sync, h, haccepts⟩, ?_⟩
  rw [scanBody_tempOut hframe.sync h haccepts, htext, substring_bitText word.length_eq]
  rfl

/-- Replacing a pulse of the buffer replaces it in the window. -/
theorem window_update (timings : Fin bufferSize → ℤ) {q : ℕ} (hq : q < 33) (v : ℤ) :
    window (Function.update timings ⟨i + (q + 1), by omega⟩ v) i h =
      (window timings i h).set q v := by
  apply List.ext_getElem
  · rw [window, window, List.length_set, List.length_ofFn, List.length_ofFn]
  · intro k hleft hright
    simp only [window, List.getElem_ofFn, List.getElem_set]
    by_cases hk : q = k
    · subst hk
      rw [if_pos rfl, Function.update_self]
    · rw [if_neg hk, Function.update_of_ne]
      intro heq
      have hval := congrArg Fin.val heq
      simp only at hval
      omega

/-- The text of a frame whose bit pulse `q` is replaced differs from it in character `q` and behind
the 32 bits at most. -/
theorem capture_set_bit {bits : List Bool} {pulses : List ℤ} (hspells : Spells bits pulses) {q : ℕ}
    (hq : q < bits.length) (bitreceived : Char) (v closing : ℤ) :
    ∃ rest, lengths.capture bitreceived ((pulses ++ [closing]).set q v) =
      bitText (bits.take q) ++
        lengths.classify ((pulses.take q).foldl lengths.classify bitreceived) v ::
          bitText (bits.drop (q + 1)) ++
          rest := by
  have hlength : q < pulses.length := by
    rw [← hspells.length_eq]
    exact hq
  have hfirst : Spells (bits.take q) (pulses.take q) := List.forall₂_take q hspells
  have hlater : Spells (bits.drop (q + 1)) (pulses.drop (q + 1)) :=
    List.forall₂_drop (q + 1) hspells
  rw [List.set_append_left _ _ hlength, List.set_eq_take_append_cons_drop, if_pos hlength,
    List.append_assoc, capture_append, capture_of_spells hfirst, List.cons_append,
    PulseLengths.capture,
    capture_append, capture_of_spells hlater]
  exact ⟨_, by rw [List.append_assoc, List.cons_append]⟩

/-- In an accepted text the character of a replaced pulse is a bit. -/
theorem exists_bitChar {bits : List Bool} {pulses : List ℤ} (hspells : Spells bits pulses) {q : ℕ}
    (hq : q < bits.length) {bitreceived : Char} {v : ℤ} {rest : List Char}
    (haccepts : Accepts (bitText (bits.take q) ++
      lengths.classify ((pulses.take q).foldl lengths.classify bitreceived) v :: rest)) :
    ∃ bit,
      lengths.classify ((pulses.take q).foldl lengths.classify bitreceived) v = bitChar bit := by
  have hvalid : lengths.classify ((pulses.take q).foldl lengths.classify bitreceived) v ≠ '?' := by
    intro heq
    exact haccepts.valid (List.mem_append_right _ (heq ▸ List.mem_cons_self))
  rcases classify_cases lengths v with ⟨bit, hbit⟩ | hsync | hunknown
  · exact ⟨bit, classify_of_bit hbit _⟩
  · rcases Nat.eq_zero_or_pos q with rfl | hpos
    · exact ⟨false, Option.some.inj (head?_of_id haccepts.id)⟩
    · have hbefore : Spells (bits.take q) (pulses.take q) := List.forall₂_take q hspells
      have hne : bits.take q ≠ [] := by
        rw [← List.length_pos_iff, List.length_take]
        omega
      exact ⟨_, (classify_of_sync hsync _).trans (foldl_classify_of_spells hbefore hne _)⟩
  · exact absurd (hunknown _) hvalid

/-- Replacing one of the 33 pulses behind the sync of a frame by any value, with any character left
in `bitreceived`, leads to rejection or to the temperature that the unmodified frame gives. -/
theorem corruptedPulse_reading (hframe : HoldsFrame timings i h word) {p : ℕ} (hfirst : 1 ≤ p)
    (hlast : p ≤ 33) (v : ℤ) {clean : Globals} (hclean : clean.capturedState = false)
    (hfree : globals.capturedState = false) :
    (scanBody timings clean i).capturedState = true ∧
      ((scanBody (Function.update timings ⟨i + p, by omega⟩ v) globals i).capturedState = true →
        (scanBody (Function.update timings ⟨i + p, by omega⟩ v) globals i).tempOut =
          (scanBody timings clean i).tempOut) := by
  obtain ⟨haccepted, htemperature⟩ := hframe.reading hclean
  refine ⟨haccepted, fun hset ↦ ?_⟩
  obtain ⟨q, rfl⟩ : ∃ q, p = q + 1 := Nat.exists_eq_add_of_le' hfirst
  obtain ⟨hsync, _, haccepts⟩ := (scanBody_capturedState_iff hfree).mp hset
  rw [htemperature, scanBody_tempOut hsync h haccepts]
  rw [window_update timings (h := h) (by omega) v, window_eq timings i h] at haccepts ⊢
  rcases Nat.lt_or_ge q 32 with hq | hq
  · have hindex : q < word.bits.length := by
      rw [word.length_eq]
      exact hq
    obtain ⟨rest, htext⟩ := capture_set_bit hframe.spells hindex globals.bitreceived v
      (timings ⟨i + 33, h⟩)
    rw [htext] at haccepts ⊢
    obtain ⟨bit, hbit⟩ := exists_bitChar hframe.spells hindex
      (by rwa [List.append_assoc, List.cons_append] at haccepts)
    have hset : bitText (word.bits.take q) ++ bitChar bit :: bitText (word.bits.drop (q + 1)) =
        bitText (word.bits.set q bit) := by
      rw [List.set_eq_take_append_cons_drop, if_pos hindex]
      simp [bitText]
    have hlength : (word.bits.set q bit).length = 32 := by
      rw [List.length_set, word.length_eq]
    rw [hbit, hset] at haccepts ⊢
    have hparity := ((accepts_iff hlength rest).mp haccepts).2.2
    rw [parity_set _ _ hindex, (parity_eq_false_iff _).mpr word.even, Bool.false_xor,
      bne_eq_false_iff_eq] at hparity
    rw [substring_bitText hlength, ← hparity, List.set_getElem_self]
    rfl
  · rw [List.set_append_right _ _ (by rw [length_bitPulses]; exact hq), capture_append,
      capture_of_spells hframe.spells, substring_bitText word.length_eq]
    rfl

/-- The frame of 10 degrees with its bit pulse 17 stretched to a sync. -/
theorem tenDegrees_corruptedPulse :
    (scanBody wholeTimings powerOn ⟨0, by decide⟩).capturedState = true ∧
      ((scanBody (Function.update wholeTimings ⟨0 + 17, by decide⟩ 1700) powerOn
          ⟨0, by decide⟩).capturedState = true →
        (scanBody (Function.update wholeTimings ⟨0 + 17, by decide⟩ 1700) powerOn
            ⟨0, by decide⟩).tempOut =
          (scanBody wholeTimings powerOn ⟨0, by decide⟩).tempOut) :=
  have hpulses : bitPulses wholeTimings 0 (by decide) = tenDegrees.bits.map lengths.bitLength := by
    decide +kernel
  have hframe : HoldsFrame wholeTimings ⟨0, by decide⟩ (by decide) tenDegrees :=
    ⟨by decide +kernel, hpulses ▸ spells_map_bitLength _, by decide +kernel⟩
  corruptedPulse_reading hframe (by decide) (by decide) 1700 rfl rfl

end Sketchbook.PulseScan.CorruptedPulse
