import Sketchbook.PulseScan.FrameScan

/-!
# What an accepted frame of sketch_feb03a stands for

The scan accepts at the first index where a sync is followed by 33 pulses whose text passes the
three checks (`AcceptedAt`). Such a window should be the frame of a word: a pulse in the window of
a bit for each of the 32 characters, the sensor id in front, even parity, and `temp_out` its bits
16 to 23 (`SoundReading`).

`scan_soundReading_iff` says that this holds exactly when no sync lies among the 32 pulses. The
classifier does not assign `bitreceived` at a sync, so a sync is written as a copy of the character
before it and the checks take it for a bit.
-/

set_option autoImplicit false
set_option relaxedAutoImplicit false

namespace Sketchbook.PulseScan.ScanAcceptance

open Arduino.Text Foundation.BitWord Sensor.BinaryReading Sensor.PulseClassifier
open FrameScan

/-! ### Acceptance -/

/-- The bits of the sensor id. -/
def idBits : List Bool :=
  [false, true, true, true, true, true, true, false, true, false, false, false, false, false, false,
    false]

theorem sensorId_eq : sensorId = bitText idBits := by decide

/-- The 32 bits of a valid frame: the sensor id in front and an even number of ones. -/
structure FrameWord where
  bits : List Bool
  length_eq : bits.length = 32
  id : bits.take 16 = idBits
  even : Even (bits.count true)

namespace FrameWord

/-- The bit at an index of a frame. -/
def bit (word : FrameWord) (index : ℕ) : Bool := word.bits.getD index false

theorem getElem_bits (word : FrameWord) {index : ℕ} (h : index < word.bits.length) :
    word.bits[index] = word.bit index := (List.getD_eq_getElem _ _ h).symm

theorem bit_of_id (word : FrameWord) (index : ℕ) (h : index < 16) :
    word.bit index = idBits.getD index false := by
  rw [← word.id, bit, List.getD_eq_getElem?_getD, List.getD_eq_getElem?_getD,
    List.getElem?_take_of_lt h]

/-- The text of the temperature bits. -/
def temperature (word : FrameWord) : List Char := bitText ((word.bits.take 24).drop 16)

end FrameWord

/-- The three checks a text has to pass. -/
structure Accepts (text : List Char) : Prop where
  valid : '?' ∉ text
  id : substring text 0 16 = sensorId
  parity : crc text = true

/-- The checks set `captured_state` and `temp_out` for an accepted text and otherwise leave them. -/
theorem checkCaptured_cases (globals : Globals) :
    (Accepts (cString globals.capturedData) ∧ (checkCaptured globals).capturedState = true ∧
        (checkCaptured globals).tempOut = substring (cString globals.capturedData) 16 24) ∨
      (¬ Accepts (cString globals.capturedData) ∧
        (checkCaptured globals).capturedState = globals.capturedState ∧
        (checkCaptured globals).tempOut = globals.tempOut) := by
  unfold checkCaptured
  by_cases hvalid : '?' ∈ cString globals.capturedData
  · refine Or.inr ⟨fun h ↦ h.valid hvalid, ?_⟩
    have hindex : indexOf (cString globals.capturedData) '?' ≠ -1 := by
      rw [Ne, indexOf_eq_neg_one_iff]
      exact not_not_intro hvalid
    simp [hindex]
  · have hindex := (indexOf_eq_neg_one_iff _ _).mpr hvalid
    by_cases hid : substring (cString globals.capturedData) 0 16 = sensorId
    · by_cases hparity : crc (cString globals.capturedData) = true
      · exact Or.inl ⟨⟨hvalid, hid, hparity⟩, by simp [hindex, hid, hparity]⟩
      · exact Or.inr ⟨fun h ↦ hparity h.parity, by simp [hindex, hid, hparity]⟩
    · exact Or.inr ⟨fun h ↦ hid h.id, by simp [hindex, hid]⟩

/-- A text that starts with the sensor id starts with a zero. -/
theorem head?_of_id {text : List Char} (h : substring text 0 16 = sensorId) :
    text.head? = some '0' := by
  cases text with
  | nil => exact absurd h (by decide)
  | cons first rest => exact congrArg List.head? h

/-- The String built from captured cells that start with a zero has all of them. -/
theorem cString_capture {bitreceived : Char} {pulses : List ℤ}
    (h : (lengths.capture bitreceived pulses).head? = some '0') :
    cString (lengths.capture bitreceived pulses) = lengths.capture bitreceived pulses := by
  refine cString_eq_self (nul_notMem_capture ?_)
  rw [h]
  decide

/-- The String built from the captured cells is accepted exactly when the cells are. -/
theorem accepts_cString_iff (bitreceived : Char) (pulses : List ℤ) :
    Accepts (cString (lengths.capture bitreceived pulses)) ↔
      Accepts (lengths.capture bitreceived pulses) := by
  constructor
  · intro haccepts
    have hfirst : (lengths.capture bitreceived pulses).head? = some '0' := by
      have htext := head?_of_id haccepts.id
      cases htail : lengths.capture bitreceived pulses with
      | nil => simp [htail, cString] at htext
      | cons first rest =>
        rw [htail, cString, List.takeWhile_cons] at htext
        split_ifs at htext
        · exact htext
        · exact absurd htext (by simp)
    rwa [cString_capture hfirst] at haccepts
  · intro haccepts
    rwa [cString_capture (head?_of_id haccepts.id)]

/-- A turn of the scan accepts exactly at a sync followed by 33 pulses whose text is accepted. -/
theorem scanBody_capturedState_iff {timings : Fin bufferSize → ℤ} {globals : Globals}
    {i : Fin bufferSize} (hfree : globals.capturedState = false) :
    (scanBody timings globals i).capturedState = true ↔
      lengths.within syncLength (timings i) ∧
        ∃ h : i + 33 < bufferSize,
          Accepts (lengths.capture globals.bitreceived (window timings i h)) := by
  unfold scanBody
  by_cases hwindow : lengths.within syncLength (timings i) ∧ i + 33 < bufferSize
  · rw [dif_pos hwindow]
    rcases checkCaptured_cases { globals with
      bitreceived := (window timings i hwindow.2).foldl lengths.classify globals.bitreceived
      capturedData := lengths.capture globals.bitreceived (window timings i hwindow.2) } with
      ⟨haccepts, hstate, -⟩ | ⟨hrejects, hstate, -⟩
    · rw [accepts_cString_iff] at haccepts
      exact iff_of_true hstate ⟨hwindow.1, hwindow.2, haccepts⟩
    · rw [accepts_cString_iff] at hrejects
      refine iff_of_false ?_ fun ⟨_, _, haccepts⟩ ↦ hrejects haccepts
      rw [hstate, hfree]
      exact Bool.false_ne_true
  · rw [dif_neg hwindow, hfree]
    exact iff_of_false Bool.false_ne_true fun ⟨hsync, hfits, _⟩ ↦ hwindow ⟨hsync, hfits⟩

/-- An accepting turn reads the temperature from characters 16 to 23. -/
theorem scanBody_tempOut {timings : Fin bufferSize → ℤ} {globals : Globals} {i : Fin bufferSize}
    (hsync : lengths.within syncLength (timings i)) (h : i + 33 < bufferSize)
    (haccepts : Accepts (lengths.capture globals.bitreceived (window timings i h))) :
    (scanBody timings globals i).tempOut =
      substring (lengths.capture globals.bitreceived (window timings i h)) 16 24 := by
  have hself := cString_capture (head?_of_id haccepts.id)
  unfold scanBody
  rw [dif_pos ⟨hsync, h⟩]
  rcases checkCaptured_cases { globals with
    bitreceived := (window timings i h).foldl lengths.classify globals.bitreceived
    capturedData := lengths.capture globals.bitreceived (window timings i h) } with
    ⟨-, -, htempOut⟩ | ⟨hrejects, -, -⟩
  · rw [htempOut, hself]
  · rw [hself] at hrejects
    exact absurd haccepts hrejects

/-- A text that starts with the 32 characters of a word is accepted exactly when nothing behind them
is unreadable, the word starts with the id and its parity is even. -/
theorem accepts_iff {word : List Bool} (hword : word.length = 32) (rest : List Char) :
    Accepts (bitText word ++ rest) ↔
      '?' ∉ rest ∧ word.take 16 = idBits ∧ parity word = false := by
  have hvalid : '?' ∉ bitText word ++ rest ↔ '?' ∉ rest := by
    have hbits : '?' ∉ bitText word := by
      intro hmem
      obtain ⟨bit, -, hbit⟩ := List.mem_map.mp hmem
      revert hbit
      cases bit <;> decide
    rw [List.mem_append, not_or, and_iff_right hbits]
  have hid : substring (bitText word ++ rest) 0 16 = sensorId ↔ word.take 16 = idBits := by
    rw [substring, List.drop_zero, List.take_append_of_le_length (by simp [hword]), sensorId_eq,
      bitText, ← List.map_take]
    exact bitText_injective.eq_iff
  rw [← hvalid, ← hid, ← crc_eq_true_iff word hword rest]
  constructor
  · intro h
    exact ⟨h.valid, h.id, h.parity⟩
  · rintro ⟨hvalid, hid, hparity⟩
    exact ⟨hvalid, hid, hparity⟩

/-- The temperature characters of a text that starts with the 32 characters of a word. -/
theorem substring_bitText {word : List Bool} (hword : word.length = 32) (rest : List Char) :
    substring (bitText word ++ rest) 16 24 = bitText ((word.take 24).drop 16) := by
  rw [substring, List.take_append_of_le_length (by simp [hword])]
  simp [bitText]

/-! ### The accepted index -/

/-- The globals when the scan comes to an index. -/
def reach (timings : Fin bufferSize → ℤ) (globals : Globals) (i : ℕ) : Globals :=
  ((List.finRange bufferSize).take i).foldl (scanStep timings) globals

/-- The turn at an index is the one that sets `captured_state`. -/
def AcceptedAt (timings : Fin bufferSize → ℤ) (globals : Globals) (i : Fin bufferSize) : Prop :=
  (reach timings globals i).capturedState = false ∧
    (scanBody timings (reach timings globals i) i).capturedState = true

instance (timings : Fin bufferSize → ℤ) (globals : Globals) (i : Fin bufferSize) :
    Decidable (AcceptedAt timings globals i) :=
  inferInstanceAs (Decidable (_ ∧ _))

variable {timings : Fin bufferSize → ℤ} {globals : Globals} {i : Fin bufferSize}

theorem foldl_scanStep_of_captured (h : globals.capturedState = true)
    (indices : List (Fin bufferSize)) :
    indices.foldl (scanStep timings) globals = globals := by
  induction indices with
  | nil => rfl
  | cons index rest ih =>
    have hstep : scanStep timings globals index = globals := by
      rw [scanStep, if_neg (by rw [h]; exact Bool.noConfusion)]
    rw [List.foldl_cons, hstep, ih]

theorem reach_succ (timings : Fin bufferSize → ℤ) (globals : Globals) (i : Fin bufferSize) :
    reach timings globals (i + 1) = scanStep timings (reach timings globals i) i := by
  have hlt : (i : ℕ) < (List.finRange bufferSize).length := by simp
  rw [reach, List.take_succ_eq_append_getElem hlt, List.foldl_append, List.getElem_finRange]
  rfl

/-- What the scan has captured before an index stays. -/
theorem reach_of_captured {first last : ℕ} (hle : first ≤ last)
    (h : (reach timings globals first).capturedState = true) :
    reach timings globals last = reach timings globals first := by
  have hsplit : (List.finRange bufferSize).take last =
      (List.finRange bufferSize).take first ++
        ((List.finRange bufferSize).take last).drop first := by
    conv_lhs => rw [← List.take_append_drop first ((List.finRange bufferSize).take last)]
    rw [List.take_take, Nat.min_eq_left hle]
  rw [reach, hsplit, List.foldl_append]
  exact foldl_scanStep_of_captured h _

theorem AcceptedAt.reach_succ (h : AcceptedAt timings globals i) :
    reach timings globals (i + 1) = scanBody timings (reach timings globals i) i := by
  rw [ScanAcceptance.reach_succ, scanStep, if_pos h.1]

theorem AcceptedAt.scan_eq (h : AcceptedAt timings globals i) :
    scan timings globals = scanBody timings (reach timings globals i) i := by
  have hcaptured : (reach timings globals (i + 1)).capturedState = true := by
    rw [h.reach_succ]
    exact h.2
  have hlast := reach_of_captured (Nat.succ_le_of_lt i.isLt) hcaptured
  rw [← h.reach_succ, ← hlast, reach, List.take_of_length_le (by simp)]
  rfl

/-- The scan accepts at one index only. -/
theorem AcceptedAt.eq (h : AcceptedAt timings globals i) {j : Fin bufferSize}
    (hj : AcceptedAt timings globals j) : j = i := by
  have hnot {a b : Fin bufferSize} (ha : AcceptedAt timings globals a)
      (hb : AcceptedAt timings globals b) : ¬ a < b := by
    intro hlt
    have hcaptured : (reach timings globals (a + 1)).capturedState = true := by
      rw [ha.reach_succ]
      exact ha.2
    have hstays := reach_of_captured (Nat.succ_le_of_lt hlt) hcaptured
    have hfree := hb.1
    rw [hstays, hcaptured] at hfree
    exact Bool.noConfusion hfree
  exact le_antisymm (not_lt.mp (hnot h hj)) (not_lt.mp (hnot hj h))

/-- A scan that sets `captured_state` accepts at some index. -/
theorem exists_acceptedAt (hfree : globals.capturedState = false)
    (hset : (scan timings globals).capturedState = true) : ∃ i, AcceptedAt timings globals i := by
  by_contra hnone
  have hreach (n : ℕ) (hn : n ≤ bufferSize) : (reach timings globals n).capturedState = false := by
    induction n with
    | zero => exact hfree
    | succ n ih =>
      have hbefore := ih (Nat.le_of_succ_le hn)
      have hturn : (scanBody timings (reach timings globals n) ⟨n, hn⟩).capturedState ≠ true :=
        fun hcaptured ↦ hnone ⟨⟨n, hn⟩, hbefore, hcaptured⟩
      have hnext := ScanAcceptance.reach_succ timings globals ⟨n, hn⟩
      rw [scanStep, if_pos hbefore] at hnext
      exact (congrArg Globals.capturedState hnext).trans (Bool.eq_false_iff.mpr hturn)
  have hend := hreach bufferSize le_rfl
  rw [reach, List.take_of_length_le (by simp)] at hend
  exact Bool.false_ne_true (hend.symm.trans hset)

/-! ### What acceptance means -/

/-- The 32 pulses `timings[i + 1]` to `timings[i + 32]` that carry the bits of a frame. -/
def bitPulses (timings : Fin bufferSize → ℤ) (i : ℕ) (h : i + 33 < bufferSize) : List ℤ :=
  List.ofFn fun k : Fin 32 ↦ timings ⟨i + (k + 1), by omega⟩

/-- The frame of a word starts at an index, and a text is its temperature bits. -/
structure SoundReading (timings : Fin bufferSize → ℤ) (i : ℕ) (h : i + 33 < bufferSize)
    (tempOut : List Char) : Prop where
  sync : lengths.within syncLength (timings ⟨i, by omega⟩)
  word : ∃ word : FrameWord, Spells word.bits (bitPulses timings i h) ∧ tempOut = word.temperature

theorem window_eq (timings : Fin bufferSize → ℤ) (i : ℕ) (h : i + 33 < bufferSize) :
    window timings i h = bitPulses timings i h ++ [timings ⟨i + 33, h⟩] := by
  rw [window, List.ofFn_succ', List.concat_eq_append]
  rfl

/-- A window that spells a word up to a sync is written as its text, with the last bit repeated. -/
theorem capture_window {timings : Fin bufferSize → ℤ} {i : ℕ} {h : i + 33 < bufferSize}
    {word : List Bool} (hspells : Spells word (bitPulses timings i h))
    (hclosing : lengths.within syncLength (timings ⟨i + 33, h⟩)) (hne : word ≠ [])
    (bitreceived : Char) :
    lengths.capture bitreceived (window timings i h) =
      bitText word ++ [bitChar (word.getLast hne)] := by
  rw [window_eq, capture_append, capture_of_spells hspells, foldl_classify_of_spells hspells hne,
    PulseLengths.capture, PulseLengths.capture, classify_of_sync hclosing]

@[simp] theorem length_bitPulses (timings : Fin bufferSize → ℤ) (i : ℕ) (h : i + 33 < bufferSize) :
    (bitPulses timings i h).length = 32 := List.length_ofFn

/-- A scan that sets `captured_state` accepts at exactly one index, and the reading stands for the
frame of a word exactly when none of the 32 pulses behind that index is a sync. -/
theorem scan_soundReading_iff (hfree : globals.capturedState = false)
    (hset : (scan timings globals).capturedState = true) :
    ∃ (i : Fin bufferSize) (h : i + 33 < bufferSize),
      (∀ j, AcceptedAt timings globals j ↔ j = i) ∧
        (SoundReading timings i h (scan timings globals).tempOut ↔
          ∀ t ∈ bitPulses timings i h, ¬ lengths.within syncLength t) := by
  obtain ⟨i, hi⟩ := exists_acceptedAt hfree hset
  obtain ⟨hsync, h, haccepts⟩ := (scanBody_capturedState_iff hi.1).mp hi.2
  refine ⟨i, h, fun j ↦ ⟨hi.eq, fun heq ↦ heq ▸ hi⟩, ?_⟩
  rw [hi.scan_eq, scanBody_tempOut hsync h haccepts]
  rw [window_eq, capture_append] at haccepts ⊢
  constructor
  · rintro ⟨-, word, hspells, -⟩
    exact not_sync_of_spells hspells
  · intro hclear
    have hvalid :
        '?' ∉ lengths.capture (reach timings globals i).bitreceived (bitPulses timings i h) :=
      fun hmem ↦ haccepts.valid (List.mem_append_left _ hmem)
    obtain ⟨word, hspells⟩ := exists_spells hclear hvalid
    have hword : word.length = 32 := by
      rw [hspells.length_eq, length_bitPulses]
    rw [capture_of_spells hspells] at haccepts ⊢
    obtain ⟨-, hid, hparity⟩ := (accepts_iff hword _).mp haccepts
    exact ⟨hsync, ⟨word, hword, hid, (parity_eq_false_iff word).mp hparity⟩, hspells,
      substring_bitText hword _⟩

/-! ### A frame that lost a pulse -/

/-- A frame of 10 degrees: the id, the temperature 100 and eight zeros. -/
def tenDegrees : FrameWord where
  bits := idBits ++ [false, true, true, false, false, true, false, false] ++ List.replicate 8 false
  length_eq := by decide
  id := by decide
  even := by decide

/-- A sync and the pulses of a word, each of its nominal length. -/
def nominalFrame (word : List Bool) : List ℤ := syncLength :: word.map lengths.bitLength

theorem within_self (bit : Bool) :
    lengths.within (lengths.bitLength bit) (lengths.bitLength bit) := by
  cases bit <;> decide

theorem spells_map_bitLength (word : List Bool) : Spells word (word.map lengths.bitLength) := by
  induction word with
  | nil => exact List.Forall₂.nil
  | cons bit word ih => exact List.Forall₂.cons (within_self bit) ih

/-- A buffer that starts with the given pulse trains. -/
def bufferOf (trains : List (List ℤ)) (i : Fin bufferSize) : ℤ := trains.flatten.getD i 0

/-- Repeated copies of the frame of 10 degrees. -/
def wholeTimings : Fin bufferSize → ℤ :=
  bufferOf (List.replicate 5 (nominalFrame tenDegrees.bits))

/-- Repeated copies of the frame of 10 degrees where the first lost its bit pulse 17. -/
def lostPulseTimings : Fin bufferSize → ℤ :=
  bufferOf
    (nominalFrame (tenDegrees.bits.eraseIdx 16) :: List.replicate 4 (nominalFrame tenDegrees.bits))

/-- The globals at power on. -/
def powerOn : Globals := ⟨nul, List.replicate 33 nul, false, [], []⟩

/-- The scan accepts a window with a sync inside, which is no frame. -/
theorem not_forall_soundReading :
    ¬ ∀ (timings : Fin bufferSize → ℤ) (globals : Globals) (i : Fin bufferSize)
      (h : i + 33 < bufferSize), AcceptedAt timings globals i →
      SoundReading timings i h (scan timings globals).tempOut := by
  intro hsound
  have haccepted : AcceptedAt lostPulseTimings powerOn ⟨0, by decide⟩ := by decide +kernel
  obtain ⟨-, word, hspells, -⟩ := hsound lostPulseTimings powerOn _ (by decide) haccepted
  have hsync : ∃ t ∈ bitPulses lostPulseTimings 0 (by decide), lengths.within syncLength t := by
    decide +kernel
  obtain ⟨t, hmem, ht⟩ := hsync
  exact not_sync_of_spells hspells t hmem ht

/-- The scan of whole copies of a frame. -/
theorem wholeTimings_soundReading_iff :
    ∃ (i : Fin bufferSize) (h : i + 33 < bufferSize),
      (∀ j, AcceptedAt wholeTimings powerOn j ↔ j = i) ∧
        (SoundReading wholeTimings i h (scan wholeTimings powerOn).tempOut ↔
          ∀ t ∈ bitPulses wholeTimings i h, ¬ lengths.within syncLength t) :=
  scan_soundReading_iff rfl (by decide +kernel)

end Sketchbook.PulseScan.ScanAcceptance
