import Sketchbook.Receiver.FramePairing

/-!
# What the decode loop makes of a window

A complete frame is a window of 66 durations from the first sync index on. `decodedChars` is the
text of a list of durations, two at a time; each character may depend on the one before, since a
pair with a good separator and a pulse in neither bit window repeats it. `exists_decodeLoop` is the
specification of the decode loop: it ends after 33 turns and has written the text of the window into
the buffer. `tempOut_eq` says which characters the temperature is read from.

`Spells` relates a bit word to the durations that transmit it. On such durations the text is the
text of the word, whatever stood in the uninitialised locals (`decodedChars_of_spells`).
-/

set_option autoImplicit false
set_option relaxedAutoImplicit false

namespace Sketchbook.Receiver.WindowDecoding

open Arduino.Text Foundation.RingIndex Sensor.BinaryReading RingReceiver FramePairing

/-! ### The text of a list of durations -/

/-- The characters that the decode loop writes for a list of durations. -/
def decodedChars : Char → List Micros → List Char
  | bitreceived, t0 :: t1 :: rest =>
    bitreceivedAfter t0 t1 bitreceived ::
      decodedChars (bitreceivedAfter t0 t1 bitreceived) rest
  | _, _ => []

/-- The memory after characters have been stored from an index on. -/
def overwrite (memory : ℕ → Char) (start : ℕ) (text : List Char) (index : ℕ) : Char :=
  if start ≤ index then text.getD (index - start) (memory index) else memory index

theorem overwrite_nil (memory : ℕ → Char) (start : ℕ) : overwrite memory start [] = memory := by
  funext index
  simp [overwrite]

theorem overwrite_update (memory : ℕ → Char) (start : ℕ) (character : Char) (text : List Char) :
    overwrite (Function.update memory start character) (start + 1) text =
      overwrite memory start (character :: text) := by
  funext index
  unfold overwrite
  rcases lt_trichotomy index start with hlt | rfl | hgt
  · rw [if_neg (by omega), if_neg (by omega), Function.update_of_ne (by omega)]
  · rw [if_neg (by omega), if_pos le_rfl, Function.update_self, Nat.sub_self,
      List.getD_cons_zero]
  · have hindex : index - start = index - (start + 1) + 1 := by omega
    rw [if_pos (by omega), if_pos (by omega), Function.update_of_ne (by omega), hindex,
      List.getD_cons_succ]

theorem overwrite_of_lt (memory : ℕ → Char) (text : List Char) {index : ℕ}
    (h : index < text.length) : overwrite memory 0 text index = text[index] := by
  rw [overwrite, if_pos (Nat.zero_le _), Nat.sub_zero, List.getD_eq_getElem _ _ h]

theorem length_decodedChars (bitreceived : Char) (count : ℕ) (durations : List Micros)
    (h : durations.length = 2 * count) :
    (decodedChars bitreceived durations).length = count := by
  induction count generalizing bitreceived durations with
  | zero =>
    obtain rfl := List.eq_nil_of_length_eq_zero (by simpa using h)
    rfl
  | succ count ih =>
    match durations, h with
    | t0 :: t1 :: rest, h =>
      have hrest : rest.length = 2 * count := by
        simp only [List.length_cons] at h
        omega
      rw [decodedChars, List.length_cons, ih _ rest hrest]

variable {size : ℕ} [NeZero size]

/-- After `count` turns the loop has written the text of `2 * count` cells. -/
theorem foldl_decodeBody (echoes : Bool) (timings : Fin size → Micros) (count : ℕ) (i : Fin size)
    (d : Decode) :
    ((stations 2 count i).foldl (fun d i ↦ decodeBody echoes timings i d) d).k = d.k + count ∧
      ((stations 2 count i).foldl (fun d i ↦ decodeBody echoes timings i d) d).Str =
        overwrite d.Str d.k (decodedChars d.bitreceived (segment timings i (2 * count))) := by
  induction count generalizing i d with
  | zero =>
    refine ⟨rfl, ?_⟩
    show d.Str = overwrite d.Str d.k []
    rw [overwrite_nil]
  | succ count ih =>
    obtain ⟨hk, hStr⟩ := ih (advance i 2) (decodeBody echoes timings i d)
    refine ⟨?_, ?_⟩
    · show ((stations 2 count (advance i 2)).foldl _ (decodeBody echoes timings i d)).k = _
      rw [hk]
      show d.k + 1 + count = d.k + (count + 1)
      omega
    · show ((stations 2 count (advance i 2)).foldl _ (decodeBody echoes timings i d)).Str = _
      rw [hStr, segment_pair, decodedChars, ← overwrite_update]
      rfl

/-! ### What is printed -/

/-- The temperatures among the printed items. -/
def temperatures (items : List SerialItem) : List ℚ :=
  items.filterMap fun item ↦
    match item with
    | .number content => some content
    | .text _ | .chars _ => none

@[simp] theorem temperatures_append (first second : List SerialItem) :
    temperatures (first ++ second) = temperatures first ++ temperatures second :=
  List.filterMap_append

/-- The decode loop prints no temperature. -/
theorem temperatures_foldl_decodeBody (echoes : Bool) (timings : Fin size → Micros)
    (positions : List (Fin size)) (d : Decode) :
    temperatures (positions.foldl (fun d i ↦ decodeBody echoes timings i d) d).printed =
      temperatures d.printed := by
  induction positions generalizing d with
  | nil => rfl
  | cons i positions ih =>
    rw [List.foldl_cons, ih]
    cases echoes with
    | false => rfl
    | true =>
      show temperatures (d.printed ++ [.text _]) = _
      rw [temperatures_append]
      exact List.append_nil _

/-! ### The decode loop on a window of 66 cells -/

/-- The 66 durations of the window. -/
def window (s : ReceiverState size) : List Micros := segment s.timings s.syncIndex1 66

theorem exists_decodeLoop (hsize : 66 < size) (echoes : Bool) {s : ReceiverState size}
    (h : advance s.syncIndex1 66 = s.syncIndex2) (stack : Stack) :
    ∃ d, decodeLoop echoes s stack = some d ∧ d.k = 33 ∧
      d.Str = overwrite stack.Str 0 (decodedChars stack.bitreceived (window s)) ∧
      temperatures d.printed = [] := by
  have hwalk := walk_eq_foldl 2 (by omega) (decodeBody echoes s.timings) 33 (by omega) size
    (by omega) s.syncIndex1 stack.decode
  obtain ⟨hk, hStr⟩ := foldl_decodeBody echoes s.timings 33 s.syncIndex1 stack.decode
  have hstop : s.syncIndex2 = advance s.syncIndex1 (2 * 33) := h.symm
  have hprinted := temperatures_foldl_decodeBody echoes s.timings (stations 2 33 s.syncIndex1)
    stack.decode
  exact ⟨_, by rw [decodeLoop, hstop]; exact hwalk, hk, hStr, hprinted⟩

/-- The temperature is read from characters 16 to 23 of the text, as long as the text has no NUL up
to there. -/
theorem tempOut_eq {d : Decode} {memory : ℕ → Char} {text : List Char}
    (hStr : d.Str = overwrite memory 0 text) (hlength : 24 ≤ text.length)
    (hnul : nul ∉ text.take 24) : tempOut d = (text.take 24).drop 16 := by
  have hcell (index : ℕ) (hindex : index < 24) : d.Str index = text[index] := by
    rw [hStr, overwrite_of_lt memory text (by omega)]
  have htake : (List.range 24).map d.Str = text.take 24 := by
    apply List.ext_getElem
    · simp [hlength]
    · intro index hleft hright
      have hindex : index < 24 := by simpa using hleft
      rw [List.getElem_map, List.getElem_range, hcell index hindex, List.getElem_take]
  have hcells : ∀ index < 24, d.Str index ≠ nul := by
    intro index hindex heq
    rw [hcell index hindex] at heq
    have hlt : index < (text.take 24).length := by simp; omega
    have hmem : (text.take 24)[index] ∈ text.take 24 := List.getElem_mem hlt
    rw [List.getElem_take, heq] at hmem
    exact hnul hmem
  rw [tempOut, cSubstring_eq hcells, htake]

/-! ### Durations that spell a word -/

/-- Each bit is a separator and a pulse of its own length. -/
def Spells : List Bool → List Micros → Prop
  | [], [] => True
  | bit :: word, t0 :: t1 :: rest =>
    within sepLength 100 t0 ∧ within (if bit then bit1Length else bit0Length) 1000 t1 ∧
      Spells word rest
  | _, _ => False

theorem Spells.length_eq {word : List Bool} {durations : List Micros} (h : Spells word durations) :
    durations.length = 2 * word.length := by
  induction word generalizing durations with
  | nil =>
    cases durations with
    | nil => rfl
    | cons t0 rest => exact h.elim
  | cons bit word ih =>
    match durations, h with
    | t0 :: t1 :: rest, h =>
      have hrest := ih h.2.2
      simp only [List.length_cons, hrest]
      ring

theorem Spells.take {word : List Bool} {times : List Micros} (h : Spells word times) (count : ℕ) :
    Spells (word.take count) (times.take (2 * count)) := by
  induction count generalizing word times with
  | zero => trivial
  | succ count ih =>
    cases word with
    | nil =>
      cases times with
      | nil => trivial
      | cons t0 rest => exact h.elim
    | cons bit word =>
      match times, h with
      | t0 :: t1 :: rest, h => exact ⟨h.1, h.2.1, ih h.2.2⟩

theorem Spells.drop {word : List Bool} {times : List Micros} (h : Spells word times) (count : ℕ) :
    Spells (word.drop count) (times.drop (2 * count)) := by
  induction count generalizing word times with
  | zero => exact h
  | succ count ih =>
    cases word with
    | nil =>
      cases times with
      | nil => trivial
      | cons t0 rest => exact h.elim
    | cons bit word =>
      match times, h with
      | t0 :: t1 :: rest, h => exact ih h.2.2

/-- The durations that a transmitter sends for a word. -/
def encode : List Bool → List Micros
  | [] => []
  | bit :: word => 500 :: (if bit then 4000 else 2000) :: encode word

theorem spells_encode (word : List Bool) : Spells word (encode word) := by
  induction word with
  | nil => trivial
  | cons bit word ih =>
    refine ⟨by decide, ?_, ih⟩
    cases bit <;> decide

/-- A valid bit is read as itself, whatever was read before. -/
theorem bitreceivedAfter_of_valid {bit : Bool} {t0 t1 : Micros} (hsep : within sepLength 100 t0)
    (hbit : within (if bit then bit1Length else bit0Length) 1000 t1) (bitreceived : Char) :
    bitreceivedAfter t0 t1 bitreceived = bitChar bit := by
  unfold bitreceivedAfter
  rw [if_pos hsep]
  cases bit with
  | true =>
    have hone : within bit1Length 1000 t1 := hbit
    rw [if_pos hone]
    rfl
  | false =>
    have hzero : within bit0Length 1000 t1 := hbit
    have hone : ¬ within bit1Length 1000 t1 := by
      simp only [within, bit0Length, bit1Length] at hzero ⊢
      omega
    rw [if_neg hone, if_pos hzero]
    rfl

/-- Durations that spell a word are decoded to its text. -/
theorem decodedChars_of_spells {word : List Bool} {durations : List Micros}
    (h : Spells word durations) (bitreceived : Char) (rest : List Micros) :
    ∃ last, decodedChars bitreceived (durations ++ rest) =
      bitText word ++ decodedChars last rest := by
  induction word generalizing durations bitreceived with
  | nil =>
    cases durations with
    | nil => exact ⟨bitreceived, rfl⟩
    | cons t0 tail => exact h.elim
  | cons bit word ih =>
    match durations, h with
    | t0 :: t1 :: tail, h =>
      obtain ⟨hsep, hbit, htail⟩ := h
      have hread := bitreceivedAfter_of_valid hsep hbit bitreceived
      obtain ⟨last, hlast⟩ := ih htail (bitChar bit)
      refine ⟨last, ?_⟩
      rw [List.cons_append, List.cons_append, decodedChars, hread, hlast]
      rfl

/-- After a frame that spells a word the buffer starts with its text, and the temperature is read
from bits 16 to 23. -/
theorem decode_of_spells {d : Decode} {stack : Stack} {word : List Bool}
    {frame rest : List Micros} (hword : word.length = 32) (hspells : Spells word frame)
    (hStr : d.Str = overwrite stack.Str 0 (decodedChars stack.bitreceived (frame ++ rest))) :
    (List.range 32).map d.Str = bitText word ∧
      tempOut d = bitText ((word.take 24).drop 16) := by
  obtain ⟨last, htext⟩ := decodedChars_of_spells hspells stack.bitreceived rest
  rw [htext] at hStr
  have hlength : 32 ≤ (bitText word ++ decodedChars last rest).length := by simp [hword]
  have htake : (bitText word ++ decodedChars last rest).take 24 = bitText (word.take 24) := by
    rw [List.take_append_of_le_length (by simp [hword])]
    simp [bitText]
  constructor
  · apply List.ext_getElem
    · simp [hword]
    · intro index hleft hright
      have hindex : index < 32 := by simpa using hleft
      rw [List.getElem_map, List.getElem_range, hStr, overwrite_of_lt _ _ (by omega),
        List.getElem_append_left hright]
  · rw [tempOut_eq hStr (by omega) (by rw [htake]; exact nul_notMem_bitText _), htake]
    simp [bitText]

end Sketchbook.Receiver.WindowDecoding
