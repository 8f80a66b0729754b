import Sketchbook.Receiver.RingReceiver
import Sketchbook.Sensor.PulseClassifier

/-!
# The scan of net_micros and the frame it reports

net_micros scans 70 durations for a sync with 33 pulses behind it, writes a character for each
pulse into `Str` and prints the temperature of the text when it lies between 14 and 17 degrees. The
loop is meant to stop there: its condition tests `captured`, and behind the print stands `captured
== true;`, a comparison whose value is dropped. `run_captured` says that the flag is never set, and
`ScanInvariant` what the scan does instead: it goes through the whole array, and `temperature` is
the one of the last reported window.

`bitreceived` is an uninitialised local of `loop`. A sync inside a window does not assign it, so its
value is carried from pulse to pulse and from window to window (`carried`). `timings` and `Str` are
memory: the scan reads and writes cells by their index, and records the windows it examines, the
cells of `Str` it writes and what `Str` holds each time a String is built from it.
-/

set_option autoImplicit false
set_option relaxedAutoImplicit false

namespace Sketchbook.NetMicros.FrameReport

open Arduino.Text Foundation.Memory Sensor.BinaryReading Sensor.PulseClassifier
open Receiver.RingReceiver (SerialItem)

def length1 : ℕ := 70
def syncLength : ℤ := 9200
def bit1Length : ℤ := 4000
def bit0Length : ℤ := 2000
def deviation : ℤ := 1000

/-- The size of `Str`. -/
def strSize : ℕ := 32

/-- The lengths of the sketch. -/
def lengths : PulseLengths where
  syncLength := syncLength
  bit1Length := bit1Length
  bit0Length := bit0Length
  deviation := deviation
  bits_apart := by decide
  sync_apart := by decide
  deviation_nonneg := by decide

/-- What the classifier prints for a pulse. -/
def mark (t : ℤ) : String :=
  if lengths.within bit1Length t then "1"
  else if lengths.within bit0Length t then "0"
  else if lengths.within syncLength t then "SYNC"
  else "?"

/-- The variables of the scan, what it has printed, the windows it has examined, the indices at
which it has written `Str`, and the cells of `Str` each time a String was built from them. -/
structure Scan where
  bitreceived : Char
  Str : ℕ → Char
  captured : Bool
  temperature : Option ℚ
  printed : List SerialItem
  examined : List ℕ
  writes : List ℕ
  built : List (List Char)

/-- The scan before its first turn: `loop` has cleared `captured`, and `temperature` is an
uninitialised local. -/
def start (bitreceived : Char) (Str : ℕ → Char) : Scan :=
  ⟨bitreceived, Str, false, none, [], [], [], []⟩

/-- A turn of the inner loop, `k` counted from 0: classify `timings[i + k + 1]` and write `Str[k]`.
-/
def classifyInto (timings : ℕ → ℤ) (i : ℕ) (s : Scan) (k : ℕ) : Scan :=
  let t := timings (i + (k + 1))
  let bitreceived := lengths.classify s.bitreceived t
  { s with
    bitreceived := bitreceived
    Str := Function.update s.Str k bitreceived
    printed := s.printed ++ [.text (mark t)]
    writes := s.writes ++ [k] }

/-- The statements behind the inner loop. `captured == true;` has no effect. -/
def report (s : Scan) : Scan :=
  let tempOut := cSubstring s.Str 16 24
  let s := { s with built := s.built ++ [(List.range strSize).map s.Str] }
  if bintodec tempOut > 14 ∧ bintodec tempOut < 17 then
    { s with
      printed := s.printed ++ [.text "Temp_out=", .number (bintodec tempOut)]
      temperature := some (bintodec tempOut) }
  else s

/-- The condition under which the scan classifies the pulses behind an index. -/
def OpensWindow (timings : ℕ → ℤ) (i : ℕ) : Prop :=
  lengths.within syncLength (timings i) ∧ i + 33 < length1

instance (timings : ℕ → ℤ) (i : ℕ) : Decidable (OpensWindow timings i) :=
  inferInstanceAs (Decidable (_ ∧ _))

/-- A turn of `while (i < length1 && captured == false)`. -/
def turn (timings : ℕ → ℤ) (s : Scan) (i : ℕ) : Scan :=
  if s.captured = false then
    if OpensWindow timings i then
      let s := { s with
        printed := s.printed ++ [.text ""]
        examined := s.examined ++ [i] }
      report ((List.range 33).foldl (classifyInto timings i) s)
    else s
  else s

/-- The scan up to an index. -/
def runTo (timings : ℕ → ℤ) (s : Scan) (n : ℕ) : Scan :=
  (List.range n).foldl (turn timings) s

/-- The whole scan. -/
def run (timings : ℕ → ℤ) (s : Scan) : Scan := runTo timings s length1

/-! ### The windows of an array -/

/-- The character in `bitreceived` when the scan comes to an index, from the one it started with. -/
def carried (timings : ℕ → ℤ) (bitreceived : Char) : ℕ → Char
  | 0 => bitreceived
  | i + 1 =>
    if OpensWindow timings i then
      (behind timings i 33).foldl lengths.classify (carried timings bitreceived i)
    else carried timings bitreceived i

/-- The text of the window behind an index. -/
def text (timings : ℕ → ℤ) (bitreceived : Char) (i : ℕ) : List Char :=
  lengths.capture (carried timings bitreceived i) (behind timings i 33)

/-- The temperature of the window behind an index: its characters 16 to 23, read by `bintodec`. -/
def reading (timings : ℕ → ℤ) (bitreceived : Char) (i : ℕ) : ℚ :=
  bintodec (substring (text timings bitreceived i) 16 24)

/-- A window opens behind this index, and its temperature lies between 14 and 17 degrees. -/
def Plausible (timings : ℕ → ℤ) (bitreceived : Char) (i : ℕ) : Prop :=
  OpensWindow timings i ∧ 14 < reading timings bitreceived i ∧ reading timings bitreceived i < 17

instance (timings : ℕ → ℤ) (bitreceived : Char) (i : ℕ) :
    Decidable (Plausible timings bitreceived i) :=
  inferInstanceAs (Decidable (_ ∧ _))

/-! ### A turn of the scan -/

/-- What the inner loop has done behind its first turns. -/
theorem foldl_classifyInto (timings : ℕ → ℤ) (i : ℕ) (s : Scan) (n : ℕ) :
    (List.range n).foldl (classifyInto timings i) s =
      { s with
        bitreceived := (behind timings i n).foldl lengths.classify s.bitreceived
        Str := stored s.Str (lengths.capture s.bitreceived (behind timings i n))
        printed := s.printed ++ (behind timings i n).map fun t ↦ .text (mark t)
        writes := s.writes ++ List.range n } := by
  induction n with
  | zero => simp [behind, PulseLengths.capture]
  | succ n ih =>
    rw [List.range_succ, List.foldl_append, ih, List.foldl_cons, List.foldl_nil, classifyInto]
    simp only [update_stored_capture, List.map_append, List.append_assoc, List.map_cons,
      List.map_nil, behind_succ, List.foldl_append, List.foldl_cons, List.foldl_nil]

/-- The temperature that `loop` reads off `Str` is the one of the text, unless the text starts with
a NUL and the String is empty. -/
theorem bintodec_stored (memory : ℕ → Char) (bitreceived : Char) {pulses : List ℤ}
    (hlength : pulses.length = 33) :
    bintodec (cSubstring (stored memory (lengths.capture bitreceived pulses)) 16 24) =
      if (lengths.capture bitreceived pulses).head? = some nul then 0
      else bintodec (substring (lengths.capture bitreceived pulses) 16 24) := by
  have hcells : (List.range 24).map (stored memory (lengths.capture bitreceived pulses)) =
      (lengths.capture bitreceived pulses).take 24 :=
    map_range_stored memory (by rw [length_capture, hlength]; decide)
  rw [cSubstring, hcells]
  split_ifs with hnul
  · have hempty : cString ((lengths.capture bitreceived pulses).take 24) = [] := by
      cases htext : lengths.capture bitreceived pulses with
      | nil => rfl
      | cons first rest =>
        rw [htext, List.head?_cons, Option.some.injEq] at hnul
        rw [hnul]
        exact List.takeWhile_cons_of_neg (by simp)
    rw [hempty]
    decide +kernel
  · have hclear : nul ∉ (lengths.capture bitreceived pulses).take 24 := fun hmem ↦
      nul_notMem_capture hnul (List.mem_of_mem_take hmem)
    rw [cString_eq_self hclear, substring, List.take_take, Nat.min_self, substring]

/-- A plausible window whose text does not start with a NUL: the scan prints its temperature. -/
def Reported (timings : ℕ → ℤ) (bitreceived : Char) (i : ℕ) : Prop :=
  Plausible timings bitreceived i ∧ (text timings bitreceived i).head? ≠ some nul

instance (timings : ℕ → ℤ) (bitreceived : Char) (i : ℕ) :
    Decidable (Reported timings bitreceived i) :=
  inferInstanceAs (Decidable (_ ∧ _))

/-- The statements behind the inner loop change `temperature` and what is printed at most. -/
theorem report_eq (s : Scan) :
    report s = { s with
      built := s.built ++ [(List.range strSize).map s.Str]
      printed := (report s).printed
      temperature :=
        if bintodec (cSubstring s.Str 16 24) > 14 ∧ bintodec (cSubstring s.Str 16 24) < 17 then
          some (bintodec (cSubstring s.Str 16 24))
        else s.temperature } := by
  unfold report
  dsimp only
  split_ifs <;> rfl

/-- A turn that opens a window classifies it, and takes its temperature if it is reported. -/
theorem turn_of_opens {timings : ℕ → ℤ} {s : Scan} {i : ℕ} {bitreceived : Char}
    (hfree : s.captured = false) (hopens : OpensWindow timings i)
    (hcarried : s.bitreceived = carried timings bitreceived i) :
    (turn timings s i).captured = false ∧
      (turn timings s i).bitreceived = carried timings bitreceived (i + 1) ∧
      (turn timings s i).temperature =
        (if Reported timings bitreceived i then some (reading timings bitreceived i)
          else s.temperature) ∧
      (turn timings s i).examined = s.examined ++ [i] ∧
      (turn timings s i).writes = s.writes ++ List.range 33 ∧
      (turn timings s i).built = s.built ++ [(text timings bitreceived i).take strSize] := by
  have hlength : (text timings bitreceived i).length = 33 := by simp [text]
  have hcells : (List.range strSize).map (stored s.Str (text timings bitreceived i)) =
      (text timings bitreceived i).take strSize :=
    map_range_stored s.Str (by rw [hlength]; decide)
  have htempOut := bintodec_stored s.Str (carried timings bitreceived i)
    (length_behind timings i 33)
  rw [turn, if_pos hfree]
  dsimp only
  rw [if_pos hopens, foldl_classifyInto, hcarried, report_eq]
  refine ⟨hfree, ?_, ?_, rfl, rfl, congrArg (fun cells ↦ s.built ++ [cells]) hcells⟩
  · rw [carried, if_pos hopens]
  · dsimp only
    rw [htempOut]
    by_cases hnul : (text timings bitreceived i).head? = some nul
    · have hsilent : ¬ Reported timings bitreceived i := fun h ↦ h.2 hnul
      rw [if_neg hsilent, if_pos (show (lengths.capture _ _).head? = some nul from hnul),
        if_neg (by simp)]
    · rw [if_neg (show ¬ (lengths.capture _ _).head? = some nul from hnul)]
      by_cases hwarm : Plausible timings bitreceived i
      · have hreported : Reported timings bitreceived i := ⟨hwarm, hnul⟩
        rw [if_pos hreported]
        exact if_pos hwarm.2
      · rw [if_neg fun h : Reported timings bitreceived i ↦ hwarm h.1]
        exact if_neg fun h ↦ hwarm ⟨hopens, h⟩

/-- A turn that opens no window changes nothing. -/
theorem turn_of_not_opens {timings : ℕ → ℤ} {s : Scan} {i : ℕ} (h : ¬ OpensWindow timings i) :
    turn timings s i = s := by
  rw [turn, if_neg h, ite_self]

/-! ### The whole scan -/

/-- What the scan has done up to an index: `captured` is clear, every window that opens has been
examined, and `temperature` is the one of the last reported window. -/
structure ScanInvariant (timings : ℕ → ℤ) (bitreceived : Char) (n : ℕ) (s : Scan) : Prop where
  captured : s.captured = false
  carried : s.bitreceived = carried timings bitreceived n
  temperature : s.temperature =
    (((List.range n).filter (Reported timings bitreceived)).getLast?).map
      (reading timings bitreceived)
  examined : s.examined = (List.range n).filter (OpensWindow timings)
  writes : s.writes = s.examined.flatMap fun _ ↦ List.range 33
  built : s.built = s.examined.map fun i ↦ (text timings bitreceived i).take strSize

theorem ScanInvariant.turn {timings : ℕ → ℤ} {bitreceived : Char} {n : ℕ} {s : Scan}
    (h : ScanInvariant timings bitreceived n s) :
    ScanInvariant timings bitreceived (n + 1) (turn timings s n) := by
  by_cases hopens : OpensWindow timings n
  · obtain ⟨hcaptured, hcarried, htemperature, hexamined, hwrites, hbuilt⟩ :=
      turn_of_opens h.captured hopens h.carried
    refine ⟨hcaptured, hcarried, ?_, ?_, ?_, ?_⟩
    · rw [htemperature, List.range_succ, List.filter_append, h.temperature]
      by_cases hreported : Reported timings bitreceived n <;> simp [hreported]
    · rw [hexamined, h.examined, List.range_succ, List.filter_append]
      simp [hopens]
    · rw [hwrites, hexamined, List.flatMap_append, h.writes]
      simp
    · rw [hbuilt, hexamined, List.map_append, h.built]
      rfl
  · have hreported : ¬ Reported timings bitreceived n := fun h ↦ hopens h.1.1
    rw [turn_of_not_opens hopens]
    refine ⟨h.captured, ?_, ?_, ?_, h.writes, h.built⟩
    · rw [h.carried, FrameReport.carried, if_neg hopens]
    · rw [h.temperature, List.range_succ, List.filter_append]
      simp [hreported]
    · rw [h.examined, List.range_succ, List.filter_append]
      simp [hopens]

theorem scanInvariant_runTo (timings : ℕ → ℤ) (bitreceived : Char) (Str : ℕ → Char) (n : ℕ) :
    ScanInvariant timings bitreceived n (runTo timings (start bitreceived Str) n) := by
  induction n with
  | zero => exact ⟨rfl, rfl, rfl, rfl, rfl, rfl⟩
  | succ n ih =>
    rw [runTo, List.range_succ, List.foldl_append]
    exact ih.turn

/-! ### The report -/

/-- The scan sets `captured` if and only if a plausible window is there; `temperature` is then the
one of the first of them, and the scan examines no window behind it. -/
structure ReportsPlausible (timings : ℕ → ℤ) (bitreceived : Char) (Str : ℕ → Char) : Prop where
  captured : (run timings (start bitreceived Str)).captured = true ↔
    ∃ i, Plausible timings bitreceived i
  first : ∀ i, Plausible timings bitreceived i → (∀ j < i, ¬ Plausible timings bitreceived j) →
    (run timings (start bitreceived Str)).temperature = some (reading timings bitreceived i) ∧
      ∀ j ∈ (run timings (start bitreceived Str)).examined, j ≤ i

/-- `captured` is clear behind every scan. -/
theorem run_captured (timings : ℕ → ℤ) (bitreceived : Char) (Str : ℕ → Char) :
    (run timings (start bitreceived Str)).captured = false :=
  (scanInvariant_runTo timings bitreceived Str length1).captured

/-- The scan reports as it is meant to exactly when no plausible window is there. -/
theorem reportsPlausible_iff (timings : ℕ → ℤ) (bitreceived : Char) (Str : ℕ → Char) :
    ReportsPlausible timings bitreceived Str ↔ ¬ ∃ i, Plausible timings bitreceived i := by
  have hclear := run_captured timings bitreceived Str
  constructor
  · intro hreports hwarm
    rw [hreports.captured.mpr hwarm] at hclear
    exact absurd hclear (by decide)
  · intro hnone
    refine ⟨iff_of_false (by rw [hclear]; decide) hnone, fun i hi _ ↦ absurd ⟨i, hi⟩ hnone⟩

/-- A sync and a frame at the start of the array, given by its eight pulses of the temperature. -/
def frameAtStart (pulses : List ℤ) (index : ℕ) : ℤ :=
  ([9200] ++ List.replicate 16 2000 ++ pulses ++ List.replicate 9 2000).getD index 0

/-- A frame of 15 degrees at the start of the array. -/
def warmFrame : ℕ → ℤ := frameAtStart [4000, 2000, 2000, 4000, 2000, 4000, 4000, 2000]

/-- A frame of 10 degrees at the start of the array. -/
def coldFrame : ℕ → ℤ := frameAtStart [2000, 4000, 4000, 2000, 2000, 4000, 2000, 2000]

theorem plausible_warmFrame : Plausible warmFrame nul 0 := by decide +kernel

theorem not_plausible_coldFrame (i : ℕ) : ¬ Plausible coldFrame nul i := by
  rintro ⟨hopens, hreading⟩
  have hi : i < 37 := Nat.lt_of_add_lt_add_right hopens.2
  have hcold : ∀ i < 37, OpensWindow coldFrame i → ¬ 14 < reading coldFrame nul i := by
    decide +kernel
  exact hcold i hi hopens hreading.1

/-- The scan reports as it is meant to for 10 degrees, and not for 15. -/
theorem reportsPlausible_iff_frames :
    ReportsPlausible coldFrame nul (fun _ ↦ nul) ∧
      ¬ ReportsPlausible warmFrame nul fun _ ↦ nul := by
  constructor
  · exact (reportsPlausible_iff _ _ _).mpr fun ⟨i, hi⟩ ↦ not_plausible_coldFrame i hi
  · exact fun hreports ↦ (reportsPlausible_iff _ _ _).mp hreports ⟨0, plausible_warmFrame⟩

/-- The frame of 15 degrees leaves `captured` clear. -/
theorem not_forall_reportsPlausible : ¬ ∀ (timings : ℕ → ℤ) (bitreceived : Char) (Str : ℕ → Char),
    ReportsPlausible timings bitreceived Str := by
  intro h
  have hset := (h warmFrame nul fun _ ↦ nul).captured.mpr ⟨0, plausible_warmFrame⟩
  rw [run_captured] at hset
  exact absurd hset (by decide)

end Sketchbook.NetMicros.FrameReport
