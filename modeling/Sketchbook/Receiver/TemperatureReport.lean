import Sketchbook.Receiver.RoundTrip
import Sketchbook.Receiver.ReceiverRun

/-!
# The temperature that loop prints for a window

`loop` writes `?` for a pair whose separator is out of range, but it makes no test on the decoded
string: it prints one temperature for every frame it sees, whatever the window holds.
`loops_reportWindow` says which one. `bintodec` counts every character but `1` as zero, so a `?`
counts like a valid 0. The statement is silent about windows in which a good separator is followed
by a pulse in neither bit window: the decode loop then assigns no character (`Unassigned`).

So a corrupted window is never refused: `loop` keeps to valid bits exactly where the eight pairs
that it prints are valid bits already (`loops_keepToValidBits_iff`).
-/

set_option autoImplicit false
set_option relaxedAutoImplicit false

namespace Sketchbook.Receiver.TemperatureReport

open Arduino.Text Foundation.BitWord Foundation.RingIndex Foundation.TransitionSystem
open Sensor.BinaryReading RingReceiver FramePairing ReceiverRun WindowDecoding RoundTrip

variable {size : ℕ} [NeZero size]

/-! ### The pairs of a window -/

/-- The first duration of a pair. -/
def separatorAt (s : ReceiverState size) (pair : ℕ) : Micros :=
  s.timings (advance s.syncIndex1 (2 * pair))

/-- The second duration of a pair. -/
def pulseAt (s : ReceiverState size) (pair : ℕ) : Micros :=
  s.timings (advance s.syncIndex1 (2 * pair + 1))

/-- A good separator and a pulse in one of the two bit windows. -/
def ValidBit (t0 t1 : Micros) : Prop :=
  within sepLength 100 t0 ∧ (within bit1Length 1000 t1 ∨ within bit0Length 1000 t1)

/-- A good separator and a pulse in neither bit window. -/
def Unassigned (t0 t1 : Micros) : Prop :=
  within sepLength 100 t0 ∧ ¬ within bit1Length 1000 t1 ∧ ¬ within bit0Length 1000 t1

/-- Whether a pair is a valid 1. -/
def readsOne (t0 t1 : Micros) : Bool :=
  decide (within sepLength 100 t0) && decide (within bit1Length 1000 t1)

/-- The character of an assigned pair is `1` for a valid 1 and something else otherwise, and never
NUL. -/
theorem bitreceivedAfter_of_assigned {t0 t1 : Micros} (h : ¬ Unassigned t0 t1)
    (bitreceived : Char) :
    decide (bitreceivedAfter t0 t1 bitreceived = '1') = readsOne t0 t1 ∧
      bitreceivedAfter t0 t1 bitreceived ≠ nul := by
  unfold bitreceivedAfter readsOne
  by_cases hsep : within sepLength 100 t0
  · by_cases hone : within bit1Length 1000 t1
    · simp [hsep, hone, nul]
    · by_cases hzero : within bit0Length 1000 t1
      · simp [hsep, hone, hzero, nul]
      · exact absurd ⟨hsep, hone, hzero⟩ h
  · simp [hsep, nul]

/-- The character of a pair depends on the pair and on the character before. -/
theorem getElem_decodedChars (bitreceived : Char) (times : List Micros) (pair : ℕ)
    (hpair : 2 * pair + 1 < times.length)
    (h : pair < (decodedChars bitreceived times).length) :
    ∃ before, (decodedChars bitreceived times)[pair] =
      bitreceivedAfter times[2 * pair] times[2 * pair + 1] before := by
  induction pair generalizing bitreceived times with
  | zero =>
    match times, hpair with
    | t0 :: t1 :: rest, _ => exact ⟨bitreceived, rfl⟩
  | succ pair ih =>
    match times, hpair with
    | t0 :: t1 :: rest, hpair =>
      have hrest : 2 * pair + 1 < rest.length := by
        simp only [List.length_cons] at hpair
        omega
      obtain ⟨before, hbefore⟩ := ih (bitreceivedAfter t0 t1 bitreceived) rest hrest (by
        simpa [decodedChars] using h)
      exact ⟨before, hbefore⟩

/-- The character the decode loop writes for a pair of the window. -/
theorem getElem_decodedChars_window (s : ReceiverState size) (bitreceived : Char) (pair : ℕ)
    (hpair : pair < 33) (h : pair < (decodedChars bitreceived (window s)).length) :
    ∃ before, (decodedChars bitreceived (window s))[pair] =
      bitreceivedAfter (separatorAt s pair) (pulseAt s pair) before := by
  obtain ⟨before, hbefore⟩ := getElem_decodedChars bitreceived (window s) pair
    (by simp [window]; omega) h
  refine ⟨before, hbefore.trans ?_⟩
  simp only [window, getElem_segment]
  rfl

/-! ### What is printed for a window -/

/-- The number that the eight pairs 16 to 23 spell when every pair but a valid 1 counts as zero. -/
def windowValue (s : ReceiverState size) : ℕ :=
  value ((List.range 8).map fun bit ↦ readsOne (separatorAt s (16 + bit)) (pulseAt s (16 + bit)))

/-- The temperature read off a window without unassigned pairs up to bit 23. -/
theorem bintodec_tempOut {s : ReceiverState size} {d : Decode} {stack : Stack}
    (hStr : d.Str = overwrite stack.Str 0 (decodedChars stack.bitreceived (window s)))
    (hassigned : ∀ pair < 24, ¬ Unassigned (separatorAt s pair) (pulseAt s pair)) :
    bintodec (tempOut d) = (windowValue s : ℚ) / 10 := by
  have hlength : (decodedChars stack.bitreceived (window s)).length = 33 :=
    length_decodedChars _ 33 _ (by simp [window])
  have hchar (pair : ℕ) (hpair : pair < 24) :
      decide ((decodedChars stack.bitreceived (window s))[pair] = '1') =
          readsOne (separatorAt s pair) (pulseAt s pair) ∧
        (decodedChars stack.bitreceived (window s))[pair] ≠ nul := by
    obtain ⟨before, hbefore⟩ := getElem_decodedChars_window s stack.bitreceived pair (by omega)
      (by omega)
    rw [hbefore]
    exact bitreceivedAfter_of_assigned (hassigned pair hpair) before
  have hnul : nul ∉ (decodedChars stack.bitreceived (window s)).take 24 := by
    intro hmem
    obtain ⟨pair, hlt, hpair⟩ := List.getElem_of_mem hmem
    rw [List.getElem_take] at hpair
    simp only [List.length_take, hlength] at hlt
    exact (hchar pair (by omega)).2 hpair
  rw [tempOut_eq hStr (by omega) hnul, bintodec_eq_value _ (by simp [hlength])]
  congr 3
  apply List.ext_getElem
  · simp [hlength]
  · intro bit hleft hright
    have hbit : bit < 8 := by simpa using hright
    simp only [List.getElem_map, List.getElem_drop, List.getElem_take, List.getElem_range]
    exact (hchar (16 + bit) (by omega)).1

/-- What a `loop` does with a received frame: it ends, prints one temperature, and without
unassigned pairs up to bit 23 that temperature is the one of `windowValue`. -/
def ReportsWindow (loop : ReceiverState size → Stack →
    Option (ReceiverState size × List SerialItem)) : Prop :=
  ∀ s stack, WellFormed s → s.received = true → ∃ items temperature,
    loop s stack = some (clearReceived s, items) ∧ temperatures items = [temperature] ∧
      ((∀ pair < 24, ¬ Unassigned (separatorAt s pair) (pulseAt s pair)) →
        temperature = (windowValue s : ℚ) / 10)

theorem reportsWindow_loop (hsize : 66 < size) :
    ReportsWindow (loop : ReceiverState size → Stack → _) := by
  intro s stack hs hreceived
  have htracks := hs.tracks_complete hreceived
  obtain ⟨d, hd, -, hStr, hprinted⟩ := exists_decodeLoop hsize true htracks.2.2.2 stack
  refine ⟨_, bintodec (tempOut d), by simp only [loop, hreceived, hd]; rfl, ?_,
    bintodec_tempOut hStr⟩
  rw [temperatures_append, hprinted]
  rfl

theorem reportsWindow_xively : ReportsWindow XivelyRfDs1820.loop := by
  intro s stack hs hreceived
  have htracks := hs.tracks_complete hreceived
  obtain ⟨d, hd, -, hStr, -⟩ :=
    exists_decodeLoop XivelyRfDs1820.sketch.fits false htracks.2.2.2 stack
  exact ⟨_, bintodec (tempOut d), by simp only [XivelyRfDs1820.loop, hreceived, hd]; rfl, rfl,
    bintodec_tempOut hStr⟩

/-- Every receiver prints one temperature for every frame it sees. -/
theorem loops_reportWindow : ReportsWindow RfReceiverV2WithInterrupts.loop ∧
    ReportsWindow RfReceiver2.loop ∧ ReportsWindow XivelyRfDs1820.loop :=
  ⟨reportsWindow_loop RfReceiverV2WithInterrupts.sketch.fits,
    reportsWindow_loop RfReceiver2.sketch.fits, reportsWindow_xively⟩

/-! ### Corrupted windows -/

/-- Each of the eight pairs that the temperature is read from is a valid bit. -/
def EightValidBits (s : ReceiverState size) : Prop :=
  ∀ pair, 16 ≤ pair → pair < 24 → ValidBit (separatorAt s pair) (pulseAt s pair)

/-- A `loop` that prints a temperature for the state only if it is made of valid bits. -/
def KeepsToValidBits (loop : ReceiverState size → Stack →
    Option (ReceiverState size × List SerialItem)) (s : ReceiverState size) : Prop :=
  ∀ stack next items, loop s stack = some (next, items) → temperatures items ≠ [] →
    EightValidBits s

/-- A `loop` that prints for every window refuses no corrupted one. -/
theorem ReportsWindow.keepsToValidBits_iff {loop : ReceiverState size → Stack →
      Option (ReceiverState size × List SerialItem)} (hloop : ReportsWindow loop)
    {s : ReceiverState size} (hs : WellFormed s) (hreceived : s.received = true) :
    KeepsToValidBits loop s ↔ EightValidBits s := by
  constructor
  · intro hkeeps
    obtain ⟨items, temperature, hprints, htemperature, -⟩ :=
      hloop s ⟨'0', fun _ ↦ '0'⟩ hs hreceived
    exact hkeeps _ _ _ hprints (by simp [htemperature])
  · intro hvalid stack next items _ _
    exact hvalid

/-- Every receiver keeps to valid bits exactly when the eight pairs are valid bits: it has no test
that could refuse a window. -/
theorem loops_keepToValidBits_iff
    (s : ReceiverState RfReceiverV2WithInterrupts.sketch.ringBufferSize)
    (t : ReceiverState RfReceiver2.sketch.ringBufferSize)
    (u : ReceiverState XivelyRfDs1820.sketch.ringBufferSize) :
    (WellFormed s → s.received = true →
      (KeepsToValidBits RfReceiverV2WithInterrupts.loop s ↔ EightValidBits s)) ∧
    (WellFormed t → t.received = true →
      (KeepsToValidBits RfReceiver2.loop t ↔ EightValidBits t)) ∧
    (WellFormed u → u.received = true →
      (KeepsToValidBits XivelyRfDs1820.loop u ↔ EightValidBits u)) := by
  obtain ⟨hinterrupts, hreceiver2, hxively⟩ := loops_reportWindow
  exact ⟨hinterrupts.keepsToValidBits_iff, hreceiver2.keepsToValidBits_iff,
    hxively.keepsToValidBits_iff⟩

/-- A frame between two marks whose pair 16 has a separator of 1000 us. -/
def badSeparator : List Label :=
  (edgesAt 0 ([500, 9000] ++ encode (List.replicate 16 false) ++ [1000, 2000] ++
    encode (List.replicate 15 false) ++ [500, 9000])).map .edge

theorem exists_run_badSeparator : ∃ trace m,
    Run (receiver RfReceiverV2WithInterrupts.sketch) trace m ∧
      m.running.state.received = true ∧
      ¬ ValidBit (separatorAt m.running.state 16) (pulseAt m.running.state 16) := by
  have hreplay : (replay (receiver RfReceiverV2WithInterrupts.sketch) (started fun _ ↦ 0)
      badSeparator).isSome = true := by
    decide +kernel
  obtain ⟨m, hm⟩ := Option.isSome_iff_exists.mp hreplay
  have hrun := (Run.start (initial_started _ _)).of_replay hm
  obtain rfl := Option.some.inj hm
  refine ⟨_, _, hrun, by decide +kernel, fun hvalid ↦ ?_⟩
  exact absurd hvalid.1 (by decide +kernel)

theorem loops_keepToValidBits_iff_badSeparator : ∃ trace m,
    Run (receiver RfReceiverV2WithInterrupts.sketch) trace m ∧
      m.running.state.received = true ∧
      ¬ KeepsToValidBits RfReceiverV2WithInterrupts.loop m.running.state := by
  obtain ⟨trace, m, hrun, hreceived, hinvalid⟩ := exists_run_badSeparator
  refine ⟨trace, m, hrun, hreceived, fun hkeeps ↦ hinvalid ?_⟩
  have height : EightValidBits m.running.state :=
    ((loops_keepToValidBits_iff m.running.state (started fun _ ↦ 0).running.state
      (started fun _ ↦ 0).running.state).1 (run_wellFormed _ hrun) hreceived).mp hkeeps
  exact height 16 le_rfl (by omega)

/-- A temperature is printed for a window with an invalid bit. -/
theorem not_forall_validBit : ¬ ∀ (trace : List (Transition
      (Monitored RfReceiverV2WithInterrupts.sketch.ringBufferSize) Label))
    (m : Monitored RfReceiverV2WithInterrupts.sketch.ringBufferSize),
    Run (receiver RfReceiverV2WithInterrupts.sketch) trace m → m.running.state.received = true →
      ∀ stack next items,
        RfReceiverV2WithInterrupts.loop m.running.state stack = some (next, items) →
          temperatures items ≠ [] → ∀ pair, 16 ≤ pair → pair < 24 →
            ValidBit (separatorAt m.running.state pair) (pulseAt m.running.state pair) := by
  intro h
  obtain ⟨trace, m, hrun, hreceived, hinvalid⟩ := exists_run_badSeparator
  obtain ⟨items, temperature, hloop, hprinted, -⟩ :=
    reportsWindow_loop RfReceiverV2WithInterrupts.sketch.fits m.running.state
      ⟨'0', fun _ ↦ '0'⟩ (run_wellFormed _ hrun) hreceived
  exact hinvalid (h trace m hrun hreceived _ _ _ hloop (by simp [hprinted]) 16 le_rfl (by omega))

end Sketchbook.Receiver.TemperatureReport
