import Sketchbook.Receiver.TemperatureReport

/-!
# Characters that depend on other pairs of a window

Each of the 33 characters that the decode loop writes should be a function of its own pair of
durations (`Independent`). `independent_pair_iff` says for which pairs it is: all but those with a
good separator and a pulse in neither bit window (`Unassigned`). For such a pair the loop prints
`SYNC` and assigns no character, and what it writes is the character of the pair before, or the
uninitialised local for the first pair. A pulse that is no bit is then written as a `0` or a `1`.
-/

set_option autoImplicit false
set_option relaxedAutoImplicit false

namespace Sketchbook.Receiver.PairIndependence

open Foundation.RingIndex Foundation.TransitionSystem
open Sensor.BinaryReading RingReceiver FramePairing ReceiverRun WindowDecoding RoundTrip
open TemperatureReport

variable {size : ℕ} [NeZero size]

/-- The sync indices of a state delimit a window of 66 durations whose pair `j` has this separator
and this pulse. -/
structure HoldsPair (s : ReceiverState size) (j : ℕ) (t0 t1 : Micros) : Prop where
  closed : advance s.syncIndex1 66 = s.syncIndex2
  separator : separatorAt s j = t0
  pulse : pulseAt s j = t1

/-- In every two windows that have this pair at `j` the decode loop of a sketch writes the same
character to `Str[j]`, and it writes no bit if the pulse is in neither bit window. -/
def Independent (sketch : RingSketch) (t0 t1 : Micros) (j : ℕ) : Prop :=
  ∀ (s s' : ReceiverState sketch.ringBufferSize) (stack stack' : Stack),
    HoldsPair s j t0 t1 → HoldsPair s' j t0 t1 →
      ∃ d d', decodeLoop sketch.echoes s stack = some d ∧
        decodeLoop sketch.echoes s' stack' = some d' ∧ d.Str j = d'.Str j ∧
          (¬ within bit1Length 1000 t1 → ¬ within bit0Length 1000 t1 →
            d.Str j ≠ '0' ∧ d.Str j ≠ '1')

/-! ### The character of a pair -/

/-- An assigned pair determines its character, which is a bit only for a pulse in a bit window. -/
theorem bitreceivedAfter_eq_of_assigned {t0 t1 : Micros} (h : ¬ Unassigned t0 t1)
    (first second : Char) : bitreceivedAfter t0 t1 first = bitreceivedAfter t0 t1 second := by
  unfold bitreceivedAfter
  by_cases hsep : within sepLength 100 t0
  · by_cases hone : within bit1Length 1000 t1
    · simp only [hsep, hone, if_true]
    · by_cases hzero : within bit0Length 1000 t1
      · simp only [hsep, hone, hzero, if_true, if_false]
      · exact absurd ⟨hsep, hone, hzero⟩ h
  · simp only [hsep, if_false]

theorem bitreceivedAfter_of_not_bit {t0 t1 : Micros} (h : ¬ Unassigned t0 t1)
    (hone : ¬ within bit1Length 1000 t1) (hzero : ¬ within bit0Length 1000 t1)
    (bitreceived : Char) : bitreceivedAfter t0 t1 bitreceived = '?' :=
  if_neg fun hsep ↦ h ⟨hsep, hone, hzero⟩

theorem bitreceivedAfter_of_unassigned {t0 t1 : Micros} (h : Unassigned t0 t1)
    (bitreceived : Char) : bitreceivedAfter t0 t1 bitreceived = bitreceived := by
  rw [bitreceivedAfter, if_pos h.1, if_neg h.2.1, if_neg h.2.2]

/-- What the decode loop writes for a pair. -/
theorem exists_Str_eq {sketch : RingSketch} {s : ReceiverState sketch.ringBufferSize} {j : ℕ}
    {t0 t1 : Micros} (hj : j < 33) (h : HoldsPair s j t0 t1) (stack : Stack) :
    ∃ d before, decodeLoop sketch.echoes s stack = some d ∧
      d.Str j = bitreceivedAfter t0 t1 before := by
  obtain ⟨d, hd, -, hStr, -⟩ := exists_decodeLoop sketch.fits sketch.echoes h.closed stack
  have hlength : (decodedChars stack.bitreceived (window s)).length = 33 :=
    length_decodedChars _ 33 _ (by simp [window])
  obtain ⟨before, hbefore⟩ := getElem_decodedChars_window s stack.bitreceived j hj (by omega)
  refine ⟨d, before, hd, ?_⟩
  rw [hStr, overwrite_of_lt _ _ (by omega), hbefore, h.separator, h.pulse]

/-! ### A window of equal pairs -/

/-- A ring of equal pairs from cell 0 on, with a window in its first 66 cells. -/
def uniform (sketch : RingSketch) (t0 t1 : Micros) : ReceiverState sketch.ringBufferSize :=
  { powerOn fun index ↦ if (index : ℕ) % 2 = 0 then t0 else t1 with
    syncIndex2 := advance 0 66 }

theorem holdsPair_uniform (sketch : RingSketch) (t0 t1 : Micros) {j : ℕ} (hj : j < 33) :
    HoldsPair (uniform sketch t0 t1) j t0 t1 := by
  have hfits := sketch.fits
  refine ⟨rfl, ?_, ?_⟩
  · have hindex : (2 * j) % sketch.ringBufferSize = 2 * j := Nat.mod_eq_of_lt (by omega)
    simp [separatorAt, uniform, powerOn, val_advance, hindex]
  · have hindex : (2 * j + 1) % sketch.ringBufferSize = 2 * j + 1 := Nat.mod_eq_of_lt (by omega)
    have hodd : (2 * j + 1) % 2 = 1 := by omega
    simp [pulseAt, uniform, powerOn, val_advance, hindex, hodd]

/-- Unassigned pairs repeat the character that was there before. -/
theorem getElem_decodedChars_of_unassigned (bitreceived : Char) (times : List Micros) (pair : ℕ)
    (hpair : 2 * pair + 1 < times.length) (h : pair < (decodedChars bitreceived times).length)
    (hunassigned : ∀ earlier ≤ pair,
      Unassigned (times.getD (2 * earlier) 0) (times.getD (2 * earlier + 1) 0)) :
    (decodedChars bitreceived times)[pair] = bitreceived := by
  induction pair generalizing bitreceived times with
  | zero =>
    match times, hpair with
    | t0 :: t1 :: rest, _ => exact bitreceivedAfter_of_unassigned (hunassigned 0 le_rfl) _
  | succ pair ih =>
    match times, hpair with
    | t0 :: t1 :: rest, hpair =>
      have hrest : 2 * pair + 1 < rest.length := by
        simp only [List.length_cons] at hpair
        omega
      have hsame : bitreceivedAfter t0 t1 bitreceived = bitreceived :=
        bitreceivedAfter_of_unassigned (hunassigned 0 (Nat.zero_le _)) _
      have hlater := ih (bitreceivedAfter t0 t1 bitreceived) rest hrest
        (by simpa [decodedChars] using h) fun earlier hle ↦
          hunassigned (earlier + 1) (Nat.succ_le_succ hle)
      exact hlater.trans hsame

/-- Over a window of one unassigned pair the whole text is the uninitialised local. -/
theorem exists_Str_uniform (sketch : RingSketch) {t0 t1 : Micros} (h : Unassigned t0 t1) {j : ℕ}
    (hj : j < 33) (stack : Stack) :
    ∃ d, decodeLoop sketch.echoes (uniform sketch t0 t1) stack = some d ∧
      d.Str j = stack.bitreceived := by
  have hclosed := (holdsPair_uniform sketch t0 t1 hj).closed
  obtain ⟨d, hd, -, hStr, -⟩ := exists_decodeLoop sketch.fits sketch.echoes hclosed stack
  have hlength : (decodedChars stack.bitreceived (window (uniform sketch t0 t1))).length = 33 :=
    length_decodedChars _ 33 _ (by simp [window])
  refine ⟨d, hd, ?_⟩
  rw [hStr, overwrite_of_lt _ _ (by omega)]
  refine getElem_decodedChars_of_unassigned _ _ _ (by simp [window]; omega) _ fun pair hpair ↦ ?_
  have hholds := holdsPair_uniform sketch t0 t1 (Nat.lt_of_le_of_lt hpair hj)
  rw [List.getD_eq_getElem _ _ (by simp [window]; omega),
    List.getD_eq_getElem _ _ (by simp [window]; omega)]
  simp only [window, getElem_segment]
  have hpair : Unassigned (separatorAt (uniform sketch t0 t1) pair)
      (pulseAt (uniform sketch t0 t1) pair) := by
    rw [hholds.separator, hholds.pulse]
    exact h
  exact hpair

/-- The character of a pair depends on nothing but the pair, and is a bit only for a pulse in a bit
window, exactly when the pair is not a good separator with a pulse in neither bit window. -/
theorem independent_pair_iff (sketch : RingSketch) (t0 t1 : Micros) {j : ℕ} (hj : j < 32) :
    Independent sketch t0 t1 j ↔ ¬ Unassigned t0 t1 := by
  have hcell : j < 33 := Nat.lt_succ_of_lt hj
  constructor
  · intro hindependent hunassigned
    have hholds := holdsPair_uniform sketch t0 t1 hcell
    obtain ⟨zero, hzero, hzeroStr⟩ :=
      exists_Str_uniform sketch hunassigned hcell ⟨'0', fun _ ↦ '0'⟩
    obtain ⟨one, hone, honeStr⟩ := exists_Str_uniform sketch hunassigned hcell ⟨'1', fun _ ↦ '1'⟩
    obtain ⟨d, d', hd, hd', hsame, -⟩ :=
      hindependent _ _ ⟨'0', fun _ ↦ '0'⟩ ⟨'1', fun _ ↦ '1'⟩ hholds hholds
    obtain rfl := Option.some.inj (hzero.symm.trans hd)
    obtain rfl := Option.some.inj (hone.symm.trans hd')
    rw [hzeroStr, honeStr] at hsame
    exact absurd hsame (by decide)
  · intro hassigned s s' stack stack' hs hs'
    obtain ⟨d, before, hd, hStr⟩ := exists_Str_eq hcell hs stack
    obtain ⟨d', before', hd', hStr'⟩ := exists_Str_eq hcell hs' stack'
    refine ⟨d, d', hd, hd', ?_, fun hone hzero ↦ ?_⟩
    · rw [hStr, hStr', bitreceivedAfter_eq_of_assigned hassigned before before']
    · rw [hStr, bitreceivedAfter_of_not_bit hassigned hone hzero]
      decide

/-- The pair 0 of ones, read by RF_RECEIVER_V2_WITH_INTERRUPTS. -/
theorem independent_one :
    Independent RfReceiverV2WithInterrupts.sketch 500 4000 0 ↔ ¬ Unassigned 500 4000 :=
  independent_pair_iff RfReceiverV2WithInterrupts.sketch 500 4000 (by decide)

/-! ### Two received frames -/

/-- A frame between two marks of 16 equal bits, a pulse of 3000 us and 15 zeros. -/
def edgePulse (bit : Bool) : List Label :=
  (edgesAt 0 ([500, 9000] ++ encode (List.replicate 16 bit) ++ [500, 3000] ++
    encode (List.replicate 15 false) ++ [500, 9000])).map .edge

/-- The pulse of 3000 us is written as the bit before it. -/
theorem exists_run_edgePulse (bit : Bool) : ∃ trace m,
    Run (receiver RfReceiverV2WithInterrupts.sketch) trace m ∧
      m.running.state.received = true ∧
      separatorAt m.running.state 16 = 500 ∧ pulseAt m.running.state 16 = 3000 ∧
      (decodeLoop true m.running.state ⟨'?', fun _ ↦ '?'⟩).map (fun d ↦ d.Str 16) =
        some (bitChar bit) := by
  have hreplay : (replay (receiver RfReceiverV2WithInterrupts.sketch) (started fun _ ↦ 0)
      (edgePulse bit)).map (fun m ↦ (m.running.state.received, separatorAt m.running.state 16,
        pulseAt m.running.state 16,
        (decodeLoop true m.running.state ⟨'?', fun _ ↦ '?'⟩).map (fun d ↦ d.Str 16))) =
      some (true, 500, 3000, some (bitChar bit)) := by
    cases bit <;> decide +kernel
  obtain ⟨m, hrun, hvalues⟩ := exists_run_of_replay (initial_started _ _) hreplay
  simp only [Prod.mk.injEq] at hvalues
  exact ⟨_, m, hrun, hvalues⟩

/-- Two received frames with the same pair 16 are written with different characters there. -/
theorem not_forall_same_character : ¬ ∀ (trace trace' : List (Transition
      (Monitored RfReceiverV2WithInterrupts.sketch.ringBufferSize) Label))
    (m m' : Monitored RfReceiverV2WithInterrupts.sketch.ringBufferSize),
    Run (receiver RfReceiverV2WithInterrupts.sketch) trace m →
      Run (receiver RfReceiverV2WithInterrupts.sketch) trace' m' →
        m.running.state.received = true → m'.running.state.received = true →
          ∀ j < 32, separatorAt m.running.state j = separatorAt m'.running.state j →
            pulseAt m.running.state j = pulseAt m'.running.state j → ∀ stack d d',
              decodeLoop true m.running.state stack = some d →
                decodeLoop true m'.running.state stack = some d' → d.Str j = d'.Str j := by
  intro h
  obtain ⟨trace, m, hrun, hreceived, hseparator, hpulse, hchar⟩ := exists_run_edgePulse true
  obtain ⟨trace', m', hrun', hreceived', hseparator', hpulse', hchar'⟩ :=
    exists_run_edgePulse false
  obtain ⟨d, hd, hStr⟩ := Option.map_eq_some_iff.mp hchar
  obtain ⟨d', hd', hStr'⟩ := Option.map_eq_some_iff.mp hchar'
  have hsame := h trace trace' m m' hrun hrun' hreceived hreceived' 16 (by decide)
    (hseparator.trans hseparator'.symm) (hpulse.trans hpulse'.symm) _ d d' hd hd'
  rw [hStr, hStr'] at hsame
  exact absurd hsame (by decide)

end Sketchbook.Receiver.PairIndependence
