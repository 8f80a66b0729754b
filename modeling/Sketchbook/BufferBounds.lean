import Sketchbook.NetMicros.FrameReport
import Sketchbook.PulseScan.LoopPass
import Sketchbook.PulseScan.ScanMemory
import Sketchbook.Receiver.PairIndependence

/-!
# The character buffers of the decode loops

Four loops write a character for each pulse of a frame into a buffer and turn the buffer into a
String. The buffer should never be overrun and should hold a NUL when the String is built
(`BufferSafe`). A frame has 33 characters, the last one for the closing sync.

`Str` has 32 cells in the ring receivers and in net_micros. The ring receivers write `Str[32]` for
every frame (`not_ringSafe`), and net_micros for every window it opens (`netSafe_iff`).
`captured_data` of sketch_feb03a has the 33 cells, but none is left for a NUL, and a NUL is among
the characters only while `bitreceived` has not been assigned since power on (`scanSafe_iff`).
`pass_safe_iff` puts the loops together.
-/

set_option autoImplicit false
set_option relaxedAutoImplicit false

namespace Sketchbook.BufferBounds

open Arduino.Text Foundation.RingIndex Foundation.Memory Foundation.TransitionSystem

/-- Every write is inside the buffer, and its cells hold a NUL each time a String is built. -/
structure BufferSafe (capacity : ℕ) (writes : List ℕ) (built : List (List Char)) : Prop where
  bounded : ∀ index ∈ writes, index < capacity
  terminated : ∀ cells ∈ built, nul ∈ cells

/-! ### The ring receivers -/

section Ring

open Receiver.RingReceiver Receiver.ReceiverRun Receiver.FramePairing

/-- The size of `Str` in the ring receivers. -/
def strSize : ℕ := 32

variable {size : ℕ} [NeZero size]

/-- A turn of the decode loop, with the indices at which `Str` has been written. -/
def recordedBody (echoes : Bool) (timings : Fin size → Micros) (i : Fin size)
    (p : Decode × List ℕ) : Decode × List ℕ :=
  (decodeBody echoes timings i p.1, p.2 ++ [p.1.k])

/-- The decode loop, with the indices at which it writes `Str`. -/
def recordedLoop (echoes : Bool) (s : ReceiverState size) (stack : Stack) :
    Option (Decode × List ℕ) :=
  walk 2 (recordedBody echoes s.timings) s.syncIndex2 size s.syncIndex1 (stack.decode, [])

/-- The decode loop ends, and has used `Str` safely when the String is built from it. -/
def RingSafe (echoes : Bool) (s : ReceiverState size) (stack : Stack) : Prop :=
  ∃ d writes, recordedLoop echoes s stack = some (d, writes) ∧
    BufferSafe strSize writes [(List.range strSize).map d.Str]

/-- The loop writes one cell after the other. -/
theorem foldl_recordedBody (echoes : Bool) (timings : Fin size → Micros)
    (positions : List (Fin size)) (p : Decode × List ℕ) :
    positions.foldl (fun p i ↦ recordedBody echoes timings i p) p =
      (positions.foldl (fun d i ↦ decodeBody echoes timings i d) p.1,
        p.2 ++ (List.range positions.length).map fun turn ↦ p.1.k + turn) := by
  induction positions generalizing p with
  | nil => simp
  | cons i positions ih =>
    rw [List.foldl_cons, ih, List.foldl_cons, List.length_cons, List.range_succ_eq_map,
      List.map_cons, List.map_map]
    refine Prod.ext rfl ?_
    simp only [recordedBody, decodeBody, List.append_assoc, List.singleton_append, Nat.add_zero]
    congr 2
    refine List.map_congr_left fun turn _ ↦ ?_
    simp only [Function.comp_apply]
    omega

theorem length_stations (stride count : ℕ) (i : Fin size) :
    (stations stride count i).length = count := by
  induction count generalizing i with
  | zero => rfl
  | succ count ih => rw [stations, List.length_cons, ih]

/-- For a window of 66 durations the loop writes `Str[0]` to `Str[32]`. -/
theorem recordedLoop_eq (hsize : 66 < size) (echoes : Bool) {s : ReceiverState size}
    (h : advance s.syncIndex1 66 = s.syncIndex2) (stack : Stack) :
    ∃ d, recordedLoop echoes s stack = some (d, List.range 33) := by
  have hwalk := walk_eq_foldl 2 (by decide) (recordedBody echoes s.timings) 33 (by omega) size
    (by omega) s.syncIndex1 (stack.decode, [])
  rw [foldl_recordedBody, length_stations] at hwalk
  have hstop : s.syncIndex2 = advance s.syncIndex1 (2 * 33) := h.symm
  have hwrites : (List.range 33).map (fun turn ↦ stack.decode.k + turn) = List.range 33 := by
    simp [Stack.decode]
  rw [List.nil_append, hwrites] at hwalk
  exact ⟨_, by rw [recordedLoop, hstop, hwalk]⟩

/-- A received frame overruns `Str`. -/
theorem not_ringSafe (hsize : 66 < size) (echoes : Bool) {s : ReceiverState size}
    (h : advance s.syncIndex1 66 = s.syncIndex2) (stack : Stack) : ¬ RingSafe echoes s stack := by
  rintro ⟨d, writes, hd, hsafe⟩
  obtain ⟨d', hd'⟩ := recordedLoop_eq hsize echoes h stack
  have hwrites : writes = List.range 33 :=
    congrArg Prod.snd (Option.some.inj (hd.symm.trans hd'))
  have hlast := hsafe.bounded 32 (by rw [hwrites]; decide)
  exact absurd hlast (by decide)

/-- No reachable frame is decoded safely. -/
theorem not_ringSafe_of_run (sketch : RingSketch)
    {trace : List (Transition (Monitored sketch.ringBufferSize) Label)}
    {m : Monitored sketch.ringBufferSize} (hrun : Run (receiver sketch) trace m)
    (hreceived : m.running.state.received = true) (stack : Stack) :
    ¬ RingSafe sketch.echoes m.running.state stack := by
  have htracks := (run_wellFormed sketch hrun).tracks_complete hreceived
  exact not_ringSafe sketch.fits sketch.echoes htracks.2.2.2 stack

end Ring

/-! ### net_micros -/

section NetMicros

open NetMicros.FrameReport (OpensWindow ScanInvariant start run scanInvariant_runTo length1)

/-- A scan of net_micros has used `Str` safely. -/
def NetSafe (timings : ℕ → ℤ) (bitreceived : Char) (Str : ℕ → Char) : Prop :=
  BufferSafe NetMicros.FrameReport.strSize (run timings (start bitreceived Str)).writes
    (run timings (start bitreceived Str)).built

/-- The scan uses `Str` safely exactly when it opens no window. -/
theorem netSafe_iff (timings : ℕ → ℤ) (bitreceived : Char) (Str : ℕ → Char) :
    NetSafe timings bitreceived Str ↔ ∀ i, ¬ OpensWindow timings i := by
  have hscan : ScanInvariant timings bitreceived length1 (run timings (start bitreceived Str)) :=
    scanInvariant_runTo timings bitreceived Str length1
  have hexamined (i : ℕ) : i ∈ (run timings (start bitreceived Str)).examined ↔
      OpensWindow timings i := by
    rw [hscan.examined]
    simp only [List.mem_filter, List.mem_range, decide_eq_true_eq, and_iff_right_iff_imp]
    exact fun hopens ↦ Nat.lt_of_le_of_lt (Nat.le_add_right i 33) hopens.2
  constructor
  · intro hsafe i hopens
    have hwritten : 32 ∈ (run timings (start bitreceived Str)).writes := by
      rw [hscan.writes]
      exact List.mem_flatMap.mpr ⟨i, (hexamined i).mpr hopens, by decide⟩
    exact absurd (hsafe.bounded 32 hwritten) (by decide)
  · intro hnone
    have hempty : (run timings (start bitreceived Str)).examined = [] :=
      List.eq_nil_iff_forall_not_mem.mpr fun i hi ↦ hnone i ((hexamined i).mp hi)
    rw [NetSafe, hscan.writes, hscan.built, hempty]
    exact ⟨fun _ hindex ↦ absurd hindex List.not_mem_nil,
      fun _ hcells ↦ absurd hcells List.not_mem_nil⟩

end NetMicros

/-! ### sketch_feb03a -/

section SketchFeb03a

open Sensor.PulseClassifier
open PulseScan.FrameScan PulseScan.ScanAcceptance PulseScan.LoopPass PulseScan.ScanMemory

/-- A scan of sketch_feb03a has used `captured_data` safely. -/
def ScanSafe (timings : ℕ → ℤ) (memory : Memory) : Prop :=
  BufferSafe capturedSize (run timings memory.start).writes (run timings memory.start).built

/-- Every window that opens starts with a sync, and if the pulse behind its first can still open a
window, all of its pulses are syncs. -/
def SyncsOnly (timings : ℕ → ℤ) : Prop :=
  ∀ i, OpensWindow (array timings) i → lengths.within syncLength (timings (i + 1)) ∧
    (i + 34 < bufferSize → ∀ t ∈ behind timings i 33, lengths.within syncLength t)

/-- No window opens, or `bitreceived` is a NUL and the windows hold nothing that would assign it. -/
def KeepsNul (timings : ℕ → ℤ) (bitreceived : Char) : Prop :=
  (∀ i, ¬ OpensWindow (array timings) i) ∨ bitreceived = nul ∧ SyncsOnly timings

/-- The classifier leaves a NUL only at a sync, in a `bitreceived` that holds one. -/
theorem classify_eq_nul_iff (bitreceived : Char) (t : ℤ) :
    lengths.classify bitreceived t = nul ↔
      bitreceived = nul ∧ lengths.within syncLength t := by
  constructor
  · intro h
    obtain rfl := eq_nul_of_classify bitreceived t h
    rcases classify_cases lengths t with ⟨bit, hbit⟩ | hsync | hunknown
    · rw [classify_of_bit hbit] at h
      exact absurd h (Sensor.BinaryReading.bitChar_ne_nul bit)
    · exact ⟨rfl, hsync⟩
    · rw [hunknown] at h
      exact absurd h (by decide)
  · rintro ⟨rfl, hsync⟩
    exact classify_of_sync hsync nul

/-- A list of pulses leaves a NUL exactly when it holds syncs only. -/
theorem foldl_classify_eq_nul_iff (bitreceived : Char) (pulses : List ℤ) :
    pulses.foldl lengths.classify bitreceived = nul ↔
      bitreceived = nul ∧ ∀ t ∈ pulses, lengths.within syncLength t := by
  induction pulses generalizing bitreceived with
  | nil => simp
  | cons t rest ih => rw [List.foldl_cons, ih, classify_eq_nul_iff, List.forall_mem_cons, and_assoc]

/-- A window has a NUL among its characters exactly when the first of them is one. -/
theorem nul_mem_capture_iff (bitreceived : Char) (t : ℤ) (rest : List ℤ) :
    nul ∈ lengths.capture bitreceived (t :: rest) ↔
      bitreceived = nul ∧ lengths.within syncLength t := by
  rw [← classify_eq_nul_iff]
  constructor
  · intro hmem
    by_contra hfirst
    have hhead : (lengths.capture bitreceived (t :: rest)).head? ≠ some nul :=
      fun h ↦ hfirst (Option.some.inj h)
    exact nul_notMem_capture hhead hmem
  · intro hfirst
    rw [PulseLengths.capture, hfirst]
    exact List.mem_cons_self

/-- A window that is accepted has no NUL among its characters. -/
theorem nul_notMem_of_accepts {bitreceived : Char} {pulses : List ℤ}
    (h : Accepts (lengths.capture bitreceived pulses)) :
    nul ∉ lengths.capture bitreceived pulses := by
  refine nul_notMem_capture ?_
  rw [head?_of_id h.id]
  decide

/-- Every write of the scan is inside `captured_data`. -/
theorem runTo_writes (timings : ℕ → ℤ) (memory : Memory) (n : ℕ) :
    ∀ index ∈ (runTo timings memory.start n).writes, index < capturedSize := by
  induction n with
  | zero => exact fun _ hmem ↦ absurd hmem List.not_mem_nil
  | succ n ih =>
    rw [runTo_succ]
    cases hstate : (runTo timings memory.start n).memory.capturedState with
    | true =>
      rw [turn_of_captured hstate]
      exact ih
    | false =>
      by_cases hopens : lengths.within syncLength (timings n) ∧ n + 33 < bufferSize
      · rw [(turn_of_opens hstate hopens.1 hopens.2).2.2.1]
        intro index hindex
        rcases List.mem_append.mp hindex with hbefore | hnow
        · exact ih index hbefore
        · exact List.mem_range.mp hnow
      · rw [turn_of_not_opens hstate hopens]
        exact ih

/-- Up to an index the scan has captured nothing, `bitreceived` is what the windows have carried
along, and every String was built from cells with a NUL. -/
structure NulSoFar (timings : ℕ → ℤ) (memory : Memory) (n : ℕ) : Prop where
  free : (runTo timings memory.start n).memory.capturedState = false
  carried : (runTo timings memory.start n).memory.bitreceived =
    carried (array timings) memory.bitreceived n
  built : ∀ cells ∈ (runTo timings memory.start n).built, nul ∈ cells

/-- The first character of a window is a NUL. -/
def StartsWithNul (timings : ℕ → ℤ) (bitreceived : Char) (i : ℕ) : Prop :=
  carried (array timings) bitreceived i = nul ∧ lengths.within syncLength (timings (i + 1))

/-- The characters of a window hold a NUL exactly when they start with one. -/
theorem nul_mem_window_iff (timings : ℕ → ℤ) (bitreceived : Char) {i : ℕ}
    (h : i + 33 < bufferSize) :
    nul ∈ lengths.capture (carried (array timings) bitreceived i) (window (array timings) i h) ↔
      StartsWithNul timings bitreceived i := by
  rw [window_array, behind, List.range_succ_eq_map, List.map_cons, nul_mem_capture_iff]
  rfl

variable {timings : ℕ → ℤ} {memory : Memory} {n : ℕ}

/-- What a window that opens adds to the Strings built so far. -/
theorem NulSoFar.built_succ (h : NulSoFar timings memory n)
    (hopens : OpensWindow (array timings) n) :
    (runTo timings memory.start (n + 1)).built = (runTo timings memory.start n).built ++
      [lengths.capture (PulseScan.LoopPass.carried (array timings) memory.bitreceived n)
        (window (array timings) n hopens.1)] := by
  obtain ⟨hfits, hsync⟩ := hopens
  rw [runTo_succ, (turn_of_opens h.free hsync hfits).2.2.2, h.carried]

/-- A window that starts with a NUL is not accepted, and adds a String with a NUL. -/
theorem NulSoFar.step (h : NulSoFar timings memory n)
    (hnul : OpensWindow (array timings) n → StartsWithNul timings memory.bitreceived n) :
    NulSoFar timings memory (n + 1) := by
  by_cases hopens : OpensWindow (array timings) n
  · have hbuilt := h.built_succ hopens
    have hmem := (nul_mem_window_iff timings memory.bitreceived hopens.1).mpr (hnul hopens)
    have hglobals := (turn_of_opens h.free hopens.2 hopens.1).1
    rw [← runTo_succ] at hglobals
    have hrejects :
        ¬ Passes (array timings) (runTo timings memory.start n).memory.bitreceived n := by
      rw [h.carried]
      rintro ⟨hfits, -, haccepts⟩
      exact nul_notMem_of_accepts haccepts hmem
    have hcaptured := congrArg Globals.capturedState hglobals
    have hassigned := congrArg Globals.bitreceived hglobals
    rw [scanBody_bitreceived, dif_pos hopens] at hassigned
    refine ⟨Bool.eq_false_iff.mpr fun hset ↦ hrejects ?_, ?_, ?_⟩
    · exact (scanBody_capturedState_iff_passes h.free).mp (hcaptured.symm.trans hset)
    · rw [PulseScan.LoopPass.carried, dif_pos hopens, ← h.carried]
      exact hassigned
    · rw [hbuilt]
      intro cells hcells
      rcases List.mem_append.mp hcells with hbefore | hnow
      · exact h.built cells hbefore
      · rwa [List.mem_singleton.mp hnow]
  · have hrest : ¬ (lengths.within syncLength (timings n) ∧ n + 33 < bufferSize) :=
      fun hboth ↦ hopens ⟨hboth.2, hboth.1⟩
    have hturn := turn_of_not_opens h.free hrest
    refine ⟨?_, ?_, ?_⟩
    · rw [runTo_succ, hturn]
      exact h.free
    · rw [runTo_succ, hturn, PulseScan.LoopPass.carried, dif_neg hopens]
      exact h.carried
    · rw [runTo_succ, hturn]
      exact h.built

/-- What has been built stays among the Strings. -/
theorem runTo_built_subset {m : ℕ} (hle : m ≤ n) :
    (runTo timings memory.start m).built ⊆ (runTo timings memory.start n).built := by
  induction n, hle using Nat.le_induction with
  | base => exact List.Subset.refl _
  | succ n _ ih =>
    refine List.Subset.trans ih ?_
    rw [runTo_succ]
    cases hstate : (runTo timings memory.start n).memory.capturedState with
    | true =>
      rw [turn_of_captured hstate]
      exact List.Subset.refl _
    | false =>
      by_cases hopens : lengths.within syncLength (timings n) ∧ n + 33 < bufferSize
      · rw [(turn_of_opens hstate hopens.1 hopens.2).2.2.2]
        exact List.subset_append_left _ _
      · rw [turn_of_not_opens hstate hopens]
        exact List.Subset.refl _

/-- All Strings are built from cells with a NUL exactly when every window starts with one. -/
theorem terminated_iff (hfree : memory.capturedState = false) :
    (∀ cells ∈ (run timings memory.start).built, nul ∈ cells) ↔
      ∀ i, OpensWindow (array timings) i → StartsWithNul timings memory.bitreceived i := by
  have hstart : NulSoFar timings memory 0 :=
    ⟨hfree, rfl, fun _ hmem ↦ absurd hmem List.not_mem_nil⟩
  constructor
  · intro hterminated
    have hstarts (n : ℕ) (h : NulSoFar timings memory n) (hopens : OpensWindow (array timings) n) :
        StartsWithNul timings memory.bitreceived n := by
      rw [← nul_mem_window_iff timings memory.bitreceived hopens.1]
      have hlast : n + 1 ≤ bufferSize := by
        have hfits := hopens.1
        omega
      refine hterminated _ (runTo_built_subset hlast ?_)
      rw [h.built_succ hopens]
      exact List.mem_append_right _ List.mem_cons_self
    have hall (n : ℕ) : NulSoFar timings memory n := by
      induction n with
      | zero => exact hstart
      | succ n ih => exact ih.step (hstarts n ih)
    exact fun i ↦ hstarts i (hall i)
  · intro hstarts
    have hall (n : ℕ) : NulSoFar timings memory n := by
      induction n with
      | zero => exact hstart
      | succ n ih => exact ih.step (hstarts n)
    exact (hall bufferSize).built

/-- A NUL that is carried to an index was there at the start of the scan. -/
theorem eq_nul_of_carried {bitreceived : Char} {i : ℕ}
    (h : carried (array timings) bitreceived i = nul) : bitreceived = nul := by
  induction i with
  | zero => exact h
  | succ i ih =>
    rw [PulseScan.LoopPass.carried] at h
    split_ifs at h
    · exact ih ((foldl_classify_eq_nul_iff _ _).mp h).1
    · exact ih h

/-- Every window starts with a NUL exactly when nothing assigns `bitreceived`. -/
theorem startsWithNul_iff (timings : ℕ → ℤ) (bitreceived : Char) :
    (∀ i, OpensWindow (array timings) i → StartsWithNul timings bitreceived i) ↔
      KeepsNul timings bitreceived := by
  constructor
  · intro hstarts
    by_cases hnone : ∀ i, ¬ OpensWindow (array timings) i
    · exact Or.inl hnone
    · push Not at hnone
      obtain ⟨i, hi⟩ := hnone
      refine Or.inr ⟨eq_nul_of_carried (hstarts i hi).1, fun i hi ↦ ⟨(hstarts i hi).2, ?_⟩⟩
      intro hfits
      have hnext : OpensWindow (array timings) (i + 1) := ⟨by omega, (hstarts i hi).2⟩
      have hcarried := (hstarts (i + 1) hnext).1
      rw [PulseScan.LoopPass.carried, dif_pos hi, foldl_classify_eq_nul_iff, window_array]
        at hcarried
      exact hcarried.2
  · rintro (hnone | ⟨hnul, hsyncs⟩)
    · exact fun i hi ↦ absurd hi (hnone i)
    · have hcarried (i : ℕ) (hi : i + 33 < bufferSize) :
          carried (array timings) bitreceived i = nul := by
        induction i with
        | zero => exact hnul
        | succ i ih =>
          rw [PulseScan.LoopPass.carried]
          split_ifs with hopens
          · rw [foldl_classify_eq_nul_iff, window_array]
            exact ⟨ih (by omega), (hsyncs i hopens).2 (by omega)⟩
          · exact ih (by omega)
      exact fun i hi ↦ ⟨hcarried i hi.1, (hsyncs i hi).1⟩

/-- The scan uses `captured_data` safely exactly when it opens no window, or finds a NUL in
`bitreceived` and nothing that would assign it. -/
theorem scanSafe_iff (timings : ℕ → ℤ) (memory : Memory) :
    ScanSafe timings memory ↔
      (memory.capturedState = false → KeepsNul timings memory.bitreceived) := by
  have hwrites := runTo_writes timings memory bufferSize
  cases hstate : memory.capturedState with
  | false =>
    rw [← startsWithNul_iff, ← terminated_iff hstate]
    exact ⟨fun hsafe _ ↦ hsafe.terminated, fun hterminated ↦ ⟨hwrites, hterminated rfl⟩⟩
  | true =>
    refine iff_of_true ⟨hwrites, ?_⟩ fun h ↦ absurd h (by decide)
    have hidle : run timings memory.start = memory.start :=
      runTo_of_captured (Nat.zero_le bufferSize) hstate
    rw [hidle]
    exact fun _ hmem ↦ absurd hmem List.not_mem_nil

end SketchFeb03a

/-! ### The four loops -/

section Loops

open Receiver Receiver.RingReceiver Receiver.ReceiverRun PairIndependence

/-- A frame received in a run of a ring receiver. -/
structure ReceivedFrame (sketch : RingSketch) where
  trace : List (Transition (Monitored sketch.ringBufferSize) Label)
  monitored : Monitored sketch.ringBufferSize
  run : Run (receiver sketch) trace monitored
  received : monitored.running.state.received = true

/-- A pass of one of the loops: over a frame that a ring receiver has received, or over the timings
of net_micros or of sketch_feb03a, with the memory it starts in. -/
inductive Pass
  | ring (sketch : RingSketch) (frame : ReceivedFrame sketch) (stack : Stack)
  | netMicros (timings : ℕ → ℤ) (bitreceived : Char) (Str : ℕ → Char)
  | feb03a (timings : ℕ → ℤ) (memory : PulseScan.ScanMemory.Memory)

/-- The pass uses its buffer safely. -/
def Pass.Safe : Pass → Prop
  | .ring sketch frame stack => RingSafe sketch.echoes frame.monitored.running.state stack
  | .netMicros timings bitreceived Str => NetSafe timings bitreceived Str
  | .feb03a timings memory => ScanSafe timings memory

/-- What a pass has to find: for a ring receiver nothing will do, net_micros may open no window, and
sketch_feb03a no window with a pulse that assigns `bitreceived`. -/
def Pass.Harmless : Pass → Prop
  | .ring _ _ _ => False
  | .netMicros timings _ _ => ∀ i, ¬ NetMicros.FrameReport.OpensWindow timings i
  | .feb03a timings memory => memory.capturedState = false → KeepsNul timings memory.bitreceived

/-- When the loops use their buffers safely: the ring receivers never, for no frame they receive;
net_micros when it opens no window; sketch_feb03a when it opens no window or nothing assigns
`bitreceived`. -/
theorem pass_safe_iff (pass : Pass) : pass.Safe ↔ pass.Harmless := by
  cases pass with
  | ring sketch frame stack =>
    exact iff_of_false (not_ringSafe_of_run sketch frame.run frame.received stack) not_false
  | netMicros timings bitreceived Str => exact netSafe_iff timings bitreceived Str
  | feb03a timings memory => exact scanSafe_iff timings memory

/-- A frame of ones and zeros, received by RF_RECEIVER_V2_WITH_INTERRUPTS. -/
theorem edgePulse_not_safe :
    ∃ frame : ReceivedFrame RfReceiverV2WithInterrupts.sketch,
      ∀ stack, ¬ (Pass.ring _ frame stack).Safe := by
  obtain ⟨trace, m, hrun, hreceived, -⟩ := exists_run_edgePulse true
  exact ⟨⟨trace, m, hrun, hreceived⟩, fun _ hsafe ↦ (pass_safe_iff _).mp hsafe⟩

/-- A received frame is not decoded safely. -/
theorem not_forall_pass_safe : ¬ ∀ pass : Pass, pass.Safe := by
  intro h
  obtain ⟨trace, m, hrun, hreceived, -⟩ := exists_run_edgePulse true
  have hsafe : RingSafe true m.running.state ⟨'0', fun _ ↦ '0'⟩ :=
    h (.ring RfReceiverV2WithInterrupts.sketch ⟨trace, m, hrun, hreceived⟩ ⟨'0', fun _ ↦ '0'⟩)
  exact not_ringSafe_of_run RfReceiverV2WithInterrupts.sketch hrun hreceived _ hsafe

end Loops

end Sketchbook.BufferBounds
