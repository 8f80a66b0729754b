import Sketchbook.Foundation.Memory
import Sketchbook.PulseScan.ScanAcceptance

/-!
# The scan of sketch_feb03a over memory

`FrameScan.scan` reads its timings from an array that has no other cells. Here the same loop runs
over memory: an index past an end of `timings` or of `captured_data` reaches a cell as well, and the
run keeps a record of the indices it used (`Trace`). `run_globals` says that the scan over memory
computes what `scan` computes, `run_reads` that it reads `timings` inside the array only, and
`turn_of_opens` which cells a turn writes and which String it builds.
-/

set_option autoImplicit false
set_option relaxedAutoImplicit false

namespace Sketchbook.PulseScan.ScanMemory

open Foundation.Memory Sensor.PulseClassifier FrameScan ScanAcceptance

/-- The size of `captured_data`. -/
def capturedSize : ℕ := 33

/-- The globals of the scan, with the memory from the first cell of `captured_data` on. -/
structure Memory where
  bitreceived : Char
  capturedData : ℕ → Char
  capturedState : Bool
  temp : List Char
  tempOut : List Char

/-- The globals, `captured_data` with its own cells only. -/
def Memory.globals (memory : Memory) : Globals where
  bitreceived := memory.bitreceived
  capturedData := (List.range capturedSize).map memory.capturedData
  capturedState := memory.capturedState
  temp := memory.temp
  tempOut := memory.tempOut

/-- The memory and what the scan has done so far: the indices at which it has read `timings` and
written `captured_data`, and the cells of `captured_data` each time a String was built from them. -/
structure Trace where
  memory : Memory
  reads : List ℕ
  writes : List ℕ
  built : List (List Char)

/-- The scan has not started. -/
def Memory.start (memory : Memory) : Trace := ⟨memory, [], [], []⟩

/-- A turn of the inner loop, `k` counted from 0: classify `timings[i + k + 1]` and write
`captured_data[k]`. -/
def classifyInto (timings : ℕ → ℤ) (i : ℕ) (trace : Trace) (k : ℕ) : Trace :=
  let bitreceived := lengths.classify trace.memory.bitreceived (timings (i + (k + 1)))
  { trace with
    memory := { trace.memory with
      bitreceived := bitreceived
      capturedData := Function.update trace.memory.capturedData k bitreceived }
    reads := trace.reads ++ [i + (k + 1)]
    writes := trace.writes ++ [k] }

/-- The checks of the captured data, from the construction of the String on. -/
def checkBuffer (trace : Trace) : Trace :=
  let checked := checkCaptured trace.memory.globals
  { trace with
    memory := { trace.memory with
      capturedState := checked.capturedState
      temp := checked.temp
      tempOut := checked.tempOut }
    built := trace.built ++ [trace.memory.globals.capturedData] }

/-- A turn of `while (i < buffer_size && captured_state == false)`. -/
def turn (timings : ℕ → ℤ) (trace : Trace) (i : ℕ) : Trace :=
  if trace.memory.capturedState = false then
    let trace := { trace with reads := trace.reads ++ [i] }
    if lengths.within syncLength (timings i) ∧ i + 33 < bufferSize then
      checkBuffer ((List.range 33).foldl (classifyInto timings i) trace)
    else trace
  else trace

/-- The whole scan. -/
def run (timings : ℕ → ℤ) (trace : Trace) : Trace :=
  (List.range bufferSize).foldl (turn timings) trace

/-- The cells of `timings` that belong to the array. -/
def array (timings : ℕ → ℤ) (i : Fin bufferSize) : ℤ := timings i

/-! ### The inner loop -/

theorem window_array (timings : ℕ → ℤ) (i : ℕ) (h : i + 33 < bufferSize) :
    window (array timings) i h = behind timings i 33 := by
  apply List.ext_getElem
  · simp [window]
  · intro k hleft hright
    simp only [window, array, behind, List.getElem_ofFn, List.getElem_map, List.getElem_range]

/-- What the inner loop has done behind its first turns. -/
theorem foldl_classifyInto (timings : ℕ → ℤ) (i : ℕ) (trace : Trace) (n : ℕ) :
    (List.range n).foldl (classifyInto timings i) trace =
      { memory := { trace.memory with
          bitreceived := (behind timings i n).foldl lengths.classify trace.memory.bitreceived
          capturedData := stored trace.memory.capturedData
            (lengths.capture trace.memory.bitreceived (behind timings i n)) }
        reads := trace.reads ++ (List.range n).map fun k ↦ i + (k + 1)
        writes := trace.writes ++ List.range n
        built := trace.built } := by
  induction n with
  | zero => simp [behind, PulseLengths.capture]
  | succ n ih =>
    rw [List.range_succ, List.foldl_append, ih, List.foldl_cons, List.foldl_nil, classifyInto]
    simp only [update_stored_capture, List.map_append, List.append_assoc, List.map_cons,
      List.map_nil, behind_succ, List.foldl_append, List.foldl_cons, List.foldl_nil]

/-- The cells of `captured_data` behind the inner loop are the text of the window. -/
theorem cells_of_capture (bitreceived : Char) {pulses : List ℤ} (h : pulses.length = capturedSize)
    (memory : ℕ → Char) :
    (List.range capturedSize).map (stored memory (lengths.capture bitreceived pulses)) =
      lengths.capture bitreceived pulses := by
  have hlength : (lengths.capture bitreceived pulses).length = capturedSize := by
    rw [length_capture, h]
  rw [map_range_stored memory hlength.ge, List.take_of_length_le hlength.le]

/-! ### A turn of the scan -/

variable {timings : ℕ → ℤ} {trace : Trace} {i : ℕ}

theorem turn_of_captured (h : trace.memory.capturedState = true) : turn timings trace i = trace :=
  if_neg (by rw [h]; exact Bool.noConfusion)

/-- A turn at an index that opens no window only reads `timings[i]`. -/
theorem turn_of_not_opens (hfree : trace.memory.capturedState = false)
    (h : ¬ (lengths.within syncLength (timings i) ∧ i + 33 < bufferSize)) :
    turn timings trace i = { trace with reads := trace.reads ++ [i] } := by
  rw [turn, if_pos hfree]
  exact if_neg h

/-- The checks of the buffer are those of its cells. -/
theorem checkBuffer_globals (trace : Trace) :
    (checkBuffer trace).memory.globals = checkCaptured trace.memory.globals := by
  have hkept : (checkCaptured trace.memory.globals).bitreceived = trace.memory.globals.bitreceived ∧
      (checkCaptured trace.memory.globals).capturedData = trace.memory.globals.capturedData := by
    unfold checkCaptured
    dsimp only
    split_ifs <;> exact ⟨rfl, rfl⟩
  calc (checkBuffer trace).memory.globals
      = { checkCaptured trace.memory.globals with
          bitreceived := trace.memory.globals.bitreceived
          capturedData := trace.memory.globals.capturedData } := rfl
    _ = checkCaptured trace.memory.globals := by rw [← hkept.1, ← hkept.2]

/-- A turn that opens a window does to the globals what `scanBody` does, writes each cell of
`captured_data` once and builds a String from the text of the window. -/
theorem turn_of_opens (hfree : trace.memory.capturedState = false)
    (hsync : lengths.within syncLength (timings i)) (h : i + 33 < bufferSize) :
    (turn timings trace i).memory.globals = scanBody (array timings) trace.memory.globals
        ⟨i, Nat.lt_of_le_of_lt (Nat.le_add_right i 33) h⟩ ∧
      (turn timings trace i).reads =
        trace.reads ++ [i] ++ (List.range 33).map (fun k ↦ i + (k + 1)) ∧
      (turn timings trace i).writes = trace.writes ++ List.range 33 ∧
      (turn timings trace i).built =
        trace.built ++ [lengths.capture trace.memory.bitreceived (window (array timings) i h)] := by
  have hcells := cells_of_capture trace.memory.bitreceived (length_behind timings i 33)
    trace.memory.capturedData
  rw [turn, if_pos hfree]
  dsimp only
  rw [if_pos ⟨hsync, h⟩, foldl_classifyInto, scanBody, dif_pos ⟨hsync, h⟩, window_array]
  refine ⟨?_, rfl, rfl, congrArg (fun cells ↦ trace.built ++ [cells]) hcells⟩
  rw [checkBuffer_globals]
  exact congrArg checkCaptured (congrArg (Globals.mk _ · _ _ _) hcells)

/-- A turn of the scan over memory does to the globals what a turn of `scan` does. -/
theorem turn_globals (timings : ℕ → ℤ) (trace : Trace) (i : Fin bufferSize) :
    (turn timings trace i).memory.globals = scanStep (array timings) trace.memory.globals i := by
  rw [scanStep]
  cases hstate : trace.memory.capturedState with
  | true =>
    rw [turn_of_captured hstate]
    exact (if_neg (by rw [Memory.globals, hstate]; exact Bool.noConfusion)).symm
  | false =>
    rw [if_pos (show trace.memory.globals.capturedState = false from hstate)]
    by_cases hopens : lengths.within syncLength (timings i) ∧ (i : ℕ) + 33 < bufferSize
    · exact (turn_of_opens hstate hopens.1 hopens.2).1
    · have hrest : ¬ (lengths.within syncLength (array timings i) ∧ (i : ℕ) + 33 < bufferSize) :=
        hopens
      rw [turn_of_not_opens hstate hopens, scanBody, dif_neg hrest]

/-- A turn reads `timings` inside the array. -/
theorem turn_reads (hi : i < bufferSize) (h : ∀ index ∈ trace.reads, index < bufferSize) :
    ∀ index ∈ (turn timings trace i).reads, index < bufferSize := by
  cases hstate : trace.memory.capturedState with
  | true =>
    rw [turn_of_captured hstate]
    exact h
  | false =>
    by_cases hopens : lengths.within syncLength (timings i) ∧ i + 33 < bufferSize
    · rw [(turn_of_opens hstate hopens.1 hopens.2).2.1]
      simp only [List.mem_append, List.mem_singleton, List.mem_map, List.mem_range]
      rintro index ((hindex | rfl) | ⟨k, hk, rfl⟩)
      · exact h index hindex
      · exact hi
      · omega
    · rw [turn_of_not_opens hstate hopens]
      simp only [List.mem_append, List.mem_singleton]
      rintro index (hindex | rfl)
      · exact h index hindex
      · exact hi

/-! ### The whole scan -/

/-- The trace when the scan comes to an index. -/
def runTo (timings : ℕ → ℤ) (trace : Trace) (n : ℕ) : Trace :=
  (List.range n).foldl (turn timings) trace

theorem runTo_succ (timings : ℕ → ℤ) (trace : Trace) (n : ℕ) :
    runTo timings trace (n + 1) = turn timings (runTo timings trace n) n := by
  rw [runTo, List.range_succ, List.foldl_append]
  rfl

/-- Up to any index the scan over memory does to the globals what `scan` does. -/
theorem runTo_globals (timings : ℕ → ℤ) (trace : Trace) {n : ℕ} (hn : n ≤ bufferSize) :
    (runTo timings trace n).memory.globals = reach (array timings) trace.memory.globals n := by
  induction n with
  | zero => rfl
  | succ n ih =>
    rw [runTo_succ, turn_globals timings _ ⟨n, hn⟩, ih (Nat.le_of_succ_le hn)]
    exact (reach_succ (array timings) trace.memory.globals ⟨n, hn⟩).symm

/-- The scan over memory computes what `scan` computes from the cells of the array. -/
theorem run_globals (timings : ℕ → ℤ) (trace : Trace) :
    (run timings trace).memory.globals = scan (array timings) trace.memory.globals := by
  have hreach := runTo_globals timings trace le_rfl
  rw [reach, List.take_of_length_le (by simp)] at hreach
  exact hreach

/-- Behind the turn that captures a frame nothing happens. -/
theorem runTo_of_captured {m n : ℕ} (hle : m ≤ n)
    (h : (runTo timings trace m).memory.capturedState = true) :
    runTo timings trace n = runTo timings trace m := by
  induction n, hle using Nat.le_induction with
  | base => rfl
  | succ n _ ih =>
    rw [runTo_succ, ih]
    exact turn_of_captured h

/-- The scan reads `timings` inside the array. -/
theorem run_reads (timings : ℕ → ℤ) (memory : Memory) :
    ∀ index ∈ (run timings memory.start).reads, index < bufferSize := by
  have hreads (n : ℕ) (hn : n ≤ bufferSize) :
      ∀ index ∈ (runTo timings memory.start n).reads, index < bufferSize := by
    induction n with
    | zero => exact fun _ hmem ↦ absurd hmem List.not_mem_nil
    | succ n ih =>
      rw [runTo_succ]
      exact turn_reads hn (ih (Nat.le_of_succ_le hn))
  exact hreads bufferSize le_rfl

end Sketchbook.PulseScan.ScanMemory
