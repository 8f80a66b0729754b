import Mathlib.Data.BitVec
import Mathlib.Data.List.Infix
import Mathlib.Tactic.SplitIfs
import Sketchbook.Foundation.Memory
import Sketchbook.Foundation.TransitionSystem

/-!
# The pin recorder

sketch_jan26b records the times between the changes of a pin. `loop` waits for a character,
attaches `receiver` to the pin, clears `count` and sets `running`; `receiver` stores a duration at
each change while `running` is true. The recording ends when `receiver` finds the buffer full, when
a character arrives or after 30 seconds, and `loop` prints what `samples` holds below `count`.

`loop` is modelled statement by statement, and between any two statements a change of the pin
can interrupt it while `receiver` is attached. A recording that ends by its time limit leaves
`running` true, so `receiver` stores as soon as it is attached again, before `loop` clears `count`.

`receiver` stores first and stops when `count` is past `MAX_SAMPLE`, one change too late.
`recordsSafely_iff` says which runs stay inside the buffer: those in which at most `MAX_SAMPLE`
changes are taken between one `count = 0` and the next. `recorderInvariant` holds in every run: the
cells below `count` are the durations taken since the last `count = 0`, in their order, and `count`
is never more than two past the buffer.
-/

set_option autoImplicit false
set_option relaxedAutoImplicit false

namespace Sketchbook.Recorder.RecordPin

open Foundation.TransitionSystem
open Foundation.Memory

/-! ### The sketch -/

def maxSample : ℕ := 256

def maxTime : BitVec 32 := 30000

/-- The statements of `loop`, in the order of the source. -/
inductive Statement
  | clearInput
  | printPrompt
  | awaitCharacter
  | clearRest
  | saveState
  | attachInterrupt
  | resetCount
  | setLast
  | setRunning
  | printRunning
  | setStartTime
  | whileRunning
  | ifCharacter
  | stopRunning
  | printStopped
  | detachInterrupt
  | printRecorded
  | initIndex
  | forIndex
  | printPin
  | toggleState
  | printSample
  | nextIndex
  | printEnd
deriving DecidableEq

/-- The recorder between two statements. `samples` is the memory from the first cell of the array
on, and an `unsigned int` has 16 bits. -/
structure RecorderState where
  pc : Statement
  attached : Bool
  running : Bool
  last : BitVec 32
  count : ℕ
  samples : ℕ → BitVec 32
  startTime : BitVec 32
  startState : Bool
  x : ℕ

/-- What the board answers while a statement runs: the clocks, the pin, and whether a character is
there to read. -/
structure Reading where
  micros : BitVec 32
  millis : BitVec 32
  pin : Bool
  character : Bool

/-- The interrupt routine, with the two values of `micros()` that it reads. -/
def receiver (elapsed now : BitVec 32) (s : RecorderState) : RecorderState :=
  if s.running then
    let count := (s.count + 1) % 2 ^ 16
    { s with
      samples := Function.update s.samples s.count (elapsed - s.last)
      last := now
      count := count
      running := if count > maxSample then false else s.running }
  else s

/-- The statement `s.pc`, with the answers of the board. -/
def execute (reading : Reading) (s : RecorderState) : RecorderState :=
  match s.pc with
  | .clearInput => { s with pc := if reading.character then .clearInput else .printPrompt }
  | .printPrompt => { s with pc := .awaitCharacter }
  | .awaitCharacter => { s with pc := if reading.character then .clearRest else .awaitCharacter }
  | .clearRest => { s with pc := if reading.character then .clearRest else .saveState }
  | .saveState => { s with pc := .attachInterrupt, startState := reading.pin }
  | .attachInterrupt => { s with pc := .resetCount, attached := true }
  | .resetCount => { s with pc := .setLast, count := 0 }
  | .setLast => { s with pc := .setRunning, last := reading.micros }
  | .setRunning => { s with pc := .printRunning, running := true }
  | .printRunning => { s with pc := .setStartTime }
  | .setStartTime => { s with pc := .whileRunning, startTime := reading.millis }
  | .whileRunning =>
    { s with
      pc := if s.running = true ∧ reading.millis - s.startTime < maxTime then .ifCharacter
        else .printStopped }
  | .ifCharacter => { s with pc := if reading.character then .stopRunning else .whileRunning }
  | .stopRunning => { s with pc := .whileRunning, running := false }
  | .printStopped => { s with pc := .detachInterrupt }
  | .detachInterrupt => { s with pc := .printRecorded, attached := false }
  | .printRecorded => { s with pc := .initIndex }
  | .initIndex => { s with pc := .forIndex, x := 0 }
  | .forIndex => { s with pc := if s.x < s.count then .printPin else .printEnd }
  | .printPin => { s with pc := .toggleState }
  | .toggleState => { s with pc := .printSample, startState := !s.startState }
  | .printSample => { s with pc := .nextIndex }
  | .nextIndex => { s with pc := .forIndex, x := (s.x + 1) % 2 ^ 16 }
  | .printEnd => { s with pc := .clearInput }

/-- What the statement `s.pc` prints, apart from fixed texts. -/
inductive Printed
  | count (count : ℕ)
  | pin (high : Bool)
  | duration (duration : BitVec 32)

/-- What the statement `s.pc` prints of the recording. -/
def printed (s : RecorderState) : Option Printed :=
  match s.pc with
  | .printRecorded => some (.count s.count)
  | .printPin => some (.pin s.startState)
  | .printSample => some (.duration (s.samples s.x))
  | _ => none

/-- A change of the pin, or a statement of `loop`. -/
inductive Event
  | interrupt (elapsed now : BitVec 32)
  | statement (reading : Reading)

def step (s : RecorderState) : Event → Option RecorderState
  | .interrupt elapsed now => if s.attached then some (receiver elapsed now s) else none
  | .statement reading => some (execute reading s)

/-- The state when `setup` is done. -/
def afterSetup : RecorderState :=
  ⟨.clearInput, false, false, 0, 0, fun _ ↦ 0, 0, false, 0⟩

def recorder : System RecorderState Event := ⟨fun s ↦ s = afterSetup, step⟩

/-! ### Recordings -/

/-- The durations that `receiver` has taken since the last `count = 0`, in their order. -/
def recording : List (Transition RecorderState Event) → List (BitVec 32)
  | [] => []
  | ⟨s, .interrupt elapsed _, _⟩ :: trace =>
    if s.running then recording trace ++ [elapsed - s.last] else recording trace
  | ⟨s, .statement _, _⟩ :: trace => if s.pc = .resetCount then [] else recording trace

/-- The changes of the pin that have interrupted `loop` while `running` was true, since the last
`count = 0`. -/
def changesTaken : List (Transition RecorderState Event) → ℕ
  | [] => 0
  | ⟨s, .interrupt _ _, _⟩ :: trace =>
    if s.running then changesTaken trace + 1 else changesTaken trace
  | ⟨s, .statement _, _⟩ :: trace => if s.pc = .resetCount then 0 else changesTaken trace

theorem length_recording (trace : List (Transition RecorderState Event)) :
    (recording trace).length = changesTaken trace := by
  induction trace with
  | nil => rfl
  | cons transition trace ih =>
    obtain ⟨s, event, next⟩ := transition
    cases event with
    | interrupt elapsed now =>
      unfold recording changesTaken
      split_ifs
      · rw [List.length_append, ih, List.length_singleton]
      · exact ih
    | statement reading =>
      unfold recording changesTaken
      split_ifs
      · rfl
      · exact ih

/-- The index of `samples` that a step writes to. -/
def writeIndex (transition : Transition RecorderState Event) : Option ℕ :=
  match transition.label with
  | .interrupt _ _ => if transition.before.running then some transition.before.count else none
  | .statement _ => none

/-- The index of `samples` that a step reads. -/
def readIndex (transition : Transition RecorderState Event) : Option ℕ :=
  match transition.label with
  | .interrupt _ _ => none
  | .statement _ => if transition.before.pc = .printSample then some transition.before.x else none

/-- A step behind the transitions of a run writes inside the buffer, keeps `count` in it and reads
only an entry of the current recording. -/
structure SafeStep (trace : List (Transition RecorderState Event))
    (transition : Transition RecorderState Event) : Prop where
  writes : ∀ index, writeIndex transition = some index → index < maxSample
  count : transition.after.count ≤ maxSample
  reads : ∀ index, readIndex transition = some index →
    (recording trace)[index]? = some (transition.before.samples index)

/-- Every step of a run is safe. -/
def RecordsSafely : List (Transition RecorderState Event) → Prop
  | [] => True
  | transition :: trace => SafeStep trace transition ∧ RecordsSafely trace

/-! ### The invariant of all runs -/

/-- Behind `count = 0` and before `running = true`. -/
def beforeRunning : Statement → Bool
  | .setLast | .setRunning => true
  | _ => false

/-- Behind `attachInterrupt` and before the end of `detachInterrupt`. -/
def recordingAt : Statement → Bool
  | .resetCount | .setLast | .setRunning | .printRunning | .setStartTime | .whileRunning
  | .ifCharacter | .stopRunning | .printStopped | .detachInterrupt => true
  | _ => false

/-- Where `x` is below `count`. -/
def insideLoop : Statement → Bool
  | .printPin | .toggleState | .printSample => true
  | _ => false

/-- How far `count` can be past the buffer: by one when a change has stopped `receiver`, and by one
more when `running = true` has started it again. -/
def excess (s : RecorderState) : ℕ :=
  (if s.running then 0 else 1) + if beforeRunning s.pc then 0 else 1

/-- The cells below `count` are the recording. -/
structure RecorderInvariant (recording : List (BitVec 32)) (s : RecorderState) : Prop where
  count_le : s.count ≤ maxSample + excess s
  attached_eq : s.attached = recordingAt s.pc
  index_lt : insideLoop s.pc = true → s.x < s.count
  count_eq : s.count = recording.length
  samples_eq : ∃ memory, s.samples = stored memory recording

theorem recorderInvariant_afterSetup : RecorderInvariant [] afterSetup :=
  ⟨Nat.zero_le _, rfl, fun h ↦ absurd h Bool.false_ne_true, rfl, _, rfl⟩

theorem step_cases {s next : RecorderState} {event : Event} (h : step s event = some next) :
    (∃ elapsed now, event = .interrupt elapsed now ∧ s.attached = true ∧
      next = receiver elapsed now s) ∨
    ∃ reading, event = .statement reading ∧ next = execute reading s := by
  cases event with
  | interrupt elapsed now =>
    obtain ⟨hattached, hnext⟩ := Option.ite_none_right_eq_some.mp h
    exact .inl ⟨elapsed, now, rfl, hattached, (Option.some.inj hnext).symm⟩
  | statement reading => exact .inr ⟨reading, rfl, (Option.some.inj h).symm⟩

theorem insideLoop_of_recordingAt {pc : Statement} (h : recordingAt pc = true) :
    insideLoop pc = false := by
  cases pc with
  | printPin | toggleState | printSample => exact Bool.noConfusion h
  | _ => rfl

variable {trace : List (Transition RecorderState Event)} {s next : RecorderState}

/-- A change that `receiver` takes. -/
theorem receiver_of_running (hrunning : s.running = true) (hcount : s.count + 1 < 2 ^ 16)
    (elapsed now : BitVec 32) :
    receiver elapsed now s =
      { s with
        samples := Function.update s.samples s.count (elapsed - s.last)
        last := now
        count := s.count + 1
        running := decide (s.count + 1 ≤ maxSample) } := by
  rw [receiver, if_pos hrunning, Nat.mod_eq_of_lt hcount, hrunning]
  simp only [gt_iff_lt, ← Nat.not_le, ite_not]
  congr 1

theorem receiver_of_not_running (hrunning : ¬ s.running = true) (elapsed now : BitVec 32) :
    receiver elapsed now s = s := if_neg hrunning

theorem excess_le (s : RecorderState) : excess s ≤ 2 := by
  unfold excess
  split_ifs <;> omega

theorem excess_of_running (hrunning : s.running = true) :
    excess s = if beforeRunning s.pc then 0 else 1 := by
  rw [excess, if_pos hrunning, Nat.zero_add]

/-- `count` never gets near the end of its range. -/
theorem RecorderInvariant.count_lt {recording : List (BitVec 32)}
    (h : RecorderInvariant recording s) : s.count + 1 < 2 ^ 16 := by
  have hcount := h.count_le
  have hexcess := excess_le s
  unfold maxSample at hcount
  omega

theorem RecorderInvariant.receiver {recording : List (BitVec 32)}
    (h : RecorderInvariant recording s) (hattached : s.attached = true) (elapsed now : BitVec 32) :
    RecorderInvariant (if s.running then recording ++ [elapsed - s.last] else recording)
      (receiver elapsed now s) := by
  by_cases hrunning : s.running = true
  · rw [if_pos hrunning, receiver_of_running hrunning h.count_lt]
    refine ⟨?_, h.attached_eq, ?_, ?_, ?_⟩
    · have hcount := h.count_le
      rw [excess_of_running hrunning] at hcount
      by_cases hle : s.count + 1 ≤ maxSample
      · exact hle.trans (Nat.le_add_right _ _)
      · simp only [excess, hle, decide_false, Bool.false_eq_true, if_false]
        omega
    · intro hinside
      have hrecording : recordingAt s.pc = true := h.attached_eq.symm.trans hattached
      exact absurd (hinside.symm.trans (insideLoop_of_recordingAt hrecording)) Bool.noConfusion
    · rw [List.length_append, List.length_singleton, ← h.count_eq]
    · obtain ⟨memory, hmemory⟩ := h.samples_eq
      refine ⟨memory, ?_⟩
      rw [h.count_eq, hmemory]
      exact update_stored memory recording _
  · rwa [if_neg hrunning, receiver_of_not_running hrunning]

/-- A statement leaves the buffer alone. -/
theorem execute_samples (reading : Reading) (s : RecorderState) :
    (execute reading s).samples = s.samples := by
  obtain ⟨pc⟩ := s
  cases pc <;> rfl

/-- Only `count = 0` changes `count`. -/
theorem execute_count (hpc : ¬ s.pc = .resetCount) (reading : Reading) :
    (execute reading s).count = s.count := by
  obtain ⟨pc⟩ := s
  cases pc with
  | resetCount => exact absurd rfl hpc
  | _ => rfl

theorem excess_le_execute (hpc : ¬ s.pc = .resetCount) (reading : Reading) :
    excess s ≤ excess (execute reading s) := by
  obtain ⟨pc, _, running⟩ := s
  cases pc with
  | resetCount => exact absurd rfl hpc
  | clearInput | awaitCharacter | clearRest | ifCharacter | whileRunning | forIndex =>
    simp only [execute]
    split_ifs <;> exact le_rfl
  | setRunning =>
    cases running with
    | false => exact le_rfl
    | true => exact Nat.zero_le _
  | stopRunning =>
    cases running with
    | false => exact le_rfl
    | true => exact Nat.le_succ _
  | _ => exact le_rfl

theorem execute_attached (h : s.attached = recordingAt s.pc) (reading : Reading) :
    (execute reading s).attached = recordingAt (execute reading s).pc := by
  obtain ⟨pc⟩ := s
  cases pc with
  | clearInput | awaitCharacter | clearRest | ifCharacter | whileRunning | forIndex =>
    simp only [execute]
    split_ifs <;> exact h
  | attachInterrupt | detachInterrupt => rfl
  | _ => exact h

theorem execute_index_lt (h : insideLoop s.pc = true → s.x < s.count) (reading : Reading)
    (hinside : insideLoop (execute reading s).pc = true) :
    (execute reading s).x < (execute reading s).count := by
  obtain ⟨pc⟩ := s
  revert hinside
  cases pc with
  | clearInput | awaitCharacter | clearRest | ifCharacter | whileRunning =>
    simp only [execute]
    split_ifs <;> exact Bool.noConfusion
  | forIndex =>
    simp only [execute]
    split_ifs with hlt
    · exact fun _ ↦ hlt
    · exact Bool.noConfusion
  | printPin | toggleState => exact h
  | _ => exact Bool.noConfusion

theorem RecorderInvariant.execute {recording : List (BitVec 32)} (h : RecorderInvariant recording s)
    (reading : Reading) :
    RecorderInvariant (if s.pc = .resetCount then [] else recording) (execute reading s) := by
  have hattached := execute_attached h.attached_eq reading
  have hindex := execute_index_lt h.index_lt reading
  by_cases hpc : s.pc = .resetCount
  · have hzero : (RecordPin.execute reading s).count = 0 := by
      rw [RecordPin.execute, hpc]
    rw [if_pos hpc]
    exact ⟨hzero ▸ Nat.zero_le _, hattached, hindex, hzero, _, rfl⟩
  · rw [if_neg hpc]
    refine ⟨?_, hattached, hindex, (execute_count hpc reading).trans h.count_eq, ?_⟩
    · rw [execute_count hpc]
      exact h.count_le.trans (Nat.add_le_add_left (excess_le_execute hpc reading) _)
    · rw [execute_samples]
      exact h.samples_eq

/-- In every run the cells below `count` are the durations that `receiver` has taken since the last
`count = 0`. -/
theorem recorderInvariant (hrun : Run recorder trace s) :
    RecorderInvariant (recording trace) s := by
  induction hrun with
  | start h =>
    obtain rfl := h
    exact recorderInvariant_afterSetup
  | step _ hstep ih =>
    rcases step_cases hstep with ⟨elapsed, now, rfl, hattached, rfl⟩ | ⟨reading, rfl, rfl⟩
    · exact ih.receiver hattached elapsed now
    · exact ih.execute reading

/-! ### The buffer -/

theorem count_eq_changesTaken (hrun : Run recorder trace s) : s.count = changesTaken trace :=
  (recorderInvariant hrun).count_eq.trans (length_recording trace)

/-- A write of `receiver` is at most one cell past the first one behind the buffer. -/
theorem count_le_of_running (hrun : Run recorder trace s) (hrunning : s.running = true) :
    s.count ≤ maxSample + 1 := by
  have hcount := (recorderInvariant hrun).count_le
  rw [excess_of_running hrunning] at hcount
  split_ifs at hcount <;> omega

/-- `loop` prints the entries of the recording. -/
theorem read_recording (hrun : Run recorder trace s) (hpc : s.pc = .printSample) :
    (recording trace)[s.x]? = some (s.samples s.x) := by
  obtain ⟨-, -, hindex, hcount, memory, hmemory⟩ := recorderInvariant hrun
  have hlt : s.x < (recording trace).length := by
    rw [← hcount]
    refine hindex ?_
    rw [hpc]
    rfl
  rw [hmemory, stored_of_lt _ hlt]
  exact List.getElem?_eq_getElem hlt

/-- `loop` prints how many changes were taken, and then the durations that were taken. -/
theorem printed_recording (hrun : Run recorder trace s) :
    (s.pc = .printRecorded → printed s = some (.count (changesTaken trace))) ∧
      (s.pc = .printSample → printed s = (recording trace)[s.x]?.map .duration) := by
  constructor
  · intro hpc
    rw [printed, hpc, count_eq_changesTaken hrun]
  · intro hpc
    rw [printed, hpc, read_recording hrun hpc]
    rfl

/-- The next step of a run is safe exactly when it leaves at most `MAX_SAMPLE` changes taken. -/
theorem safeStep_iff {event : Event} (hrun : Run recorder trace s)
    (hstep : step s event = some next) :
    SafeStep trace ⟨s, event, next⟩ ↔ changesTaken (⟨s, event, next⟩ :: trace) ≤ maxSample := by
  have hcount : next.count = changesTaken (⟨s, event, next⟩ :: trace) :=
    count_eq_changesTaken (hrun.step hstep)
  refine ⟨fun h ↦ hcount ▸ h.count, fun h ↦ ⟨?_, hcount ▸ h, ?_⟩⟩
  · intro index hindex
    cases event with
    | interrupt elapsed now =>
      obtain ⟨hrunning, hindex⟩ := Option.ite_none_right_eq_some.mp hindex
      obtain rfl : s.count = index := Option.some.inj hindex
      rw [changesTaken, if_pos hrunning, ← count_eq_changesTaken hrun] at h
      exact h
    | statement reading => exact absurd hindex (Option.some_ne_none index).symm
  · intro index hindex
    cases event with
    | interrupt elapsed now => exact absurd hindex (Option.some_ne_none index).symm
    | statement reading =>
      obtain ⟨hpc, hindex⟩ := Option.ite_none_right_eq_some.mp hindex
      obtain rfl : s.x = index := Option.some.inj hindex
      exact read_recording hrun hpc

theorem RecordsSafely.count_le (h : RecordsSafely trace) (hrun : Run recorder trace s) :
    s.count ≤ maxSample := by
  cases hrun with
  | start hinitial =>
    obtain rfl := hinitial
    exact Nat.zero_le _
  | step _ _ => exact h.1.count

/-- A run stays inside the buffer exactly when at most `MAX_SAMPLE` changes of the pin are taken
between one `count = 0` and the next. -/
theorem recordsSafely_iff (hrun : Run recorder trace s) :
    RecordsSafely trace ↔ ∀ recent ∈ trace.tails, changesTaken recent ≤ maxSample := by
  induction hrun with
  | start h => simp [RecordsSafely, changesTaken]
  | step hrun hstep ih =>
    rw [RecordsSafely, List.tails, List.forall_mem_cons, ih, safeStep_iff hrun hstep]

/-! ### A recording of two changes, and a full buffer -/

/-- A statement at a time in milliseconds, with the pin low and no character there. -/
def statement (millis : BitVec 32) : Event := .statement ⟨millis * 1000, millis, false, false⟩

/-- A statement at a time in milliseconds that can read a character. -/
def statementWithCharacter (millis : BitVec 32) : Event :=
  .statement ⟨millis * 1000, millis, false, true⟩

/-- A change of the pin at a time in microseconds. -/
def change (micros : BitVec 32) : Event := .interrupt micros micros

/-- A character starts a recording, ten milliseconds behind `setup`. -/
def startRecording : List Event :=
  [statement 10, statement 10, statementWithCharacter 10] ++ List.replicate 9 (statement 10)

/-- Two changes are recorded, a character stops the recording, and `loop` prints it. -/
def twoChanges : List Event :=
  startRecording ++ [change 11000, change 12500, statementWithCharacter 13] ++
    List.replicate 18 (statement 13)

theorem twoChanges_recordsSafely :
    ∃ s, Run recorder (transitions recorder afterSetup twoChanges) s ∧ s.pc = .clearInput ∧
      s.count = 2 ∧ RecordsSafely (transitions recorder afterSetup twoChanges) := by
  have hreplay : (replay recorder afterSetup twoChanges).map (fun s ↦ (s.pc, s.count)) =
      some (.clearInput, 2) := by decide +kernel
  obtain ⟨s, hrun, hvalues⟩ := exists_run_of_replay rfl hreplay
  obtain ⟨hpc, hcount⟩ := Prod.mk.inj hvalues
  have htaken : ∀ recent ∈ (transitions recorder afterSetup twoChanges).tails,
      changesTaken recent ≤ maxSample := by decide +kernel
  exact ⟨s, hrun, hpc, hcount, (recordsSafely_iff hrun).mpr htaken⟩

/-- A change every millisecond, one more than the buffer has cells. -/
def fullBuffer : List Event :=
  startRecording ++
    (List.range (maxSample + 1)).map fun k ↦ change (BitVec.ofNat 32 (1000 * (k + 11)))

set_option maxRecDepth 4000 in
theorem not_forall_recordsSafely :
    ¬ ∀ (trace : List (Transition RecorderState Event)) (s : RecorderState),
      Run recorder trace s → RecordsSafely trace := by
  intro hsafe
  have hreplay : (replay recorder afterSetup fullBuffer).map (fun s ↦ s.count) =
      some (maxSample + 1) := by decide +kernel
  obtain ⟨s, hrun, hcount⟩ := exists_run_of_replay rfl hreplay
  have hle : s.count ≤ maxSample := (hsafe _ s hrun).count_le hrun
  rw [hcount] at hle
  exact Nat.not_succ_le_self maxSample hle

end Sketchbook.Recorder.RecordPin
