import Sketchbook.Foundation.TransitionSystem
import Sketchbook.Receiver.FramePairing

/-!
# Runs of a receiver sketch: interrupts between the statements of loop

`handler` may run between any two statements of `loop` while the interrupt is attached. `Running` is
a sketch after `setup`: the receiver state, whether the interrupt is attached and the statement of
`loop` that comes next. `loop` detaches the interrupt before the first turn of the decode loop and
attaches it again as its last statement, so no interrupt can tell the three assignments of
`clearReceived` apart.

A `Monitor` records what the properties of runs speak of and never influences a step: the durations
that `handler` recorded, the number of the recorded duration that each cell holds, the number of the
edge that opened the pending pair, and the numbers that each decode pass has read.

`ReceiverInvariant` holds wherever a run ends (`run_invariant`). Its parts follow the three things a
step can change: the ring and the pending sync, the point of `loop`, and the passes.
-/

set_option autoImplicit false
set_option relaxedAutoImplicit false

namespace Sketchbook.Receiver.ReceiverRun

open Foundation.RingIndex Foundation.TransitionSystem RingReceiver FramePairing

/-! ### The steps of a sketch -/

/-- The statement of `loop` that comes next. -/
inductive LoopPoint (size : ℕ)
  | testReceived
  | detachInterrupt
  | decode (i : Fin size) (d : Decode)
  | report (d : Decode)
  | clear
  | attachInterrupt

instance {size : ℕ} (point : LoopPoint size) : Decidable (point = .clear) :=
  match point with
  | .clear => .isTrue rfl
  | .testReceived | .detachInterrupt | .decode _ _ | .report _ | .attachInterrupt =>
    .isFalse (by simp)

/-- A sketch after `setup`. -/
structure Running (size : ℕ) where
  state : ReceiverState size
  attached : Bool
  point : LoopPoint size

/-- An edge on the data pin, or the next statement of `loop`. The stack contents are what a decode
loop finds in its uninitialised locals. -/
inductive Label
  | edge (edge : Edge)
  | statement (stack : Stack)

variable {size : ℕ} [NeZero size]

/-- The next statement of `loop`. -/
def Running.statement (echoes : Bool) (r : Running size) (stack : Stack) : Running size :=
  match r.point with
  | .testReceived =>
    if r.state.received = true then { r with point := .detachInterrupt } else r
  | .detachInterrupt =>
    { r with attached := false, point := .decode r.state.syncIndex1 stack.decode }
  | .decode i d =>
    if i = r.state.syncIndex2 then { r with point := .report d }
    else { r with point := .decode (advance i 2) (decodeBody echoes r.state.timings i d) }
  | .report _ => { r with point := .clear }
  | .clear => { r with state := clearReceived r.state, point := .attachInterrupt }
  | .attachInterrupt => { r with attached := true, point := .testReceived }

def Running.step (echoes : Bool) (r : Running size) : Label → Option (Running size)
  | .edge edge => if r.attached = true then some { r with state := handler r.state edge } else none
  | .statement stack => some (r.statement echoes stack)

/-! ### The monitor -/

/-- What has happened so far. Recorded durations are numbered from one; a cell that has not been
written since power-on has number zero. -/
structure Monitor (size : ℕ) where
  recorded : List Micros
  numbers : Fin size → ℕ
  openedAt : ℕ
  passes : List (List ℕ)

/-- A call of `handler` that records a duration gives it the next number. It opens a pair when it
counts a first sync. -/
def Monitor.afterEdge (m : Monitor size) (s next : ReceiverState size) : Monitor size :=
  if s.received = true then m
  else
    { m with
      recorded := next.duration :: m.recorded
      numbers := Function.update m.numbers next.ringIndex (m.recorded.length + 1)
      openedAt := if s.syncCount = 0 ∧ next.syncCount = 1 then m.recorded.length + 1
        else m.openedAt }

/-- The current decode pass reads the cells at `i` and behind it. -/
def Monitor.read (m : Monitor size) (i : Fin size) : Monitor size :=
  match m.passes with
  | [] => m
  | current :: earlier =>
    { m with passes := (m.numbers i :: m.numbers (advance i 1) :: current) :: earlier }

def Monitor.afterStatement (m : Monitor size) (r : Running size) : Monitor size :=
  match r.point with
  | .detachInterrupt => { m with passes := [] :: m.passes }
  | .decode i _ => if i = r.state.syncIndex2 then m else m.read i
  | _ => m

/-- A sketch together with its monitor. -/
structure Monitored (size : ℕ) where
  running : Running size
  monitor : Monitor size

def Monitored.step (echoes : Bool) (m : Monitored size) (label : Label) :
    Option (Monitored size) :=
  (m.running.step echoes label).map fun next ↦
    ⟨next, match label with
      | .edge _ => m.monitor.afterEdge m.running.state next.state
      | .statement _ => m.monitor.afterStatement m.running⟩

/-- A sketch after `setup`, over the ring contents it finds in memory. -/
def started (timings : Fin size → Micros) : Monitored size :=
  ⟨⟨powerOn timings, true, .testReceived⟩, ⟨[], fun _ ↦ 0, 0, []⟩⟩

/-- The runs of a sketch. -/
def receiver (sketch : RingSketch) : System (Monitored sketch.ringBufferSize) Label where
  initial m := ∃ timings, m = started timings
  step := Monitored.step sketch.echoes

theorem initial_started (sketch : RingSketch) (timings : Fin sketch.ringBufferSize → Micros) :
    (receiver sketch).initial (started timings) :=
  ⟨timings, rfl⟩

/-! ### The ring and the pending sync -/

/-- The numbers from `count` down to one. -/
def countdown : ℕ → List ℕ
  | 0 => []
  | count + 1 => (count + 1) :: countdown count

theorem getElem?_countdown (count age : ℕ) (h : age < count) :
    (countdown count)[age]? = some (count - age) := by
  induction count generalizing age with
  | zero => omega
  | succ count ih =>
    cases age with
    | zero => simp [countdown]
    | succ age =>
      have hrest := ih age (by omega)
      simp only [countdown, List.getElem?_cons_succ, hrest]
      congr 1
      omega

/-- The ring holds the recorded durations and their numbers, and the pending sync is as old as the
monitor says. -/
structure RingInvariant (s : ReceiverState size) (m : Monitor size) (pairing : Pairing) :
    Prop where
  tracks : Tracks s pairing
  recent : Recent s.timings s.ringIndex m.recorded
  numbered : Recent m.numbers s.ringIndex (countdown m.recorded.length)
  opened : ∀ age, pairing = .opened age → m.openedAt + age = m.recorded.length
  complete : pairing = .complete → 66 ≤ m.recorded.length

theorem ringInvariant_started (timings : Fin size → Micros) :
    RingInvariant (started timings).running.state (started timings).monitor .closed where
  tracks := tracks_powerOn timings
  recent := recent_nil _ _
  numbered := recent_nil _ _
  opened := by simp
  complete := by simp

/-- The pairing after an edge agrees with the monitor on the age of the pending sync. -/
theorem opened_afterEdge {s : ReceiverState size} {m : Monitor size} {pairing : Pairing}
    (h : RingInvariant s m pairing) (hreceived : s.received = false) (edge : Edge) (age : ℕ)
    (hnext : pairing.next (ringAccepts size) (recognises s edge) = .opened age) :
    (m.afterEdge s (handler s edge)).openedAt + age = m.recorded.length + 1 := by
  have htracks := handler_tracks h.tracks edge
  rw [hnext] at htracks
  have hcount : (handler s edge).syncCount = 1 := htracks.2.1
  simp only [Monitor.afterEdge, hreceived, Bool.false_eq_true, if_false, hcount, and_true]
  cases pairing with
  | complete => simp [h.tracks.1] at hreceived
  | closed =>
    rw [if_pos h.tracks.2]
    cases hflag : recognises s edge with
    | false => simp [hflag, Pairing.next] at hnext
    | true =>
      simp only [hflag, Pairing.next, Pairing.opened.injEq] at hnext
      omega
  | opened old =>
    have hold := h.opened old rfl
    have hone : s.syncCount = 1 := h.tracks.2.1
    rw [if_neg (by omega)]
    cases hflag : recognises s edge with
    | false =>
      simp only [hflag, Pairing.next, Pairing.opened.injEq] at hnext
      omega
    | true =>
      simp only [hflag, Pairing.next] at hnext
      split_ifs at hnext

/-- A completed pair lies at least 66 edges apart, so as many durations have been recorded. -/
theorem complete_afterEdge {s : ReceiverState size} {m : Monitor size} {pairing : Pairing}
    (h : RingInvariant s m pairing) (hreceived : s.received = false) (edge : Edge)
    (hnext : pairing.next (ringAccepts size) (recognises s edge) = .complete) :
    ∃ age, pairing = .opened age ∧ recognises s edge = true ∧ (age + 1) % size = 66 := by
  cases pairing with
  | complete => simp [h.tracks.1] at hreceived
  | closed => cases hflag : recognises s edge <;> simp [hflag, Pairing.next] at hnext
  | opened age =>
    cases hflag : recognises s edge with
    | false => simp [hflag, Pairing.next] at hnext
    | true =>
      simp only [hflag, Pairing.next] at hnext
      split_ifs at hnext with haccepts
      exact ⟨age, rfl, rfl, haccepts⟩

/-- An edge keeps the ring invariant. -/
theorem RingInvariant.edge {s : ReceiverState size} {m : Monitor size} {pairing : Pairing}
    (h : RingInvariant s m pairing) (edge : Edge) :
    RingInvariant (handler s edge) (m.afterEdge s (handler s edge))
      (pairing.next (ringAccepts size) (recognises s edge)) := by
  by_cases hreceived : s.received = true
  · have hcomplete := h.tracks.received_eq_true_iff.mp hreceived
    subst hcomplete
    rw [handler_of_received hreceived, Monitor.afterEdge, if_pos hreceived]
    exact h
  · have hreceived : s.received = false := by simpa using hreceived
    obtain ⟨htimings, hringIndex, hduration, -⟩ := handler_recorded hreceived edge
    have hmonitor : (m.afterEdge s (handler s edge)).recorded =
        (record s edge).duration :: m.recorded ∧
        (m.afterEdge s (handler s edge)).numbers =
          Function.update m.numbers (record s edge).ringIndex (m.recorded.length + 1) := by
      simp [Monitor.afterEdge, hreceived, hduration, hringIndex]
    refine ⟨handler_tracks h.tracks edge, ?_, ?_, ?_, ?_⟩
    · rw [htimings, hringIndex, hmonitor.1]
      exact h.recent.push _
    · rw [hringIndex, hmonitor.1, hmonitor.2]
      exact h.numbered.push _
    · intro age hnext
      rw [hmonitor.1, List.length_cons]
      exact opened_afterEdge h hreceived edge age hnext
    · intro hnext
      obtain ⟨age, rfl, -, hmod⟩ := complete_afterEdge h hreceived edge hnext
      have hage := h.opened age rfl
      have hle := Nat.mod_le (age + 1) size
      rw [hmonitor.1, List.length_cons]
      omega

@[simp] theorem read_recorded (m : Monitor size) (i : Fin size) :
    (m.read i).recorded = m.recorded := by
  unfold Monitor.read
  split <;> rfl

@[simp] theorem read_numbers (m : Monitor size) (i : Fin size) :
    (m.read i).numbers = m.numbers := by
  unfold Monitor.read
  split <;> rfl

@[simp] theorem read_openedAt (m : Monitor size) (i : Fin size) :
    (m.read i).openedAt = m.openedAt := by
  unfold Monitor.read
  split <;> rfl

/-- A statement of `loop` changes the passes of the monitor at most. -/
theorem afterStatement_frame (m : Monitor size) (r : Running size) :
    (m.afterStatement r).recorded = m.recorded ∧ (m.afterStatement r).numbers = m.numbers ∧
      (m.afterStatement r).openedAt = m.openedAt := by
  unfold Monitor.afterStatement
  split
  · exact ⟨rfl, rfl, rfl⟩
  · split_ifs
    · exact ⟨rfl, rfl, rfl⟩
    · exact ⟨read_recorded m _, read_numbers m _, read_openedAt m _⟩
  · exact ⟨rfl, rfl, rfl⟩

/-- A statement of `loop` other than `clear` leaves the receiver state alone. -/
theorem statement_state (echoes : Bool) (r : Running size) (stack : Stack) :
    (r.statement echoes stack).state =
      if r.point = .clear then clearReceived r.state else r.state := by
  unfold Running.statement
  split <;> rename_i hpoint <;> simp only [hpoint, reduceCtorEq, if_false, if_true]
  · split_ifs <;> rfl
  · split_ifs <;> rfl

/-! ### The point of loop -/

/-- Inside a pass over a received frame. -/
def LoopPoint.Busy : LoopPoint size → Prop
  | .testReceived | .attachInterrupt => False
  | .detachInterrupt | .decode _ _ | .report _ | .clear => True

/-- How far the decode loop has come: after `k` turns it stands `2 * k` cells behind the first sync
index, and it is left after 33 turns. -/
def LoopPoint.Progress (syncIndex1 : Fin size) : LoopPoint size → Prop
  | .decode i d => i = advance syncIndex1 (2 * d.k) ∧ d.k ≤ 33
  | .report d => d.k = 33
  | _ => True

/-- A pass over a received frame keeps `received` set until `clear`, and the interrupt is attached
outside the statements that the pass runs detached. -/
structure LoopInvariant (r : Running size) : Prop where
  busy : r.point.Busy → r.state.received = true
  idle : r.point = .attachInterrupt → r.state.received = false
  attached : r.attached = true ↔ r.point = .testReceived ∨ r.point = .detachInterrupt
  progress : r.point.Progress r.state.syncIndex1

theorem loopInvariant_started (timings : Fin size → Micros) :
    LoopInvariant (started timings).running where
  busy h := h.elim
  idle h := by simp [started] at h
  attached := by simp [started]
  progress := trivial

/-- An interrupt does not disturb the pass it interrupts. -/
theorem LoopInvariant.edge {r : Running size} (h : LoopInvariant r) (hattached : r.attached = true)
    (edge : Edge) : LoopInvariant { r with state := handler r.state edge } := by
  rcases h.attached.mp hattached with hpoint | hpoint
  · exact ⟨fun hbusy ↦ by simp [hpoint, LoopPoint.Busy] at hbusy, fun hidle ↦ by
      simp [hpoint] at hidle, h.attached, by simp [hpoint, LoopPoint.Progress]⟩
  · have hreceived : r.state.received = true := h.busy (by simp [hpoint, LoopPoint.Busy])
    rw [handler_of_received hreceived]
    exact h

/-- The decode loop meets the second sync index after exactly 33 turns. -/
theorem eq_syncIndex2_iff (hsize : 66 < size) {s : ReceiverState size} (h : Tracks s .complete)
    {k : ℕ} (hk : k ≤ 33) : advance s.syncIndex1 (2 * k) = s.syncIndex2 ↔ k = 33 := by
  obtain ⟨-, -, -, hwindow⟩ := h
  rw [← hwindow]
  constructor
  · intro heq
    have := advance_injective s.syncIndex1 (by omega) hsize heq
    omega
  · rintro rfl
    rfl

/-- A statement of `loop` keeps the loop invariant. -/
theorem LoopInvariant.statement (hsize : 66 < size) {r : Running size} (h : LoopInvariant r)
    (htracks : WellFormed r.state) (echoes : Bool) (stack : Stack) :
    LoopInvariant (r.statement echoes stack) := by
  obtain ⟨pairing, htracks⟩ := htracks
  obtain ⟨state, attached, point⟩ := r
  obtain ⟨hbusy, hidle, hattached, hprogress⟩ := h
  cases point with
  | testReceived =>
    by_cases hreceived : state.received = true
    · simp only [Running.statement, hreceived, if_true]
      exact ⟨fun _ ↦ hreceived, by simp, by simpa using hattached, trivial⟩
    · simp only [Running.statement, hreceived]
      exact ⟨hbusy, hidle, hattached, trivial⟩
  | detachInterrupt =>
    exact ⟨fun _ ↦ hbusy trivial, by simp [Running.statement], by simp [Running.statement],
      (advance_zero _).symm, Nat.zero_le _⟩
  | decode i d =>
    have hreceived : state.received = true := hbusy trivial
    have hcomplete := htracks.received_eq_true_iff.mp hreceived
    subst hcomplete
    obtain ⟨hi, hk⟩ := hprogress
    simp only at hi hk
    have hstop := eq_syncIndex2_iff hsize htracks hk
    rw [← hi] at hstop
    by_cases hlast : i = state.syncIndex2
    · simp only [Running.statement, hlast, if_true]
      exact ⟨fun _ ↦ hreceived, by simp, by simpa using hattached, hstop.mp hlast⟩
    · simp only [Running.statement, hlast, if_false]
      refine ⟨fun _ ↦ hreceived, by simp, by simpa using hattached, ?_, ?_⟩
      · show advance i 2 = advance state.syncIndex1 (2 * (d.k + 1))
        rw [hi, advance_advance]
        congr 1
      · have hne : d.k ≠ 33 := fun heq ↦ hlast (hstop.mpr heq)
        show d.k + 1 ≤ 33
        omega
  | report d =>
    exact ⟨fun _ ↦ hbusy trivial, by simp [Running.statement], by
      simpa [Running.statement] using hattached, trivial⟩
  | clear =>
    exact ⟨fun hfalse ↦ hfalse.elim, fun _ ↦ rfl, by
      simpa [Running.statement] using hattached, trivial⟩
  | attachInterrupt =>
    exact ⟨fun hfalse ↦ hfalse.elim, by simp [Running.statement], by simp [Running.statement],
      trivial⟩

/-! ### The invariant of a run -/

/-- What holds of a sketch and its monitor wherever a run ends, for the pairing it has reached. -/
structure ReceiverInvariant (m : Monitored size) (pairing : Pairing) : Prop where
  ring : RingInvariant m.running.state m.monitor pairing
  loop : LoopInvariant m.running

/-- While a frame waits or is decoded the pairing is complete. -/
theorem ReceiverInvariant.complete_of_received {m : Monitored size} {pairing : Pairing}
    (h : ReceiverInvariant m pairing) (hreceived : m.running.state.received = true) :
    pairing = .complete :=
  h.ring.tracks.received_eq_true_iff.mp hreceived

theorem ReceiverInvariant.complete_of_busy {m : Monitored size} {pairing : Pairing}
    (h : ReceiverInvariant m pairing) (hbusy : m.running.point.Busy) : pairing = .complete :=
  h.complete_of_received (h.loop.busy hbusy)

/-- The pairing after a step. -/
def pairingAfter (m : Monitored size) (pairing : Pairing) : Label → Pairing
  | .edge edge => pairing.next (ringAccepts size) (recognises m.running.state edge)
  | .statement _ => if m.running.point = .clear then .closed else pairing

/-- What a step can be: an interrupt while attached, or a statement of `loop`. -/
theorem step_cases {echoes : Bool} {m next : Monitored size} {label : Label}
    (h : m.step echoes label = some next) :
    (∃ edge, label = .edge edge ∧ m.running.attached = true ∧
      next = ⟨{ m.running with state := handler m.running.state edge },
        m.monitor.afterEdge m.running.state (handler m.running.state edge)⟩) ∨
    (∃ stack, label = .statement stack ∧
      next = ⟨m.running.statement echoes stack, m.monitor.afterStatement m.running⟩) := by
  cases label with
  | edge edge =>
    by_cases hattached : m.running.attached = true
    · refine Or.inl ⟨edge, rfl, hattached, ?_⟩
      simpa [Monitored.step, Running.step, hattached] using h.symm
    · simp [Monitored.step, Running.step, hattached] at h
  | statement stack =>
    refine Or.inr ⟨stack, rfl, ?_⟩
    simpa [Monitored.step, Running.step] using h.symm

theorem RingInvariant.statement {m : Monitored size} {pairing : Pairing}
    (h : ReceiverInvariant m pairing) (echoes : Bool) (stack : Stack) :
    RingInvariant (m.running.statement echoes stack).state (m.monitor.afterStatement m.running)
      (pairingAfter m pairing (.statement stack)) := by
  obtain ⟨hrecorded, hnumbers, hopenedAt⟩ := afterStatement_frame m.monitor m.running
  obtain ⟨htracks, hrecent, hnumbered, hopened, hcount⟩ := h.ring
  rw [← hrecorded] at hrecent hcount
  rw [← hnumbers, ← hrecorded] at hnumbered
  rw [← hopenedAt, ← hrecorded] at hopened
  rw [statement_state]
  by_cases hclear : m.running.point = .clear
  · obtain rfl := h.complete_of_busy (by simp [hclear, LoopPoint.Busy])
    simp only [pairingAfter, hclear, if_true]
    exact ⟨tracks_clearReceived htracks, hrecent, hnumbered, by simp, by simp⟩
  · simp only [pairingAfter, hclear, if_false]
    exact ⟨htracks, hrecent, hnumbered, hopened, hcount⟩

/-- Every step keeps the invariant. -/
theorem ReceiverInvariant.step (hsize : 66 < size) {echoes : Bool} {m next : Monitored size}
    {label : Label} {pairing : Pairing} (h : ReceiverInvariant m pairing)
    (hstep : m.step echoes label = some next) :
    ReceiverInvariant next (pairingAfter m pairing label) := by
  rcases step_cases hstep with ⟨edge, rfl, hattached, rfl⟩ | ⟨stack, rfl, rfl⟩
  · exact ⟨h.ring.edge edge, h.loop.edge hattached edge⟩
  · exact ⟨RingInvariant.statement h echoes stack,
      h.loop.statement hsize ⟨pairing, h.ring.tracks⟩ echoes stack⟩

/-- Wherever a run of a sketch ends, the invariant holds. -/
theorem run_invariant (sketch : RingSketch)
    {trace : List (Transition (Monitored sketch.ringBufferSize) Label)}
    {m : Monitored sketch.ringBufferSize} (hrun : Run (receiver sketch) trace m) :
    ∃ pairing, ReceiverInvariant m pairing := by
  refine hrun.invariant (I := fun m ↦ ∃ pairing, ReceiverInvariant m pairing) ?_ ?_
  · rintro _ ⟨timings, rfl⟩
    exact ⟨.closed, ringInvariant_started timings, loopInvariant_started timings⟩
  · rintro m label next ⟨pairing, h⟩ hstep
    exact ⟨_, h.step sketch.fits hstep⟩

/-- Every state that a run reaches is well formed. -/
theorem run_wellFormed (sketch : RingSketch)
    {trace : List (Transition (Monitored sketch.ringBufferSize) Label)}
    {m : Monitored sketch.ringBufferSize} (hrun : Run (receiver sketch) trace m) :
    WellFormed m.running.state := by
  obtain ⟨pairing, h⟩ := run_invariant sketch hrun
  exact ⟨pairing, h.ring.tracks⟩

end Sketchbook.Receiver.ReceiverRun
