import Sketchbook.Foundation.WrappedClock
import Sketchbook.Receiver.FrameLength
import Sketchbook.Receiver.WindowIntegrity

/-!
# The true times of the edges

`handler` sees `micros()`, the true time in microseconds modulo 2 ^ 32. `TimedState` is a receiver
sketch with the true time, and an entry for each edge that `handler` has processed: when it came,
when the processed edge before it came, and whether it is the first one behind a decode. Time passes
before each event, and a statement with a `delay` takes at least as long as its `delay`.

`loop` holds off the next frame by at least 500 milliseconds between the decode loop and
`attachInterrupt`. RF_RECEIVER_V2_WITH_INTERRUPTS and RF_RECEIVER2 wait before they clear
`received`, XIVELY_RF_DS1820 behind that.

`run_durationsSurvive` says what holds of every run. The recorded durations are the true times
between processed edges modulo 2 ^ 32, also where `micros()` wraps in between. The first edge
behind a decode comes at least 500 milliseconds behind the last edge before it. If the gaps between
processed edges are below 2 ^ 32 microseconds, the duration recorded there is none that a frame is
made of, and no received frame contains such a duration, from the separator of its opening sync on.
-/

set_option autoImplicit false
set_option relaxedAutoImplicit false

namespace Sketchbook.Receiver.EdgeTiming

open Foundation.TransitionSystem Foundation.WrappedClock
open RingReceiver FramePairing ReceiverRun FrameLength WindowDecoding

/-! ### A sketch in time -/

/-- A receiver sketch with its delays in milliseconds: between the decode loop and the reset of
`received`, and between that and `attachInterrupt`. -/
structure PausedSketch extends RingSketch where
  delayBeforeClear : ℕ
  delayBeforeAttach : ℕ
  pauses : 500 ≤ delayBeforeClear + delayBeforeAttach

def rfReceiverV2WithInterrupts : PausedSketch :=
  ⟨RfReceiverV2WithInterrupts.sketch, 1000, 0, by decide⟩

def rfReceiver2 : PausedSketch := ⟨RfReceiver2.sketch, 1000, 0, by decide⟩

def xivelyRfDs1820 : PausedSketch := ⟨XivelyRfDs1820.sketch, 0, 500, by decide⟩

/-- An edge that `handler` has processed: its true time, that of the processed edge before it, if
there was one since power-on, and whether it is the first behind a decode. -/
structure ProcessedEdge where
  time : ℕ
  previous : Option ℕ
  afterDecode : Bool

/-- The true time of the processed edge before; the board is switched on at time zero. -/
def ProcessedEdge.since (e : ProcessedEdge) : ℕ := e.previous.getD 0

/-- The true time since the processed edge before, as a 32-bit word. -/
def ProcessedEdge.duration (e : ProcessedEdge) : Micros := BitVec.ofNat 32 (e.time - e.since)

/-- A sketch with the true time in microseconds, the edges that `handler` has processed, newest
first, and whether a frame has been decoded since the last of them. -/
structure TimedState (size : ℕ) where
  monitored : Monitored size
  clock : ℕ
  log : List ProcessedEdge
  decoded : Bool

/-- What happens: an edge on the data pin, or the next statement of `loop`. -/
inductive Event
  | edge (dataPin : Bool)
  | statement (stack : Stack)

/-- An event and the microseconds that pass before it takes effect. -/
structure TimedEvent where
  elapsed : ℕ
  event : Event

/-- What `micros()` returns at a true time. -/
def micros (time : ℕ) : Micros := BitVec.ofNat 32 time

/-- How many microseconds a statement of `loop` takes at least. -/
def pause (sketch : PausedSketch) {size : ℕ} : LoopPoint size → ℕ
  | .report _ => 1000 * sketch.delayBeforeClear
  | .attachInterrupt => 1000 * sketch.delayBeforeAttach
  | .testReceived | .detachInterrupt | .decode _ _ | .clear => 0

variable {size : ℕ} [NeZero size]

/-- An edge is processed unless a received frame waits to be decoded. -/
def TimedState.afterEdge (t : TimedState size) (next : Monitored size) (clock : ℕ) :
    TimedState size :=
  if t.monitored.running.state.received = true then { t with monitored := next, clock := clock }
  else ⟨next, clock, ⟨clock, t.log.head?.map (·.time), t.decoded⟩ :: t.log, false⟩

/-- A frame is decoded when `loop` clears `received`. -/
def TimedState.afterStatement (t : TimedState size) (next : Monitored size) (clock : ℕ) :
    TimedState size :=
  ⟨next, clock, t.log, if t.monitored.running.point = .clear then true else t.decoded⟩

def TimedState.step (sketch : PausedSketch) (t : TimedState size) (label : TimedEvent) :
    Option (TimedState size) :=
  let clock := t.clock + label.elapsed
  match label.event with
  | .edge dataPin =>
    (t.monitored.step sketch.echoes (.edge ⟨micros clock, dataPin⟩)).map fun next ↦
      t.afterEdge next clock
  | .statement stack =>
    if pause sketch t.monitored.running.point ≤ label.elapsed then
      (t.monitored.step sketch.echoes (.statement stack)).map fun next ↦
        t.afterStatement next clock
    else none

/-- A sketch after `setup`, which ends at some true time. -/
def startedAt (timings : Fin size → Micros) (clock : ℕ) : TimedState size :=
  ⟨started timings, clock, [], false⟩

def timedReceiver (sketch : PausedSketch) :
    System (TimedState sketch.ringBufferSize) TimedEvent where
  initial t := ∃ timings clock, t = startedAt timings clock
  step := TimedState.step sketch

/-- The sketch and its monitor behind an edge. -/
def monitoredAfterEdge (m : Monitored size) (edge : Edge) : Monitored size :=
  ⟨{ m.running with state := handler m.running.state edge },
    m.monitor.afterEdge m.running.state (handler m.running.state edge)⟩

/-- The sketch and its monitor behind a statement of `loop`. -/
def monitoredAfterStatement (echoes : Bool) (m : Monitored size) (stack : Stack) :
    Monitored size :=
  ⟨m.running.statement echoes stack, m.monitor.afterStatement m.running⟩

theorem initial_startedAt (sketch : PausedSketch)
    (timings : Fin sketch.ringBufferSize → Micros) (clock : ℕ) :
    (timedReceiver sketch).initial (startedAt timings clock) :=
  ⟨timings, clock, rfl⟩

/-- What a step can be: an edge while the interrupt is attached, or a statement of `loop` that takes
as long as its `delay`. -/
theorem step_cases {sketch : PausedSketch} {t next : TimedState size} {label : TimedEvent}
    (h : t.step sketch label = some next) :
    (∃ edge : Edge, edge.micros = micros (t.clock + label.elapsed) ∧
      t.monitored.running.attached = true ∧
      next = t.afterEdge (monitoredAfterEdge t.monitored edge) (t.clock + label.elapsed)) ∨
    (∃ stack, pause sketch t.monitored.running.point ≤ label.elapsed ∧
      next = t.afterStatement (monitoredAfterStatement sketch.echoes t.monitored stack)
        (t.clock + label.elapsed)) := by
  obtain ⟨elapsed, event⟩ := label
  cases event with
  | edge dataPin =>
    obtain ⟨monitored, hmonitored, hnext⟩ := Option.map_eq_some_iff.mp h
    rcases ReceiverRun.step_cases hmonitored with ⟨edge, hedge, hattached, rfl⟩ | ⟨_, hedge, -⟩
    · obtain rfl := Label.edge.inj hedge
      exact .inl ⟨_, rfl, hattached, hnext.symm⟩
    · exact Label.noConfusion hedge
  | statement stack =>
    obtain ⟨hpause, h⟩ := Option.ite_none_right_eq_some.mp h
    obtain ⟨monitored, hmonitored, hnext⟩ := Option.map_eq_some_iff.mp h
    rcases ReceiverRun.step_cases hmonitored with ⟨_, hstatement, -⟩ | ⟨_, hstatement, rfl⟩
    · exact Label.noConfusion hstatement
    · obtain rfl := Label.statement.inj hstatement
      exact .inr ⟨_, hpause, hnext.symm⟩

omit [NeZero size] in
theorem afterEdge_monitored (t : TimedState size) (next : Monitored size) (clock : ℕ) :
    (t.afterEdge next clock).monitored = next := by
  unfold TimedState.afterEdge
  split_ifs <;> rfl

/-- A step of a sketch in time is a step of the sketch. -/
theorem exists_step_monitored {sketch : PausedSketch} {t next : TimedState size}
    {label : TimedEvent} (h : t.step sketch label = some next) :
    ∃ untimed, t.monitored.step sketch.echoes untimed = some next.monitored := by
  obtain ⟨elapsed, event⟩ := label
  cases event with
  | edge dataPin =>
    obtain ⟨monitored, hmonitored, rfl⟩ := Option.map_eq_some_iff.mp h
    rw [afterEdge_monitored]
    exact ⟨_, hmonitored⟩
  | statement stack =>
    obtain ⟨-, h⟩ := Option.ite_none_right_eq_some.mp h
    obtain ⟨monitored, hmonitored, rfl⟩ := Option.map_eq_some_iff.mp h
    exact ⟨_, hmonitored⟩

/-- The runs of a sketch in time are runs of the sketch, so its invariant holds on them. -/
theorem run_receiverInvariant {sketch : PausedSketch}
    {trace : List (Transition (TimedState sketch.ringBufferSize) TimedEvent)}
    {t : TimedState sketch.ringBufferSize} (hrun : Run (timedReceiver sketch) trace t) :
    ∃ pairing, ReceiverInvariant t.monitored pairing := by
  have huntimed : ∃ untimed, Run (receiver sketch.toRingSketch) untimed t.monitored := by
    induction hrun with
    | start h =>
      obtain ⟨timings, clock, rfl⟩ := h
      exact ⟨[], .start ⟨timings, rfl⟩⟩
    | step _ hstep ih =>
      obtain ⟨untimed, hrun⟩ := ih
      obtain ⟨label, hlabel⟩ := exists_step_monitored hstep
      exact ⟨_, hrun.step hlabel⟩
  obtain ⟨untimed, hrun⟩ := huntimed
  exact run_invariant sketch.toRingSketch hrun

/-! ### Gaps and the durations recorded for them -/

/-- A duration that is taken for a separator, a bit or a sync. -/
def IsPulse (duration : Micros) : Prop :=
  within sepLength 100 duration ∨ within bit1Length 1000 duration ∨
    within bit0Length 1000 duration ∨ within syncLength 1000 duration

/-- The gaps between processed edges are below the range of `micros()`. -/
def ShortGaps (log : List ProcessedEdge) : Prop :=
  ∀ e ∈ log, ∀ earlier, e.previous = some earlier → e.time - earlier < 2 ^ 32

/-- The processed edge before came at least half a second earlier. -/
def Spaced (e : ProcessedEdge) : Prop :=
  ∃ earlier, e.previous = some earlier ∧ earlier + 500 * 1000 ≤ e.time

theorem toNat_lt_of_isPulse {duration : Micros} (h : IsPulse duration) :
    duration.toNat < 500 * 1000 := by
  have hlengths : sepLength + 100 ≤ 10000 ∧ bit1Length + 1000 ≤ 10000 ∧
      bit0Length + 1000 ≤ 10000 ∧ syncLength + 1000 ≤ 10000 := by decide
  rcases h with ⟨-, h⟩ | ⟨-, h⟩ | ⟨-, h⟩ | ⟨-, h⟩ <;> omega

/-- The duration recorded for a pause is no pulse of a frame, whether or not `micros()` has wrapped
in it. -/
theorem Spaced.not_isPulse {e : ProcessedEdge} (h : Spaced e)
    (hshort : ∀ earlier, e.previous = some earlier → e.time - earlier < 2 ^ 32) :
    ¬ IsPulse e.duration := by
  intro hpulse
  obtain ⟨earlier, hprevious, hle⟩ := h
  have hgap := hshort earlier hprevious
  have hduration : e.duration.toNat = e.time - earlier := by
    rw [ProcessedEdge.duration, ProcessedEdge.since, hprevious, Option.getD_some,
      BitVec.toNat_ofNat, Nat.mod_eq_of_lt hgap]
  have hlt := toNat_lt_of_isPulse hpulse
  omega

/-! ### The invariant of all runs -/

/-- The true time of the last processed edge. -/
def TimedState.lastProcessed (t : TimedState size) : ℕ := (t.log.head?.map (·.time)).getD 0

/-- How long the last processed edge has been past: at the reset of `received` and behind it for the
first `delay`, and once the interrupt is attached again for both. -/
def Delayed (sketch : PausedSketch) (t : TimedState size) : Prop :=
  match t.monitored.running.point with
  | .clear | .attachInterrupt => t.lastProcessed + 1000 * sketch.delayBeforeClear ≤ t.clock
  | .testReceived | .detachInterrupt | .decode _ _ | .report _ =>
    t.decoded = true → t.lastProcessed + 500 * 1000 ≤ t.clock

/-- The processed edges whose durations the frame being collected or received is made of, from the
separator of its opening sync on. -/
def TimedState.frame (t : TimedState size) : List ProcessedEdge :=
  t.log.take (t.monitored.monitor.recorded.length + 2 - t.monitored.monitor.openedAt)

/-- The recorded durations are those of the processed edges, whose times are in order. -/
structure ClockInvariant (t : TimedState size) : Prop where
  linked : t.log.IsChain fun e earlier ↦ e.previous = some earlier.time
  lastTime : t.monitored.running.state.lastTime = micros t.lastProcessed
  past : t.lastProcessed ≤ t.clock
  recorded : t.monitored.monitor.recorded = t.log.map ProcessedEdge.duration
  ordered : ∀ e ∈ t.log, e.since ≤ e.time

/-- A pause lies between a decode and the next processed edge. -/
structure PauseInvariant (sketch : PausedSketch) (t : TimedState size) : Prop where
  waiting : t.decoded = true → t.log ≠ [] ∧ t.monitored.running.state.received = false ∧
    t.monitored.running.state.syncCount = 0
  delayed : Delayed sketch t
  spaced : ∀ e ∈ t.log, e.afterDecode = true → Spaced e

/-- No frame contains the duration of a pause. -/
structure FrameInvariant (t : TimedState size) : Prop where
  unbroken : ShortGaps t.log →
    t.monitored.running.state.syncCount = 1 ∨ t.monitored.running.state.received = true →
      ∀ e ∈ t.frame, e.afterDecode = false
  length : t.monitored.running.state.received = true →
    t.monitored.monitor.openedAt + 66 ≤ t.monitored.monitor.recorded.length

variable {sketch : PausedSketch} {t : TimedState size} {pairing : Pairing} {clock : ℕ}

theorem clockInvariant_startedAt (timings : Fin size → Micros) (clock : ℕ) :
    ClockInvariant (startedAt timings clock) :=
  ⟨.nil, rfl, Nat.zero_le _, rfl, fun _ he ↦ absurd he List.not_mem_nil⟩

/-- An edge that is ignored changes the clock alone. -/
theorem afterEdge_of_received (hreceived : t.monitored.running.state.received = true)
    (edge : Edge) (clock : ℕ) :
    t.afterEdge (monitoredAfterEdge t.monitored edge) clock = { t with clock := clock } := by
  rw [TimedState.afterEdge, if_pos hreceived, monitoredAfterEdge, handler_of_received hreceived,
    Monitor.afterEdge, if_pos hreceived]

/-- The entry of an edge that is processed at a true time. -/
def TimedState.entry (t : TimedState size) (clock : ℕ) : ProcessedEdge :=
  ⟨clock, t.log.head?.map (·.time), t.decoded⟩

omit [NeZero size] in
theorem TimedState.isChain_entry (t : TimedState size)
    (h : t.log.IsChain fun e earlier ↦ e.previous = some earlier.time) (clock : ℕ) :
    (t.entry clock :: t.log).IsChain fun e earlier ↦ e.previous = some earlier.time := by
  refine h.cons fun last hlast ↦ ?_
  rw [TimedState.entry, Option.mem_def.mp hlast]
  rfl

omit [NeZero size] in
theorem afterEdge_of_not_received (hreceived : ¬ t.monitored.running.state.received = true)
    (next : Monitored size) (clock : ℕ) :
    t.afterEdge next clock = ⟨next, clock, t.entry clock :: t.log, false⟩ := if_neg hreceived

omit [NeZero size] in
/-- The difference that `handler` computes is the true time modulo 2 ^ 32. -/
theorem ClockInvariant.duration_entry (h : ClockInvariant t) {edge : Edge}
    (hedge : edge.micros = micros clock) (hclock : t.clock ≤ clock) :
    edge.micros - t.monitored.running.state.lastTime = (t.entry clock).duration := by
  rw [hedge, h.lastTime]
  exact sub_eq_ofNat_sub (h.past.trans hclock)

/-- An edge records the true time since the processed edge before, modulo 2 ^ 32. -/
theorem ClockInvariant.edge (h : ClockInvariant t) {edge : Edge}
    (hedge : edge.micros = micros clock) (hclock : t.clock ≤ clock) :
    ClockInvariant (t.afterEdge (monitoredAfterEdge t.monitored edge) clock) := by
  have hpast : t.lastProcessed ≤ clock := h.past.trans hclock
  by_cases hreceived : t.monitored.running.state.received = true
  · rw [afterEdge_of_received hreceived]
    exact ⟨h.linked, h.lastTime, hpast, h.recorded, h.ordered⟩
  · rw [afterEdge_of_not_received hreceived]
    obtain ⟨-, -, hduration, hlastTime⟩ :=
      handler_recorded (Bool.eq_false_of_not_eq_true hreceived) edge
    refine ⟨t.isChain_entry h.linked clock, hlastTime.trans hedge, le_rfl, ?_, ?_⟩
    · have hentry : (record t.monitored.running.state edge).duration = (t.entry clock).duration :=
        h.duration_entry hedge hclock
      rw [monitoredAfterEdge, Monitor.afterEdge, if_neg hreceived, List.map_cons, ← hentry,
        ← h.recorded, hduration]
    · rw [List.forall_mem_cons]
      exact ⟨hpast, h.ordered⟩

theorem ClockInvariant.statement (h : ClockInvariant t) (echoes : Bool) (stack : Stack)
    (hclock : t.clock ≤ clock) :
    ClockInvariant (t.afterStatement (monitoredAfterStatement echoes t.monitored stack) clock) := by
  obtain ⟨hrecorded, -, -⟩ := afterStatement_frame t.monitored.monitor t.monitored.running
  refine ⟨h.linked, ?_, h.past.trans hclock, hrecorded.trans h.recorded, h.ordered⟩
  show (t.monitored.running.statement echoes stack).state.lastTime = micros t.lastProcessed
  rw [statement_state]
  split_ifs <;> exact h.lastTime

theorem pauseInvariant_startedAt (sketch : PausedSketch) (timings : Fin size → Micros)
    (clock : ℕ) : PauseInvariant sketch (startedAt timings clock) :=
  ⟨fun h ↦ absurd h Bool.false_ne_true, fun h ↦ absurd h Bool.false_ne_true,
    fun _ he ↦ absurd he List.not_mem_nil⟩

/-- While the interrupt is attached, a pause counts until the first edge behind a decode. -/
theorem delayed_of_attached {m : Monitored size} (hloop : LoopInvariant m.running)
    (hattached : m.running.attached = true) (clock : ℕ) (log : List ProcessedEdge)
    (decoded : Bool) :
    Delayed sketch ⟨m, clock, log, decoded⟩ ↔
      (decoded = true → (⟨m, clock, log, decoded⟩ : TimedState size).lastProcessed + 500 * 1000 ≤
        clock) := by
  unfold Delayed
  rcases hloop.attached.mp hattached with hpoint | hpoint <;> rw [hpoint]

/-- The first edge behind a decode comes half a second behind the processed edge before. -/
theorem PauseInvariant.edge (h : PauseInvariant sketch t)
    (hloop : LoopInvariant t.monitored.running) (hattached : t.monitored.running.attached = true)
    (edge : Edge) (hclock : t.clock ≤ clock) :
    PauseInvariant sketch (t.afterEdge (monitoredAfterEdge t.monitored edge) clock) := by
  have hdelayed := (delayed_of_attached hloop hattached _ _ _).mp h.delayed
  by_cases hreceived : t.monitored.running.state.received = true
  · rw [afterEdge_of_received hreceived]
    refine ⟨h.waiting, (delayed_of_attached hloop hattached _ _ _).mpr fun hdecoded ↦ ?_, h.spaced⟩
    exact (hdelayed hdecoded).trans hclock
  · rw [afterEdge_of_not_received hreceived]
    have hnext : LoopInvariant (monitoredAfterEdge t.monitored edge).running :=
      hloop.edge hattached edge
    refine ⟨fun h ↦ absurd h Bool.false_ne_true,
      (delayed_of_attached hnext hattached _ _ _).mpr fun h ↦ absurd h Bool.false_ne_true, ?_⟩
    rw [List.forall_mem_cons]
    refine ⟨fun hdecoded ↦ ?_, h.spaced⟩
    obtain ⟨hne, -, -⟩ := h.waiting hdecoded
    obtain ⟨last, log, hlog⟩ := List.exists_cons_of_ne_nil hne
    have hlast : t.lastProcessed = last.time := by
      rw [TimedState.lastProcessed, hlog]
      rfl
    refine ⟨last.time, ?_, ?_⟩
    · rw [TimedState.entry, hlog]
      rfl
    · rw [← hlast]
      exact (hdelayed hdecoded).trans hclock

/-- Both delays together take half a second. -/
theorem PausedSketch.le_of_delays (sketch : PausedSketch) {last before clock : ℕ}
    (hfirst : last + 1000 * sketch.delayBeforeClear ≤ before)
    (hsecond : before + 1000 * sketch.delayBeforeAttach ≤ clock) : last + 500 * 1000 ≤ clock := by
  have hpauses := sketch.pauses
  omega

/-- Between two resets of `received`, no statement of `loop` hurries the next edge. -/
theorem Delayed.statement (h : Delayed sketch t) (hpast : t.lastProcessed ≤ t.clock)
    (echoes : Bool) (stack : Stack)
    (hclock : t.clock + pause sketch t.monitored.running.point ≤ clock) :
    Delayed sketch
      (t.afterStatement (monitoredAfterStatement echoes t.monitored stack) clock) := by
  have hclockLe : t.clock ≤ clock := (Nat.le_add_right _ _).trans hclock
  obtain ⟨⟨⟨state, attached, point⟩, monitor⟩, before, log, decoded⟩ := t
  cases point with
  | testReceived =>
    by_cases hreceived : state.received = true <;>
      simp only [Delayed, TimedState.afterStatement, monitoredAfterStatement, Running.statement,
        hreceived, if_true] <;>
      exact fun hdecoded ↦ (h hdecoded).trans hclockLe
  | detachInterrupt => exact fun hdecoded ↦ (h hdecoded).trans hclockLe
  | decode i d =>
    by_cases hlast : i = state.syncIndex2 <;>
      simp only [Delayed, TimedState.afterStatement, monitoredAfterStatement, Running.statement,
        hlast, if_true, if_false] <;>
      exact fun hdecoded ↦ (h hdecoded).trans hclockLe
  | report d => exact (Nat.add_le_add_right hpast _).trans hclock
  | clear => exact h.trans hclockLe
  | attachInterrupt => exact fun _ ↦ sketch.le_of_delays h hclock

/-- A statement of `loop` takes its `delay`. -/
theorem PauseInvariant.statement (h : PauseInvariant sketch t)
    (hreceiver : ReceiverInvariant t.monitored pairing) (hclockInvariant : ClockInvariant t)
    (echoes : Bool) (stack : Stack)
    (hclock : t.clock + pause sketch t.monitored.running.point ≤ clock) :
    PauseInvariant sketch
      (t.afterStatement (monitoredAfterStatement echoes t.monitored stack) clock) := by
  refine ⟨?_, h.delayed.statement hclockInvariant.past echoes stack hclock, h.spaced⟩
  show (if t.monitored.running.point = .clear then true else t.decoded) = true → t.log ≠ [] ∧
    (t.monitored.running.statement echoes stack).state.received = false ∧
      (t.monitored.running.statement echoes stack).state.syncCount = 0
  rw [statement_state]
  by_cases hclear : t.monitored.running.point = .clear
  · intro _
    obtain rfl := hreceiver.complete_of_busy (by rw [hclear]; trivial)
    have hlength := hreceiver.ring.complete rfl
    rw [hclockInvariant.recorded, List.length_map] at hlength
    rw [if_pos hclear]
    refine ⟨?_, rfl, hreceiver.ring.tracks.2.1⟩
    rintro hnil
    rw [hnil] at hlength
    exact absurd hlength (by decide)
  · rw [if_neg hclear, if_neg hclear]
    exact h.waiting

/-! ### Frames -/

theorem frameInvariant_startedAt (timings : Fin size → Micros) (clock : ℕ) :
    FrameInvariant (startedAt timings clock) := by
  refine ⟨fun _ h ↦ ?_, fun h ↦ absurd h Bool.false_ne_true⟩
  rcases h with h | h
  · exact absurd h Nat.zero_ne_one
  · exact absurd h Bool.false_ne_true

/-- Neither duration of a sync is that of a pause. -/
theorem afterDecode_of_recognises (hsize : 66 < size) (h : ClockInvariant t)
    (hring : RingInvariant t.monitored.running.state t.monitored.monitor pairing) {edge : Edge}
    (hedge : edge.micros = micros clock) (hclock : t.clock ≤ clock)
    (hsync : recognises t.monitored.running.state edge = true)
    (hspaced : ∀ e ∈ t.entry clock :: t.log, e.afterDecode = true → Spaced e)
    (hshort : ShortGaps (t.entry clock :: t.log)) :
    ∀ e ∈ t.entry clock :: t.log.take 1, e.afterDecode = false := by
  obtain ⟨hseparator, hpulse, -⟩ := (recognises_eq_true_iff (by omega) _ _).mp hsync
  have hkept (e : ProcessedEdge) (he : e ∈ t.entry clock :: t.log)
      (hduration : IsPulse e.duration) : e.afterDecode = false := by
    by_contra hdecoded
    have hpause := hspaced e he (Bool.eq_true_of_not_eq_false hdecoded)
    exact hpause.not_isPulse (hshort e he) hduration
  rw [h.duration_entry hedge hclock] at hpulse
  rw [List.forall_mem_cons]
  refine ⟨hkept _ List.mem_cons_self (.inr (.inr (.inr hpulse))), fun e he ↦ ?_⟩
  obtain ⟨rest, hlog⟩ : ∃ rest, t.log = e :: rest := by
    cases hlog : t.log with
    | nil =>
      rw [hlog] at he
      exact absurd he List.not_mem_nil
    | cons newest rest =>
      rw [hlog] at he
      obtain rfl := List.mem_singleton.mp he
      exact ⟨rest, rfl⟩
  have hnewest : t.monitored.monitor.recorded[0]? = some e.duration := by
    rw [h.recorded, hlog]
    rfl
  rw [hring.recent 0 _ _ (by omega) hnewest (Foundation.RingIndex.advance_zero _)] at hseparator
  exact hkept e (List.mem_cons_of_mem _ (List.mem_of_mem_take he)) (.inl hseparator)

/-- Behind an edge a sync is pending or a frame complete when one was pending before, or when the
edge is itself the opening sync. -/
theorem pending_or_opening {s : ReceiverState size} {m : Monitor size}
    (h : RingInvariant s m pairing) (hreceived : s.received = false) (edge : Edge)
    (hopen : (handler s edge).syncCount = 1 ∨ (handler s edge).received = true) :
    (s.syncCount = 1 ∧ m.openedAt ≤ m.recorded.length ∧
      (m.afterEdge s (handler s edge)).openedAt = m.openedAt) ∨
    (recognises s edge = true ∧
      (m.afterEdge s (handler s edge)).openedAt = m.recorded.length + 1) := by
  have htracks := handler_tracks h.tracks edge
  by_cases hcomplete : (handler s edge).received = true
  · obtain ⟨age, rfl, -, -, hage, -, hopened⟩ := monitor_of_complete h hreceived edge hcomplete
    exact .inl ⟨h.tracks.2.1, by omega, hopened⟩
  · have hone : (handler s edge).syncCount = 1 := hopen.resolve_right hcomplete
    have hnext := opened_afterEdge h hreceived edge
    cases pairing with
    | complete => exact absurd (hreceived.symm.trans h.tracks.1) Bool.false_ne_true
    | closed =>
      cases hflag : recognises s edge with
      | false =>
        rw [hflag] at htracks
        exact absurd (htracks.2.symm.trans hone) Nat.zero_ne_one
      | true =>
        rw [hflag] at hnext
        exact .inr ⟨rfl, hnext 0 rfl⟩
    | opened age =>
      have hage := h.opened age rfl
      cases hflag : recognises s edge with
      | false =>
        rw [hflag] at hnext
        have hopened := hnext (age + 1) rfl
        exact .inl ⟨h.tracks.2.1, by omega, by omega⟩
      | true =>
        simp only [hflag, Pairing.next] at htracks
        split_ifs at htracks
        · exact absurd htracks.1 hcomplete
        · exact absurd (htracks.2.symm.trans hone) Nat.zero_ne_one

omit [NeZero size] in
/-- The frame in terms of its number of durations. -/
theorem TimedState.frame_eq (count : ℕ) {recorded openedAt : ℕ}
    (hrecorded : t.monitored.monitor.recorded.length = recorded)
    (hopenedAt : t.monitored.monitor.openedAt = openedAt)
    (hcount : openedAt + count = recorded + 2) : t.frame = t.log.take count := by
  rw [TimedState.frame, hrecorded, hopenedAt, ← hcount, Nat.add_sub_cancel_left]

/-- A processed edge goes on with the frame, or its sync opens one. -/
theorem frame_afterEdge
    (h : RingInvariant t.monitored.running.state t.monitored.monitor pairing)
    (hreceived : ¬ t.monitored.running.state.received = true) (edge : Edge) (clock : ℕ)
    (hopen : (handler t.monitored.running.state edge).syncCount = 1 ∨
      (handler t.monitored.running.state edge).received = true) :
    (t.monitored.running.state.syncCount = 1 ∧
      (t.afterEdge (monitoredAfterEdge t.monitored edge) clock).frame =
        t.entry clock :: t.frame) ∨
    (recognises t.monitored.running.state edge = true ∧
      (t.afterEdge (monitoredAfterEdge t.monitored edge) clock).frame =
        t.entry clock :: t.log.take 1) := by
  have hrecorded : (monitoredAfterEdge t.monitored edge).monitor.recorded.length =
      t.monitored.monitor.recorded.length + 1 := by
    rw [monitoredAfterEdge, Monitor.afterEdge, if_neg hreceived, List.length_cons]
  rw [afterEdge_of_not_received hreceived]
  rcases pending_or_opening h (Bool.eq_false_of_not_eq_true hreceived) edge hopen with
    ⟨hpending, hle, hopenedAt⟩ | ⟨hsync, hopenedAt⟩
  · refine .inl ⟨hpending, ?_⟩
    obtain ⟨age, hage⟩ := Nat.exists_eq_add_of_le hle
    rw [TimedState.frame_eq (age + 3) hrecorded hopenedAt (by omega), List.take_succ_cons,
      TimedState.frame_eq (age + 2) rfl rfl (by omega)]
  · refine .inr ⟨hsync, ?_⟩
    rw [TimedState.frame_eq 2 hrecorded hopenedAt rfl, List.take_succ_cons]

/-- An edge behind a decode cannot be part of a frame, so a frame has no pause in it. -/
theorem FrameInvariant.edge (h : FrameInvariant t) (hsize : 66 < size)
    (hclockInvariant : ClockInvariant t) (hpause : PauseInvariant sketch t)
    (hreceiver : ReceiverInvariant t.monitored pairing)
    (hattached : t.monitored.running.attached = true) {edge : Edge}
    (hedge : edge.micros = micros clock) (hclock : t.clock ≤ clock) :
    FrameInvariant (t.afterEdge (monitoredAfterEdge t.monitored edge) clock) := by
  have hspaced := (hpause.edge hreceiver.loop hattached edge hclock).spaced
  by_cases hreceived : t.monitored.running.state.received = true
  · rw [afterEdge_of_received hreceived]
    exact ⟨h.unbroken, h.length⟩
  · have hframe := frame_afterEdge hreceiver.ring hreceived edge clock
    rw [afterEdge_of_not_received hreceived] at hspaced hframe ⊢
    refine ⟨fun hshort hopen ↦ ?_, fun hcomplete ↦ ?_⟩
    · rcases hframe hopen with ⟨hpending, hframe⟩ | ⟨hsync, hframe⟩
      · rw [hframe, List.forall_mem_cons]
        refine ⟨?_, h.unbroken (fun e he ↦ hshort e (List.mem_cons_of_mem _ he)) (.inl hpending)⟩
        by_contra hdecoded
        have hzero := (hpause.waiting (Bool.eq_true_of_not_eq_false hdecoded)).2.2
        exact absurd (hzero.symm.trans hpending) Nat.zero_ne_one
      · rw [hframe]
        exact afterDecode_of_recognises hsize hclockInvariant hreceiver.ring hedge hclock hsync
          hspaced hshort
    · obtain ⟨age, rfl, -, hmod, hage, hrecorded, hopenedAt⟩ :=
        monitor_of_complete hreceiver.ring (Bool.eq_false_of_not_eq_true hreceived) edge hcomplete
      have hle := Nat.mod_le (age + 1) size
      show (monitoredAfterEdge t.monitored edge).monitor.openedAt + 66 ≤
        (monitoredAfterEdge t.monitored edge).monitor.recorded.length
      rw [monitoredAfterEdge, hrecorded, hopenedAt]
      omega

/-- A statement of `loop` ends a frame or leaves it alone. -/
theorem FrameInvariant.statement (h : FrameInvariant t)
    (hreceiver : ReceiverInvariant t.monitored pairing) (echoes : Bool) (stack : Stack) :
    FrameInvariant (t.afterStatement (monitoredAfterStatement echoes t.monitored stack) clock) := by
  obtain ⟨hrecorded, -, hopenedAt⟩ := afterStatement_frame t.monitored.monitor t.monitored.running
  have hstate := statement_state echoes t.monitored.running stack
  by_cases hclear : t.monitored.running.point = .clear
  · obtain rfl := hreceiver.complete_of_busy (by rw [hclear]; trivial)
    rw [if_pos hclear] at hstate
    obtain ⟨hidle, hcount⟩ := tracks_clearReceived hreceiver.ring.tracks
    rw [← hstate] at hidle hcount
    refine ⟨fun _ hopen ↦ ?_,
      fun hcomplete ↦ absurd (hidle.symm.trans hcomplete) Bool.false_ne_true⟩
    rcases hopen with hone | hcomplete
    · exact absurd (hcount.symm.trans hone) Nat.zero_ne_one
    · exact absurd (hidle.symm.trans hcomplete) Bool.false_ne_true
  · rw [if_neg hclear] at hstate
    obtain ⟨hunbroken, hlength⟩ := h
    rw [← hstate, ← hrecorded, ← hopenedAt] at hlength
    rw [TimedState.frame, ← hstate, ← hrecorded, ← hopenedAt] at hunbroken
    exact ⟨hunbroken, hlength⟩

/-- The three invariants of a sketch in time. -/
structure TimedInvariant (sketch : PausedSketch) (t : TimedState size) : Prop where
  clock : ClockInvariant t
  pause : PauseInvariant sketch t
  frame : FrameInvariant t

/-- Wherever a run ends, the invariants hold. -/
theorem run_timedInvariant {sketch : PausedSketch}
    {trace : List (Transition (TimedState sketch.ringBufferSize) TimedEvent)}
    {t : TimedState sketch.ringBufferSize} (hrun : Run (timedReceiver sketch) trace t) :
    TimedInvariant sketch t := by
  induction hrun with
  | start h =>
    obtain ⟨timings, clock, rfl⟩ := h
    exact ⟨clockInvariant_startedAt _ _, pauseInvariant_startedAt _ _ _,
      frameInvariant_startedAt _ _⟩
  | step hrun hstep ih =>
    obtain ⟨hclock, hpause, hframe⟩ := ih
    obtain ⟨pairing, hreceiver⟩ := run_receiverInvariant hrun
    have hle := Nat.le_add_right
    rcases step_cases hstep with ⟨edge, hedge, hattached, rfl⟩ | ⟨stack, hdelay, rfl⟩
    · exact ⟨hclock.edge hedge (hle _ _), hpause.edge hreceiver.loop hattached edge (hle _ _),
        hframe.edge sketch.fits hclock hpause hreceiver hattached hedge (hle _ _)⟩
    · exact ⟨hclock.statement sketch.echoes stack (hle _ _),
        hpause.statement hreceiver hclock sketch.echoes stack (Nat.add_le_add_left hdelay _),
        hframe.statement hreceiver sketch.echoes stack⟩

/-! ### What holds of every run -/

/-- The times and durations of a run: the processed edges are linked and in order,
the recorded durations are the times between them modulo 2 ^ 32, and a pause is at least half a
second. While gaps are short, a pause is recorded as no pulse and is no part of a received frame,
whose last 66 durations are the window that the decode loop reads. -/
structure DurationsSurvive (t : TimedState size) : Prop where
  linked : t.log.IsChain fun e earlier ↦ e.previous = some earlier.time
  ordered : ∀ e ∈ t.log, e.since ≤ e.time
  recorded : t.monitored.monitor.recorded = t.log.map ProcessedEdge.duration
  spaced : ∀ e ∈ t.log, e.afterDecode = true → Spaced e
  noPulse : ShortGaps t.log → ∀ e ∈ t.log, e.afterDecode = true → ¬ IsPulse e.duration
  window : t.monitored.running.state.received = true →
    window t.monitored.running.state = ((t.frame.take 66).map ProcessedEdge.duration).reverse
  unbroken : ShortGaps t.log → t.monitored.running.state.received = true →
    ∀ e ∈ t.frame, e.afterDecode = false

/-- The window holds the last 66 durations of a received frame. -/
theorem window_frame (hsize : 66 < size) (hclock : ClockInvariant t) (hframe : FrameInvariant t)
    (hring : RingInvariant t.monitored.running.state t.monitored.monitor .complete) :
    window t.monitored.running.state =
      ((t.frame.take 66).map ProcessedEdge.duration).reverse := by
  have hlength := hframe.length hring.tracks.1
  have hcount : 66 ≤ t.monitored.monitor.recorded.length + 2 - t.monitored.monitor.openedAt := by
    omega
  rw [WindowIntegrity.window_eq hsize hring, TimedState.frame, List.take_take,
    Nat.min_eq_left hcount, hclock.recorded, List.map_take]

/-- Durations survive the wrap of `micros()` in every run of a receiver sketch, and no received
frame straddles the pause behind a decode. -/
theorem run_durationsSurvive (sketch : PausedSketch)
    (trace : List (Transition (TimedState sketch.ringBufferSize) TimedEvent))
    (t : TimedState sketch.ringBufferSize) (hrun : Run (timedReceiver sketch) trace t) :
    DurationsSurvive t := by
  obtain ⟨hclock, hpause, hframe⟩ := run_timedInvariant hrun
  obtain ⟨pairing, hreceiver⟩ := run_receiverInvariant hrun
  refine ⟨hclock.linked, hclock.ordered, hclock.recorded, hpause.spaced, ?_, ?_, ?_⟩
  · intro hshort e he hdecoded
    exact (hpause.spaced e he hdecoded).not_isPulse (hshort e he)
  · intro hreceived
    obtain rfl := hreceiver.complete_of_received hreceived
    exact window_frame sketch.fits hclock hframe hreceiver.ring
  · exact fun hshort hreceived ↦ hframe.unbroken hshort (.inr hreceived)

/-! ### A frame decoded across the wrap of `micros()` -/

/-- An edge some microseconds behind the event before it. -/
def edgeAfter (elapsed : Micros) : TimedEvent := ⟨elapsed.toNat, .edge true⟩

/-- A statement of `loop` that takes some microseconds. -/
def statementOf (elapsed : ℕ) : TimedEvent := ⟨elapsed, .statement ⟨'0', fun _ ↦ '0'⟩⟩

/-- A frame of zeros between two marks, its decode with the pause, and an edge behind it. -/
def decodedFrame : List TimedEvent :=
  ([0, 500, 9000] ++ encode (List.replicate 32 false) ++ [500, 9000]).map edgeAfter ++
    List.replicate 38 (statementOf 4) ++ [statementOf 500000, edgeAfter 20]

/-- `micros()` wraps 40 milliseconds into the frame. The edge behind the pause is recorded with the
time since the last edge of the frame. -/
theorem decodedFrame_durationsSurvive :
    ∃ trace t, Run (timedReceiver xivelyRfDs1820) trace t ∧ t.clock = 2 ^ 32 + 559172 ∧
      t.monitored.monitor.recorded.head? = some 500172 ∧
        (t.log.head?.map fun e ↦ e.afterDecode) = some true ∧ DurationsSurvive t := by
  have hreplay : (replay (timedReceiver xivelyRfDs1820)
      (startedAt (fun _ ↦ 0) (2 ^ 32 - 40000)) decodedFrame).map (fun t ↦ (t.clock,
        t.monitored.monitor.recorded.head?, t.log.head?.map fun e ↦ e.afterDecode)) =
          some (2 ^ 32 + 559172, some 500172, some true) := by decide +kernel
  obtain ⟨t, hrun, hvalues⟩ := exists_run_of_replay (initial_startedAt _ _ _) hreplay
  obtain ⟨hclock, hrest⟩ := Prod.mk.inj hvalues
  obtain ⟨hrecorded, hdecoded⟩ := Prod.mk.inj hrest
  exact ⟨_, t, hrun, hclock, hrecorded, hdecoded, run_durationsSurvive xivelyRfDs1820 _ t hrun⟩

end Sketchbook.Receiver.EdgeTiming
