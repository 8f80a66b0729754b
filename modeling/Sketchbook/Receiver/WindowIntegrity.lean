import Sketchbook.Receiver.ReceiverRun
import Sketchbook.Receiver.RoundTrip

/-!
# Integrity of the decoded window over a run

A decode pass reads the 66 durations recorded last, in order, and no later pass reads any of them
again. The invariant `PassInvariant` keeps, for every earlier pass, a margin between the numbers it
has read and the newest recorded duration: as many durations as the next frame has collected so far
(`Pairing.unread`). A completed frame has collected 66 of them, so the window the next pass reads
lies wholly behind what was read before.

`run_windowIntegrity` collects what holds of a run: the contents of the window while a pass runs,
that no step changes them in between, the 33 turns of the decode loop, and that the passes read
disjoint sets of recorded durations.
-/

set_option autoImplicit false
set_option relaxedAutoImplicit false

namespace Sketchbook.Receiver.WindowIntegrity

open Foundation.RingIndex Foundation.TransitionSystem RingReceiver FramePairing ReceiverRun
open WindowDecoding RoundTrip

variable {size : ℕ} [NeZero size]

/-! ### What the window of a complete frame holds -/

/-- The window holds the last 66 recorded durations, oldest first. -/
theorem window_eq (hsize : 66 < size) {s : ReceiverState size} {m : Monitor size}
    (h : RingInvariant s m .complete) : window s = (m.recorded.take 66).reverse := by
  have hend : advance s.syncIndex1 66 = advance s.ringIndex 1 := by
    rw [h.tracks.2.2.2, h.tracks.2.2.1]
  exact h.recent.segment_eq 66 (by omega) (h.complete rfl) hend

/-- The numbers of the cells of the window are the last 66 numbers given. -/
theorem number_window (hsize : 66 < size) {s : ReceiverState size} {m : Monitor size}
    (h : RingInvariant s m .complete) (offset : ℕ) (hoffset : offset < 66) :
    m.numbers (advance s.syncIndex1 offset) + 65 = m.recorded.length + offset := by
  have hcount := h.complete rfl
  have hnewest : advance (advance s.syncIndex1 offset) (65 - offset) = s.ringIndex := by
    apply advance_left_injective 1
    rw [advance_advance, advance_advance, show offset + (65 - offset + 1) = 66 by omega,
      h.tracks.2.2.2, h.tracks.2.2.1]
  have hnumber := h.numbered (65 - offset) _ _ (by omega)
    (getElem?_countdown _ _ (by omega)) hnewest
  rw [hnumber]
  omega

/-! ### The margin between the passes and the newest duration -/

/-- How many of the newest durations belong to the frame being collected. -/
def unread : Pairing → ℕ
  | .closed => 0
  | .opened age => age + 1
  | .complete => 66

/-- An edge adds at most one duration to the frame being collected. -/
theorem unread_next_le (size : ℕ) {pairing : Pairing} (h : pairing ≠ .complete) (flag : Bool) :
    unread (pairing.next (ringAccepts size) flag) ≤ unread pairing + 1 := by
  cases pairing with
  | complete => exact absurd rfl h
  | closed => cases flag <;> simp [Pairing.next, unread]
  | opened age =>
    cases flag with
    | false => simp [Pairing.next, unread]
    | true =>
      simp only [Pairing.next]
      split_ifs with haccepts
      · have hmod : (age + 1) % size = 66 := haccepts
        have hle := Nat.mod_le (age + 1) size
        simp only [unread]
        omega
      · exact Nat.zero_le _

/-- Every number that a pass has read stands for a recorded duration and lies at least `margin`
below the newest. -/
def ReadBelow (passes : List (List ℕ)) (count margin : ℕ) : Prop :=
  ∀ pass ∈ passes, ∀ number ∈ pass, 0 < number ∧ number + margin ≤ count

/-- The points of `loop` from the first turn of the decode loop to the reset of the indices. -/
def Reading : LoopPoint size → Prop
  | .decode _ _ | .report _ | .clear => True
  | .testReceived | .detachInterrupt | .attachInterrupt => False

/-- A pass in progress has read only durations of the window. -/
def CurrentPass (passes : List (List ℕ)) (count : ℕ) : Prop :=
  ∃ current earlier, passes = current :: earlier ∧
    (∀ number ∈ current, count < number + 66 ∧ number ≤ count) ∧ ReadBelow earlier count 66

/-- The passes are disjoint, and the margin of the earlier ones covers the frame being collected. -/
structure PassInvariant (m : Monitored size) (pairing : Pairing) : Prop where
  disjoint : m.monitor.passes.Pairwise List.Disjoint
  reading : Reading m.running.point → CurrentPass m.monitor.passes m.monitor.recorded.length
  margin : ¬ Reading m.running.point →
    ReadBelow m.monitor.passes m.monitor.recorded.length (unread pairing)

/-- Numbers read in the current pass were read in no earlier one. -/
theorem CurrentPass.disjoint {current : List ℕ} {earlier : List (List ℕ)} {count : ℕ}
    (hcurrent : ∀ number ∈ current, count < number + 66) (hearlier : ReadBelow earlier count 66) :
    ∀ pass ∈ earlier, current.Disjoint pass := by
  intro pass hpass number hleft hright
  have hbelow := (hearlier pass hpass number hright).2
  have habove := hcurrent number hleft
  omega

theorem passInvariant_started (timings : Fin size → Micros) :
    PassInvariant (started timings) .closed where
  disjoint := List.Pairwise.nil
  reading h := h.elim
  margin _ := by intro pass hpass; simp [started] at hpass

/-- An interrupt keeps the passes and adds at most one duration to the margin. -/
theorem PassInvariant.edge {m : Monitored size} {pairing : Pairing}
    (h : PassInvariant m pairing) (hinvariant : ReceiverInvariant m pairing)
    (hattached : m.running.attached = true) (edge : Edge) :
    PassInvariant ⟨{ m.running with state := handler m.running.state edge },
        m.monitor.afterEdge m.running.state (handler m.running.state edge)⟩
      (pairing.next (ringAccepts size) (recognises m.running.state edge)) := by
  have hpoint : ¬ Reading m.running.point := by
    rcases hinvariant.loop.attached.mp hattached with hpoint | hpoint <;> simp [hpoint, Reading]
  have hmargin := h.margin hpoint
  by_cases hreceived : m.running.state.received = true
  · obtain rfl := hinvariant.complete_of_received hreceived
    rw [handler_of_received hreceived, Monitor.afterEdge, if_pos hreceived]
    exact h
  · have hne : pairing ≠ .complete := fun heq ↦
      hreceived (hinvariant.ring.tracks.received_eq_true_iff.mpr heq)
    have hafter : (m.monitor.afterEdge m.running.state (handler m.running.state edge)).passes =
        m.monitor.passes ∧
        (m.monitor.afterEdge m.running.state (handler m.running.state edge)).recorded.length =
          m.monitor.recorded.length + 1 := by
      simp [Monitor.afterEdge, hreceived]
    refine ⟨by rw [hafter.1]; exact h.disjoint, fun hreading ↦ absurd hreading hpoint, ?_⟩
    intro _
    simp only [hafter.1, hafter.2]
    intro pass hpass number hnumber
    obtain ⟨hpos, hle⟩ := hmargin pass hpass number hnumber
    have hstep := unread_next_le size hne (recognises m.running.state edge)
    exact ⟨hpos, by omega⟩

/-- A turn of the decode loop reads two durations of the window. -/
theorem PassInvariant.turn (hsize : 66 < size) {m : Monitored size} {i : Fin size} {d : Decode}
    (h : PassInvariant m .complete) (hinvariant : ReceiverInvariant m .complete)
    (hpoint : m.running.point = .decode i d) (hturn : i ≠ m.running.state.syncIndex2) :
    (m.monitor.read i).passes.Pairwise List.Disjoint ∧
      CurrentPass (m.monitor.read i).passes m.monitor.recorded.length := by
  obtain ⟨current, earlier, hpasses, hcurrent, hearlier⟩ := h.reading (by simp [hpoint, Reading])
  have hprogress := hinvariant.loop.progress
  rw [hpoint] at hprogress
  obtain ⟨hi, hk⟩ := hprogress
  have hlast : d.k ≠ 33 := by
    intro heq
    have hstop := (eq_syncIndex2_iff hsize hinvariant.ring.tracks hk).mpr heq
    exact hturn (hi.trans hstop)
  have hfirst := number_window hsize hinvariant.ring (2 * d.k) (by omega)
  have hsecond := number_window hsize hinvariant.ring (2 * d.k + 1) (by omega)
  rw [← advance_advance, ← hi] at hsecond
  rw [← hi] at hfirst
  have hread : (m.monitor.read i).passes =
      (m.monitor.numbers i :: m.monitor.numbers (advance i 1) :: current) :: earlier := by
    simp [Monitor.read, hpasses]
  have hnumbers : ∀ number ∈ m.monitor.numbers i :: m.monitor.numbers (advance i 1) :: current,
      m.monitor.recorded.length < number + 66 ∧ number ≤ m.monitor.recorded.length := by
    intro number hnumber
    rcases List.mem_cons.mp hnumber with rfl | hnumber
    · omega
    · rcases List.mem_cons.mp hnumber with rfl | hnumber
      · omega
      · exact hcurrent number hnumber
  have hdisjoint := h.disjoint
  rw [hpasses] at hdisjoint
  rw [hread]
  refine ⟨List.Pairwise.cons ?_ (List.Pairwise.of_cons hdisjoint),
    _, _, rfl, hnumbers, hearlier⟩
  exact CurrentPass.disjoint (fun number hnumber ↦ (hnumbers number hnumber).1) hearlier

omit [NeZero size] in
/-- A statement that reads nothing keeps the invariant as long as it neither starts nor ends a
decode pass. -/
theorem PassInvariant.move {m : Monitored size} {pairing : Pairing} (h : PassInvariant m pairing)
    {running : Running size} (hreading : Reading running.point ↔ Reading m.running.point) :
    PassInvariant ⟨running, m.monitor⟩ pairing where
  disjoint := h.disjoint
  reading hpass := h.reading (hreading.mp hpass)
  margin hpass := h.margin (mt hreading.mpr hpass)

/-- At the end of a pass no pass has read what is still to be recorded. -/
theorem CurrentPass.readBelow {passes : List (List ℕ)} {count : ℕ} (h : CurrentPass passes count)
    (hcount : 66 ≤ count) : ReadBelow passes count (unread .closed) := by
  obtain ⟨current, earlier, hpasses, hcurrent, hearlier⟩ := h
  intro pass hpass number hnumber
  rw [hpasses] at hpass
  rcases List.mem_cons.mp hpass with rfl | hpass
  · have hread := hcurrent number hnumber
    simp only [unread]
    omega
  · have hread := hearlier pass hpass number hnumber
    simp only [unread]
    omega

/-- A statement of `loop` keeps the pass invariant. -/
theorem PassInvariant.statement (hsize : 66 < size) {m : Monitored size} {pairing : Pairing}
    (h : PassInvariant m pairing) (hinvariant : ReceiverInvariant m pairing) (echoes : Bool)
    (stack : Stack) :
    PassInvariant ⟨m.running.statement echoes stack, m.monitor.afterStatement m.running⟩
      (pairingAfter m pairing (.statement stack)) := by
  have hkept (hmonitor : m.monitor.afterStatement m.running = m.monitor)
      (hpairing : pairingAfter m pairing (.statement stack) = pairing)
      (hreading : Reading (m.running.statement echoes stack).point ↔ Reading m.running.point) :
      PassInvariant ⟨m.running.statement echoes stack, m.monitor.afterStatement m.running⟩
        (pairingAfter m pairing (.statement stack)) := by
    rw [hmonitor, hpairing]
    exact h.move hreading
  cases hpoint : m.running.point with
  | testReceived =>
    refine hkept (by simp [Monitor.afterStatement, hpoint]) (by simp [pairingAfter, hpoint]) ?_
    simp only [Running.statement, hpoint]
    split_ifs <;> simp [Reading, hpoint]
  | detachInterrupt =>
    obtain rfl := hinvariant.complete_of_busy (by simp [hpoint, LoopPoint.Busy])
    have hmargin := h.margin (by simp [hpoint, Reading])
    simp only [Monitor.afterStatement, Running.statement, hpoint, pairingAfter, reduceCtorEq,
      if_false]
    refine ⟨List.Pairwise.cons (fun pass _ ↦ List.disjoint_nil_left pass) h.disjoint, fun _ ↦ ?_,
      fun hpass ↦ absurd trivial hpass⟩
    exact ⟨[], _, rfl, by simp, hmargin⟩
  | decode i d =>
    obtain rfl := hinvariant.complete_of_busy (by simp [hpoint, LoopPoint.Busy])
    by_cases hlast : i = m.running.state.syncIndex2
    · exact hkept (by simp [Monitor.afterStatement, hpoint, hlast]) (by simp [pairingAfter, hpoint])
        (by simp [Running.statement, hpoint, hlast, Reading])
    · obtain ⟨hpairwise, hcurrent⟩ := PassInvariant.turn hsize h hinvariant hpoint hlast
      simp only [Monitor.afterStatement, Running.statement, hpoint, pairingAfter, reduceCtorEq,
        if_false, hlast]
      refine ⟨hpairwise, fun _ ↦ ?_, fun hpass ↦ absurd trivial hpass⟩
      rw [read_recorded]
      exact hcurrent
  | report d =>
    exact hkept (by simp [Monitor.afterStatement, hpoint]) (by simp [pairingAfter, hpoint])
      (by simp [Running.statement, hpoint, Reading])
  | clear =>
    obtain rfl := hinvariant.complete_of_busy (by simp [hpoint, LoopPoint.Busy])
    have hcurrent := h.reading (by simp [hpoint, Reading])
    have hcount := hinvariant.ring.complete rfl
    simp only [Monitor.afterStatement, Running.statement, hpoint, pairingAfter, if_true]
    exact ⟨h.disjoint, fun hpass ↦ hpass.elim, fun _ ↦ hcurrent.readBelow hcount⟩
  | attachInterrupt =>
    exact hkept (by simp [Monitor.afterStatement, hpoint]) (by simp [pairingAfter, hpoint])
      (by simp [Running.statement, hpoint, Reading])

/-- Wherever a run ends, both invariants hold of one pairing. -/
theorem run_passInvariant (sketch : RingSketch)
    {trace : List (Transition (Monitored sketch.ringBufferSize) Label)}
    {m : Monitored sketch.ringBufferSize} (hrun : Run (receiver sketch) trace m) :
    ∃ pairing, ReceiverInvariant m pairing ∧ PassInvariant m pairing := by
  refine hrun.invariant
    (I := fun m ↦ ∃ pairing, ReceiverInvariant m pairing ∧ PassInvariant m pairing) ?_ ?_
  · rintro _ ⟨timings, rfl⟩
    exact ⟨.closed, ⟨ringInvariant_started timings, loopInvariant_started timings⟩,
      passInvariant_started timings⟩
  · rintro m label next ⟨pairing, hinvariant, hpass⟩ hstep
    refine ⟨_, hinvariant.step sketch.fits hstep, ?_⟩
    rcases step_cases hstep with ⟨edge, rfl, hattached, rfl⟩ | ⟨stack, rfl, rfl⟩
    · exact hpass.edge hinvariant hattached edge
    · exact hpass.statement sketch.fits hinvariant sketch.echoes stack

/-! ### The window of a run -/

/-- From the moment `loop` sees a frame to the reset of the indices, the ring positions from the
first sync index on hold the last 66 recorded durations in order. -/
def WindowHolds (m : Monitored size) : Prop :=
  m.running.point.Busy → 66 ≤ m.monitor.recorded.length ∧
    (List.range 66).map (fun offset ↦ m.running.state.timings
      (advance m.running.state.syncIndex1 offset)) = (m.monitor.recorded.take 66).reverse

/-- A step from a state with `received` set records nothing and changes no duration. It changes the
receiver state only where `loop` resets it, after the decode loop. -/
def Undisturbed (t : Transition (Monitored size) Label) : Prop :=
  t.before.running.state.received = true →
    t.after.monitor.recorded = t.before.monitor.recorded ∧
      t.after.running.state.timings = t.before.running.state.timings ∧
      (t.before.running.point ≠ .clear → t.after.running.state = t.before.running.state)

/-- After `k` turns the decode loop stands at the first index of pair `k`. It is at `syncIndex2`
exactly after 33 turns, and leaves the loop there. -/
def VisitsWindow (m : Monitored size) : Prop :=
  (∀ i d, m.running.point = .decode i d →
    i = advance m.running.state.syncIndex1 (2 * d.k) ∧ d.k ≤ 33 ∧
      (i = m.running.state.syncIndex2 ↔ d.k = 33)) ∧
  ∀ d, m.running.point = .report d → d.k = 33

theorem undisturbed_step {echoes : Bool} {m next : Monitored size} {label : Label}
    (hstep : m.step echoes label = some next) : Undisturbed ⟨m, label, next⟩ := by
  intro hreceived
  simp only at hreceived
  rcases step_cases hstep with ⟨edge, rfl, -, rfl⟩ | ⟨stack, rfl, rfl⟩
  · simp only [handler_of_received hreceived, Monitor.afterEdge, hreceived, if_true]
    exact ⟨trivial, trivial, fun _ ↦ trivial⟩
  · simp only [(afterStatement_frame m.monitor m.running).1, statement_state, true_and]
    constructor
    · split_ifs <;> rfl
    · intro hclear
      rw [if_neg hclear]

/-- What holds of the decoded window in every run of a sketch. -/
theorem run_windowIntegrity (sketch : RingSketch)
    (trace : List (Transition (Monitored sketch.ringBufferSize) Label))
    (m : Monitored sketch.ringBufferSize) (hrun : Run (receiver sketch) trace m) :
    WindowHolds m ∧ (∀ t ∈ trace, Undisturbed t) ∧ VisitsWindow m ∧
      (m.running.state.received = true → ∀ stack, ∃ d,
        decodeLoop sketch.echoes m.running.state stack = some d ∧ d.k = 33) ∧
      m.monitor.passes.Pairwise List.Disjoint := by
  obtain ⟨pairing, hinvariant, hpass⟩ := run_passInvariant sketch hrun
  refine ⟨?_, ?_, ⟨?_, ?_⟩, ?_, hpass.disjoint⟩
  · intro hbusy
    obtain rfl := hinvariant.complete_of_busy hbusy
    exact ⟨hinvariant.ring.complete rfl, window_eq sketch.fits hinvariant.ring⟩
  · intro t hmem
    obtain ⟨-, hstep⟩ := hrun.exists_run_before hmem
    exact undisturbed_step hstep
  · intro i d hpoint
    have hprogress := hinvariant.loop.progress
    rw [hpoint] at hprogress
    obtain ⟨hi, hk⟩ := hprogress
    obtain rfl := hinvariant.complete_of_busy (by simp [hpoint, LoopPoint.Busy])
    exact ⟨hi, hk, hi ▸ eq_syncIndex2_iff sketch.fits hinvariant.ring.tracks hk⟩
  · intro d hpoint
    have hprogress := hinvariant.loop.progress
    rw [hpoint] at hprogress
    exact hprogress
  · intro hreceived stack
    obtain rfl := hinvariant.complete_of_received hreceived
    obtain ⟨d, hd, hk, -, -⟩ :=
      exists_decodeLoop sketch.fits sketch.echoes hinvariant.ring.tracks.2.2.2 stack
    exact ⟨d, hd, hk⟩

/-! ### A run into a decode pass -/

/-- The edges of a frame of zeros between two marks, and the two statements with which `loop` starts
a decode pass. -/
def frameOfZeros : List Label :=
  (edgesAt 0 ([500, 9000] ++ encode (List.replicate 32 false) ++ [500, 9000])).map .edge ++
    List.replicate 2 (.statement ⟨'0', fun _ ↦ '0'⟩)

theorem exists_run_frameOfZeros : ∃ trace m, Run (receiver XivelyRfDs1820.sketch) trace m ∧
    m.running.point.Busy ∧ WindowHolds m ∧ VisitsWindow m ∧
      m.monitor.passes.Pairwise List.Disjoint := by
  have hreplay : ((replay (receiver XivelyRfDs1820.sketch) (started fun _ ↦ 0) frameOfZeros).map
      fun m ↦ decide (m.running.state.received = true ∧ m.running.attached = false)) =
        some true := by
    decide +kernel
  obtain ⟨m, hrun, hvalues⟩ := exists_run_of_replay (initial_started _ _) hreplay
  obtain ⟨hreceived, hdetached⟩ := of_decide_eq_true hvalues
  obtain ⟨hwindow, -, hvisits, -, hdisjoint⟩ :=
    run_windowIntegrity XivelyRfDs1820.sketch _ m hrun
  obtain ⟨pairing, hinvariant⟩ := run_invariant XivelyRfDs1820.sketch hrun
  have hbusy : m.running.point.Busy := by
    cases hpoint : m.running.point with
    | testReceived =>
      have hattached := hinvariant.loop.attached.mpr (Or.inl hpoint)
      exact absurd (hdetached.symm.trans hattached) Bool.false_ne_true
    | attachInterrupt =>
      have hidle := hinvariant.loop.idle hpoint
      exact absurd (hidle.symm.trans hreceived) Bool.false_ne_true
    | detachInterrupt | decode _ _ | report _ | clear => trivial
  exact ⟨_, m, hrun, hbusy, hwindow, hvisits, hdisjoint⟩

end Sketchbook.Receiver.WindowIntegrity
