import Sketchbook.Receiver.ReceiverRun

/-!
# How far apart the syncs of an accepted frame are

The handler counts the edges between two syncs as a distance on the ring, so it accepts a pair that
is 66 edges apart, and also one that is 66 edges and any number of full revolutions apart. The run
`longGap` is such a frame: 166 edges of noise on the ring of 100 cells.

`run_frameLengthSound_iff` says that this is the only way to accept a frame of the wrong length: the
accepted frames of a run are 66 edges long exactly when no sync arrives a positive number of
revolutions late.
-/

set_option autoImplicit false
set_option relaxedAutoImplicit false

namespace Sketchbook.Receiver.FrameLength

open Foundation.RingIndex Foundation.TransitionSystem RingReceiver FramePairing ReceiverRun

variable {size : ℕ} [NeZero size]

/-- When a step sets `received`, the edge it handles is 66 recorded edges after the edge that opened
the pair. -/
def FrameLengthSound (t : Transition (Monitored size) Label) : Prop :=
  t.before.running.state.received = false → t.after.running.state.received = true →
    t.after.monitor.recorded.length = t.after.monitor.openedAt + 66

/-- The step does not handle a sync that follows the pending one by 66 recorded edges and a positive
number of revolutions of the ring. -/
def GapFits (t : Transition (Monitored size) Label) : Prop :=
  ∀ edge, t.label = .edge edge → t.before.running.state.received = false →
    t.before.running.state.syncCount = 1 → recognises t.before.running.state edge = true →
    ∀ revolutions, t.before.monitor.recorded.length + 1 ≠
      t.before.monitor.openedAt + 66 + size * (revolutions + 1)

/-- A sync that completes a pair is recorded without opening another. -/
theorem monitor_of_complete {s : ReceiverState size} {m : Monitor size} {pairing : Pairing}
    (h : RingInvariant s m pairing) (hreceived : s.received = false) (edge : Edge)
    (hafter : (handler s edge).received = true) :
    ∃ age, pairing = .opened age ∧ recognises s edge = true ∧ (age + 1) % size = 66 ∧
      m.openedAt + age = m.recorded.length ∧
      (m.afterEdge s (handler s edge)).recorded.length = m.recorded.length + 1 ∧
      (m.afterEdge s (handler s edge)).openedAt = m.openedAt := by
  have htracks := handler_tracks h.tracks edge
  obtain ⟨age, rfl, hflag, hmod⟩ :=
    complete_afterEdge h hreceived edge (htracks.received_eq_true_iff.mp hafter)
  have hcount : s.syncCount = 1 := h.tracks.2.1
  refine ⟨age, rfl, hflag, hmod, h.opened age rfl, ?_, ?_⟩
  · simp [Monitor.afterEdge, hreceived]
  · simp [Monitor.afterEdge, hreceived, hcount]

/-- No statement of `loop` sets `received`. -/
theorem received_of_statement (echoes : Bool) (r : Running size) (stack : Stack)
    (h : (r.statement echoes stack).state.received = true) : r.state.received = true := by
  rw [statement_state] at h
  split_ifs at h with hclear
  · simp [clearReceived] at h
  · exact h

/-- While a sync is pending a pair is open. -/
theorem exists_opened {s : ReceiverState size} {m : Monitor size} {pairing : Pairing}
    (h : RingInvariant s m pairing) (hreceived : s.received = false) (hcount : s.syncCount = 1) :
    ∃ age, pairing = .opened age := by
  cases pairing with
  | closed => simp [h.tracks.2] at hcount
  | opened age => exact ⟨age, rfl⟩
  | complete => simp [h.tracks.1] at hreceived

/-- An interrupt that accepts a late sync accepts a frame that is too long. -/
theorem gapFits_of_frameLengthSound (hsize : 66 < size) {m next : Monitored size} {edge : Edge}
    {pairing : Pairing} (h : RingInvariant m.running.state m.monitor pairing)
    (hstate : next.running.state = handler m.running.state edge)
    (hmonitor : next.monitor = m.monitor.afterEdge m.running.state (handler m.running.state edge))
    (hsound : FrameLengthSound ⟨m, .edge edge, next⟩) : GapFits ⟨m, .edge edge, next⟩ := by
  intro other hother hreceived hcount hflag revolutions hlate
  obtain rfl : edge = other := by simpa using hother
  simp only at hreceived hcount hflag hlate
  obtain ⟨age, rfl⟩ := exists_opened h hreceived hcount
  have hage := h.opened age rfl
  have hmod : (age + 1) % size = 66 :=
    Nat.mod_eq_iff.mpr (Or.inr ⟨hsize, revolutions + 1, by omega⟩)
  have hafter : (handler m.running.state edge).received = true := by
    rw [(handler_tracks h.tracks edge).received_eq_true_iff, hflag]
    exact if_pos hmod
  obtain ⟨-, -, -, -, -, hlength, hopened⟩ := monitor_of_complete h hreceived edge hafter
  have hexact := hsound hreceived (hstate ▸ hafter)
  simp only [hmonitor, hlength, hopened] at hexact
  have hpos : 0 < size * (revolutions + 1) := Nat.mul_pos (by omega) (Nat.succ_pos revolutions)
  omega

/-- An interrupt that accepts no late sync accepts a frame of 66 edges. -/
theorem frameLengthSound_of_gapFits (hsize : 66 < size) {m next : Monitored size} {edge : Edge}
    {pairing : Pairing} (h : RingInvariant m.running.state m.monitor pairing)
    (hstate : next.running.state = handler m.running.state edge)
    (hmonitor : next.monitor = m.monitor.afterEdge m.running.state (handler m.running.state edge))
    (hfits : GapFits ⟨m, .edge edge, next⟩) : FrameLengthSound ⟨m, .edge edge, next⟩ := by
  intro hreceived hafter
  simp only [hstate] at hreceived hafter
  obtain ⟨age, rfl, hflag, hmod, hage, hlength, hopened⟩ :=
    monitor_of_complete h hreceived edge hafter
  have hcount : m.running.state.syncCount = 1 := h.tracks.2.1
  have hnever := hfits edge rfl hreceived hcount hflag
  simp only [hmonitor] at hnever ⊢
  rw [hlength, hopened]
  rcases Nat.mod_eq_iff.mp hmod with ⟨hempty, -⟩ | ⟨-, revolutions, hlong⟩
  · omega
  · cases revolutions with
    | zero => omega
    | succ revolutions => exact absurd (by omega) (hnever revolutions)

/-- One step accepts only frames of the right length exactly when it handles no late sync. -/
theorem frameLengthSound_iff_gapFits (hsize : 66 < size) {echoes : Bool}
    {m next : Monitored size} {label : Label} {pairing : Pairing} (h : ReceiverInvariant m pairing)
    (hstep : m.step echoes label = some next) :
    FrameLengthSound ⟨m, label, next⟩ ↔ GapFits ⟨m, label, next⟩ := by
  rcases step_cases hstep with ⟨edge, rfl, -, rfl⟩ | ⟨stack, rfl, rfl⟩
  · exact ⟨gapFits_of_frameLengthSound hsize h.ring rfl rfl,
      frameLengthSound_of_gapFits hsize h.ring rfl rfl⟩
  · constructor
    · intro _ edge hedge
      simp at hedge
    · intro _ hreceived hafter
      have hbefore := received_of_statement echoes m.running stack hafter
      simp [hbefore] at hreceived

/-- In a run of a sketch, every accepted frame is 66 edges long if and only if no step handles a
sync that comes a positive number of revolutions late. -/
theorem run_frameLengthSound_iff (sketch : RingSketch)
    (trace : List (Transition (Monitored sketch.ringBufferSize) Label))
    (m : Monitored sketch.ringBufferSize) (hrun : Run (receiver sketch) trace m) :
    (∀ t ∈ trace, FrameLengthSound t) ↔ ∀ t ∈ trace, GapFits t := by
  have hstep : ∀ t ∈ trace, FrameLengthSound t ↔ GapFits t := by
    intro t hmem
    obtain ⟨⟨earlier, hearlier⟩, hstep⟩ := hrun.exists_run_before hmem
    obtain ⟨pairing, hinvariant⟩ := run_invariant sketch hearlier
    exact frameLengthSound_iff_gapFits sketch.fits hinvariant hstep
  exact forall₂_congr hstep

/-! ### A frame of 166 edges on a ring of 100 cells -/

/-- A sync pulse, 164 edges at one instant, and a second sync pulse without its last edge. -/
def longGap : List Label :=
  .edge ⟨500, false⟩ :: .edge ⟨9500, true⟩ ::
    List.replicate 164 (.edge ⟨9500, false⟩) ++ [.edge ⟨10000, false⟩]

/-- The edge that ends the second sync pulse. -/
def lateEdge : Label := .edge ⟨19000, true⟩

/-- The ring of 100 cells takes the second sync for the end of a frame, 166 edges after the first.
-/
theorem exists_run_longGap : ∃ trace m next, Run (receiver XivelyRfDs1820.sketch) trace m ∧
    (receiver XivelyRfDs1820.sketch).step m lateEdge = some next ∧
    m.running.state.received = false ∧ next.running.state.received = true ∧
    next.monitor.recorded.length = 168 ∧ next.monitor.openedAt = 2 := by
  have hreplay : ((replay (receiver XivelyRfDs1820.sketch) (started fun _ ↦ 0) longGap).bind
      fun m ↦ ((receiver XivelyRfDs1820.sketch).step m lateEdge).map fun next ↦
        (m.running.state.received, next.running.state.received, next.monitor.recorded.length,
          next.monitor.openedAt)) = some (false, true, 168, 2) := by
    decide +kernel
  obtain ⟨m, hm, hlast⟩ := Option.bind_eq_some_iff.mp hreplay
  obtain ⟨next, hnext, hvalues⟩ := Option.map_eq_some_iff.mp hlast
  have hrun := (Run.start (initial_started _ _)).of_replay hm
  simp only [Prod.mk.injEq] at hvalues
  exact ⟨_, m, next, hrun, hnext, hvalues⟩

theorem not_forall_frameLengthSound : ¬ ∀ (sketch : RingSketch)
    (trace : List (Transition (Monitored sketch.ringBufferSize) Label))
    (m : Monitored sketch.ringBufferSize), Run (receiver sketch) trace m →
      ∀ t ∈ trace, FrameLengthSound t := by
  intro h
  obtain ⟨trace, m, next, hrun, hstep, hbefore, hafter, hlength, hopened⟩ := exists_run_longGap
  have hsound :=
    h XivelyRfDs1820.sketch _ next (hrun.step hstep) _ List.mem_cons_self hbefore hafter
  simp only [hlength, hopened] at hsound
  omega

theorem longGap_frameLengthSound_iff : ∃ trace m,
    Run (receiver XivelyRfDs1820.sketch) trace m ∧ m.running.state.received = true ∧
      ((∀ t ∈ trace, FrameLengthSound t) ↔ ∀ t ∈ trace, GapFits t) := by
  obtain ⟨trace, m, next, hrun, hstep, -, hafter, -, -⟩ := exists_run_longGap
  exact ⟨_, next, hrun.step hstep, hafter,
    run_frameLengthSound_iff XivelyRfDs1820.sketch _ next (hrun.step hstep)⟩

end Sketchbook.Receiver.FrameLength
