import Sketchbook.Receiver.ReceiverRun

/-!
# Which frames the handler loses

The handler pairs syncs two by two and drops both when their distance is wrong. A frame is received
when it starts while no sync is pending; `frame_received_iff` says that this is also necessary. When
a sync is pending, the first sync of the frame closes that pair, which is dropped because its
distance is wrong, and the second sync of the frame opens a new pair
(`FrameGiven.tracks_of_opened`). The run that
`exists_run_spuriousSync` replays is the shortest case: a spurious sync two edges before the frame.
-/

set_option autoImplicit false
set_option relaxedAutoImplicit false

namespace Sketchbook.Receiver.FrameLoss

open Foundation.RingIndex Foundation.TransitionSystem RingReceiver FramePairing ReceiverRun

variable {size : ℕ} [NeZero size]

/-- Two edges that `handler` takes for syncs, 66 recorded edges apart with no sync between them,
while nothing is received from the arrival of the first up to the arrival of the second. -/
structure FrameGiven (s : ReceiverState size) (first : Edge) (between : List Edge) (last : Edge) :
    Prop where
  opens : recognises s first = true
  quiet : ∀ flag ∈ recognised (handler s first) between, flag = false
  closes : recognises (handleAll s (first :: between)) last = true
  length : between.length = 65
  idle : ∀ count ≤ 66, (handleAll s ((first :: between).take count)).received = false

/-- The flags of the edges of a frame. -/
theorem FrameGiven.recognised_eq {s : ReceiverState size} {first last : Edge}
    {between : List Edge} (h : FrameGiven s first between last) :
    recognised s (first :: between ++ [last]) =
      true :: recognised (handler s first) between ++ [true] := by
  rw [recognised_append]
  show recognises s first :: recognised (handler s first) between ++
    [recognises (handleAll s (first :: between)) last] = _
  rw [h.opens, h.closes]

/-- The first sync of a frame closes a pending pair, which is dropped, and the last one opens a new
pair. -/
theorem FrameGiven.tracks_of_opened {s : ReceiverState size} {first last : Edge}
    {between : List Edge} (h : FrameGiven s first between last) {age : ℕ}
    (htracks : Tracks s (.opened age)) :
    Tracks (handler s first) .closed ∧
      Tracks (handleAll s (first :: between ++ [last])) (.opened 0) := by
  have hopen := handler_tracks htracks first
  rw [h.opens] at hopen
  have hafter : (handler s first).received = false := h.idle 1 (by omega)
  have hdropped : (Pairing.opened age).next (ringAccepts size) true = .closed := by
    by_cases haccepts : ringAccepts size (age + 1)
    · have hcomplete : (Pairing.opened age).next (ringAccepts size) true = .complete :=
        if_pos haccepts
      rw [hcomplete] at hopen
      simp [hopen.1] at hafter
    · exact if_neg haccepts
  have hquiet := (Pairing.run_quiet (ringAccepts size) h.quiet).1
  have hreopened : (Pairing.opened age).run (ringAccepts size)
      (true :: recognised (handler s first) between ++ [true]) = .opened 0 := by
    rw [Pairing.run_append]
    show (Pairing.run (ringAccepts size) ((Pairing.opened age).next (ringAccepts size) true)
      (recognised (handler s first) between)).next _ true = _
    rw [hdropped, hquiet]
    rfl
  refine ⟨hdropped ▸ hopen, ?_⟩
  have hend := handleAll_tracks (first :: between ++ [last]) htracks
  rwa [h.recognised_eq, hreopened] at hend

/-- A frame is received exactly when no sync is pending as it starts. A pending sync is dropped with
the first sync of the frame, and the last sync of the frame is then pending. -/
theorem frame_received_iff (sketch : RingSketch) (s : ReceiverState sketch.ringBufferSize)
    (hs : WellFormed s) (first last : Edge) (between : List Edge)
    (h : FrameGiven s first between last) :
    ((handleAll s (first :: between ++ [last])).received = true ↔ s.syncCount = 0) ∧
      (s.syncCount ≠ 0 → (handler s first).syncCount = 0 ∧
        (handleAll s (first :: between ++ [last])).syncCount = 1 ∧
        (handleAll s (first :: between ++ [last])).syncIndex1 =
          advance (handleAll s (first :: between ++ [last])).ringIndex 1) := by
  obtain ⟨pairing, htracks⟩ := hs
  have hidle : s.received = false := h.idle 0 (by omega)
  cases pairing with
  | closed =>
    have hend := handleAll_tracks (first :: between ++ [last]) htracks
    have hlength : (recognised (handler s first) between).length = 65 := by
      rw [length_recognised, h.length]
    have hcomplete := Pairing.run_frame (ringAccepts sketch.ringBufferSize) h.quiet
      (by rw [hlength]; exact Nat.mod_eq_of_lt sketch.fits)
    rw [h.recognised_eq, hcomplete] at hend
    exact ⟨iff_of_true hend.1 htracks.2, fun hpending ↦ absurd htracks.2 hpending⟩
  | complete => simp [htracks.1] at hidle
  | opened age =>
    obtain ⟨hdropped, hend⟩ := h.tracks_of_opened htracks
    obtain ⟨hlost, hcount, hindex⟩ := hend
    rw [advance_zero] at hindex
    have hpending : s.syncCount ≠ 0 := by simp [htracks.2.1]
    exact ⟨iff_of_false (by rw [hlost]; exact Bool.false_ne_true) hpending,
      fun _ ↦ ⟨hdropped.2, hcount, hindex⟩⟩

/-! ### A frame after a spurious sync -/

/-- The edges between the two syncs of a frame whose first sync ends at an instant: 64 edges at that
instant and a separator. -/
def emptyFrame (instant : Micros) : List Edge :=
  List.replicate 64 ⟨instant, false⟩ ++ [⟨instant + 500, false⟩]

/-- A spurious sync and the separator of the first sync of a frame. -/
def spuriousSync : List Label :=
  [.edge ⟨500, false⟩, .edge ⟨9500, true⟩, .edge ⟨10000, false⟩]

theorem exists_run_spuriousSync : ∃ trace m,
    Run (receiver RfReceiverV2WithInterrupts.sketch) trace m ∧
      FrameGiven m.running.state ⟨19000, true⟩ (emptyFrame 19000) ⟨28500, true⟩ ∧
      (handleAll m.running.state
        (⟨19000, true⟩ :: emptyFrame 19000 ++ [⟨28500, true⟩])).received = false := by
  have hreplay : (replay (receiver RfReceiverV2WithInterrupts.sketch) (started fun _ ↦ 0)
      spuriousSync).isSome = true := by
    decide +kernel
  obtain ⟨m, hm⟩ := Option.isSome_iff_exists.mp hreplay
  have hrun := (Run.start (initial_started _ _)).of_replay hm
  obtain rfl := Option.some.inj hm
  exact ⟨_, _, hrun, ⟨by decide +kernel, by decide +kernel, by decide +kernel, by decide +kernel,
    by decide +kernel⟩, by decide +kernel⟩

theorem not_forall_frame_received : ¬ ∀ (sketch : RingSketch)
    (trace : List (Transition (Monitored sketch.ringBufferSize) Label))
    (m : Monitored sketch.ringBufferSize), Run (receiver sketch) trace m →
      ∀ first between last, FrameGiven m.running.state first between last →
        (handleAll m.running.state (first :: between ++ [last])).received = true := by
  intro h
  obtain ⟨trace, m, hrun, hgiven, hlost⟩ := exists_run_spuriousSync
  have hreceived := h RfReceiverV2WithInterrupts.sketch trace m hrun _ _ _ hgiven
  rw [hlost] at hreceived
  exact Bool.false_ne_true hreceived

/-- The state of the receiver of 256 cells after the separator of a first sync. -/
def afterSeparator : ReceiverState RfReceiverV2WithInterrupts.sketch.ringBufferSize :=
  handler (powerOn fun _ ↦ 0) ⟨500, false⟩

theorem emptyFrame_received_iff :
    (handleAll afterSeparator (⟨9500, true⟩ :: emptyFrame 9500 ++ [⟨19000, true⟩])).received =
      true :=
  (frame_received_iff RfReceiverV2WithInterrupts.sketch afterSeparator
    (wellFormed_handler ⟨.closed, tracks_powerOn _⟩ _) _ _ _
    ⟨by decide +kernel, by decide +kernel, by decide +kernel, by decide +kernel,
      by decide +kernel⟩).1.mpr (by decide +kernel)

end Sketchbook.Receiver.FrameLoss
