import Mathlib.Tactic.SplitIfs
import Sketchbook.Receiver.RingReceiver

/-!
# The pairing of sync pulses, abstractly and in the handler

The purpose of `handler` is to find two sync pulses that enclose a frame. `Pairing` states that
purpose without a ring: a receiver is closed, has an opening sync that is a number of recorded edges
old, or holds a complete frame. A second sync completes the frame when the number of edges since the
first one is accepted; otherwise both are dropped. The acceptance test is a parameter, so that the
test the handler makes on ring indices can be compared with the test on the true number of edges.

`Tracks` relates a handler state to a pairing, and `handler_tracks` is the simulation: one call of
`handler` is one step of the pairing whose test reduces the count modulo the size of the ring.
`WellFormed` is what the relation says of the handler state alone. The section on edges says which
calls record a sync: it depends only on the last two durations and the pin.
-/

set_option autoImplicit false
set_option relaxedAutoImplicit false

namespace Sketchbook.Receiver.FramePairing

open Foundation.RingIndex RingReceiver

/-! ### The abstract pairing -/

/-- No sync pending, one pending that is `age` edges old, or a complete frame. -/
inductive Pairing
  | closed
  | opened (age : ℕ)
  | complete
deriving DecidableEq

/-- One edge: it either ends a sync pulse or does not. -/
def Pairing.next (accepts : ℕ → Prop) [DecidablePred accepts] : Pairing → Bool → Pairing
  | .closed, false => .closed
  | .closed, true => .opened 0
  | .opened age, false => .opened (age + 1)
  | .opened age, true => if accepts (age + 1) then .complete else .closed
  | .complete, _ => .complete

/-- The pairing after a list of edges, oldest first. -/
def Pairing.run (accepts : ℕ → Prop) [DecidablePred accepts] (pairing : Pairing)
    (flags : List Bool) : Pairing :=
  flags.foldl (Pairing.next accepts) pairing

section Pairing

variable (accepts : ℕ → Prop) [DecidablePred accepts]

theorem Pairing.run_append (pairing : Pairing) (first second : List Bool) :
    pairing.run accepts (first ++ second) = (pairing.run accepts first).run accepts second :=
  List.foldl_append

/-- Edges that end no sync pulse leave a closed pairing closed and age an opened one. -/
theorem Pairing.run_quiet {flags : List Bool} (hquiet : ∀ flag ∈ flags, flag = false) :
    Pairing.closed.run accepts flags = .closed ∧
      ∀ age, (Pairing.opened age).run accepts flags = .opened (age + flags.length) := by
  induction flags with
  | nil => exact ⟨rfl, fun _ ↦ rfl⟩
  | cons flag flags ih =>
    obtain ⟨hclosed, hopened⟩ := ih fun other hmem ↦ hquiet other (List.mem_cons_of_mem _ hmem)
    obtain rfl : flag = false := hquiet flag List.mem_cons_self
    refine ⟨hclosed, fun age ↦ ?_⟩
    show (Pairing.opened (age + 1)).run accepts flags = _
    rw [hopened, List.length_cons]
    congr 1
    ring

/-- A frame that starts on a closed pairing is completed by its second sync. -/
theorem Pairing.run_frame {flags : List Bool} (hquiet : ∀ flag ∈ flags, flag = false)
    (haccepts : accepts (flags.length + 1)) :
    Pairing.closed.run accepts (true :: flags ++ [true]) = .complete := by
  have hopened := (Pairing.run_quiet accepts hquiet).2 0
  rw [Pairing.run_append]
  show ((Pairing.opened 0).run accepts flags).next accepts true = .complete
  rw [hopened, Nat.zero_add]
  exact if_pos haccepts

/-- A mark on an opened pairing completes it or closes it. -/
theorem Pairing.run_mark (age : ℕ) :
    (Pairing.opened age).run accepts [false, true] = .complete ∨
      (Pairing.opened age).run accepts [false, true] = .closed := by
  show (Pairing.opened (age + 1)).next accepts true = .complete ∨
    (Pairing.opened (age + 1)).next accepts true = .closed
  simp only [Pairing.next]
  split_ifs
  · exact Or.inl rfl
  · exact Or.inr rfl

end Pairing

/-! ### What one call of the handler recognises -/

variable {size : ℕ} [NeZero size]

/-- Whether `handler` takes an edge for the end of a sync pulse. -/
def recognises (s : ReceiverState size) (edge : Edge) : Bool :=
  isSync (record s edge).timings (record s edge).ringIndex edge.dataPin

/-- The duration of the edge before is the newest cell of the ring. -/
theorem recognises_eq_true_iff (hsize : 1 < size) (s : ReceiverState size) (edge : Edge) :
    recognises s edge = true ↔ within sepLength 100 (s.timings s.ringIndex) ∧
      within syncLength 1000 (edge.micros - s.lastTime) ∧ edge.dataPin = true := by
  have hprevious : advance (advance s.ringIndex 1) (size - 1) = s.ringIndex := by
    rw [advance_advance, show 1 + (size - 1) = 0 + size by omega, advance_add_size, advance_zero]
  have hne : s.ringIndex ≠ advance s.ringIndex 1 := by
    intro heq
    have hzero : advance s.ringIndex 0 = advance s.ringIndex 1 := by
      rw [advance_zero]
      exact heq
    have := advance_injective s.ringIndex (by omega) hsize hzero
    omega
  simp only [recognises, isSync, record, hprevious, Function.update_self,
    Function.update_of_ne hne, Bool.and_eq_true, decide_eq_true_eq, and_assoc]

theorem handler_of_received {s : ReceiverState size} (h : s.received = true) (edge : Edge) :
    handler s edge = s := if_pos h

theorem handleAll_of_received {s : ReceiverState size} (h : s.received = true)
    (edges : List Edge) : handleAll s edges = s := by
  induction edges with
  | nil => rfl
  | cons edge edges ih =>
    rw [handleAll, List.foldl_cons, handler_of_received h]
    exact ih

theorem handleAll_append (s : ReceiverState size) (first second : List Edge) :
    handleAll s (first ++ second) = handleAll (handleAll s first) second :=
  List.foldl_append

theorem handler_of_quiet {s : ReceiverState size} (hreceived : s.received = false) {edge : Edge}
    (hquiet : recognises s edge = false) : handler s edge = record s edge := by
  unfold recognises at hquiet
  simp [handler, hreceived, hquiet]

theorem handler_of_sync {s : ReceiverState size} (hreceived : s.received = false) {edge : Edge}
    (hsync : recognises s edge = true) : handler s edge = countSync (record s edge) := by
  unfold recognises at hsync
  simp [handler, hreceived, hsync]

@[simp] theorem countSync_timings (s : ReceiverState size) :
    (countSync s).timings = s.timings := by
  unfold countSync
  simp only
  split_ifs <;> rfl

@[simp] theorem countSync_ringIndex (s : ReceiverState size) :
    (countSync s).ringIndex = s.ringIndex := by
  unfold countSync
  simp only
  split_ifs <;> rfl

@[simp] theorem countSync_duration (s : ReceiverState size) :
    (countSync s).duration = s.duration := by
  unfold countSync
  simp only
  split_ifs <;> rfl

@[simp] theorem countSync_lastTime (s : ReceiverState size) :
    (countSync s).lastTime = s.lastTime := by
  unfold countSync
  simp only
  split_ifs <;> rfl

/-- Whether or not it ends a sync, an edge that is not ignored is recorded. -/
theorem handler_recorded {s : ReceiverState size} (h : s.received = false) (edge : Edge) :
    (handler s edge).timings = (record s edge).timings ∧
      (handler s edge).ringIndex = (record s edge).ringIndex ∧
      (handler s edge).duration = (record s edge).duration ∧
      (handler s edge).lastTime = (record s edge).lastTime := by
  cases hflag : recognises s edge with
  | false =>
    rw [handler_of_quiet h hflag]
    exact ⟨rfl, rfl, rfl, rfl⟩
  | true =>
    rw [handler_of_sync h hflag]
    simp

/-- The flags that a list of edges raises one after the other. -/
def recognised : ReceiverState size → List Edge → List Bool
  | _, [] => []
  | s, edge :: edges => recognises s edge :: recognised (handler s edge) edges

@[simp] theorem length_recognised (s : ReceiverState size) (edges : List Edge) :
    (recognised s edges).length = edges.length := by
  induction edges generalizing s with
  | nil => rfl
  | cons edge edges ih => simp [recognised, ih]

theorem recognised_append (s : ReceiverState size) (first second : List Edge) :
    recognised s (first ++ second) =
      recognised s first ++ recognised (handleAll s first) second := by
  induction first generalizing s with
  | nil => rfl
  | cons edge first ih =>
    show recognises s edge :: recognised (handler s edge) (first ++ second) = _
    rw [ih]
    rfl

/-! ### The handler as a pairing -/

/-- The handler state represents the pairing. The age of a pending sync is its distance from the
newest cell, and a complete frame is the last 66 cells. -/
def Tracks (s : ReceiverState size) : Pairing → Prop
  | .closed => s.received = false ∧ s.syncCount = 0
  | .opened age => s.received = false ∧ s.syncCount = 1 ∧
      advance s.syncIndex1 age = advance s.ringIndex 1
  | .complete => s.received = true ∧ s.syncCount = 0 ∧
      s.syncIndex2 = advance s.ringIndex 1 ∧ advance s.syncIndex1 66 = s.syncIndex2

/-- The state of the handler between two calls. -/
def WellFormed (s : ReceiverState size) : Prop := ∃ pairing, Tracks s pairing

/-- The test that the handler makes on the number of edges from one sync to the next. -/
def ringAccepts (size count : ℕ) : Prop := count % size = 66

instance (size : ℕ) : DecidablePred (ringAccepts size) :=
  fun _ ↦ inferInstanceAs (Decidable (_ = _))

theorem tracks_powerOn (timings : Fin size → Micros) : Tracks (powerOn timings) .closed :=
  ⟨rfl, rfl⟩

theorem tracks_clearReceived {s : ReceiverState size} (h : Tracks s .complete) :
    Tracks (clearReceived s) .closed := ⟨rfl, h.2.1⟩

theorem Tracks.received_eq_true_iff {s : ReceiverState size} {pairing : Pairing}
    (h : Tracks s pairing) : s.received = true ↔ pairing = .complete := by
  cases pairing with
  | closed => simp [h.1]
  | opened age => simp [h.1]
  | complete => simp [h.1]

theorem WellFormed.tracks_complete {s : ReceiverState size} (h : WellFormed s)
    (hreceived : s.received = true) : Tracks s .complete := by
  obtain ⟨pairing, htracks⟩ := h
  obtain rfl := htracks.received_eq_true_iff.mp hreceived
  exact htracks

/-- Any contents of the ring and of the indices belong to a well-formed state, as long as nothing is
received and at most one sync is pending. -/
theorem wellFormed_of_syncCount_le {s : ReceiverState size} (hreceived : s.received = false)
    (hcount : s.syncCount ≤ 1) : WellFormed s := by
  by_cases hzero : s.syncCount = 0
  · exact ⟨.closed, hreceived, hzero⟩
  · exact ⟨.opened (gap s.syncIndex1 (advance s.ringIndex 1)), hreceived, by omega,
      advance_gap _ _⟩

/-- A second sync is accepted when its distance from the first is 66 modulo the ring size. -/
theorem tracks_countSync {s : ReceiverState size} {age : ℕ} (hcount : s.syncCount = 1)
    (hage : advance s.syncIndex1 (age + 1) = advance s.ringIndex 1) :
    Tracks (countSync s) (if ringAccepts size (age + 1) then .complete else .closed) := by
  have hgap : gap s.syncIndex1 (advance s.ringIndex 1) = (age + 1) % size := by
    rw [← hage, gap_advance]
  by_cases haccepts : ringAccepts size (age + 1)
  · have hchange : gap s.syncIndex1 (advance s.ringIndex 1) = 66 := hgap.trans haccepts
    rw [if_pos haccepts]
    simp only [countSync, hcount, hchange]
    refine ⟨rfl, rfl, rfl, ?_⟩
    show advance s.syncIndex1 66 = advance s.ringIndex 1
    rw [← hchange, advance_gap]
  · have hchange : gap s.syncIndex1 (advance s.ringIndex 1) ≠ 66 := fun h ↦
      haccepts (hgap.symm.trans h)
    rw [if_neg haccepts]
    simp [countSync, hcount, hchange, Tracks]

/-- One call of the handler is one step of the pairing. -/
theorem handler_tracks {s : ReceiverState size} {pairing : Pairing}
    (h : Tracks s pairing) (edge : Edge) :
    Tracks (handler s edge) (pairing.next (ringAccepts size) (recognises s edge)) := by
  cases pairing with
  | complete =>
    rw [handler_of_received h.1]
    exact h
  | closed =>
    obtain ⟨hreceived, hcount⟩ := h
    cases hflag : recognises s edge with
    | false =>
      rw [handler_of_quiet hreceived hflag]
      exact ⟨hreceived, hcount⟩
    | true =>
      rw [handler_of_sync hreceived hflag]
      have hrecord : (record s edge).syncCount = 0 := hcount
      simp only [countSync, hrecord, Pairing.next]
      exact ⟨hreceived, rfl, advance_zero _⟩
  | opened age =>
    obtain ⟨hreceived, hcount, hage⟩ := h
    have hnext : advance s.syncIndex1 (age + 1) = advance (record s edge).ringIndex 1 := by
      rw [← advance_advance, hage]
      rfl
    cases hflag : recognises s edge with
    | false =>
      rw [handler_of_quiet hreceived hflag]
      exact ⟨hreceived, hcount, hnext⟩
    | true =>
      rw [handler_of_sync hreceived hflag]
      exact tracks_countSync hcount hnext

/-- A list of edges drives the handler and the pairing alike. -/
theorem handleAll_tracks (edges : List Edge) {s : ReceiverState size}
    {pairing : Pairing} (h : Tracks s pairing) :
    Tracks (handleAll s edges) (pairing.run (ringAccepts size) (recognised s edges)) := by
  induction edges generalizing s pairing with
  | nil => exact h
  | cons edge edges ih => exact ih (handler_tracks h edge)

theorem wellFormed_handler {s : ReceiverState size} (h : WellFormed s) (edge : Edge) :
    WellFormed (handler s edge) := by
  obtain ⟨pairing, htracks⟩ := h
  exact ⟨_, handler_tracks htracks edge⟩

end Sketchbook.Receiver.FramePairing
