import Sketchbook.Receiver.WindowDecoding

/-!
# A transmitted frame is received and decoded

A transmission is a list of edges that the handler sees as separators and pulses of the right
lengths: `SyncMark` for the two edges of a sync, and `Spells` for the edges of a frame. Durations
are differences of `micros` modulo `2^32`, counted from the last edge the handler processed.

No edge of a frame is taken for a sync (`recognised_of_quiet`), so a frame between two marks is
received when its first mark opens a pair (`received_frame`). A handler with a stale pending sync
spends the first mark on that pair; if its distance is wrong, the pair is dropped and the second
mark opens a new one. `round_trip` follows both cases through two frames and decodes the result.
-/

set_option autoImplicit false
set_option relaxedAutoImplicit false

namespace Sketchbook.Receiver.RoundTrip

open Arduino.Text Foundation.BitWord Foundation.RingIndex Sensor.BinaryReading
open RingReceiver FramePairing WindowDecoding

/-! ### Durations of a list of edges -/

/-- The durations between consecutive edges, from the time of the edge before. -/
def durations : Micros → List Edge → List Micros
  | _, [] => []
  | lastTime, edge :: edges => (edge.micros - lastTime) :: durations edge.micros edges

/-- The time of the last edge. -/
def lastMicros : Micros → List Edge → Micros
  | lastTime, [] => lastTime
  | _, edge :: edges => lastMicros edge.micros edges

@[simp] theorem length_durations (lastTime : Micros) (edges : List Edge) :
    (durations lastTime edges).length = edges.length := by
  induction edges generalizing lastTime with
  | nil => rfl
  | cons edge edges ih => simp [durations, ih]

theorem durations_append (lastTime : Micros) (first second : List Edge) :
    durations lastTime (first ++ second) =
      durations lastTime first ++ durations (lastMicros lastTime first) second := by
  induction first generalizing lastTime with
  | nil => rfl
  | cons edge first ih =>
    show (edge.micros - lastTime) :: durations edge.micros (first ++ second) = _
    rw [ih]
    rfl

variable {size : ℕ} [NeZero size]

/-- A receiver that has not received before the last edge has not received before the first. -/
theorem received_of_handleAll {s : ReceiverState size} {edges : List Edge}
    (h : (handleAll s edges).received = false) : s.received = false := by
  by_contra hreceived
  rw [handleAll_of_received (by simpa using hreceived)] at h
  exact hreceived h

theorem received_dropLast {s : ReceiverState size} {edges : List Edge}
    (h : (handleAll s edges).received = false) :
    (handleAll s edges.dropLast).received = false := by
  rcases List.eq_nil_or_concat' edges with rfl | ⟨init, last, rfl⟩
  · exact h
  · rw [List.dropLast_concat]
    rw [handleAll_append] at h
    exact received_of_handleAll h

/-- As long as nothing is received before the last edge, every edge is recorded. -/
theorem handleAll_recorded {s : ReceiverState size} {history : List Micros}
    (hrecent : Recent s.timings s.ringIndex history) (edges : List Edge)
    (hidle : (handleAll s edges.dropLast).received = false) :
    (handleAll s edges).lastTime = lastMicros s.lastTime edges ∧
      Recent (handleAll s edges).timings (handleAll s edges).ringIndex
        ((durations s.lastTime edges).reverse ++ history) := by
  induction edges generalizing s history with
  | nil => exact ⟨rfl, hrecent⟩
  | cons edge edges ih =>
    have hreceived : s.received = false := received_of_handleAll hidle
    obtain ⟨htimings, hringIndex, -, hlastTime⟩ := handler_recorded hreceived edge
    have hnext : Recent (handler s edge).timings (handler s edge).ringIndex
        ((edge.micros - s.lastTime) :: history) := by
      rw [htimings, hringIndex]
      exact hrecent.push _
    have hlast : (handler s edge).lastTime = edge.micros := hlastTime
    have hrest : (handleAll (handler s edge) edges.dropLast).received = false ∨ edges = [] := by
      cases edges with
      | nil => exact Or.inr rfl
      | cons other edges => exact Or.inl hidle
    rcases hrest with hrest | rfl
    · obtain ⟨hlastAll, hrecentAll⟩ := ih hnext hrest
      rw [hlast] at hlastAll hrecentAll
      refine ⟨hlastAll, ?_⟩
      rw [durations, List.reverse_cons, List.append_assoc]
      exact hrecentAll
    · exact ⟨hlast, hnext⟩

/-! ### Marks and frames -/

/-- A separator followed by a sync pulse that ends on a HIGH pin. -/
def SyncMark (lastTime : Micros) (edges : List Edge) : Prop :=
  ∃ separator pulse, edges = [separator, pulse] ∧
    within sepLength 100 (separator.micros - lastTime) ∧
    within syncLength 1000 (pulse.micros - separator.micros) ∧ pulse.dataPin = true

/-- Edges none of which ends a duration of the length of a sync pulse raise no flag. -/
theorem recognised_of_quiet (hsize : 1 < size) {s : ReceiverState size}
    (hreceived : s.received = false) {edges : List Edge}
    (hquiet : ∀ t ∈ durations s.lastTime edges, ¬ within syncLength 1000 t) :
    (∀ flag ∈ recognised s edges, flag = false) ∧ (handleAll s edges).received = false := by
  induction edges generalizing s with
  | nil => exact ⟨by simp [recognised], hreceived⟩
  | cons edge edges ih =>
    have hflag : recognises s edge = false := by
      by_contra hsync
      have hsync : recognises s edge = true := by simpa using hsync
      rw [recognises_eq_true_iff hsize] at hsync
      exact hquiet _ List.mem_cons_self hsync.2.1
    have hnext := handler_of_quiet hreceived hflag
    have hrest := ih (s := handler s edge) (by rw [hnext]; exact hreceived) (by
      rw [hnext]
      exact fun t hmem ↦ hquiet t (List.mem_cons_of_mem _ hmem))
    refine ⟨?_, hrest.2⟩
    intro flag hmem
    rcases List.mem_cons.mp hmem with rfl | hmem
    · exact hflag
    · exact hrest.1 flag hmem

/-- A mark raises one flag, at its last edge. -/
theorem recognised_of_syncMark (hsize : 1 < size) {s : ReceiverState size}
    (hreceived : s.received = false) {edges : List Edge} (h : SyncMark s.lastTime edges) :
    recognised s edges = [false, true] ∧ (handleAll s edges.dropLast).received = false := by
  obtain ⟨separator, pulse, rfl, hsep, hsync, hpin⟩ := h
  have hfirst : recognises s separator = false := by
    by_contra hflag
    have hflag : recognises s separator = true := by simpa using hflag
    rw [recognises_eq_true_iff hsize] at hflag
    have hlong := hflag.2.1
    simp only [within, sepLength, syncLength] at hsep hlong
    omega
  have hnext := handler_of_quiet hreceived hfirst
  have hsecond : recognises (handler s separator) pulse = true := by
    rw [recognises_eq_true_iff hsize, hnext]
    refine ⟨?_, hsync, hpin⟩
    show within sepLength 100 (Function.update s.timings (advance s.ringIndex 1)
      (separator.micros - s.lastTime) (advance s.ringIndex 1))
    rw [Function.update_self]
    exact hsep
  constructor
  · show [recognises s separator, recognises (handler s separator) pulse] = _
    rw [hfirst, hsecond]
  · show (handler s separator).received = false
    rw [hnext]
    exact hreceived

/-- The durations of a frame are shorter than a sync pulse. -/
theorem not_syncLength_of_spells {word : List Bool} {times : List Micros} (h : Spells word times) :
    ∀ t ∈ times, ¬ within syncLength 1000 t := by
  induction word generalizing times with
  | nil =>
    cases times with
    | nil => simp
    | cons t0 rest => exact h.elim
  | cons bit word ih =>
    match times, h with
    | t0 :: t1 :: rest, h =>
      obtain ⟨hsep, hbit, hrest⟩ := h
      intro t hmem
      rcases List.mem_cons.mp hmem with rfl | hmem
      · simp only [within, sepLength, syncLength] at hsep ⊢
        omega
      · rcases List.mem_cons.mp hmem with rfl | hmem
        · cases bit <;> simp only [within, bit0Length, bit1Length, syncLength, Bool.false_eq_true,
            if_false, if_true] at hbit ⊢ <;> omega
        · exact ih hrest t hmem

/-! ### One frame -/

/-- The decode loop writes the word into the buffer, and the temperature is its bits 16 to 23. -/
def Decodes (sketch : RingSketch) (s : ReceiverState sketch.ringBufferSize) (word : List Bool) :
    Prop :=
  ∀ stack, ∃ d, decodeLoop sketch.echoes s stack = some d ∧
    (List.range 32).map d.Str = bitText word ∧
    tempOut d = bitText ((word.take 24).drop 16) ∧
    bintodec (tempOut d) = (value ((word.take 24).drop 16) : ℚ) / 10

/-- A window whose first 32 pairs spell a word is decoded to that word. -/
theorem decodes_of_window {sketch : RingSketch} {s : ReceiverState sketch.ringBufferSize}
    (htracks : Tracks s .complete) {word : List Bool} (hword : word.length = 32)
    {frame rest : List Micros} (hspells : Spells word frame) (hwindow : window s = frame ++ rest) :
    Decodes sketch s word := by
  intro stack
  obtain ⟨d, hd, -, hStr, -⟩ := exists_decodeLoop sketch.fits sketch.echoes htracks.2.2.2 stack
  rw [hwindow] at hStr
  obtain ⟨hbuffer, htemp⟩ := decode_of_spells hword hspells hStr
  exact ⟨d, hd, hbuffer, htemp, by rw [htemp, bintodec_bitText _ (by simp [hword])]⟩

/-- A frame and its closing mark, after an opening mark: nothing is received before the last edge,
the frame is received with it, and it decodes to its word. -/
theorem received_frame (sketch : RingSketch) {s : ReceiverState sketch.ringBufferSize}
    (htracks : Tracks s (.opened 0)) {word : List Bool} (hword : word.length = 32)
    {frame mark : List Edge} (hframe : Spells word (durations s.lastTime frame))
    (hmark : SyncMark (lastMicros s.lastTime frame) mark) :
    (handleAll s (frame ++ mark)).received = true ∧
      Decodes sketch (handleAll s (frame ++ mark)) word := by
  have hsize : 1 < sketch.ringBufferSize := by have := sketch.fits; omega
  have hlength : frame.length = 64 := by
    have := hframe.length_eq
    simpa [hword] using this
  obtain ⟨hquiet, hidle⟩ := recognised_of_quiet hsize htracks.1 (not_syncLength_of_spells hframe)
  have hlast := (handleAll_recorded (recent_nil s.timings s.ringIndex) frame
    (received_dropLast hidle)).1
  rw [← hlast] at hmark
  obtain ⟨hflags, hidleMark⟩ := recognised_of_syncMark hsize hidle hmark
  obtain ⟨separator, pulse, hedges, -⟩ := hmark
  have hend := handleAll_tracks (frame ++ mark) htracks
  have hcomplete : (Pairing.opened 0).run (ringAccepts sketch.ringBufferSize)
      (recognised s (frame ++ mark)) = .complete := by
    rw [recognised_append, hflags, Pairing.run_append, (Pairing.run_quiet _ hquiet).2,
      length_recognised, hlength]
    exact if_pos (Nat.mod_eq_of_lt sketch.fits)
  rw [hcomplete] at hend
  have hdropLast : (handleAll s (frame ++ mark).dropLast).received = false := by
    rw [List.dropLast_append_of_ne_nil (by simp [hedges]), handleAll_append]
    exact hidleMark
  obtain ⟨-, hrecent⟩ := handleAll_recorded (recent_nil s.timings s.ringIndex) (frame ++ mark)
    hdropLast
  rw [List.append_nil] at hrecent
  have hcount : (durations s.lastTime (frame ++ mark)).length = 66 := by
    simp [hlength, hedges]
  have hwindow : window (handleAll s (frame ++ mark)) =
      durations s.lastTime frame ++ durations (lastMicros s.lastTime frame) mark := by
    have hsegment := hrecent.segment_eq 66 (by have := sketch.fits; omega)
      (by simp [hcount]) (hend.2.2.2.trans hend.2.2.1)
    rw [window, hsegment, List.take_of_length_le (by simp [hcount]), List.reverse_reverse,
      durations_append]
  exact ⟨hend.1, decodes_of_window hend hword hframe hwindow⟩

/-! ### Two frames between three marks -/

/-- The edges of three marks and two frames that spell two words, each timed from the edge before.
-/
structure Transmission (lastTime : Micros) (word₁ word₂ : List Bool)
    (mark₁ frame₁ mark₂ frame₂ mark₃ : List Edge) : Prop where
  length_first : word₁.length = 32
  length_second : word₂.length = 32
  opening : SyncMark lastTime mark₁
  first : Spells word₁ (durations (lastMicros lastTime mark₁) frame₁)
  middle : SyncMark (lastMicros lastTime (mark₁ ++ frame₁)) mark₂
  second : Spells word₂ (durations (lastMicros lastTime (mark₁ ++ frame₁ ++ mark₂)) frame₂)
  closing : SyncMark (lastMicros lastTime (mark₁ ++ frame₁ ++ mark₂ ++ frame₂)) mark₃

theorem lastMicros_append (lastTime : Micros) (first second : List Edge) :
    lastMicros lastTime (first ++ second) = lastMicros (lastMicros lastTime first) second := by
  induction first generalizing lastTime with
  | nil => rfl
  | cons edge first ih => exact ih edge.micros

/-- A mark closes, completes or opens a pair, and is the last thing the handler has processed. -/
theorem handleAll_syncMark (hsize : 1 < size) {s : ReceiverState size} {pairing : Pairing}
    (htracks : Tracks s pairing) (hreceived : s.received = false) {mark : List Edge}
    (hmark : SyncMark s.lastTime mark) :
    Tracks (handleAll s mark) (pairing.run (ringAccepts size) [false, true]) ∧
      (handleAll s mark).lastTime = lastMicros s.lastTime mark := by
  obtain ⟨hflags, hidle⟩ := recognised_of_syncMark hsize hreceived hmark
  have hend := handleAll_tracks mark htracks
  rw [hflags] at hend
  exact ⟨hend, (handleAll_recorded (recent_nil s.timings s.ringIndex) mark hidle).1⟩

/-- A frame whose edges come while no pair is open leaves the handler as it was, but for the ring.
-/
theorem handleAll_frame (hsize : 1 < size) {s : ReceiverState size}
    (htracks : Tracks s .closed) {word : List Bool} {frame : List Edge}
    (hframe : Spells word (durations s.lastTime frame)) :
    Tracks (handleAll s frame) .closed ∧
      (handleAll s frame).lastTime = lastMicros s.lastTime frame := by
  obtain ⟨hquiet, hidle⟩ := recognised_of_quiet hsize htracks.1 (not_syncLength_of_spells hframe)
  have hend := handleAll_tracks frame htracks
  rw [(Pairing.run_quiet _ hquiet).1] at hend
  exact ⟨hend, (handleAll_recorded (recent_nil s.timings s.ringIndex) frame
    (received_dropLast hidle)).1⟩

/-- Behind a mark that opens no pair the second mark opens one, and the second frame is received. -/
theorem received_second (sketch : RingSketch) {s : ReceiverState sketch.ringBufferSize}
    (hclosed : Tracks s .closed) {word₁ word₂ : List Bool} (hlength : word₂.length = 32)
    {frame₁ mark₂ frame₂ mark₃ : List Edge}
    (hframe₁ : Spells word₁ (durations s.lastTime frame₁))
    (hmark₂ : SyncMark (lastMicros s.lastTime frame₁) mark₂)
    (hframe₂ : Spells word₂ (durations (lastMicros (lastMicros s.lastTime frame₁) mark₂) frame₂))
    (hmark₃ :
      SyncMark (lastMicros (lastMicros (lastMicros s.lastTime frame₁) mark₂) frame₂) mark₃) :
    let second := handleAll s (frame₁ ++ mark₂)
    second.received = false ∧ (handleAll second frame₂).received = false ∧
      (handleAll second (frame₂ ++ mark₃)).received = true ∧
      Decodes sketch (handleAll second (frame₂ ++ mark₃)) word₂ := by
  intro second
  have hsize : 1 < sketch.ringBufferSize := by have := sketch.fits; omega
  obtain ⟨hstill, hlastFrame⟩ := handleAll_frame hsize hclosed hframe₁
  rw [← hlastFrame] at hmark₂ hframe₂ hmark₃
  obtain ⟨hopened, hlastMark⟩ := handleAll_syncMark hsize hstill hstill.1 hmark₂
  rw [← handleAll_append] at hopened hlastMark
  rw [← hlastMark] at hframe₂ hmark₃
  have hsecond : Tracks second (.opened 0) := hopened
  have hquiet := recognised_of_quiet hsize hsecond.1 (not_syncLength_of_spells hframe₂)
  exact ⟨hsecond.1, hquiet.2, received_frame sketch hsecond hlength hframe₂ hmark₃⟩

/-- Two frames between three marks, from any state in which nothing is received and at most one sync
is pending. Something is received by the third mark, and by the second mark if no sync was pending;
no frame edge sets `received`; and the frame before the mark that completes a pair is decoded. -/
theorem round_trip (sketch : RingSketch) (s : ReceiverState sketch.ringBufferSize)
    (hreceived : s.received = false) (hcount : s.syncCount ≤ 1) (word₁ word₂ : List Bool)
    (mark₁ frame₁ mark₂ frame₂ mark₃ : List Edge)
    (h : Transmission s.lastTime word₁ word₂ mark₁ frame₁ mark₂ frame₂ mark₃) :
    let first := handleAll s mark₁
    let second := handleAll first (frame₁ ++ mark₂)
    let third := handleAll second (frame₂ ++ mark₃)
    third.received = true ∧
      (s.syncCount = 0 → first.received = false ∧ second.received = true) ∧
      (first.received = false → (handleAll first frame₁).received = false) ∧
      (second.received = false → (handleAll second frame₂).received = false) ∧
      (first.received = false → second.received = true → Decodes sketch second word₁) ∧
      (second.received = false → third.received = true → Decodes sketch third word₂) := by
  intro first second third
  have hsize : 1 < sketch.ringBufferSize := by have := sketch.fits; omega
  obtain ⟨pairing, htracks⟩ := wellFormed_of_syncCount_le hreceived hcount
  obtain ⟨hfirst, hlast₁⟩ := handleAll_syncMark hsize htracks hreceived h.opening
  have hframe₁ := h.first
  rw [← hlast₁] at hframe₁
  have hmark₂ := h.middle
  rw [lastMicros_append, ← hlast₁] at hmark₂
  have hframe₂ := h.second
  rw [lastMicros_append, lastMicros_append, ← hlast₁] at hframe₂
  have hmark₃ := h.closing
  rw [lastMicros_append, lastMicros_append, lastMicros_append, ← hlast₁] at hmark₃
  have hquiet₁ (hidle : first.received = false) : (handleAll first frame₁).received = false :=
    (recognised_of_quiet hsize hidle (not_syncLength_of_spells hframe₁)).2
  cases pairing with
  | complete => exact absurd (hreceived.symm.trans htracks.1) Bool.false_ne_true
  | closed =>
    have hopened : Tracks first (.opened 0) := hfirst
    obtain ⟨hsecond, hdecodes⟩ := received_frame sketch hopened h.length_first hframe₁ hmark₂
    have hthird : third = second := handleAll_of_received hsecond _
    rw [hthird]
    exact ⟨hsecond, fun _ ↦ ⟨hopened.1, hsecond⟩, hquiet₁,
      fun hidle ↦ absurd (hidle.symm.trans hsecond) Bool.false_ne_true, fun _ _ ↦ hdecodes,
      fun hidle ↦ absurd (hidle.symm.trans hsecond) Bool.false_ne_true⟩
  | opened age =>
    have hpending : s.syncCount ≠ 0 := by
      have hone : s.syncCount = 1 := htracks.2.1
      omega
    rcases Pairing.run_mark (ringAccepts sketch.ringBufferSize) age with hstale | hstale
    · rw [hstale] at hfirst
      have hsecond : second = first := handleAll_of_received hfirst.1 _
      have hthird : third = first := by
        show handleAll second (frame₂ ++ mark₃) = first
        rw [hsecond]
        exact handleAll_of_received hfirst.1 _
      have hnot : ¬ first.received = false := fun hidle ↦
        absurd (hidle.symm.trans hfirst.1) Bool.false_ne_true
      rw [hthird, hsecond]
      exact ⟨hfirst.1, fun hzero ↦ absurd hzero hpending, hquiet₁, fun hidle ↦ absurd hidle hnot,
        fun hidle ↦ absurd hidle hnot, fun hidle ↦ absurd hidle hnot⟩
    · rw [hstale] at hfirst
      obtain ⟨hsecond, hquiet₂, hthird, hdecodes⟩ :=
        received_second sketch hfirst h.length_second hframe₁ hmark₂ hframe₂ hmark₃
      exact ⟨hthird, fun hzero ↦ absurd hzero hpending, hquiet₁, fun _ ↦ hquiet₂,
        fun _ hearly ↦ absurd (hsecond.symm.trans hearly) Bool.false_ne_true,
        fun _ _ ↦ hdecodes⟩

/-! ### Edges with given durations -/

/-- Edges on a HIGH pin with the given durations between them. -/
def edgesAt : Micros → List Micros → List Edge
  | _, [] => []
  | lastTime, t :: times => ⟨lastTime + t, true⟩ :: edgesAt (lastTime + t) times

theorem durations_edgesAt (lastTime : Micros) (times : List Micros) :
    durations lastTime (edgesAt lastTime times) = times := by
  induction times generalizing lastTime with
  | nil => rfl
  | cons t times ih =>
    rw [edgesAt, durations, ih]
    congr 1
    show lastTime + t - lastTime = t
    rw [BitVec.add_comm, BitVec.add_sub_cancel]

/-- A mark of the nominal lengths. -/
def markAt (lastTime : Micros) : List Edge := edgesAt lastTime [500, 9000]

theorem syncMark_markAt (lastTime : Micros) : SyncMark lastTime (markAt lastTime) := by
  have htimes := durations_edgesAt lastTime [500, 9000]
  simp only [edgesAt, durations, List.cons.injEq, and_true] at htimes
  refine ⟨_, _, rfl, ?_, ?_, rfl⟩
  · rw [htimes.1]
    decide
  · rw [htimes.2]
    decide

/-- The edges of a frame of the nominal lengths. -/
def frameAt (lastTime : Micros) (word : List Bool) : List Edge := edgesAt lastTime (encode word)

theorem spells_frameAt (lastTime : Micros) (word : List Bool) :
    Spells word (durations lastTime (frameAt lastTime word)) := by
  rw [frameAt, durations_edgesAt]
  exact spells_encode word

/-- A word of ones, received by the sketch with 256 cells right after power-on. -/
theorem round_trip_powerOn :
    let s : ReceiverState RfReceiverV2WithInterrupts.sketch.ringBufferSize := powerOn fun _ ↦ 0
    let ones := List.replicate 32 true
    let mark₁ := markAt 0
    let frame₁ := frameAt (lastMicros 0 mark₁) ones
    let mark₂ := markAt (lastMicros 0 (mark₁ ++ frame₁))
    let first := handleAll s mark₁
    let second := handleAll first (frame₁ ++ mark₂)
    first.received = false ∧ second.received = true ∧
      Decodes RfReceiverV2WithInterrupts.sketch second ones := by
  intro s ones mark₁ frame₁ mark₂ first second
  have htransmission : Transmission s.lastTime ones ones mark₁ frame₁ mark₂
      (frameAt (lastMicros 0 (mark₁ ++ frame₁ ++ mark₂)) ones)
      (markAt (lastMicros 0 (mark₁ ++ frame₁ ++ mark₂ ++
        frameAt (lastMicros 0 (mark₁ ++ frame₁ ++ mark₂)) ones))) :=
    ⟨rfl, rfl, syncMark_markAt _, spells_frameAt _ _, syncMark_markAt _, spells_frameAt _ _,
      syncMark_markAt _⟩
  obtain ⟨-, hfresh, -, -, hdecodes, -⟩ := round_trip RfReceiverV2WithInterrupts.sketch s rfl
    (Nat.zero_le 1) ones ones _ _ _ _ _ htransmission
  obtain ⟨hfirst, hsecond⟩ := hfresh rfl
  exact ⟨hfirst, hsecond, hdecodes hfirst hsecond⟩

end Sketchbook.Receiver.RoundTrip
