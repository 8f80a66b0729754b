import Sketchbook.Receiver.RoundTrip
import Sketchbook.Transmitter.CodeTransmitter

/-!
# sketch_jan20b and the ring-buffer receiver

Behind an inverting module the LOW of a pulse is what the receiver takes for a separator, and the
HIGH is a bit or a sync. The receiver asks for separators of more than 400 and less than 600
microseconds. The transmitter sends `4 * timeDelay`, and with the `timeDelay` of 100 that the sketch
sets these are exactly 400: `not_understands` says that no receiver ever recognises a sync in such a
transmission.

The bits and the sync of the transmitter lie inside the windows of the receiver. For a `timeDelay`
from 101 to 121 the separators do, too, and `understands` says that then every code is received and
decoded.
-/

set_option autoImplicit false
set_option relaxedAutoImplicit false

namespace Sketchbook.Transmitter.WireFormat

open Foundation.RingIndex Receiver.RingReceiver Receiver.FramePairing Receiver.WindowDecoding
open Receiver.RoundTrip CodeTransmitter

/-- The bits that a code stands for. -/
def bits (code : Code) : List Bool := code.symbols.map (· = 2)

/-- The receiver sets `received` during the transmission of a code, and then decodes its bits. -/
def Understands (timeDelay : ℕ) (code : Code)
    (s : ReceiverState Receiver.RfReceiverV2WithInterrupts.sketch.ringBufferSize) (time : Micros) :
    Prop :=
  ∃ first rest,
    lineEdges time false (transmitCode timeDelay code.codeToTransmit) = first ++ rest ∧
      (handleAll s first).received = true ∧
      Decodes Receiver.RfReceiverV2WithInterrupts.sketch (handleAll s first) (bits code)

/-! ### Pulses without a recognised sync -/

variable {size : ℕ} [NeZero size]

/-- Edges that raise no flag leave the receiver idle. -/
theorem received_of_not_recognised {s : ReceiverState size} (hidle : s.received = false)
    {edges : List Edge} (hflags : ∀ flag ∈ recognised s edges, flag = false) :
    (handleAll s edges).received = false := by
  induction edges generalizing s with
  | nil => exact hidle
  | cons edge edges ih =>
    rw [recognised, List.forall_mem_cons] at hflags
    have hnext := handler_of_quiet hidle hflags.1
    exact ih (s := handler s edge) (by rw [hnext]; exact hidle) hflags.2

/-- A pulse raises a flag exactly if the time before it is that of a separator and its HIGH that of
a sync. It is recorded either way, unless it does. -/
theorem recognised_pulse (hsize : 1 < size) {s : ReceiverState size} (hidle : s.received = false)
    {time : Micros} {high : ℕ}
    (hquiet : ¬ (within sepLength 100 (time - s.lastTime) ∧
      within syncLength 1000 (BitVec.ofNat 32 high))) :
    recognised s [⟨time, false⟩, ⟨time + BitVec.ofNat 32 high, true⟩] = [false, false] ∧
      (handleAll s [⟨time, false⟩, ⟨time + BitVec.ofNat 32 high, true⟩]).received = false ∧
      (handleAll s [⟨time, false⟩, ⟨time + BitVec.ofNat 32 high, true⟩]).lastTime =
        time + BitVec.ofNat 32 high := by
  have hfirst : recognises s ⟨time, false⟩ = false := by
    rw [← Bool.not_eq_true, recognises_eq_true_iff hsize]
    exact fun h ↦ Bool.false_ne_true h.2.2
  have hnext := handler_of_quiet hidle hfirst
  have hsecond : recognises (handler s ⟨time, false⟩) ⟨time + BitVec.ofNat 32 high, true⟩ =
      false := by
    rw [← Bool.not_eq_true, recognises_eq_true_iff hsize, hnext]
    rintro ⟨hsep, hsync, -⟩
    change within sepLength 100 (Function.update s.timings (advance s.ringIndex 1)
      (time - s.lastTime) (advance s.ringIndex 1)) at hsep
    change within syncLength 1000 (time + BitVec.ofNat 32 high - time) at hsync
    rw [Function.update_self] at hsep
    rw [BitVec.add_comm, BitVec.add_sub_cancel] at hsync
    exact hquiet ⟨hsep, hsync⟩
  have hidleNext : (handler s ⟨time, false⟩).received = false := by
    rw [hnext]
    exact hidle
  have hlast := handler_of_quiet hidleNext hsecond
  refine ⟨?_, ?_, ?_⟩
  · rw [recognised, recognised, recognised, hfirst, hsecond]
  · change (handler (handler s ⟨time, false⟩) _).received = false
    rw [hlast]
    exact hidleNext
  · change (handler (handler s ⟨time, false⟩) _).lastTime = _
    rw [hlast]
    rfl

/-- No sync follows a separator, from the time in front of the first pulse on. -/
def Quiet (gap : Micros) : List Pulse → Prop
  | [] => True
  | pulse :: rest =>
    ¬ (within sepLength 100 gap ∧ within syncLength 1000 (BitVec.ofNat 32 pulse.high)) ∧
      Quiet (BitVec.ofNat 32 pulse.low) rest

/-- Quiet pulses raise no flag. -/
theorem recognised_pulseEdges (hsize : 1 < size) {s : ReceiverState size}
    (hidle : s.received = false) {time : Micros} {pulses : List Pulse}
    (hquiet : Quiet (time - s.lastTime) pulses) :
    ∀ flag ∈ recognised s (pulseEdges time pulses), flag = false := by
  induction pulses generalizing s time with
  | nil => exact fun flag hmem ↦ absurd hmem List.not_mem_nil
  | cons pulse rest ih =>
    obtain ⟨hfirst, hrest⟩ := hquiet
    obtain ⟨hflags, hidleNext, hlast⟩ := recognised_pulse hsize hidle hfirst
    have hgap : Quiet (time + BitVec.ofNat 32 pulse.high + BitVec.ofNat 32 pulse.low -
        (handleAll s [⟨time, false⟩, ⟨time + BitVec.ofNat 32 pulse.high, true⟩]).lastTime)
        rest := by
      rwa [hlast, BitVec.add_comm, BitVec.add_sub_cancel]
    have hsplit : pulseEdges time (pulse :: rest) =
        [⟨time, false⟩, ⟨time + BitVec.ofNat 32 pulse.high, true⟩] ++
          pulseEdges (time + BitVec.ofNat 32 pulse.high + BitVec.ofNat 32 pulse.low) rest := rfl
    rw [hsplit, recognised_append, hflags]
    intro flag hmem
    rcases List.mem_append.mp hmem with hmem | hmem
    · simpa using hmem
    · exact ih hidleNext hgap flag hmem

/-- Pulses without separators are quiet behind any pulse that is no sync. -/
theorem quiet_of_no_separator {gap : Micros} {pulses : List Pulse}
    (hlow : ∀ pulse ∈ pulses, ¬ within sepLength 100 (BitVec.ofNat 32 pulse.low))
    (hfirst : ¬ within sepLength 100 gap ∨
      ∀ pulse ∈ pulses.head?, ¬ within syncLength 1000 (BitVec.ofNat 32 pulse.high)) :
    Quiet gap pulses := by
  induction pulses generalizing gap with
  | nil => trivial
  | cons pulse rest ih =>
    rw [List.forall_mem_cons] at hlow
    refine ⟨fun h ↦ ?_, ih hlow.2 (Or.inl hlow.1)⟩
    rcases hfirst with hnot | hnot
    · exact hnot h.1
    · exact hnot pulse rfl h.2

/-- Pulses without a sync are quiet. -/
theorem quiet_of_no_sync {gap : Micros} {pulses : List Pulse}
    (h : ∀ pulse ∈ pulses, ¬ within syncLength 1000 (BitVec.ofNat 32 pulse.high)) :
    Quiet gap pulses := by
  induction pulses generalizing gap with
  | nil => trivial
  | cons pulse rest ih =>
    rw [List.forall_mem_cons] at h
    exact ⟨fun hsync ↦ h.1 hsync.2, ih h.2⟩

/-! ### The time unit of the sketch -/

theorem mem_pulses {code : Code} {timeDelay : ℕ} {pulse : Pulse}
    (h : pulse ∈ (List.replicate 6 (code.pulses timeDelay)).flatten) :
    ∃ symbol, (symbol = 1 ∨ symbol = 2 ∨ symbol = 3) ∧ pulse = symbolPulse timeDelay symbol := by
  obtain ⟨pulses, hpulses, hmem⟩ := List.mem_flatten.mp h
  rw [List.eq_of_mem_replicate hpulses] at hmem
  obtain ⟨symbol, hsymbol, rfl⟩ := List.mem_map.mp hmem
  exact ⟨symbol, code.symbol_cases hsymbol, rfl⟩

/-- A transmission begins with the pulse of a bit. -/
theorem exists_first_pulse (code : Code) (timeDelay : ℕ) :
    ∃ symbol rest, (symbol = 1 ∨ symbol = 2) ∧
      (List.replicate 6 (code.pulses timeDelay)).flatten =
        symbolPulse timeDelay symbol :: rest := by
  cases hsymbols : code.symbols with
  | nil => exact absurd (hsymbols ▸ code.length_eq) (by decide)
  | cons symbol others =>
    refine ⟨symbol, (others ++ [3]).map (symbolPulse timeDelay) ++
      (List.replicate 5 (code.pulses timeDelay)).flatten,
      code.bit symbol (hsymbols ▸ List.mem_cons_self), ?_⟩
    rw [List.replicate_succ, List.flatten_cons, Code.pulses, Code.codeToTransmit, hsymbols]
    rfl

/-- With the time unit of the sketch an idle receiver stays idle throughout a transmission. -/
theorem received_of_transmission (code : Code)
    {s : ReceiverState Receiver.RfReceiverV2WithInterrupts.sketch.ringBufferSize}
    (hidle : s.received = false) (time : Micros) {first rest : List Edge}
    (hedges : lineEdges time false (transmitCode timeDelay code.codeToTransmit) = first ++ rest) :
    (handleAll s first).received = false := by
  have hlow : ∀ pulse ∈ (List.replicate 6 (code.pulses timeDelay)).flatten,
      ¬ within sepLength 100 (BitVec.ofNat 32 pulse.low) := by
    intro pulse hmem
    obtain ⟨symbol, hsymbol, rfl⟩ := mem_pulses hmem
    rcases hsymbol with rfl | rfl | rfl <;> decide
  have hhigh : ∀ pulse ∈ (List.replicate 6 (code.pulses timeDelay)).flatten.head?,
      ¬ within syncLength 1000 (BitVec.ofNat 32 pulse.high) := by
    intro pulse hmem
    obtain ⟨symbol, later, hsymbol, hpulses⟩ := exists_first_pulse code timeDelay
    rw [hpulses] at hmem
    obtain rfl : symbolPulse timeDelay symbol = pulse := Option.some.inj hmem
    rcases hsymbol with rfl | rfl <;> decide
  have hflags : ∀ flag ∈ recognised s
      (pulseEdges time (List.replicate 6 (code.pulses timeDelay)).flatten), flag = false :=
    recognised_pulseEdges (by decide) hidle (quiet_of_no_separator hlow (Or.inr hhigh))
  rw [← lineEdges_transmitCode, hedges, recognised_append] at hflags
  exact received_of_not_recognised hidle fun flag hmem ↦
    hflags flag (List.mem_append_left _ hmem)

/-- With the time unit of the sketch no idle receiver understands any code. -/
theorem not_understands (code : Code)
    {s : ReceiverState Receiver.RfReceiverV2WithInterrupts.sketch.ringBufferSize}
    (hidle : s.received = false) (time : Micros) : ¬ Understands timeDelay code s time := by
  rintro ⟨first, rest, hedges, hreceived, -⟩
  have hstill := received_of_transmission code hidle time hedges
  exact Bool.false_ne_true (hstill.symm.trans hreceived)

/-- The symbols of `lightOFF`. -/
def lightOFF : Code where
  symbols := [1, 2, 2, 2, 2, 2, 2, 1, 2, 1, 1, 1, 1, 1, 1, 1, 1, 2, 2, 2, 1, 1, 2, 2, 1, 2, 2, 2, 2,
    2, 2, 1]
  length_eq := rfl
  bit := by decide

theorem not_understands_lightOFF : ¬ Understands timeDelay lightOFF (powerOn fun _ ↦ 0) 1000 :=
  not_understands lightOFF rfl 1000

theorem not_forall_understands :
    ¬ ∀ (code : Code)
      (s : ReceiverState Receiver.RfReceiverV2WithInterrupts.sketch.ringBufferSize) (time : Micros),
      s.received = false → Understands timeDelay code s time := by
  intro hall
  obtain ⟨first, rest, hedges, hreceived, -⟩ := hall lightOFF (powerOn fun _ ↦ 0) 1000 rfl
  have hstill := received_of_transmission lightOFF (s := powerOn fun _ ↦ 0) rfl 1000 hedges
  exact Bool.false_ne_true (hstill.symm.trans hreceived)

/-! ### A longer time unit -/

/-- Pulses with one LOW are timed from the HIGH before them. -/
theorem pulseEdges_append {gap : ℕ} (lastTime : Micros) {first : List Pulse}
    (hlow : ∀ pulse ∈ first, pulse.low = gap) (second : List Pulse) :
    pulseEdges (lastTime + BitVec.ofNat 32 gap) (first ++ second) =
      pulseEdges (lastTime + BitVec.ofNat 32 gap) first ++
        pulseEdges (lastMicros lastTime (pulseEdges (lastTime + BitVec.ofNat 32 gap) first) +
          BitVec.ofNat 32 gap) second := by
  induction first generalizing lastTime with
  | nil => rfl
  | cons pulse rest ih =>
    rw [List.forall_mem_cons] at hlow
    obtain ⟨rfl, hrest⟩ := hlow
    rw [List.cons_append, pulseEdges, pulseEdges, ih _ hrest]
    rfl

/-- The time between a reading of the clock and a later one, also if it wraps between them. -/
theorem add_sub_self (start duration : Micros) : start + duration - start = duration := by
  rw [BitVec.add_comm, BitVec.add_sub_cancel]

/-- The durations of such pulses. -/
theorem durations_pulseEdges {gap : ℕ} (lastTime : Micros) {pulses : List Pulse}
    (hlow : ∀ pulse ∈ pulses, pulse.low = gap) :
    durations lastTime (pulseEdges (lastTime + BitVec.ofNat 32 gap) pulses) =
      pulses.flatMap fun pulse ↦ [BitVec.ofNat 32 gap, BitVec.ofNat 32 pulse.high] := by
  induction pulses generalizing lastTime with
  | nil => rfl
  | cons pulse rest ih =>
    rw [List.forall_mem_cons] at hlow
    obtain ⟨rfl, hrest⟩ := hlow
    rw [pulseEdges, durations, durations, ih _ hrest, add_sub_self, add_sub_self]
    rfl

theorem lastMicros_of_ne_nil {edges : List Edge} (h : edges ≠ []) (first second : Micros) :
    lastMicros first edges = lastMicros second edges := by
  cases edges with
  | nil => exact absurd rfl h
  | cons edge rest => rfl

/-- A duration that fits a word is compared as it is. -/
theorem within_ofNat_iff {length margin duration : ℕ} (h : duration < 2 ^ 32) :
    within length margin (BitVec.ofNat 32 duration) ↔
      length - margin < duration ∧ duration < length + margin := by
  rw [within, BitVec.toNat_ofNat, Nat.mod_eq_of_lt h]

section LongerUnit

variable {timeDelay : ℕ} (hlower : 100 < timeDelay) (hupper : timeDelay < 122)

include hlower hupper in
theorem within_separator : within sepLength 100 (BitVec.ofNat 32 (4 * timeDelay)) := by
  rw [within_ofNat_iff (by omega), sepLength]
  omega

include hlower hupper in
/-- A sync of the transmitter is a mark of the receiver. -/
theorem syncMark_pulseEdges (lastTime : Micros) :
    SyncMark lastTime
      (pulseEdges (lastTime + BitVec.ofNat 32 (4 * timeDelay)) [symbolPulse timeDelay 3]) := by
  refine ⟨_, _, rfl, ?_, ?_, rfl⟩
  · rw [add_sub_self]
    exact within_separator hlower hupper
  · rw [add_sub_self]
    change within syncLength 1000 (BitVec.ofNat 32 (82 * timeDelay))
    rw [within_ofNat_iff (by omega), syncLength]
    omega

include hlower hupper in
/-- The symbols of a code spell its bits. -/
theorem spells_pulseEdges (lastTime : Micros) (code : Code) :
    Spells (bits code) (durations lastTime (pulseEdges
      (lastTime + BitVec.ofNat 32 (4 * timeDelay))
      (code.symbols.map (symbolPulse timeDelay)))) := by
  have hspells {symbols : List ℕ} (hbit : ∀ symbol ∈ symbols, symbol = 1 ∨ symbol = 2) :
      Spells (symbols.map (· = 2)) ((symbols.map (symbolPulse timeDelay)).flatMap fun pulse ↦
        [BitVec.ofNat 32 (4 * timeDelay), BitVec.ofNat 32 pulse.high]) := by
    induction symbols with
    | nil => trivial
    | cons symbol rest ih =>
      rw [List.forall_mem_cons] at hbit
      refine ⟨within_separator hlower hupper, ?_, ih hbit.2⟩
      rcases hbit.1 with rfl | rfl
      · change within bit0Length 1000 (BitVec.ofNat 32 (16 * timeDelay))
        rw [within_ofNat_iff (by omega), bit0Length]
        omega
      · change within bit1Length 1000 (BitVec.ofNat 32 (34 * timeDelay))
        rw [within_ofNat_iff (by omega), bit1Length]
        omega
  rw [durations_pulseEdges]
  · exact hspells code.bit
  · intro pulse hmem
    obtain ⟨symbol, hsymbol, rfl⟩ := List.mem_map.mp hmem
    rcases code.bit symbol hsymbol with rfl | rfl <;> rfl

/-- The pulses of the bits of a code. -/
def bitPulses (timeDelay : ℕ) (code : Code) : List Pulse :=
  code.symbols.map (symbolPulse timeDelay)

theorem low_of_mem_bitPulses {code : Code} {pulse : Pulse} (h : pulse ∈ bitPulses timeDelay code) :
    pulse.low = 4 * timeDelay := by
  obtain ⟨symbol, hsymbol, rfl⟩ := List.mem_map.mp h
  rcases code.bit symbol hsymbol with rfl | rfl <;> rfl

include hlower hupper in
theorem not_sync_of_mem_bitPulses {code : Code} {pulse : Pulse}
    (h : pulse ∈ bitPulses timeDelay code) :
    ¬ within syncLength 1000 (BitVec.ofNat 32 pulse.high) := by
  obtain ⟨symbol, hsymbol, rfl⟩ := List.mem_map.mp h
  rcases code.bit symbol hsymbol with rfl | rfl
  · change ¬ within syncLength 1000 (BitVec.ofNat 32 (16 * timeDelay))
    rw [within_ofNat_iff (by omega), syncLength]
    omega
  · change ¬ within syncLength 1000 (BitVec.ofNat 32 (34 * timeDelay))
    rw [within_ofNat_iff (by omega), syncLength]
    omega

/-- The edges of a code behind a HIGH at a time: the bits, and the sync. -/
structure CodeEdges (timeDelay : ℕ) (code : Code) (lastTime : Micros) (frame mark : List Edge) :
    Prop where
  frame_eq : frame =
    pulseEdges (lastTime + BitVec.ofNat 32 (4 * timeDelay)) (bitPulses timeDelay code)
  mark_eq : mark = pulseEdges
    (lastMicros lastTime frame + BitVec.ofNat 32 (4 * timeDelay)) [symbolPulse timeDelay 3]

/-- A transmission begins with the edges of one code, and goes on likewise. -/
theorem exists_codeEdges (timeDelay : ℕ) (code : Code) (lastTime : Micros) (later : List Pulse) :
    ∃ frame mark, CodeEdges timeDelay code lastTime frame mark ∧
      pulseEdges (lastTime + BitVec.ofNat 32 (4 * timeDelay)) (code.pulses timeDelay ++ later) =
        frame ++ mark ++ pulseEdges
          (lastMicros lastTime (frame ++ mark) + BitVec.ofNat 32 (4 * timeDelay)) later := by
  refine ⟨_, _, ⟨rfl, rfl⟩, ?_⟩
  have hpulses : code.pulses timeDelay ++ later =
      bitPulses timeDelay code ++ ([symbolPulse timeDelay 3] ++ later) := by
    simp [Code.pulses, Code.codeToTransmit, bitPulses]
  have hsync : ∀ pulse ∈ [symbolPulse timeDelay 3], pulse.low = 4 * timeDelay := by
    intro pulse hmem
    rw [List.mem_singleton.mp hmem]
    rfl
  rw [hpulses, pulseEdges_append _ fun _ ↦ low_of_mem_bitPulses, pulseEdges_append _ hsync,
    lastMicros_append, List.append_assoc]

variable {code : Code} {lastTime : Micros} {frame mark : List Edge}

include hlower hupper in
theorem CodeEdges.spells (h : CodeEdges timeDelay code lastTime frame mark) :
    Spells (bits code) (durations lastTime frame) := by
  rw [h.frame_eq]
  exact spells_pulseEdges hlower hupper lastTime code

include hlower hupper in
theorem CodeEdges.syncMark (h : CodeEdges timeDelay code lastTime frame mark) :
    SyncMark (lastMicros lastTime frame) mark := by
  rw [h.mark_eq]
  exact syncMark_pulseEdges hlower hupper _

include hlower hupper in
/-- The bits of the first code of a transmission leave an idle receiver idle. -/
theorem CodeEdges.idle (hsize : 1 < size) {s : ReceiverState size} (hclosed : Tracks s .closed)
    (h : CodeEdges timeDelay code lastTime frame mark) :
    Tracks (handleAll s frame) .closed ∧
      (handleAll s frame).lastTime = lastMicros lastTime frame := by
  have hflags : ∀ flag ∈ recognised s frame, flag = false := by
    rw [h.frame_eq]
    exact recognised_pulseEdges hsize hclosed.1
      (quiet_of_no_sync fun _ ↦ not_sync_of_mem_bitPulses hlower hupper)
  have htracks := handleAll_tracks frame hclosed
  rw [(Pairing.run_quiet _ hflags).1] at htracks
  have hne : frame ≠ [] := by
    have hlength := (h.spells hlower hupper).length_eq
    rw [length_durations, bits, List.length_map, code.length_eq] at hlength
    exact List.ne_nil_of_length_pos (by omega)
  have hlast := (handleAll_recorded (recent_nil s.timings s.ringIndex) frame
    (received_dropLast htracks.1)).1
  exact ⟨htracks, hlast.trans (lastMicros_of_ne_nil hne _ _)⟩

end LongerUnit

/-- With a time unit from 101 to 121 microseconds, an idle receiver without a pending sync
understands every code. -/
theorem understands {timeDelay : ℕ} (hlower : 100 < timeDelay) (hupper : timeDelay < 122)
    (code : Code) {s : ReceiverState Receiver.RfReceiverV2WithInterrupts.sketch.ringBufferSize}
    (hidle : s.received = false) (hclosed : s.syncCount = 0) (time : Micros) :
    Understands timeDelay code s time := by
  obtain ⟨lastTime, rfl⟩ : ∃ lastTime, lastTime + BitVec.ofNat 32 (4 * timeDelay) = time :=
    ⟨_, BitVec.sub_add_cancel time _⟩
  obtain ⟨frame₁, mark₁, hcode₁, hedges₁⟩ := exists_codeEdges timeDelay code lastTime
    (List.replicate 5 (code.pulses timeDelay)).flatten
  obtain ⟨frame₂, mark₂, hcode₂, hedges₂⟩ := exists_codeEdges timeDelay code
    (lastMicros lastTime (frame₁ ++ mark₁)) (List.replicate 4 (code.pulses timeDelay)).flatten
  have hedges := lineEdges_transmitCode (lastTime + BitVec.ofNat 32 (4 * timeDelay)) timeDelay code
  rw [List.replicate_succ, List.flatten_cons, hedges₁, List.replicate_succ, List.flatten_cons,
    hedges₂, ← List.append_assoc] at hedges
  obtain ⟨hclosedFrame, hlast⟩ := hcode₁.idle hlower hupper (by decide) ⟨hidle, hclosed⟩
  have hmark₁ := hcode₁.syncMark hlower hupper
  rw [← hlast] at hmark₁
  obtain ⟨hopened, hlastMark⟩ := handleAll_syncMark (by decide) hclosedFrame hclosedFrame.1 hmark₁
  have hspells₂ := hcode₂.spells hlower hupper
  have hmark₂ := hcode₂.syncMark hlower hupper
  rw [lastMicros_append, ← hlast, ← hlastMark] at hspells₂ hmark₂
  have hlength : (bits code).length = 32 := by
    rw [bits, List.length_map, code.length_eq]
  have hframe := received_frame Receiver.RfReceiverV2WithInterrupts.sketch hopened hlength hspells₂
    hmark₂
  rw [← handleAll_append, ← handleAll_append, ← List.append_assoc] at hframe
  exact ⟨_, _, hedges, hframe⟩

/-- A time unit of 110 microseconds, for a receiver at power on. -/
theorem understands_lightOFF : Understands 110 lightOFF (powerOn fun _ ↦ 0) 1000 :=
  understands (by decide) (by decide) lightOFF rfl rfl 1000

end Sketchbook.Transmitter.WireFormat
