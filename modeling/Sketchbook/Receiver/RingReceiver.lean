import Mathlib.Data.BitVec
import Sketchbook.Foundation.RingIndex
import Sketchbook.Sensor.BinaryReading

/-!
# The ring-buffer 433 MHz receiver

The sketches RF_RECEIVER_V2_WITH_INTERRUPTS, RF_RECEIVER2 and XIVELY_RF_DS1820 share one receiver
and differ in the size of the ring and in what `loop` prints. `handler` runs on every edge of the
data pin: it records the time since the previous edge in a ring of durations, looks for a sync pulse
and pairs syncs two by two. `loop` waits for `received`, walks from one sync index to the other two
cells at a time and turns each pair of durations into a character.

The globals of a sketch and the static variables of `handler` are the fields of `ReceiverState`. A
duration is a 32-bit word, as `micros` is on the boards of these sketches, and the signed `time` of
the source is converted back to unsigned by the subtraction. Ring indices are elements of
`Fin size`, since each of them is assigned a value reduced modulo the size or zero.

An `Edge` is what one call of `handler` reads from the hardware. `Str` is the memory from the start
of the character buffer on: the buffer has 32 cells, and the cells behind it are whatever follows on
the stack. `Stack` holds the uninitialised locals of `loop`.
-/

set_option autoImplicit false
set_option relaxedAutoImplicit false

namespace Sketchbook.Receiver.RingReceiver

open Arduino.Text Foundation.RingIndex Sensor.BinaryReading

/-- A value of `micros` or a duration: an unsigned 32-bit word. -/
abbrev Micros := BitVec 32

def syncLength : ℕ := 9000
def sepLength : ℕ := 500
def bit1Length : ℕ := 4000
def bit0Length : ℕ := 2000

/-- The comparison `t > (length - margin) && t < (length + margin)` of the source. -/
def within (length margin : ℕ) (t : Micros) : Prop :=
  length - margin < t.toNat ∧ t.toNat < length + margin

instance (length margin : ℕ) (t : Micros) : Decidable (within length margin t) :=
  inferInstanceAs (Decidable (_ ∧ _))

/-- What distinguishes the receivers of the sketches: the size of the ring, which has to fit the
data between two successive sync signals, and whether the decode loop prints each pair. -/
structure RingSketch where
  ringBufferSize : ℕ
  fits : 66 < ringBufferSize
  echoes : Bool

instance (sketch : RingSketch) : NeZero sketch.ringBufferSize :=
  ⟨by have := sketch.fits; omega⟩

/-- What one call of `handler` reads: `micros()` and whether the data pin is HIGH. -/
structure Edge where
  micros : Micros
  dataPin : Bool
deriving DecidableEq

/-- The globals of a sketch and the static variables of its `handler`. -/
structure ReceiverState (size : ℕ) where
  timings : Fin size → Micros
  syncIndex1 : Fin size
  syncIndex2 : Fin size
  received : Bool
  duration : Micros
  lastTime : Micros
  ringIndex : Fin size
  syncCount : ℕ

variable {size : ℕ} [NeZero size]

/-! ### The interrupt handler -/

/-- The state a sketch starts in, over the ring contents it finds in memory. -/
def powerOn (timings : Fin size → Micros) : ReceiverState size where
  timings := timings
  syncIndex1 := 0
  syncIndex2 := 0
  received := false
  duration := 0
  lastTime := 0
  ringIndex := 0
  syncCount := 0

/-- Whether the duration at `idx` ends a sync signal. -/
def isSync (timings : Fin size → Micros) (idx : Fin size) (dataPin : Bool) : Bool :=
  let t0 := timings (advance idx (size - 1))
  let t1 := timings idx
  decide (within sepLength 100 t0) && decide (within syncLength 1000 t1) && dataPin

/-- The part of `handler` that stores the time since the last change in the ring. -/
def record (s : ReceiverState size) (edge : Edge) : ReceiverState size :=
  let duration := edge.micros - s.lastTime
  let ringIndex := advance s.ringIndex 1
  { s with
    duration := duration
    lastTime := edge.micros
    ringIndex := ringIndex
    timings := Function.update s.timings ringIndex duration }

/-- The part of `handler` that runs when the duration just recorded ends a sync signal. -/
def countSync (s : ReceiverState size) : ReceiverState size :=
  let syncCount := s.syncCount + 1
  if syncCount = 1 then
    { s with syncCount := syncCount, syncIndex1 := advance s.ringIndex 1 }
  else if syncCount = 2 then
    let syncIndex2 := advance s.ringIndex 1
    let changeCount := gap s.syncIndex1 syncIndex2
    if changeCount ≠ 66 then
      { s with syncCount := 0, received := false, syncIndex1 := 0, syncIndex2 := 0 }
    else
      { s with syncCount := 0, syncIndex2 := syncIndex2, received := true }
  else
    { s with syncCount := syncCount }

/-- The interrupt handler. -/
def handler (s : ReceiverState size) (edge : Edge) : ReceiverState size :=
  if s.received = true then s
  else
    let s := record s edge
    if isSync s.timings s.ringIndex edge.dataPin then countSync s else s

/-- The state after a list of edges, oldest first. -/
def handleAll (s : ReceiverState size) (edges : List Edge) : ReceiverState size :=
  edges.foldl handler s

/-! ### The decode loop -/

/-- An item a sketch prints on the serial line. -/
inductive SerialItem
  | text (content : String)
  | chars (content : List Char)
  | number (content : ℚ)

/-- The character that `bitreceived` holds after a pair of durations, given what it held before. The
branch of a sync pulse leaves it as it is. -/
def bitreceivedAfter (t0 t1 : Micros) (bitreceived : Char) : Char :=
  if within sepLength 100 t0 then
    if within bit1Length 1000 t1 then '1'
    else if within bit0Length 1000 t1 then '0'
    else bitreceived
  else '?'

/-- What the decode loop prints for a pair of durations. -/
def pairMark (t0 t1 : Micros) : String :=
  if within sepLength 100 t0 then
    if within bit1Length 1000 t1 then "1"
    else if within bit0Length 1000 t1 then "0"
    else "SYNC"
  else "?"

/-- The locals of `loop` that the decode loop changes, and what it has printed. -/
structure Decode where
  k : ℕ
  bitreceived : Char
  Str : ℕ → Char
  printed : List SerialItem

/-- The uninitialised locals of `loop`. -/
structure Stack where
  bitreceived : Char
  Str : ℕ → Char

/-- The locals when the decode loop starts. -/
def Stack.decode (stack : Stack) : Decode := ⟨0, stack.bitreceived, stack.Str, []⟩

/-- One turn of the decode loop, at ring position `i`. -/
def decodeBody (echoes : Bool) (timings : Fin size → Micros) (i : Fin size) (d : Decode) :
    Decode :=
  let t0 := timings i
  let t1 := timings (advance i 1)
  let bitreceived := bitreceivedAfter t0 t1 d.bitreceived
  { k := d.k + 1
    bitreceived := bitreceived
    Str := Function.update d.Str d.k bitreceived
    printed := if echoes then d.printed ++ [.text (pairMark t0 t1)] else d.printed }

/-- The decode loop. A walk that has not met `syncIndex2` after `size` turns never does. -/
def decodeLoop (echoes : Bool) (s : ReceiverState size) (stack : Stack) : Option Decode :=
  walk 2 (decodeBody echoes s.timings) s.syncIndex2 size s.syncIndex1 stack.decode

/-- The state in which `loop` re-enables the interrupt. -/
def clearReceived (s : ReceiverState size) : ReceiverState size :=
  { s with received := false, syncIndex1 := 0, syncIndex2 := 0 }

/-- The characters of the temperature in the decoded string. -/
def tempOut (d : Decode) : List Char := cSubstring d.Str 16 24

/-- `loop` of RF_RECEIVER2 and RF_RECEIVER_V2_WITH_INTERRUPTS: the state after one pass and what it
prints, `none` if the decode loop does not end. -/
def loop (s : ReceiverState size) (stack : Stack) :
    Option (ReceiverState size × List SerialItem) :=
  if s.received = true then
    (decodeLoop true s stack).map fun d ↦
      (clearReceived s, d.printed ++
        [.chars (tempOut d), .text "Temp_out=", .number (bintodec (tempOut d))])
  else some (s, [])

end Sketchbook.Receiver.RingReceiver

/-! ### The three sketches -/

namespace Sketchbook.Receiver.RfReceiverV2WithInterrupts

open RingReceiver

def sketch : RingSketch := ⟨256, by decide, true⟩

def handler : ReceiverState sketch.ringBufferSize → Edge → ReceiverState sketch.ringBufferSize :=
  RingReceiver.handler

def loop : ReceiverState sketch.ringBufferSize → Stack →
    Option (ReceiverState sketch.ringBufferSize × List SerialItem) :=
  RingReceiver.loop

end Sketchbook.Receiver.RfReceiverV2WithInterrupts

namespace Sketchbook.Receiver.RfReceiver2

open RingReceiver

def sketch : RingSketch := ⟨300, by decide, true⟩

def handler : ReceiverState sketch.ringBufferSize → Edge → ReceiverState sketch.ringBufferSize :=
  RingReceiver.handler

def loop : ReceiverState sketch.ringBufferSize → Stack →
    Option (ReceiverState sketch.ringBufferSize × List SerialItem) :=
  RingReceiver.loop

end Sketchbook.Receiver.RfReceiver2

namespace Sketchbook.Receiver.XivelyRfDs1820

open RingReceiver Sensor.BinaryReading

def sketch : RingSketch := ⟨100, by decide, false⟩

def handler : ReceiverState sketch.ringBufferSize → Edge → ReceiverState sketch.ringBufferSize :=
  RingReceiver.handler

/-- `loop` of XIVELY_RF_DS1820, which prints neither the pairs nor the eight characters. -/
def loop (s : ReceiverState sketch.ringBufferSize) (stack : Stack) :
    Option (ReceiverState sketch.ringBufferSize × List SerialItem) :=
  if s.received = true then
    (decodeLoop false s stack).map fun d ↦
      (clearReceived s, [.text "Temp_out=", .number (bintodec (tempOut d))])
  else some (s, [])

end Sketchbook.Receiver.XivelyRfDs1820
