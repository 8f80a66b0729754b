import Sketchbook.Receiver.RingReceiver

/-!
# The code transmitter of sketch_jan20b

`transmitCode` sends a code of 33 symbols six times. Each symbol is a HIGH of `highLength` and a LOW
of `lowLength` time units, chosen by a `switch` whose variables keep their values when no case
matches. What it does to the hardware is a list of `PinAction`s: writes to the transmitter pin and
to the LED, and delays. The products of lengths and `timeDelay` fit an `int` for the delays of the
sketch, so they are natural numbers here.

`lineEdges` is the line behind an inverting receiver module: it changes whenever the transmitter pin
does, to the opposite level. `lineEdges_transmitCode` gives the edges as those of a list of pulses.
-/

set_option autoImplicit false
set_option relaxedAutoImplicit false

namespace Sketchbook.Transmitter.CodeTransmitter

open Receiver.RingReceiver

def rfTransmitPin : ℕ := 4
def ledPin : ℕ := 13

/-- The value that `timeDelay` has in the sketch. -/
def timeDelay : ℕ := 100

/-- A call of `digitalWrite` or of `delayMicroseconds`. -/
inductive PinAction
  | digitalWrite (pin : ℕ) (high : Bool)
  | delayMicroseconds (duration : ℕ)
deriving DecidableEq

/-- The local variables of `transmitCode`. -/
structure Lengths where
  highLength : ℕ
  lowLength : ℕ

/-- The `switch` over a symbol. -/
def switchSymbol (symbol : ℕ) (lengths : Lengths) : Lengths :=
  match symbol with
  | 1 => ⟨16, 4⟩
  | 2 => ⟨34, 4⟩
  | 3 => ⟨82, 4⟩
  | 4 => ⟨7, 4⟩
  | 5 => ⟨7, 4⟩
  | 6 => ⟨7, 4⟩
  | _ => lengths

/-- What is written for one symbol: a HIGH and then a LOW. -/
def pulseActions (timeDelay : ℕ) (lengths : Lengths) : List PinAction :=
  [.digitalWrite rfTransmitPin true, .delayMicroseconds (lengths.highLength * timeDelay),
    .digitalWrite rfTransmitPin false, .delayMicroseconds (lengths.lowLength * timeDelay)]

/-- The loop over the symbols of the code. -/
def transmitSymbols (timeDelay : ℕ) : List ℕ → Lengths → Lengths × List PinAction
  | [], lengths => (lengths, [])
  | symbol :: rest, lengths =>
    let lengths := switchSymbol symbol lengths
    let result := transmitSymbols timeDelay rest lengths
    (result.1, pulseActions timeDelay lengths ++ result.2)

/-- The loop that sends the code a number of times. -/
def transmitTimes (timeDelay : ℕ) (codeToTransmit : List ℕ) :
    ℕ → Lengths → List PinAction
  | 0, _ => []
  | times + 1, lengths =>
    let result := transmitSymbols timeDelay codeToTransmit lengths
    result.2 ++ transmitTimes timeDelay codeToTransmit times result.1

def transmitCode (timeDelay : ℕ) (codeToTransmit : List ℕ) : List PinAction :=
  [.digitalWrite ledPin true] ++ transmitTimes timeDelay codeToTransmit 6 ⟨0, 0⟩ ++
    [.digitalWrite ledPin false]

/-- The edges behind an inverting receiver module, for a transmitter pin at a level. -/
def lineEdges (time : Micros) (level : Bool) : List PinAction → List Edge
  | [] => []
  | .digitalWrite pin high :: rest =>
    if pin = rfTransmitPin ∧ high ≠ level then ⟨time, !high⟩ :: lineEdges time high rest
    else lineEdges time level rest
  | .delayMicroseconds duration :: rest =>
    lineEdges (time + BitVec.ofNat 32 duration) level rest

/-! ### The pulses of a code -/

/-- The symbols of a code: 32 that carry a bit, and the sync. -/
structure Code where
  symbols : List ℕ
  length_eq : symbols.length = 32
  bit : ∀ symbol ∈ symbols, symbol = 1 ∨ symbol = 2

/-- The array `codeToTransmit`. -/
def Code.codeToTransmit (code : Code) : List ℕ := code.symbols ++ [3]

/-- A HIGH and the LOW behind it, in microseconds. -/
structure Pulse where
  high : ℕ
  low : ℕ

/-- The pulse of a symbol the `switch` has a case for. -/
def symbolPulse (timeDelay symbol : ℕ) : Pulse :=
  ⟨(switchSymbol symbol ⟨0, 0⟩).highLength * timeDelay,
    (switchSymbol symbol ⟨0, 0⟩).lowLength * timeDelay⟩

/-- The edges of a list of pulses behind the inverting module, from the first HIGH on. -/
def pulseEdges (time : Micros) : List Pulse → List Edge
  | [] => []
  | pulse :: rest =>
    ⟨time, false⟩ :: ⟨time + BitVec.ofNat 32 pulse.high, true⟩ ::
      pulseEdges (time + BitVec.ofNat 32 pulse.high + BitVec.ofNat 32 pulse.low) rest

/-- The pulses of one transmission of a code. -/
def Code.pulses (code : Code) (timeDelay : ℕ) : List Pulse :=
  code.codeToTransmit.map (symbolPulse timeDelay)

theorem Code.symbol_cases (code : Code) {symbol : ℕ} (h : symbol ∈ code.codeToTransmit) :
    symbol = 1 ∨ symbol = 2 ∨ symbol = 3 := by
  rcases List.mem_append.mp h with hmem | hmem
  · rcases code.bit symbol hmem with hone | htwo
    · exact Or.inl hone
    · exact Or.inr (Or.inl htwo)
  · exact Or.inr (Or.inr (List.mem_singleton.mp hmem))

/-- A symbol with a case sets both variables. -/
theorem switchSymbol_eq {symbol : ℕ} (h : symbol = 1 ∨ symbol = 2 ∨ symbol = 3)
    (lengths : Lengths) : switchSymbol symbol lengths = switchSymbol symbol ⟨0, 0⟩ := by
  rcases h with rfl | rfl | rfl <;> rfl

/-- What the transmitter pin does for a pulse. -/
def Pulse.actions (pulse : Pulse) : List PinAction :=
  [.digitalWrite rfTransmitPin true, .delayMicroseconds pulse.high,
    .digitalWrite rfTransmitPin false, .delayMicroseconds pulse.low]

/-- Symbols with a case are sent as their pulses, whatever the variables held. -/
theorem transmitSymbols_eq (timeDelay : ℕ) {symbols : List ℕ}
    (h : ∀ symbol ∈ symbols, symbol = 1 ∨ symbol = 2 ∨ symbol = 3) (lengths : Lengths) :
    (transmitSymbols timeDelay symbols lengths).2 =
      (symbols.map (symbolPulse timeDelay)).flatMap Pulse.actions := by
  induction symbols generalizing lengths with
  | nil => rfl
  | cons symbol rest ih =>
    rw [List.forall_mem_cons] at h
    rw [transmitSymbols, ih h.2, List.map_cons, List.flatMap_cons, switchSymbol_eq h.1]
    rfl

theorem transmitTimes_eq (timeDelay : ℕ) (code : Code) (times : ℕ) (lengths : Lengths) :
    transmitTimes timeDelay code.codeToTransmit times lengths =
      (List.replicate times (code.pulses timeDelay)).flatten.flatMap Pulse.actions := by
  induction times generalizing lengths with
  | zero => rfl
  | succ times ih =>
    rw [transmitTimes, ih, List.replicate_succ, List.flatten_cons, List.flatMap_append,
      transmitSymbols_eq timeDelay (fun _ ↦ code.symbol_cases)]
    rfl

/-- The line changes twice for each pulse, and not with the LED. -/
theorem lineEdges_pulses (time : Micros) (pulses : List Pulse) :
    lineEdges time false (pulses.flatMap Pulse.actions ++ [.digitalWrite ledPin false]) =
      pulseEdges time pulses := by
  induction pulses generalizing time with
  | nil => simp [lineEdges, pulseEdges]
  | cons pulse rest ih =>
    rw [List.flatMap_cons, pulseEdges, ← ih]
    simp [Pulse.actions, lineEdges]

/-- The edges of a transmission are those of the pulses of the code, six times. -/
theorem lineEdges_transmitCode (time : Micros) (timeDelay : ℕ) (code : Code) :
    lineEdges time false (transmitCode timeDelay code.codeToTransmit) =
      pulseEdges time (List.replicate 6 (code.pulses timeDelay)).flatten := by
  rw [transmitCode, transmitTimes_eq, ← lineEdges_pulses, List.append_assoc]
  simp [lineEdges, ledPin, rfTransmitPin]

end Sketchbook.Transmitter.CodeTransmitter
