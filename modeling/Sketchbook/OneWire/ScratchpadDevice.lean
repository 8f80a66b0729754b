import Sketchbook.OneWire.CheckSum
import Sketchbook.OneWire.Transactions

/-!
# Thermometers with a scratchpad

The functions of a DS18x20 device that the libraries use: `0xBE` sends the scratchpad, eight
registers and their check sum, `0x4E` stores the bytes that follow in the registers for the alarms
and the configuration, and `0xB4` sends whether the device has a power supply of its own. A device
without a configuration register stores two bytes and not three. `0x44` starts a conversion: the
device sends zeros until it has measured, and what it measures goes to the registers of the
temperature and to its alarm (`Slave.measure`). Other functions, such as the copy to the EEPROM, do
nothing to the registers within a transaction.
-/

set_option autoImplicit false
set_option relaxedAutoImplicit false

namespace Sketchbook.OneWire.ScratchpadDevice

open RomSearch SlaveBus CheckSum Transactions

/-- The registers of a device. -/
structure Registers where
  temperatureLow : BitVec 8
  temperatureHigh : BitVec 8
  alarmHigh : BitVec 8
  alarmLow : BitVec 8
  configuration : BitVec 8
  internal : BitVec 8
  countRemain : BitVec 8
  countPerC : BitVec 8
  configurable : Bool
  parasite : Bool
deriving DecidableEq

/-- The registers in the order in which they are sent. -/
def Registers.bytes (registers : Registers) : List (BitVec 8) :=
  [registers.temperatureLow, registers.temperatureHigh, registers.alarmHigh, registers.alarmLow,
    registers.configuration, registers.internal, registers.countRemain, registers.countPerC]

/-- The nine bytes of the scratchpad. -/
def Registers.scratchpad (registers : Registers) : List (BitVec 8) :=
  registers.bytes ++ [crc8 registers.bytes]

/-- Stores one of the bytes that follow the command `0x4E`. -/
def Registers.store (registers : Registers) (index : ℕ) (value : BitVec 8) : Registers :=
  match index with
  | 0 => { registers with alarmHigh := value }
  | 1 => { registers with alarmLow := value }
  | _ => { registers with configuration := value }

/-- How many bytes the command `0x4E` stores. -/
def Registers.stores (registers : Registers) : ℕ := if registers.configurable then 3 else 2

/-- What a conversion finds: the registers of the temperature, and whether it is outside the bounds
of the alarm. -/
structure Measurement where
  temperatureLow : BitVec 8
  temperatureHigh : BitVec 8
  countRemain : BitVec 8
  countPerC : BitVec 8
  alarm : Bool

/-- The registers behind a conversion. -/
def Registers.measured (registers : Registers) (measurement : Measurement) : Registers :=
  { registers with
    temperatureLow := measurement.temperatureLow
    temperatureHigh := measurement.temperatureHigh
    countRemain := measurement.countRemain
    countPerC := measurement.countPerC }

/-- A conversion leaves nothing of the one before it. -/
@[simp] theorem Registers.measured_measured (registers : Registers)
    (earlier later : Measurement) :
    (registers.measured earlier).measured later = registers.measured later := rfl

/-- What an addressed device is busy with: listening for a function, sending bits, storing the bytes
that follow, converting, or nothing until the next reset. -/
inductive Task
  | function (received : List Bool)
  | sending (bits : List Bool)
  | storing (index : ℕ) (received : List Bool)
  | converting
  | finished

/-- The byte that eight bits spell, lowest first. -/
def byteOf (bits : List Bool) : BitVec 8 :=
  BitVec.ofNat 8 (Foundation.BitWord.value bits.reverse)

theorem byteOf_serial (value : BitVec 8) : byteOf (serial value) = value := by
  revert value
  decide +kernel

/-- What a device makes of the code of a function. -/
def perform (registers : Registers) (received : List Bool) : Task :=
  if received = serial 0xBE then .sending (bitsOf registers.scratchpad)
  else if received = serial 0xB4 then .sending [!registers.parasite]
  else if received = serial 0x4E then .storing 0 []
  else if received = serial 0x44 then .converting
  else .finished

theorem perform_readScratchpad (registers : Registers) :
    perform registers (serial 0xBE) = .sending (bitsOf registers.scratchpad) := if_pos rfl

theorem perform_readPowerSupply (registers : Registers) :
    perform registers (serial 0xB4) = .sending [!registers.parasite] := by
  have hread : serial 0xB4 ≠ serial 0xBE := by decide
  rw [perform, if_neg hread, if_pos rfl]

theorem perform_writeScratchpad (registers : Registers) :
    perform registers (serial 0x4E) = .storing 0 [] := by
  have hread : serial 0x4E ≠ serial 0xBE := by decide
  have hsupply : serial 0x4E ≠ serial 0xB4 := by decide
  rw [perform, if_neg hread, if_neg hsupply, if_pos rfl]

theorem perform_convert (registers : Registers) :
    perform registers (serial 0x44) = .converting := by
  have hread : serial 0x44 ≠ serial 0xBE := by decide
  have hsupply : serial 0x44 ≠ serial 0xB4 := by decide
  have hwrite : serial 0x44 ≠ serial 0x4E := by decide
  rw [perform, if_neg hread, if_neg hsupply, if_neg hwrite, if_pos rfl]

/-- The scratchpad is copied to a memory that is not modelled. -/
theorem perform_copyScratchpad (registers : Registers) :
    perform registers (serial 0x48) = .finished := by
  have hread : serial 0x48 ≠ serial 0xBE := by decide
  have hsupply : serial 0x48 ≠ serial 0xB4 := by decide
  have hwrite : serial 0x48 ≠ serial 0x4E := by decide
  have hconvert : serial 0x48 ≠ serial 0x44 := by decide
  rw [perform, if_neg hread, if_neg hsupply, if_neg hwrite, if_neg hconvert]

/-- The functions of a thermometer. -/
def thermometer : Functions Registers Task where
  start := .function []
  output _ task :=
    match task with
    | .sending (bit :: _) => bit
    | .converting => false
    | _ => true
  slot line registers task :=
    match task with
    | .function received =>
      if received.length < 7 then (registers, .function (received ++ [line]))
      else (registers, perform registers (received ++ [line]))
    | .sending bits => (registers, .sending bits.tail)
    | .storing index received =>
      if received.length < 7 then (registers, .storing index (received ++ [line]))
      else (registers.store index (byteOf (received ++ [line])),
        if index + 1 < registers.stores then .storing (index + 1) [] else .finished)
    | .converting => (registers, .converting)
    | .finished => (registers, .finished)

abbrev Thermometer := Slave Registers Task

/-- A device behind a conversion. -/
def converted (measured : Rom → Measurement) (device : Device Registers) : Device Registers :=
  { device with
    alarm := (measured device.rom).alarm
    memory := device.memory.measured (measured device.rom) }

/-- A device at the end of a delay: if it was converting, it has measured. -/
def Slave.measure (measured : Rom → Measurement) (slave : Thermometer) : Thermometer :=
  match slave.phase with
  | .addressed .converting => ⟨converted measured slave.device, .addressed .finished⟩
  | _ => slave

/-- A device that is busy with a task. -/
def busy (device : Device Registers) (task : Task) : Thermometer := ⟨device, .addressed task⟩

theorem slot_busy (device : Device Registers) (task : Task) (line : Bool) :
    (busy device task).slot thermometer line =
      busy { device with memory := (thermometer.slot line device.memory task).1 }
        (thermometer.slot line device.memory task).2 := rfl

/-! ### Functions -/

/-- A device collects the eight bits of a byte, sends nothing meanwhile, and then acts on it. -/
theorem collect (device : Device Registers) (collecting : List Bool → Task)
    (result : List Bool → Thermometer)
    (hsilent : ∀ received, thermometer.output device.memory (collecting received) = true)
    (hmore : ∀ received line, received.length < 7 →
      (busy device (collecting received)).slot thermometer line =
        busy device (collecting (received ++ [line])))
    (hlast : ∀ received line, ¬ received.length < 7 →
      (busy device (collecting received)).slot thermometer line = result (received ++ [line]))
    (received : List Bool) {levels : List Bool} (hlength : received.length + levels.length = 8)
    (hne : levels ≠ []) :
    (busy device (collecting received)).Quiet thermometer levels ∧
      (busy device (collecting received)).slots thermometer levels =
        result (received ++ levels) := by
  induction levels generalizing received with
  | nil => exact absurd rfl hne
  | cons level rest ih =>
    rw [List.length_cons] at hlength
    rcases eq_or_ne rest [] with rfl | hrest
    · have hfull : ¬ received.length < 7 := by
        rw [List.length_nil] at hlength
        omega
      exact ⟨⟨hsilent received, trivial⟩, hlast received level hfull⟩
    · have hspace : received.length < 7 := by
        have hpositive := List.length_pos_iff.mpr hrest
        omega
      have hnext : (received ++ [level]).length + rest.length = 8 := by
        rw [List.length_append, List.length_singleton]
        omega
      obtain ⟨hquiet, hslots⟩ := ih _ hnext hrest
      rw [List.append_assoc, List.singleton_append] at hslots
      rw [Slave.Quiet, Slave.slots, List.foldl_cons, hmore received level hspace]
      exact ⟨⟨hsilent received, hquiet⟩, hslots⟩

theorem function_slots (device : Device Registers) (code : BitVec 8) :
    (busy device (.function [])).Quiet thermometer (serial code) ∧
      (busy device (.function [])).slots thermometer (serial code) =
        busy device (perform device.memory (serial code)) := by
  refine collect device .function (fun bits ↦ busy device (perform device.memory bits))
    (fun _ ↦ rfl) ?_ ?_ [] rfl (List.cons_ne_nil _ _)
  · intro received line hspace
    rw [slot_busy]
    simp only [thermometer, if_pos hspace]
  · intro received line hfull
    rw [slot_busy]
    simp only [thermometer, if_neg hfull]

/-- A stored byte goes to its register. -/
theorem storing_slots (device : Device Registers) (index : ℕ) (value : BitVec 8) :
    (busy device (.storing index [])).Quiet thermometer (serial value) ∧
      (busy device (.storing index [])).slots thermometer (serial value) =
        busy { device with memory := device.memory.store index value }
          (if index + 1 < device.memory.stores then .storing (index + 1) [] else .finished) := by
  have h := collect device (.storing index)
    (fun bits ↦ busy { device with memory := device.memory.store index (byteOf bits) }
      (if index + 1 < device.memory.stores then .storing (index + 1) [] else .finished))
    (fun _ ↦ rfl) ?_ ?_ [] (show ([] : List Bool).length + (serial value).length = 8 from rfl)
    (List.cons_ne_nil _ _)
  · rw [List.nil_append, byteOf_serial] at h
    exact h
  · intro received line hspace
    rw [slot_busy]
    simp only [thermometer, if_pos hspace]
  · intro received line hfull
    rw [slot_busy]
    simp only [thermometer, if_neg hfull]

/-- Read slots find the bits that a device sends. -/
theorem answers_sending (device : Device Registers) (bits rest : List Bool) :
    Slave.answers thermometer bits.length (busy device (.sending (bits ++ rest))) =
      (bits, busy device (.sending rest)) := by
  induction bits with
  | nil => rfl
  | cons bit more ih =>
    have hslot : (busy device (.sending (bit :: more ++ rest))).slot thermometer
        ((busy device (.sending (bit :: more ++ rest))).output thermometer) =
          busy device (.sending (more ++ rest)) := rfl
    rw [List.length_cons, Slave.answers, hslot, ih]
    rfl

variable {before after : List Thermometer}

/-- Reading a byte that a device sends. -/
theorem read_sending (hbefore : Waiting before) (hafter : Waiting after)
    (device : Device Registers) (value : BitVec 8) (rest : List Bool) :
    read (bus thermometer) (before ++ busy device (.sending (serial value ++ rest)) :: after) =
      (value, before ++ busy device (.sending rest) :: after) := by
  have hanswers := answers_sending device (serial value) rest
  have hbits := readBits_alone thermometer hbefore hafter 8
    (busy device (.sending (serial value ++ rest)))
  change Slave.answers thermometer 8 _ = _ at hanswers
  rw [hanswers] at hbits
  rw [read_eq (bus thermometer) (congrArg Prod.fst hbits), hbits]

end Sketchbook.OneWire.ScratchpadDevice
