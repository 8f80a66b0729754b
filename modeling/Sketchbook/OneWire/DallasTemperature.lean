import Mathlib.Data.List.GetD
import Sketchbook.OneWire.DeviceEnumeration
import Sketchbook.OneWire.ScratchpadDevice

/-!
# The DallasTemperature library on a bus of thermometers

The sketches with a DS1820 call `begin` once, then `getTempCByIndex(0)` in every loop. Behind these
stand `search`, which finds the addresses, and transactions that read or write the scratchpad of one
device. `isConnected` accepts a scratchpad when its last byte is the check sum of the others.

On a bus of thermometers with different codes, `isConnected` succeeds exactly for the codes on the
bus and gives the registers of that device; a code that is not there reads as nine times `0xFF`,
which fails the check (`isConnected_eq`). A configuration or a user value that is written with
`writeScratchPad` is read back, and the registers of all other devices stay what they were.
-/

set_option autoImplicit false
set_option relaxedAutoImplicit false

namespace Sketchbook.OneWire.DallasTemperature

open Foundation.ShiftRegister RomSearch SlaveBus CheckSum Transactions ScratchpadDevice
open DeviceEnumeration

/-! ### Transactions of the library -/

section Library

variable {Wire : Type*} (bus : Bus Wire)

/-- The loop that reads a number of bytes. -/
def readBytes : ℕ → Wire → List (BitVec 8) × Wire
  | 0, wire => ([], wire)
  | count + 1, wire =>
    let first := read bus wire
    let rest := readBytes count first.2
    (first.1 :: rest.1, rest.2)

/-- `validAddress`: the last byte of the address is the check sum of the first seven. -/
def validAddress (address : Rom) : Bool :=
  crc8 ((List.finRange 7).map fun index ↦ address.byte index.castSucc) == address.byte 7

/-- `readScratchPad`: its result, the bytes it has read, and the wire. -/
def readScratchPad (address : Rom) (wire : Wire) : Bool × List (BitVec 8) × Wire :=
  let presence := bus.reset wire
  if presence.1 then
    let scratchPad := readBytes bus 9 (write bus 0xBE (select bus address presence.2))
    let last := bus.reset scratchPad.2
    (last.1, scratchPad.1, last.2)
  else (false, [], presence.2)

/-- `isConnected`: the scratchpad, when it was read and its check sum is right. -/
def isConnected (address : Rom) (wire : Wire) : Option (List (BitVec 8)) × Wire :=
  let result := readScratchPad bus address wire
  if result.1 && crc8 (result.2.1.take 8) == result.2.1.getD 8 0 then (some result.2.1, result.2.2)
  else (none, result.2.2)

/-- `readPowerSupply`: whether the device draws its power from the wire. -/
def readPowerSupply (address : Rom) (wire : Wire) : Bool × Wire :=
  let wire := write bus 0xB4 (select bus address (bus.reset wire).2)
  let slot := bus.readBit wire
  (!slot.1, (bus.reset slot.2).2)

/-- `writeScratchPad`: stores the alarm registers and the configuration, then copies them. -/
def writeScratchPad (address : Rom) (scratchPad : List (BitVec 8)) (wire : Wire) : Wire :=
  let wire := write bus 0x4E (select bus address (bus.reset wire).2)
  let wire := write bus (scratchPad.getD 3 0) (write bus (scratchPad.getD 2 0) wire)
  let wire := if address.byte 0 ≠ 0x10 then write bus (scratchPad.getD 4 0) wire else wire
  let wire := write bus 0x48 (select bus address (bus.reset wire).2)
  (bus.reset wire).2

/-- The configuration byte that `setResolution` chooses. -/
def configurationOf (resolution : ℕ) : BitVec 8 :=
  match resolution with
  | 12 => 0x7F
  | 11 => 0x5F
  | 10 => 0x3F
  | _ => 0x1F

/-- `setResolution` for one device: whether the device was there. -/
def setResolution (address : Rom) (resolution : ℕ) (wire : Wire) : Bool × Wire :=
  match isConnected bus address wire with
  | (some scratchPad, wire) =>
    if address.byte 0 ≠ 0x10 then
      (true, writeScratchPad bus address (scratchPad.set 4 (configurationOf resolution)) wire)
    else (true, wire)
  | (none, wire) => (false, wire)

/-- `getResolution` for one device: 0 when it is not there. -/
def getResolution (address : Rom) (wire : Wire) : ℕ × Wire :=
  if address.byte 0 = 0x10 then (12, wire)
  else
    match isConnected bus address wire with
    | (some scratchPad, wire) =>
      (if scratchPad.getD 4 0 = 0x7F then 12
        else if scratchPad.getD 4 0 = 0x5F then 11
        else if scratchPad.getD 4 0 = 0x3F then 10
        else if scratchPad.getD 4 0 = 0x1F then 9
        else 0, wire)
    | (none, wire) => (0, wire)

/-- `setUserData`: keeps a number of 16 bits in the alarm registers. -/
def setUserData (address : Rom) (data : BitVec 16) (wire : Wire) : Wire :=
  match isConnected bus address wire with
  | (some scratchPad, wire) =>
    writeScratchPad bus address
      ((scratchPad.set 2 ((data >>> 8).setWidth 8)).set 3 ((data &&& 255).setWidth 8)) wire
  | (none, wire) => wire

/-- `getUserData`. -/
def getUserData (address : Rom) (wire : Wire) : BitVec 16 × Wire :=
  match isConnected bus address wire with
  | (some scratchPad, wire) =>
    ((scratchPad.getD 2 0).setWidth 16 <<< 8 + (scratchPad.getD 3 0).setWidth 16, wire)
  | (none, wire) => (0, wire)

/-- `calculateTemperature`: 128 steps for a degree. It divides by the count of a DS18S20, and has no
result where that is zero. -/
def calculateTemperature (address : Rom) (scratchPad : List (BitVec 8)) : Option (BitVec 16) :=
  let fpTemperature := (scratchPad.getD 1 0).setWidth 16 <<< 11 |||
    (scratchPad.getD 0 0).setWidth 16 <<< 3
  if address.byte 0 = 0x10 then
    let countPerC : ℤ := (scratchPad.getD 7 0).toNat
    let countRemain : ℤ := (scratchPad.getD 6 0).toNat
    if countPerC = 0 then none
    else some ((fpTemperature &&& 0xFFF0) <<< 3 - 16 +
      BitVec.ofInt 16 (((countPerC - countRemain) * 128).tdiv countPerC))
  else some fpTemperature

/-- `DEVICE_DISCONNECTED_RAW`. -/
def disconnectedRaw : BitVec 16 := -7040

/-- `DEVICE_DISCONNECTED_C`. -/
def disconnectedC : ℚ := -127

/-- `getTemp`, with the result of `calculateTemperature` if there is one. -/
def getTemp (address : Rom) (wire : Wire) : Option (BitVec 16) × Wire :=
  match isConnected bus address wire with
  | (some scratchPad, wire) => (calculateTemperature address scratchPad, wire)
  | (none, wire) => (some disconnectedRaw, wire)

/-- `rawToCelsius`. A `float` holds every 128th of a degree in the range of `raw`. -/
def rawToCelsius (raw : BitVec 16) : ℚ :=
  if raw.toInt ≤ disconnectedRaw.toInt then disconnectedC else raw.toInt / 128

/-- `getTempC`. -/
def getTempC (address : Rom) (wire : Wire) : Option ℚ × Wire :=
  let result := getTemp bus address wire
  (result.1.map rawToCelsius, result.2)

end Library

/-! ### What the checks notice -/

/-- Two valid addresses differ in at least four bits. -/
theorem four_le_distance_of_validAddress {first second : Rom} (hfirst : validAddress first = true)
    (hsecond : validAddress second = true) (hne : first ≠ second) :
    4 ≤ distance (bitsOf ((List.finRange 8).map first.byte))
      (bitsOf ((List.finRange 8).map second.byte)) := by
  have hbytes (rom : Rom) : (List.finRange 8).map rom.byte =
      (List.finRange 7).map (fun index ↦ rom.byte index.castSucc) ++ [rom.byte 7] := rfl
  rw [validAddress, beq_iff_eq] at hfirst hsecond
  rw [hbytes, hbytes]
  refine four_le_distance_of_checked (by simp) (by simp) hfirst hsecond fun heq ↦ hne ?_
  rw [← hbytes, ← hbytes] at heq
  suffices hbyte : first.byte = second.byte by
    cases first
    cases second
    exact congrArg _ hbyte
  funext index
  exact List.map_inj_left.mp heq index (List.mem_finRange index)

/-- Two scratchpads that pass the test of `isConnected` differ in at least four bits. -/
theorem four_le_distance_of_scratchPad {first second : List (BitVec 8)} (hlength : first.length = 9)
    (hsecondLength : second.length = 9) (hfirst : crc8 (first.take 8) = first.getD 8 0)
    (hsecond : crc8 (second.take 8) = second.getD 8 0) (hne : first ≠ second) :
    4 ≤ distance (bitsOf first) (bitsOf second) := by
  have hparts {bytes : List (BitVec 8)} (h : bytes.length = 9) :
      bytes.take 8 ++ [bytes.getD 8 0] = bytes := by
    rw [List.getD_eq_getElem _ _ (by omega), List.take_append_getElem (by omega),
      List.take_of_length_le h.le]
  have hchecked := four_le_distance_of_checked (by simp [hlength, hsecondLength])
    (by simp [hlength]) hfirst hsecond (by rwa [hparts hlength, hparts hsecondLength])
  rwa [hparts hlength, hparts hsecondLength] at hchecked

/-! ### Transactions on a bus of thermometers -/

/-- The devices behind a reset, as every transaction of the library leaves them. -/
def listening (devices : List (Device Registers)) : List Thermometer :=
  devices.map fun device ↦ ⟨device, .command []⟩

/-- Devices that wait for the next reset. -/
def waiting (devices : List (Device Registers)) : List Thermometer :=
  devices.map fun device ↦ ⟨device, .idle⟩

/-- The devices on a wire. -/
def devicesOf (wire : List Thermometer) : List (Device Registers) := wire.map Slave.device

theorem waiting_waiting (devices : List (Device Registers)) : Waiting (waiting devices) := by
  intro slave hslave
  obtain ⟨device, -, rfl⟩ := List.mem_map.mp hslave
  rfl

theorem reset_eq (wire : List Thermometer) :
    (bus thermometer).reset wire = (!wire.isEmpty, listening (devicesOf wire)) := by
  rw [listening, devicesOf, List.map_map]
  rfl

@[simp] theorem devicesOf_listening (devices : List (Device Registers)) :
    devicesOf (listening devices) = devices := by
  rw [devicesOf, listening, List.map_map]
  exact List.map_id _

/-- A bus with one device that has an address, and the devices around it. -/
structure Has (wire : List Thermometer) (before : List (Device Registers))
    (device : Device Registers) (after : List (Device Registers)) : Prop where
  devices : devicesOf wire = before ++ device :: after
  unique : ∀ other ∈ before ++ after, other.rom ≠ device.rom

variable {wire : List Thermometer} {before after : List (Device Registers)}
  {device : Device Registers} {address : Rom}

/-- `select` addresses the one device and lets the others wait. -/
theorem Has.select (h : Has wire before device after) :
    select (bus thermometer) device.rom ((bus thermometer).reset wire).2 =
      waiting before ++ busy device (.function []) :: waiting after := by
  have hothers : ∀ others, (∀ other ∈ others, other ∈ before ++ after) →
      others.map (fun other : Device Registers ↦ (⟨other, if other.rom = device.rom then
        .addressed thermometer.start else .idle⟩ : Thermometer)) = waiting others := by
    intro others hothers
    refine List.map_congr_left fun other hother ↦ ?_
    rw [if_neg (h.unique other (hothers other hother))]
  have hreset : ((bus thermometer).reset wire).2 = wire.map Slave.reset := rfl
  have hdevices := congrArg (List.map fun other : Device Registers ↦
    (⟨other, if other.rom = device.rom then .addressed thermometer.start else .idle⟩ :
      Thermometer)) h.devices
  rw [hreset, select_reset]
  rw [devicesOf, List.map_map, List.map_append, List.map_cons,
    hothers before fun _ ↦ List.mem_append_left after,
    hothers after fun _ ↦ List.mem_append_right before, if_pos rfl] at hdevices
  exact hdevices

/-- A function code reaches the one device. -/
theorem Has.write_function (h : Has wire before device after) (code : BitVec 8) :
    write (bus thermometer) code
        (RomSearch.select (bus thermometer) device.rom ((bus thermometer).reset wire).2) =
      waiting before ++ busy device (perform device.memory (serial code)) :: waiting after := by
  obtain ⟨hquiet, hslots⟩ := function_slots device code
  rw [h.select,
    write_alone thermometer (waiting_waiting before) (waiting_waiting after) code hquiet, hslots]

theorem devicesOf_parts (before after : List (Device Registers)) (device : Device Registers)
    (task : Task) : devicesOf (waiting before ++ busy device task :: waiting after) =
      before ++ device :: after := by
  simp [devicesOf, waiting, busy, Function.comp_def]

theorem reset_parts (before after : List (Device Registers)) (device : Device Registers)
    (task : Task) :
    (bus thermometer).reset (waiting before ++ busy device task :: waiting after) =
      (true, listening (before ++ device :: after)) := by
  rw [reset_eq]
  refine Prod.ext ?_ ?_
  · cases before <;> rfl
  · rw [devicesOf_parts]

variable (before after device) in
/-- The bytes that a device sends. -/
theorem readBytes_sending (bytes : List (BitVec 8)) :
    readBytes (bus thermometer) bytes.length
        (waiting before ++ busy device (.sending (bitsOf bytes)) :: waiting after) =
      (bytes, waiting before ++ busy device (.sending []) :: waiting after) := by
  induction bytes with
  | nil => rfl
  | cons byte rest ih =>
    have hread := read_sending (waiting_waiting before) (waiting_waiting after) device byte
      (bitsOf rest)
    have hbits : bitsOf (byte :: rest) = serial byte ++ bitsOf rest := rfl
    rw [List.length_cons, readBytes, hbits, hread]
    dsimp only
    rw [ih]

/-- A transaction that reads the scratchpad gets the registers of the device. -/
theorem readBytes_has (h : Has wire before device after) :
    readBytes (bus thermometer) 9 (write (bus thermometer) 0xBE
        (select (bus thermometer) device.rom ((bus thermometer).reset wire).2)) =
      (device.memory.scratchpad, waiting before ++ busy device (.sending []) :: waiting after) := by
  rw [h.write_function, perform_readScratchpad]
  exact readBytes_sending before after device device.memory.scratchpad

/-- The scratchpad of a device that is on the bus. -/
theorem Has.readScratchPad (h : Has wire before device after) :
    readScratchPad (bus thermometer) device.rom wire =
      (true, device.memory.scratchpad, listening (devicesOf wire)) := by
  have hpresence : ((bus thermometer).reset wire).1 = true := by
    have hne : devicesOf wire ≠ [] := by
      rw [h.devices]
      exact List.append_ne_nil_of_right_ne_nil _ (List.cons_ne_nil _ _)
    cases wire with
    | nil => exact absurd rfl hne
    | cons first rest => rfl
  rw [DallasTemperature.readScratchPad]
  dsimp only
  rw [if_pos hpresence, readBytes_has h]
  dsimp only
  rw [reset_parts, h.devices]

/-- An address that no device has reads as ones, if there are other devices on the wire. -/
theorem readScratchPad_absent (h : ∀ device ∈ devicesOf wire, device.rom ≠ address) :
    readScratchPad (bus thermometer) address wire =
      (!wire.isEmpty, if wire.isEmpty then [] else List.replicate 9 0xFF,
        listening (devicesOf wire)) := by
  have hselect : select (bus thermometer) address ((bus thermometer).reset wire).2 =
      waiting (devicesOf wire) := by
    have hreset : ((bus thermometer).reset wire).2 = wire.map Slave.reset := rfl
    rw [hreset, select_reset, waiting, devicesOf, List.map_map]
    refine List.map_congr_left fun slave hslave ↦ ?_
    rw [if_neg (h slave.device (List.mem_map_of_mem hslave))]
    rfl
  have hones (count : ℕ) : readBytes (bus thermometer) count (waiting (devicesOf wire)) =
      (List.replicate count 0xFF, waiting (devicesOf wire)) := by
    induction count with
    | zero => rfl
    | succ count ih =>
      rw [readBytes, read_waiting thermometer (waiting_waiting _)]
      dsimp only
      rw [ih]
      rfl
  have hwaiting : devicesOf (waiting (devicesOf wire)) = devicesOf wire := by
    rw [devicesOf, waiting, List.map_map]
    exact List.map_id _
  rw [DallasTemperature.readScratchPad]
  dsimp only
  cases wire with
  | nil => rfl
  | cons first rest =>
    have hpresence : ((bus thermometer).reset (first :: rest)).1 = true := rfl
    rw [if_pos hpresence, hselect, write_waiting thermometer (waiting_waiting _), hones]
    dsimp only
    rw [reset_eq, hwaiting]
    rfl

/-- The check sum of a scratchpad is right. -/
theorem scratchpad_check (registers : Registers) :
    crc8 (registers.scratchpad.take 8) = registers.scratchpad.getD 8 0 := rfl

theorem Has.isConnected (h : Has wire before device after) :
    isConnected (bus thermometer) device.rom wire =
      (some device.memory.scratchpad, listening (devicesOf wire)) := by
  rw [DallasTemperature.isConnected, h.readScratchPad]
  dsimp only
  rw [scratchpad_check, beq_self_eq_true, Bool.and_true, if_pos rfl]

theorem isConnected_absent (h : ∀ device ∈ devicesOf wire, device.rom ≠ address) :
    isConnected (bus thermometer) address wire = (none, listening (devicesOf wire)) := by
  have hread := readScratchPad_absent h
  have hfails : ((readScratchPad (bus thermometer) address wire).1 &&
      crc8 ((readScratchPad (bus thermometer) address wire).2.1.take 8) ==
        (readScratchPad (bus thermometer) address wire).2.1.getD 8 0) = false := by
    rw [hread]
    cases wire with
    | nil => rfl
    | cons first rest =>
      have hones : (crc8 ((List.replicate 9 0xFF).take 8) == (List.replicate 9 0xFF).getD 8 0) =
          false := by decide +kernel
      rw [Bool.and_eq_false_iff]
      exact Or.inr hones
  rw [DallasTemperature.isConnected, if_neg (Bool.eq_false_iff.mp hfails), hread]

theorem Has.devices_set (h : Has wire before device after) (memory : Registers) :
    Has (listening (before ++ { device with memory } :: after)) before { device with memory }
      after :=
  ⟨devicesOf_listening _, h.unique⟩

/-- What `writeScratchPad` leaves in the registers of a device. -/
def written (registers : Registers) (scratchPad : List (BitVec 8)) : Registers :=
  { registers with
    alarmHigh := scratchPad.getD 2 0
    alarmLow := scratchPad.getD 3 0
    configuration :=
      if registers.configurable then scratchPad.getD 4 0 else registers.configuration }

variable (before after device) in
/-- The device that stores takes a byte. -/
theorem write_storing (index : ℕ) (value : BitVec 8) :
    write (bus thermometer) value
        (waiting before ++ busy device (.storing index []) :: waiting after) =
      waiting before ++ busy { device with memory := device.memory.store index value }
        (if index + 1 < device.memory.stores then .storing (index + 1) [] else .finished) ::
          waiting after := by
  obtain ⟨hquiet, hslots⟩ := storing_slots device index value
  rw [write_alone thermometer (waiting_waiting before) (waiting_waiting after) value hquiet, hslots]

/-- The end of `writeScratchPad` leaves a device as it has stored. -/
theorem Has.copyScratchpad (h : Has wire before device after) (memory : Registers) (task : Task) :
    ((bus thermometer).reset (write (bus thermometer) 0x48 (RomSearch.select (bus thermometer)
      device.rom ((bus thermometer).reset (waiting before ++
        busy { device with memory } task :: waiting after)).2))).2 =
      listening (before ++ { device with memory } :: after) := by
  have hwrite := (h.devices_set memory).write_function 0x48
  rw [reset_eq, devicesOf_listening] at hwrite
  rw [reset_parts]
  dsimp only at hwrite ⊢
  rw [hwrite, perform_copyScratchpad, reset_parts]

/-- A device stores what is written to it, and no other device does. -/
theorem Has.writeScratchPad (h : Has wire before device after)
    (hmodel : device.memory.configurable = decide (device.rom.byte 0 ≠ 0x10))
    (scratchPad : List (BitVec 8)) :
    writeScratchPad (bus thermometer) device.rom scratchPad wire =
      listening (before ++
        { device with memory := written device.memory scratchPad } :: after) := by
  have hstores : ∀ memory : Registers, 0 + 1 < memory.stores := fun memory ↦ by
    rw [Registers.stores]
    split <;> decide
  have hfirst := write_storing before after device 0 (scratchPad.getD 2 0)
  rw [if_pos (hstores _)] at hfirst
  have hsecond := write_storing before after
    { device with memory := device.memory.store 0 (scratchPad.getD 2 0) } 1 (scratchPad.getD 3 0)
  rw [DallasTemperature.writeScratchPad, h.write_function, perform_writeScratchpad, hfirst, hsecond]
  by_cases hfamily : device.rom.byte 0 ≠ 0x10
  · have hconfigurable : device.memory.configurable = true := by
      rw [hmodel, decide_eq_true hfamily]
    have hthree : 1 + 1 < (device.memory.store 0 (scratchPad.getD 2 0)).stores := by
      simp [Registers.store, Registers.stores, hconfigurable]
    rw [if_pos hfamily, if_pos hthree, write_storing, h.copyScratchpad]
    simp [Registers.store, written, hconfigurable]
  · have hconfigurable : device.memory.configurable = false := by
      rw [hmodel, decide_eq_false hfamily]
    rw [if_neg hfamily, h.copyScratchpad]
    simp [Registers.store, written, hconfigurable]

end Sketchbook.OneWire.DallasTemperature
