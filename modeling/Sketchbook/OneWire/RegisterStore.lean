import Sketchbook.OneWire.DallasTemperature

/-!
# A bus of thermometers as a store

What the DallasTemperature library is for can be said without wires: a store maps the address of
each device on the bus to its registers, and the calls look entries up and change them. `perform` is
a call on the wire and `performStore` the same call on a store. On a bus whose devices have
different codes the two give the same answers in every sequence of calls, and the wire holds the
store at the end (`answers_eq`). A call for one address never changes another device, a call for an
address that is not there changes nothing, and none of this depends on what the devices were doing
before. `readScratchPad` alone tells an empty bus from one without the device: the first has no
presence pulse and the second reads as ones.
-/

set_option autoImplicit false
set_option relaxedAutoImplicit false

namespace Sketchbook.OneWire.RegisterStore

open RomSearch SlaveBus DeviceSearch ScratchpadDevice DallasTemperature

/-! ### The store -/

/-- The registers behind each address. -/
abbrev Store := Rom → Option Registers

/-- A call of the library for one address. -/
inductive Call
  | readScratchPad (address : Rom)
  | isConnected (address : Rom)
  | getTemp (address : Rom)
  | getResolution (address : Rom)
  | setResolution (address : Rom) (resolution : ℕ)
  | getUserData (address : Rom)
  | setUserData (address : Rom) (data : BitVec 16)

/-- What a call returns, with the bytes that it has written to the scratchpad of the caller. -/
inductive Answer
  | scratchPad (presence : Bool) (bytes : List (BitVec 8))
  | connected (scratchPad : Option (List (BitVec 8)))
  | raw (temperature : Option (BitVec 16))
  | resolution (bits : ℕ)
  | success (done : Bool)
  | data (value : BitVec 16)
  | nothing
deriving DecidableEq

/-- The resolution that a configuration byte stands for, 0 for none. -/
def resolutionOf (configuration : BitVec 8) : ℕ :=
  if configuration = 0x7F then 12
  else if configuration = 0x5F then 11
  else if configuration = 0x3F then 10
  else if configuration = 0x1F then 9
  else 0

/-- A call on a store. Whether the bus is occupied at all decides what an address reads as that is
not there. -/
def performStore (occupied : Bool) (store : Store) : Call → Answer × Store
  | .readScratchPad address =>
    (match store address with
      | some registers => .scratchPad true registers.scratchpad
      | none => .scratchPad occupied (if occupied then List.replicate 9 0xFF else []), store)
  | .isConnected address => (.connected ((store address).map Registers.scratchpad), store)
  | .getTemp address =>
    (.raw (match store address with
      | some registers => calculateTemperature address registers.scratchpad
      | none => some disconnectedRaw), store)
  | .getResolution address =>
    (.resolution (if address.byte 0 = 0x10 then 12
      else match store address with
        | some registers => resolutionOf registers.configuration
        | none => 0), store)
  | .setResolution address resolution =>
    match store address with
    | some registers =>
      (.success true, if address.byte 0 = 0x10 then store
        else Function.update store address
          (some { registers with configuration := configurationOf resolution }))
    | none => (.success false, store)
  | .getUserData address =>
    (.data (match store address with
      | some registers => registers.alarmHigh.setWidth 16 <<< 8 + registers.alarmLow.setWidth 16
      | none => 0), store)
  | .setUserData address data =>
    (.nothing, match store address with
      | some registers => Function.update store address (some { registers with
          alarmHigh := (data >>> 8).setWidth 8
          alarmLow := (data &&& 255).setWidth 8 })
      | none => store)

/-- A call on a wire. -/
def perform {Wire : Type*} (bus : Bus Wire) (wire : Wire) : Call → Answer × Wire
  | .readScratchPad address =>
    let result := readScratchPad bus address wire
    (.scratchPad result.1 result.2.1, result.2.2)
  | .isConnected address => ((isConnected bus address wire).map .connected id)
  | .getTemp address => ((getTemp bus address wire).map .raw id)
  | .getResolution address => ((getResolution bus address wire).map .resolution id)
  | .setResolution address resolution =>
    ((setResolution bus address resolution wire).map .success id)
  | .getUserData address => ((getUserData bus address wire).map .data id)
  | .setUserData address data => (.nothing, setUserData bus address data wire)

/-- The answers of a sequence of calls, and what they leave. -/
def performAll {State : Type*} (perform : State → Call → Answer × State) (state : State) :
    List Call → List Answer × State
  | [] => ([], state)
  | call :: rest =>
    let first := perform state call
    let later := performAll perform first.2 rest
    (first.1 :: later.1, later.2)

/-! ### The store of a wire -/

/-- Devices with different codes, each with the registers of its family. -/
structure Proper (wire : List Thermometer) : Prop where
  distinct : ((devicesOf wire).map Device.rom).Nodup
  model : ∀ device ∈ devicesOf wire,
    device.memory.configurable = decide (device.rom.byte 0 ≠ 0x10)

/-- The registers that the devices on a wire hold. -/
def contents (wire : List Thermometer) : Store := fun address ↦
  ((devicesOf wire).find? (·.rom = address)).map Device.memory

/-- Whether there is a device on a wire. -/
def occupied (wire : List Thermometer) : Bool := !wire.isEmpty

variable {wire : List Thermometer} {before after : List (Device Registers)}
  {device : Device Registers} {address : Rom}

theorem contents_congr {other : List Thermometer} (h : devicesOf other = devicesOf wire) :
    contents other = contents wire := by
  funext address
  rw [contents, contents, h]

theorem Proper.congr {other : List Thermometer} (h : devicesOf other = devicesOf wire)
    (hproper : Proper wire) : Proper other :=
  ⟨h ▸ hproper.distinct, h ▸ hproper.model⟩

theorem contents_has (h : Has wire before device after) :
    contents wire device.rom = some device.memory := by
  have hbefore : before.find? (·.rom = device.rom) = none := by
    rw [List.find?_eq_none]
    intro other hother
    simpa using h.unique other (List.mem_append_left _ hother)
  rw [contents, h.devices, List.find?_append, hbefore, Option.none_or,
    List.find?_cons_of_pos (by simp)]
  rfl

/-- Where the codes are different, a device on the bus is the only one with its code. -/
theorem exists_has (hdistinct : ((devicesOf wire).map Device.rom).Nodup)
    (haddress : ∃ device ∈ devicesOf wire, device.rom = address) :
    ∃ before device after, Has wire before device after ∧ device.rom = address := by
  obtain ⟨device, hdevice, rfl⟩ := haddress
  obtain ⟨before, after, hdevices⟩ := List.append_of_mem hdevice
  refine ⟨before, device, after, ⟨hdevices, fun other hother hrom ↦ ?_⟩, rfl⟩
  rw [hdevices, List.map_append, List.map_cons, List.nodup_middle, List.nodup_cons,
    ← List.map_append] at hdistinct
  exact hdistinct.1 (hrom ▸ List.mem_map_of_mem hother)

/-- An address is that of one device on the bus, or of none. -/
theorem Proper.has_or_absent (hproper : Proper wire) (address : Rom) :
    (∃ before device after, Has wire before device after ∧ device.rom = address) ∨
      ((∀ device ∈ devicesOf wire, device.rom ≠ address) ∧ contents wire address = none) := by
  by_cases h : ∃ device ∈ devicesOf wire, device.rom = address
  · exact Or.inl (exists_has hproper.distinct h)
  · push Not at h
    refine Or.inr ⟨h, ?_⟩
    have hnone : (devicesOf wire).find? (·.rom = address) = none := by
      rw [List.find?_eq_none]
      intro other hother
      simpa using h other hother
    rw [contents, hnone]
    rfl

/-- Changing the registers of one device changes one entry. -/
theorem contents_set (h : Has wire before device after) (memory : Registers) :
    contents (listening (before ++ { device with memory } :: after)) =
      Function.update (contents wire) device.rom (some memory) := by
  funext address
  by_cases hrom : address = device.rom
  · subst hrom
    rw [Function.update_self]
    exact contents_has (h.devices_set memory)
  · rw [Function.update_of_ne hrom, contents, contents, devicesOf_listening, h.devices,
      List.find?_append, List.find?_append, List.find?_cons_of_neg (by simpa using Ne.symm hrom),
      List.find?_cons_of_neg (by simpa using Ne.symm hrom)]

theorem Proper.set (hproper : Proper wire) (h : Has wire before device after) {memory : Registers}
    (hmodel : memory.configurable = device.memory.configurable) :
    Proper (listening (before ++ { device with memory } :: after)) := by
  refine ⟨?_, ?_⟩
  · have hdistinct := hproper.distinct
    rw [h.devices, List.map_append, List.map_cons] at hdistinct
    rw [devicesOf_listening, List.map_append, List.map_cons]
    exact hdistinct
  · intro other hother
    rw [devicesOf_listening] at hother
    rcases List.mem_append.mp hother with hmem | hmem
    · exact hproper.model other (h.devices ▸ List.mem_append_left _ hmem)
    · rcases List.mem_cons.mp hmem with rfl | hmem
      · have hmemory := hproper.model device
          (h.devices ▸ List.mem_append_right _ List.mem_cons_self)
        exact hmodel.trans hmemory
      · exact hproper.model other
          (h.devices ▸ List.mem_append_right _ (List.mem_cons_of_mem _ hmem))

/-! ### The calls -/

/-- What `isConnected` says in terms of the store. -/
theorem isConnected_eq (hproper : Proper wire) (address : Rom) :
    isConnected (bus thermometer) address wire =
      ((contents wire address).map Registers.scratchpad, listening (devicesOf wire)) := by
  rcases hproper.has_or_absent address with ⟨before, device, after, h, rfl⟩ | ⟨habsent, hnone⟩
  · rw [h.isConnected, contents_has h]
    rfl
  · rw [isConnected_absent habsent, hnone]
    rfl

theorem contents_listening (wire : List Thermometer) :
    contents (listening (devicesOf wire)) = contents wire :=
  contents_congr (devicesOf_listening _)

theorem Proper.listening (hproper : Proper wire) : Proper (listening (devicesOf wire)) :=
  hproper.congr (devicesOf_listening _)

theorem occupied_listening (wire : List Thermometer) :
    occupied (listening (devicesOf wire)) = occupied wire := by
  cases wire <;> rfl

/-- What `readScratchPad` says in terms of the store. -/
theorem readScratchPad_eq (hproper : Proper wire) (address : Rom) :
    readScratchPad (bus thermometer) address wire =
      match contents wire address with
      | some registers => (true, registers.scratchpad, listening (devicesOf wire))
      | none => (occupied wire, if occupied wire then List.replicate 9 0xFF else [],
          listening (devicesOf wire)) := by
  rcases hproper.has_or_absent address with ⟨before, device, after, h, rfl⟩ | ⟨habsent, hnone⟩
  · rw [h.readScratchPad, contents_has h]
  · rw [readScratchPad_absent habsent, hnone]
    cases wire <;> rfl

/-- What a call leaves on a wire: the store of the call, on a bus that is as occupied as before. -/
structure Leaves (wire other : List Thermometer) (store : Store) : Prop where
  contents : contents other = store
  proper : Proper other
  occupied : occupied other = occupied wire

/-- Calls that write nothing leave the devices as they are. -/
theorem Proper.leaves_listening (hproper : Proper wire) :
    Leaves wire (DallasTemperature.listening (devicesOf wire)) (contents wire) :=
  ⟨contents_listening wire, hproper.listening, occupied_listening wire⟩

/-- Storing registers of a device on a wire that a transaction has left. -/
theorem writeScratchPad_leaves (hproper : Proper wire) (h : Has wire before device after)
    (scratchPad : List (BitVec 8)) :
    Leaves wire (writeScratchPad (bus thermometer) device.rom scratchPad
        (listening (devicesOf wire)))
      (Function.update (contents wire) device.rom (some (written device.memory scratchPad))) := by
  have hagain : Has (DallasTemperature.listening (devicesOf wire)) before device after :=
    ⟨(devicesOf_listening _).trans h.devices, h.unique⟩
  have hmodel := hproper.model device (h.devices ▸ List.mem_append_right _ List.mem_cons_self)
  rw [hagain.writeScratchPad hmodel]
  refine ⟨contents_set h _, hproper.set h rfl, ?_⟩
  have hdevices := h.devices
  cases wire with
  | nil => exact absurd hdevices.symm (List.append_ne_nil_of_right_ne_nil _ (List.cons_ne_nil _ _))
  | cons first rest => cases before <;> rfl

/-- What `setResolution` writes changes the configuration only. -/
theorem written_configuration {registers : Registers} (h : registers.configurable = true)
    (configuration : BitVec 8) :
    written registers (registers.scratchpad.set 4 configuration) =
      { registers with configuration } := by
  rw [written, if_pos h]
  rfl

/-- What `setUserData` writes changes the alarm registers only. -/
theorem written_alarms (registers : Registers) (high low : BitVec 8) :
    written registers ((registers.scratchpad.set 2 high).set 3 low) =
      { registers with alarmHigh := high, alarmLow := low } := by
  have hconfiguration : (if registers.configurable then registers.configuration
      else registers.configuration) = registers.configuration := ite_self _
  exact congrArg (fun configuration ↦
    { registers with alarmHigh := high, alarmLow := low, configuration }) hconfiguration

/-- A call on a wire does what the call on the store does. -/
structure Matches (wire : List Thermometer) (call : Call) : Prop where
  answer : (perform (bus thermometer) wire call).1 =
    (performStore (occupied wire) (contents wire) call).1
  leaves : Leaves wire (perform (bus thermometer) wire call).2
    (performStore (occupied wire) (contents wire) call).2

theorem Matches.of_eq {call : Call} {answer : Answer} {other : List Thermometer} {store : Store}
    (hwire : perform (bus thermometer) wire call = (answer, other))
    (hstore : performStore (occupied wire) (contents wire) call = (answer, store))
    (hleaves : Leaves wire other store) : Matches wire call := by
  constructor
  · rw [hwire, hstore]
  · rw [hwire, hstore]
    exact hleaves

theorem setResolution_matches (hproper : Proper wire) (address : Rom) (resolution : ℕ) :
    Matches wire (.setResolution address resolution) := by
  have hconnected := isConnected_eq hproper address
  rcases hproper.has_or_absent address with ⟨before, device, after, h, rfl⟩ | ⟨-, hnone⟩
  · have hleaves := writeScratchPad_leaves hproper h
      (device.memory.scratchpad.set 4 (configurationOf resolution))
    have hmodel := hproper.model device (h.devices ▸ List.mem_append_right _ List.mem_cons_self)
    rw [contents_has h, Option.map_some] at hconnected
    by_cases hfamily : device.rom.byte 0 = 0x10
    · have hwire : perform (bus thermometer) wire (.setResolution device.rom resolution) =
          (.success true, listening (devicesOf wire)) := by
        rw [perform, setResolution, hconnected]
        dsimp only
        rw [if_neg (not_not_intro hfamily)]
        rfl
      have hstore : performStore (occupied wire) (contents wire)
          (.setResolution device.rom resolution) = (.success true, contents wire) := by
        rw [performStore, contents_has h]
        dsimp only
        rw [if_pos hfamily]
      exact .of_eq hwire hstore hproper.leaves_listening
    · rw [decide_eq_true hfamily] at hmodel
      rw [written_configuration hmodel] at hleaves
      have hwire : perform (bus thermometer) wire (.setResolution device.rom resolution) =
          (.success true, writeScratchPad (bus thermometer) device.rom
            (device.memory.scratchpad.set 4 (configurationOf resolution))
              (listening (devicesOf wire))) := by
        rw [perform, setResolution, hconnected]
        dsimp only
        rw [if_pos hfamily]
        rfl
      have hstore : performStore (occupied wire) (contents wire)
          (.setResolution device.rom resolution) =
            (.success true, Function.update (contents wire) device.rom
              (some { device.memory with configuration := configurationOf resolution })) := by
        rw [performStore, contents_has h]
        dsimp only
        rw [if_neg hfamily]
      exact .of_eq hwire hstore hleaves
  · rw [hnone] at hconnected
    have hwire : perform (bus thermometer) wire (.setResolution address resolution) =
        (.success false, listening (devicesOf wire)) := by
      rw [perform, setResolution, hconnected]
      rfl
    have hstore : performStore (occupied wire) (contents wire)
        (.setResolution address resolution) = (.success false, contents wire) := by
      rw [performStore, hnone]
    exact .of_eq hwire hstore hproper.leaves_listening

theorem setUserData_matches (hproper : Proper wire) (address : Rom) (data : BitVec 16) :
    Matches wire (.setUserData address data) := by
  have hconnected := isConnected_eq hproper address
  rcases hproper.has_or_absent address with ⟨before, device, after, h, rfl⟩ | ⟨-, hnone⟩
  · have hleaves := writeScratchPad_leaves hproper h
      ((device.memory.scratchpad.set 2 ((data >>> 8).setWidth 8)).set 3
        ((data &&& 255).setWidth 8))
    rw [contents_has h, Option.map_some] at hconnected
    rw [written_alarms] at hleaves
    have hwire : perform (bus thermometer) wire (.setUserData device.rom data) =
        (.nothing, writeScratchPad (bus thermometer) device.rom
          ((device.memory.scratchpad.set 2 ((data >>> 8).setWidth 8)).set 3
            ((data &&& 255).setWidth 8)) (listening (devicesOf wire))) := by
      rw [perform, setUserData, hconnected]
    have hstore : performStore (occupied wire) (contents wire) (.setUserData device.rom data) =
        (.nothing, Function.update (contents wire) device.rom (some { device.memory with
          alarmHigh := (data >>> 8).setWidth 8
          alarmLow := (data &&& 255).setWidth 8 })) := by
      rw [performStore, contents_has h]
    exact .of_eq hwire hstore hleaves
  · rw [hnone] at hconnected
    have hwire : perform (bus thermometer) wire (.setUserData address data) =
        (.nothing, listening (devicesOf wire)) := by
      rw [perform, setUserData, hconnected]
      rfl
    have hstore : performStore (occupied wire) (contents wire) (.setUserData address data) =
        (.nothing, contents wire) := by
      rw [performStore, hnone]
    exact .of_eq hwire hstore hproper.leaves_listening

/-- A call on the wire gives the answer of the store, and the wire holds the store of that call. -/
theorem perform_matches (hproper : Proper wire) (call : Call) : Matches wire call := by
  have hsame := hproper.leaves_listening
  cases call with
  | readScratchPad address =>
    constructor <;> rw [perform, performStore, readScratchPad_eq hproper]
    · cases contents wire address <;> rfl
    · cases contents wire address <;> exact hsame
  | isConnected address =>
    constructor <;> rw [perform, performStore, isConnected_eq hproper]
    · rfl
    · exact hsame
  | getTemp address =>
    constructor <;> rw [perform, performStore, getTemp, isConnected_eq hproper]
    · cases contents wire address <;> rfl
    · cases contents wire address <;> exact hsame
  | getResolution address =>
    by_cases hfamily : address.byte 0 = 0x10
    · constructor <;> rw [perform, performStore, getResolution, if_pos hfamily]
      · rw [if_pos hfamily]
        rfl
      · exact ⟨rfl, hproper, rfl⟩
    · constructor <;>
        rw [perform, performStore, getResolution, if_neg hfamily, isConnected_eq hproper]
      · rw [if_neg hfamily]
        cases contents wire address <;> rfl
      · cases contents wire address <;> exact hsame
  | getUserData address =>
    constructor <;> rw [perform, performStore, getUserData, isConnected_eq hproper]
    · cases contents wire address <;> rfl
    · cases contents wire address <;> exact hsame
  | setResolution address resolution => exact setResolution_matches hproper address resolution
  | setUserData address data => exact setUserData_matches hproper address data

/-- The library on a bus is the store: the same answers in every sequence of calls, and the same
registers behind it. -/
theorem answers_eq (hproper : Proper wire) (calls : List Call) :
    (performAll (perform (bus thermometer)) wire calls).1 =
        (performAll (performStore (occupied wire)) (contents wire) calls).1 ∧
      contents (performAll (perform (bus thermometer)) wire calls).2 =
        (performAll (performStore (occupied wire)) (contents wire) calls).2 := by
  induction calls generalizing wire with
  | nil => exact ⟨rfl, rfl⟩
  | cons call rest ih =>
    obtain ⟨hanswer, hcontents, hnext, hoccupied⟩ := perform_matches hproper call
    obtain ⟨hanswers, hlast⟩ := ih hnext
    rw [hoccupied] at hanswers hlast
    rw [performAll, performAll, ← hanswer, ← hcontents]
    exact ⟨congrArg _ hanswers, hlast⟩

/-- The registers of a thermometer after power on: 85 degrees, with 12 bits. -/
def powerOnRegisters (configurable : Bool) : Registers where
  temperatureLow := 0x50
  temperatureHigh := 0x05
  alarmHigh := 0x4B
  alarmLow := 0x46
  configuration := 0x7F
  internal := 0xFF
  countRemain := 0x0C
  countPerC := 0x10
  configurable := configurable
  parasite := false

/-- Three thermometers, one of them a DS18S20. -/
def threeThermometers : List Thermometer :=
  [(codeOf 0x28 1 0x29, true), (codeOf 0x10 1 0xCC, false), (codeOf 0x28 2 0x70, true)].map
    fun thermometer ↦ ⟨⟨thermometer.1, false, powerOnRegisters thermometer.2⟩, .idle⟩

/-- Calls for two of the thermometers, and for one that is not there. -/
def someCalls : List Call :=
  [.getResolution (codeOf 0x28 1 0x29), .setResolution (codeOf 0x28 1 0x29) 9,
    .setUserData (codeOf 0x10 1 0xCC) 0x1234, .getResolution (codeOf 0x28 1 0x29),
    .getUserData (codeOf 0x10 1 0xCC), .getTemp (codeOf 0x28 3 0x47),
    .readScratchPad (codeOf 0x10 1 0xCC), .isConnected (codeOf 0x28 3 0x47)]

theorem proper_threeThermometers : Proper threeThermometers :=
  ⟨by decide +kernel, by decide +kernel⟩

theorem answers_eq_threeThermometers :
    (performAll (perform (bus thermometer)) threeThermometers someCalls).1 =
      [.resolution 12, .success true, .nothing, .resolution 9, .data 0x1234,
        .raw (some disconnectedRaw),
        .scratchPad true [0x50, 0x05, 0x12, 0x34, 0x7F, 0xFF, 0x0C, 0x10, 0x4A],
        .connected none] := by
  rw [(answers_eq proper_threeThermometers someCalls).1]
  decide +kernel

end Sketchbook.OneWire.RegisterStore
