import Mathlib.Data.BitVec
import Mathlib.Tactic.Ring
import Mathlib.Tactic.SplitIfs
import Sketchbook.OneWire.BusSurvey

/-!
# Reading thermometers in sketch_feb03a

Whenever sketch_feb03a has received a frame, its `loop` makes one step on the one-wire bus as well.
It searches for the next device, starts a conversion, waits, reads the scratchpad, and turns two of
its bytes into a temperature with 16 steps for a degree. When no device is left it starts the search
again. So the passes go round the devices on the bus, one pass without a reading after each round,
and every reading is what the device in turn has measured during the delay of that pass
(`readings_eq`). The registers that no conversion writes, such as the configuration, stay what they
were before the first pass.

The DallasTemperature library turns the same bytes into a temperature with 128 steps for a degree.
It differs from eight steps for each of the sketch (`difference`). For a DS18B20 both agree up to
the bits that the resolution leaves undefined, which the library keeps. For a DS18S20 with the usual
count of 16 per degree the library comes out an eighth of a degree higher: it takes off 16 where the
quarter of a degree of the formula is 32. With another count the sketch leaves the counts out and
keeps the half of a degree, and with a count of zero the library divides by it.
-/

set_option autoImplicit false
set_option relaxedAutoImplicit false

namespace Sketchbook.OneWire.ThermometerSketch

open Foundation.SortedRound RomSearch SlaveBus DeviceSearch DeviceEnumeration
open ScratchpadDevice DallasTemperature RegisterStore BusSurvey

/-! ### The sketch -/

/-- The two bytes of the temperature. -/
def temperatureWord (data : List (BitVec 8)) : BitVec 16 :=
  (data.getD 1 0).setWidth 16 <<< 8 ||| (data.getD 0 0).setWidth 16

/-- `raw` from the bytes of the scratchpad. -/
def rawOf (typeS : Bool) (data : List (BitVec 8)) : BitVec 16 :=
  let raw := temperatureWord data
  if typeS then
    let raw := raw <<< 3
    if data.getD 7 0 = 0x10 then (raw &&& 0xFFF0) + 12 - (data.getD 6 0).setWidth 16 else raw
  else
    let cfg := data.getD 4 0 &&& 0x60
    if cfg = 0x00 then raw &&& ~~~7
    else if cfg = 0x20 then raw &&& ~~~3
    else if cfg = 0x40 then raw &&& ~~~1
    else raw

/-- `type_s` from the first byte of an address, if the device is a thermometer of a known family. -/
def typeOf (address : Rom) : Option Bool :=
  if address.byte 0 = 0x10 then some true
  else if address.byte 0 = 0x28 then some false
  else if address.byte 0 = 0x22 then some false
  else none

/-- A device and its reading, if the device is a thermometer of a known family. -/
abbrev Reading := Rom × Option (BitVec 16)

/-- The part of `loop` behind a received frame: the reading, if a device was found. `during` is what
happens to the wire during the delay. -/
def pass {Wire : Type*} (bus : Bus Wire) (during : Wire → Wire) (state : Search) (wire : Wire) :
    Option Reading × Search × Wire :=
  match search bus true state wire with
  | (none, state, wire) => (none, resetSearch state, wire)
  | (some address, state, wire) =>
    match typeOf address with
    | none => (some (address, none), state, wire)
    | some typeS =>
      let wire := during (write bus 0x44 (select bus address (bus.reset wire).2))
      let data := readBytes bus 9 (write bus 0xBE (select bus address (bus.reset wire).2))
      (some (address, some (rawOf typeS data.1)), state, data.2)

/-- The passes of the loop, with what happens during the delay of each. -/
def passes {Wire : Type*} (bus : Bus Wire) (state : Search) (wire : Wire) :
    List (Wire → Wire) → List (Option Reading)
  | [] => []
  | during :: rest =>
    let result := pass bus during state wire
    result.1 :: passes bus result.2.1 result.2.2 rest

/-! ### What a pass leaves alone -/

/-- A delay in which the devices that convert have measured. -/
def measure (measured : Rom → Measurement) (wire : List Thermometer) : List Thermometer :=
  wire.map (Slave.measure measured)

/-- The codes on a wire, and the registers without what a conversion writes. -/
def settings (wire : List Thermometer) : List (Rom × Registers) :=
  (devicesOf wire).map fun device ↦ (device.rom, device.memory.measured ⟨0, 0, 0, 0, false⟩)

variable {wire other : List Thermometer} {before after : List (Device Registers)}
  {device : Device Registers} {address : Rom}

theorem settings_congr (h : devicesOf other = devicesOf wire) : settings other = settings wire := by
  rw [settings, settings, h]

theorem roms_of_settings (h : settings other = settings wire) :
    (devicesOf other).map Device.rom = (devicesOf wire).map Device.rom := by
  have hroms := congrArg (List.map Prod.fst) h
  rw [settings, settings, List.map_map, List.map_map] at hroms
  exact hroms

theorem found_of_settings (h : settings other = settings wire) : found other = found wire := by
  have hpresent (wire : List Thermometer) :
      present true (wire.map badge) = (devicesOf wire).map Device.rom := by
    have hall : ((wire.map badge).filter fun badge ↦ true || badge.2) = wire.map badge :=
      List.filter_eq_self.mpr fun _ _ ↦ rfl
    rw [present, hall, badges_eq, List.map_map]
    rfl
  rw [found, found, inOrder, inOrder, hpresent, hpresent, roms_of_settings h]

/-- Behind a conversion the registers depend on the settings only. -/
theorem contents_of_settings (h : settings other = settings wire) (address : Rom)
    (measurement : Measurement) :
    (contents other address).map (·.measured measurement) =
      (contents wire address).map (·.measured measurement) := by
  have hcontents (wire : List Thermometer) : (contents wire address).map (·.measured measurement) =
      ((settings wire).find? (·.1 = address)).map (·.2.measured measurement) := by
    rw [contents, settings, List.find?_map, Option.map_map, Option.map_map]
    rfl
  rw [hcontents, hcontents, h]

/-- Exactly the device that has been told to convert measures during a delay. -/
theorem measure_convert (h : Has wire before device after) (measured : Rom → Measurement) :
    measure measured (write (bus thermometer) 0x44
        (select (bus thermometer) device.rom ((bus thermometer).reset wire).2)) =
      waiting before ++ busy (converted measured device) .finished :: waiting after := by
  have hidle (devices : List (Device Registers)) : measure measured (waiting devices) =
      waiting devices := by
    rw [measure, waiting, List.map_map]
    rfl
  have hbusy : Slave.measure measured (busy device .converting) =
      busy (converted measured device) .finished := rfl
  rw [h.write_function, perform_convert, measure, List.map_append, List.map_cons, hbusy, ← measure,
    ← measure, hidle, hidle]

/-- The transactions of a pass get what the device has measured during the delay, and leave the
settings of all devices alone. -/
theorem readBytes_measured (h : Has wire before device after) (measured : Rom → Measurement) :
    ∃ later, readBytes (bus thermometer) 9 (write (bus thermometer) 0xBE
        (select (bus thermometer) device.rom ((bus thermometer).reset
          (measure measured (write (bus thermometer) 0x44
            (select (bus thermometer) device.rom ((bus thermometer).reset wire).2)))).2)) =
      ((device.memory.measured (measured device.rom)).scratchpad, later) ∧
        settings later = settings wire := by
  have hmeasured := measure_convert h measured
  have hagain : Has (measure measured (write (bus thermometer) 0x44
      (select (bus thermometer) device.rom ((bus thermometer).reset wire).2))) before
        (converted measured device) after := by
    rw [hmeasured]
    exact ⟨devicesOf_parts before after _ _, h.unique⟩
  refine ⟨_, readBytes_has hagain, ?_⟩
  rw [settings, settings, devicesOf_parts, h.devices, List.map_append, List.map_append,
    List.map_cons, List.map_cons]
  rfl

/-! ### The readings -/

/-- The reading of a device with a code: what it has measured, with the settings of a store. -/
def readingOf (store : Store) (measured : Rom → Measurement) (address : Rom) : Reading :=
  (address, (typeOf address).bind fun typeS ↦ (store address).map fun registers ↦
    rawOf typeS (registers.measured (measured address)).scratchpad)

theorem readingOf_of_settings (h : settings other = settings wire)
    (measured : Rom → Measurement) :
    readingOf (contents other) measured = readingOf (contents wire) measured := by
  funext address
  have hreading (wire : List Thermometer) (typeS : Bool) :
      (contents wire address).map (fun registers ↦
          rawOf typeS (registers.measured (measured address)).scratchpad) =
        ((contents wire address).map (·.measured (measured address))).map fun registers ↦
          rawOf typeS registers.scratchpad := by
    rw [Option.map_map]
    rfl
  rw [readingOf, readingOf]
  cases typeOf address with
  | none => rfl
  | some typeS =>
    rw [Option.bind_some, Option.bind_some, hreading, hreading,
      contents_of_settings h address (measured address)]

/-- One pass gives the reading of the device that is due, and the next device becomes due. -/
theorem pass_eq {index : ℕ} {state : Search} (measured : Rom → Measurement)
    (hdistinct : ((devicesOf wire).map Device.rom).Nodup)
    (hfamily : ∀ rom ∈ found wire, rom.byte 0 ≠ 0) (hdue : DueAt wire index state) :
    (pass (bus thermometer) (measure measured) state wire).1 =
        ((found wire)[index]?).map (readingOf (contents wire) measured) ∧
      settings (pass (bus thermometer) (measure measured) state wire).2.2 = settings wire ∧
      DueAt wire ((index + 1) % ((found wire).length + 1))
        (pass (bus thermometer) (measure measured) state wire).2.1 := by
  obtain ⟨hreturned, hnext⟩ := search_dueAt hfamily hdue
  have hdevices := devicesOf_search state wire
  rw [pass]
  generalize search (bus thermometer) true state wire = result at hreturned hnext hdevices
  obtain ⟨answer, next, other⟩ := result
  dsimp only at hreturned hnext hdevices
  have hsettings := settings_congr hdevices
  rcases Nat.lt_or_ge index (found wire).length with hlt | hge
  · have hdueNext := (hnext hlt).congr (found_congr hdevices).symm
    have hdevice := exists_device_of_mem_found (List.getElem_mem hlt)
    rw [List.getElem?_eq_getElem hlt] at hreturned ⊢
    subst hreturned
    rw [Nat.mod_eq_of_lt (Nat.succ_lt_succ hlt), ← contents_congr hdevices]
    rw [← hdevices] at hdevice hdistinct
    generalize (found wire)[index] = address at hdevice ⊢
    dsimp only
    rw [Option.map_some, readingOf]
    cases htype : typeOf address with
    | none => exact ⟨rfl, hsettings, hdueNext⟩
    | some typeS =>
      obtain ⟨before, device, after, h, rfl⟩ := exists_has hdistinct hdevice
      obtain ⟨later, hdata, hlater⟩ := readBytes_measured h measured
      dsimp only
      rw [hdata, contents_has h]
      exact ⟨rfl, hlater.trans hsettings, hdueNext⟩
  · have hend : index = (found wire).length := by
      have hrange := hdue.1
      rw [length_round] at hrange
      exact Nat.le_antisymm (Nat.le_of_lt_succ hrange) hge
    rw [List.getElem?_eq_none hge] at hreturned ⊢
    subst hreturned
    rw [hend, Nat.mod_self]
    exact ⟨rfl, hsettings, dueAt_resetSearch wire next⟩

/-- The passes go round the devices on the bus: each pass gives the reading of the device in turn,
which has measured during its delay, and after each round there is one pass without a reading. -/
theorem readings_eq (hdistinct : ((devicesOf wire).map Device.rom).Nodup)
    (hfamily : ∀ rom ∈ found wire, rom.byte 0 ≠ 0) (state : Search)
    (measured : List (Rom → Measurement)) {turn : ℕ} (hturn : turn < measured.length) :
    (passes (bus thermometer) (resetSearch state) wire (measured.map measure))[turn]? =
      some (((found wire)[turn % ((found wire).length + 1)]?).map
        (readingOf (contents wire) measured[turn])) := by
  have hgeneral : ∀ (index : ℕ) (state : Search) (other : List Thermometer),
      settings other = settings wire → DueAt other index state →
        ∀ turn (h : turn < measured.length),
          (passes (bus thermometer) state other (measured.map measure))[turn]? =
            some (((found wire)[(index + turn) % ((found wire).length + 1)]?).map
              (readingOf (contents wire) measured[turn])) := by
    clear hturn turn
    induction measured with
    | nil => exact fun _ _ _ _ _ turn h ↦ absurd h (Nat.not_lt_zero turn)
    | cons first rest ih =>
      intro index state other hsettings hdue turn hturn
      have hfound := found_of_settings hsettings
      obtain ⟨hreading, hwire, hnext⟩ := pass_eq first
        ((roms_of_settings hsettings).symm ▸ hdistinct) (hfound ▸ hfamily) hdue
      have hrange := hdue.1
      rw [length_round, hfound] at hrange
      rw [hfound, readingOf_of_settings hsettings] at hreading
      rw [hfound] at hnext
      rw [List.map_cons, passes]
      cases turn with
      | zero =>
        rw [List.getElem?_cons_zero, hreading, Nat.add_zero, Nat.mod_eq_of_lt hrange]
        rfl
      | succ turn =>
        rw [List.getElem?_cons_succ,
          ih _ _ _ (hwire.trans hsettings) (hnext.congr (found_of_settings hwire)) turn
            (Nat.lt_of_succ_lt_succ hturn), Nat.mod_add_mod, Nat.add_right_comm, Nat.add_assoc]
        rfl
  rw [hgeneral 0 (resetSearch state) wire rfl (dueAt_resetSearch wire state) turn hturn,
    Nat.zero_add]

/-- A device that measures a degree more in each turn. -/
def rising (turn : ℕ) : Measurement := ⟨BitVec.ofNat 8 (16 * turn), 0, 0x0C, 0x10, false⟩

theorem readings_eq_threeThermometers :
    (passes (bus thermometer) (resetSearch ⟨.zero, 0, 0, false⟩) threeThermometers
        (((List.range 6).map fun turn (_ : Rom) ↦ rising turn).map measure))[5]? =
      some (((found threeThermometers)[5 % ((found threeThermometers).length + 1)]?).map
        (readingOf (contents threeThermometers) fun _ ↦ rising 5)) :=
  readings_eq (by decide +kernel) family_threeThermometers ⟨.zero, 0, 0, false⟩
    ((List.range 6).map fun turn _ ↦ rising turn) (by decide)

/-! ### The temperature of the library -/

/-- The bits of the temperature of a DS18B20 that its resolution leaves undefined. -/
def undefinedBits (data : List (BitVec 8)) : BitVec 16 :=
  let cfg := data.getD 4 0 &&& 0x60
  if cfg = 0x00 then 7
  else if cfg = 0x20 then 3
  else if cfg = 0x40 then 1
  else 0

theorem rawOf_false (data : List (BitVec 8)) :
    rawOf false data = temperatureWord data &&& ~~~undefinedBits data := by
  have hall : temperatureWord data &&& ~~~0 = temperatureWord data := BitVec.and_allOnes
  rw [rawOf, undefinedBits]
  dsimp only
  rw [if_neg Bool.false_ne_true]
  split_ifs
  · rfl
  · rfl
  · rfl
  · exact hall.symm

/-- A DS18S20 that counts 16 steps for a degree. -/
theorem rawOf_sixteen {data : List (BitVec 8)} (hcount : data.getD 7 0 = 0x10) :
    rawOf true data = (temperatureWord data <<< 3 &&& (0xFFF0 : BitVec 16)) + 12 -
      (data.getD 6 0).setWidth 16 := by
  rw [rawOf, if_pos rfl]
  exact if_pos hcount

/-- With another count the sketch leaves the counts out. -/
theorem rawOf_otherCount {data : List (BitVec 8)} (hcount : data.getD 7 0 ≠ 0x10) :
    rawOf true data = temperatureWord data <<< 3 := by
  rw [rawOf, if_pos rfl]
  exact if_neg hcount

/-- A word is what a mask keeps of it and what the mask removes. -/
theorem and_not_add_and (word mask : BitVec 16) : (word &&& ~~~mask) + (word &&& mask) = word := by
  have hdisjoint : (word &&& ~~~mask) &&& (word &&& mask) = 0 := by
    rw [BitVec.and_comm word mask, BitVec.and_assoc, ← BitVec.and_assoc (~~~mask),
      BitVec.not_and_self]
    exact (congrArg (word &&& ·) BitVec.zero_and).trans BitVec.and_zero
  rw [BitVec.add_eq_or_of_and_eq_zero _ _ hdisjoint, ← BitVec.and_or_distrib_left,
    BitVec.or_comm, BitVec.or_not_self, BitVec.and_allOnes]

/-- The counts of a DS18S20 in 128 steps for a degree. -/
theorem countSteps (remain : BitVec 8) :
    BitVec.ofInt 16 ((((16 : ℕ) - remain.toNat : ℤ) * 128).tdiv (16 : ℕ)) =
      128 - remain.setWidth 16 * 8 := by
  have hsteps : ((16 : ℕ) - remain.toNat : ℤ) * 128 =
      (128 - (remain.toNat : ℤ) * 8) * (16 : ℕ) := by
    push_cast
    ring
  rw [hsteps, Int.mul_tdiv_cancel _ (by decide), Int.sub_eq_add_neg, BitVec.ofInt_add,
    BitVec.ofInt_neg, BitVec.ofInt_mul, BitVec.ofInt_natCast, BitVec.ofNat_toNat,
    ← BitVec.sub_eq_add_neg]
  rfl

theorem shiftLeft_three (word : BitVec 16) : word <<< 3 = word * 8 :=
  BitVec.shiftLeft_eq_mul_twoPow word 3

/-- Taking the lowest bit of a word off in 128 steps for a degree. -/
theorem shiftLeft_and_fff0 (word : BitVec 16) :
    (word <<< 3 &&& (0xFFF0 : BitVec 16)) <<< 3 = word <<< 3 <<< 3 - (word &&& 1) <<< 6 := by
  have hkept : word <<< 3 &&& (0xFFF0 : BitVec 16) = (word &&& ~~~1) <<< 3 := by
    have hmask : (0xFFF0 : BitVec 16) = (~~~1 : BitVec 16) <<< 3 := by decide
    rw [hmask, ← BitVec.shiftLeft_and_distrib]
  have hword := congrArg (fun word : BitVec 16 ↦ word <<< 3 <<< 3) (and_not_add_and word 1)
  rw [hkept, ← hword, BitVec.shiftLeft_add_distrib, BitVec.shiftLeft_add_distrib,
    ← BitVec.shiftLeft_add (word &&& 1) 3 3]
  exact (BitVec.add_sub_cancel _ _).symm

/-- By how much the temperature of the library is above eight steps for each of the sketch; `none`
where the library divides by zero. -/
def difference (typeS : Bool) (data : List (BitVec 8)) : Option (BitVec 16) :=
  if typeS then
    let countPerC : ℤ := (data.getD 7 0).toNat
    let countRemain : ℤ := (data.getD 6 0).toNat
    if countPerC = 0 then none
    else if countPerC = 16 then some 16
    else some (BitVec.ofInt 16 (((countPerC - countRemain) * 128).tdiv countPerC) - 16 -
      (temperatureWord data &&& 1) <<< 6)
  else some ((temperatureWord data &&& undefinedBits data) <<< 3)

theorem typeOf_eq_true {typeS : Bool} (htype : typeOf address = some typeS) :
    address.byte 0 = 0x10 ↔ typeS = true := by
  constructor
  · intro hfamily
    rw [typeOf, if_pos hfamily] at htype
    exact (Option.some.inj htype).symm
  · rintro rfl
    by_contra hother
    rw [typeOf, if_neg hother] at htype
    split_ifs at htype <;> exact Bool.noConfusion (Option.some.inj htype)

/-- The library and the sketch on the same bytes, for every device whose family the sketch knows and
every scratchpad. -/
theorem calculateTemperature_eq {typeS : Bool} (htype : typeOf address = some typeS)
    (data : List (BitVec 8)) :
    calculateTemperature address data =
      (difference typeS data).map (rawOf typeS data <<< 3 + ·) := by
  have hword : (data.getD 1 0).setWidth 16 <<< 11 ||| (data.getD 0 0).setWidth 16 <<< 3 =
      temperatureWord data <<< 3 := by
    rw [temperatureWord, BitVec.shiftLeft_or_distrib, BitVec.shiftLeft_add _ 8 3]
  have hfamily := typeOf_eq_true htype
  rw [calculateTemperature, difference, hword]
  dsimp only
  cases typeS with
  | true =>
    rw [if_pos (hfamily.mpr rfl), if_pos rfl]
    by_cases hzero : ((data.getD 7 0).toNat : ℤ) = 0
    · rw [if_pos hzero, if_pos hzero]
      rfl
    · rw [if_neg hzero, if_neg hzero]
      by_cases hcount : ((data.getD 7 0).toNat : ℤ) = 16
      · have hsixteen : data.getD 7 0 = 0x10 :=
          BitVec.eq_of_toNat_eq (by exact_mod_cast hcount)
        have hsteps := countSteps (data.getD 6 0)
        rw [Nat.cast_ofNat] at hsteps
        rw [if_pos hcount, hcount, Option.map_some, hsteps, rawOf_sixteen hsixteen,
          shiftLeft_three (_ &&& _), shiftLeft_three (_ - _)]
        refine congrArg some ?_
        ring
      · have hother : data.getD 7 0 ≠ 0x10 := by
          intro hsixteen
          rw [hsixteen] at hcount
          exact hcount rfl
        rw [if_neg hcount, Option.map_some, rawOf_otherCount hother, shiftLeft_and_fff0]
        refine congrArg some ?_
        ring
  | false =>
    rw [if_neg fun h ↦ Bool.false_ne_true (hfamily.mp h), if_neg Bool.false_ne_true,
      Option.map_some, rawOf_false, ← BitVec.shiftLeft_add_distrib, and_not_add_and]

theorem calculateTemperature_eq_powerOnRegisters :
    calculateTemperature (codeOf 0x10 1 0xCC) (powerOnRegisters false).scratchpad =
      (difference true (powerOnRegisters false).scratchpad).map
        (rawOf true (powerOnRegisters false).scratchpad <<< 3 + ·) :=
  calculateTemperature_eq (by decide) (powerOnRegisters false).scratchpad

end Sketchbook.OneWire.ThermometerSketch
