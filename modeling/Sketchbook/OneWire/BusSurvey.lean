import Sketchbook.OneWire.RegisterStore

/-!
# What `begin` and `getTempCByIndex` find on a bus

`begin` goes through all devices with `search` and talks to each of them between two calls: it asks
for the power supply, reads the scratchpad and looks at the resolution. None of this disturbs the
search, so it sees every device once, in the order of the codes, and ends. It counts the devices
with a valid address, in a `uint8_t`, notes whether one of them draws its power from the wire, and
takes the highest resolution.

`getAddress` starts a search of its own and stops at an index. The index counts all devices, also
those whose address is not valid, so `getTempCByIndex(0)` is the temperature of the device with the
first code. A device at -55 °C or below reads as one that is not there. The loop counts in a
`uint8_t`. For the index 255 its condition always holds, and behind 256 devices it counts from 0
again; the results are about the indices below.
-/

set_option autoImplicit false
set_option relaxedAutoImplicit false

namespace Sketchbook.OneWire.BusSurvey

open Foundation.SortedRound RomSearch SlaveBus DeviceSearch DeviceEnumeration
open ScratchpadDevice DallasTemperature RegisterStore

/-! ### The functions of the library -/

section Library

variable {Wire : Type*} (bus : Bus Wire)

/-- The fields that `begin` sets. -/
structure Survey where
  devices : BitVec 8
  parasite : Bool
  bitResolution : ℕ
deriving DecidableEq

/-- What `begin` does with an address it has found. -/
def Survey.visit (survey : Survey) (address : Rom) (wire : Wire) : Survey × Wire :=
  if validAddress address then
    let supply :=
      if survey.parasite then (true, wire) else readPowerSupply bus address wire
    let wire := (readScratchPad bus address supply.2).2.2
    let resolution := getResolution bus address wire
    ({ devices := survey.devices + 1
       parasite := supply.1
       bitResolution := max survey.bitResolution resolution.1 }, resolution.2)
  else (survey, wire)

/-- The loop of `begin`, `none` while it is still running. -/
def surveyLoop : ℕ → Search → Survey → Wire → Option (Survey × Search × Wire)
  | 0, _, _, _ => none
  | turns + 1, state, survey, wire =>
    match search bus true state wire with
    | (none, state, wire) => some (survey, state, wire)
    | (some address, state, wire) =>
      let visited := survey.visit bus address wire
      surveyLoop turns state visited.1 visited.2

/-- `begin`, when its loop ends within a number of turns. -/
def beginWithin (turns : ℕ) (state : Search) (survey : Survey) (wire : Wire) :
    Option (Survey × Search × Wire) :=
  surveyLoop bus turns (resetSearch state) { survey with devices := 0 } wire

/-- The loop of `getAddress`, `none` while it is still running. -/
def getAddressLoop (index : BitVec 8) :
    ℕ → BitVec 8 → Search → Wire → Option (Option Rom × Search × Wire)
  | 0, _, _, _ => none
  | turns + 1, depth, state, wire =>
    if depth ≤ index then
      match search bus true state wire with
      | (none, state, wire) => some (none, state, wire)
      | (some address, state, wire) =>
        if depth = index ∧ validAddress address then some (some address, state, wire)
        else getAddressLoop index turns (depth + 1) state wire
    else some (none, state, wire)

/-- `getAddress`, when its loop ends within a number of turns: the address, if the device was
found. -/
def getAddress (turns : ℕ) (index : BitVec 8) (state : Search) (wire : Wire) :
    Option (Option Rom × Search × Wire) :=
  getAddressLoop bus index turns 0 (resetSearch state) wire

/-- `getTempCByIndex`, when the loop of `getAddress` ends within a number of turns. -/
def getTempCByIndex (turns : ℕ) (index : BitVec 8) (state : Search) (wire : Wire) :
    Option (Option ℚ × Search × Wire) :=
  (getAddress bus turns index state wire).map fun
    | (some address, state, wire) =>
      let result := getTempC bus address wire
      (result.1, state, result.2)
    | (none, state, wire) => (some disconnectedC, state, wire)

end Library

/-! ### What the functions leave alone -/

variable {wire : List Thermometer} {before after : List (Device Registers)}
  {device : Device Registers} {address : Rom}

theorem badges_eq (wire : List Thermometer) :
    wire.map badge = (devicesOf wire).map fun device ↦ (device.rom, device.alarm) := by
  rw [devicesOf, List.map_map]
  rfl

/-- A search changes no device. -/
theorem devicesOf_search (state : Search) (wire : List Thermometer) :
    devicesOf (search (bus thermometer) true state wire).2.2 = devicesOf wire := by
  cases hflag : state.lastDeviceFlag with
  | true => rw [search, if_pos hflag]
  | false =>
    cases wire with
    | nil =>
      rw [search, if_neg (Bool.eq_false_iff.mp hflag)]
      rfl
    | cons first rest =>
      obtain ⟨walk, hsearch, -⟩ := search_of_some thermometer true hflag
        ⟨first, List.mem_cons_self, rfl⟩
      rw [hsearch, among, devicesOf, List.map_map]
      rfl

/-- `readPowerSupply` finds whether the device draws its power from the wire. -/
theorem readPowerSupply_eq (h : Has wire before device after) :
    readPowerSupply (bus thermometer) device.rom wire =
      (device.memory.parasite, listening (devicesOf wire)) := by
  obtain ⟨hline, hslot⟩ := Transactions.slot_alone thermometer (waiting_waiting before)
    (waiting_waiting after) true (busy device (.sending [!device.memory.parasite]))
  have hread : (bus thermometer).readBit (waiting before ++
      busy device (.sending [!device.memory.parasite]) :: waiting after) =
        (!device.memory.parasite, waiting before ++ busy device (.sending []) :: waiting after) :=
    Prod.ext hline hslot
  rw [readPowerSupply, h.write_function, perform_readPowerSupply, hread]
  dsimp only
  rw [reset_parts, h.devices, Bool.not_not]

/-- The resolution of a device with a code, as `getResolution` gives it. -/
def resolutionAt (store : Store) (address : Rom) : ℕ :=
  if address.byte 0 = 0x10 then 12
  else match store address with
    | some registers => resolutionOf registers.configuration
    | none => 0

/-- `getResolution` gives the resolution of the device and changes none. -/
theorem getResolution_eq (hproper : Proper wire) (address : Rom) :
    (getResolution (bus thermometer) address wire).1 = resolutionAt (contents wire) address ∧
      devicesOf (getResolution (bus thermometer) address wire).2 = devicesOf wire := by
  constructor
  · exact Answer.resolution.inj (perform_matches hproper (.getResolution address)).answer
  · rw [getResolution]
    split
    · rfl
    · rw [isConnected_eq hproper]
      cases contents wire address <;>
        simp only [Option.map_some, Option.map_none, devicesOf_listening]

/-- What `begin` makes of one device. -/
def Survey.noted (store : Store) (survey : Survey) (address : Rom) : Survey :=
  if validAddress address then
    { devices := survey.devices + 1
      parasite := survey.parasite ||
        match store address with
        | some registers => registers.parasite
        | none => false
      bitResolution := max survey.bitResolution (resolutionAt store address) }
  else survey

/-- A visit notes the device and changes none. -/
theorem visit_eq (hproper : Proper wire) (survey : Survey)
    (haddress : ∃ device ∈ devicesOf wire, device.rom = address) :
    (survey.visit (bus thermometer) address wire).1 = survey.noted (contents wire) address ∧
      devicesOf (survey.visit (bus thermometer) address wire).2 = devicesOf wire := by
  rw [Survey.visit, Survey.noted]
  by_cases hvalid : validAddress address = true
  · rw [if_pos hvalid, if_pos hvalid]
    rcases hproper.has_or_absent address with ⟨before, device, after, h, rfl⟩ | ⟨habsent, -⟩
    · have hsupply : ∃ other, (if survey.parasite then (true, wire)
          else readPowerSupply (bus thermometer) device.rom wire) =
            (survey.parasite || device.memory.parasite, other) ∧
              devicesOf other = devicesOf wire := by
        cases hparasite : survey.parasite with
        | true => exact ⟨wire, rfl, rfl⟩
        | false => exact ⟨_, readPowerSupply_eq h, devicesOf_listening _⟩
      obtain ⟨other, hother, hdevices⟩ := hsupply
      have hhas : Has other before device after := ⟨hdevices.trans h.devices, h.unique⟩
      have hlistening : Proper (listening (devicesOf other)) :=
        (hproper.congr hdevices).listening
      obtain ⟨hanswer, hwire⟩ := getResolution_eq hlistening device.rom
      rw [contents_listening, contents_congr hdevices] at hanswer
      rw [devicesOf_listening] at hwire
      rw [hother]
      dsimp only
      rw [hhas.readScratchPad]
      dsimp only
      rw [hanswer, hwire, hdevices, contents_has h]
      exact ⟨rfl, rfl⟩
    · obtain ⟨device, hdevice, hrom⟩ := haddress
      exact absurd hrom (habsent device hdevice)
  · rw [if_neg hvalid, if_neg hvalid]
    exact ⟨rfl, rfl⟩

/-! ### The loops -/

/-- The codes on the bus, in the order in which a search finds them. -/
noncomputable def found (wire : List Thermometer) : List Rom := inOrder true (wire.map badge)

theorem found_congr {other : List Thermometer} (h : devicesOf other = devicesOf wire) :
    found other = found wire := by
  rw [found, found, badges_eq, badges_eq, h]

theorem exists_device_of_mem_found (haddress : address ∈ found wire) :
    ∃ device ∈ devicesOf wire, device.rom = address := by
  obtain ⟨slave, hslave, -, hbits⟩ := mem_inOrder.mp haddress
  exact ⟨slave.device, List.mem_map_of_mem hslave, bits_injective hbits⟩

/-- The state of a search in which the device with an index is due. -/
def DueAt (wire : List Thermometer) (index : ℕ) (state : Search) : Prop :=
  Due (codes true wire) (found wire) index state

/-- What is due depends on the codes on the bus only. -/
theorem DueAt.congr {other : List Thermometer} {index : ℕ} {state : Search}
    (h : found other = found wire) (hdue : DueAt wire index state) : DueAt other index state := by
  rw [DueAt, codes_of_inOrder h, h]
  exact hdue

theorem dueAt_resetSearch (wire : List Thermometer) (state : Search) :
    DueAt wire 0 (resetSearch state) :=
  ⟨by rw [length_round]; exact Nat.succ_pos _, fresh_resetSearch state⟩

/-- The call that is due returns the device with the index, or ends the round. -/
theorem search_dueAt (hfamily : ∀ rom ∈ found wire, rom.byte 0 ≠ 0) {index : ℕ} {state : Search}
    (hdue : DueAt wire index state) :
    (search (bus thermometer) true state wire).1 = (found wire)[index]? ∧
      (index < (found wire).length → DueAt (search (bus thermometer) true state wire).2.2
        (index + 1) (search (bus thermometer) true state wire).2.1) := by
  obtain ⟨hanswer, hnext⟩ := search_due thermometer true hfamily hdue
  change (round (found wire))[index]? = _ at hanswer
  change DueAt wire ((index + 1) % (round (found wire)).length) _ at hnext
  obtain ⟨hrange, -⟩ := hdue
  rw [length_round] at hrange hnext
  constructor
  · rcases Nat.lt_succ_iff_lt_or_eq.mp hrange with hlt | rfl
    · rw [getElem?_round (List.getElem?_eq_getElem hlt)] at hanswer
      rw [← Option.some.inj hanswer, List.getElem?_eq_getElem hlt]
    · rw [getElem?_round_length] at hanswer
      rw [← Option.some.inj hanswer, List.getElem?_eq_none le_rfl]
  · intro hlt
    rw [Nat.mod_eq_of_lt (Nat.succ_lt_succ hlt)] at hnext
    exact hnext.congr (found_congr (devicesOf_search state wire))

/-- The loop of `begin` from a device on: it visits the rest of the devices and ends. -/
theorem surveyLoop_eq {turns index : ℕ} {state : Search} (survey : Survey) (hproper : Proper wire)
    (hfamily : ∀ rom ∈ found wire, rom.byte 0 ≠ 0) (hdue : DueAt wire index state)
    (hturns : (found wire).length < turns + index) :
    ∃ last other, surveyLoop (bus thermometer) turns state survey wire =
        some (((found wire).drop index).foldl (Survey.noted (contents wire)) survey, last, other) ∧
      devicesOf other = devicesOf wire := by
  induction turns generalizing index state survey wire with
  | zero =>
    have hrange := hdue.1
    rw [length_round] at hrange
    omega
  | succ turns ih =>
    obtain ⟨hreturned, hnext⟩ := search_dueAt hfamily hdue
    have hdevices := devicesOf_search state wire
    rw [surveyLoop]
    generalize search (bus thermometer) true state wire = result at hreturned hnext hdevices
    obtain ⟨answer, next, after⟩ := result
    dsimp only at hreturned hnext hdevices
    rcases Nat.lt_or_ge index (found wire).length with hlt | hge
    · rw [List.getElem?_eq_getElem hlt] at hreturned
      subst hreturned
      have hafter : Proper after := hproper.congr hdevices
      obtain ⟨hsurvey, hvisited⟩ := visit_eq hafter survey
        (hdevices ▸ exists_device_of_mem_found (List.getElem_mem hlt))
      have hsame := hvisited.trans hdevices
      rw [contents_congr hdevices] at hsurvey
      dsimp only
      rw [hsurvey]
      have hfound := found_congr hsame
      have hstill : ∀ rom ∈ found (survey.visit (bus thermometer) (found wire)[index] after).2,
          rom.byte 0 ≠ 0 := by
        rw [hfound]
        exact hfamily
      have hleft : (found (survey.visit (bus thermometer) (found wire)[index] after).2).length <
          turns + (index + 1) := by
        rw [hfound]
        omega
      obtain ⟨last, other, hloop, hother⟩ := ih (survey.noted (contents wire) (found wire)[index])
        (hproper.congr hsame) hstill ((hnext hlt).congr (found_congr hvisited)) hleft
      rw [hfound, contents_congr hsame] at hloop
      refine ⟨last, other, ?_, hother.trans hsame⟩
      rw [hloop, List.drop_eq_getElem_cons hlt, List.foldl_cons]
    · rw [List.getElem?_eq_none hge] at hreturned
      subst hreturned
      refine ⟨next, after, ?_, hdevices⟩
      rw [List.drop_eq_nil_of_le hge]
      rfl

/-- `begin` ends, has noted every device on the bus once and in order, and has changed none. -/
theorem beginWithin_eq (hproper : Proper wire) (hfamily : ∀ rom ∈ found wire, rom.byte 0 ≠ 0)
    (state : Search) (survey : Survey) {turns : ℕ} (hturns : (found wire).length < turns) :
    ∃ last other, beginWithin (bus thermometer) turns state survey wire =
        some ((found wire).foldl (Survey.noted (contents wire)) { survey with devices := 0 }, last,
          other) ∧
      devicesOf other = devicesOf wire :=
  surveyLoop_eq _ hproper hfamily (dueAt_resetSearch wire state) hturns

theorem family_threeThermometers (rom : Rom) (hrom : rom ∈ found threeThermometers) :
    rom.byte 0 ≠ 0 := by
  have hfamily : ∀ rom ∈ present true (threeThermometers.map badge), rom.byte 0 ≠ 0 := by decide
  exact hfamily rom (mem_inOrder_iff.mp hrom)

theorem beginWithin_eq_threeThermometers :
    ∃ last other, beginWithin (bus thermometer) 4 (targetSearch 0x28) ⟨7, false, 9⟩
        threeThermometers =
        some ((found threeThermometers).foldl (Survey.noted (contents threeThermometers))
          ⟨0, false, 9⟩, last, other) ∧
      devicesOf other = devicesOf threeThermometers :=
  beginWithin_eq proper_threeThermometers family_threeThermometers (targetSearch 0x28)
    ⟨7, false, 9⟩ (Nat.lt_succ_of_le (length_inOrder_le _))

/-- The loop of `getAddress` from a device on finds the device with the index. -/
theorem getAddressLoop_eq {index depth : BitVec 8} {turns : ℕ} {state : Search}
    (hindex : index.toNat < 255) (hdepth : depth.toNat ≤ index.toNat + 1)
    (hturns : index.toNat + 1 < turns + depth.toNat)
    (hfamily : ∀ rom ∈ found wire, rom.byte 0 ≠ 0)
    (hdue : depth.toNat ≤ index.toNat → DueAt wire depth.toNat state) :
    ∃ last other, getAddressLoop (bus thermometer) index turns depth state wire =
        some (if depth.toNat ≤ index.toNat then
          ((found wire)[index.toNat]?).filter validAddress else none, last, other) ∧
      devicesOf other = devicesOf wire := by
  induction turns generalizing depth state wire with
  | zero => omega
  | succ turns ih =>
    by_cases hle : depth.toNat ≤ index.toNat
    · rw [getAddressLoop, if_pos (BitVec.le_def.mpr hle), if_pos hle]
      obtain ⟨hreturned, hnext⟩ := search_dueAt hfamily (hdue hle)
      have hdevices := devicesOf_search state wire
      have hsucc : (depth + 1).toNat = depth.toNat + 1 := by
        rw [BitVec.toNat_add]
        exact Nat.mod_eq_of_lt (show depth.toNat + 1 < 256 by omega)
      generalize search (bus thermometer) true state wire = result at hreturned hnext hdevices
      obtain ⟨answer, next, after⟩ := result
      dsimp only at hreturned hnext hdevices
      rcases Nat.lt_or_ge depth.toNat (found wire).length with hlt | hge
      · rw [List.getElem?_eq_getElem hlt] at hreturned
        subst hreturned
        dsimp only
        by_cases hfound : depth = index ∧ validAddress (found wire)[depth.toNat] = true
        · rw [if_pos hfound]
          obtain ⟨rfl, hvalid⟩ := hfound
          rw [List.getElem?_eq_getElem hlt, Option.filter_some_pos hvalid]
          exact ⟨next, after, rfl, hdevices⟩
        · obtain ⟨last, other, hloop, hother⟩ := ih (by omega) (by omega)
            (found_congr hdevices ▸ hfamily) fun _ ↦ hsucc ▸ hnext hlt
          rw [if_neg hfound, hloop, hsucc, found_congr hdevices]
          refine ⟨last, other, ?_, hother.trans hdevices⟩
          rcases Nat.lt_or_ge depth.toNat index.toNat with hbelow | habove
          · rw [if_pos (Nat.succ_le_of_lt hbelow)]
          · -- the device with the index is the one just found, and its address is not valid
            obtain rfl : depth = index := BitVec.eq_of_toNat_eq (Nat.le_antisymm hle habove)
            have hinvalid := Bool.eq_false_iff.mpr fun hvalid ↦ hfound ⟨rfl, hvalid⟩
            rw [if_neg (Nat.not_succ_le_self _), List.getElem?_eq_getElem hlt,
              Option.filter_some_neg hinvalid]
      · rw [List.getElem?_eq_none hge] at hreturned
        subst hreturned
        rw [List.getElem?_eq_none (hge.trans hle)]
        exact ⟨next, after, rfl, hdevices⟩
    · rw [getAddressLoop, if_neg fun h ↦ hle (BitVec.le_def.mp h), if_neg hle]
      exact ⟨state, wire, rfl, rfl⟩

/-- `getAddress` ends for every index below 255, with the address of the device that has the index
in the order of the codes, if it is valid. -/
theorem getAddress_eq {index : BitVec 8} (hindex : index.toNat < 255)
    (hfamily : ∀ rom ∈ found wire, rom.byte 0 ≠ 0) (state : Search) {turns : ℕ}
    (hturns : index.toNat + 1 < turns) :
    ∃ last other, getAddress (bus thermometer) turns index state wire =
        some (((found wire)[index.toNat]?).filter validAddress, last, other) ∧
      devicesOf other = devicesOf wire := by
  have hzero : (0#8).toNat ≤ index.toNat := Nat.zero_le _
  obtain ⟨last, other, hloop, hother⟩ := getAddressLoop_eq hindex (Nat.le_succ_of_le hzero) hturns
    hfamily fun _ ↦ dueAt_resetSearch wire state
  rw [if_pos hzero] at hloop
  exact ⟨last, other, hloop, hother⟩

/-- The temperature of a device with a code, as `getTempC` gives it: there is none where a DS18S20
counts zero steps for a degree. -/
def temperatureOf (store : Store) (address : Rom) : Option ℚ :=
  match store address with
  | some registers => (calculateTemperature address registers.scratchpad).map rawToCelsius
  | none => some disconnectedC

/-- From -55 °C down a temperature cannot be told from a device that is not there. -/
theorem rawToCelsius_eq_disconnectedC_iff {raw : BitVec 16} :
    rawToCelsius raw = disconnectedC ↔ raw.toInt ≤ -7040 := by
  have hraw : disconnectedRaw.toInt = -7040 := by decide
  rw [rawToCelsius, hraw]
  constructor
  · intro h
    by_contra habove
    rw [if_neg habove, disconnectedC, div_eq_iff (by norm_num)] at h
    have hbelow : raw.toInt = -127 * 128 := by exact_mod_cast h
    omega
  · exact fun h ↦ if_pos h

theorem getTempC_eq (hproper : Proper wire) (address : Rom) :
    getTempC (bus thermometer) address wire =
      (temperatureOf (contents wire) address, listening (devicesOf wire)) := by
  rw [getTempC, getTemp, isConnected_eq hproper, temperatureOf]
  cases contents wire address with
  | some registers => rfl
  | none =>
    dsimp only [Option.map_none]
    rw [Option.map_some, rawToCelsius_eq_disconnectedC_iff.mpr (by decide)]

/-- `getTempCByIndex` ends for every index below 255, with the temperature of the device that has
the index in the order of the codes. It changes no device. -/
theorem getTempCByIndex_eq (hproper : Proper wire) (hfamily : ∀ rom ∈ found wire, rom.byte 0 ≠ 0)
    {index : BitVec 8} (hindex : index.toNat < 255) (state : Search) {turns : ℕ}
    (hturns : index.toNat + 1 < turns) :
    ∃ last other, getTempCByIndex (bus thermometer) turns index state wire =
        some ((((found wire)[index.toNat]?).filter validAddress).elim (some disconnectedC)
          (temperatureOf (contents wire)), last, other) ∧
      devicesOf other = devicesOf wire := by
  obtain ⟨last, other, haddress, hdevices⟩ := getAddress_eq hindex hfamily state hturns
  rw [getTempCByIndex, haddress, Option.map_some]
  cases ((found wire)[index.toNat]?).filter validAddress with
  | some address =>
    have htemp := getTempC_eq (hproper.congr hdevices) address
    rw [contents_congr hdevices] at htemp
    dsimp only
    rw [htemp, hdevices]
    exact ⟨last, _, rfl, devicesOf_listening _⟩
  | none => exact ⟨last, other, rfl, hdevices⟩

theorem getTempCByIndex_eq_threeThermometers :
    ∃ last other, getTempCByIndex (bus thermometer) 4 2 (targetSearch 0x28) threeThermometers =
        some ((((found threeThermometers)[2]?).filter validAddress).elim (some disconnectedC)
          (temperatureOf (contents threeThermometers)), last, other) ∧
      devicesOf other = devicesOf threeThermometers :=
  getTempCByIndex_eq proper_threeThermometers family_threeThermometers (by decide)
    (targetSearch 0x28) (by decide)

end Sketchbook.OneWire.BusSurvey
