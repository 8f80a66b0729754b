import Mathlib.Algebra.GroupWithZero.Nat
import Mathlib.Data.Fin.Basic
import Mathlib.Data.Fintype.Pi
import Mathlib.Data.List.Basic

/-!
# The OneWire library: bytes on the bus and the search for ROM codes

OneWire.cpp talks to a bus through a reset, a read slot and a write slot for one bit. `write`,
`read`, `select` and `skip` are made of these slots, and so is `search`: a walk over the 64 bits of
a ROM code, in which the devices send a bit and its complement and the master answers with the
direction it goes on in. The slots are a parameter here (`Bus`). What the devices do with them is
in the module on the devices of a bus.

Between two calls `search` keeps the code it found and where it has to turn next (`Search`).
`read_eq` says that a bus that gives back the bits of a byte gives back the byte.
-/

set_option autoImplicit false
set_option relaxedAutoImplicit false

namespace Sketchbook.OneWire.RomSearch

/-! ### ROM codes -/

/-- The bytes of a code are counted from 0. -/
scoped instance neZeroEight : NeZero 8 := ⟨Nat.succ_ne_zero 7⟩

/-- An array of eight bytes: `ROM_NO`, and the addresses that callers hold. -/
structure Rom where
  byte : Fin 8 → BitVec 8
deriving DecidableEq

/-- A bit of a code, in the order in which the wire carries them. -/
def Rom.bitAt (rom : Rom) (position : ℕ) : Bool :=
  (rom.byte (Fin.ofNat 8 (position / 8))).getLsbD (position % 8)

/-- The bits of a code, in the order in which the wire carries them. -/
def Rom.bits (rom : Rom) (position : Fin 64) : Bool := rom.bitAt position

/-- The code whose bytes are all zero. -/
def Rom.zero : Rom := ⟨fun _ ↦ 0⟩

theorem bits_injective : Function.Injective Rom.bits := by
  intro first second h
  suffices hbyte : first.byte = second.byte by
    cases first
    cases second
    exact congrArg _ hbyte
  funext index
  refine BitVec.eq_of_getLsbD_eq fun place hplace ↦ ?_
  have hposition : 8 * index.val + place < 64 := by omega
  have hbit := congrFun h ⟨8 * index.val + place, hposition⟩
  simp only [Rom.bits, Rom.bitAt] at hbit
  rw [Nat.mul_add_div (by decide), Nat.div_eq_of_lt hplace, Nat.add_zero, Nat.mul_add_mod,
    Nat.mod_eq_of_lt hplace, Fin.ofNat_val_eq_self] at hbit
  exact hbit

/-! ### Slots and bytes -/

/-- A bus as the master sees it: the presence pulse after a reset, the bit that a read slot finds,
and a write slot. -/
structure Bus (Wire : Type*) where
  reset : Wire → Bool × Wire
  readBit : Wire → Bool × Wire
  writeBit : Bool → Wire → Wire

variable {Wire : Type*} (bus : Bus Wire)

/-- The values of `bitMask` in `for (bitMask = 0x01; bitMask; bitMask <<= 1)`. -/
def bitMasks : List (BitVec 8) := (List.range 8).map fun place ↦ 1#8 <<< place

def write (value : BitVec 8) (wire : Wire) : Wire :=
  bitMasks.foldl (fun wire bitMask ↦ bus.writeBit (bitMask &&& value != 0) wire) wire

def read (wire : Wire) : BitVec 8 × Wire :=
  bitMasks.foldl (fun result bitMask ↦
    let slot := bus.readBit result.2
    (if slot.1 then result.1 ||| bitMask else result.1, slot.2)) (0, wire)

/-- The bits of a byte in the order in which the wire carries them. -/
def serial (value : BitVec 8) : List Bool := (List.range 8).map value.getLsbD

/-- What a number of read slots find. -/
def readBits : ℕ → Wire → List Bool × Wire
  | 0, wire => ([], wire)
  | count + 1, wire =>
    let slot := bus.readBit wire
    let rest := readBits count slot.2
    (slot.1 :: rest.1, rest.2)

theorem bitMask_and_ne_zero (value : BitVec 8) {place : ℕ} (hplace : place < 8) :
    (1#8 <<< place &&& value != 0) = value.getLsbD place := by
  have hmask : 1#8 <<< place = BitVec.twoPow 8 place := rfl
  have hset : BitVec.twoPow 8 place ≠ 0 := fun h ↦ by
    have hbit := congrArg (·.getLsbD place) h
    simp [hplace] at hbit
  rw [hmask, BitVec.and_comm, BitVec.and_twoPow]
  cases value.getLsbD place with
  | true => exact bne_iff_ne.mpr hset
  | false => rfl

/-- A byte goes onto the wire with its lowest bit first. -/
theorem write_eq (value : BitVec 8) (wire : Wire) :
    write bus value wire = (serial value).foldl (fun wire bit ↦ bus.writeBit bit wire) wire := by
  rw [write, bitMasks, serial, List.foldl_map, List.foldl_map]
  refine List.foldl_ext _ _ _ fun wire place hplace ↦ ?_
  rw [bitMask_and_ne_zero value (List.mem_range.mp hplace)]

/-- The turns of the loop of `read` from one mask on, when they find the bits of a byte. -/
theorem foldl_read {value : BitVec 8} (count start : ℕ) (hfits : start + count ≤ 8)
    (result : BitVec 8) (wire : Wire)
    (h : (readBits bus count wire).1 = (List.range' start count).map value.getLsbD) :
    ∃ byte, ((List.range' start count).map fun place ↦ 1#8 <<< place).foldl
        (fun result bitMask ↦
          let slot := bus.readBit result.2
          (if slot.1 then result.1 ||| bitMask else result.1, slot.2)) (result, wire) =
        (byte, (readBits bus count wire).2) ∧
      ∀ place < 8, byte.getLsbD place =
        (result.getLsbD place ||
          decide (start ≤ place ∧ place < start + count) && value.getLsbD place) := by
  induction count generalizing start result wire with
  | zero => exact ⟨result, rfl, fun place _ ↦ by simp⟩
  | succ count ih =>
    rw [List.range'_succ, List.map_cons, readBits, List.cons.injEq] at h
    obtain ⟨hslot, hrest⟩ := h
    obtain ⟨byte, hfold, hbyte⟩ := ih (start + 1) (by omega)
      (if value.getLsbD start then result ||| 1#8 <<< start else result) (bus.readBit wire).2 hrest
    refine ⟨byte, ?_, fun place hplace ↦ ?_⟩
    · rw [List.range'_succ, List.map_cons, List.foldl_cons]
      simp only [hslot, readBits]
      exact hfold
    · have hmask : (1#8 <<< start).getLsbD place = decide (start = place) := by
        have htwo : 1#8 <<< start = BitVec.twoPow 8 start := rfl
        rw [htwo, BitVec.getLsbD_twoPow]
        simp only [show start < 8 by omega, decide_true, Bool.true_and]
      rw [hbyte place hplace]
      rcases eq_or_ne start place with rfl | hne
      · cases hbit : value.getLsbD start <;> simp [hmask]
      · have hrange : decide (start + 1 ≤ place ∧ place < start + 1 + count) =
            decide (start ≤ place ∧ place < start + (count + 1)) :=
          decide_eq_decide.mpr (by omega)
        rw [hrange]
        cases value.getLsbD start <;> simp [hmask, hne]

/-- A read that finds the bits of a byte gives the byte. -/
theorem read_eq {value : BitVec 8} {wire : Wire} (h : (readBits bus 8 wire).1 = serial value) :
    read bus wire = (value, (readBits bus 8 wire).2) := by
  have hrange : List.range 8 = List.range' 0 8 := List.range_eq_range'
  rw [serial, hrange] at h
  obtain ⟨byte, hfold, hbyte⟩ := foldl_read bus 8 0 le_rfl 0 wire h
  rw [read, bitMasks, hrange, hfold, Prod.mk.injEq]
  refine ⟨BitVec.eq_of_getLsbD_eq fun place hplace ↦ ?_, rfl⟩
  rw [hbyte place hplace]
  simp [hplace]

/-- `select`: addresses the device with a code. -/
def select (rom : Rom) (wire : Wire) : Wire :=
  (List.finRange 8).foldl (fun wire index ↦ write bus (rom.byte index) wire) (write bus 0x55 wire)

/-- `skip`: addresses every device. -/
def skip (wire : Wire) : Wire := write bus 0xCC wire

/-! ### The search -/

/-- What a OneWire object keeps between two calls of `search`. -/
structure Search where
  romNo : Rom
  lastDiscrepancy : ℕ
  lastFamilyDiscrepancy : ℕ
  lastDeviceFlag : Bool
deriving DecidableEq

/-- The end of `search` without a device, and its exit when no device answers the reset: the next
call will be like a first one. -/
def Search.forgotten (state : Search) : Search :=
  { state with lastDiscrepancy := 0, lastDeviceFlag := false, lastFamilyDiscrepancy := 0 }

/-- `reset_search`. -/
def resetSearch (state : Search) : Search := { state.forgotten with romNo := Rom.zero }

/-- `target_search`: the next call looks for a device of a family. -/
def targetSearch (familyCode : BitVec 8) : Search where
  romNo := ⟨fun index ↦ if index = 0 then familyCode else 0⟩
  lastDiscrepancy := 64
  lastFamilyDiscrepancy := 0
  lastDeviceFlag := false

/-- The local variables of `search`, and the fields that its loop writes. -/
structure Walk where
  idBitNumber : ℕ
  lastZero : ℕ
  romByteNumber : ℕ
  romByteMask : BitVec 8
  romNo : Rom
  lastFamilyDiscrepancy : ℕ

/-- The variables in front of the loop. -/
def Search.walk (state : Search) : Walk where
  idBitNumber := 1
  lastZero := 0
  romByteNumber := 0
  romByteMask := 1
  romNo := state.romNo
  lastFamilyDiscrepancy := state.lastFamilyDiscrepancy

/-- `search_direction` for the bit and the complement that were read. -/
def Walk.direction (walk : Walk) (lastDiscrepancy : ℕ) (index : Fin 8) (idBit cmpIdBit : Bool) :
    Bool :=
  if idBit != cmpIdBit then idBit
  else if walk.idBitNumber < lastDiscrepancy then walk.romNo.byte index &&& walk.romByteMask != 0
  else walk.idBitNumber == lastDiscrepancy

/-- Sets or clears the bits of a mask in one byte of a code. -/
def Rom.put (rom : Rom) (index : Fin 8) (mask : BitVec 8) (direction : Bool) : Rom :=
  ⟨Function.update rom.byte index
    (if direction then rom.byte index ||| mask else rom.byte index &&& ~~~mask)⟩

/-- The rest of a turn of the loop, once the direction is known. -/
def Walk.turn (walk : Walk) (index : Fin 8) (idBit cmpIdBit direction : Bool) : Walk :=
  let lastZero :=
    if idBit == cmpIdBit && !direction then walk.idBitNumber else walk.lastZero
  { idBitNumber := walk.idBitNumber + 1
    lastZero
    romByteNumber :=
      if walk.romByteMask <<< 1 = 0 then walk.romByteNumber + 1 else walk.romByteNumber
    romByteMask := if walk.romByteMask <<< 1 = 0 then 1 else walk.romByteMask <<< 1
    romNo := walk.romNo.put index walk.romByteMask direction
    lastFamilyDiscrepancy :=
      if idBit == cmpIdBit && !direction && lastZero < 9 then lastZero
      else walk.lastFamilyDiscrepancy }

/-- The loop of `search`. It ends after a number of turns at the latest; 64 are enough. -/
def searchLoop (lastDiscrepancy : ℕ) : ℕ → Walk → Wire → Walk × Wire
  | 0, walk, wire => (walk, wire)
  | turns + 1, walk, wire =>
    if h : walk.romByteNumber < 8 then
      let idBit := bus.readBit wire
      let cmpIdBit := bus.readBit idBit.2
      if idBit.1 && cmpIdBit.1 then (walk, cmpIdBit.2)
      else
        let direction := walk.direction lastDiscrepancy ⟨walk.romByteNumber, h⟩ idBit.1 cmpIdBit.1
        searchLoop lastDiscrepancy turns
          (walk.turn ⟨walk.romByteNumber, h⟩ idBit.1 cmpIdBit.1 direction)
          (bus.writeBit direction cmpIdBit.2)
    else (walk, wire)

/-- What `search` makes of the variables behind the loop: the address it writes to `newAddr`, if it
returns TRUE, and the state it leaves. -/
def Search.conclude (state : Search) (walk : Walk) : Option Rom × Search :=
  let found : Search :=
    { romNo := walk.romNo
      lastDiscrepancy := walk.lastZero
      lastFamilyDiscrepancy := walk.lastFamilyDiscrepancy
      lastDeviceFlag := walk.lastZero == 0 || state.lastDeviceFlag }
  if walk.idBitNumber < 65 ∨ walk.romNo.byte 0 = 0 then (none, found.forgotten)
  else (some walk.romNo, found)

/-- `search`. -/
def search (searchMode : Bool) (state : Search) (wire : Wire) : Option Rom × Search × Wire :=
  if state.lastDeviceFlag then (none, state.forgotten, wire)
  else
    let presence := bus.reset wire
    if presence.1 then
      let command := write bus (if searchMode then 0xF0 else 0xEC) presence.2
      let walked := searchLoop bus state.lastDiscrepancy 64 state.walk command
      let result := state.conclude walked.1
      (result.1, result.2, walked.2)
    else (none, state.forgotten, presence.2)

/-! ### What every slot keeps -/

/-- A property of the wire that a reset and a slot keep. -/
structure Bus.Keeps (P : Wire → Prop) : Prop where
  reset : ∀ wire, P wire → P (bus.reset wire).2
  readBit : ∀ wire, P wire → P (bus.readBit wire).2
  writeBit : ∀ level wire, P wire → P (bus.writeBit level wire)

variable {bus} {P : Wire → Prop}

theorem Bus.Keeps.write (h : bus.Keeps P) (value : BitVec 8) {wire : Wire} (hwire : P wire) :
    P (RomSearch.write bus value wire) := by
  rw [write_eq]
  induction serial value generalizing wire with
  | nil => exact hwire
  | cons level rest ih => exact ih (h.writeBit level wire hwire)

theorem Bus.Keeps.searchLoop (h : bus.Keeps P) (lastDiscrepancy turns : ℕ) (walk : Walk)
    {wire : Wire} (hwire : P wire) :
    P (RomSearch.searchLoop bus lastDiscrepancy turns walk wire).2 := by
  induction turns generalizing walk wire with
  | zero => exact hwire
  | succ turns ih =>
    have hread := h.readBit _ (h.readBit wire hwire)
    rw [RomSearch.searchLoop]
    split
    · dsimp only
      split
      · exact hread
      · exact ih _ (h.writeBit _ _ hread)
    · exact hwire

/-- A search keeps what every slot keeps. -/
theorem Bus.Keeps.search (h : bus.Keeps P) (searchMode : Bool) (state : Search) {wire : Wire}
    (hwire : P wire) : P (RomSearch.search bus searchMode state wire).2.2 := by
  rw [RomSearch.search]
  split
  · exact hwire
  · dsimp only
    split
    · exact h.searchLoop _ _ _ (h.write _ (h.reset wire hwire))
    · exact h.reset wire hwire

end Sketchbook.OneWire.RomSearch
