import Sketchbook.OneWire.SlaveBus

/-!
# Transactions with one device

A transaction is a reset, a command that addresses devices, and an exchange of bytes with them.
After `select` exactly the devices with the code are addressed, from any state of the bus
(`select_reset`). While one device is addressed and all others wait, the bus is that device: a slot
reaches it alone (`slot_alone`), so what is written and read is what the device does on its own.
-/

set_option autoImplicit false
set_option relaxedAutoImplicit false

namespace Sketchbook.OneWire.Transactions

open RomSearch SlaveBus

variable {Memory Task : Type} (functions : Functions Memory Task)

/-! ### Addressing -/

/-- The bits of a code from a position on. -/
def bitsFrom (rom : Rom) (position : ℕ) : List Bool :=
  (List.range' position (64 - position)).map rom.bitAt

/-- The bytes that `select` writes behind its command are the bits of the code. -/
theorem select_eq (bus : Bus (List (Slave Memory Task))) (rom : Rom)
    (wire : List (Slave Memory Task)) :
    select bus rom wire =
      (bitsFrom rom 0).foldl (fun wire bit ↦ bus.writeBit bit wire) (write bus 0x55 wire) := by
  have hbits : bitsFrom rom 0 = (List.finRange 8).flatMap fun index ↦ serial (rom.byte index) := rfl
  rw [hbits, List.foldl_flatMap, select]
  exact List.foldl_ext _ _ _ fun wire index _ ↦ write_eq bus (rom.byte index) wire

theorem bitsFrom_eq_cons (rom : Rom) {position : ℕ} (hposition : position < 64) :
    bitsFrom rom position = rom.bitAt position :: bitsFrom rom (position + 1) := by
  have hcount : 64 - position = 64 - (position + 1) + 1 := by omega
  rw [bitsFrom, hcount, List.range'_succ, List.map_cons]
  rfl

theorem bitsFrom_inj {first second : Rom} :
    bitsFrom first 0 = bitsFrom second 0 ↔ first = second := by
  refine ⟨fun h ↦ bits_injective (funext fun place ↦ ?_), fun h ↦ h ▸ rfl⟩
  have hentry := congrArg (·[place.val]?) h
  simpa [bitsFrom, Rom.bits] using hentry

/-- A device that waits goes on waiting. -/
theorem idle_slots (device : Device Memory) (levels : List Bool) :
    Slave.Quiet functions levels ⟨device, .idle⟩ ∧
      Slave.slots functions levels ⟨device, .idle⟩ = ⟨device, .idle⟩ := by
  induction levels with
  | nil => exact ⟨trivial, rfl⟩
  | cons level rest ih => exact ⟨⟨rfl, ih.1⟩, ih.2⟩

/-- One bit of the comparison. -/
theorem matching_slot (device : Device Memory) (bit : Bool) (position : ℕ) :
    Slave.slot functions bit ⟨device, .matching position⟩ =
      ⟨device, if bit = device.rom.bitAt position then
        if position < 63 then .matching (position + 1) else .addressed functions.start
        else .idle⟩ := by
  rw [Slave.slot]
  dsimp only
  split
  · split <;> rfl
  · rfl

/-- A device that compares a code with its own is addressed at the end, or drops out on the way. -/
theorem matching_slots (device : Device Memory) (rom : Rom) {position : ℕ}
    (hposition : position < 64) :
    Slave.Quiet functions (bitsFrom rom position) ⟨device, .matching position⟩ ∧
      Slave.slots functions (bitsFrom rom position) ⟨device, .matching position⟩ =
        ⟨device, if bitsFrom device.rom position = bitsFrom rom position
          then .addressed functions.start else .idle⟩ := by
  induction hleft : 63 - position generalizing position with
  | zero =>
    obtain rfl : position = 63 := by omega
    have hbits (rom : Rom) : bitsFrom rom 63 = [rom.bitAt 63] := rfl
    refine ⟨⟨rfl, trivial⟩, ?_⟩
    rw [hbits, hbits, Slave.slots, List.foldl_cons, List.foldl_nil, matching_slot functions]
    by_cases hbit : rom.bitAt 63 = device.rom.bitAt 63
    · rw [if_pos hbit, if_neg (lt_irrefl 63), hbit, if_pos rfl]
    · rw [if_neg hbit, if_neg fun h ↦ hbit (List.cons.inj h).1.symm]
  | succ left ih =>
    have hlt : position < 63 := by omega
    rw [bitsFrom_eq_cons rom hposition, bitsFrom_eq_cons device.rom hposition, Slave.slots,
      List.foldl_cons, Slave.Quiet, matching_slot functions]
    by_cases hbit : rom.bitAt position = device.rom.bitAt position
    · obtain ⟨hquiet, hslots⟩ := ih (show position + 1 < 64 by omega) (by omega)
      rw [if_pos hbit, if_pos hlt, hbit]
      refine ⟨⟨rfl, hquiet⟩, hslots.trans ?_⟩
      rw [if_congr (List.cons_inj_right _).symm rfl rfl]
    · rw [if_neg hbit, if_neg fun h ↦ hbit (List.cons.inj h).1.symm]
      exact ⟨⟨rfl, (idle_slots functions device _).1⟩, (idle_slots functions device _).2⟩

/-- Behind a reset, `select` addresses the devices with the code. -/
theorem select_reset (rom : Rom) (slaves : List (Slave Memory Task)) :
    select (bus functions) rom (slaves.map Slave.reset) = slaves.map fun slave ↦
      ⟨slave.device, if slave.device.rom = rom then .addressed functions.start else .idle⟩ := by
  have hobey (device : Device Memory) : obey functions device (serial 0x55) = .matching 0 := by
    have hsearch : serial 0x55 ≠ serial 0xF0 := by decide
    have halarm : serial 0x55 ≠ serial 0xEC := by decide
    rw [obey, if_neg hsearch, if_neg halarm, if_pos rfl]
  have hmatching (device : Device Memory) := matching_slots functions device rom
    (show 0 < 64 by decide)
  have hquiet : ∀ slave ∈ slaves.map fun slave ↦
      (⟨slave.device, obey functions slave.device (serial 0x55)⟩ : Slave Memory Task),
      slave.Quiet functions (bitsFrom rom 0) := by
    intro slave hslave
    obtain ⟨earlier, -, rfl⟩ := List.mem_map.mp hslave
    rw [hobey]
    exact (hmatching earlier.device).1
  rw [select_eq, write_command, foldl_writeBit functions hquiet, List.map_map]
  refine List.map_congr_left fun slave _ ↦ ?_
  rw [Function.comp_apply, hobey, (hmatching slave.device).2, if_congr bitsFrom_inj rfl rfl]

/-! ### One device addressed -/

/-- A wire on which the devices around one slave wait. -/
def Waiting (others : List (Slave Memory Task)) : Prop := ∀ slave ∈ others, slave.phase = .idle

theorem line_waiting {others : List (Slave Memory Task)} (h : Waiting others) :
    others.all (·.output functions) = true :=
  List.all_eq_true.mpr fun slave hslave ↦ by rw [Slave.output, h slave hslave]

theorem slot_waiting {others : List (Slave Memory Task)} (h : Waiting others) (level : Bool) :
    others.map (·.slot functions level) = others := by
  refine (List.map_congr_left fun slave hslave ↦ ?_).trans (List.map_id _)
  rw [Slave.slot, h slave hslave]
  rfl

variable {before after : List (Slave Memory Task)}

/-- A slot reaches the one device that does not wait. -/
theorem slot_alone (hbefore : Waiting before) (hafter : Waiting after) (level : Bool)
    (slave : Slave Memory Task) :
    line functions level (before ++ slave :: after) = (level && slave.output functions) ∧
      slot functions level (before ++ slave :: after) =
        before ++ slave.slot functions (level && slave.output functions) :: after := by
  have hline : line functions level (before ++ slave :: after) =
      (level && slave.output functions) := by
    rw [line, List.all_append, List.all_cons, line_waiting functions hbefore,
      line_waiting functions hafter, Bool.true_and, Bool.and_true]
  refine ⟨hline, ?_⟩
  rw [slot, hline, List.map_append, List.map_cons, slot_waiting functions hbefore,
    slot_waiting functions hafter]

/-- A byte written to one device. -/
theorem write_alone (hbefore : Waiting before) (hafter : Waiting after) (value : BitVec 8)
    {slave : Slave Memory Task} (hquiet : slave.Quiet functions (serial value)) :
    write (bus functions) value (before ++ slave :: after) =
      before ++ slave.slots functions (serial value) :: after := by
  rw [write_eq]
  generalize serial value = levels at hquiet ⊢
  induction levels generalizing slave with
  | nil => rfl
  | cons level rest ih =>
    have hslot := (slot_alone functions hbefore hafter level slave).2
    rw [hquiet.1, Bool.and_true] at hslot
    rw [List.foldl_cons, Slave.slots, List.foldl_cons]
    change List.foldl _ (slot functions level _) rest = _
    rw [hslot]
    exact ih hquiet.2

/-- What read slots find when one device answers, and what becomes of it. -/
def Slave.answers : ℕ → Slave Memory Task → List Bool × Slave Memory Task
  | 0, slave => ([], slave)
  | count + 1, slave =>
    let rest := Slave.answers count (slave.slot functions (slave.output functions))
    (slave.output functions :: rest.1, rest.2)

theorem readBits_alone (hbefore : Waiting before) (hafter : Waiting after) (count : ℕ)
    (slave : Slave Memory Task) :
    readBits (bus functions) count (before ++ slave :: after) =
      ((Slave.answers functions count slave).1,
        before ++ (Slave.answers functions count slave).2 :: after) := by
  induction count generalizing slave with
  | zero => rfl
  | succ count ih =>
    obtain ⟨hline, hslot⟩ := slot_alone functions hbefore hafter true slave
    rw [Bool.true_and] at hline hslot
    have hread : (bus functions).readBit (before ++ slave :: after) =
        (slave.output functions,
          before ++ slave.slot functions (slave.output functions) :: after) :=
      Prod.ext hline hslot
    rw [readBits, hread]
    dsimp only
    rw [ih]
    rfl

/-- On a wire on which every device waits, a read finds only ones. -/
theorem read_waiting {others : List (Slave Memory Task)} (h : Waiting others) :
    read (bus functions) others = (0xFF, others) := by
  have hread : (bus functions).readBit others = (true, others) := by
    refine Prod.ext ?_ ?_
    · change line functions true others = true
      rw [line, line_waiting functions h, Bool.true_and]
    · change slot functions true others = others
      rw [slot, slot_waiting functions h]
  have hbits (count : ℕ) : readBits (bus functions) count others =
      (List.replicate count true, others) := by
    induction count with
    | zero => rfl
    | succ count ih =>
      rw [readBits, hread]
      dsimp only
      rw [ih]
      rfl
  have hserial : (readBits (bus functions) 8 others).1 = serial 0xFF := by
    rw [hbits]
    change List.replicate 8 true = serial 0xFF
    decide
  rw [read_eq (bus functions) hserial, hbits]

/-- Writing to devices that all wait changes nothing. -/
theorem write_waiting {others : List (Slave Memory Task)} (h : Waiting others) (value : BitVec 8) :
    write (bus functions) value others = others := by
  have hslot (level : Bool) : (bus functions).writeBit level others = others := by
    change slot functions level others = others
    rw [slot, slot_waiting functions h]
  rw [write_eq]
  induction serial value with
  | nil => rfl
  | cons level rest ih => rw [List.foldl_cons, hslot, ih]

end Sketchbook.OneWire.Transactions
