import Sketchbook.OneWire.RomSearch

/-!
# Devices on a one-wire bus

The wire has a pull-up and everybody on it can only pull it down: in a slot it is high when the
master and every device let it go. A read slot is a slot in which the master lets go.

A device listens for a command of eight bits after a reset. A search command (`0xF0`, or `0xEC` for
the devices with an alarm) makes it send the bits of its ROM code, each followed by its complement,
and listen for the direction of the master; it drops out when the direction is not its bit. `0x55`
makes it compare the 64 bits that follow with its code, and `0xCC` addresses every device. An
addressed device carries out functions; what they are is a parameter (`Functions`). Devices that
dropped out wait for the next reset.
-/

set_option autoImplicit false
set_option relaxedAutoImplicit false

namespace Sketchbook.OneWire.SlaveBus

open RomSearch

/-! ### One device -/

/-- What an addressed device does: the task it starts with, the level it lets the wire have, and
what a slot does to its memory and its task. -/
structure Functions (Memory Task : Type) where
  start : Task
  output : Memory → Task → Bool
  slot : Bool → Memory → Task → Memory × Task

/-- Where a device stands since the last reset. -/
inductive Phase (Task : Type)
  | idle
  | command (received : List Bool)
  | matching (position : ℕ)
  | bit (position : ℕ)
  | complement (position : ℕ)
  | direction (position : ℕ)
  | addressed (task : Task)

/-- A device: its ROM code, whether it has an alarm, and its memory. -/
structure Device (Memory : Type) where
  rom : Rom
  alarm : Bool
  memory : Memory

/-- A device on the bus, and where it stands. -/
structure Slave (Memory Task : Type) where
  device : Device Memory
  phase : Phase Task

variable {Memory Task : Type} (functions : Functions Memory Task)

/-- What a device makes of a command of eight bits. -/
def obey (device : Device Memory) (received : List Bool) : Phase Task :=
  if received = serial 0xF0 then .bit 0
  else if received = serial 0xEC then if device.alarm then .bit 0 else .idle
  else if received = serial 0x55 then .matching 0
  else if received = serial 0xCC then .addressed functions.start
  else .idle

/-- The level a device lets the wire have: `false` pulls it down. -/
def Slave.output (slave : Slave Memory Task) : Bool :=
  match slave.phase with
  | .bit position => slave.device.rom.bitAt position
  | .complement position => !slave.device.rom.bitAt position
  | .addressed task => functions.output slave.device.memory task
  | _ => true

/-- What a slot in which the wire has a level does to a device. -/
def Slave.slot (line : Bool) (slave : Slave Memory Task) : Slave Memory Task :=
  match slave.phase with
  | .idle => slave
  | .command received =>
    if received.length < 7 then { slave with phase := .command (received ++ [line]) }
    else { slave with phase := obey functions slave.device (received ++ [line]) }
  | .matching position =>
    if line = slave.device.rom.bitAt position then
      if position < 63 then { slave with phase := .matching (position + 1) }
      else { slave with phase := .addressed functions.start }
    else { slave with phase := .idle }
  | .bit position => { slave with phase := .complement position }
  | .complement position => { slave with phase := .direction position }
  | .direction position =>
    if line = slave.device.rom.bitAt position then
      if position < 63 then { slave with phase := .bit (position + 1) }
      else { slave with phase := .addressed functions.start }
    else { slave with phase := .idle }
  | .addressed task =>
    let result := functions.slot line slave.device.memory task
    { device := { slave.device with memory := result.1 }, phase := .addressed result.2 }

/-- A reset makes a device listen for a command. -/
def Slave.reset (slave : Slave Memory Task) : Slave Memory Task :=
  { slave with phase := .command [] }

/-! ### The wire -/

/-- The level of the wire when the master lets it have a level. -/
def line (level : Bool) (slaves : List (Slave Memory Task)) : Bool :=
  level && slaves.all (·.output functions)

/-- A slot: every device sees the level of the wire. -/
def slot (level : Bool) (slaves : List (Slave Memory Task)) : List (Slave Memory Task) :=
  slaves.map (·.slot functions (line functions level slaves))

/-- The bus with devices on it. They answer a reset when there are any. -/
def bus : Bus (List (Slave Memory Task)) where
  reset slaves := (!slaves.isEmpty, slaves.map Slave.reset)
  readBit slaves := (line functions true slaves, slot functions true slaves)
  writeBit level slaves := slot functions level slaves

/-- What a sequence of slots does to a device on its own. -/
def Slave.slots (levels : List Bool) (slave : Slave Memory Task) : Slave Memory Task :=
  levels.foldl (fun slave level ↦ slave.slot functions level) slave

/-- A device that sends nothing during a sequence of slots. -/
def Slave.Quiet : List Bool → Slave Memory Task → Prop
  | [], _ => True
  | level :: rest, slave =>
    slave.output functions = true ∧ Slave.Quiet rest (slave.slot functions level)

/-- While no device sends, every device sees what the master writes. -/
theorem foldl_writeBit {levels : List Bool} {slaves : List (Slave Memory Task)}
    (hquiet : ∀ slave ∈ slaves, slave.Quiet functions levels) :
    levels.foldl (fun wire level ↦ (bus functions).writeBit level wire) slaves =
      slaves.map (Slave.slots functions levels) := by
  induction levels generalizing slaves with
  | nil => exact (List.map_id _).symm
  | cons level rest ih =>
    have hline : line functions level slaves = level := by
      have hall : slaves.all (·.output functions) = true :=
        List.all_eq_true.mpr fun slave hslave ↦ (hquiet slave hslave).1
      rw [line, hall, Bool.and_true]
    have hslot : (bus functions).writeBit level slaves =
        slaves.map (·.slot functions level) := by
      change slot functions level slaves = _
      rw [slot, hline]
    rw [List.foldl_cons, hslot, ih, List.map_map]
    · rfl
    · intro slave hslave
      obtain ⟨earlier, hearlier, rfl⟩ := List.mem_map.mp hslave
      exact (hquiet earlier hearlier).2

/-! ### Commands -/

/-- A device that is told a command by eight bits sends nothing meanwhile and obeys it. -/
theorem command_slots (device : Device Memory) (received : List Bool) {levels : List Bool}
    (hlength : received.length + levels.length = 8) (hmore : levels ≠ []) :
    Slave.Quiet functions levels ⟨device, .command received⟩ ∧
      Slave.slots functions levels ⟨device, .command received⟩ =
        ⟨device, obey functions device (received ++ levels)⟩ := by
  induction levels generalizing received with
  | nil => exact absurd rfl hmore
  | cons level rest ih =>
    rw [List.length_cons] at hlength
    rcases rest.eq_nil_or_concat with rfl | ⟨front, final, hrest⟩
    · have hfull : ¬ received.length < 7 := by
        rw [List.length_nil] at hlength
        omega
      refine ⟨⟨rfl, trivial⟩, ?_⟩
      rw [Slave.slots, List.foldl_cons, List.foldl_nil, Slave.slot]
      exact if_neg hfull
    · have hne : rest ≠ [] := by
        rw [hrest, List.concat_eq_append]
        exact List.append_ne_nil_of_right_ne_nil _ (List.cons_ne_nil _ _)
      have hspace : received.length < 7 := by
        have hpositive := List.length_pos_iff.mpr hne
        omega
      have hslot : Slave.slot functions level ⟨device, .command received⟩ =
          ⟨device, .command (received ++ [level])⟩ := if_pos hspace
      have hlength : (received ++ [level]).length + rest.length = 8 := by
        rw [List.length_append, List.length_singleton]
        omega
      obtain ⟨hquiet, hslots⟩ := ih _ hlength hne
      refine ⟨⟨rfl, ?_⟩, ?_⟩
      · rw [hslot]
        exact hquiet
      · rw [List.append_assoc, List.singleton_append] at hslots
        rw [Slave.slots, List.foldl_cons, hslot]
        exact hslots

/-- A byte written behind a reset is a command that every device obeys. -/
theorem write_command (value : BitVec 8) (slaves : List (Slave Memory Task)) :
    write (bus functions) value (slaves.map Slave.reset) =
      slaves.map fun slave ↦ ⟨slave.device, obey functions slave.device (serial value)⟩ := by
  have hlength : ([] : List Bool).length + (serial value).length = 8 := rfl
  have hheard (slave : Slave Memory Task) :=
    command_slots functions slave.device [] hlength (List.cons_ne_nil _ _)
  have hquiet : ∀ slave ∈ slaves.map Slave.reset, slave.Quiet functions (serial value) := by
    intro slave hslave
    obtain ⟨earlier, -, rfl⟩ := List.mem_map.mp hslave
    exact (hheard earlier).1
  rw [write_eq, foldl_writeBit functions hquiet, List.map_map]
  exact List.map_congr_left fun slave _ ↦ (hheard slave).2

end Sketchbook.OneWire.SlaveBus
