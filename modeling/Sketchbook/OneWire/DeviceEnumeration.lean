import Mathlib.Data.Finset.Sort
import Sketchbook.Foundation.SortedRound
import Sketchbook.Foundation.TransitionSystem
import Sketchbook.OneWire.DeviceSearch

/-!
# Enumerating the devices of a bus

A master calls `search` again and again, and in between it resets the bus and reads and writes
slots for other purposes. The calls go round the devices that take part, in the order of their codes
with the first bit on the wire weighing most: every device once, then a call that returns FALSE, and
so on. After `reset_search` they begin with the first device; from any other state of the master
they begin somewhere and go on the same way.

`search` gives up on a code whose first byte is 0, also when the walk was a success. Such a code is
the first of all. With one of them on the bus every call returns FALSE.
-/

set_option autoImplicit false
set_option relaxedAutoImplicit false

namespace Sketchbook.OneWire.DeviceEnumeration

open Foundation.BitDescent Foundation.SortedRound Foundation.TransitionSystem
open RomSearch SlaveBus DeviceSearch

/-- Codes in the order in which the first bit on the wire weighs most. -/
noncomputable instance : LinearOrder Rom :=
  LinearOrder.lift' (fun rom ↦ toLex rom.bits) fun _ _ h ↦ bits_injective (toLex.injective h)

/-- What a device brings to a search: its code and whether it has an alarm. -/
abbrev Badge := Rom × Bool

variable {Memory Task : Type} (functions : Functions Memory Task) (searchMode : Bool)

def badge (slave : Slave Memory Task) : Badge := (slave.device.rom, slave.device.alarm)

/-- The codes of the devices that take part. -/
def present (badges : List Badge) : List Rom :=
  (badges.filter fun badge ↦ searchMode || badge.2).map Prod.fst

/-- The codes of the devices that take part, in order and each of them once. -/
noncomputable def inOrder (badges : List Badge) : List Rom :=
  (present searchMode badges).toFinset.sort

/-- The slots of the bus leave the codes and the alarms alone. -/
theorem keeps_badges (badges : List Badge) :
    (bus functions).Keeps fun wire ↦ wire.map badge = badges := by
  have hslot (level : Bool) (wire : List (Slave Memory Task)) :
      (slot functions level wire).map badge = wire.map badge := by
    rw [slot, List.map_map]
    refine List.map_congr_left fun slave _ ↦ ?_
    rw [Function.comp_apply, Slave.slot]
    split <;> (try split) <;> (try split) <;> rfl
  have hreset (wire : List (Slave Memory Task)) :
      (wire.map Slave.reset).map badge = wire.map badge := by
    rw [List.map_map]
    rfl
  exact ⟨fun wire h ↦ (hreset wire).trans h, fun wire h ↦ (hslot _ wire).trans h,
    fun _ wire h ↦ (hslot _ wire).trans h⟩

variable {searchMode} {slaves : List (Slave Memory Task)}

theorem mem_inOrder_iff {rom : Rom} {badges : List Badge} :
    rom ∈ inOrder searchMode badges ↔ rom ∈ present searchMode badges := by
  rw [inOrder, Finset.mem_sort, List.mem_toFinset]

theorem mem_inOrder {rom : Rom} : rom ∈ inOrder searchMode (slaves.map badge) ↔
    rom.bits ∈ codes searchMode slaves := by
  rw [mem_inOrder_iff, present, List.mem_map]
  constructor
  · rintro ⟨_, hmem, rfl⟩
    obtain ⟨hbadge, htakes⟩ := List.mem_filter.mp hmem
    obtain ⟨slave, hslave, rfl⟩ := List.mem_map.mp hbadge
    exact ⟨slave, hslave, htakes, rfl⟩
  · rintro ⟨slave, hslave, htakes, hbits⟩
    exact ⟨badge slave, List.mem_filter.mpr ⟨List.mem_map_of_mem hslave, htakes⟩,
      bits_injective hbits⟩

variable (searchMode) in
theorem sortedLT_inOrder (badges : List Badge) : (inOrder searchMode badges).SortedLT :=
  Finset.sortedLT_sort _

theorem length_inOrder_le (badges : List Badge) :
    (inOrder searchMode badges).length ≤ badges.length := by
  rw [inOrder, Finset.length_sort]
  refine (List.toFinset_card_le _).trans ?_
  rw [present, List.length_map]
  exact List.length_filter_le _ _

/-! ### The state between two calls -/

/-- The next call will be like a first one. -/
structure Fresh (state : Search) : Prop where
  lastDiscrepancy : state.lastDiscrepancy = 0
  lastDeviceFlag : state.lastDeviceFlag = false

/-- The state after a call that found a code. -/
structure Found (words : Set (Fin 64 → Bool)) (rom : Rom) (state : Search) : Prop where
  romNo : state.romNo = rom
  mem : rom.bits ∈ words
  lastSkip : LastSkip words rom.bits state.lastDiscrepancy
  lastDeviceFlag : state.lastDeviceFlag = (state.lastDiscrepancy == 0)

theorem fresh_forgotten (state : Search) : Fresh state.forgotten := ⟨rfl, rfl⟩

theorem fresh_resetSearch (state : Search) : Fresh (resetSearch state) := ⟨rfl, rfl⟩

/-- What a call finds when its walk may run and no code gives up: a code of a device that takes
part, reached by the rule of the descent. -/
theorem search_found {state : Search} (hflag : state.lastDeviceFlag = false)
    (hfamily : ∀ rom ∈ inOrder searchMode (slaves.map badge), rom.byte 0 ≠ 0)
    (hsome : inOrder searchMode (slaves.map badge) ≠ []) :
    ∃ rom, (search (bus functions) searchMode state slaves).1 = some rom ∧
      Found (codes searchMode slaves) rom (search (bus functions) searchMode state slaves).2.1 ∧
      Descends (codes searchMode slaves) state.romNo.bits state.lastDiscrepancy rom.bits := by
  obtain ⟨first, hfirst⟩ := List.exists_mem_of_ne_nil _ hsome
  obtain ⟨slave, hslave, htakes, -⟩ := mem_inOrder.mp hfirst
  obtain ⟨walk, hsearch, hnumber, hdescends, hlast⟩ :=
    search_of_some functions searchMode hflag ⟨slave, hslave, htakes⟩
  have hgoes : ¬ (walk.idBitNumber < 65 ∨ walk.romNo.byte 0 = 0) := by
    rintro (hlt | hzero)
    · exact absurd (hnumber ▸ hlt) (lt_irrefl 65)
    · exact hfamily walk.romNo (mem_inOrder.mpr hdescends.mem) hzero
  refine ⟨walk.romNo, ?_, ?_, hdescends⟩
  · rw [hsearch, Search.conclude]
    dsimp only
    rw [if_neg hgoes]
  · rw [hsearch, Search.conclude]
    dsimp only
    rw [if_neg hgoes]
    exact ⟨rfl, hdescends.mem, hlast, by simp [hflag]⟩

variable (searchMode slaves) in
/-- A call that is not allowed to walk, or finds nobody, makes the next one like a first one. -/
theorem search_not_found {state : Search}
    (h : state.lastDeviceFlag = true ∨ inOrder searchMode (slaves.map badge) = []) :
    (search (bus functions) searchMode state slaves).1 = none ∧
      Fresh (search (bus functions) searchMode state slaves).2.1 := by
  by_cases hflag : state.lastDeviceFlag = true
  · rw [search, if_pos hflag]
    exact ⟨rfl, fresh_forgotten state⟩
  · have hnone : ∀ slave ∈ slaves, participates searchMode slave.device = false := by
      intro slave hslave
      by_contra htakes
      have hmem : slave.device.rom ∈ inOrder searchMode (slaves.map badge) :=
        mem_inOrder.mpr ⟨slave, hslave, Bool.eq_true_of_not_eq_false htakes, rfl⟩
      rw [h.resolve_left hflag] at hmem
      exact List.not_mem_nil hmem
    obtain ⟨hreturned, hstate⟩ :=
      search_of_none functions (Bool.eq_false_of_not_eq_true hflag) hnone
    exact ⟨hreturned, hstate ▸ fresh_forgotten state⟩

/-- A state in which the call that gives the answer with a number of a round is due. -/
def Due (words : Set (Fin 64 → Bool)) (codes : List Rom) (index : ℕ) (state : Search) : Prop :=
  index < (round codes).length ∧
    match index with
    | 0 => Fresh state
    | index + 1 => ∃ rom, codes[index]? = some rom ∧ Found words rom state

variable (searchMode) in
/-- One call gives the answer that is due, and the one after it becomes due. -/
theorem search_due {state : Search} {index : ℕ}
    (hfamily : ∀ rom ∈ inOrder searchMode (slaves.map badge), rom.byte 0 ≠ 0)
    (hdue : Due (codes searchMode slaves) (inOrder searchMode (slaves.map badge)) index state) :
    (round (inOrder searchMode (slaves.map badge)))[index]? =
        some (search (bus functions) searchMode state slaves).1 ∧
      Due (codes searchMode slaves) (inOrder searchMode (slaves.map badge))
        ((index + 1) % (round (inOrder searchMode (slaves.map badge))).length)
        (search (bus functions) searchMode state slaves).2.1 := by
  have hsorted := sortedLT_inOrder searchMode (slaves.map badge)
  have hmem {rom : Rom} : rom ∈ inOrder searchMode (slaves.map badge) ↔
      rom.bits ∈ codes searchMode slaves := mem_inOrder
  generalize hcodes : inOrder searchMode (slaves.map badge) = codes at *
  have hfound {index : ℕ} {rom : Rom} {next : Search} (hat : codes[index]? = some rom)
      (h : Found (DeviceSearch.codes searchMode slaves) rom next) :
      Due (DeviceSearch.codes searchMode slaves) codes ((index + 1) % (round codes).length)
        next := by
    obtain ⟨hindex, -⟩ := List.getElem?_eq_some_iff.mp hat
    have hlt : index + 1 < (round codes).length := by
      rw [length_round]
      exact Nat.succ_lt_succ hindex
    rw [Nat.mod_eq_of_lt hlt]
    exact ⟨hlt, rom, hat, h⟩
  have hfresh {index : ℕ} {next : Search} (hat : codes.length = index) (h : Fresh next) :
      Due (DeviceSearch.codes searchMode slaves) codes ((index + 1) % (round codes).length)
        next := by
    rw [length_round, hat, Nat.mod_self]
    exact ⟨by rw [length_round]; exact Nat.succ_pos _, h⟩
  rw [← hcodes] at hfamily
  obtain ⟨hrange, hstate⟩ := hdue
  cases index with
  | zero =>
    rcases eq_or_ne codes [] with hempty | hsome
    · obtain ⟨hreturned, hnext⟩ :=
        search_not_found functions searchMode slaves (Or.inr (hcodes.trans hempty))
      have hlength : codes.length = 0 := by
        rw [hempty]
        rfl
      rw [hreturned, ← hlength]
      exact ⟨getElem?_round_length codes, hfresh rfl hnext⟩
    · obtain ⟨rom, hreturned, hnext, hdescends⟩ :=
        search_found functions hstate.lastDeviceFlag hfamily (hcodes ▸ hsome)
      rw [hstate.lastDiscrepancy] at hdescends
      have hfirst := getElem?_zero_of_least hsorted (hmem.mpr hdescends.mem)
        fun other hother ↦ hdescends.least _ (hmem.mp hother)
      rw [hreturned]
      exact ⟨getElem?_round hfirst, hfound hfirst hnext⟩
  | succ index =>
    obtain ⟨previous, hprevious, rfl, hprevMem, hlast, hflag⟩ := hstate
    rcases Nat.eq_zero_or_pos state.lastDiscrepancy with hzero | hpositive
    · rw [hzero] at hlast hflag
      obtain ⟨hreturned, hnext⟩ :=
        search_not_found functions searchMode slaves (Or.inl hflag)
      have hlength := length_of_greatest hsorted hprevious
        fun other hother ↦ hlast.greatest _ (hmem.mp hother)
      rw [hreturned, ← hlength]
      exact ⟨getElem?_round_length codes, hfresh rfl hnext⟩
    · have hgoes : state.lastDeviceFlag = false := by
        rw [hflag, beq_eq_false_iff_ne]
        exact Nat.ne_of_gt hpositive
      have hsome : codes ≠ [] := List.ne_nil_of_mem (hmem.mpr hprevMem)
      obtain ⟨rom, hreturned, hnext, hdescends⟩ :=
        search_found functions hgoes hfamily (hcodes ▸ hsome)
      obtain ⟨hlt, hleast⟩ := hdescends.successor hprevMem hlast hpositive
      have hat := getElem?_succ_of_next hsorted hprevious (hmem.mpr hdescends.mem) hlt
        fun other hother ↦ hleast _ (hmem.mp hother)
      rw [hreturned]
      exact ⟨getElem?_round hat, hfound hat hnext⟩

/-- From any state at all, one call gives some answer of a round, and the one behind it becomes
due. -/
theorem exists_search_due (state : Search)
    (hfamily : ∀ rom ∈ inOrder searchMode (slaves.map badge), rom.byte 0 ≠ 0) :
    ∃ index, (round (inOrder searchMode (slaves.map badge)))[index]? =
        some (search (bus functions) searchMode state slaves).1 ∧
      Due (codes searchMode slaves) (inOrder searchMode (slaves.map badge))
        ((index + 1) % (round (inOrder searchMode (slaves.map badge))).length)
        (search (bus functions) searchMode state slaves).2.1 := by
  by_cases hgoes : state.lastDeviceFlag = true ∨ inOrder searchMode (slaves.map badge) = []
  · obtain ⟨hreturned, hnext⟩ := search_not_found functions searchMode slaves hgoes
    refine ⟨_, hreturned ▸ getElem?_round_length _, ?_⟩
    rw [length_round, Nat.mod_self]
    exact ⟨by rw [length_round]; exact Nat.succ_pos _, hnext⟩
  · rw [not_or] at hgoes
    obtain ⟨rom, hreturned, hnext, hdescends⟩ :=
      search_found functions (Bool.eq_false_of_not_eq_true hgoes.1) hfamily hgoes.2
    obtain ⟨index, hindex, hrom⟩ := List.getElem_of_mem (mem_inOrder.mpr hdescends.mem)
    have hat : (inOrder searchMode (slaves.map badge))[index]? = some rom :=
      List.getElem?_eq_some_iff.mpr ⟨hindex, hrom⟩
    have hlt : index + 1 < (round (inOrder searchMode (slaves.map badge))).length := by
      rw [length_round]
      exact Nat.succ_lt_succ hindex
    refine ⟨index, hreturned ▸ getElem?_round hat, ?_⟩
    rw [Nat.mod_eq_of_lt hlt]
    exact ⟨hlt, rom, hat, hnext⟩

/-! ### Runs -/

/-- A master, its bus, and what its searches have returned, newest first. -/
structure Session (Memory Task : Type) where
  search : Search
  wire : List (Slave Memory Task)
  returned : List (Option Rom)

/-- A call of `search`, or anything else a master does on the bus: a reset or a slot. A read slot is
a slot in which the master lets the wire go. -/
inductive Action
  | search
  | reset
  | slot (level : Bool)

/-- The effect of an action. -/
def act (searchMode : Bool) (session : Session Memory Task) : Action → Session Memory Task
  | .search =>
    let result := RomSearch.search (bus functions) searchMode session.search session.wire
    { search := result.2.1, wire := result.2.2, returned := result.1 :: session.returned }
  | .reset => { session with wire := ((bus functions).reset session.wire).2 }
  | .slot level => { session with wire := (bus functions).writeBit level session.wire }

/-- The sessions on a bus with given devices. They begin with no search returned, and in a state of
the master that has a property. -/
def sessions (searchMode : Bool) (badges : List Badge) (start : Search → Prop) :
    System (Session Memory Task) Action where
  initial session := session.returned = [] ∧ session.wire.map badge = badges ∧ start session.search
  step session action := some (act functions searchMode session action)

variable {functions} {badges : List Badge} {start : Search → Prop}
  {trace : List (Transition (Session Memory Task) Action)} {session : Session Memory Task}

/-- A list of actions is a run. -/
theorem exists_run (hinitial : (sessions functions searchMode badges start).initial session)
    (actions : List Action) :
    ∃ trace, Run (sessions functions searchMode badges start) trace
      (actions.foldl (act functions searchMode) session) := by
  suffices h : ∀ (trace : List (Transition (Session Memory Task) Action)) session,
      Run (sessions functions searchMode badges start) trace session →
        ∃ trace, Run (sessions functions searchMode badges start) trace
          (actions.foldl (act functions searchMode) session) from h [] session (Run.start hinitial)
  clear hinitial
  induction actions with
  | nil => exact fun trace session hrun ↦ ⟨trace, hrun⟩
  | cons action rest ih => exact fun trace session hrun ↦ ih _ _ (hrun.step rfl)

/-- The devices stay what they are. -/
theorem badges_of_run (hrun : Run (sessions functions searchMode badges start) trace session) :
    session.wire.map badge = badges := by
  refine hrun.invariant (I := fun session ↦ session.wire.map badge = badges) ?_ ?_
  · rintro session ⟨-, hbadges, -⟩
    exact hbadges
  intro before action after hbefore hstep
  obtain rfl := Option.some.inj hstep
  have hkeeps := keeps_badges functions badges
  cases action with
  | search => exact hkeeps.search searchMode _ hbefore
  | reset => exact hkeeps.reset _ hbefore
  | slot level => exact hkeeps.writeBit level _ hbefore

/-- What is due after the answers of a log. -/
def DueAfter (searchMode : Bool) (badges : List Badge) (offset : ℕ)
    (session : Session Memory Task) : Prop :=
  Follows (round (inOrder searchMode badges)) offset session.returned ∧
    Due (codes searchMode session.wire) (inOrder searchMode badges)
      ((offset + session.returned.length) % (round (inOrder searchMode badges)).length)
      session.search

/-- The words are those of the codes in order. -/
theorem codes_of_inOrder {other : List (Slave Memory Task)}
    (h : inOrder searchMode (other.map badge) = inOrder searchMode (slaves.map badge)) :
    codes searchMode other = codes searchMode slaves := by
  ext word
  have hword : ∀ wire : List (Slave Memory Task), word ∈ codes searchMode wire ↔
      ∃ rom ∈ inOrder searchMode (wire.map badge), rom.bits = word := by
    intro wire
    constructor
    · rintro ⟨slave, hslave, htakes, rfl⟩
      exact ⟨_, mem_inOrder.mpr ⟨slave, hslave, htakes, rfl⟩, rfl⟩
    · rintro ⟨rom, hrom, rfl⟩
      exact mem_inOrder.mp hrom
  rw [hword, hword, h]

variable (searchMode) in
theorem codes_congr {other : List (Slave Memory Task)} (h : other.map badge = slaves.map badge) :
    codes searchMode other = codes searchMode slaves :=
  codes_of_inOrder (congrArg (inOrder searchMode) h)

/-- Every action goes on with the round. -/
theorem dueAfter_act (action : Action) {offset : ℕ}
    (hfamily : ∀ rom ∈ inOrder searchMode badges, rom.byte 0 ≠ 0)
    (hbadges : session.wire.map badge = badges) (hdue : DueAfter searchMode badges offset session) :
    DueAfter searchMode badges offset (act functions searchMode session action) := by
  subst hbadges
  have hkeeps := keeps_badges functions (session.wire.map badge)
  obtain ⟨hfollows, hdue⟩ := hdue
  cases action with
  | search =>
    obtain ⟨hanswer, hnext⟩ := search_due functions searchMode hfamily hdue
    have hwire := hkeeps.search searchMode session.search (Eq.refl (session.wire.map badge))
    refine ⟨hfollows.cons hanswer, ?_⟩
    have hcodes := codes_congr searchMode hwire
    rw [Nat.mod_add_mod] at hnext
    change Due (codes searchMode (search (bus functions) searchMode session.search
      session.wire).2.2) _ _ _
    rw [hcodes]
    exact hnext
  | reset =>
    have hcodes := codes_congr searchMode (hkeeps.reset session.wire rfl)
    exact ⟨hfollows, hcodes ▸ hdue⟩
  | slot level =>
    have hcodes := codes_congr searchMode (hkeeps.writeBit level session.wire rfl)
    exact ⟨hfollows, hcodes ▸ hdue⟩

/-- After a first search, or a reset of the search, the calls go round the devices that take part:
each of them once in order, then FALSE, and again. -/
theorem searches_enumerate (hfamily : ∀ rom ∈ inOrder searchMode badges, rom.byte 0 ≠ 0)
    (hrun : Run (sessions functions searchMode badges Fresh) trace session) :
    Follows (round (inOrder searchMode badges)) 0 session.returned := by
  suffices h : DueAfter searchMode badges 0 session from h.1
  induction hrun with
  | start hinitial =>
    obtain ⟨hreturned, -, hfresh⟩ := hinitial
    rw [DueAfter, hreturned]
    have hlength : 0 < (round (inOrder searchMode badges)).length := by
      rw [length_round]
      exact Nat.succ_pos _
    rw [List.length_nil, Nat.add_zero, Nat.zero_mod]
    exact ⟨follows_nil _ _, hlength, hfresh⟩
  | step hrun hstep ih =>
    obtain rfl := Option.some.inj hstep
    exact dueAfter_act _ hfamily (badges_of_run hrun) ih

/-- A session with three devices, in a state of the master. -/
def threeDevicesSession (search : Search) : Session Unit Unit := ⟨search, threeDevices, []⟩

theorem searches_enumerate_threeDevices :
    Follows (round (inOrder true (threeDevices.map badge))) 0
      ([Action.search, .reset, .search, .slot true, .search, .search, .search].foldl
        (act silent true) (threeDevicesSession (resetSearch ⟨.zero, 3, 0, true⟩))).returned := by
  have hinitial : (sessions silent true (threeDevices.map badge) Fresh).initial
      (threeDevicesSession (resetSearch ⟨.zero, 3, 0, true⟩)) :=
    ⟨rfl, rfl, fresh_resetSearch _⟩
  have hfamily : ∀ rom ∈ present true (threeDevices.map badge), rom.byte 0 ≠ 0 := by decide
  obtain ⟨trace, hrun⟩ := exists_run hinitial _
  exact searches_enumerate (fun rom hrom ↦ hfamily rom (mem_inOrder_iff.mp hrom)) hrun

/-- A first call whose answer is known leads into the round at that answer. -/
theorem dueAfter_first (hreturned : session.returned = [])
    (hbadges : session.wire.map badge = badges) {index : ℕ}
    (hanswer : (round (inOrder searchMode badges))[index]? =
      some (search (bus functions) searchMode session.search session.wire).1)
    (hdue : Due (codes searchMode session.wire) (inOrder searchMode badges)
      ((index + 1) % (round (inOrder searchMode badges)).length)
      (search (bus functions) searchMode session.search session.wire).2.1) :
    DueAfter searchMode badges index (act functions searchMode session .search) := by
  have hwire := (keeps_badges functions badges).search searchMode session.search hbadges
  have hcodes := codes_congr searchMode (hwire.trans hbadges.symm)
  obtain ⟨hindex, -⟩ := List.getElem?_eq_some_iff.mp hanswer
  have hlog : (act functions searchMode session .search).returned =
      [(search (bus functions) searchMode session.search session.wire).1] :=
    congrArg _ hreturned
  refine ⟨?_, ?_⟩
  · rw [hlog]
    refine (follows_nil _ _).cons ?_
    rwa [List.length_nil, Nat.add_zero, Nat.mod_eq_of_lt hindex]
  · rw [hlog, List.length_singleton]
    exact hcodes ▸ hdue

/-- Whatever state the master begins in, the calls go round the devices that take part from
somewhere on. -/
theorem searches_recover (hfamily : ∀ rom ∈ inOrder searchMode badges, rom.byte 0 ≠ 0)
    (hrun : Run (sessions functions searchMode badges fun _ ↦ True) trace session) :
    ∃ offset, Follows (round (inOrder searchMode badges)) offset session.returned := by
  suffices h : session.returned = [] ∨ ∃ offset, DueAfter searchMode badges offset session by
    rcases h with hempty | ⟨offset, hdue⟩
    · exact ⟨0, hempty ▸ follows_nil _ _⟩
    · exact ⟨offset, hdue.1⟩
  induction hrun with
  | start hinitial => exact Or.inl hinitial.1
  | @step trace before after action hrun hstep ih =>
    obtain rfl := Option.some.inj hstep
    have hbadges := badges_of_run hrun
    rcases ih with hempty | ⟨offset, hdue⟩
    · cases action with
      | search =>
        have hfamilyHere := hbadges.symm ▸ hfamily
        obtain ⟨index, hanswer, hdue⟩ :=
          exists_search_due functions before.search hfamilyHere
        rw [hbadges] at hanswer hdue
        exact Or.inr ⟨index, dueAfter_first hempty hbadges hanswer hdue⟩
      | reset => exact Or.inl hempty
      | slot level => exact Or.inl hempty
    · exact Or.inr ⟨offset, dueAfter_act action hfamily hbadges hdue⟩

theorem searches_recover_threeDevices :
    ∃ offset, Follows (round (inOrder true (threeDevices.map badge))) offset
      ([Action.search, .search, .reset, .search].foldl (act silent true)
        (threeDevicesSession ⟨codeOf 0x28 2 0x70, 33, 0, false⟩)).returned := by
  have hinitial : (sessions silent true (threeDevices.map badge) fun _ ↦ True).initial
      (threeDevicesSession ⟨codeOf 0x28 2 0x70, 33, 0, false⟩) :=
    ⟨rfl, rfl, trivial⟩
  have hfamily : ∀ rom ∈ present true (threeDevices.map badge), rom.byte 0 ≠ 0 := by decide
  obtain ⟨trace, hrun⟩ := exists_run hinitial _
  exact searches_recover (fun rom hrom ↦ hfamily rom (mem_inOrder_iff.mp hrom)) hrun

/-! ### Codes with the family 0 -/

/-- The bits of the first byte. -/
theorem byte_zero_eq_zero_iff (rom : Rom) :
    rom.byte 0 = 0 ↔ ∀ place : Fin 64, place.val < 8 → rom.bits place = false := by
  have hbit (place : Fin 64) (hplace : place.val < 8) :
      rom.bits place = (rom.byte 0).getLsbD place := by
    rw [Rom.bits, Rom.bitAt, Nat.div_eq_of_lt hplace, Nat.mod_eq_of_lt hplace]
    rfl
  constructor
  · intro h place hplace
    rw [hbit place hplace, h]
    exact BitVec.getLsbD_zero
  · intro h
    refine BitVec.eq_of_getLsbD_eq fun place hplace ↦ ?_
    have hlt : place < 64 := by omega
    rw [← hbit ⟨place, hlt⟩ hplace, h ⟨place, hlt⟩ hplace]
    exact BitVec.getLsbD_zero.symm

/-- The first of all codes has the family 0 if any code has it. -/
theorem byte_zero_of_least {least rom : Rom} (hrom : rom.byte 0 = 0) (hle : least ≤ rom) :
    least.byte 0 = 0 := by
  rw [byte_zero_eq_zero_iff] at hrom ⊢
  by_contra hset
  push Not at hset
  obtain ⟨place, hplace, hset⟩ := hset
  have hword : toLex least.bits ≤ toLex rom.bits := hle
  refine absurd hword (not_le.mpr ?_)
  have hsome : ∃ i : ℕ, ∃ h : i < 64, least.bits ⟨i, h⟩ = true :=
    ⟨place, place.isLt, Bool.eq_true_of_not_eq_false hset⟩
  have hfind := Nat.find_spec hsome
  have hmin := fun i h ↦ Nat.find_min (m := i) hsome h
  have hfirst : Nat.find hsome ≤ place :=
    Nat.find_min' hsome ⟨place.isLt, Bool.eq_true_of_not_eq_false hset⟩
  obtain ⟨hrange, hbit⟩ := hfind
  refine (lt_iff _ _).mpr ⟨⟨Nat.find hsome, hrange⟩, fun j hj ↦ ?_, ?_, hbit⟩
  · have hclear : ¬ least.bits j = true := fun h ↦ hmin j hj ⟨j.isLt, h⟩
    rw [Bool.eq_false_of_not_eq_true hclear]
    exact hrom j (Nat.lt_of_lt_of_le (Nat.lt_of_lt_of_le hj hfirst) hplace.le)
  · exact hrom _ (Nat.lt_of_le_of_lt hfirst hplace)

/-- One device whose code begins with the byte 0 hides them all: no call finds a device. -/
theorem searches_none (hzero : ∃ rom ∈ inOrder searchMode badges, rom.byte 0 = 0)
    (hrun : Run (sessions functions searchMode badges Fresh) trace session) :
    ∀ answer ∈ session.returned, answer = none := by
  suffices h : Fresh session.search ∧ ∀ answer ∈ session.returned, answer = none from h.2
  induction hrun with
  | start hinitial =>
    obtain ⟨hreturned, -, hfresh⟩ := hinitial
    exact ⟨hfresh, hreturned ▸ fun _ h ↦ absurd h List.not_mem_nil⟩
  | @step trace before after action hrun hstep ih =>
    obtain rfl := Option.some.inj hstep
    obtain ⟨hfresh, hreturned⟩ := ih
    cases action with
    | search =>
      obtain ⟨rom, hrom, hfamily⟩ := hzero
      rw [← badges_of_run hrun] at hrom
      have hword := mem_inOrder.mp hrom
      obtain ⟨slave, hslave, htakes, hbits⟩ := hword
      obtain ⟨walk, hsearch, -, hdescends, -⟩ :=
        search_of_some functions searchMode hfresh.lastDeviceFlag ⟨slave, hslave, htakes⟩
      rw [hfresh.lastDiscrepancy] at hdescends
      have hgives : walk.idBitNumber < 65 ∨ walk.romNo.byte 0 = 0 :=
        Or.inr (byte_zero_of_least hfamily (hdescends.least _ ⟨slave, hslave, htakes, hbits⟩))
      have hresult : (search (bus functions) searchMode before.search before.wire).1 = none ∧
          Fresh (search (bus functions) searchMode before.search before.wire).2.1 := by
        rw [hsearch, Search.conclude]
        dsimp only
        rw [if_pos hgives]
        exact ⟨rfl, fresh_forgotten _⟩
      exact ⟨hresult.2, List.forall_mem_cons.mpr ⟨hresult.1, hreturned⟩⟩
    | reset => exact ⟨hfresh, hreturned⟩
    | slot level => exact ⟨hfresh, hreturned⟩

/-- A device with the family 0 beside the three devices. -/
def hiddenDevices : List (Slave Unit Unit) := ⟨⟨codeOf 0 1 0, false, ()⟩, .idle⟩ :: threeDevices

theorem searches_none_hiddenDevices :
    ∃ trace session, Run (sessions silent true (hiddenDevices.map badge) Fresh) trace session ∧
      session.returned.length = 3 ∧ ∀ answer ∈ session.returned, answer = none := by
  have hinitial : (sessions silent true (hiddenDevices.map badge) Fresh).initial
      ⟨resetSearch ⟨.zero, 0, 0, false⟩, hiddenDevices, []⟩ :=
    ⟨rfl, rfl, fresh_resetSearch _⟩
  have hzero : ∃ rom ∈ present true (hiddenDevices.map badge), rom.byte 0 = 0 := by decide
  obtain ⟨rom, hrom, hfamily⟩ := hzero
  obtain ⟨trace, hrun⟩ := exists_run hinitial [.search, .search, .reset, .search]
  refine ⟨trace, _, hrun, ?_, searches_none ⟨rom, mem_inOrder_iff.mpr hrom, hfamily⟩ hrun⟩
  decide +kernel

end Sketchbook.OneWire.DeviceEnumeration
