import Sketchbook.OneWire.AlarmSearch

/-!
# Calling the handler of the alarms

`processAlarms` resets the alarm search, and calls it and the handler until it finds no device.
Where `char` is signed it ends, and the handler has been called for every device with an alarm and a
valid address once, in the order of the codes (`processAlarms_eq`). Where it is unsigned, and all
addresses are valid, it ends only if there is at most one device with an alarm
(`processAlarms_isSome_iff`): otherwise each call finds the first one again.

In between the handler may use the bus as it likes, as long as the codes and the alarms of the
devices stay what they are. One that lets the devices measure again can change the alarms.
-/

set_option autoImplicit false
set_option relaxedAutoImplicit false

namespace Sketchbook.OneWire.AlarmHandling

open Foundation.BitDescent Foundation.SortedRound
open RomSearch SlaveBus DeviceSearch DeviceEnumeration DallasTemperature TargetSearch AlarmSearch

/-! ### The functions -/

section Library

variable {Wire : Type*} (bus : Bus Wire) (signed : Bool)

/-- `hasAlarm` for the whole bus. -/
def hasAlarm (state : Alarms) (wire : Wire) : Bool × Alarms × Wire :=
  let result := alarmSearch bus signed (resetAlarmSearch state) wire
  (result.1.isSome, result.2)

/-- The loop of `processAlarms`, `none` while it is still running, with the addresses for which it
calls the handler. -/
def alarmsLoop (handler : Rom → Wire → Wire) : ℕ → Alarms → Wire →
    Option (List Rom × Alarms × Wire)
  | 0, _, _ => none
  | turns + 1, state, wire =>
    match alarmSearch bus signed state wire with
    | (none, state, wire) => some ([], state, wire)
    | (some address, state, wire) =>
      if validAddress address then
        (alarmsLoop handler turns state (handler address wire)).map fun rest ↦
          (address :: rest.1, rest.2)
      else alarmsLoop handler turns state wire

/-- `processAlarms`, when its loop ends within a number of turns. -/
def processAlarms (handler : Rom → Wire → Wire) (turns : ℕ) (state : Alarms) (wire : Wire) :
    Option (List Rom × Alarms × Wire) :=
  alarmsLoop bus signed handler turns (resetAlarmSearch state) wire

end Library

/-! ### Going through the devices -/

variable {Memory Task : Type} {functions : Functions Memory Task}
  {slaves : List (Slave Memory Task)} {state : Alarms} {signed : Bool}

/-- The codes of the devices with an alarm, in order. -/
noncomputable def alarmed (slaves : List (Slave Memory Task)) : List Rom :=
  inOrder false (slaves.map badge)

theorem mem_alarmed {rom : Rom} : rom ∈ alarmed slaves ↔ rom.bits ∈ codes false slaves :=
  mem_inOrder

theorem alarmed_congr {other : List (Slave Memory Task)} (h : other.map badge = slaves.map badge) :
    alarmed other = alarmed slaves := congrArg (inOrder false) h

theorem exists_participates (hsome : alarmed slaves ≠ []) :
    ∃ slave ∈ slaves, participates false slave.device = true := by
  obtain ⟨rom, hrom⟩ := List.exists_mem_of_ne_nil _ hsome
  obtain ⟨slave, hslave, htakes, -⟩ := mem_alarmed.mp hrom
  exact ⟨slave, hslave, htakes⟩

theorem not_participates (hnone : alarmed slaves = []) :
    ∀ slave ∈ slaves, participates false slave.device = false := by
  intro slave hslave
  by_contra htakes
  have hmem : slave.device.rom ∈ alarmed slaves :=
    mem_alarmed.mpr ⟨slave, hslave, Bool.eq_true_of_not_eq_false htakes, rfl⟩
  rw [hnone] at hmem
  exact List.not_mem_nil hmem

variable (functions signed) in
theorem badges_alarmSearch (state : Alarms) (slaves : List (Slave Memory Task)) :
    (alarmSearch (bus functions) signed state slaves).2.2.map badge = slaves.map badge :=
  keeps_alarmSearch (keeps_badges functions (slaves.map badge)) signed state rfl

theorem alarmSearch_of_exhausted (hexhausted : state.alarmSearchExhausted = true) :
    (alarmSearch (bus functions) signed state slaves).1 = none := by
  rw [alarmSearch, if_pos hexhausted]

/-- A state in which the device with an index is due. -/
inductive Due (words : Set (Fin 64 → Bool)) (codes : List Rom) : ℕ → Alarms → Prop
  | first {state : Alarms} (hjunction : state.alarmSearchJunction = -1)
      (hexhausted : state.alarmSearchExhausted = false) : Due words codes 0 state
  | behind {state : Alarms} {index last : ℕ}
      (hfound : codes[index]? = some state.alarmSearchAddress)
      (hlast : LastSkip words state.alarmSearchAddress.bits last)
      (hjunction : state.alarmSearchJunction = junctionOf last)
      (hexhausted : state.alarmSearchExhausted = (last == 0)) : Due words codes (index + 1) state

theorem due_resetAlarmSearch (words : Set (Fin 64 → Bool)) (codes : List Rom) (state : Alarms) :
    Due words codes 0 (resetAlarmSearch state) := .first rfl rfl

variable (functions) in
/-- With a signed `char`, the call that is due finds the device with the index, or none. -/
theorem alarmSearch_due {index : ℕ} (hdue : Due (codes false slaves) (alarmed slaves) index state) :
    (alarmSearch (bus functions) true state slaves).1 = (alarmed slaves)[index]? ∧
      (index < (alarmed slaves).length → Due (codes false slaves) (alarmed slaves) (index + 1)
        (alarmSearch (bus functions) true state slaves).2.1) := by
  have hsorted : (alarmed slaves).SortedLT := sortedLT_inOrder false (slaves.map badge)
  cases hdue with
  | first hjunction hexhausted =>
    rcases eq_or_ne (alarmed slaves) [] with hempty | hsome
    · obtain ⟨hreturned, -⟩ := alarmSearch_of_none functions true state (not_participates hempty)
      rw [hreturned, hempty]
      exact ⟨rfl, fun hlt ↦ absurd hlt (Nat.not_lt_zero _)⟩
    · have hturn : turnOf true state.alarmSearchJunction = 0 := by
        rw [hjunction]
        decide
      obtain ⟨rom, last, next, hsearch, hreached⟩ := alarmSearch_of_some functions true hexhausted
        ⟨0, Nat.zero_le _, hjunction⟩ (exists_participates hsome)
      have hdescends := hreached.descends
      rw [hturn] at hdescends
      have hfirst := getElem?_zero_of_least hsorted (mem_alarmed.mpr hdescends.mem)
        fun other hother ↦ hdescends.least _ (mem_alarmed.mp hother)
      rw [hsearch, hfirst]
      refine ⟨rfl, fun _ ↦ .behind (hreached.address.symm ▸ hfirst)
        (hreached.address.symm ▸ hreached.lastSkip) ?_ hreached.exhausted⟩
      refine hreached.moved (by rw [hturn]; decide) fun place hplace ↦ ?_
      rw [hturn] at hplace
      exact absurd hplace (Nat.succ_ne_zero _)
  | @behind _ index last hfound hlast hjunction hexhausted =>
    rcases Nat.eq_zero_or_pos last with rfl | hpositive
    · rw [alarmSearch_of_exhausted hexhausted]
      have hlength := length_of_greatest hsorted hfound
        fun other hother ↦ hlast.greatest _ (mem_alarmed.mp hother)
      rw [hlength]
      exact ⟨(List.getElem?_eq_none hlength.le).symm, fun hlt ↦ absurd hlt (lt_irrefl _)⟩
    · have hmem := mem_alarmed.mp (List.mem_of_getElem? hfound)
      obtain ⟨skip, hskip, -⟩ := hlast.skipped hpositive
      have hrange : last ≤ 64 := hskip ▸ skip.isLt
      have hturn : turnOf true state.alarmSearchJunction = last := by
        rw [hjunction, turnOf_junctionOf hrange]
      have hgoes : state.alarmSearchExhausted = false := by
        rw [hexhausted, beq_eq_false_iff_ne]
        exact Nat.ne_of_gt hpositive
      obtain ⟨rom, deepest, next, hsearch, hreached⟩ := alarmSearch_of_some functions true hgoes
        ⟨last, hrange, hjunction⟩ (exists_participates (List.ne_nil_of_mem (mem_alarmed.mpr hmem)))
      have hdescends := hreached.descends
      rw [hturn] at hdescends
      obtain ⟨hlt, hleast⟩ := hdescends.successor hmem hlast hpositive
      have hnext := getElem?_succ_of_next hsorted hfound (mem_alarmed.mpr hdescends.mem) hlt
        fun other hother ↦ hleast _ (mem_alarmed.mp hother)
      rw [hsearch, hnext]
      refine ⟨rfl, fun _ ↦ .behind (hreached.address.symm ▸ hnext)
        (hreached.address.symm ▸ hreached.lastSkip) ?_ hreached.exhausted⟩
      refine hreached.moved (hturn.symm ▸ hrange) fun place hplace ↦ ?_
      exact hdescends.discrepancy hmem hlast (hplace.trans hturn)

/-! ### A signed `char` -/

/-- The loop from a device on calls the handler for the rest of the devices. -/
theorem alarmsLoop_eq {handler : Rom → List (Slave Memory Task) → List (Slave Memory Task)}
    (hhandler : ∀ address wire, (handler address wire).map badge = wire.map badge)
    {turns index : ℕ} (hdue : Due (codes false slaves) (alarmed slaves) index state)
    (hindex : index ≤ (alarmed slaves).length) (hturns : (alarmed slaves).length < turns + index) :
    ∃ last other, alarmsLoop (bus functions) true handler turns state slaves =
        some (((alarmed slaves).drop index).filter validAddress, last, other) ∧
      other.map badge = slaves.map badge := by
  induction turns generalizing index state slaves with
  | zero => omega
  | succ turns ih =>
    obtain ⟨hreturned, hnext⟩ := alarmSearch_due functions hdue
    have hbadges := badges_alarmSearch functions true state slaves
    rw [alarmsLoop]
    generalize alarmSearch (bus functions) true state slaves = result at hreturned hnext hbadges
    obtain ⟨answer, next, after⟩ := result
    dsimp only at hreturned hnext hbadges
    rcases Nat.lt_or_eq_of_le hindex with hlt | rfl
    · rw [List.getElem?_eq_getElem hlt] at hreturned
      subst hreturned
      have hrest (wire : List (Slave Memory Task)) (hwire : wire.map badge = slaves.map badge) :
          ∃ last other, alarmsLoop (bus functions) true handler turns next wire =
              some (((alarmed slaves).drop (index + 1)).filter validAddress, last, other) ∧
            other.map badge = slaves.map badge := by
        have hwords := codes_congr false hwire
        have hcodes := alarmed_congr hwire
        have hleft := hnext hlt
        rw [← hwords, ← hcodes] at hleft
        obtain ⟨last, other, hloop, hother⟩ := ih hleft (by rw [hcodes]; omega)
          (by rw [hcodes]; omega)
        rw [hcodes] at hloop
        exact ⟨last, other, hloop, hother.trans hwire⟩
      rw [List.drop_eq_getElem_cons hlt]
      dsimp only
      by_cases hvalid : validAddress (alarmed slaves)[index] = true
      · obtain ⟨last, other, hloop, hother⟩ :=
          hrest (handler (alarmed slaves)[index] after) ((hhandler _ _).trans hbadges)
        rw [if_pos hvalid, hloop, Option.map_some, List.filter_cons_of_pos hvalid]
        exact ⟨last, other, rfl, hother⟩
      · obtain ⟨last, other, hloop, hother⟩ := hrest after hbadges
        rw [if_neg hvalid, hloop, List.filter_cons_of_neg hvalid]
        exact ⟨last, other, rfl, hother⟩
    · rw [List.getElem?_eq_none le_rfl] at hreturned
      subst hreturned
      rw [List.drop_length]
      exact ⟨next, after, rfl, hbadges⟩

/-- With a signed `char`, `processAlarms` ends and has called the handler for the devices with an
alarm and a valid address, once and in order, and `hasAlarm` says whether there is an alarm. -/
theorem processAlarms_eq {handler : Rom → List (Slave Memory Task) → List (Slave Memory Task)}
    (hhandler : ∀ address wire, (handler address wire).map badge = wire.map badge)
    (state : Alarms) (slaves : List (Slave Memory Task)) {turns : ℕ}
    (hturns : (alarmed slaves).length < turns) :
    (hasAlarm (bus functions) true state slaves).1 = !(alarmed slaves).isEmpty ∧
      ∃ last other, processAlarms (bus functions) true handler turns state slaves =
          some ((alarmed slaves).filter validAddress, last, other) ∧
        other.map badge = slaves.map badge := by
  have hdue := due_resetAlarmSearch (codes false slaves) (alarmed slaves) state
  refine ⟨?_, alarmsLoop_eq hhandler hdue (Nat.zero_le _) hturns⟩
  rw [hasAlarm, (alarmSearch_due functions hdue).1]
  cases alarmed slaves <;> rfl

/-- Three devices, two of them with an alarm. -/
def twoAlarms : List (Slave Unit Unit) :=
  [(codeOf 0x28 1 0x29, true), (codeOf 0x10 1 0xCC, false), (codeOf 0x28 2 0x70, true)].map
    fun badge ↦ ⟨⟨badge.1, badge.2, ()⟩, .idle⟩

/-- A handler that resets the bus. -/
def resetting (_ : Rom) (wire : List (Slave Unit Unit)) : List (Slave Unit Unit) :=
  ((bus silent).reset wire).2

theorem badges_resetting (address : Rom) (wire : List (Slave Unit Unit)) :
    (resetting address wire).map badge = wire.map badge :=
  (keeps_badges silent (wire.map badge)).reset wire rfl

theorem processAlarms_eq_twoAlarms :
    (hasAlarm (bus silent) true ⟨.zero, 3, true⟩ twoAlarms).1 = !(alarmed twoAlarms).isEmpty ∧
      ∃ last other, processAlarms (bus silent) true resetting 4 ⟨.zero, 3, true⟩ twoAlarms =
          some ((alarmed twoAlarms).filter validAddress, last, other) ∧
        other.map badge = twoAlarms.map badge :=
  processAlarms_eq badges_resetting ⟨.zero, 3, true⟩ twoAlarms
    (Nat.lt_succ_of_le (length_inOrder_le _))

/-! ### An unsigned `char` -/

theorem turnOf_reset (hjunction : state.alarmSearchJunction = -1) :
    turnOf false state.alarmSearchJunction = 256 := by
  rw [hjunction, turnOf_unsigned]

/-- A state behind a device that is not the last one. -/
structure Stuck (slaves : List (Slave Memory Task)) (state : Alarms) : Prop where
  mem : state.alarmSearchAddress ∈ alarmed slaves
  later : ∃ other ∈ alarmed slaves, state.alarmSearchAddress < other
  junction : state.alarmSearchJunction = -1
  exhausted : state.alarmSearchExhausted = false

/-- A call that walks to a device that is not the last one leaves such a state. -/
theorem stuck_of_reached (hjunction : state.alarmSearchJunction = -1) {rom : Rom} {last : ℕ}
    {next : Alarms} (hreached : Reached slaves false state rom last next)
    (hlater : ∃ other ∈ alarmed slaves, rom < other) : Stuck slaves next := by
  obtain ⟨other, hother, hlt⟩ := hlater
  have hpositive : last ≠ 0 := by
    rintro rfl
    have hle : other ≤ rom := hreached.lastSkip.greatest _ (mem_alarmed.mp hother)
    exact absurd hlt (not_lt.mpr hle)
  have hturn := turnOf_reset hjunction
  refine ⟨?_, ⟨other, hother, hreached.address.symm ▸ hlt⟩, ?_, ?_⟩
  · rw [hreached.address]
    exact mem_alarmed.mpr hreached.descends.mem
  · rw [hreached.kept (by rw [hturn]; decide), hjunction]
  · rw [hreached.exhausted]
    exact beq_eq_false_iff_ne.mpr hpositive

variable (functions) in
/-- With an unsigned `char`, the next call finds the same device again. -/
theorem Stuck.alarmSearch (h : Stuck slaves state) :
    ∃ next, (alarmSearch (bus functions) false state slaves).1 = some state.alarmSearchAddress ∧
      (alarmSearch (bus functions) false state slaves).2.1 = next ∧ Stuck slaves next := by
  obtain ⟨rom, last, next, hsearch, hreached⟩ := alarmSearch_of_some functions false h.exhausted
    h.junction (exists_participates (List.ne_nil_of_mem h.mem))
  have hdescends := hreached.descends
  rw [turnOf_reset h.junction] at hdescends
  obtain rfl : rom = state.alarmSearchAddress := bits_injective (funext fun position ↦
    hdescends.repeats (mem_alarmed.mp h.mem) (show position.val + 1 < 256 by omega))
  rw [hsearch]
  exact ⟨next, rfl, rfl, stuck_of_reached h.junction hreached h.later⟩

theorem Stuck.congr {other : List (Slave Memory Task)} (h : Stuck slaves state)
    (hother : other.map badge = slaves.map badge) : Stuck other state := by
  have hcodes := alarmed_congr hother
  exact ⟨hcodes ▸ h.mem, hcodes ▸ h.later, h.junction, h.exhausted⟩

/-- The loop never ends. -/
theorem Stuck.alarmsLoop {handler : Rom → List (Slave Memory Task) → List (Slave Memory Task)}
    (hhandler : ∀ address wire, (handler address wire).map badge = wire.map badge)
    (h : Stuck slaves state) (turns : ℕ) :
    alarmsLoop (bus functions) false handler turns state slaves = none := by
  induction turns generalizing state slaves with
  | zero => rfl
  | succ turns ih =>
    obtain ⟨next, hreturned, hstate, hnext⟩ := h.alarmSearch functions
    have hbadges := badges_alarmSearch functions false state slaves
    rw [AlarmHandling.alarmsLoop]
    generalize AlarmSearch.alarmSearch (bus functions) false state slaves = result at *
    obtain ⟨answer, _, after⟩ := result
    dsimp only at hreturned hstate hbadges
    subst hreturned hstate
    dsimp only
    split
    · rw [ih (hnext.congr ((hhandler _ _).trans hbadges))]
      rfl
    · exact ih (hnext.congr hbadges)

/-- The first call behind a reset does not find the last of several valid addresses. -/
theorem exists_later_of_reset {rom : Rom} {last : ℕ} {next : Alarms}
    (hvalid : ∀ rom ∈ alarmed slaves, validAddress rom = true)
    (hreached : Reached slaves false (resetAlarmSearch state) rom last next)
    (hsome : ∃ other ∈ alarmed slaves, other ≠ rom) :
    ∃ other ∈ alarmed slaves, rom < other := by
  obtain ⟨other, hother, hne⟩ := hsome
  have hdescends := hreached.descends
  have hmem := mem_alarmed.mpr hdescends.mem
  rw [turnOf_reset rfl] at hdescends
  refine ⟨other, hother, lt_of_le_of_ne (le_of_not_gt fun hlt ↦ ?_) hne.symm⟩
  obtain ⟨fork, hagree, hclear, hset⟩ := (lt_iff other.bits rom.bits).mp hlt
  have hearly : fork.val < 56 := by
    by_contra hlate
    refine hne (eq_of_valid (hvalid other hother) (hvalid rom hmem) fun i hi ↦ ?_)
    have hrange : i < 64 := by omega
    exact hagree ⟨i, hrange⟩ (show i < fork.val by omega)
  have hchosen := hdescends.rule fork
    ⟨other.bits, mem_alarmed.mp hother, hagree, by rw [hclear, hset]; exact Bool.false_ne_true⟩
  have hrepeats : fork.val + 1 < 256 := by omega
  have hzero : (resetAlarmSearch state).alarmSearchAddress.bits fork = false := by
    have hindex : (Fin.ofNat 8 (fork.val / 8)).val < 7 := by
      rw [Fin.val_ofNat]
      omega
    rw [Rom.bits, Rom.bitAt, resetAlarmSearch]
    dsimp only
    rw [if_pos hindex]
    exact BitVec.getLsbD_zero
  rw [hset, chosen, if_pos hrepeats, hzero] at hchosen
  exact Bool.noConfusion hchosen

theorem isSome_alarmsLoop {handler : Rom → List (Slave Memory Task) → List (Slave Memory Task)}
    (turns : ℕ) (hnone : (AlarmSearch.alarmSearch (bus functions) signed state slaves).1 = none) :
    (alarmsLoop (bus functions) signed handler (turns + 1) state slaves).isSome = true := by
  rw [alarmsLoop]
  generalize AlarmSearch.alarmSearch (bus functions) signed state slaves = result at hnone
  obtain ⟨answer, next, after⟩ := result
  obtain rfl : answer = none := hnone
  rfl

/-- A device beside which there is no other one was reached without a choice. -/
theorem exhausted_of_alone {rom : Rom} {last : ℕ} {next : Alarms}
    (hreached : Reached slaves signed state rom last next)
    (halone : ∀ other ∈ alarmed slaves, other = rom) : next.alarmSearchExhausted = true := by
  rw [hreached.exhausted, beq_iff_eq]
  by_contra hne
  obtain ⟨place, -, hclear, word, hword, -, hset⟩ :=
    hreached.lastSkip.skipped (Nat.pos_of_ne_zero hne)
  obtain ⟨slave, hslave, htakes, rfl⟩ := hword
  rw [halone slave.device.rom (mem_alarmed.mpr ⟨slave, hslave, htakes, rfl⟩), hclear] at hset
  exact Bool.noConfusion hset

theorem length_alarmed_le_one_iff {rom : Rom} (hmem : rom ∈ alarmed slaves) :
    (alarmed slaves).length ≤ 1 ↔ ∀ other ∈ alarmed slaves, other = rom := by
  have hsorted : (alarmed slaves).SortedLT := sortedLT_inOrder false (slaves.map badge)
  constructor
  · intro hle other hother
    obtain ⟨first, hfirst, rfl⟩ := List.getElem_of_mem hmem
    obtain ⟨second, hsecond, rfl⟩ := List.getElem_of_mem hother
    obtain rfl : second = first := by omega
    rfl
  · intro halone
    by_contra hlong
    have hlt : (alarmed slaves)[0] < (alarmed slaves)[1] :=
      hsorted.getElem_lt_getElem_iff.mpr Nat.zero_lt_one
    rw [halone _ (List.getElem_mem _), halone _ (List.getElem_mem _)] at hlt
    exact lt_irrefl _ hlt

/-- With an unsigned `char`, and valid addresses, `processAlarms` ends only if at most one device
has an alarm. -/
theorem processAlarms_isSome_iff
    {handler : Rom → List (Slave Memory Task) → List (Slave Memory Task)}
    (hhandler : ∀ address wire, (handler address wire).map badge = wire.map badge)
    (hvalid : ∀ rom ∈ alarmed slaves, validAddress rom = true) (state : Alarms) :
    (∃ turns, (processAlarms (bus functions) false handler turns state slaves).isSome = true) ↔
      (alarmed slaves).length ≤ 1 := by
  rcases eq_or_ne (alarmed slaves) [] with hempty | hsome
  · refine iff_of_true ⟨1, isSome_alarmsLoop 0 ?_⟩ (hempty ▸ Nat.zero_le _)
    exact (alarmSearch_of_none functions false _ (not_participates hempty)).1
  have hgoes : (resetAlarmSearch state).alarmSearchExhausted = false := rfl
  have hjunction : (resetAlarmSearch state).alarmSearchJunction = -1 := rfl
  obtain ⟨rom, last, next, hsearch, hreached⟩ :=
    alarmSearch_of_some functions false hgoes hjunction (exists_participates hsome)
  have hbadges := badges_alarmSearch functions false (resetAlarmSearch state) slaves
  rw [hsearch] at hbadges
  have hmem := mem_alarmed.mpr hreached.descends.mem
  rw [length_alarmed_le_one_iff hmem]
  by_cases halone : ∀ other ∈ alarmed slaves, other = rom
  · have hexhausted := exhausted_of_alone hreached halone
    refine iff_of_true ⟨2, ?_⟩ halone
    rw [processAlarms, alarmsLoop, hsearch]
    dsimp only
    split
    · rw [Option.isSome_map]
      exact isSome_alarmsLoop 0 (alarmSearch_of_exhausted hexhausted)
    · exact isSome_alarmsLoop 0 (alarmSearch_of_exhausted hexhausted)
  · have hother := halone
    push Not at hother
    have hstuck := stuck_of_reached hjunction hreached
      (exists_later_of_reset hvalid hreached hother)
    refine iff_of_false ?_ halone
    rintro ⟨turns, hends⟩
    cases turns with
    | zero => exact Bool.noConfusion hends
    | succ turns =>
      rw [processAlarms, alarmsLoop, hsearch] at hends
      dsimp only at hends
      split at hends
      · rw [Option.isSome_map,
          (hstuck.congr ((hhandler _ _).trans hbadges)).alarmsLoop hhandler] at hends
        exact Bool.noConfusion hends
      · rw [(hstuck.congr hbadges).alarmsLoop hhandler] at hends
        exact Bool.noConfusion hends

theorem processAlarms_isSome_iff_twoAlarms :
    ¬ ∃ turns, (processAlarms (bus silent) false resetting turns ⟨.zero, 3, true⟩
      twoAlarms).isSome = true := by
  have hvalid : ∀ rom ∈ present false (twoAlarms.map badge), validAddress rom = true := by decide
  have hfirst : codeOf 0x28 1 0x29 ∈ present false (twoAlarms.map badge) := by decide
  have hsecond : codeOf 0x28 2 0x70 ∈ present false (twoAlarms.map badge) := by decide
  have hne : codeOf 0x28 2 0x70 ≠ codeOf 0x28 1 0x29 := by decide
  rw [processAlarms_isSome_iff badges_resetting
      (fun rom hrom ↦ hvalid rom (mem_inOrder_iff.mp hrom)),
    length_alarmed_le_one_iff (mem_inOrder_iff.mpr hfirst)]
  exact fun halone ↦ hne (halone _ (mem_inOrder_iff.mpr hsecond))

end Sketchbook.OneWire.AlarmHandling
