import Mathlib.Data.BitVec
import Mathlib.Data.List.Chain
import Sketchbook.Foundation.TransitionSystem
import Sketchbook.Foundation.WrappedClock

/-!
# The system clock

`now` counts the seconds that `millis` has gone on since the last call. `millis` starts again every
50 days, and what is left of a second is kept for the next call. So the clock shows the value it was
set to and all the seconds since then, as long as a call comes once in 50 days and a turn of its
loop takes at most a second (`clock_exact`).

When a time is due `now` asks a provider, which answers 0 when it has no time. `timeStatus` tells
how the last attempts went (`status_eq`), and two attempts are an interval apart (`queries_spaced`).
All of this is about calls of `now` that come in time (`Timely`).

A `TimedClock` is the clock with the time that has really passed and a record of what was asked.
-/

set_option autoImplicit false
set_option relaxedAutoImplicit false

namespace Sketchbook.TimeLibrary.SystemClock

open Foundation.TransitionSystem Foundation.WrappedClock

/-! ### The functions of the library -/

/-- `timeStatus_t`. -/
inductive TimeStatus
  | timeNotSet
  | timeNeedsSync
  | timeSet
deriving DecidableEq

/-- The variables of the clock. `getTimePtr` is whether a provider is set. -/
structure Clock where
  sysTime : BitVec 32
  prevMillis : BitVec 32
  nextSyncTime : BitVec 32
  syncInterval : BitVec 32
  status : TimeStatus
  getTimePtr : Bool

/-- `setTime`, with what `millis` returns. -/
def Clock.setTime (t millis : BitVec 32) (clock : Clock) : Clock :=
  { clock with
    sysTime := t
    nextSyncTime := t + clock.syncInterval
    status := .timeSet
    prevMillis := millis }

/-- The loop of `now`, when the tests of its condition find given values of `millis` and the last of
them ends it. -/
def Clock.catchUp : List (BitVec 32) → Clock → Option Clock
  | [], _ => none
  | millis :: rest, clock =>
    if 1000 ≤ millis - clock.prevMillis then
      catchUp rest
        { clock with sysTime := clock.sysTime + 1, prevMillis := clock.prevMillis + 1000 }
    else if rest = [] then some clock else none

/-- Whether `now` asks the provider. -/
def Clock.asks (clock : Clock) : Bool := clock.nextSyncTime ≤ clock.sysTime && clock.getTimePtr

/-- The end of `now`, with the answer of the provider and what `millis` returns behind it. -/
def Clock.sync (external millis : BitVec 32) (clock : Clock) : Clock :=
  if clock.asks then
    if external ≠ 0 then clock.setTime external millis
    else
      { clock with
        nextSyncTime := clock.sysTime + clock.syncInterval
        status := if clock.status = .timeNotSet then .timeNotSet else .timeNeedsSync }
  else clock

/-- `adjustTime`. -/
def Clock.adjustTime (adjustment : BitVec 32) (clock : Clock) : Clock :=
  { clock with sysTime := clock.sysTime + adjustment }

/-- `setSyncInterval`. -/
def Clock.setSyncInterval (interval : BitVec 32) (clock : Clock) : Clock :=
  { clock with syncInterval := interval, nextSyncTime := clock.sysTime + interval }

/-- `setSyncProvider` of a provider or of none, up to its call of `now`. -/
def Clock.setSyncProvider (provided : Bool) (clock : Clock) : Clock :=
  { clock with getTimePtr := provided, nextSyncTime := clock.sysTime }

/-- The clock when the program starts. -/
def Clock.powerOn : Clock := ⟨0, 0, 0, 300, .timeNotSet, false⟩

/-! ### The clock in time -/

/-- What `millis` returns at an instant. -/
abbrev millisAt (instant : ℕ) : BitVec 32 := BitVec.ofNat 32 instant

/-- A question to the provider: when it was asked, and the time that the clock showed behind it. -/
structure Query where
  asked : ℕ
  shown : BitVec 32

/-- A clock, the instant of the last reading of `millis`, the instant and the value it was set to
last, whether the attempts to set it went well, and the questions to the provider. The lists have
the newest first. -/
structure TimedClock where
  clock : Clock
  latest : ℕ
  base : ℕ
  value : BitVec 32
  settings : List Bool
  queries : List Query

/-- The readings of a call come soon enough: less than 50 days after the last one before, and in the
loop at most a second apart. -/
def Timely (latest : ℕ) (readings : List ℕ) : Prop :=
  (∀ first ∈ readings.head?, latest ≤ first ∧ first + 1000 ≤ latest + 2 ^ 32) ∧
    readings.IsChain fun earlier later ↦ earlier ≤ later ∧ later ≤ earlier + 1000

instance (latest : ℕ) (readings : List ℕ) : Decidable (Timely latest readings) :=
  inferInstanceAs (Decidable (_ ∧ _))

/-- What a call of `now` makes of a clock behind its loop. -/
def TimedClock.synced (timed : TimedClock) (caught : Clock) (last : ℕ) (external : BitVec 32)
    (settled : ℕ) : TimedClock :=
  let clock := caught.sync external (millisAt settled)
  if caught.asks then
    if external ≠ 0 then
      { clock
        latest := settled
        base := settled
        value := external
        settings := true :: timed.settings
        queries := ⟨last, external⟩ :: timed.queries }
    else
      { timed with
        clock
        latest := last
        settings := false :: timed.settings
        queries := ⟨last, caught.sysTime⟩ :: timed.queries }
  else { timed with clock, latest := last }

/-- A call of `now`, with the instants of its readings of `millis` in the loop, the answer of the
provider, and the instant of the reading behind the answer. -/
def TimedClock.now (readings : List ℕ) (external : BitVec 32) (settled : ℕ) (timed : TimedClock) :
    Option TimedClock :=
  match readings.getLast? with
  | some last =>
    if Timely timed.latest readings ∧ last ≤ settled then
      (timed.clock.catchUp (readings.map millisAt)).map fun caught ↦
        timed.synced caught last external settled
    else none
  | none => none

/-- The calls of the library that change the clock. -/
inductive Call
  | now (readings : List ℕ) (external : BitVec 32) (settled : ℕ)
  | setTime (t : BitVec 32) (instant : ℕ)
  | adjustTime (adjustment : BitVec 32)
  | setSyncInterval (interval : BitVec 32)
  | setSyncProvider (provided : Bool) (readings : List ℕ) (external : BitVec 32) (settled : ℕ)

/-- The effect of a call. -/
def TimedClock.call (timed : TimedClock) : Call → Option TimedClock
  | .now readings external settled => timed.now readings external settled
  | .setTime t instant =>
    if timed.latest ≤ instant then
      some { timed with
        clock := timed.clock.setTime t (millisAt instant)
        latest := instant
        base := instant
        value := t
        settings := true :: timed.settings }
    else none
  | .adjustTime adjustment =>
    some { timed with
      clock := timed.clock.adjustTime adjustment
      value := timed.value + adjustment }
  | .setSyncInterval interval =>
    some { timed with clock := timed.clock.setSyncInterval interval }
  | .setSyncProvider provided readings external settled =>
    ({ timed with clock := timed.clock.setSyncProvider provided } : TimedClock).now readings
      external settled

/-- The clock from power on. -/
def clocks : System TimedClock Call where
  initial timed := timed = ⟨Clock.powerOn, 0, 0, 0, [], []⟩
  step := TimedClock.call

/-! ### The seconds counted -/

/-- The clock shows the value it was set to and the seconds since then, and has counted as many
milliseconds. -/
structure Exact (timed : TimedClock) : Prop where
  base_le : timed.base ≤ timed.latest
  prevMillis : timed.clock.prevMillis =
    millisAt (timed.base + 1000 * ((timed.latest - timed.base) / 1000))
  sysTime : timed.clock.sysTime =
    timed.value + BitVec.ofNat 32 ((timed.latest - timed.base) / 1000)

/-- The clock with a number of seconds counted since it was set. -/
def Clock.counting (clock : Clock) (base : ℕ) (value : BitVec 32) (count : ℕ) : Clock :=
  { clock with
    sysTime := value + BitVec.ofNat 32 count
    prevMillis := millisAt (base + 1000 * count) }

theorem Exact.clock_eq {timed : TimedClock} (h : Exact timed) :
    timed.clock =
      timed.clock.counting timed.base timed.value ((timed.latest - timed.base) / 1000) := by
  rw [Clock.counting, ← h.prevMillis, ← h.sysTime]

/-- The test of the loop compares the milliseconds not counted yet, across the end of `millis`. -/
theorem le_millis_sub_iff {counted instant : ℕ} (hle : counted ≤ instant)
    (hlt : instant < counted + 2 ^ 32) :
    1000 ≤ millisAt instant - millisAt counted ↔ counted + 1000 ≤ instant := by
  have hsub : (millisAt instant - millisAt counted).toNat = instant - counted :=
    (toNat_sub_eq_iff hle).mpr hlt
  rw [BitVec.le_def, hsub]
  change 1000 ≤ _ ↔ _
  omega

/-- A turn of the loop counts a second. -/
theorem counting_succ (clock : Clock) (base : ℕ) (value : BitVec 32) (count : ℕ) :
    clock.counting base value (count + 1) =
      { clock.counting base value count with
        sysTime := (clock.counting base value count).sysTime + 1
        prevMillis := (clock.counting base value count).prevMillis + 1000 } := by
  have hsysTime : value + BitVec.ofNat 32 (count + 1) = value + BitVec.ofNat 32 count + 1 := by
    rw [BitVec.ofNat_add, ← BitVec.add_assoc]
    rfl
  have hprevMillis : millisAt (base + 1000 * (count + 1)) =
      millisAt (base + 1000 * count) + 1000 := by
    rw [Nat.mul_succ, ← Nat.add_assoc, millisAt, BitVec.ofNat_add]
    rfl
  rw [Clock.counting, hsysTime, hprevMillis]
  rfl

/-- A reading with a second to count, and one without. -/
theorem catchUp_cons {clock : Clock} {base count reading : ℕ} {value : BitVec 32}
    (rest : List (BitVec 32)) (hle : base + 1000 * count ≤ reading)
    (hlt : reading < base + 1000 * count + 2 ^ 32) :
    (clock.counting base value count).catchUp (millisAt reading :: rest) =
      if base + 1000 * count + 1000 ≤ reading then
        (clock.counting base value (count + 1)).catchUp rest
      else if rest = [] then some (clock.counting base value count) else none := by
  rw [Clock.catchUp, counting_succ]
  exact if_congr (le_millis_sub_iff hle hlt) rfl rfl

/-- The loop counts all seconds up to its last reading. -/
theorem catchUp_counting {readings : List ℕ} {clock next : Clock} {base count : ℕ}
    {value : BitVec 32}
    (hfirst : ∀ first ∈ readings.head?,
      base + 1000 * count ≤ first ∧ first < base + 1000 * count + 2 ^ 32)
    (hchain : readings.IsChain fun earlier later ↦ earlier ≤ later ∧ later ≤ earlier + 1000)
    (h : (clock.counting base value count).catchUp (readings.map millisAt) = some next) :
    ∀ last ∈ readings.getLast?, base ≤ last ∧
      next = clock.counting base value ((last - base) / 1000) := by
  induction readings generalizing count with
  | nil => exact absurd h (Option.some_ne_none next).symm
  | cons reading rest ih =>
    obtain ⟨hle, hlt⟩ := hfirst reading rfl
    rw [List.map_cons, catchUp_cons _ hle hlt] at h
    cases rest with
    | nil =>
      intro last hlast
      obtain rfl : reading = last := Option.some.inj hlast
      split at h
      · exact absurd h (Option.some_ne_none next).symm
      · rw [List.map_nil, if_pos rfl] at h
        have hcount : (reading - base) / 1000 = count := by omega
        rw [hcount]
        exact ⟨by omega, (Option.some.inj h).symm⟩
    | cons later more =>
      split at h
      · obtain ⟨⟨hlater, hsoon⟩, hrest⟩ := List.isChain_cons_cons.mp hchain
        rw [List.getLast?_cons_cons]
        refine ih ?_ hrest h
        intro first hfirst
        obtain rfl : later = first := Option.some.inj hfirst
        omega
      · rw [List.map_cons, if_neg (List.cons_ne_nil _ _)] at h
        exact absurd h (Option.some_ne_none next).symm

/-- The loop ends when its turns take less than a second: every turn counts one. -/
theorem exists_catchUp (instant : ℕ → ℕ) {clock : Clock} {base count : ℕ} {value : BitVec 32}
    (hfirst : base + 1000 * count ≤ instant 0) (hfits : instant 0 < base + 1000 * count + 2 ^ 32)
    (hlater : ∀ turn, instant turn ≤ instant (turn + 1))
    (hsoon : ∀ turn, instant (turn + 1) < instant turn + 1000) :
    ∃ turns next, (clock.counting base value count).catchUp
      ((List.range (turns + 1)).map fun turn ↦ millisAt (instant turn)) = some next := by
  induction hleft : instant 0 - (base + 1000 * count) using Nat.strong_induction_on
    generalizing instant count with
  | _ left ih =>
    by_cases hmore : base + 1000 * count + 1000 ≤ instant 0
    · have hnext := hlater 0
      have hbound := hsoon 0
      have hmoved : base + 1000 * (count + 1) = base + 1000 * count + 1000 := by
        rw [Nat.mul_succ, Nat.add_assoc]
      have hcounted : base + 1000 * (count + 1) ≤ instant (0 + 1) := by
        rw [hmoved]
        exact hmore.trans hnext
      have hnextFits : instant (0 + 1) < base + 1000 * (count + 1) + 2 ^ 32 := by omega
      obtain ⟨turns, next, hends⟩ := ih (instant (0 + 1) - (base + 1000 * (count + 1))) (by omega)
        (fun turn ↦ instant (turn + 1)) hcounted hnextFits (fun turn ↦ hlater (turn + 1))
        (fun turn ↦ hsoon (turn + 1)) rfl
      refine ⟨turns + 1, next, ?_⟩
      rw [List.range_succ_eq_map, List.map_cons, catchUp_cons _ hfirst hfits, if_pos hmore,
        List.map_map]
      exact hends
    · refine ⟨0, clock.counting base value count, ?_⟩
      rw [List.range_one, List.map_singleton, catchUp_cons _ hfirst hfits, if_neg hmore, if_pos rfl]

variable {timed next : TimedClock} {readings : List ℕ} {external : BitVec 32} {settled : ℕ}
  {trace : List (Transition TimedClock Call)}

theorem head_le_last (hchain : readings.IsChain fun earlier later ↦
      earlier ≤ later ∧ later ≤ earlier + 1000) {first last : ℕ} (hfirst : first ∈ readings.head?)
    (hlast : last ∈ readings.getLast?) : first ≤ last := by
  induction readings generalizing first with
  | nil => exact absurd hfirst.symm (Option.some_ne_none first)
  | cons reading rest ih =>
    obtain rfl : reading = first := Option.some.inj hfirst
    cases rest with
    | nil => exact (Option.some.inj hlast).le
    | cons later more =>
      obtain ⟨⟨hlater, -⟩, hrest⟩ := List.isChain_cons_cons.mp hchain
      exact hlater.trans (ih hrest rfl hlast)

/-- A call of `now` counts the seconds up to its last reading and then asks if it has to. -/
theorem Exact.now_eq (hexact : Exact timed) (h : timed.now readings external settled = some next) :
    ∃ last, timed.base ≤ last ∧ timed.latest ≤ last ∧ last ≤ settled ∧
      next = timed.synced
        (timed.clock.counting timed.base timed.value ((last - timed.base) / 1000)) last external
          settled := by
  rw [TimedClock.now] at h
  cases hlast : readings.getLast? with
  | none =>
    rw [hlast] at h
    exact absurd h (Option.some_ne_none next).symm
  | some last =>
    rw [hlast] at h
    dsimp only at h
    split at h
    · next htimely =>
      obtain ⟨⟨hfirst, hchain⟩, hsettled⟩ := htimely
      obtain ⟨caught, hcaught, rfl⟩ := Option.map_eq_some_iff.mp h
      rw [hexact.clock_eq] at hcaught
      have hbase := hexact.base_le
      have hreadings : ∀ first ∈ readings.head?,
          timed.base + 1000 * ((timed.latest - timed.base) / 1000) ≤ first ∧
            first < timed.base + 1000 * ((timed.latest - timed.base) / 1000) + 2 ^ 32 := by
        intro first hmem
        have hbounds := hfirst first hmem
        omega
      obtain ⟨hle, heq⟩ := catchUp_counting hreadings hchain hcaught last hlast
      have hlatest : timed.latest ≤ last := by
        cases readings with
        | nil => exact absurd hlast.symm (Option.some_ne_none last)
        | cons reading rest => exact (hfirst reading rfl).1.trans (head_le_last hchain rfl hlast)
      exact ⟨last, hle, hlatest, hsettled, by rw [heq]⟩
    · exact absurd h (Option.some_ne_none next).symm

/-- The clock is exact where it has just been set. -/
theorem exact_setTime (clock : Clock) (t : BitVec 32) (instant : ℕ) (settings : List Bool)
    (queries : List Query) :
    Exact ⟨clock.setTime t (millisAt instant), instant, instant, t, settings, queries⟩ := by
  refine ⟨le_rfl, ?_, ?_⟩
  · simp only [Nat.sub_self, Nat.zero_div, Nat.mul_zero, Nat.add_zero]
    rfl
  · simp only [Nat.sub_self, Nat.zero_div]
    exact (BitVec.add_zero t).symm

theorem Exact.now (hexact : Exact timed) (h : timed.now readings external settled = some next) :
    Exact next := by
  obtain ⟨last, hbase, -, -, rfl⟩ := hexact.now_eq h
  unfold TimedClock.synced
  dsimp only
  rw [Clock.sync]
  split
  · split
    · exact exact_setTime _ _ _ _ _
    · exact ⟨hbase, rfl, rfl⟩
  · exact ⟨hbase, rfl, rfl⟩

/-- Every call keeps the clock exact. -/
theorem Exact.call (hexact : Exact timed) {call : Call} (h : timed.call call = some next) :
    Exact next := by
  cases call with
  | now readings external settled => exact hexact.now h
  | setTime t instant =>
    rw [TimedClock.call] at h
    split at h
    · obtain rfl := Option.some.inj h
      exact exact_setTime _ _ _ _ _
    · exact absurd h (Option.some_ne_none next).symm
  | adjustTime adjustment =>
    obtain rfl := Option.some.inj h
    refine ⟨hexact.base_le, hexact.prevMillis, ?_⟩
    change timed.clock.sysTime + adjustment = timed.value + adjustment + _
    rw [hexact.sysTime, BitVec.add_assoc, BitVec.add_assoc, BitVec.add_comm adjustment]
  | setSyncInterval interval =>
    obtain rfl := Option.some.inj h
    exact ⟨hexact.base_le, hexact.prevMillis, hexact.sysTime⟩
  | setSyncProvider provided readings external settled =>
    have hbefore : Exact { timed with clock := timed.clock.setSyncProvider provided } :=
      ⟨hexact.base_le, hexact.prevMillis, hexact.sysTime⟩
    exact hbefore.now h

theorem exact_powerOn : Exact ⟨Clock.powerOn, 0, 0, 0, [], []⟩ := ⟨le_rfl, rfl, rfl⟩

/-- Whatever is called, the clock shows the value it was set to last and the seconds since then. -/
theorem clock_exact (hrun : Run clocks trace timed) : Exact timed := by
  refine hrun.invariant (I := Exact) ?_ fun _ _ _ hexact hstep ↦ hexact.call hstep
  rintro _ rfl
  exact exact_powerOn

/-- The clock is set a moment before `millis` starts again, and asked twice behind it. -/
def callsAcrossTheEnd : List Call :=
  [.setTime 1000 4294967000, .now [4294968900, 4294968901] 0 4294968902,
    .now [4294969100, 4294969101] 0 4294969102]

theorem clock_exact_callsAcrossTheEnd :
    ∃ trace timed, Run clocks trace timed ∧ timed.clock.sysTime = 1002 ∧ Exact timed := by
  have hreplay : (replay clocks ⟨Clock.powerOn, 0, 0, 0, [], []⟩ callsAcrossTheEnd).map
      (fun timed ↦ timed.clock.sysTime) = some 1002 := by decide
  obtain ⟨timed, hrun, hshown⟩ := exists_run_of_replay rfl hreplay
  exact ⟨_, timed, hrun, hshown, clock_exact hrun⟩

/-! ### The status -/

/-- The status that attempts to set the clock lead to. -/
def statusOf : List Bool → TimeStatus
  | [] => .timeNotSet
  | true :: _ => .timeSet
  | false :: earlier => if true ∈ earlier then .timeNeedsSync else .timeNotSet

theorem statusOf_eq_timeNotSet_iff (settings : List Bool) :
    statusOf settings = .timeNotSet ↔ true ∉ settings := by
  match settings with
  | [] => exact iff_of_true rfl List.not_mem_nil
  | true :: earlier =>
    exact iff_of_false (fun h ↦ TimeStatus.noConfusion h) fun h ↦ h List.mem_cons_self
  | false :: earlier =>
    rw [statusOf, List.mem_cons, or_iff_right (by decide)]
    split
    · next h => exact iff_of_false (fun h ↦ TimeStatus.noConfusion h) fun hnot ↦ hnot h
    · next h => exact iff_of_true rfl h

theorem Exact.now_status (hexact : Exact timed)
    (hstatus : timed.clock.status = statusOf timed.settings)
    (h : timed.now readings external settled = some next) :
    next.clock.status = statusOf next.settings := by
  obtain ⟨last, -, -, -, rfl⟩ := hexact.now_eq h
  unfold TimedClock.synced
  dsimp only
  rw [Clock.sync]
  split
  · split
    · rfl
    · have hcounting : (timed.clock.counting timed.base timed.value
          ((last - timed.base) / 1000)).status = statusOf timed.settings := hstatus
      dsimp only
      rw [hcounting, statusOf]
      by_cases hset : true ∈ timed.settings
      · rw [if_pos hset, if_neg fun h ↦ (statusOf_eq_timeNotSet_iff _).mp h hset]
      · rw [if_neg hset, if_pos ((statusOf_eq_timeNotSet_iff _).mpr hset)]
  · exact hstatus

/-- The status is what the attempts to set the clock make it: not set before the first success, set
behind a success, and in need of one behind a failure. -/
theorem status_eq (hrun : Run clocks trace timed) :
    timed.clock.status = statusOf timed.settings := by
  induction hrun with
  | start hinitial =>
    obtain rfl := hinitial
    rfl
  | @step trace before after call hrun hstep ih =>
    have hexact := clock_exact hrun
    cases call with
    | now readings external settled => exact hexact.now_status ih hstep
    | setTime t instant =>
      change (if _ then _ else _) = _ at hstep
      split at hstep
      · obtain rfl := Option.some.inj hstep
        rfl
      · exact absurd hstep (Option.some_ne_none after).symm
    | adjustTime adjustment =>
      obtain rfl := Option.some.inj hstep
      exact ih
    | setSyncInterval interval =>
      obtain rfl := Option.some.inj hstep
      exact ih
    | setSyncProvider provided readings external settled =>
      have hbefore : Exact { before with clock := before.clock.setSyncProvider provided } :=
        ⟨hexact.base_le, hexact.prevMillis, hexact.sysTime⟩
      exact hbefore.now_status ih hstep

/-- A provider that has no time at first, then has one, then has none again, and is taken away. -/
def callsOfProvider : List Call :=
  [.setSyncProvider true [10] 0 11, .setSyncInterval 1, .now [1500, 1501] 900 1502,
    .now [2600, 2601] 0 2602, .setSyncProvider false [2700] 0 2701, .now [4700, 4701, 4702] 0 4703]

theorem status_eq_callsOfProvider :
    ∃ trace timed, Run clocks trace timed ∧ timed.settings = [false, true, false] ∧
      timed.clock.status = statusOf timed.settings := by
  have hreplay : (replay clocks ⟨Clock.powerOn, 0, 0, 0, [], []⟩ callsOfProvider).map
      (fun timed ↦ timed.settings) = some [false, true, false] := by decide
  obtain ⟨timed, hrun, hsettings⟩ := exists_run_of_replay rfl hreplay
  exact ⟨_, timed, hrun, hsettings, status_eq hrun⟩

/-! ### The questions -/

/-- A clock that is only asked for the time, as the sketches do in their loops. -/
def asking (interval : BitVec 32) : System TimedClock Call where
  initial timed := Exact timed ∧ timed.clock.syncInterval = interval ∧ timed.queries = []
  step timed
    | .now readings external settled => timed.now readings external settled
    | _ => none

/-- The next question is due an interval after the last one. -/
structure Waiting (timed : TimedClock) (query : Query) (reference : ℕ) : Prop where
  asked_le : query.asked ≤ reference
  base_le : timed.base ≤ reference
  le_latest : reference ≤ timed.latest
  shown : query.shown = timed.value + BitVec.ofNat 32 ((reference - timed.base) / 1000)
  nextSyncTime : timed.clock.nextSyncTime = query.shown + timed.clock.syncInterval

/-- Two questions are an interval apart, up to the second that is not counted yet. -/
def Spaced (interval : BitVec 32) (newer older : Query) : Prop :=
  older.shown.toNat + interval.toNat < 2 ^ 32 →
    older.asked + 1000 * interval.toNat < newer.asked + 1000

/-- What is known between two calls of `now`. -/
structure Asking (interval : BitVec 32) (timed : TimedClock) : Prop extends Exact timed where
  syncInterval : timed.clock.syncInterval = interval
  waiting : ∀ query ∈ timed.queries.head?, ∃ reference, Waiting timed query reference
  spaced : timed.queries.IsChain (Spaced interval)

/-- A clock that asks shows a time an interval after the last question. -/
theorem Waiting.spaced {query : Query} {reference : ℕ} (h : Waiting timed query reference)
    {last : ℕ} (hlast : timed.latest ≤ last)
    (hasks : (timed.clock.counting timed.base timed.value
      ((last - timed.base) / 1000)).asks = true) (shown : BitVec 32) :
    Spaced timed.clock.syncInterval ⟨last, shown⟩ query := by
  intro hfits
  have hbase := h.base_le
  have hlatest := h.le_latest
  have hasked := h.asked_le
  rw [Clock.asks, Bool.and_eq_true, decide_eq_true_iff] at hasks
  obtain ⟨hdue, -⟩ := hasks
  have hcounts : (reference - timed.base) / 1000 ≤ (last - timed.base) / 1000 :=
    Nat.div_le_div_right (Nat.sub_le_sub_right (hlatest.trans hlast) _)
  obtain ⟨elapsed, helapsed⟩ := Nat.exists_eq_add_of_le hcounts
  have hshows : (timed.clock.counting timed.base timed.value
      ((last - timed.base) / 1000)).sysTime = query.shown + BitVec.ofNat 32 elapsed := by
    rw [Clock.counting, h.shown, BitVec.add_assoc, ← BitVec.ofNat_add, helapsed]
  have hinterval : timed.clock.syncInterval.toNat ≤ elapsed := by
    by_contra hearly
    change timed.clock.nextSyncTime ≤ _ at hdue
    rw [hshows, h.nextSyncTime, BitVec.le_def, BitVec.toNat_add, BitVec.toNat_add,
      BitVec.toNat_ofNat, Nat.mod_eq_of_lt hfits] at hdue
    have hsmall := (Nat.mod_le (query.shown.toNat + elapsed % 2 ^ 32) (2 ^ 32))
    have helapsedLe := Nat.mod_le elapsed (2 ^ 32)
    omega
  change query.asked + 1000 * timed.clock.syncInterval.toNat < last + 1000
  omega

/-- A call of `now` keeps what is known. -/
theorem Asking.now {interval : BitVec 32} (hasking : Asking interval timed)
    (h : timed.now readings external settled = some next) : Asking interval next := by
  have hnext := hasking.toExact.now h
  obtain ⟨last, hbase, hlatest, hsettled, rfl⟩ := hasking.toExact.now_eq h
  have hinterval := hasking.syncInterval
  have hspaced := hasking.spaced
  have hchain (shown : BitVec 32) (hasks : (timed.clock.counting timed.base timed.value
      ((last - timed.base) / 1000)).asks = true) :
      (⟨last, shown⟩ :: timed.queries : List Query).IsChain (Spaced interval) := by
    refine List.IsChain.cons hspaced ?_
    intro query hquery
    obtain ⟨reference, hwaiting⟩ := hasking.waiting query hquery
    exact hinterval ▸ hwaiting.spaced hlatest hasks shown
  unfold TimedClock.synced at hnext ⊢
  dsimp only at hnext ⊢
  rw [Clock.sync] at hnext ⊢
  by_cases hasks : (timed.clock.counting timed.base timed.value
      ((last - timed.base) / 1000)).asks = true
  · rw [if_pos hasks, if_pos hasks] at hnext ⊢
    by_cases hanswer : external ≠ 0
    · rw [if_pos hanswer, if_pos hanswer] at hnext ⊢
      refine ⟨hnext, hinterval, fun query hquery ↦ ?_, hchain _ hasks⟩
      obtain rfl := Option.some.inj hquery
      refine ⟨settled, hsettled, le_rfl, le_rfl, ?_, rfl⟩
      simp only [Nat.sub_self, Nat.zero_div]
      exact (BitVec.add_zero external).symm
    · rw [if_neg hanswer, if_neg hanswer] at hnext ⊢
      refine ⟨hnext, hinterval, fun query hquery ↦ ?_, hchain _ hasks⟩
      obtain rfl := Option.some.inj hquery
      exact ⟨last, le_rfl, hbase, le_rfl, rfl, rfl⟩
  · rw [if_neg hasks, if_neg hasks] at hnext ⊢
    refine ⟨hnext, hinterval, fun query hquery ↦ ?_, hspaced⟩
    obtain ⟨reference, hwaiting⟩ := hasking.waiting query hquery
    exact ⟨reference, hwaiting.asked_le, hwaiting.base_le, hwaiting.le_latest.trans hlatest,
      hwaiting.shown, hwaiting.nextSyncTime⟩

/-- In any sequence of calls of `now` the provider is asked once in an interval at most. -/
theorem queries_spaced {interval : BitVec 32} (hrun : Run (asking interval) trace timed) :
    timed.queries.IsChain (Spaced interval) := by
  suffices h : Asking interval timed from h.spaced
  refine hrun.invariant (I := Asking interval) ?_ ?_
  · rintro state ⟨hexact, hinterval, hnone⟩
    refine ⟨hexact, hinterval, fun query hquery ↦ ?_, ?_⟩
    · rw [hnone] at hquery
      exact absurd hquery.symm (Option.some_ne_none query)
    · rw [hnone]
      exact List.isChain_nil
  · intro state call after hasking hstep
    cases call with
    | now readings external settled => exact hasking.now hstep
    | _ => exact absurd hstep (Option.some_ne_none after).symm

/-- A clock with a provider, from the start of the program on. -/
def providedClock : TimedClock := ⟨⟨0, 0, 0, 2, .timeNotSet, true⟩, 0, 0, 0, [], []⟩

theorem queries_spaced_providedClock :
    ∃ trace timed, Run (asking 2) trace timed ∧
      timed.queries.map Query.asked = [2301, 100] ∧ timed.queries.IsChain (Spaced 2) := by
  have hreplay : (replay (asking 2) providedClock
      [.now [100] 0 101, .now [1500, 1501] 0 1502, .now [2300, 2301] 0 2302]).map
        (fun timed ↦ timed.queries.map Query.asked) = some [2301, 100] := by decide
  have hinitial : (asking 2).initial providedClock := ⟨⟨le_rfl, rfl, rfl⟩, rfl, rfl⟩
  obtain ⟨timed, hrun, hqueries⟩ := exists_run_of_replay hinitial hreplay
  exact ⟨_, timed, hrun, hqueries, queries_spaced hrun⟩

end Sketchbook.TimeLibrary.SystemClock
