import Mathlib.Algebra.Group.Int.Defs
import Mathlib.Data.Fin.Basic
import Sketchbook.Timer.TimerScheduler

/-!
# Whether the timer scheduler can fire again

`next_minutes` is computed at an activation only, from the minute behind it and `interval`, and 60
is taken off once. It is a minute of the hour exactly when the sum lies between 0 and 119
(`inRange_nextMinutesOf_iff`). In a run whose activations all find such a sum, `next_minutes` stays
a minute of the hour, and an hour whose every minute is compared while the window is open has an
activation in it (`run_alive`). Otherwise the scheduler waits for a minute that no clock shows:
behind an activation with another sum there is no further one, whatever the app writes
(`not_activates_again`).
-/

set_option autoImplicit false
set_option relaxedAutoImplicit false

namespace Sketchbook.Timer.NextMinutes

open TimerScheduler

/-- `next_minutes` is a minute of the hour. -/
def InRange (nextMinutes : BitVec 32) : Prop := 0 ≤ nextMinutes.toInt ∧ nextMinutes.toInt ≤ 59

/-- Taking 60 off once is enough. -/
def SumFits (now : BitVec 32) (interval : BitVec 32) : Prop :=
  0 ≤ minute now + interval.toInt ∧ minute now + interval.toInt ≤ 119

instance (nextMinutes : BitVec 32) : Decidable (InRange nextMinutes) :=
  inferInstanceAs (Decidable (_ ∧ _))

instance (now interval : BitVec 32) : Decidable (SumFits now interval) :=
  inferInstanceAs (Decidable (_ ∧ _))

/-- The call activates and finds a sum that one reduction does not bring into the hour. -/
def Oversteps (s : TimerState) (pass : Pass) : Prop :=
  Activates s pass ∧ ¬ SumFits pass.readings.finish (blynkRun s pass).interval

instance (s : TimerState) (pass : Pass) : Decidable (Oversteps s pass) :=
  inferInstanceAs (Decidable (_ ∧ _))

/-- Among the calls from `first` to `last`, the minute is compared in each of the 60 minutes that
follow `hourStart`. -/
def ComparedForAnHour (s : TimerState) (passes : ℕ → Pass) (first last hourStart : ℕ) : Prop :=
  ∀ k < 60, ∃ n, first ≤ n ∧ n < last ∧ TestsAt s passes n ∧
    absoluteMinute (passes n).readings.test = hourStart + k

/-- The scheduler can fire: the minute it waits for exists, and an hour of comparisons brings an
activation. -/
def Alive (s : TimerState) (passes : ℕ → Pass) (last : ℕ) : Prop :=
  InRange (stateAt s passes last).nextMinutes ∧
    ∀ first hourStart, ComparedForAnHour s passes first last hourStart →
      ∃ n, first ≤ n ∧ n < last ∧ ActivatesAt s passes n

/-! ### One activation -/

/-- The sum of a minute and an `int`: only a sum from 2 ^ 31 on wraps. -/
theorem toInt_minute_add (now interval : BitVec 32) :
    (BitVec.ofNat 32 (minute now) + interval).toInt =
      if minute now + interval.toInt < 2 ^ 31 then minute now + interval.toInt
      else minute now + interval.toInt - 2 ^ 32 := by
  have hminute := minute_lt now
  have hlower := BitVec.le_toInt interval
  have hupper := BitVec.toInt_lt (x := interval)
  have hsmall : (BitVec.ofNat 32 (minute now)).toInt = minute now := by
    rw [BitVec.toInt_eq_toNat_of_lt] <;> rw [BitVec.toNat_ofNat] <;> omega
  rw [BitVec.toInt_add, hsmall, Int.bmod]
  split_ifs <;> omega

/-- Taking 60 off a positive value does not wrap. -/
theorem toInt_sub_sixty {next : BitVec 32} (h : 59 < next.toInt) :
    (next - 60).toInt = next.toInt - 60 := by
  have hupper := BitVec.toInt_lt (x := next)
  have hsixty : (60 : BitVec 32).toInt = 60 := by decide
  rw [BitVec.toInt_sub, hsixty]
  exact Int.bmod_eq_of_le (by omega) (by omega)

/-- Where one reduction is enough, the next minute is the sum modulo 60. -/
theorem toInt_nextMinutesOf {now interval : BitVec 32} (h : SumFits now interval) :
    (nextMinutesOf now interval).toInt = (minute now + interval.toInt) % 60 := by
  obtain ⟨hnonneg, hle⟩ := h
  have hsum := toInt_minute_add now interval
  rw [if_pos (by omega)] at hsum
  unfold nextMinutesOf
  dsimp only
  split_ifs with hlarge
  · rw [toInt_sub_sixty hlarge]
    omega
  · omega

/-- The next minute is a minute of the hour exactly when one reduction is enough. -/
theorem inRange_nextMinutesOf_iff (now interval : BitVec 32) :
    InRange (nextMinutesOf now interval) ↔ SumFits now interval := by
  have hminute := minute_lt now
  have hlower := BitVec.le_toInt interval
  have hupper := BitVec.toInt_lt (x := interval)
  have hsum := toInt_minute_add now interval
  unfold InRange SumFits nextMinutesOf
  dsimp only
  split_ifs with hlarge
  · rw [toInt_sub_sixty hlarge]
    split_ifs at hsum <;> omega
  · split_ifs at hsum <;> omega

/-- A call keeps `next_minutes` a minute of the hour exactly when it does not overstep. -/
theorem inRange_loop_iff {s : TimerState} {pass : Pass} (h : InRange s.nextMinutes) :
    InRange (loop s pass).1.nextMinutes ↔ ¬ Oversteps s pass := by
  by_cases hactivates : Activates s pass
  · rw [loop_nextMinutes_of_activates hactivates, inRange_nextMinutesOf_iff]
    simp [Oversteps, hactivates]
  · rw [(loop_waits hactivates).1]
    simp [Oversteps, hactivates, h]

/-! ### Runs -/

variable {passes : ℕ → Pass}

/-- A call that compares the minute of an hour the scheduler waits for is an activation. -/
theorem exists_activates {s : TimerState} {first last hourStart : ℕ}
    (hrange : ∀ n, n < last → InRange (stateAt s passes n).nextMinutes)
    (hcompared : ComparedForAnHour s passes first last hourStart) :
    ∃ n, first ≤ n ∧ n < last ∧ ActivatesAt s passes n := by
  by_contra hnone
  push Not at hnone
  obtain ⟨_, hfirst, hlast, -⟩ := hcompared 0 (by omega)
  have hfirst : first < last := Nat.lt_of_le_of_lt hfirst hlast
  obtain ⟨hnonneg, hle⟩ := hrange first hfirst
  obtain ⟨target, htarget⟩ := Int.eq_ofNat_of_zero_le hnonneg
  obtain ⟨n, hn, hlt, htests, hminute⟩ :=
    hcompared ((target + 60 - hourStart % 60) % 60) (Nat.mod_lt _ (by omega))
  have hwaits := (stateAt_waits hn fun k hk hkn ↦ hnone k hk (Nat.lt_trans hkn hlt)).1
  refine hnone n hn hlt (activates_of_minute_eq htests ?_)
  rw [hwaits, htarget]
  have hshown : minute (passes n).readings.test = target := by
    unfold minute
    unfold absoluteMinute at hminute
    omega
  rw [hshown]

/-- As long as no call oversteps, the minute waited for is a minute of the hour. -/
theorem inRange_stateAt {last : ℕ}
    (h : ∀ n < last, ¬ Oversteps (stateAt powerOn passes n) (passes n)) :
    InRange (stateAt powerOn passes last).nextMinutes := by
  induction last with
  | zero => exact (by decide : InRange powerOn.nextMinutes)
  | succ last ih =>
    exact (inRange_loop_iff (ih fun n hn ↦ h n (Nat.lt_succ_of_lt hn))).mpr
      (h last (Nat.lt_succ_self last))

/-- In every run whose calls do not overstep, the scheduler can always fire. -/
theorem run_alive (passes : ℕ → Pass) (last : ℕ)
    (h : ∀ n < last, ¬ Oversteps (stateAt powerOn passes n) (passes n)) :
    Alive powerOn passes last := by
  refine ⟨inRange_stateAt h, fun first hourStart hcompared ↦ ?_⟩
  exact exists_activates
    (fun n hn ↦ inRange_stateAt fun k hk ↦ h k (Nat.lt_trans hk hn)) hcompared

/-- The app writes an interval, and the clock stands at eight. -/
def atEight (interval : BitVec 32) : Pass where
  writes := [⟨.V5, interval⟩]
  readings := ⟨28800, 28800, 28800, 28800, 28800, 28800⟩

theorem atEight_alive : Alive powerOn (fun _ ↦ atEight 59) 2 :=
  run_alive (fun _ ↦ atEight 59) 2 (by decide)

/-- The first activation with an interval of 200 leaves 140 in `next_minutes`. -/
theorem not_forall_alive : ¬ ∀ passes last, Alive powerOn passes last := by
  intro h
  have hrange : InRange (stateAt powerOn (fun _ ↦ atEight 200) 1).nextMinutes := (h _ 1).1
  exact absurd hrange (by decide)

/-- A scheduler that waits for a minute outside the hour, behind its first activation, never fires
again. -/
theorem not_activates_of_not_inRange {s : TimerState} {pass : Pass} (hfirst : s.firstTime = false)
    (h : ¬ InRange s.nextMinutes) : ¬ Activates s pass := by
  intro hactivates
  have hminute := minute_eq_of_activates hfirst hactivates
  have hlt := minute_lt pass.readings.test
  refine h ?_
  unfold InRange
  omega

/-- Behind a call that oversteps there is no further activation. -/
theorem not_activates_again {s : TimerState} {n : ℕ}
    (h : Oversteps (stateAt s passes n) (passes n)) {later : ℕ} (hlater : n < later) :
    ¬ ActivatesAt s passes later := by
  obtain ⟨hactivates, hfits⟩ := h
  have hfirst : (stateAt s passes (n + 1)).firstTime = false :=
    loop_firstTime_of_activates hactivates
  have hrange : ¬ InRange (stateAt s passes (n + 1)).nextMinutes := by
    rw [stateAt, loop_nextMinutes_of_activates hactivates, inRange_nextMinutesOf_iff]
    exact hfits
  have hwaits : (stateAt s passes later).firstTime = false ∧
      ¬ InRange (stateAt s passes later).nextMinutes := by
    induction later, hlater using Nat.le_induction with
    | base => exact ⟨hfirst, hrange⟩
    | succ later _ ih =>
      obtain ⟨hnext, hfirst⟩ := loop_waits (not_activates_of_not_inRange ih.1 ih.2)
      rw [stateAt, hnext, hfirst]
      exact ih
  exact not_activates_of_not_inRange hwaits.1 hwaits.2

end Sketchbook.Timer.NextMinutes
