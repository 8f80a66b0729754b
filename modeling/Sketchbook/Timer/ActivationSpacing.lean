import Sketchbook.Foundation.CyclicSlot
import Sketchbook.Timer.NextMinutes

/-!
# The spacing of timer activations

In a `SteadyRun` the clock never steps back and stands still during the comparisons of a call, the
interval keeps one value between 1 and 59, the window does not change, and `loop` is called in every
minute in which no activation is running. How long an activation takes is left open, so that the
timers may have any values and may change.

`next_minutes` holds a minute of the hour only. `startMinute_mem_slots` says that the next
activation starts in an open minute from the target on, the end of the last activation plus the
interval, and that it shows the minute of the target; `exists_activates_at` says that the first
such minute is not missed. Together they say in which absolute minute the next activation starts
(`run_spaced`).
-/

set_option autoImplicit false
set_option relaxedAutoImplicit false

namespace Sketchbook.Timer.ActivationSpacing

open TimerScheduler NextMinutes Foundation.CyclicSlot

/-! ### Absolute minutes -/

/-- The absolute minute in which a call makes its comparisons. -/
def startMinute (passes : ℕ → Pass) (n : ℕ) : ℕ := absoluteMinute (passes n).readings.test

/-- The clock when a call is done. -/
def finishTime (s : TimerState) (passes : ℕ → Pass) (n : ℕ) : BitVec 32 :=
  if ActivatesAt s passes n then (passes n).readings.finish else (passes n).readings.test

/-- The absolute minute in which a call is done. -/
def endMinute (s : TimerState) (passes : ℕ → Pass) (n : ℕ) : ℕ :=
  absoluteMinute (finishTime s passes n)

/-- The hour of an absolute minute lies in the window. -/
def WindowOpen (start stop1 : ℤ) (position : ℕ) : Prop :=
  start ≤ (position / 60 % 24 : ℕ) ∧ ((position / 60 % 24 : ℕ) : ℤ) ≤ stop1

/-- The calls up to `last` with one interval and one window, by a clock that never steps back. -/
structure SteadyRun (s : TimerState) (passes : ℕ → Pass) (last interval : ℕ) (start stop1 : ℤ) :
    Prop where
  interval_pos : 1 ≤ interval
  interval_le : interval ≤ 59
  interval_eq : ∀ n ≤ last, (blynkRun (stateAt s passes n) (passes n)).interval.toInt = interval
  start_eq : ∀ n ≤ last, (blynkRun (stateAt s passes n) (passes n)).start.toInt = start
  stop1_eq : ∀ n ≤ last, (blynkRun (stateAt s passes n) (passes n)).stop1.toInt = stop1
  constant : ∀ n ≤ last, (passes n).readings.changed = (passes n).readings.test ∧
    (passes n).readings.display = (passes n).readings.test ∧
      (passes n).readings.startHour = (passes n).readings.test ∧
        (passes n).readings.stopHour = (passes n).readings.test
  blocks : ∀ n ≤ last, (passes n).readings.test.toNat ≤ (finishTime s passes n).toNat
  forward : ∀ n < last, (finishTime s passes n).toNat ≤ (passes (n + 1)).readings.test.toNat
  called : ∀ position, startMinute passes 0 ≤ position → position ≤ startMinute passes last →
    (∃ n ≤ last, startMinute passes n = position) ∨
      ∃ n ≤ last, ActivatesAt s passes n ∧ startMinute passes n ≤ position ∧
        position ≤ endMinute s passes n

/-- The earliest minute for the activation that follows the i-th call. -/
def target (s : TimerState) (passes : ℕ → Pass) (interval i : ℕ) : ℕ :=
  endMinute s passes i + interval

/-- Exact spacing behind the activation in the i-th call: none starts before the target, and the
next activation starts in the first open minute from the target on that shows the minute of the
target; in the target itself, if it is open. -/
structure SpacedBehind (s : TimerState) (passes : ℕ → Pass) (last interval : ℕ) (start stop1 : ℤ)
    (i : ℕ) : Prop where
  not_before : ∀ j ≤ last, i < j → ActivatesAt s passes j →
    target s passes interval i ≤ startMinute passes j
  next : ∃ slot,
    IsLeast (slots 60 (WindowOpen start stop1) (target s passes interval i)) slot ∧
      (WindowOpen start stop1 (target s passes interval i) → slot = target s passes interval i) ∧
      (slot ≤ startMinute passes last →
        ∃ j ≤ last, i < j ∧ ActivatesAt s passes j ∧ startMinute passes j = slot) ∧
      ∀ j ≤ last, i < j → ActivatesAt s passes j → (∀ k, i < k → k < j → ¬ ActivatesAt s passes k) →
        startMinute passes j = slot

variable {s : TimerState} {passes : ℕ → Pass} {last interval i j : ℕ} {start stop1 : ℤ}

/-! ### The clock -/

theorem startMinute_le_endMinute (h : SteadyRun s passes last interval start stop1)
    (hi : i ≤ last) : startMinute passes i ≤ endMinute s passes i :=
  Nat.div_le_div_right (h.blocks i hi)

/-- A later call starts no earlier than a call is done. -/
theorem endMinute_le_startMinute (h : SteadyRun s passes last interval start stop1) (hij : i < j)
    (hj : j ≤ last) : endMinute s passes i ≤ startMinute passes j := by
  induction j, hij using Nat.le_induction with
  | base => exact Nat.div_le_div_right (h.forward i hj)
  | succ j hij ih =>
    have hstart : startMinute passes j ≤ endMinute s passes j :=
      startMinute_le_endMinute h (Nat.le_of_succ_le hj)
    have hend : endMinute s passes j ≤ startMinute passes (j + 1) :=
      Nat.div_le_div_right (h.forward j hj)
    exact (ih (Nat.le_of_succ_le hj)).trans (hstart.trans hend)

theorem startMinute_mono (h : SteadyRun s passes last interval start stop1) (hij : i ≤ j)
    (hj : j ≤ last) : startMinute passes i ≤ startMinute passes j := by
  rcases hij.lt_or_eq with hlt | rfl
  · exact (startMinute_le_endMinute h (hij.trans hj)).trans (endMinute_le_startMinute h hlt hj)
  · exact le_rfl

theorem endMinute_mono (h : SteadyRun s passes last interval start stop1) (hij : i ≤ j)
    (hj : j ≤ last) : endMinute s passes i ≤ endMinute s passes j := by
  rcases hij.lt_or_eq with hlt | rfl
  · exact (endMinute_le_startMinute h hlt hj).trans (startMinute_le_endMinute h hj)
  · exact le_rfl

/-- What is done behind the end of a call is done by a later call. -/
theorem lt_of_endMinute_lt (h : SteadyRun s passes last interval start stop1) (hi : i ≤ last)
    (hlt : endMinute s passes i < endMinute s passes j) : i < j := by
  by_contra hji
  exact absurd (endMinute_mono h (Nat.le_of_not_lt hji) hi) (Nat.not_le.mpr hlt)

theorem endMinute_of_activates (h : ActivatesAt s passes i) :
    endMinute s passes i = absoluteMinute (passes i).readings.finish := by
  rw [endMinute, finishTime, if_pos h]

/-! ### What a call compares -/

/-- The window of a call is the window at its minute. -/
theorem inWindow_iff (h : SteadyRun s passes last interval start stop1) (hi : i ≤ last) :
    inWindow (blynkRun (stateAt s passes i) (passes i)) (passes i).readings = true ↔
      WindowOpen start stop1 (startMinute passes i) := by
  obtain ⟨-, -, hstart, hstop⟩ := h.constant i hi
  rw [inWindow, hstart, hstop, h.start_eq i hi, h.stop1_eq i hi, Bool.and_eq_true,
    decide_eq_true_eq, decide_eq_true_eq]
  rfl

/-- Behind every call `prevDisplay` holds the second of the call. -/
theorem prevDisplay_succ (h : SteadyRun s passes last interval start stop1) (hi : i ≤ last) :
    (stateAt s passes (i + 1)).prevDisplay = (passes i).readings.test := by
  obtain ⟨hchanged, hdisplay, -, -⟩ := h.constant i hi
  rw [stateAt]
  by_cases hsame : (passes i).readings.changed = (stateAt s passes i).prevDisplay
  · rw [loop_of_unchanged hsame, blynkRun_prevDisplay, ← hsame, hchanged]
  · rw [loop_prevDisplay hsame, hdisplay]

/-- A call that finds its second unchanged has a call before it, but not before the last activation,
that found the same second new. -/
theorem exists_changed (h : SteadyRun s passes last interval start stop1)
    (hactivates : ActivatesAt s passes i) (hij : i ≤ j) (hj : j ≤ last) :
    ∃ k, i ≤ k ∧ k ≤ j ∧ (passes k).readings.changed ≠ (stateAt s passes k).prevDisplay ∧
      (passes k).readings.test = (passes j).readings.test := by
  induction j, hij using Nat.le_induction with
  | base => exact ⟨i, le_rfl, le_rfl, hactivates.1.1, rfl⟩
  | succ j hij ih =>
    by_cases hsame : (passes (j + 1)).readings.changed = (stateAt s passes (j + 1)).prevDisplay
    · obtain ⟨k, hik, hkj, hchanged, htest⟩ := ih (Nat.le_of_succ_le hj)
      refine ⟨k, hik, Nat.le_succ_of_le hkj, hchanged, ?_⟩
      rw [htest, ← prevDisplay_succ h (Nat.le_of_succ_le hj), ← hsame, (h.constant _ hj).1]
    · exact ⟨j + 1, Nat.le_succ_of_le hij, le_rfl, hsame, rfl⟩

/-- Up to the next activation, the scheduler waits for the minute of the target. -/
theorem nextMinutes_eq (h : SteadyRun s passes last interval start stop1) (hij : i < j)
    (hj : j ≤ last) (hactivates : ActivatesAt s passes i)
    (hnone : ∀ k, i < k → k < j → ¬ ActivatesAt s passes k) :
    (stateAt s passes j).nextMinutes.toInt = (target s passes interval i % 60 : ℕ) ∧
      (stateAt s passes j).firstTime = false := by
  obtain ⟨hnext, hfirst⟩ := stateAt_waits hij hnone
  rw [hnext, hfirst]
  refine ⟨?_, loop_firstTime_of_activates hactivates⟩
  have hinterval := h.interval_eq i (hij.le.trans hj)
  have hminute := minute_lt (passes i).readings.finish
  have hpos := h.interval_pos
  have hle := h.interval_le
  have hfits : SumFits (passes i).readings.finish
      (blynkRun (stateAt s passes i) (passes i)).interval := by
    unfold SumFits
    omega
  rw [stateAt, loop_nextMinutes_of_activates hactivates, toInt_nextMinutesOf hfits, hinterval,
    target, endMinute_of_activates hactivates]
  unfold minute absoluteMinute
  omega

/-! ### The next activation -/

/-- The next activation behind an activation starts in one of its slots. -/
theorem startMinute_mem_slots (h : SteadyRun s passes last interval start stop1) (hij : i < j)
    (hj : j ≤ last) (hi : ActivatesAt s passes i) (hactivates : ActivatesAt s passes j)
    (hnone : ∀ k, i < k → k < j → ¬ ActivatesAt s passes k) :
    startMinute passes j ∈ slots 60 (WindowOpen start stop1) (target s passes interval i) := by
  obtain ⟨hnext, hfirst⟩ := nextMinutes_eq h hij hj hi hnone
  have hminute := minute_eq_of_activates hfirst hactivates
  rw [hnext] at hminute
  have hshown : startMinute passes j ≡ target s passes interval i [MOD 60] :=
    Int.ofNat_inj.mp hminute
  refine ⟨?_, hshown, (inWindow_iff h hj).mp hactivates.1.2⟩
  exact add_le_of_modEq (Nat.lt_succ_of_le h.interval_le) (endMinute_le_startMinute h hij hj) hshown

/-- Among the activations behind a call, one is the next. -/
theorem exists_first (hij : i < j) (hactivates : ActivatesAt s passes j) :
    ∃ k, i < k ∧ k ≤ j ∧ ActivatesAt s passes k ∧
      ∀ m, i < m → m < k → ¬ ActivatesAt s passes m := by
  have hsome : ∃ k, i < k ∧ ActivatesAt s passes k := ⟨j, hij, hactivates⟩
  obtain ⟨hik, hk⟩ := Nat.find_spec hsome
  refine ⟨Nat.find hsome, hik, Nat.find_min' hsome ⟨hij, hactivates⟩, hk, ?_⟩
  intro m him hmk hm
  exact Nat.find_min hsome hmk ⟨him, hm⟩

/-- Behind an activation an open minute in which `loop` is called is compared by a call. -/
theorem exists_testsAt (h : SteadyRun s passes last interval start stop1) (hi : i ≤ last)
    (hj : j ≤ last) (hactivates : ActivatesAt s passes i)
    (hbehind : endMinute s passes i < startMinute passes j)
    (hopen : WindowOpen start stop1 (startMinute passes j)) :
    ∃ k ≤ last, i < k ∧ TestsAt s passes k ∧ startMinute passes k = startMinute passes j := by
  have hij : i < j := lt_of_endMinute_lt h hi (hbehind.trans_le (startMinute_le_endMinute h hj))
  obtain ⟨k, -, hkj, hchanged, htest⟩ := exists_changed h hactivates hij.le hj
  have hk : k ≤ last := hkj.trans hj
  have hminute : startMinute passes k = startMinute passes j := by
    rw [startMinute, htest, startMinute]
  rw [← hminute] at hbehind hopen
  exact ⟨k, hk, lt_of_endMinute_lt h hi (hbehind.trans_le (startMinute_le_endMinute h hk)),
    ⟨hchanged, (inWindow_iff h hk).mpr hopen⟩, hminute⟩

/-- A run that gets as far as the next slot has an activation up to it. -/
theorem exists_activates_le (h : SteadyRun s passes last interval start stop1) (hi : i ≤ last)
    (hactivates : ActivatesAt s passes i) {slot : ℕ}
    (hslot : slot ∈ slots 60 (WindowOpen start stop1) (target s passes interval i))
    (hreached : slot ≤ startMinute passes last) :
    ∃ j ≤ last, i < j ∧ ActivatesAt s passes j ∧ startMinute passes j ≤ slot := by
  obtain ⟨htarget, hshown, hopen⟩ := hslot
  have hbehind : endMinute s passes i < slot :=
    Nat.lt_of_lt_of_le (Nat.lt_add_of_pos_right h.interval_pos) htarget
  have hfrom : startMinute passes 0 ≤ slot :=
    (startMinute_mono h (Nat.zero_le i) hi).trans
      ((startMinute_le_endMinute h hi).trans hbehind.le)
  rcases h.called slot hfrom hreached with ⟨n, hn, rfl⟩ | ⟨n, hn, hrunning, hstart, hend⟩
  · obtain ⟨k, hk, hik, htests, hminute⟩ := exists_testsAt h hi hn hactivates hbehind hopen
    by_contra hmissed
    push Not at hmissed
    have hnone : ∀ m, i < m → m < k → ¬ ActivatesAt s passes m := by
      intro m him hmk hm
      have hlater := hmissed m (hmk.le.trans hk) him hm
      exact absurd (startMinute_mono h hmk.le hk) (Nat.not_le.mpr (hminute ▸ hlater))
    have hdue : startMinute passes k ≡ target s passes interval i [MOD 60] := by
      rw [hminute]
      exact hshown
    have hk' : ActivatesAt s passes k := by
      refine activates_of_minute_eq htests ?_
      rw [(nextMinutes_eq h hik hk hactivates hnone).1]
      exact Int.ofNat_inj.mpr hdue
    exact absurd (hmissed k hk hik hk') (Nat.not_lt.mpr hminute.le)
  · exact ⟨n, hn, lt_of_endMinute_lt h hi (hbehind.trans_le hend), hrunning, hstart⟩

/-- A run that gets as far as the next slot has an activation in it. -/
theorem exists_activates_at (h : SteadyRun s passes last interval start stop1) (hi : i ≤ last)
    (hactivates : ActivatesAt s passes i) {slot : ℕ}
    (hslot : IsLeast (slots 60 (WindowOpen start stop1) (target s passes interval i)) slot)
    (hreached : slot ≤ startMinute passes last) :
    ∃ j ≤ last, i < j ∧ ActivatesAt s passes j ∧ startMinute passes j = slot := by
  obtain ⟨j, hj, hij, hnext, hle⟩ := exists_activates_le h hi hactivates hslot.1 hreached
  obtain ⟨k, hik, hkj, hk, hnone⟩ := exists_first hij hnext
  have hmem := startMinute_mem_slots h hik (hkj.trans hj) hactivates hk hnone
  exact ⟨k, hkj.trans hj, hik, hk,
    Nat.le_antisymm ((startMinute_mono h hkj hj).trans hle) (hslot.2 hmem)⟩

/-- No activation starts before the target of an earlier one. -/
theorem target_le_startMinute (h : SteadyRun s passes last interval start stop1) (hij : i < j)
    (hj : j ≤ last) (hi : ActivatesAt s passes i) (hactivates : ActivatesAt s passes j) :
    target s passes interval i ≤ startMinute passes j := by
  obtain ⟨k, hik, hkj, hk, hnone⟩ := exists_first hij hactivates
  have hmem := startMinute_mem_slots h hik (hkj.trans hj) hi hk hnone
  exact hmem.1.trans (startMinute_mono h hkj hj)

/-- The window of a steady run in which a call activates has a next slot behind every minute. -/
theorem exists_next_slot (h : SteadyRun s passes last interval start stop1) (hi : i ≤ last)
    (hactivates : ActivatesAt s passes i) (origin : ℕ) :
    ∃ slot, IsLeast (slots 60 (WindowOpen start stop1) origin) slot := by
  obtain ⟨hfrom, hto⟩ := (inWindow_iff h hi).mp hactivates.1.2
  exact exists_isLeast_slots (fun number ↦ start ≤ number ∧ (number : ℤ) ≤ stop1) (by omega)
    (Nat.mod_lt (startMinute passes i / 60) (by omega)) ⟨hfrom, hto⟩

theorem spacedBehind (h : SteadyRun s passes last interval start stop1) (hi : i ≤ last)
    (hactivates : ActivatesAt s passes i) :
    SpacedBehind s passes last interval start stop1 i := by
  obtain ⟨slot, hslot⟩ := exists_next_slot h hi hactivates (target s passes interval i)
  refine ⟨fun j hj hij ↦ target_le_startMinute h hij hj hactivates, slot, hslot,
    fun hopen ↦ hslot.unique (isLeast_slots_target hopen),
    exists_activates_at h hi hactivates hslot, ?_⟩
  intro j hj hij hnext hnone
  have hmem := startMinute_mem_slots h hij hj hactivates hnext hnone
  have hreached : slot ≤ startMinute passes last :=
    (hslot.2 hmem).trans (startMinute_mono h hj le_rfl)
  obtain ⟨k, hk, hik, hother, rfl⟩ := exists_activates_at h hi hactivates hslot hreached
  have hjk : j ≤ k := Nat.le_of_not_lt fun hkj ↦ hnone k hik hkj hother
  exact Nat.le_antisymm (startMinute_mono h hjk hk) (hslot.2 hmem)

/-- In a steady run every activation is spaced exactly behind the one before it, and no absolute
minute gets two activations. The activations are the calls that switch the outputs. -/
theorem run_spaced (h : SteadyRun s passes last interval start stop1) :
    (∀ i ≤ last, ActivatesAt s passes i → SpacedBehind s passes last interval start stop1 i) ∧
      (∀ j ≤ last, ∀ i < j, ActivatesAt s passes i → ActivatesAt s passes j →
        startMinute passes i < startMinute passes j) ∧
      ∀ i, ActivatesAt s passes i ↔ (loop (stateAt s passes i) (passes i)).2 ≠ [] := by
  refine ⟨fun i hi hactivates ↦ spacedBehind h hi hactivates, ?_, fun i ↦ activates_iff _ _⟩
  intro j hj i hij hi hactivates
  have hend := startMinute_le_endMinute h (hij.le.trans hj)
  have htarget := target_le_startMinute h hij hj hi hactivates
  have hpos := h.interval_pos
  unfold target at htarget
  omega

/-- One call in every minute from eight on; an activation takes 18 seconds. -/
def everyMinute (n : ℕ) : Pass where
  writes := []
  readings :=
    let t := BitVec.ofNat 32 (28800 + 60 * n)
    ⟨t, t, t, t, t, t + 18⟩

theorem steadyRun_everyMinute : SteadyRun powerOn everyMinute 4 2 8 17 := by
  refine ⟨by omega, by omega, by decide, by decide, by decide, by decide, by decide,
    by decide, ?_⟩
  intro position hfrom hto
  have hfirst : startMinute everyMinute 0 = 480 := by decide
  have hlast : startMinute everyMinute 4 = 484 := by decide
  have hstart : ∀ n ≤ 4, startMinute everyMinute n = 480 + n := by decide
  rw [hfirst] at hfrom
  rw [hlast] at hto
  exact .inl ⟨position - 480, by omega, by rw [hstart _ (by omega)]; omega⟩

/-- The calls 0, 2 and 4 switch the outputs, every other minute. -/
theorem everyMinute_spaced :
    (∀ i ≤ 4, (loop (stateAt powerOn everyMinute i) (everyMinute i)).2 ≠ [] ↔
      i = 0 ∨ i = 2 ∨ i = 4) ∧
    SpacedBehind powerOn everyMinute 4 2 8 17 0 ∧ SpacedBehind powerOn everyMinute 4 2 8 17 2 ∧
      startMinute everyMinute 0 < startMinute everyMinute 2 ∧
      startMinute everyMinute 2 < startMinute everyMinute 4 := by
  obtain ⟨hspaced, hlater, hswitches⟩ := run_spaced steadyRun_everyMinute
  have hzero : ActivatesAt powerOn everyMinute 0 := by decide
  have htwo : ActivatesAt powerOn everyMinute 2 := by decide
  have hfour : ActivatesAt powerOn everyMinute 4 := by decide
  refine ⟨fun i hi ↦ (hswitches i).symm.trans ?_, hspaced 0 (by omega) hzero,
    hspaced 2 (by omega) htwo, hlater 2 (by omega) 0 (by omega) hzero htwo,
    hlater 4 le_rfl 2 (by omega) htwo hfour⟩
  revert i
  decide

end Sketchbook.Timer.ActivationSpacing
