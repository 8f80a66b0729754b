import Mathlib.Data.Nat.Init
import Mathlib.Data.Int.Notation
import Mathlib.Tactic.SplitIfs

/-!
# The timer scheduler of timers

`loop` lets `Blynk.run` handle what the app has written to the pins V0 to V5, and once per second of
the clock compares the hour with the window from `start` to `stop1` and the minute with
`next_minutes`. Where both agree, or the window is open for the first time, it switches the three
outputs in sequence, which blocks for the delays, and computes the next minute from the clock as it
is then.

A `Pass` holds what one call of `loop` receives: the values written and the readings of the clock,
each at the place where the source calls `now`, `hour` or `minute`. An `int` has 32 bits, as on the
ESP8266, and its sum wraps; `time_t` is the unsigned 32-bit `sysTime` of the Time library. `stateAt`
is the state before the n-th call of `loop`.
-/

set_option autoImplicit false
set_option relaxedAutoImplicit false

namespace Sketchbook.Timer.TimerScheduler

/-! ### The clock -/

/-- `minute(t)`, the `tm.Minute` of `breakTime`. -/
def minute (t : BitVec 32) : ℕ := t.toNat / 60 % 60

/-- `hour(t)`, the `tm.Hour` of `breakTime`. -/
def hour (t : BitVec 32) : ℕ := t.toNat / 60 / 60 % 24

/-- The minutes since the epoch, which the clock shows modulo 60. -/
def absoluteMinute (t : BitVec 32) : ℕ := t.toNat / 60

theorem minute_lt (t : BitVec 32) : minute t < 60 := Nat.mod_lt _ (by omega)

/-! ### The sketch -/

/-- The outputs the sketch switches. -/
inductive Pin
  | D1
  | D2
  | D3
deriving DecidableEq

/-- What `sequential_timers` does, one call after the other. -/
inductive Action
  | digitalWrite (pin : Pin) (high : Bool)
  | delay (ms : BitVec 32)
deriving DecidableEq

/-- The globals of the sketch that `loop` reads. -/
structure TimerState where
  timer1 : BitVec 32
  timer2 : BitVec 32
  timer3 : BitVec 32
  start : BitVec 32
  stop1 : BitVec 32
  interval : BitVec 32
  prevDisplay : BitVec 32
  nextMinutes : BitVec 32
  firstTime : Bool
deriving DecidableEq

/-- The globals as they are initialised. -/
def powerOn : TimerState where
  timer1 := 10
  timer2 := 5
  timer3 := 1
  start := 8
  stop1 := 17
  interval := 2
  prevDisplay := 0
  nextMinutes := 0
  firstTime := true

/-- The virtual pins of the app. -/
inductive VirtualPin
  | V0
  | V1
  | V2
  | V3
  | V4
  | V5
deriving DecidableEq

/-- The app writes a value, `param.asInt()`, to a virtual pin. -/
structure Write where
  pin : VirtualPin
  value : BitVec 32
deriving DecidableEq

/-- The `BLYNK_WRITE` handlers. -/
def blynkWrite (s : TimerState) (write : Write) : TimerState :=
  match write.pin with
  | .V0 => { s with timer1 := write.value }
  | .V1 => { s with timer2 := write.value }
  | .V2 => { s with timer3 := write.value }
  | .V3 => { s with start := write.value }
  | .V4 => { s with stop1 := write.value }
  | .V5 => { s with interval := write.value }

/-- `sequential_timers(t1, t2, t3)`. -/
def sequentialTimers (t1 t2 t3 : BitVec 32) : List Action :=
  [.digitalWrite .D1 true, .delay (t1 * 1000),
    .digitalWrite .D2 true, .delay (t2 * 1000),
    .digitalWrite .D3 true, .delay (t3 * 1000),
    .digitalWrite .D3 false, .delay 1000,
    .digitalWrite .D2 false, .delay 1000,
    .digitalWrite .D1 false]

/-- The readings of the clock in one call of `loop`, in the order of the source: the comparison with
`prevDisplay`, its new value, the two hours of the window, the minute compared with `next_minutes`,
and the minute behind `sequential_timers`. -/
structure Readings where
  changed : BitVec 32
  display : BitVec 32
  startHour : BitVec 32
  stopHour : BitVec 32
  test : BitVec 32
  finish : BitVec 32

/-- What one call of `loop` receives. -/
structure Pass where
  writes : List Write
  readings : Readings

/-- `Blynk.run()`. -/
def blynkRun (s : TimerState) (pass : Pass) : TimerState := pass.writes.foldl blynkWrite s

/-- `hour() >= start && hour() <= stop1`. -/
def inWindow (s : TimerState) (readings : Readings) : Bool :=
  decide (s.start.toInt ≤ hour readings.startHour) &&
    decide ((hour readings.stopHour : ℤ) ≤ s.stop1.toInt)

/-- `minute() == next_minutes || firstTime == true`. -/
def isDue (s : TimerState) (readings : Readings) : Bool :=
  decide ((minute readings.test : ℤ) = s.nextMinutes.toInt) || s.firstTime

/-- `next_minutes = minute() + interval`, with 60 taken off where it exceeds 59. -/
def nextMinutesOf (now : BitVec 32) (interval : BitVec 32) : BitVec 32 :=
  let next := BitVec.ofNat 32 (minute now) + interval
  if 59 < next.toInt then next - 60 else next

/-- `loop` behind `Blynk.run()`, with the calls that switch the outputs. -/
def display (s : TimerState) (readings : Readings) : TimerState × List Action :=
  if readings.changed ≠ s.prevDisplay then
    let s := { s with prevDisplay := readings.display }
    if inWindow s readings then
      if isDue s readings then
        ({ s with
            nextMinutes := nextMinutesOf readings.finish s.interval
            firstTime := false },
          sequentialTimers s.timer1 s.timer2 s.timer3)
      else (s, [])
    else (s, [])
  else (s, [])

/-- One call of `loop`. -/
def loop (s : TimerState) (pass : Pass) : TimerState × List Action :=
  display (blynkRun s pass) pass.readings

/-- The state before the n-th call of `loop`. -/
def stateAt (s : TimerState) (passes : ℕ → Pass) : ℕ → TimerState
  | 0 => s
  | n + 1 => (loop (stateAt s passes n) (passes n)).1

/-! ### One call -/

/-- The call compares the minute: a new second, with the window open. -/
def Tests (s : TimerState) (pass : Pass) : Prop :=
  pass.readings.changed ≠ s.prevDisplay ∧ inWindow (blynkRun s pass) pass.readings = true

/-- The call runs `sequential_timers`. -/
def Activates (s : TimerState) (pass : Pass) : Prop :=
  Tests s pass ∧ isDue (blynkRun s pass) pass.readings = true

instance (s : TimerState) (pass : Pass) : Decidable (Tests s pass) :=
  inferInstanceAs (Decidable (_ ∧ _))

instance (s : TimerState) (pass : Pass) : Decidable (Activates s pass) :=
  inferInstanceAs (Decidable (_ ∧ _))

/-- The n-th call of `loop` compares the minute. -/
abbrev TestsAt (s : TimerState) (passes : ℕ → Pass) (n : ℕ) : Prop :=
  Tests (stateAt s passes n) (passes n)

/-- The n-th call of `loop` activates. -/
abbrev ActivatesAt (s : TimerState) (passes : ℕ → Pass) (n : ℕ) : Prop :=
  Activates (stateAt s passes n) (passes n)

variable {s : TimerState} {pass : Pass}

/-- The handlers write neither `prevDisplay` nor the scheduler's own globals. -/
theorem blynkRun_own (s : TimerState) (pass : Pass) :
    (blynkRun s pass).prevDisplay = s.prevDisplay ∧
      (blynkRun s pass).nextMinutes = s.nextMinutes ∧
        (blynkRun s pass).firstTime = s.firstTime := by
  unfold blynkRun
  induction pass.writes generalizing s with
  | nil => exact ⟨rfl, rfl, rfl⟩
  | cons write writes ih =>
    obtain ⟨hprev, hnext, hfirst⟩ := ih (blynkWrite s write)
    rw [List.foldl_cons, hprev, hnext, hfirst]
    unfold blynkWrite
    cases write.pin <;> exact ⟨rfl, rfl, rfl⟩

@[simp] theorem blynkRun_prevDisplay (s : TimerState) (pass : Pass) :
    (blynkRun s pass).prevDisplay = s.prevDisplay := (blynkRun_own s pass).1

@[simp] theorem blynkRun_nextMinutes (s : TimerState) (pass : Pass) :
    (blynkRun s pass).nextMinutes = s.nextMinutes := (blynkRun_own s pass).2.1

@[simp] theorem blynkRun_firstTime (s : TimerState) (pass : Pass) :
    (blynkRun s pass).firstTime = s.firstTime := (blynkRun_own s pass).2.2

/-- A call that finds the second unchanged does nothing else. -/
theorem loop_of_unchanged (h : pass.readings.changed = s.prevDisplay) :
    loop s pass = (blynkRun s pass, []) := by
  unfold loop display
  rw [if_neg (by simpa using h)]

/-- A call in a new second that does not activate only notes the second. -/
theorem loop_of_not_activates (hchanged : pass.readings.changed ≠ s.prevDisplay)
    (h : ¬ Activates s pass) :
    loop s pass = ({ blynkRun s pass with prevDisplay := pass.readings.display }, []) := by
  unfold loop display
  rw [if_pos (by simpa using hchanged)]
  dsimp only
  split_ifs with hwindow hdue
  · exact absurd ⟨⟨hchanged, hwindow⟩, hdue⟩ h
  · rfl
  · rfl

/-- A call that activates switches the outputs and sets the next minute. -/
theorem loop_of_activates (h : Activates s pass) :
    loop s pass =
      ({ blynkRun s pass with
          prevDisplay := pass.readings.display
          nextMinutes := nextMinutesOf pass.readings.finish (blynkRun s pass).interval
          firstTime := false },
        sequentialTimers (blynkRun s pass).timer1 (blynkRun s pass).timer2
          (blynkRun s pass).timer3) := by
  obtain ⟨⟨hchanged, hwindow⟩, hdue⟩ := h
  unfold loop display
  rw [if_pos (by simpa using hchanged)]
  dsimp only
  split_ifs with hopen hminute
  · rfl
  · exact absurd hdue hminute
  · exact absurd hwindow hopen

/-- The outputs are switched exactly by the calls that activate. -/
theorem activates_iff (s : TimerState) (pass : Pass) :
    Activates s pass ↔ (loop s pass).2 ≠ [] := by
  by_cases h : Activates s pass
  · rw [loop_of_activates h]
    exact iff_of_true h (List.cons_ne_nil _ _)
  · refine iff_of_false h (not_not_intro ?_)
    by_cases hchanged : pass.readings.changed = s.prevDisplay
    · rw [loop_of_unchanged hchanged]
    · rw [loop_of_not_activates hchanged h]

/-- Only an activation changes what the scheduler waits for. -/
theorem loop_waits (h : ¬ Activates s pass) :
    (loop s pass).1.nextMinutes = s.nextMinutes ∧ (loop s pass).1.firstTime = s.firstTime := by
  by_cases hchanged : pass.readings.changed = s.prevDisplay
  · rw [loop_of_unchanged hchanged]
    exact ⟨blynkRun_nextMinutes s pass, blynkRun_firstTime s pass⟩
  · rw [loop_of_not_activates hchanged h]
    exact ⟨blynkRun_nextMinutes s pass, blynkRun_firstTime s pass⟩

theorem loop_nextMinutes_of_activates (h : Activates s pass) :
    (loop s pass).1.nextMinutes =
      nextMinutesOf pass.readings.finish (blynkRun s pass).interval := by
  rw [loop_of_activates h]

theorem loop_firstTime_of_activates (h : Activates s pass) :
    (loop s pass).1.firstTime = false := by
  rw [loop_of_activates h]

theorem loop_prevDisplay (hchanged : pass.readings.changed ≠ s.prevDisplay) :
    (loop s pass).1.prevDisplay = pass.readings.display := by
  by_cases h : Activates s pass
  · rw [loop_of_activates h]
  · rw [loop_of_not_activates hchanged h]

/-! ### Stretches of calls without an activation -/

/-- From one call to a later one, without an activation in between, the scheduler waits for the same
minute. -/
theorem stateAt_waits {passes : ℕ → Pass} {first last : ℕ} (hle : first ≤ last)
    (h : ∀ n, first ≤ n → n < last → ¬ ActivatesAt s passes n) :
    (stateAt s passes last).nextMinutes = (stateAt s passes first).nextMinutes ∧
      (stateAt s passes last).firstTime = (stateAt s passes first).firstTime := by
  induction last, hle using Nat.le_induction with
  | base => exact ⟨rfl, rfl⟩
  | succ last hle ih =>
    obtain ⟨hnext, hfirst⟩ := loop_waits (h last hle (Nat.lt_succ_self last))
    obtain ⟨ihnext, ihfirst⟩ := ih fun n hn hlt ↦ h n hn (Nat.lt_succ_of_lt hlt)
    exact ⟨hnext.trans ihnext, hfirst.trans ihfirst⟩

/-- Once an activation has run, a call activates only at the minute waited for. -/
theorem minute_eq_of_activates (hfirst : s.firstTime = false) (h : Activates s pass) :
    (minute pass.readings.test : ℤ) = s.nextMinutes.toInt := by
  have hdue := h.2
  simpa [isDue, hfirst] using hdue

/-- A call that compares the minute waited for activates. -/
theorem activates_of_minute_eq (htests : Tests s pass)
    (h : (minute pass.readings.test : ℤ) = s.nextMinutes.toInt) : Activates s pass := by
  refine ⟨htests, ?_⟩
  simp [isDue, h]

end Sketchbook.Timer.TimerScheduler
