import Sketchbook.Station.AlertStation

/-!
# The alert variable and the PIR interrupt

`ALERT_EVENT` is written by the interrupt handler and by `loop`, and the interrupt is attached or
not. In every reachable state the statement to execute next and the alert determine whether the
interrupt is attached, and the statements inside the two alert branches determine the alert
(`AlertInvariant`). In particular the interrupt is detached while the alert is RESET, so only
`loop` ends that state.

A `SLEEP_WIFI` or `WAKEUP_WIFI` touches neither, so this holds of both sketches.
-/

set_option autoImplicit false
set_option relaxedAutoImplicit false

namespace Sketchbook.Station.AlertProtocol

open Foundation.TransitionSystem AlertStation

variable {sketch : StationSketch}

/-! ### Calls that leave the alert alone -/

@[simp] theorem ifPowerSave_wakeupWifi (s : StationState) :
    ifPowerSave sketch wakeupWifi s =
      { s with wifiConnected := sketch.powerSaveEnable || s.wifiConnected } := by
  obtain ⟨powerSaveEnable⟩ := sketch
  obtain ⟨_, wifiConnected⟩ := s
  cases powerSaveEnable <;> cases wifiConnected <;> rfl

@[simp] theorem ifPowerSave_sleepWifi (s : StationState) :
    ifPowerSave sketch sleepWifi s =
      { s with wifiConnected := !sketch.powerSaveEnable && s.wifiConnected } := by
  obtain ⟨powerSaveEnable⟩ := sketch
  obtain ⟨_, wifiConnected⟩ := s
  cases powerSaveEnable <;> cases wifiConnected <;> rfl

/-! ### The invariant -/

/-- Whether the PIR interrupt is attached when a statement is next and the alert has a value. -/
def attachedAt (pc : Statement) (alertEvent : AlertEvent) : Bool :=
  match pc with
  | .wakeupForAlert | .resetAlert | .writeClear | .sleepAfterClear | .attachInterrupt => false
  | _ => alertEvent ≠ .reset

/-- The value of the alert at the statements that only one value leads to. -/
def AlertAt (pc : Statement) (alertEvent : AlertEvent) : Prop :=
  match pc with
  | .detachInterrupt | .wakeupForAlert | .resetAlert => alertEvent = .set
  | .writeAlert | .readTime1 | .readTime2 | .ifAlertOver | .clearAlert => alertEvent = .reset
  | .writeClear | .sleepAfterClear | .attachInterrupt => alertEvent = .notSet
  | _ => True

/-- The next statement and the alert determine the interrupt, and some statements the alert. -/
structure AlertInvariant (s : StationState) : Prop where
  attached : s.pirAttached = attachedAt s.pc s.alertEvent
  alertAt : AlertAt s.pc s.alertEvent

theorem alertInvariant_afterSetup (clock : ℕ) : AlertInvariant (afterSetup clock) :=
  ⟨rfl, trivial⟩

/-- While the PIR interrupt is attached the alert may become SET. -/
theorem AlertInvariant.pirhandler {s : StationState} (h : AlertInvariant s)
    (hattached : s.pirAttached = true) : AlertInvariant (pirhandler s) := by
  obtain ⟨hat, halert⟩ := h
  rw [hattached] at hat
  obtain ⟨pc⟩ := s
  cases pc with
  | wakeupForAlert | resetAlert | writeClear | sleepAfterClear | attachInterrupt =>
    exact absurd hat.symm Bool.false_ne_true
  | writeAlert | readTime1 | readTime2 | ifAlertOver | clearAlert =>
    rw [show _ = AlertEvent.reset from halert] at hat
    exact absurd hat.symm Bool.false_ne_true
  | detachInterrupt => exact ⟨hattached, rfl⟩
  | _ => exact ⟨hattached, trivial⟩

/-- A statement of `loop` keeps the invariant. -/
theorem AlertInvariant.execute {s : StationState} (h : AlertInvariant s) (reading : Reading) :
    AlertInvariant (execute sketch reading s) := by
  obtain ⟨hattached, halert⟩ := h
  obtain ⟨pc, _, _, received, _, alertEvent, upload⟩ := s
  cases pc with
  | ifReceived => cases received <;> exact ⟨hattached, trivial⟩
  | ifUpload => cases upload <;> exact ⟨hattached, trivial⟩
  | ifCorrupted =>
    simp only [AlertStation.execute]
    split_ifs <;> exact ⟨hattached, trivial⟩
  | ifAlertSet =>
    cases alertEvent with
    | set => exact ⟨hattached, rfl⟩
    | notSet | reset => exact ⟨hattached, trivial⟩
  | ifAlertReset =>
    cases alertEvent with
    | reset => exact ⟨hattached, rfl⟩
    | notSet | set => exact ⟨hattached, trivial⟩
  | ifAlertOver =>
    simp only [AlertStation.execute]
    split_ifs
    · exact ⟨hattached, halert⟩
    · exact ⟨hattached, trivial⟩
  | wakeupForUpload | sleepAfterUpload =>
    simp only [AlertStation.execute, ifPowerSave_wakeupWifi, ifPowerSave_sleepWifi]
    exact ⟨hattached, trivial⟩
  | wakeupForAlert | sleepAfterClear =>
    simp only [AlertStation.execute, ifPowerSave_wakeupWifi, ifPowerSave_sleepWifi]
    exact ⟨hattached, halert⟩
  | detachInterrupt => exact ⟨rfl, halert⟩
  | resetAlert =>
    obtain rfl : alertEvent = .set := halert
    exact ⟨hattached, rfl⟩
  | clearAlert =>
    obtain rfl : alertEvent = .reset := halert
    exact ⟨hattached, rfl⟩
  | writeAlert | readTime2 | writeClear => exact ⟨hattached, halert⟩
  | attachInterrupt =>
    obtain rfl : alertEvent = .notSet := halert
    exact ⟨rfl, trivial⟩
  | _ => exact ⟨hattached, trivial⟩

theorem AlertInvariant.step {s next : StationState} {activity : Activity} (h : AlertInvariant s)
    (hstep : step sketch s activity = some next) : AlertInvariant next := by
  rcases step_cases hstep with ⟨-, hattached, rfl⟩ | ⟨-, -, rfl⟩ | ⟨_, -, rfl⟩ | ⟨reading, -, rfl⟩
  · exact h.pirhandler hattached
  · exact ⟨h.attached, h.alertAt⟩
  · exact ⟨h.attached, h.alertAt⟩
  · exact h.execute reading

/-- The invariant holds wherever a run ends. -/
theorem run_alertInvariant {trace : List (Transition StationState Activity)} {s : StationState}
    (hrun : Run (station sketch) trace s) : AlertInvariant s := by
  refine hrun.invariant (I := AlertInvariant) ?_ ?_
  · rintro _ ⟨clock, rfl⟩
    exact alertInvariant_afterSetup clock
  · intro s activity next h hstep
    exact h.step hstep

end Sketchbook.Station.AlertProtocol
