import Mathlib.Algebra.Order.Field.Rat
import Sketchbook.Foundation.TransitionSystem

/-!
# The weather and alert station

sketch_jan07a and ESp8266_ds18s0_rflibr_thingspeak_ota share one `loop`. A received frame makes it
read two temperatures and upload them; an alert of the PIR sensor makes it write 100 to field 3
and, more than ten seconds later, 0. sketch_jan07a is compiled with `POWER_SAVE_ENABLE` and puts
the WiFi to sleep between writes; the other sketch is not, and its calls of `WAKEUP_WIFI` and
`SLEEP_WIFI` are statements without effect here.

`loop` is modelled statement by statement: `pc` is the statement to execute next, and between any
two statements the PIR interrupt, the reception of a frame or the passing of time can take place.
The interrupt handler itself runs to its end, as no other interrupt of the sketch touches what it
touches. Statements that print, wait or switch the LED are left out, and with them
`ArduinoOTA.handle`.

The RF433 library is not part of the sketches. `rfEnabled` is what `enableRF` and `disableRF`
switch, a frame sets `received` only while it is on, and `getTemperature` answers any number and
clears `received`. `WAKEUP_WIFI` returns only when the WiFi is connected. The three string literals
that `ALERT_EVENT` points to are an enumeration, and temperatures are rationals.
-/

set_option autoImplicit false
set_option relaxedAutoImplicit false

namespace Sketchbook.Station.AlertStation

open Foundation.TransitionSystem

/-- What distinguishes the two sketches. -/
structure StationSketch where
  powerSaveEnable : Bool

/-- The values of `ALERT_EVENT`. -/
inductive AlertEvent
  | notSet
  | set
  | reset
deriving DecidableEq

/-- The statements of `loop`, in the order of the source. -/
inductive Statement
  | declareUpload
  | ifReceived
  | disableRF
  | readTempIn
  | readTempOut
  | ifCorrupted
  | rejectUpload
  | enableRFAfterCorrupted
  | acceptUpload
  | ifUpload
  | wakeupForUpload
  | setField1
  | setField2
  | writeFields
  | sleepAfterUpload
  | enableRFAfterUpload
  | ifAlertSet
  | detachInterrupt
  | wakeupForAlert
  | resetAlert
  | writeAlert
  | readTime1
  | ifAlertReset
  | readTime2
  | ifAlertOver
  | clearAlert
  | writeClear
  | sleepAfterClear
  | attachInterrupt
  | enableRFAfterClear
deriving DecidableEq

/-- The station between two statements. `clock` is the time in milliseconds. -/
structure StationState where
  pc : Statement
  wifiConnected : Bool
  rfEnabled : Bool
  received : Bool
  pirAttached : Bool
  alertEvent : AlertEvent
  upload : Bool
  tempIn : ℚ
  tempOut : ℚ
  field1 : ℚ
  field2 : ℚ
  time1 : BitVec 32
  time2 : BitVec 32
  clock : ℕ
deriving DecidableEq

/-- What the sensors answer while a statement runs. -/
structure Reading where
  tempC : ℚ
  temperature : ℚ

/-- The time in milliseconds as an `unsigned long`. -/
def millis (s : StationState) : BitVec 32 := BitVec.ofNat 32 s.clock

def sleepWifi (s : StationState) : StationState :=
  if s.wifiConnected = true then { s with wifiConnected := false } else s

def wakeupWifi (s : StationState) : StationState :=
  if s.wifiConnected = false then { s with wifiConnected := true } else s

/-- A call that the source compiles only with `POWER_SAVE_ENABLE`. -/
def ifPowerSave (sketch : StationSketch) (call : StationState → StationState) (s : StationState) :
    StationState :=
  if sketch.powerSaveEnable then call s else s

def pirhandler (s : StationState) : StationState :=
  { s with rfEnabled := false, alertEvent := .set }

/-- The statement `s.pc`, with the answers of the sensors. -/
def execute (sketch : StationSketch) (reading : Reading) (s : StationState) : StationState :=
  match s.pc with
  | .declareUpload => { s with pc := .ifReceived, upload := false }
  | .ifReceived => { s with pc := if s.received then .disableRF else .ifUpload }
  | .disableRF => { s with pc := .readTempIn, rfEnabled := false }
  | .readTempIn => { s with pc := .readTempOut, tempIn := reading.tempC }
  | .readTempOut => { s with pc := .ifCorrupted, tempOut := reading.temperature, received := false }
  | .ifCorrupted => { s with pc := if s.tempOut > 100 then .rejectUpload else .acceptUpload }
  | .rejectUpload => { s with pc := .enableRFAfterCorrupted, upload := false }
  | .enableRFAfterCorrupted => { s with pc := .ifUpload, rfEnabled := true }
  | .acceptUpload => { s with pc := .ifUpload, upload := true }
  | .ifUpload => { s with pc := if s.upload then .wakeupForUpload else .ifAlertSet }
  | .wakeupForUpload => { ifPowerSave sketch wakeupWifi s with pc := .setField1 }
  | .setField1 => { s with pc := .setField2, field1 := s.tempIn }
  | .setField2 => { s with pc := .writeFields, field2 := s.tempOut }
  | .writeFields => { s with pc := .sleepAfterUpload }
  | .sleepAfterUpload => { ifPowerSave sketch sleepWifi s with pc := .enableRFAfterUpload }
  | .enableRFAfterUpload => { s with pc := .ifAlertSet, rfEnabled := true }
  | .ifAlertSet => { s with pc := if s.alertEvent = .set then .detachInterrupt else .ifAlertReset }
  | .detachInterrupt => { s with pc := .wakeupForAlert, pirAttached := false }
  | .wakeupForAlert => { ifPowerSave sketch wakeupWifi s with pc := .resetAlert }
  | .resetAlert => { s with pc := .writeAlert, alertEvent := .reset }
  | .writeAlert => { s with pc := .readTime1 }
  | .readTime1 => { s with pc := .ifAlertReset, time1 := millis s }
  | .ifAlertReset => { s with pc := if s.alertEvent = .reset then .readTime2 else .declareUpload }
  | .readTime2 => { s with pc := .ifAlertOver, time2 := millis s }
  | .ifAlertOver =>
    { s with pc := if (s.time2 - s.time1).toNat > 10000 then .clearAlert else .declareUpload }
  | .clearAlert => { s with pc := .writeClear, alertEvent := .notSet }
  | .writeClear => { s with pc := .sleepAfterClear }
  | .sleepAfterClear => { ifPowerSave sketch sleepWifi s with pc := .attachInterrupt }
  | .attachInterrupt => { s with pc := .enableRFAfterClear, pirAttached := true }
  | .enableRFAfterClear => { s with pc := .declareUpload, rfEnabled := true }

/-- The fields and values that the statement to execute next sends to ThingSpeak. -/
def written (s : StationState) : Option (List (ℕ × ℚ)) :=
  match s.pc with
  | .writeFields => some [(1, s.field1), (2, s.field2)]
  | .writeAlert => some [(3, 100)]
  | .writeClear => some [(3, 0)]
  | _ => none

/-- What can happen next. -/
inductive Activity
  | pir
  | frame
  | tick (milliseconds : ℕ)
  | statement (reading : Reading)

def step (sketch : StationSketch) (s : StationState) : Activity → Option StationState
  | .pir => if s.pirAttached then some (pirhandler s) else none
  | .frame => if s.rfEnabled then some { s with received := true } else none
  | .tick milliseconds => some { s with clock := s.clock + milliseconds }
  | .statement reading => some (execute sketch reading s)

/-- The station when `setup` has connected the WiFi, enabled the receiver and attached the PIR
interrupt. -/
def afterSetup (clock : ℕ) : StationState where
  pc := .declareUpload
  wifiConnected := true
  rfEnabled := true
  received := false
  pirAttached := true
  alertEvent := .notSet
  upload := false
  tempIn := 0
  tempOut := 0
  field1 := 0
  field2 := 0
  time1 := 0
  time2 := 0
  clock := clock

/-- The interleavings of `loop` with interrupts, frames and time. -/
def station (sketch : StationSketch) : System StationState Activity where
  initial s := ∃ clock, s = afterSetup clock
  step := step sketch

theorem initial_afterSetup (sketch : StationSketch) (clock : ℕ) :
    (station sketch).initial (afterSetup clock) :=
  ⟨clock, rfl⟩

/-- What one step can do. -/
theorem step_cases {sketch : StationSketch} {s next : StationState} {activity : Activity}
    (h : step sketch s activity = some next) :
    (activity = .pir ∧ s.pirAttached = true ∧ next = pirhandler s) ∨
      (activity = .frame ∧ s.rfEnabled = true ∧ next = { s with received := true }) ∨
      (∃ milliseconds, activity = .tick milliseconds ∧
        next = { s with clock := s.clock + milliseconds }) ∨
      ∃ reading, activity = .statement reading ∧ next = execute sketch reading s := by
  cases activity with
  | pir =>
    obtain ⟨hattached, heq⟩ := Option.ite_none_right_eq_some.mp h
    exact Or.inl ⟨rfl, hattached, (Option.some.inj heq).symm⟩
  | frame =>
    obtain ⟨henabled, heq⟩ := Option.ite_none_right_eq_some.mp h
    exact Or.inr (Or.inl ⟨rfl, henabled, (Option.some.inj heq).symm⟩)
  | tick milliseconds =>
    exact Or.inr (Or.inr (Or.inl ⟨milliseconds, rfl, (Option.some.inj h).symm⟩))
  | statement reading =>
    exact Or.inr (Or.inr (Or.inr ⟨reading, rfl, (Option.some.inj h).symm⟩))

end Sketchbook.Station.AlertStation

namespace Sketchbook.Station.SketchJan07a

/-- sketch_jan07a defines `POWER_SAVE_ENABLE`. -/
def sketch : AlertStation.StationSketch := ⟨true⟩

end Sketchbook.Station.SketchJan07a

namespace Sketchbook.Station.ESp8266Ds18s0RflibrThingspeakOta

/-- ESp8266_ds18s0_rflibr_thingspeak_ota comments `POWER_SAVE_ENABLE` out. -/
def sketch : AlertStation.StationSketch := ⟨false⟩

end Sketchbook.Station.ESp8266Ds18s0RflibrThingspeakOta
