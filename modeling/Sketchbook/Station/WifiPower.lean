import Sketchbook.Station.AlertProtocol

/-!
# ThingSpeak writes and the WiFi of sketch_jan07a

`loop` of sketch_jan07a wakes the WiFi before it uploads temperatures and before it writes 100 to
field 3, and puts it to sleep after the upload and after it has written 0. It does not wake the
WiFi before it writes 0, since it was left on when the alert was set. An upload in between puts it
to sleep: a frame received before the alert disabled the receiver is handled in a later pass.

`write_connected_iff` says at every write of every run whether the WiFi is connected: always at the
other two writes, and at the clearing write exactly when no upload has started since the alert
became RESET. `run_writesConnected` follows for runs without such uploads.
-/

set_option autoImplicit false
set_option relaxedAutoImplicit false

namespace Sketchbook.Station.WifiPower

open Foundation.TransitionSystem AlertStation AlertProtocol

/-! ### Uploads while the alert is RESET -/

def isStatement : Activity → Bool
  | .statement _ => true
  | _ => false

/-- The step enters the upload branch of `loop` while the alert is RESET. -/
def UploadsDuringReset (transition : Transition StationState Activity) : Prop :=
  isStatement transition.label = true ∧ transition.before.pc = .ifUpload ∧
    transition.before.upload = true ∧ transition.before.alertEvent = .reset

instance (transition : Transition StationState Activity) :
    Decidable (UploadsDuringReset transition) :=
  inferInstanceAs (Decidable (_ ∧ _))

/-- Whether an upload has started since the alert became RESET, after a statement. -/
def uploadedAfter (uploaded : Bool) (s : StationState) : Bool :=
  match s.pc with
  | .resetAlert => false
  | .ifUpload => (s.upload && decide (s.alertEvent = .reset)) || uploaded
  | _ => uploaded

/-- Whether an upload has started since the alert last became RESET in a run. -/
def uploadedDuringReset : List (Transition StationState Activity) → Bool
  | [] => false
  | transition :: trace =>
    if isStatement transition.label then
      uploadedAfter (uploadedDuringReset trace) transition.before
    else uploadedDuringReset trace

theorem uploadedDuringReset_eq_false {trace : List (Transition StationState Activity)}
    (h : ∀ transition ∈ trace, ¬ UploadsDuringReset transition) :
    uploadedDuringReset trace = false := by
  induction trace with
  | nil => rfl
  | cons transition trace ih =>
    rw [List.forall_mem_cons] at h
    obtain ⟨hfirst, hrest⟩ := h
    rw [uploadedDuringReset, ih hrest]
    split_ifs with hstatement
    · unfold uploadedAfter
      split
      · rfl
      · rename_i hpc
        have hnot : ¬ (transition.before.upload = true ∧ transition.before.alertEvent = .reset) :=
          fun h ↦ hfirst ⟨hstatement, hpc, h⟩
        simpa using hnot
      · rfl
    · rfl

/-! ### The invariant -/

/-- The statements between a `WAKEUP_WIFI` and the end of the write behind it. -/
def awakened : Statement → Bool
  | .setField1 | .setField2 | .writeFields | .resetAlert | .writeAlert => true
  | _ => false

/-- Whether the clearing write is still to come. -/
def ClearPending (pc : Statement) (alertEvent : AlertEvent) : Prop :=
  match pc with
  | .writeClear => True
  | _ => alertEvent = .reset

/-- The WiFi while the clearing write is to come: connected exactly when no upload has started,
except that an upload which has started may not have reached its `SLEEP_WIFI`. -/
def PendingWifi (uploaded : Bool) (pc : Statement) (wifiConnected : Bool) : Prop :=
  match pc with
  | .wakeupForUpload | .setField1 | .setField2 | .writeFields | .sleepAfterUpload =>
    uploaded = true
  | _ => wifiConnected = !uploaded

/-- Behind a `WAKEUP_WIFI` the WiFi is connected, and until the clearing write the uploads since the
alert became RESET determine it. -/
structure WifiInvariant (uploaded : Bool) (s : StationState) : Prop where
  alert : AlertInvariant s
  awake : awakened s.pc = true → s.wifiConnected = true
  pending : ClearPending s.pc s.alertEvent → PendingWifi uploaded s.pc s.wifiConnected

theorem wifiInvariant_afterSetup (clock : ℕ) : WifiInvariant false (afterSetup clock) :=
  ⟨alertInvariant_afterSetup clock, fun _ ↦ rfl, fun _ ↦ rfl⟩

variable {uploaded : Bool} {s : StationState}

/-- An alert replaces no pending clearing write. -/
theorem WifiInvariant.pirhandler (h : WifiInvariant uploaded s) (hattached : s.pirAttached = true) :
    WifiInvariant uploaded (pirhandler s) := by
  refine ⟨h.alert.pirhandler hattached, h.awake, fun hpending ↦ ?_⟩
  have hdetached := h.alert.attached
  rw [hattached] at hdetached
  obtain ⟨pc⟩ := s
  cases pc with
  | writeClear => exact absurd hdetached.symm Bool.false_ne_true
  | _ => exact AlertEvent.noConfusion hpending

/-- A statement that reaches a write behind a `WAKEUP_WIFI` leaves the WiFi connected. -/
theorem WifiInvariant.execute_awake (h : WifiInvariant uploaded s) (reading : Reading)
    (hawakened : awakened (execute SketchJan07a.sketch reading s).pc = true) :
    (execute SketchJan07a.sketch reading s).wifiConnected = true := by
  have hawake := h.awake
  have hskip {p : Prop} : false = true → p := fun h ↦ absurd h Bool.false_ne_true
  obtain ⟨pc, _, _, received, _, alertEvent, upload⟩ := s
  revert hawakened
  cases pc with
  | ifReceived => cases received <;> exact hskip
  | ifUpload => cases upload <;> exact hskip
  | ifAlertSet | ifAlertReset => cases alertEvent <;> exact hskip
  | ifCorrupted | ifAlertOver =>
    simp only [execute]
    split_ifs <;> exact hskip
  | wakeupForUpload | wakeupForAlert =>
    simp only [execute, ifPowerSave_wakeupWifi]
    exact fun _ ↦ rfl
  | sleepAfterUpload | sleepAfterClear =>
    simp only [execute, ifPowerSave_sleepWifi]
    exact hskip
  | setField1 | setField2 | resetAlert => exact hawake
  | _ => exact hskip

/-- What the uploads say about the WiFi stays true as `loop` goes on to the clearing write. -/
theorem WifiInvariant.execute_pending (h : WifiInvariant uploaded s) (reading : Reading)
    (hclear : ClearPending (execute SketchJan07a.sketch reading s).pc
      (execute SketchJan07a.sketch reading s).alertEvent) :
    PendingWifi (uploadedAfter uploaded s) (execute SketchJan07a.sketch reading s).pc
      (execute SketchJan07a.sketch reading s).wifiConnected := by
  obtain ⟨halert, hawake, hpending⟩ := h
  have halertAt := halert.alertAt
  obtain ⟨pc, _, _, received, _, alertEvent, upload⟩ := s
  revert hclear
  cases pc with
  | ifReceived => cases received <;> exact hpending
  | ifAlertSet | ifAlertReset => cases alertEvent <;> exact hpending
  | ifCorrupted | ifAlertOver =>
    simp only [execute]
    split_ifs <;> exact hpending
  | ifUpload =>
    cases upload with
    | false => exact hpending
    | true =>
      intro hreset
      obtain rfl : alertEvent = .reset := hreset
      rfl
  | wakeupForUpload =>
    simp only [execute, ifPowerSave_wakeupWifi]
    exact hpending
  | sleepAfterUpload =>
    simp only [execute, ifPowerSave_sleepWifi]
    intro hreset
    obtain rfl : uploaded = true := hpending hreset
    rfl
  | wakeupForAlert | sleepAfterClear =>
    simp only [execute, ifPowerSave_wakeupWifi, ifPowerSave_sleepWifi]
    intro hreset
    exact AlertEvent.noConfusion (halertAt.symm.trans hreset)
  | writeClear | attachInterrupt =>
    intro hreset
    exact AlertEvent.noConfusion (halertAt.symm.trans hreset)
  | resetAlert => exact fun _ ↦ hawake rfl
  | clearAlert => exact fun _ ↦ hpending halertAt
  | _ => exact hpending

theorem WifiInvariant.step {next : StationState} {activity : Activity}
    (h : WifiInvariant uploaded s) (hstep : step SketchJan07a.sketch s activity = some next) :
    WifiInvariant (if isStatement activity then uploadedAfter uploaded s else uploaded) next := by
  rcases step_cases hstep with ⟨rfl, hattached, rfl⟩ | ⟨rfl, -, rfl⟩ | ⟨_, rfl, rfl⟩ |
    ⟨reading, rfl, rfl⟩
  · exact h.pirhandler hattached
  · exact ⟨⟨h.alert.attached, h.alert.alertAt⟩, h.awake, h.pending⟩
  · exact ⟨⟨h.alert.attached, h.alert.alertAt⟩, h.awake, h.pending⟩
  · exact ⟨h.alert.execute reading, h.execute_awake reading, h.execute_pending reading⟩

/-- The invariant holds along every run, with the uploads of that run. -/
theorem run_wifiInvariant {trace : List (Transition StationState Activity)}
    (hrun : Run (station SketchJan07a.sketch) trace s) :
    WifiInvariant (uploadedDuringReset trace) s := by
  induction hrun with
  | start h =>
    obtain ⟨clock, rfl⟩ := h
    exact wifiInvariant_afterSetup clock
  | step _ hstep ih => exact ih.step hstep

/-! ### The writes -/

/-- At every write of every run the WiFi is connected, except at a clearing write behind an upload
that started while the alert was RESET. -/
theorem write_connected_iff {trace : List (Transition StationState Activity)}
    (hrun : Run (station SketchJan07a.sketch) trace s) (hwrite : written s ≠ none) :
    s.wifiConnected = true ↔ (s.pc = .writeClear → uploadedDuringReset trace = false) := by
  obtain ⟨-, hawake, hpending⟩ := run_wifiInvariant hrun
  obtain ⟨pc⟩ := s
  cases pc with
  | writeFields | writeAlert => exact iff_of_true (hawake rfl) Statement.noConfusion
  | writeClear =>
    rw [show _ = !uploadedDuringReset trace from hpending trivial]
    simp
  | _ => exact absurd rfl hwrite

/-- In every run in which no upload starts while the alert is RESET, every ThingSpeak write happens
with the WiFi connected. -/
theorem run_writesConnected {trace : List (Transition StationState Activity)}
    (hrun : Run (station SketchJan07a.sketch) trace s)
    (hnone : ∀ transition ∈ trace, ¬ UploadsDuringReset transition) (hwrite : written s ≠ none) :
    s.wifiConnected = true :=
  (write_connected_iff hrun hwrite).mpr fun _ ↦ uploadedDuringReset_eq_false hnone

/-! ### A frame received before the alert -/

/-- A statement of `loop`, with 10 degrees outside. -/
def turn : Activity := .statement ⟨20, 10⟩

/-- A frame and then an alert arrive when `loop` has just tested `received`. The pass writes 100 to
field 3, the next one uploads the temperature and comes to the write of 0. -/
def frameBeforeAlert : List Activity :=
  [turn, turn, .frame, .pir] ++ List.replicate 10 turn ++ [.tick 10001] ++ List.replicate 19 turn

/-- An alert without a frame, up to the write of 0. -/
def alertAlone : List Activity :=
  [turn, turn, .pir] ++ List.replicate 10 turn ++ [.tick 10001] ++ List.replicate 8 turn

theorem not_forall_writesConnected :
    ¬ ∀ (trace : List (Transition StationState Activity)) (s : StationState),
      Run (station SketchJan07a.sketch) trace s → written s ≠ none → s.wifiConnected = true := by
  intro hconnected
  have hreplay : (replay (station SketchJan07a.sketch) (afterSetup 0) frameBeforeAlert).map
      (fun s ↦ (s.pc, s.wifiConnected)) = some (.writeClear, false) := by decide +kernel
  obtain ⟨s, hrun, hvalues⟩ := exists_run_of_replay (initial_afterSetup _ 0) hreplay
  obtain ⟨hpc, hasleep⟩ := Prod.mk.injEq _ _ _ _ ▸ hvalues
  have hwrite : written s ≠ none := by
    rw [written, hpc]
    exact Option.some_ne_none _
  have hawake := hconnected _ s hrun hwrite
  exact Bool.false_ne_true (hasleep.symm.trans hawake)

/-- The write of 0 behind an alert alone. -/
theorem alertAlone_writesConnected :
    ∃ trace s, Run (station SketchJan07a.sketch) trace s ∧ s.pc = .writeClear ∧
      s.wifiConnected = true := by
  have hreplay : (replay (station SketchJan07a.sketch) (afterSetup 0) alertAlone).map
      (fun s ↦ s.pc) = some .writeClear := by decide +kernel
  obtain ⟨s, hrun, hpc⟩ := exists_run_of_replay (initial_afterSetup _ 0) hreplay
  have hwrite : written s ≠ none := by
    rw [written, hpc]
    exact Option.some_ne_none _
  have hnone : ∀ transition ∈ transitions (station SketchJan07a.sketch) (afterSetup 0) alertAlone,
      ¬ UploadsDuringReset transition := by decide +kernel
  exact ⟨_, s, hrun, hpc, run_writesConnected hrun hnone hwrite⟩

end Sketchbook.Station.WifiPower
