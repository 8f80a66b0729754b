import Sketchbook.Station.AlertProtocol

/-!
# When the receiver of the station is on

`loop` calls `enableRF` behind a corrupted frame, behind an upload and behind the end of an alert,
and `pirhandler` calls `disableRF`. Once `loop` is in one of the three branches the call of
`enableRF` lies ahead in the same pass (`enableRFAhead`), whatever the interrupt does meanwhile.

Without such a call ahead the receiver is on while no alert is pending, and `never_deaf` follows: a
pass never ends with the receiver off and nothing left to turn it on. For the same reason an alert
does not keep the receiver off. An interrupt that fires with the call ahead, or a frame handled
while the alert is pending, has the receiver enabled under the alert; `run_receiverOff` says that it
stays off in runs with neither.
-/

set_option autoImplicit false
set_option relaxedAutoImplicit false

namespace Sketchbook.Station.ReceiverSwitch

open Foundation.TransitionSystem AlertStation AlertProtocol

variable {sketch : StationSketch} {s next : StationState}

/-! ### Statements that lead to `enableRF` -/

/-- Whether a call of `enableRF` lies ahead in this pass, from the next statement and `UPLOAD`. -/
def enableRFAhead (pc : Statement) (upload : Bool) : Bool :=
  match pc with
  | .declareUpload | .ifReceived => false
  | .ifUpload => upload
  | .ifAlertSet | .detachInterrupt | .wakeupForAlert | .resetAlert | .writeAlert => false
  | .readTime1 | .ifAlertReset | .readTime2 | .ifAlertOver | .clearAlert => false
  | _ => true

/-- `UPLOAD` is false when `received` is tested. -/
def NoUploadYet (s : StationState) : Prop := s.pc = .ifReceived → s.upload = false

/-- `loop` comes in front of an `enableRF` by a frame or by the end of an alert. -/
theorem enableRFAhead_of_execute (hupload : NoUploadYet s) (reading : Reading)
    (hahead :
      enableRFAhead (execute sketch reading s).pc (execute sketch reading s).upload = true) :
    enableRFAhead s.pc s.upload = true ∨ (s.pc = .ifReceived ∧ s.received = true) ∨
      s.pc = .clearAlert := by
  obtain ⟨pc, _, _, received, _, alertEvent, upload⟩ := s
  revert hahead
  cases pc with
  | ifReceived =>
    cases received with
    | true => exact fun _ ↦ Or.inr (Or.inl ⟨rfl, rfl⟩)
    | false =>
      obtain rfl : upload = false := hupload rfl
      exact fun h ↦ absurd h Bool.false_ne_true
  | ifUpload => cases upload <;> exact fun h ↦ Or.inl h
  | ifAlertSet | ifAlertReset => cases alertEvent <;> exact fun h ↦ absurd h Bool.false_ne_true
  | ifAlertOver =>
    simp only [execute]
    split_ifs <;> exact fun h ↦ absurd h Bool.false_ne_true
  | clearAlert => exact fun _ ↦ Or.inr (Or.inr rfl)
  | wakeupForAlert =>
    simp only [execute, ifPowerSave_wakeupWifi]
    exact fun h ↦ absurd h Bool.false_ne_true
  | declareUpload | detachInterrupt | resetAlert | writeAlert | readTime1 | readTime2 =>
    exact fun h ↦ absurd h Bool.false_ne_true
  | _ => exact fun _ ↦ Or.inl rfl

/-- Away from the branches that enable the receiver `loop` does not switch it. -/
theorem rfEnabled_execute (hbehind : enableRFAhead s.pc s.upload = false) (reading : Reading) :
    (execute sketch reading s).rfEnabled = s.rfEnabled := by
  obtain ⟨pc⟩ := s
  cases pc with
  | wakeupForUpload | wakeupForAlert => simp only [execute, ifPowerSave_wakeupWifi]
  | disableRF | enableRFAfterCorrupted | enableRFAfterUpload | enableRFAfterClear =>
    exact absurd hbehind.symm Bool.false_ne_true
  | sleepAfterUpload | sleepAfterClear => simp only [execute, ifPowerSave_sleepWifi]
  | _ => rfl

/-- A call of `enableRF` that lies ahead is made, or still lies ahead. -/
theorem enableRFAhead_execute_or (hahead : enableRFAhead s.pc s.upload = true)
    (reading : Reading) :
    enableRFAhead (execute sketch reading s).pc (execute sketch reading s).upload = true ∨
      (execute sketch reading s).rfEnabled = true := by
  obtain ⟨pc, _, _, _, _, _, upload⟩ := s
  cases pc with
  | ifUpload =>
    obtain rfl : upload = true := hahead
    exact Or.inl rfl
  | ifCorrupted =>
    simp only [execute]
    split_ifs <;> exact Or.inl rfl
  | wakeupForUpload =>
    simp only [execute, ifPowerSave_wakeupWifi]
    exact Or.inl rfl
  | sleepAfterUpload | sleepAfterClear =>
    simp only [execute, ifPowerSave_sleepWifi]
    exact Or.inl rfl
  | enableRFAfterCorrupted | enableRFAfterUpload | enableRFAfterClear => exact Or.inr rfl
  | declareUpload | ifReceived | ifAlertSet | detachInterrupt | wakeupForAlert | resetAlert |
      writeAlert | readTime1 | ifAlertReset | readTime2 | ifAlertOver | clearAlert =>
    exact absurd hahead Bool.false_ne_true
  | _ => exact Or.inl rfl

theorem noUploadYet_execute (reading : Reading) : NoUploadYet (execute sketch reading s) := by
  obtain ⟨pc, _, _, received, _, alertEvent, upload⟩ := s
  unfold NoUploadYet
  cases pc with
  | declareUpload => exact fun _ ↦ rfl
  | ifReceived => cases received <;> exact fun h ↦ Statement.noConfusion h
  | ifUpload => cases upload <;> exact fun h ↦ Statement.noConfusion h
  | ifAlertSet | ifAlertReset => cases alertEvent <;> exact fun h ↦ Statement.noConfusion h
  | ifCorrupted | ifAlertOver =>
    simp only [execute]
    split_ifs <;> simp
  | _ => exact fun h ↦ Statement.noConfusion h

/-! ### What a statement does to the alert -/

/-- Only `clearAlert` ends an alert, and no statement of `loop` raises one. -/
theorem alertEvent_execute (sketch : StationSketch) (halertAt : AlertAt s.pc s.alertEvent)
    (reading : Reading) :
    s.pc = .clearAlert ∧ (execute sketch reading s).alertEvent = .notSet ∨
      ((execute sketch reading s).alertEvent = .notSet ↔ s.alertEvent = .notSet) := by
  obtain ⟨pc, _, _, _, _, alertEvent⟩ := s
  cases pc with
  | clearAlert => exact Or.inl ⟨rfl, rfl⟩
  | resetAlert =>
    obtain rfl : alertEvent = .set := halertAt
    exact Or.inr (by simp [execute])
  | wakeupForUpload | wakeupForAlert | sleepAfterUpload | sleepAfterClear =>
    exact Or.inr (by simp [execute])
  | _ => exact Or.inr Iff.rfl

/-! ### The receiver while no alert is pending -/

/-- Without an alert the receiver is on, unless the call that enables it lies ahead. -/
structure ReceivingInvariant (s : StationState) : Prop where
  alert : AlertInvariant s
  uploads : NoUploadYet s
  receiving : s.alertEvent = .notSet → enableRFAhead s.pc s.upload = false → s.rfEnabled = true

theorem receivingInvariant_afterSetup (clock : ℕ) : ReceivingInvariant (afterSetup clock) :=
  ⟨alertInvariant_afterSetup clock, Statement.noConfusion, fun _ _ ↦ rfl⟩

/-- A statement of `loop` that ends an alert has the enabling call ahead, and one that passes such a
call leaves the receiver on. -/
theorem ReceivingInvariant.execute (h : ReceivingInvariant s) (reading : Reading) :
    ReceivingInvariant (execute sketch reading s) := by
  refine ⟨h.alert.execute reading, noUploadYet_execute reading, fun hnotSet hbehind ↦ ?_⟩
  cases hahead : enableRFAhead s.pc s.upload with
  | true =>
    rcases enableRFAhead_execute_or hahead reading with hstill | henabled
    · exact absurd (hstill.symm.trans hbehind) Bool.noConfusion
    · exact henabled
  | false =>
    rw [rfEnabled_execute hahead reading]
    refine h.receiving ?_ hahead
    rcases alertEvent_execute sketch h.alert.alertAt reading with ⟨hclear, -⟩ | halert
    · have hwrite : enableRFAhead (AlertStation.execute sketch reading s).pc
          (AlertStation.execute sketch reading s).upload = true := by
        simp [AlertStation.execute, hclear, enableRFAhead]
      exact absurd (hwrite.symm.trans hbehind) Bool.noConfusion
    · exact halert.mp hnotSet

theorem ReceivingInvariant.step {activity : Activity} (h : ReceivingInvariant s)
    (hstep : step sketch s activity = some next) : ReceivingInvariant next := by
  have halert := h.alert.step hstep
  rcases step_cases hstep with ⟨-, -, rfl⟩ | ⟨-, -, rfl⟩ | ⟨_, -, rfl⟩ | ⟨reading, -, rfl⟩
  · exact ⟨halert, h.uploads, fun hset ↦ AlertEvent.noConfusion hset⟩
  · exact ⟨halert, h.uploads, h.receiving⟩
  · exact ⟨halert, h.uploads, h.receiving⟩
  · exact h.execute reading

theorem run_receivingInvariant {trace : List (Transition StationState Activity)}
    (hrun : Run (station sketch) trace s) : ReceivingInvariant s := by
  refine hrun.invariant (I := ReceivingInvariant) ?_ ?_
  · rintro _ ⟨clock, rfl⟩
    exact receivingInvariant_afterSetup clock
  · intro s activity next h hstep
    exact h.step hstep

/-! ### The way out of RESET -/

/-- The step executes a statement of `loop`. -/
def Executes (pc : Statement) (transition : Transition StationState Activity) : Prop :=
  (∃ reading, transition.label = .statement reading) ∧ transition.before.pc = pc

/-- `clearAlert` is reached only when the alert is more than ten seconds old. -/
def TenSecondsOver (s : StationState) : Prop :=
  s.pc = .clearAlert → 10000 < (s.time2 - s.time1).toNat

theorem tenSecondsOver_execute (reading : Reading) : TenSecondsOver (execute sketch reading s) := by
  obtain ⟨pc, _, _, received, _, alertEvent, upload⟩ := s
  unfold TenSecondsOver
  cases pc with
  | ifReceived => cases received <;> exact fun h ↦ Statement.noConfusion h
  | ifUpload => cases upload <;> exact fun h ↦ Statement.noConfusion h
  | ifAlertSet | ifAlertReset => cases alertEvent <;> exact fun h ↦ Statement.noConfusion h
  | ifCorrupted =>
    simp only [execute]
    split_ifs <;> simp
  | ifAlertOver =>
    simp only [execute]
    split_ifs with hover
    · exact fun _ ↦ hover
    · simp
  | _ => exact fun h ↦ Statement.noConfusion h

theorem run_tenSecondsOver {trace : List (Transition StationState Activity)}
    (hrun : Run (station sketch) trace s) : TenSecondsOver s := by
  refine hrun.invariant (I := TenSecondsOver) ?_ ?_
  · rintro _ ⟨clock, rfl⟩
    exact Statement.noConfusion
  · intro s activity next h hstep
    rcases step_cases hstep with ⟨-, -, rfl⟩ | ⟨-, -, rfl⟩ | ⟨_, -, rfl⟩ | ⟨reading, -, rfl⟩
    · exact h
    · exact h
    · exact h
    · exact tenSecondsOver_execute reading

/-- While the alert is RESET the interrupt is detached, so the alert leaves RESET only when `loop`
executes `clearAlert`. -/
theorem reset_left_by_clearAlert {activity : Activity} (h : AlertInvariant s)
    (hstep : step sketch s activity = some next) (hreset : s.alertEvent = .reset)
    (hleft : next.alertEvent ≠ .reset) :
    (∃ reading, activity = .statement reading) ∧ s.pc = .clearAlert ∧ next.pc = .writeClear ∧
      next.alertEvent = .notSet := by
  rcases step_cases hstep with ⟨-, hattached, rfl⟩ | ⟨-, -, rfl⟩ | ⟨_, -, rfl⟩ | ⟨reading, rfl, rfl⟩
  · have hdetached := h.attached
    rw [hattached, hreset] at hdetached
    revert hdetached
    cases s.pc <;> exact fun h ↦ Bool.noConfusion h
  · exact absurd hreset hleft
  · exact absurd hreset hleft
  · refine ⟨⟨reading, rfl⟩, ?_⟩
    have halertAt := h.alertAt
    obtain ⟨pc, _, _, _, _, alertEvent⟩ := s
    obtain rfl : alertEvent = .reset := hreset
    cases pc with
    | clearAlert => exact ⟨rfl, rfl, rfl⟩
    | resetAlert => exact AlertEvent.noConfusion halertAt
    | wakeupForUpload | wakeupForAlert =>
      simp only [execute, ifPowerSave_wakeupWifi] at hleft
      exact absurd rfl hleft
    | sleepAfterUpload | sleepAfterClear =>
      simp only [execute, ifPowerSave_sleepWifi] at hleft
      exact absurd rfl hleft
    | _ => exact absurd rfl hleft

/-- The PIR interrupt is attached by one of the steps. -/
def Attaches (trace : List (Transition StationState Activity)) : Prop :=
  ∃ transition ∈ trace, Executes .attachInterrupt transition ∧ transition.after.pirAttached = true

/-- The receiver is enabled, behind the end of an alert, by one of the steps. -/
def Enables (trace : List (Transition StationState Activity)) : Prop :=
  ∃ transition ∈ trace, Executes .enableRFAfterClear transition ∧ transition.after.rfEnabled = true

/-- What the timed branch has switched on again since `clearAlert`, from the statement reached. -/
def ReenabledSince (later : List (Transition StationState Activity)) (s : StationState) : Prop :=
  match s.pc with
  | .writeClear | .sleepAfterClear | .attachInterrupt => True
  | .enableRFAfterClear => Attaches later
  | _ => Attaches later ∧ Enables later

variable {later : List (Transition StationState Activity)}

theorem Attaches.cons (h : Attaches later) (transition : Transition StationState Activity) :
    Attaches (transition :: later) :=
  List.exists_mem_cons_of_exists h

theorem Enables.cons (h : Enables later) (transition : Transition StationState Activity) :
    Enables (transition :: later) :=
  List.exists_mem_cons_of_exists h

theorem ReenabledSince.cons (h : ReenabledSince later s) (hpc : next.pc = s.pc)
    (transition : Transition StationState Activity) :
    ReenabledSince (transition :: later) next := by
  unfold ReenabledSince at h ⊢
  rw [hpc]
  revert h
  cases s.pc with
  | writeClear | sleepAfterClear | attachInterrupt => exact id
  | enableRFAfterClear => exact fun h ↦ h.cons transition
  | _ => exact fun h ↦ ⟨h.1.cons transition, h.2.cons transition⟩

/-- A statement of `loop` adds what it switches on. -/
theorem ReenabledSince.execute (h : ReenabledSince later s) (reading : Reading) :
    ReenabledSince (⟨s, .statement reading, execute sketch reading s⟩ :: later)
      (execute sketch reading s) := by
  have hcons (hboth : Attaches later ∧ Enables later)
      (transition : Transition StationState Activity) :
      Attaches (transition :: later) ∧ Enables (transition :: later) :=
    ⟨hboth.1.cons transition, hboth.2.cons transition⟩
  obtain ⟨pc, _, _, received, _, alertEvent, upload⟩ := s
  cases pc with
  | ifReceived => cases received <;> exact hcons h _
  | ifUpload => cases upload <;> exact hcons h _
  | ifAlertSet | ifAlertReset => cases alertEvent <;> exact hcons h _
  | ifCorrupted =>
    simp only [AlertStation.execute]
    split_ifs <;> exact hcons h _
  | ifAlertOver =>
    simp only [AlertStation.execute]
    split_ifs <;> exact hcons h _
  | clearAlert | writeClear | sleepAfterClear => trivial
  | attachInterrupt => exact ⟨_, List.mem_cons_self, ⟨⟨reading, rfl⟩, rfl⟩, rfl⟩
  | enableRFAfterClear =>
    exact ⟨Attaches.cons h _, _, List.mem_cons_self, ⟨⟨reading, rfl⟩, rfl⟩, rfl⟩
  | _ => exact hcons h _

theorem ReenabledSince.step {activity : Activity} (h : ReenabledSince later s)
    (hstep : step sketch s activity = some next) :
    ReenabledSince (⟨s, activity, next⟩ :: later) next := by
  rcases step_cases hstep with ⟨-, -, rfl⟩ | ⟨-, -, rfl⟩ | ⟨_, -, rfl⟩ | ⟨reading, rfl, rfl⟩
  · exact h.cons rfl _
  · exact h.cons rfl _
  · exact h.cons rfl _
  · exact h.execute reading

/-! ### The end of a pass -/

/-- What is on between two passes, for each value of the alert. -/
structure Listening (s : StationState) : Prop where
  notSet : s.alertEvent = .notSet → s.rfEnabled = true ∧ s.pirAttached = true
  set : s.alertEvent = .set → s.pirAttached = true
  reset : s.alertEvent = .reset → s.pirAttached = false

/-- Between two passes the PIR interrupt is detached exactly under RESET. -/
theorem ReceivingInvariant.listening (h : ReceivingInvariant s) (hend : s.pc = .declareUpload) :
    Listening s := by
  obtain ⟨⟨hattached, -⟩, -, hreceiving⟩ := h
  rw [hend] at hattached hreceiving
  refine ⟨fun hnotSet ↦ ⟨hreceiving hnotSet rfl, ?_⟩, fun hset ↦ ?_, fun hreset ↦ ?_⟩
  · rw [hattached, hnotSet]
    rfl
  · rw [hattached, hset]
    rfl
  · rw [hattached, hreset]
    rfl

/-- The step leaves RESET, by the timed branch of `loop`. -/
structure TimedExit (leaving : Transition StationState Activity) : Prop where
  executes : Executes .clearAlert leaving
  elapsed : 10000 < (leaving.before.time2 - leaving.before.time1).toNat

/-- In every run the end of a pass finds both the receiver and the interrupt on without an alert,
the interrupt on under SET and off under RESET. RESET is left only by the timed branch, and by the
end of the pass that branch has attached the interrupt and enabled the receiver. -/
theorem never_deaf {trace : List (Transition StationState Activity)}
    (hrun : Run (station sketch) trace s) :
    (s.pc = .declareUpload → Listening s) ∧
      ∀ later leaving earlier, trace = later ++ leaving :: earlier →
        leaving.before.alertEvent = .reset → leaving.after.alertEvent ≠ .reset →
        TimedExit leaving ∧ (s.pc = .declareUpload → Attaches later ∧ Enables later) := by
  refine ⟨(run_receivingInvariant hrun).listening, ?_⟩
  rintro later leaving earlier rfl hreset hleft
  obtain ⟨⟨before, hbefore⟩, hstep⟩ := hrun.exists_run_before
    (List.mem_append_right later List.mem_cons_self)
  obtain ⟨hstatement, hpc, hwrite, -⟩ :=
    reset_left_by_clearAlert (run_alertInvariant hbefore) hstep hreset hleft
  have hsince : ReenabledSince later s := by
    refine Run.invariant_since (I := ReenabledSince) ?_ ?_ hrun
    · rw [ReenabledSince, hwrite]
      trivial
    · intro later state activity next _ h hstep
      exact h.step hstep
  refine ⟨⟨⟨hstatement, hpc⟩, run_tenSecondsOver hbefore hpc⟩, fun hend ↦ ?_⟩
  rwa [ReenabledSince, hend] at hsince

/-- A statement of `loop`, with 10 degrees outside. -/
def statement : Activity := .statement ⟨20, 10⟩

/-- A frame, and an alert while it is uploaded, up to the end of the pass behind the alert. -/
def frameAndAlert : List Activity :=
  [.frame] ++ List.replicate 10 statement ++ [.pir] ++ List.replicate 10 statement ++
    [.tick 10001] ++ List.replicate 8 statement

/-- The transitions of `frameAndAlert`, the last one first. -/
def frameAndAlertTrace : List (Transition StationState Activity) :=
  transitions (station SketchJan07a.sketch) (afterSetup 0) frameAndAlert

/-- The alert ends five statements before the end of the pass. -/
theorem frameAndAlert_listening : ∃ s later leaving earlier,
    frameAndAlertTrace = later ++ leaving :: earlier ∧
    Run (station SketchJan07a.sketch) (later ++ leaving :: earlier) s ∧
    s.pc = .declareUpload ∧ s.alertEvent = .notSet ∧ Listening s ∧
    TimedExit leaving ∧ Attaches later ∧ Enables later := by
  have hreplay : (replay (station SketchJan07a.sketch) (afterSetup 0) frameAndAlert).map
      (fun s ↦ (s.pc, s.alertEvent)) = some (.declareUpload, .notSet) := by decide +kernel
  obtain ⟨s, hrun, hvalues⟩ := exists_run_of_replay (initial_afterSetup _ 0) hreplay
  obtain ⟨hend, hnotSet⟩ := Prod.mk.injEq _ _ _ _ ▸ hvalues
  have hfifth : frameAndAlertTrace[4]?.map (fun transition ↦
      (transition.before.alertEvent, transition.after.alertEvent)) = some (.reset, .notSet) := by
    decide +kernel
  obtain ⟨leaving, hleaving, hevents⟩ := Option.map_eq_some_iff.mp hfifth
  obtain ⟨hreset, hleft⟩ := Prod.mk.injEq _ _ _ _ ▸ hevents
  have hsplit : frameAndAlertTrace =
      frameAndAlertTrace.take 4 ++ leaving :: frameAndAlertTrace.drop 5 := by
    obtain ⟨hlength, rfl⟩ := List.getElem?_eq_some_iff.mp hleaving
    rw [← List.drop_eq_getElem_cons hlength, List.take_append_drop]
  obtain ⟨hlistening, hexits⟩ := never_deaf hrun
  obtain ⟨hexit, hreenabled⟩ := hexits _ _ _ hsplit hreset (by simp [hleft])
  obtain ⟨hattaches, henables⟩ := hreenabled hend
  exact ⟨s, _, _, _, hsplit, hsplit ▸ hrun, hend, hnotSet, hlistening hend, hexit, hattaches,
    henables⟩

/-! ### The receiver under an alert -/

/-- The step neither raises an alert while `enableRF` lies ahead nor handles a frame under one. -/
def Undisturbed (transition : Transition StationState Activity) : Prop :=
  match transition.label with
  | .pir => enableRFAhead transition.before.pc transition.before.upload = false
  | .statement _ =>
    ¬ (transition.before.pc = .ifReceived ∧ transition.before.received = true ∧
      transition.before.alertEvent ≠ .notSet)
  | _ => True

instance (transition : Transition StationState Activity) : Decidable (Undisturbed transition) :=
  match transition with
  | ⟨_, .pir, _⟩ => inferInstanceAs (Decidable (_ = _))
  | ⟨_, .frame, _⟩ => inferInstanceAs (Decidable True)
  | ⟨_, .tick _, _⟩ => inferInstanceAs (Decidable True)
  | ⟨_, .statement _, _⟩ => inferInstanceAs (Decidable (¬ _))

/-- Under an alert the receiver is off, and nothing that enables it lies ahead. -/
structure SilentInvariant (s : StationState) : Prop where
  alert : AlertInvariant s
  uploads : NoUploadYet s
  off : s.alertEvent ≠ .notSet → s.rfEnabled = false
  behind : s.alertEvent ≠ .notSet → enableRFAhead s.pc s.upload = false

theorem silentInvariant_afterSetup (clock : ℕ) : SilentInvariant (afterSetup clock) :=
  ⟨alertInvariant_afterSetup clock, Statement.noConfusion, fun h ↦ absurd rfl h,
    fun h ↦ absurd rfl h⟩

/-- A statement that handles no frame under an alert does not come in front of an `enableRF` while
the alert lasts, so it leaves the receiver off. -/
theorem SilentInvariant.execute (h : SilentInvariant s) (reading : Reading)
    (hquiet : ¬ (s.pc = .ifReceived ∧ s.received = true ∧ s.alertEvent ≠ .notSet)) :
    SilentInvariant (execute sketch reading s) := by
  have hpending (hnext : (AlertStation.execute sketch reading s).alertEvent ≠ .notSet) :
      s.pc ≠ .clearAlert ∧ s.alertEvent ≠ .notSet := by
    refine ⟨fun hclear ↦ hnext ?_, ?_⟩
    · simp [AlertStation.execute, hclear]
    · rcases alertEvent_execute sketch h.alert.alertAt reading with ⟨-, hend⟩ | halert
      · exact absurd hend hnext
      · exact fun hnotSet ↦ hnext (halert.mpr hnotSet)
  refine ⟨h.alert.execute reading, noUploadYet_execute reading, fun hnext ↦ ?_, fun hnext ↦ ?_⟩
  · obtain ⟨-, halert⟩ := hpending hnext
    rw [rfEnabled_execute (h.behind halert) reading]
    exact h.off halert
  · obtain ⟨hclear, halert⟩ := hpending hnext
    refine Bool.eq_false_iff.mpr fun hahead ↦ ?_
    rcases enableRFAhead_of_execute h.uploads reading hahead with hbefore | ⟨hpc, hreceived⟩ | hpc
    · exact Bool.false_ne_true ((h.behind halert).symm.trans hbefore)
    · exact hquiet ⟨hpc, hreceived, halert⟩
    · exact hclear hpc

theorem SilentInvariant.step {activity : Activity} (h : SilentInvariant s)
    (hundisturbed : Undisturbed ⟨s, activity, next⟩)
    (hstep : step sketch s activity = some next) : SilentInvariant next := by
  have halert := h.alert.step hstep
  rcases step_cases hstep with ⟨rfl, -, rfl⟩ | ⟨rfl, henabled, rfl⟩ | ⟨_, rfl, rfl⟩ |
    ⟨reading, rfl, rfl⟩
  · exact ⟨halert, h.uploads, fun _ ↦ rfl, fun _ ↦ hundisturbed⟩
  · exact ⟨halert, h.uploads, h.off, h.behind⟩
  · exact ⟨halert, h.uploads, h.off, h.behind⟩
  · exact h.execute reading hundisturbed

/-- In every run in which no alert is raised while `enableRF` lies ahead in the pass, and no frame
is handled under an alert, the receiver is off from the alert to its end. -/
theorem run_receiverOff {trace : List (Transition StationState Activity)}
    (hrun : Run (station sketch) trace s)
    (hundisturbed : ∀ transition ∈ trace, Undisturbed transition)
    (hpending : s.alertEvent ≠ .notSet) : s.rfEnabled = false := by
  suffices hinvariant : SilentInvariant s from hinvariant.off hpending
  clear hpending
  induction hrun with
  | start h =>
    obtain ⟨clock, rfl⟩ := h
    exact silentInvariant_afterSetup clock
  | step _ hstep ih =>
    rw [List.forall_mem_cons] at hundisturbed
    exact (ih hundisturbed.2).step hundisturbed.1 hstep

/-- An alert while `loop` waits for a frame, up to the second statement behind the write of 100. -/
def alertAlone : List Activity :=
  List.replicate 3 statement ++ [.pir] ++ List.replicate 10 statement

theorem alertAlone_receiverOff :
    ∃ trace s, Run (station SketchJan07a.sketch) trace s ∧ s.alertEvent = .reset ∧
      s.rfEnabled = false := by
  have hreplay : (replay (station SketchJan07a.sketch) (afterSetup 0) alertAlone).map
      (fun s ↦ s.alertEvent) = some .reset := by decide +kernel
  obtain ⟨s, hrun, hreset⟩ := exists_run_of_replay (initial_afterSetup _ 0) hreplay
  have hundisturbed : ∀ transition ∈
      transitions (station SketchJan07a.sketch) (afterSetup 0) alertAlone,
      Undisturbed transition := by decide +kernel
  have hpending : s.alertEvent ≠ .notSet := by
    rw [hreset]
    exact AlertEvent.noConfusion
  exact ⟨_, s, hrun, hreset, run_receiverOff hrun hundisturbed hpending⟩

/-- An alert while `loop` reads the temperatures of a frame, up to the end of the upload. -/
def alertDuringFrame : List Activity :=
  [.frame] ++ List.replicate 3 statement ++ [.pir] ++ List.replicate 11 statement

/-- The receiver is off from every alert to its end, in all runs of a sketch. -/
def ReceiverOffUnderAlert (sketch : StationSketch) : Prop :=
  ∀ (trace : List (Transition StationState Activity)) (s : StationState),
    Run (station sketch) trace s → s.alertEvent ≠ .notSet → s.rfEnabled = false

/-- The upload of a frame enables the receiver under an alert raised meanwhile. -/
theorem not_receiverOffUnderAlert_of_replay
    (hreplay : (replay (station sketch) (afterSetup 0) alertDuringFrame).map
      (fun s ↦ (s.alertEvent, s.rfEnabled)) = some (.set, true)) :
    ¬ ReceiverOffUnderAlert sketch := by
  intro hoff
  obtain ⟨s, hrun, hvalues⟩ := exists_run_of_replay (initial_afterSetup _ 0) hreplay
  obtain ⟨hset, hon⟩ := Prod.mk.injEq _ _ _ _ ▸ hvalues
  have hpending : s.alertEvent ≠ .notSet := by
    rw [hset]
    exact AlertEvent.noConfusion
  exact Bool.false_ne_true ((hoff _ s hrun hpending).symm.trans hon)

theorem not_receiverOffUnderAlert :
    ¬ ReceiverOffUnderAlert SketchJan07a.sketch ∧
      ¬ ReceiverOffUnderAlert ESp8266Ds18s0RflibrThingspeakOta.sketch :=
  ⟨not_receiverOffUnderAlert_of_replay (by decide +kernel),
    not_receiverOffUnderAlert_of_replay (by decide +kernel)⟩

end Sketchbook.Station.ReceiverSwitch
