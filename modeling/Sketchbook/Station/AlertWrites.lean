import Sketchbook.Foundation.WrappedClock
import Sketchbook.Station.AlertProtocol

/-!
# The alerts that reach ThingSpeak

`loop` answers an alert with 100 in field 3 and, when more than ten seconds have passed, with 0.
`alert_protocol` says of every run of both sketches that the values sent to field 3 alternate and
begin with 100, that each 0 is sent more than ten seconds behind its 100, and that an alert is never
lost: before `ALERT_EVENT` is NOT_SET again, a 100 has been sent.

`WriteInvariant` links the values sent to the state: a 0 is owed (`clearOwed`) exactly when the last
value was 100. The two readings of `millis` are kept as readings of the true time, so that their
difference modulo 2 ^ 32 bounds the time between the two writes from below whether or not `millis`
has wrapped.
-/

set_option autoImplicit false
set_option relaxedAutoImplicit false

namespace Sketchbook.Station.AlertWrites

open Foundation.TransitionSystem Foundation.WrappedClock AlertStation AlertProtocol

variable {sketch : StationSketch} {s next : StationState}

/-! ### The values sent to field 3 -/

/-- The value that a step sends to a field of the channel. -/
def fieldWrite (field : ℕ) (transition : Transition StationState Activity) : Option ℚ :=
  match transition.label with
  | .statement _ => (written transition.before).bind (List.lookup field)
  | _ => none

/-- The values a run has sent to field 3 and the times it sent them at, oldest first. -/
def field3Writes : List (Transition StationState Activity) → List (ℚ × ℕ)
  | [] => []
  | transition :: earlier =>
    field3Writes earlier ++
      ((fieldWrite 3 transition).map fun value ↦ (value, transition.before.clock)).toList

/-- The values are 100 and 0 in turn, and each 0 comes more than ten seconds behind its 100. -/
structure Alternating (writes : List (ℚ × ℕ)) : Prop where
  value : ∀ index value time, writes[index]? = some (value, time) →
    value = if index % 2 = 0 then 100 else 0
  spaced : ∀ index set setTime clear clearTime, writes[2 * index]? = some (set, setTime) →
    writes[2 * index + 1]? = some (clear, clearTime) → setTime + 10000 < clearTime

theorem alternating_nil : Alternating [] where
  value _ _ _ h := absurd h (by simp)
  spaced _ _ _ _ _ h := absurd h (by simp)

/-- An entry of a list with one more at its end is the new one or an old one. -/
theorem getElem?_concat_cases {Item : Type*} {items : List Item} {last item : Item} {index : ℕ}
    (h : (items ++ [last])[index]? = some item) :
    (index = items.length ∧ item = last) ∨ (index < items.length ∧ items[index]? = some item) := by
  rcases Nat.lt_trichotomy index items.length with hlt | rfl | hgt
  · rw [List.getElem?_append_left hlt] at h
    exact Or.inr ⟨hlt, h⟩
  · rw [List.getElem?_concat_length] at h
    exact Or.inl ⟨rfl, (Option.some.inj h).symm⟩
  · have hbeyond : (items ++ [last]).length ≤ index := by
      rw [List.length_append, List.length_singleton]
      exact hgt
    rw [List.getElem?_eq_none hbeyond] at h
    exact absurd h (by simp)

variable {writes : List (ℚ × ℕ)} {setTime clearTime : ℕ}

/-- Behind as many 100 as 0 another 100 may follow. -/
theorem Alternating.set (h : Alternating writes) (heven : writes.length % 2 = 0) (time : ℕ) :
    Alternating (writes ++ [(100, time)]) where
  value index value at_ hentry := by
    rcases getElem?_concat_cases hentry with ⟨rfl, hlast⟩ | ⟨-, hold⟩
    · rw [if_pos heven]
      exact (Prod.mk.inj hlast).1
    · exact h.value index value at_ hold
  spaced index set setTime clear clearTime hset hclear := by
    rcases getElem?_concat_cases hclear with ⟨hlength, -⟩ | ⟨-, hclear⟩
    · omega
    · rcases getElem?_concat_cases hset with ⟨hlength, -⟩ | ⟨-, hset⟩
      · rw [List.getElem?_eq_none (by omega)] at hclear
        exact absurd hclear (by simp)
      · exact h.spaced index set setTime clear clearTime hset hclear

/-- More than ten seconds behind a 100 a 0 may follow. -/
theorem Alternating.clear (h : Alternating writes) (hodd : writes.length % 2 = 1)
    (hlast : writes.getLast? = some (100, setTime)) (hover : setTime + 10000 < clearTime) :
    Alternating (writes ++ [(0, clearTime)]) where
  value index value at_ hentry := by
    rcases getElem?_concat_cases hentry with ⟨rfl, hnew⟩ | ⟨-, hold⟩
    · rw [if_neg (by omega)]
      exact (Prod.mk.inj hnew).1
    · exact h.value index value at_ hold
  spaced index set time clear endTime hset hclear := by
    rcases getElem?_concat_cases hset with ⟨hlength, -⟩ | ⟨hlt, hset⟩
    · omega
    · rcases getElem?_concat_cases hclear with ⟨hlength, hnew⟩ | ⟨-, hclear⟩
      · rw [List.getElem?_eq_getElem hlt] at hset
        rw [List.getLast?_eq_getElem?, show writes.length - 1 = 2 * index by omega,
          List.getElem?_eq_getElem hlt, hset] at hlast
        obtain ⟨-, rfl⟩ := Prod.mk.inj (Option.some.inj hlast)
        obtain ⟨-, rfl⟩ := Prod.mk.inj hnew
        exact hover
      · exact h.spaced index set time clear endTime hset hclear

/-! ### The two readings of the clock -/

/-- Whether the last value sent was 100, so that a 0 is owed. -/
def clearOwed (pc : Statement) (alertEvent : AlertEvent) : Bool :=
  match pc with
  | .writeAlert => false
  | .writeClear => true
  | _ => alertEvent = .reset

/-- `TIME1` is a reading of the clock no earlier than the 100. -/
def Time1Read (setTime : ℕ) (s : StationState) : Prop :=
  ∃ start, setTime ≤ start ∧ start ≤ s.clock ∧ s.time1 = BitVec.ofNat 32 start

/-- `TIME2` is a reading of the clock no earlier than `TIME1`. -/
def Time2Read (setTime : ℕ) (s : StationState) : Prop :=
  ∃ start stop, setTime ≤ start ∧ start ≤ stop ∧ stop ≤ s.clock ∧
    s.time1 = BitVec.ofNat 32 start ∧ s.time2 = BitVec.ofNat 32 stop

/-- What is known of the times while a 0 is owed. -/
def Timed (setTime : ℕ) (s : StationState) : Prop :=
  match s.pc with
  | .readTime1 => setTime ≤ s.clock
  | .ifAlertOver => Time2Read setTime s
  | .clearAlert | .writeClear => setTime + 10000 < s.clock
  | _ => Time1Read setTime s

theorem Timed.tick (h : Timed setTime s) (milliseconds : ℕ) :
    Timed setTime { s with clock := s.clock + milliseconds } := by
  unfold Timed at h ⊢
  revert h
  cases s.pc with
  | readTime1 => exact fun h ↦ Nat.le_add_right_of_le h
  | clearAlert | writeClear => exact fun h ↦ Nat.lt_add_right milliseconds h
  | ifAlertOver =>
    rintro ⟨start, stop, hset, hle, hstop, htimes⟩
    exact ⟨start, stop, hset, hle, Nat.le_add_right_of_le hstop, htimes⟩
  | _ =>
    rintro ⟨start, hset, hstart, htime⟩
    exact ⟨start, hset, Nat.le_add_right_of_le hstart, htime⟩

/-! ### The invariant -/

/-- The values sent alternate, and the last one is a 100 exactly when a 0 is owed. -/
structure WriteInvariant (writes : List (ℚ × ℕ)) (s : StationState) : Prop where
  alert : AlertInvariant s
  alternating : Alternating writes
  parity : writes.length % 2 = (clearOwed s.pc s.alertEvent).toNat
  timed : clearOwed s.pc s.alertEvent = true →
    ∃ setTime, writes.getLast? = some (100, setTime) ∧ Timed setTime s

theorem writeInvariant_afterSetup (clock : ℕ) : WriteInvariant [] (afterSetup clock) :=
  ⟨alertInvariant_afterSetup clock, alternating_nil, rfl, fun h ↦ absurd h Bool.false_ne_true⟩

/-- While the interrupt is attached no 0 is owed, before the alert and behind it. -/
theorem WriteInvariant.pirhandler (h : WriteInvariant writes s) (hattached : s.pirAttached = true) :
    WriteInvariant writes (pirhandler s) := by
  have hbefore : clearOwed s.pc s.alertEvent = false := by
    have hat := h.alert.attached
    have halertAt := h.alert.alertAt
    rw [hattached] at hat
    revert hat halertAt
    cases s.pc <;> cases s.alertEvent <;> simp [attachedAt, AlertAt, clearOwed]
  have hafter : clearOwed s.pc .set = false := by
    revert hbefore
    cases s.pc <;> simp [clearOwed]
  refine ⟨h.alert.pirhandler hattached, h.alternating, ?_, fun howed ↦ ?_⟩
  · rw [h.parity, hbefore]
    exact (congrArg Bool.toNat hafter).symm
  · exact absurd (howed.symm.trans hafter) Bool.noConfusion

/-- A statement that sends nothing to field 3 leaves the owed 0 as it is. -/
theorem clearOwed_execute (sketch : StationSketch) (halertAt : AlertAt s.pc s.alertEvent)
    (hset : s.pc ≠ .writeAlert) (hclear : s.pc ≠ .writeClear) (reading : Reading) :
    clearOwed (execute sketch reading s).pc (execute sketch reading s).alertEvent =
      clearOwed s.pc s.alertEvent := by
  obtain ⟨pc, _, _, received, _, alertEvent, upload⟩ := s
  cases pc with
  | writeAlert => exact absurd rfl hset
  | writeClear => exact absurd rfl hclear
  | ifReceived => cases received <;> rfl
  | ifUpload => cases upload <;> rfl
  | ifAlertSet | ifAlertReset => cases alertEvent <;> rfl
  | ifCorrupted | ifAlertOver =>
    simp only [execute]
    split_ifs <;> rfl
  | wakeupForUpload | wakeupForAlert =>
    simp only [execute, ifPowerSave_wakeupWifi]
    rfl
  | sleepAfterUpload | sleepAfterClear =>
    simp only [execute, ifPowerSave_sleepWifi]
    rfl
  | resetAlert =>
    obtain rfl : alertEvent = .set := halertAt
    rfl
  | clearAlert =>
    obtain rfl : alertEvent = .reset := halertAt
    rfl
  | _ => rfl

/-- While a 0 is owed, `loop` reads the clock behind the 100, and `clearAlert` is reached more than
ten seconds behind it. -/
theorem Timed.execute {setTime : ℕ} (h : Timed setTime s)
    (halertAt : AlertAt s.pc s.alertEvent) (howed : clearOwed s.pc s.alertEvent = true)
    (hclear : s.pc ≠ .writeClear) (reading : Reading) :
    Timed setTime (execute sketch reading s) := by
  obtain ⟨pc, _, _, received, _, alertEvent, upload⟩ := s
  cases pc with
  | writeAlert => exact absurd howed Bool.false_ne_true
  | writeClear => exact absurd rfl hclear
  | resetAlert =>
    obtain rfl : alertEvent = .set := halertAt
    exact absurd howed Bool.false_ne_true
  | ifReceived => cases received <;> exact h
  | ifUpload => cases upload <;> exact h
  | ifAlertSet | ifAlertReset => cases alertEvent <;> exact h
  | ifCorrupted =>
    simp only [AlertStation.execute]
    split_ifs <;> exact h
  | wakeupForUpload | wakeupForAlert =>
    simp only [AlertStation.execute, ifPowerSave_wakeupWifi]
    exact h
  | sleepAfterUpload | sleepAfterClear =>
    simp only [AlertStation.execute, ifPowerSave_sleepWifi]
    exact h
  | readTime1 => exact ⟨_, h, le_rfl, rfl⟩
  | readTime2 =>
    obtain ⟨start, hset, hstart, htime⟩ := h
    exact ⟨start, _, hset, hstart, le_rfl, htime, rfl⟩
  | ifAlertOver =>
    obtain ⟨start, stop, hset, hle, hstop, htime1, htime2⟩ := h
    simp only [AlertStation.execute]
    split_ifs with hover
    · obtain rfl := htime1
      obtain rfl := htime2
      calc setTime + 10000 ≤ start + 10000 := Nat.add_le_add_right hset 10000
        _ < stop := add_lt_of_lt_toNat_sub hle hover
        _ ≤ _ := hstop
    · exact ⟨start, hset, hle.trans hstop, htime1⟩
  | _ => exact h

/-- A statement of `loop` sends what is due. -/
theorem WriteInvariant.execute (h : WriteInvariant writes s) (reading : Reading) :
    WriteInvariant (writes ++
        ((fieldWrite 3 ⟨s, .statement reading, execute sketch reading s⟩).map
          fun value ↦ (value, s.clock)).toList)
      (execute sketch reading s) := by
  have hsilent (hset : s.pc ≠ .writeAlert) (hclear : s.pc ≠ .writeClear) :
      WriteInvariant (writes ++ []) (AlertStation.execute sketch reading s) := by
    have howed := clearOwed_execute sketch h.alert.alertAt hset hclear reading
    rw [List.append_nil]
    refine ⟨h.alert.execute reading, h.alternating, howed ▸ h.parity, fun hnext ↦ ?_⟩
    rw [howed] at hnext
    obtain ⟨setTime, hlast, htimed⟩ := h.timed hnext
    exact ⟨setTime, hlast, htimed.execute h.alert.alertAt hnext hclear reading⟩
  have hnext : AlertInvariant (AlertStation.execute sketch reading s) := h.alert.execute reading
  obtain ⟨halert, halternating, hparity, htimed⟩ := h
  obtain ⟨pc, _, _, _, _, alertEvent⟩ := s
  cases pc with
  | writeAlert =>
    obtain rfl : alertEvent = .reset := halert.alertAt
    have heven : writes.length % 2 = 0 := hparity
    refine ⟨hnext, halternating.set heven _, ?_, fun _ ↦ ⟨_, List.getLast?_concat, le_rfl⟩⟩
    change (writes ++ [_]).length % 2 = 1
    rw [List.length_append, List.length_singleton]
    omega
  | writeClear =>
    obtain rfl : alertEvent = .notSet := halert.alertAt
    have hodd : writes.length % 2 = 1 := hparity
    obtain ⟨setTime, hlast, hover⟩ := htimed rfl
    refine ⟨hnext, halternating.clear hodd hlast hover, ?_, fun howed ↦ ?_⟩
    · change (writes ++ [_]).length % 2 = 0
      rw [List.length_append, List.length_singleton]
      omega
    · exact absurd howed Bool.false_ne_true
  | _ => exact hsilent Statement.noConfusion Statement.noConfusion

theorem WriteInvariant.step {activity : Activity} (h : WriteInvariant writes s)
    (hstep : step sketch s activity = some next) :
    WriteInvariant (writes ++
      ((fieldWrite 3 ⟨s, activity, next⟩).map fun value ↦ (value, s.clock)).toList) next := by
  have halert := h.alert.step hstep
  rcases step_cases hstep with ⟨rfl, hattached, rfl⟩ | ⟨rfl, -, rfl⟩ | ⟨milliseconds, rfl, rfl⟩ |
    ⟨reading, rfl, rfl⟩
  · simpa [fieldWrite] using h.pirhandler hattached
  · simpa [fieldWrite] using
      (⟨halert, h.alternating, h.parity, h.timed⟩ : WriteInvariant writes _)
  · have htick : WriteInvariant writes { s with clock := s.clock + milliseconds } := by
      refine ⟨halert, h.alternating, h.parity, fun howed ↦ ?_⟩
      obtain ⟨setTime, hlast, htimed⟩ := h.timed howed
      exact ⟨setTime, hlast, htimed.tick milliseconds⟩
    simpa [fieldWrite] using htick
  · exact h.execute reading

/-- The invariant holds along every run, with the values sent in that run. -/
theorem run_writeInvariant {trace : List (Transition StationState Activity)}
    (hrun : Run (station sketch) trace s) : WriteInvariant (field3Writes trace) s := by
  induction hrun with
  | start h =>
    obtain ⟨clock, rfl⟩ := h
    exact writeInvariant_afterSetup clock
  | step _ hstep ih => exact ih.step hstep

/-! ### No alert is lost -/

/-- Behind an alert: the 100 is still to come, or has been sent. -/
def Answered (later : List (Transition StationState Activity)) (s : StationState) : Prop :=
  s.alertEvent = .set ∨ s.pc = .writeAlert ∨
    ∃ writing ∈ later, fieldWrite 3 writing = some 100

/-- A SET alert is left for RESET just in front of the write of 100. -/
theorem Answered.step {later : List (Transition StationState Activity)} {activity : Activity}
    (h : Answered later s) (halert : AlertInvariant s)
    (hstep : step sketch s activity = some next) :
    Answered (⟨s, activity, next⟩ :: later) next := by
  rcases h with hset | hwrite | hsent
  · rcases step_cases hstep with ⟨-, -, rfl⟩ | ⟨-, -, rfl⟩ | ⟨_, -, rfl⟩ | ⟨reading, -, rfl⟩
    · exact Or.inl rfl
    · exact Or.inl hset
    · exact Or.inl hset
    · have halertAt := halert.alertAt
      clear halert hstep
      obtain ⟨pc, _, _, _, _, alertEvent⟩ := s
      obtain rfl : alertEvent = .set := hset
      cases pc with
      | resetAlert => exact Or.inr (Or.inl rfl)
      | clearAlert => exact AlertEvent.noConfusion halertAt
      | wakeupForUpload | wakeupForAlert =>
        simp only [execute, ifPowerSave_wakeupWifi]
        exact Or.inl rfl
      | sleepAfterUpload | sleepAfterClear =>
        simp only [execute, ifPowerSave_sleepWifi]
        exact Or.inl rfl
      | _ => exact Or.inl rfl
  · rcases step_cases hstep with ⟨-, -, rfl⟩ | ⟨-, -, rfl⟩ | ⟨_, -, rfl⟩ | ⟨reading, rfl, rfl⟩
    · exact Or.inl rfl
    · exact Or.inr (Or.inl hwrite)
    · exact Or.inr (Or.inl hwrite)
    · refine Or.inr (Or.inr ⟨_, List.mem_cons_self, ?_⟩)
      simp [fieldWrite, written, hwrite]
  · exact Or.inr (Or.inr (List.exists_mem_cons_of_exists hsent))

/-- In every run the values sent to field 3 alternate from 100 on, each 0 more than ten seconds
behind its 100, and between an alert and the next NOT_SET a 100 is sent. -/
theorem alert_protocol {trace : List (Transition StationState Activity)}
    (hrun : Run (station sketch) trace s) :
    Alternating (field3Writes trace) ∧
      ∀ later alert earlier, trace = later ++ alert :: earlier →
        alert.after.alertEvent = .set → s.alertEvent = .notSet →
        ∃ writing ∈ later, fieldWrite 3 writing = some 100 := by
  refine ⟨(run_writeInvariant hrun).alternating, ?_⟩
  rintro later alert earlier rfl hset hnotSet
  have hanswered : Answered later s := by
    refine Run.invariant_since (I := Answered) (Or.inl hset) ?_ hrun
    intro later state activity next hbefore h hstep
    exact h.step (run_alertInvariant hbefore) hstep
  rcases hanswered with hstill | hwrite | hsent
  · rw [hstill] at hnotSet
    exact AlertEvent.noConfusion hnotSet
  · have halertAt := (run_alertInvariant hrun).alertAt
    rw [hwrite, hnotSet] at halertAt
    exact AlertEvent.noConfusion halertAt
  · exact hsent

/-- An alert without a frame, up to the end of the pass that sends the 0. `millis` wraps meanwhile.
-/
def alertCleared : List Activity :=
  [.pir] ++ List.replicate 9 (.statement ⟨20, 10⟩) ++ [.tick 10001] ++
    List.replicate 8 (.statement ⟨20, 10⟩)

theorem alertCleared_protocol :
    ∃ trace s, Run (station SketchJan07a.sketch) trace s ∧
      field3Writes trace = [(100, 4294967290), (0, 4294977291)] ∧
      Alternating (field3Writes trace) := by
  have hreplay : (replay (station SketchJan07a.sketch) (afterSetup 4294967290) alertCleared).map
      (fun s ↦ s.pc) = some .declareUpload := by decide +kernel
  obtain ⟨s, hrun, -⟩ := exists_run_of_replay (initial_afterSetup _ _) hreplay
  refine ⟨_, s, hrun, ?_, (alert_protocol hrun).1⟩
  decide +kernel

end Sketchbook.Station.AlertWrites
