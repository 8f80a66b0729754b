import Sketchbook.Blynk.Protocol

/-!
# Hardware commands as strings

The body of a command is a sequence of strings, the pieces between its NULs, and `processCmd` has a
NUL behind them. It works with the first string, the command, the second one, the pin, and those
behind. Only two commands can read behind the buffer: `pm` without a mode for each of its pins, and
`vw` where the handler of the pin does so. A handler that reads the first value as a number does so
without a value (`processCmd_eq_none_iff`). Whatever pins the command `pm` names, all its modes go
to the first of them (`processCmd_pinModes`).
-/

set_option autoImplicit false
set_option relaxedAutoImplicit false

namespace Sketchbook.Blynk.CommandStrings

open Foundation.TerminatedStrings Parameters Protocol

variable {Net App : Type*} (client : Client Net) (sketch : Sketch App)

/-- The strings of a command. -/
def stringsOf (body : List (BitVec 8)) : List (List (BitVec 8)) := body.splitOn 0

/-- The strings that an iterator meets before the end. -/
def reached (body : List (BitVec 8)) : ℕ := (visible (stringsOf body)).length

theorem holds_paramOf (body : List (BitVec 8)) :
    (paramOf body).Holds (stringsOf body) 0 (reached body) where
  memory := (joined_splitOn 0 body).symm
  clean _ := notMem_of_mem_splitOn
  first := rfl
  last index hindex := by
    have hlength : (joined 0 (stringsOf body)).length - 1 = (paramOf body).last := by
      rw [stringsOf, joined_splitOn, List.length_append, List.length_singleton,
        Nat.add_sub_cancel]
      rfl
    rw [← hlength]
    exact offset_lt_iff 0 hindex
  start_le := Nat.zero_le _
  limit_le := (length_visible_le _).2

theorem first_lt_iff (body : List (BitVec 8)) : 0 < body.length ↔ 0 < reached body :=
  (holds_paramOf body).last 0 (Nat.zero_le _)

/-- The string of the pin. -/
def pinString (body : List (BitVec 8)) : List (BitVec 8) := (stringsOf body)[1]?.getD []

variable {body : List (BitVec 8)} {s : Session Net App}

theorem reached_le (body : List (BitVec 8)) : reached body ≤ (stringsOf body).length :=
  (holds_paramOf body).limit_le

theorem pred_le_reached (body : List (BitVec 8)) : (stringsOf body).length - 1 ≤ reached body :=
  (length_visible_le _).1

/-- A command without a pin does nothing. -/
theorem processCmd_of_reached_lt (h : reached body < 2) :
    processCmd client sketch body s = some s := by
  have hholds := holds_paramOf body
  rw [processCmd]
  split
  · rfl
  · next hnonempty =>
    have hpos : 0 < reached body := (first_lt_iff body).mp (Nat.lt_of_not_le hnonempty)
    have hle := reached_le body
    have hend : (paramOf body).last ≤ offset (stringsOf body) 1 := Nat.not_lt.mp fun hlt ↦
      absurd ((hholds.last 1 (by omega)).mp hlt) (by omega)
    rw [hholds.first, hholds.succ_of_lt (by omega), Option.bind_some, if_pos hend]

/-- A command with a pin gets to the switch. -/
theorem processCmd_eq_execute (h : 2 ≤ reached body) :
    processCmd client sketch body s =
      execute client sketch (wordOf body) (pinOf client (pinString body)) (paramOf body)
        (offset (stringsOf body) 1) s := by
  have hholds := holds_paramOf body
  have hle := reached_le body
  have hlt : 1 < (stringsOf body).length := by omega
  have hnonempty : 0 < body.length := (first_lt_iff body).mpr (by omega)
  have hinside : offset (stringsOf body) 1 < (paramOf body).last :=
    (hholds.last 1 (by omega)).mpr (by omega)
  have hstart : ¬ (paramOf body).last ≤ (paramOf body).first := Nat.not_le.mpr hnonempty
  rw [processCmd, if_neg hstart, hholds.first, hholds.succ_of_lt (by omega), Option.bind_some,
    if_neg (Nat.not_le.mpr hinside), hholds.str_offset, pinString, List.getElem?_eq_getElem hlt,
    Option.bind_some, Option.getD_some]

/-- A command with one value finds it as the third string. -/
theorem withValue_eq (h : 2 ≤ reached body) (act : BitVec 32 → Session Net App) :
    withValue (paramOf body) (offset (stringsOf body) 1) s act =
      some (if 2 < reached body then act (atoi ((stringsOf body)[2]?.getD [])) else s) := by
  have hholds := holds_paramOf body
  have hle := reached_le body
  have hlast := hholds.last 2 (by omega)
  rw [withValue, hholds.succ_of_lt (by omega), Option.bind_some]
  split
  · next hend => rw [if_neg fun hlt ↦ absurd (hlast.mpr hlt) (Nat.not_lt.mpr hend)]
  · next hinside =>
    have hlt := hlast.mp (Nat.lt_of_not_le hinside)
    have hbound : 2 < (stringsOf body).length := by omega
    rw [if_pos hlt, Param.int, hholds.str_offset, List.getElem?_eq_getElem hbound,
      Option.map_some, Option.map_some, Option.getD_some]

/-! ### Strings that are sent -/

/-- Strings that fit in are sent without the last NUL. -/
theorem sendStrings_eq {cmd : BitVec 8} {size : ℕ} {data : List Data}
    (hfits : (joined 0 (data.map Data.string)).length ≤ size) :
    sendStrings client cmd size data s =
      some (sendCmd client cmd 0 (.body (joined 0 (data.map Data.string)).dropLast) s) := by
  have hbytes : (filled (data.map Data.string)).bytes ((filled (data.map Data.string)).len - 1) =
      some (joined 0 (data.map Data.string)).dropLast := by
    rw [List.dropLast_eq_take]
    exact if_pos (Nat.sub_le _ _)
  rw [sendStrings, build_eq hfits, Option.bind_some, hbytes, Option.map_some]

theorem length_signedText_of_le {value : BitVec 32} {limit width : ℕ} (hwidth : 0 < width)
    (hvalue : value.toNat ≤ limit) (hlimit : limit < 10 ^ width) (hsmall : limit < 2 ^ 31) :
    (Foundation.DecimalText.signedText value.toInt).length ≤ width := by
  have hint : value.toInt = value.toNat := BitVec.toInt_eq_toNat_of_lt (by omega)
  rw [Foundation.DecimalText.signedText, hint, if_neg (by omega), Int.natAbs_natCast]
  exact Foundation.DecimalText.length_text_le hwidth (by omega)

/-- What is read from a pin fits in the buffer of the report. -/
theorem reportPin_eq (name : String) {read : BitVec 8 → Net → BitVec 32 × Net} {pin : BitVec 8}
    (hname : (ascii name).length = 2) (hread : (read pin s.conn.net).1 ≤ 1024) :
    ∃ bytes, reportPin client name read pin s =
      some (sendCmd client Command.hardware 0 (.body bytes)
        { s with conn := { s.conn with net := (read pin s.conn.net).2 } }) := by
  have hsmall : (pin.setWidth 32).toNat ≤ 255 := by
    rw [BitVec.toNat_setWidth]
    exact (Nat.mod_le _ _).trans (Nat.le_of_lt_succ pin.isLt)
  have hpin : (Foundation.DecimalText.signedText (pin.setWidth 32).toInt).length ≤ 3 :=
    length_signedText_of_le (by decide) hsmall (by decide) (by decide)
  have hvalue := length_signedText_of_le (by decide) (BitVec.le_def.mp hread)
    (show (1024 : BitVec 32).toNat < 10 ^ 4 by decide) (by decide)
  have hfits : (joined (0 : BitVec 8) ([Data.text (ascii name), .number (pin.setWidth 32),
      .number (read pin s.conn.net).1].map Data.string)).length ≤ 16 := by
    simp only [length_joined, List.map_cons, List.map_nil, Data.string, List.sum_cons,
      List.sum_nil, hname]
    omega
  exact ⟨_, sendStrings_eq client hfits⟩

/-! ### Pin modes -/

/-- Every second string from the second one on. -/
def everySecond : List (List (BitVec 8)) → List (List (BitVec 8))
  | _ :: second :: rest => second :: everySecond rest
  | _ => []

/-- What a mode does to a pin. -/
def setMode (pin : BitVec 8) (app : App) (name : List (BitVec 8)) : App :=
  match modeOf name with
  | some mode => sketch.pinMode pin mode app
  | none => app

/-- The loop over the modes sets one pin, and reads behind the buffer if it ends at a pin that has
no mode. -/
theorem pinModes_eq (pin : BitVec 8) {turns index : ℕ} (app : App)
    (hindex : index ≤ (stringsOf body).length) (hturns : reached body - index ≤ turns) :
    pinModes sketch (paramOf body) pin turns (offset (stringsOf body) index) app =
      if reached body = (stringsOf body).length ∧ ((stringsOf body).length - index) % 2 = 1
      then none
      else some ((everySecond ((stringsOf body).drop index)).foldl (setMode sketch pin) app) := by
  have hholds := holds_paramOf body
  have hle := reached_le body
  have hpred := pred_le_reached body
  induction turns using Nat.strong_induction_on generalizing index app with
  | _ turns ih =>
    by_cases hinside : index < reached body
    · obtain ⟨turns, rfl⟩ := Nat.exists_eq_succ_of_ne_zero (show turns ≠ 0 by omega)
      have hlt : index < (stringsOf body).length := by omega
      rw [pinModes, if_pos ((hholds.last index hindex).mpr hinside), hholds.succ_of_lt hlt,
        Option.bind_some, hholds.str_offset]
      rcases Nat.lt_or_ge (index + 1) (stringsOf body).length with hnext | hnext
      · rw [List.getElem?_eq_getElem hnext, Option.bind_some, hholds.succ_of_lt hnext,
          Option.bind_some, ih turns (Nat.lt_succ_self _) _ (by omega) (by omega),
          List.drop_eq_getElem_cons hlt, List.drop_eq_getElem_cons hnext, everySecond,
          List.foldl_cons]
        refine if_congr (and_congr Iff.rfl ?_) rfl rfl
        omega
      · rw [List.getElem?_eq_none hnext, Option.bind_none, if_pos ⟨by omega, by omega⟩]
    · have hsecond : everySecond ((stringsOf body).drop index) = [] := by
        rcases Nat.lt_or_eq_of_le hindex with hlt | heq
        · rw [List.drop_eq_getElem_cons hlt, List.drop_eq_nil_of_le (by omega)]
          rfl
        · rw [heq, List.drop_length]
          rfl
      have hrest : ¬ (reached body = (stringsOf body).length ∧
          ((stringsOf body).length - index) % 2 = 1) := by omega
      rw [if_neg hrest, hsecond, List.foldl_nil]
      cases turns with
      | zero => rfl
      | succ turns =>
        rw [pinModes, if_neg fun h ↦ hinside ((hholds.last index hindex).mp h)]

/-- A command `pm` ends at a pin that has no mode. -/
def LacksMode (body : List (BitVec 8)) : Prop :=
  reached body = (stringsOf body).length ∧ ((stringsOf body).length - 1) % 2 = 1

instance decidableLacksMode (body : List (BitVec 8)) : Decidable (LacksMode body) :=
  inferInstanceAs (Decidable (_ ∧ _))

/-- The switch at the command `pm`. -/
theorem execute_pinModes (hword : wordOf body = hardwareCommand "pm") (h : 2 ≤ reached body) :
    execute client sketch (wordOf body) (pinOf client (pinString body)) (paramOf body)
        (offset (stringsOf body) 1) s =
      if LacksMode body then none
      else some { s with
        app := (everySecond ((stringsOf body).drop 1)).foldl
          (setMode sketch (pinOf client (pinString body))) s.app } := by
  have hle := reached_le body
  have hturns : reached body - 1 ≤ (paramOf body).last :=
    (Nat.sub_le _ _).trans ((holds_paramOf body).turns.trans (Nat.sub_le _ _))
  rw [execute, if_pos hword, pinModes_eq sketch _ _ (by omega) hturns, apply_ite (Option.map _)]
  rfl

/-- All modes that the command `pm` names go to its first pin, in their order, whatever other pins
stand between them. -/
theorem processCmd_pinModes (hword : wordOf body = hardwareCommand "pm") (h : 2 ≤ reached body)
    (hmodes : ¬ LacksMode body) :
    processCmd client sketch body s =
      some { s with
        app := (everySecond ((stringsOf body).drop 1)).foldl
          (setMode sketch (pinOf client (pinString body))) s.app } := by
  rw [processCmd_eq_execute client sketch h, execute_pinModes client sketch hword h, if_neg hmodes]

/-- A sketch that notes which modes its pins are given, and reads the values of its handlers. -/
def pinLog : Sketch (List (BitVec 8 × PinMode)) where
  authkey := namelessSketch.authkey
  profile := namelessSketch.profile
  writeHandler _ := some fun param log ↦ param.asInt.map fun _ ↦ log
  pinMode pin mode log := log ++ [(pin, mode)]
  digitalWrite _ _ log := log
  analogWrite _ _ log := log
  authkey_lt := namelessSketch.authkey_lt
  profile_lt := namelessSketch.profile_lt

/-- The command `pm` for two pins. -/
def twoPins : List (BitVec 8) :=
  (joined 0 [ascii "pm", ascii "1", ascii "out", ascii "2", ascii "in"]).dropLast

theorem processCmd_pinModes_twoPins :
    (processCmd scripted pinLog twoPins (powerOn ⟨[], []⟩ [])).map Session.app =
      some [(1, .output), (1, .input)] := by
  rw [processCmd_pinModes scripted pinLog (by decide +kernel) (by decide +kernel)
    (by decide +kernel)]
  decide +kernel

/-! ### Reading behind the buffer -/

/-- The handlers read the first value as a number and nothing else. -/
def ReadsNumber (sketch : Sketch App) : Prop :=
  ∀ pin handler param app, sketch.writeHandler pin = some handler →
    (handler param app = none ↔ param.asInt = none)

/-- The parameter that a handler gets begins with the third string. -/
theorem holds_values (h : 2 ≤ reached body) :
    ({ paramOf body with first := offset (stringsOf body) 2 } : Param).Holds (stringsOf body) 2
      (reached body) where
  memory := (holds_paramOf body).memory
  clean := (holds_paramOf body).clean
  first := rfl
  last := (holds_paramOf body).last
  start_le := h
  limit_le := reached_le body

/-- The switch at the command `vw`. -/
theorem execute_virtualWrite (hword : wordOf body = hardwareCommand "vw") (h : 2 ≤ reached body) :
    execute client sketch (wordOf body) (pinOf client (pinString body)) (paramOf body)
        (offset (stringsOf body) 1) s =
      match sketch.writeHandler (pinOf client (pinString body)) with
      | some handler =>
        (handler { paramOf body with first := offset (stringsOf body) 2 } s.app).map fun app ↦
          { s with app }
      | none => some s := by
  have hle := reached_le body
  have hpm : hardwareCommand "vw" ≠ hardwareCommand "pm" := by decide
  have hdr : hardwareCommand "vw" ≠ hardwareCommand "dr" := by decide
  have hdw : hardwareCommand "vw" ≠ hardwareCommand "dw" := by decide
  have har : hardwareCommand "vw" ≠ hardwareCommand "ar" := by decide
  have haw : hardwareCommand "vw" ≠ hardwareCommand "aw" := by decide
  have hvr : hardwareCommand "vw" ≠ hardwareCommand "vr" := by decide
  have hvalue : (paramOf body).succ (offset (stringsOf body) 1) =
      some (offset (stringsOf body) 2) := (holds_paramOf body).succ_of_lt (by omega)
  rw [hword, execute, if_neg hpm, if_neg hdr, if_neg hdw, if_neg har, if_neg haw, if_neg hvr,
    if_pos rfl]
  exact congrArg (Option.bind · _) hvalue

/-- The commands other than `pm` and `vw` do not read behind the buffer. -/
theorem execute_ne_none (hpm : wordOf body ≠ hardwareCommand "pm")
    (hvw : wordOf body ≠ hardwareCommand "vw") (h : 2 ≤ reached body) :
    execute client sketch (wordOf body) (pinOf client (pinString body)) (paramOf body)
        (offset (stringsOf body) 1) s ≠ none := by
  rw [execute, if_neg hpm]
  split
  · have hread := BitVec.le_trans (client.digitalRead_le (pinOf client (pinString body)) s.conn.net)
      (show (1 : BitVec 32) ≤ 1024 by decide)
    obtain ⟨bytes, hreport⟩ := reportPin_eq client "dw" (by decide) hread
    rw [hreport]
    exact Option.some_ne_none _
  · split
    · rw [withValue_eq h]
      exact Option.some_ne_none _
    · split
      · have hread := client.analogRead_le (pinOf client (pinString body)) s.conn.net
        obtain ⟨bytes, hreport⟩ := reportPin_eq client "aw" (by decide) hread
        rw [hreport]
        exact Option.some_ne_none _
      · split
        · rw [withValue_eq h]
          exact Option.some_ne_none _
        · split
          · exact Option.some_ne_none _
          · exact Option.some_ne_none _

/-- Whatever the handlers of a sketch do, a command reads behind the buffer exactly when it is `pm`
and ends at a pin without a mode, or it is `vw` and the handler of the pin does so. -/
theorem processCmd_eq_none_iff_handler :
    processCmd client sketch body s = none ↔
      2 ≤ reached body ∧
        ((wordOf body = hardwareCommand "pm" ∧ LacksMode body) ∨
          (wordOf body = hardwareCommand "vw" ∧
            ∃ handler, sketch.writeHandler (pinOf client (pinString body)) = some handler ∧
              handler { paramOf body with first := offset (stringsOf body) 2 } s.app = none)) := by
  rcases Nat.lt_or_ge (reached body) 2 with hshort | hpin
  · rw [processCmd_of_reached_lt client sketch hshort]
    exact ⟨fun h ↦ absurd h (Option.some_ne_none _), fun h ↦ absurd h.1 (Nat.not_le.mpr hshort)⟩
  rw [processCmd_eq_execute client sketch hpin]
  by_cases hpm : wordOf body = hardwareCommand "pm"
  · have hvw : wordOf body ≠ hardwareCommand "vw" := fun h ↦
      absurd (hpm.symm.trans h) (by decide)
    rw [execute_pinModes client sketch hpm hpin, ite_eq_left_iff]
    constructor
    · exact fun h ↦ ⟨hpin, Or.inl ⟨hpm, Classical.byContradiction fun hlacks ↦
        absurd (h hlacks) (Option.some_ne_none _)⟩⟩
    · rintro ⟨-, ⟨-, hlacks⟩ | ⟨hword, -⟩⟩
      · exact fun h ↦ absurd hlacks h
      · exact absurd hword hvw
  by_cases hvw : wordOf body = hardwareCommand "vw"
  · rw [execute_virtualWrite client sketch hvw hpin]
    cases hhandler : sketch.writeHandler (pinOf client (pinString body)) with
    | none =>
      refine ⟨fun h ↦ absurd h (Option.some_ne_none _), ?_⟩
      rintro ⟨-, ⟨hword, -⟩ | ⟨-, handler, hsome, -⟩⟩
      · exact absurd hword hpm
      · exact absurd hsome (Option.some_ne_none _).symm
    | some handler =>
      rw [Option.map_eq_none_iff]
      constructor
      · exact fun h ↦ ⟨hpin, Or.inr ⟨hvw, handler, rfl, h⟩⟩
      · rintro ⟨-, ⟨hword, -⟩ | ⟨-, other, hsome, h⟩⟩
        · exact absurd hword hpm
        · exact Option.some.inj hsome ▸ h
  · refine ⟨fun h ↦ absurd h (execute_ne_none client sketch hpm hvw hpin), ?_⟩
    rintro ⟨-, ⟨hword, -⟩ | ⟨hword, -⟩⟩
    · exact absurd hword hpm
    · exact absurd hword hvw

/-- Where the handlers read the first value as a number, a command reads behind the buffer exactly
when it is `pm` and ends at a pin without a mode, or `vw` for a pin that has a handler, and ends at
the pin. -/
theorem processCmd_eq_none_iff (hsketch : ReadsNumber sketch) :
    processCmd client sketch body s = none ↔
      2 ≤ reached body ∧
        ((wordOf body = hardwareCommand "pm" ∧ LacksMode body) ∨
          (wordOf body = hardwareCommand "vw" ∧ (stringsOf body).length = 2 ∧
            (sketch.writeHandler (pinOf client (pinString body))).isSome = true)) := by
  rw [processCmd_eq_none_iff_handler]
  refine and_congr_right fun hpin ↦ or_congr_right (and_congr_right fun _ ↦ ?_)
  have hle := reached_le body
  have hvalue : Param.asInt { paramOf body with first := offset (stringsOf body) 2 } = none ↔
      (stringsOf body).length = 2 := by
    rw [Param.asInt, Param.int, (holds_values hpin).str_offset, Option.map_eq_none_iff,
      List.getElem?_eq_none_iff]
    omega
  constructor
  · rintro ⟨handler, hhandler, hnone⟩
    exact ⟨hvalue.mp ((hsketch _ _ _ _ hhandler).mp hnone), hhandler ▸ rfl⟩
  · rintro ⟨hlength, hsome⟩
    obtain ⟨handler, hhandler⟩ := Option.isSome_iff_exists.mp hsome
    exact ⟨handler, hhandler, (hsketch _ _ _ _ hhandler).mpr (hvalue.mpr hlength)⟩

theorem processCmd_eq_none_iff_pin :
    processCmd scripted pinLog (joined 0 [ascii "vw", ascii "4"]).dropLast
        (powerOn ⟨[], []⟩ []) = none := by
  have hsketch : ReadsNumber pinLog := by
    intro pin handler param log hhandler
    rw [← Option.some.inj hhandler]
    exact Option.map_eq_none_iff
  rw [processCmd_eq_none_iff scripted pinLog hsketch]
  decide +kernel

end Sketchbook.Blynk.CommandStrings
