import Sketchbook.Blynk.ReceivedCommands
import Sketchbook.Timer.TimerScheduler

/-!
# Virtual pins

What `virtualWrite` sends is a command whose strings are those of its values, and the handler of a
device that receives it finds them by their numbers (`virtualWrite_handled`). The sketch timers has
handlers for six pins. While its connection holds, each call of `Blynk.run` takes a message from the
stream, and the settings are those that the values among them lead to (`settings_eq`).
-/

set_option autoImplicit false
set_option relaxedAutoImplicit false

namespace Sketchbook.Blynk.VirtualPins

open Foundation.DecimalText Foundation.TerminatedStrings Parameters Protocol CommandStrings
  SentMessages ReceivedCommands Timer.TimerScheduler

/-! ### The strings of a command -/

/-- Strings with terminators between them come back as they are. -/
theorem stringsOf_dropLast {strings : List (List (BitVec 8))} (hne : strings ≠ [])
    (hclean : ∀ string ∈ strings, 0 ∉ string) :
    stringsOf (joined 0 strings).dropLast = strings := by
  induction strings with
  | nil => exact absurd rfl hne
  | cons first rest ih =>
    have hfirst := hclean first List.mem_cons_self
    have hjoined : joined 0 (first :: rest) = first ++ 0 :: joined (0 : BitVec 8) rest := by
      rw [joined, List.flatMap_cons, List.append_assoc]
      rfl
    cases rest with
    | nil =>
      rw [hjoined, joined, List.flatMap_nil, List.dropLast_append_cons, List.dropLast_singleton,
        List.append_nil]
      exact List.splitOn_eq_singleton hfirst
    | cons second rest =>
      have hrest : joined (0 : BitVec 8) (second :: rest) ≠ [] := by
        rw [joined, List.flatMap_cons]
        exact fun h ↦ absurd (List.append_eq_nil_iff.mp (List.append_eq_nil_iff.mp h).1).2
          (List.cons_ne_nil _ _)
      rw [hjoined, List.dropLast_append_cons, List.dropLast_cons_of_ne_nil hrest, stringsOf,
        List.splitOn_append_cons_self_of_not_mem hfirst]
      exact congrArg (first :: ·) (ih (List.cons_ne_nil _ _)
        fun string hmem ↦ hclean string (List.mem_cons_of_mem _ hmem))

/-- The values of a command `vw`, with the command and the pin in front. -/
def writeData (pin : BitVec 32) (values : List Data) : List Data :=
  .text (ascii "vw") :: .number pin :: values

/-- The body that `virtualWrite` sends. -/
def writeBody (pin : BitVec 32) (values : List Data) : List (BitVec 8) :=
  (joined 0 ((writeData pin values).map Data.string)).dropLast

variable {pin : BitVec 8} {values : List Data}

/-- The values can be told apart and found again. -/
structure Legible (values : List Data) : Prop where
  clean : ∀ value ∈ values, value.Clean
  last : ∀ value ∈ values.getLast?, value.string ≠ []
  ne_nil : values ≠ []

theorem legible_number (value : BitVec 32) : Legible [.number value] where
  clean data hmem := by
    rw [List.mem_singleton.mp hmem]
    trivial
  last data hlast := by
    obtain rfl : Data.number value = data := Option.some.inj hlast
    exact signedText_ne_nil _
  ne_nil := List.cons_ne_nil _ _

theorem clean_writeData (hclean : ∀ value ∈ values, value.Clean) (pin : BitVec 32) :
    ∀ string ∈ (writeData pin values).map Data.string, 0 ∉ string := by
  intro string hmem
  obtain ⟨data, hdata, rfl⟩ := List.mem_map.mp hmem
  refine Data.Clean.notMem ?_
  rcases List.mem_cons.mp hdata with rfl | hdata
  · exact show (0 : BitVec 8) ∉ ascii "vw" by decide
  rcases List.mem_cons.mp hdata with rfl | hdata
  · trivial
  · exact hclean data hdata

theorem stringsOf_writeBody (hvalues : Legible values) (pin : BitVec 32) :
    stringsOf (writeBody pin values) = (writeData pin values).map Data.string :=
  stringsOf_dropLast (List.cons_ne_nil _ _) (clean_writeData hvalues.clean pin)

/-- The last value is no empty string, so an iterator reaches all of them. -/
theorem reached_writeBody (hvalues : Legible values) (pin : BitVec 32) :
    reached (writeBody pin values) = values.length + 2 := by
  have hlast : ((writeData pin values).map Data.string).getLast? ≠ some [] := by
    obtain ⟨value, hvalue⟩ := Option.ne_none_iff_exists'.mp
      (mt List.getLast?_eq_none_iff.mp hvalues.ne_nil)
    rw [List.getLast?_map, writeData, List.getLast?_cons_cons, List.getLast?_cons, hvalue,
      Option.getD_some, Option.map_some]
    exact fun heq ↦ hvalues.last value hvalue (Option.some.inj heq)
  rw [reached, stringsOf_writeBody hvalues, visible, if_neg hlast, List.length_map]
  rfl

theorem wordOf_writeBody (hvalues : Legible values) (pin : BitVec 32) :
    wordOf (writeBody pin values) = hardwareCommand "vw" := by
  have hmemory : writeBody pin values ++ [0] = joined 0 ((writeData pin values).map Data.string) :=
    (joined_splitOn 0 (writeBody pin values)).symm.trans
      (congrArg (joined 0) (stringsOf_writeBody hvalues pin))
  rw [wordOf, hmemory]
  rfl

variable {Net App : Type*}

/-- A number of a pin is not the name of an analog input. -/
theorem pinOf_signedText (client : Client Net) (pin : BitVec 8) :
    pinOf client (signedText (pin.setWidth 32).toInt) = pin := by
  have hhead : (signedText (pin.setWidth 32).toInt).head? ≠ some 65 := by
    rw [signedText]
    split
    · exact fun h ↦ absurd (Option.some.inj h) (by decide)
    · intro h
      obtain ⟨character, hfound, hdigit⟩ := head?_text_append (pin.setWidth 32).toInt.natAbs []
      rw [List.append_nil, h] at hfound
      rw [← Option.some.inj hfound] at hdigit
      exact absurd hdigit (by decide)
  rw [pinOf, if_neg hhead, atoi_signedText]
  exact BitVec.eq_of_toNat_eq (by simp)

theorem pinString_writeBody (hvalues : Legible values) (pin : BitVec 32) :
    pinString (writeBody pin values) = signedText pin.toInt := by
  rw [pinString, stringsOf_writeBody hvalues]
  rfl

/-! ### From device to device -/

/-- The parameter that the handler gets. -/
def valuesParam (pin : BitVec 8) (values : List Data) : Param :=
  { paramOf (writeBody (pin.setWidth 32) values) with
    first := offset (stringsOf (writeBody (pin.setWidth 32) values)) 2 }

/-- The command of `virtualWrite` calls the handler of its pin. -/
theorem processCmd_writeBody (hvalues : Legible values) (client : Client Net)
    (sketch : Sketch App) (s : Session Net App) :
    processCmd client sketch (writeBody (pin.setWidth 32) values) s =
      match sketch.writeHandler pin with
      | some handler => (handler (valuesParam pin values) s.app).map fun app ↦ { s with app }
      | none => some s := by
  have hreached : 2 ≤ reached (writeBody (pin.setWidth 32) values) := by
    rw [reached_writeBody hvalues]
    exact Nat.le_add_left _ _
  rw [processCmd_eq_execute client sketch hreached,
    execute_virtualWrite client sketch (wordOf_writeBody hvalues _) hreached,
    pinString_writeBody hvalues, pinOf_signedText]
  rfl

theorem actOn_writeBody (hvalues : Legible values) (client : Client Net) (sketch : Sketch App)
    (app : App) :
    actOn client sketch (writeBody (pin.setWidth 32) values) app =
      match sketch.writeHandler pin with
      | some handler => handler (valuesParam pin values) app
      | none => some app := by
  have hreached : ¬ reached (writeBody (pin.setWidth 32) values) < 2 := by
    rw [reached_writeBody hvalues]
    exact Nat.not_lt.mpr (Nat.le_add_left _ _)
  have hpm : hardwareCommand "vw" ≠ hardwareCommand "pm" := by decide
  have hdw : hardwareCommand "vw" ≠ hardwareCommand "dw" := by decide
  have haw : hardwareCommand "vw" ≠ hardwareCommand "aw" := by decide
  rw [actOn, if_neg hreached, wordOf_writeBody hvalues, if_neg hpm, if_neg hdw, if_neg haw,
    if_pos rfl, pinString_writeBody hvalues, pinOf_signedText]
  rfl

/-- The values are the strings of the parameter. -/
theorem stringAt_valuesParam (hvalues : Legible values) (index : ℕ) :
    (valuesParam pin values).stringAt index = some (values[index]?.map Data.string) := by
  have hreached := reached_writeBody hvalues (pin.setWidth 32)
  have hholds : (valuesParam pin values).Holds _ 2 _ := holds_values (by rw [hreached]; omega)
  rw [Param.stringAt, hholds.nth_eq, Option.bind_some, hreached]
  rcases Nat.lt_or_ge index values.length with hlt | hge
  · rw [if_pos (by omega), Param.deref, hholds.str_offset, stringsOf_writeBody hvalues,
      List.getElem?_map, writeData, Nat.add_comm 2 index, List.getElem?_cons_succ,
      List.getElem?_cons_succ,
      List.getElem?_eq_getElem hlt]
    rfl
  · rw [if_neg (by omega), List.getElem?_eq_none hge]
    rfl

/-- What one device writes to a virtual pin is sent, if it fits in the buffer, and another device
that receives it calls the handler of that pin with the values in their order. -/
theorem virtualWrite_handled (pin : BitVec 8) (hvalues : Legible values)
    (hfits : (writeBody (pin.setWidth 32) values).length < 128) :
    ∃ body param,
      (∀ (Sender SenderApp : Type) (client : Client Sender) (s : Session Sender SenderApp),
        virtualWrite client (pin.setWidth 32) values s =
          some (sendCmd client Command.hardware 0 (.body body) s)) ∧
      (∀ index : ℕ, param.stringAt index = some (values[index]?.map Data.string)) ∧
      ∀ (Receiver ReceiverApp : Type) (client : Client Receiver) (sketch : Sketch ReceiverApp)
          (s : Session Receiver ReceiverApp),
        processCmd client sketch body s =
          match sketch.writeHandler pin with
          | some handler => (handler param s.app).map fun app ↦ { s with app }
          | none => some s := by
  refine ⟨writeBody (pin.setWidth 32) values, valuesParam pin values, ?_,
    stringAt_valuesParam hvalues,
    fun _ _ client sketch s ↦ processCmd_writeBody hvalues client sketch s⟩
  intro Sender SenderApp client s
  refine sendStrings_eq client ?_
  rw [writeBody, List.length_dropLast] at hfits
  exact Nat.le_of_pred_lt hfits

theorem virtualWrite_handled_number :
    ∃ (body : List (BitVec 8)) (param : Param),
      (∀ s : Session Scripted Unit, virtualWrite scripted 3 [.number 21] s =
        some (sendCmd scripted Command.hardware 0 (.body body) s)) ∧
      param.stringAt 0 = some (some (ascii "21")) ∧
      ∀ s : Session Scripted (List (BitVec 8 × PinMode)), processCmd scripted pinLog body s =
        (param.asInt.map fun _ ↦ s.app).map fun app ↦ { s with app } := by
  obtain ⟨body, param, hsent, hvalues, hhandled⟩ :=
    virtualWrite_handled 3 (legible_number 21) (by decide +kernel)
  exact ⟨body, param, hsent _ _ scripted, (hvalues 0).trans (by decide +kernel),
    hhandled _ _ scripted pinLog⟩

/-! ### The settings of the sketch timers -/

/-- The handlers are those of the pins V0 to V5. -/
def virtualPin (pin : BitVec 8) : Option VirtualPin :=
  match pin.toNat with
  | 0 => some .V0
  | 1 => some .V1
  | 2 => some .V2
  | 3 => some .V3
  | 4 => some .V4
  | 5 => some .V5
  | _ => none

def numberOfPin : VirtualPin → BitVec 8
  | .V0 => 0
  | .V1 => 1
  | .V2 => 2
  | .V3 => 3
  | .V4 => 4
  | .V5 => 5

theorem virtualPin_numberOfPin (pin : VirtualPin) : virtualPin (numberOfPin pin) = some pin := by
  cases pin <;> rfl

/-- The sketch timers, which keeps `param.asInt()` of what comes for its pins. The outputs that the
app switches by itself are no part of its state. -/
def timers (authkey profile : List (BitVec 8)) (authkey_lt : authkey.length < 2 ^ 16)
    (profile_lt : profile.length < 2 ^ 16) : Sketch TimerState where
  authkey := authkey
  profile := profile
  writeHandler pin := (virtualPin pin).map fun pin param s ↦
    param.asInt.map fun value ↦ blynkWrite s ⟨pin, value⟩
  pinMode _ _ s := s
  digitalWrite _ _ s := s
  analogWrite _ _ s := s
  authkey_lt := authkey_lt
  profile_lt := profile_lt

variable (client : Client Net) {authkey profile : List (BitVec 8)}
  {authkey_lt : authkey.length < 2 ^ 16} {profile_lt : profile.length < 2 ^ 16}

theorem readsNumber_timers : ReadsNumber (timers authkey profile authkey_lt profile_lt) := by
  intro pin handler param s hhandler
  obtain ⟨virtual, -, rfl⟩ := Option.map_eq_some_iff.mp hhandler
  exact Option.map_eq_none_iff

/-- The message that brings a value for a pin. -/
def writeMessage (id : BitVec 16) (write : Write) : Message where
  cmd := Command.hardware
  id := id
  payload := .body (writeBody ((numberOfPin write.pin).setWidth 32) [.number write.value])

theorem length_writeBody_le (pin : VirtualPin) (value : BitVec 32) :
    (writeBody ((numberOfPin pin).setWidth 32) [.number value]).length ≤ 26 := by
  have hpin := length_signedText_le ((numberOfPin pin).setWidth 32)
  have hvalue := length_signedText_le value
  have hname : (ascii "vw").length = 2 := by decide
  rw [writeBody, List.length_dropLast, length_joined]
  simp only [writeData, List.map_cons, List.map_nil, Data.string, List.sum_cons, List.sum_nil,
    hname]
  omega

theorem known_writeMessage {id : BitVec 16} (hid : id ≠ 0) (write : Write) :
    Known (writeMessage id write) where
  id_ne := hid
  fits := ⟨show Command.hardware ≠ Command.response by decide,
    Nat.lt_of_le_of_lt (length_writeBody_le write.pin write.value) (by decide)⟩
  length_le := (length_writeBody_le write.pin write.value).trans (by decide)
  cmd_mem := show Command.hardware ∈ _ by decide

/-- The message does what the handler of the pin does. -/
theorem effect_writeMessage (id : BitVec 16) (write : Write) (s : TimerState) :
    effect client (timers authkey profile authkey_lt profile_lt) s (writeMessage id write) =
      some (blynkWrite s write) := by
  have hlegible := legible_number write.value
  have hreached := reached_writeBody hlegible ((numberOfPin write.pin).setWidth 32)
  have hhandler : (timers authkey profile authkey_lt profile_lt).writeHandler
      (numberOfPin write.pin) =
        some fun param s ↦ param.asInt.map fun value ↦ blynkWrite s ⟨write.pin, value⟩ := by
    change (virtualPin _).map _ = _
    rw [virtualPin_numberOfPin]
    rfl
  have hvalue : (valuesParam (numberOfPin write.pin) [.number write.value]).asInt =
      some write.value := by
    have hholds : (valuesParam (numberOfPin write.pin) [.number write.value]).Holds _ 2 _ :=
      holds_values (by rw [hreached]; exact Nat.le_add_left _ _)
    rw [Param.asInt, Param.int, hholds.first, hholds.str_offset, stringsOf_writeBody hlegible]
    exact congrArg some (atoi_signedText write.value)
  have hcommand : (writeMessage id write).cmd = Command.hardware ∨
      (writeMessage id write).cmd = Command.bridge := Or.inl rfl
  rw [effect, if_pos hcommand]
  change actOn client _ (writeBody _ _) s = _
  rw [actOn_writeBody hlegible, hhandler]
  dsimp only
  rw [hvalue]
  rfl

/-- The sketch timers with some token. -/
def timersSketch : Sketch TimerState :=
  timers namelessSketch.authkey namelessSketch.profile namelessSketch.authkey_lt
    namelessSketch.profile_lt

/-- A command that is not for the six pins, and that reads nothing behind its buffer. -/
structure Indifferent (client : Client Net) (body : List (BitVec 8)) : Prop where
  modes : wordOf body = hardwareCommand "pm" → ¬ LacksMode body
  pin : wordOf body = hardwareCommand "vw" → virtualPin (pinOf client (pinString body)) = none

variable {client} in
/-- Such a command leaves the settings alone. -/
theorem actOn_of_indifferent {body : List (BitVec 8)} (h : Indifferent client body)
    (s : TimerState) :
    actOn client (timers authkey profile authkey_lt profile_lt) body s = some s := by
  have hmode (pin : BitVec 8) (name : List (BitVec 8)) :
      setMode (timers authkey profile authkey_lt profile_lt) pin s name = s := by
    rw [setMode]
    cases modeOf name <;> rfl
  rw [actOn]
  dsimp only
  split
  · rfl
  split
  · next hword => rw [if_neg (h.modes hword), List.foldl_fixed' (hmode _)]
  split
  · exact congrArg some (ite_self _)
  split
  · exact congrArg some (ite_self _)
  split
  · next hword =>
    have hhandler : (timers authkey profile authkey_lt profile_lt).writeHandler
        (pinOf client (pinString body)) = none := by
      change (virtualPin _).map _ = none
      rw [h.pin hword]
      rfl
    rw [hhandler]
  · rfl

/-- What comes for the sketch: a value for a pin, or another message. -/
inductive Delivery
  | value (id : BitVec 16) (write : Write)
  | other (message : Message)

namespace Delivery

def message : Delivery → Message
  | value id write => writeMessage id write
  | other message => message

def written : Delivery → Option Write
  | value _ write => some write
  | other _ => none

/-- Another message may be a command too, as long as it is not for the six pins. -/
def Expected (client : Client Net) : Delivery → Prop
  | value id _ => id ≠ 0
  | other message => Known message ∧
    (message.cmd = Command.hardware ∨ message.cmd = Command.bridge →
      Indifferent client message.payload.bytes)

theorem Expected.known {client : Client Net} {delivery : Delivery}
    (h : delivery.Expected client) : Known delivery.message := by
  cases delivery with
  | value id write => exact known_writeMessage h write
  | other message => exact h.1

end Delivery

theorem foldlM_effect {deliveries : List Delivery}
    (hexpected : ∀ delivery ∈ deliveries, delivery.Expected client) (s : TimerState) :
    (deliveries.map Delivery.message).foldlM
        (effect client (timers authkey profile authkey_lt profile_lt)) s =
      some ((deliveries.filterMap Delivery.written).foldl blynkWrite s) := by
  induction deliveries generalizing s with
  | nil => rfl
  | cons delivery deliveries ih =>
    have hfirst := hexpected delivery List.mem_cons_self
    have hrest := ih fun later hmem ↦ hexpected later (List.mem_cons_of_mem _ hmem)
    rw [List.map_cons, List.foldlM_cons]
    cases delivery with
    | value id write =>
      rw [Delivery.message, effect_writeMessage]
      exact hrest _
    | other message =>
      have heffect : effect client (timers authkey profile authkey_lt profile_lt) s message =
          some s := by
        rw [effect]
        split
        · next hcommand => exact actOn_of_indifferent (hfirst.2 hcommand) s
        · rfl
      rw [Delivery.message, heffect]
      exact hrest _

variable {client}

/-- While the connection holds, each call of `Blynk.run` takes one message from the stream, and the
settings are those that the values taken so far lead to. -/
theorem settings_eq {incoming : Net → List (BitVec 8)} (hserves : Serves client incoming)
    {s : Session Net TimerState} {deliveries : List Delivery}
    (hexpected : ∀ delivery ∈ deliveries, delivery.Expected client)
    (hincoming : incoming s.conn.net = deliveries.flatMap fun delivery ↦ delivery.message.encode)
    {count : ℕ} (hcount : count ≤ deliveries.length)
    (hup : ∀ earlier < count, ∀ t,
      runs client (timers authkey profile authkey_lt profile_lt) earlier s = some t → Up client t)
    (readings : Readings) :
    ∃ t, runs client (timers authkey profile authkey_lt profile_lt) count s = some t ∧
      t.app = blynkRun s.app ⟨(deliveries.take count).filterMap Delivery.written, readings⟩ ∧
      incoming t.conn.net =
        (deliveries.drop count).flatMap fun delivery ↦ delivery.message.encode := by
  have hmessages : ∀ message ∈ deliveries.map Delivery.message, Known message := by
    intro message hmem
    obtain ⟨delivery, hdelivery, rfl⟩ := List.mem_map.mp hmem
    exact (hexpected delivery hdelivery).known
  have hleads := runs_app hserves hmessages (by rw [hincoming, List.flatMap_map])
    (by rwa [List.length_map]) hup
  rw [← List.map_take, ← List.map_drop,
    foldlM_effect client fun delivery hmem ↦ hexpected delivery (List.mem_of_mem_take hmem),
    List.flatMap_map] at hleads
  revert hleads
  cases runs client (timers authkey profile authkey_lt profile_lt) count s with
  | none => exact False.elim
  | some t => exact fun ⟨hleft, happ⟩ ↦ ⟨t, rfl, happ, hleft⟩

/-- A session that stands, with these messages still to come. -/
def awaiting (deliveries : List Delivery) : Session Scripted TimerState :=
  { Protocol.powerOn (Scripted.mk [] []) Timer.TimerScheduler.powerOn with
    state := .connected
    conn := ⟨true, ⟨deliveries.flatMap fun delivery ↦ delivery.message.encode, []⟩⟩
    deltaCmd := 1000 }

/-- A heartbeat and a command for an output between two values. -/
def fourDeliveries : List Delivery :=
  [.value 5 ⟨.V3, 7⟩, .other ⟨Command.ping, 6, .body []⟩,
    .other ⟨Command.hardware, 7, .body (joined 0 [ascii "dw", ascii "13", ascii "1"]).dropLast⟩,
    .value 8 ⟨.V5, -2⟩]

theorem settings_eq_fourDeliveries :
    ∃ t, runs scripted timersSketch 4 (awaiting fourDeliveries) = some t ∧
      t.app = blynkRun Timer.TimerScheduler.powerOn
        ⟨[⟨.V3, 7⟩, ⟨.V5, -2⟩], ⟨0, 0, 0, 0, 0, 0⟩⟩ := by
  have hstanding : ∀ earlier < 4, (runs scripted timersSketch earlier
      (awaiting fourDeliveries)).map (fun t ↦ (t.state, (t.conn.connected scripted).1)) =
        some (.connected, true) := by decide +kernel
  have hexpected : ∀ delivery ∈ fourDeliveries, delivery.Expected scripted := by
    intro delivery hmem
    rcases List.mem_cons.mp hmem with rfl | hmem
    · exact show (5 : BitVec 16) ≠ 0 by decide
    rcases List.mem_cons.mp hmem with rfl | hmem
    · exact ⟨⟨⟨by decide, by decide, by decide⟩, by decide, by decide⟩,
        fun hcommand ↦ absurd hcommand (by decide)⟩
    rcases List.mem_cons.mp hmem with rfl | hmem
    · exact ⟨⟨⟨by decide, by decide, by decide⟩, by decide, by decide⟩,
        fun _ ↦ ⟨fun hword ↦ absurd hword (by decide), fun hword ↦ absurd hword (by decide)⟩⟩
    · obtain rfl := List.mem_singleton.mp hmem
      exact show (8 : BitVec 16) ≠ 0 by decide
  obtain ⟨t, hruns, happ, -⟩ := settings_eq serves_scripted hexpected rfl
    (show 4 ≤ fourDeliveries.length by decide)
    (fun earlier hearlier t ht ↦ by
      have hup := hstanding earlier hearlier
      rw [timersSketch, ht, Option.map_some] at hup
      obtain ⟨hstate, hconnected⟩ := Prod.mk.inj (Option.some.inj hup)
      exact ⟨hstate, hconnected⟩) ⟨0, 0, 0, 0, 0, 0⟩
  exact ⟨t, hruns, happ⟩

end Sketchbook.Blynk.VirtualPins
