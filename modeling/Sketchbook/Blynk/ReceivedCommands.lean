import Sketchbook.Blynk.SentMessages

/-!
# What the device does with a stream of messages

`actOn` says what a command does to the pins and to the sketch, in terms of its strings, and
`processCmd` does that whatever it sends besides (`Serves.processCmd`). While the connection holds,
each call of `run` takes the next message from the stream, whole, and after some calls the sketch is
in the state that the same number of messages leads to (`runs_app`).
-/

set_option autoImplicit false
set_option relaxedAutoImplicit false

namespace Sketchbook.Blynk.ReceivedCommands

open Foundation.TerminatedStrings Parameters Protocol CommandStrings SentMessages

variable {Net App : Type*} (client : Client Net) (sketch : Sketch App)

/-! ### Commands -/

/-- What a command does to the pins and to the sketch. -/
def actOn (body : List (BitVec 8)) (app : App) : Option App :=
  let pin := pinOf client (pinString body)
  let value := atoi ((stringsOf body)[2]?.getD [])
  if reached body < 2 then some app
  else if wordOf body = hardwareCommand "pm" then
    if LacksMode body then none
    else some ((everySecond ((stringsOf body).drop 1)).foldl (setMode sketch pin) app)
  else if wordOf body = hardwareCommand "dw" then
    some (if 2 < reached body
      then sketch.digitalWrite pin (value ≠ 0)
        (sketch.pinMode pin .output (sketch.analogWrite pin 0 app))
      else app)
  else if wordOf body = hardwareCommand "aw" then
    some (if 2 < reached body
      then sketch.analogWrite pin value (sketch.pinMode pin .output app) else app)
  else if wordOf body = hardwareCommand "vw" then
    match sketch.writeHandler pin with
    | some handler => handler { paramOf body with first := offset (stringsOf body) 2 } app
    | none => some app
  else some app

/-! ### A stream of messages -/

/-- A connection on which a stream of bytes comes in, and nothing else changes it. -/
structure Serves (client : Client Net) (incoming : Net → List (BitVec 8)) : Prop where
  connected : ∀ net, incoming (client.connected net).2 = incoming net
  available : ∀ net, incoming (client.available net).2 = incoming net
  write : ∀ bytes net, incoming (client.write bytes net).2 = incoming net
  millis : ∀ net, incoming (client.millis net).2 = incoming net
  digitalRead : ∀ pin net, incoming (client.digitalRead pin net).2 = incoming net
  analogRead : ∀ pin net, incoming (client.analogRead pin net).2 = incoming net
  stop : ∀ net, incoming (client.stop net) = incoming net
  available_pos : ∀ net, incoming net ≠ [] → 0 < (client.available net).1
  readBytes : ∀ count net, count ≤ (incoming net).length →
    (client.readBytes count net).1 = (incoming net).take count ∧
      incoming (client.readBytes count net).2 = (incoming net).drop count

theorem serves_scripted : Serves scripted Scripted.incoming where
  connected _ := rfl
  available _ := rfl
  write _ _ := rfl
  millis _ := rfl
  digitalRead _ _ := rfl
  analogRead _ _ := rfl
  stop _ := rfl
  available_pos _ h := List.length_pos_iff.mpr h
  readBytes _ _ _ := ⟨rfl, rfl⟩

variable {client sketch} {incoming : Net → List (BitVec 8)} {s t : Session Net App}

/-- A step that leaves the stream and the sketch alone. -/
structure Still (incoming : Net → List (BitVec 8)) (s t : Session Net App) : Prop where
  incoming : incoming t.conn.net = incoming s.conn.net
  app : t.app = s.app

theorem Still.trans {first second third : Session Net App} (h : Still incoming first second)
    (hlater : Still incoming second third) : Still incoming first third :=
  ⟨hlater.incoming.trans h.incoming, hlater.app.trans h.app⟩

namespace Serves

theorem writeLoop (h : Serves client incoming) (turns : ℕ) (rest : List (BitVec 8))
    (conn : Link Net) :
    incoming (Protocol.writeLoop client turns rest conn).2.net = incoming conn.net := by
  induction turns generalizing rest conn with
  | zero => rfl
  | succ turns ih =>
    rw [Protocol.writeLoop]
    split
    · rfl
    · dsimp only
      split
      · exact h.write _ _
      · exact (ih _ _).trans (h.write _ _)

theorem lost (h : Serves client incoming) (s : Session Net App) :
    Still incoming s (s.lost client) := ⟨h.stop _, rfl⟩

theorem getMillis (h : Serves client incoming) (s : Session Net App) :
    Still incoming s (Protocol.getMillis client s).2 := ⟨h.millis _, rfl⟩

theorem limit (h : Serves client incoming) (s : Session Net App) :
    Still incoming s (Protocol.limit client s) := by
  rw [Protocol.limit]
  dsimp only
  split
  · exact ⟨(h.stop _).trans (h.millis _), rfl⟩
  · exact ⟨h.millis _, rfl⟩

theorem transmit (h : Serves client incoming) (message : Message) (s : Session Net App) :
    Still incoming s (Protocol.transmit client message s) := by
  have hwritten : Still incoming s { s with
      conn := (Protocol.writeLoop client message.encode.length message.encode s.conn).2 } :=
    ⟨h.writeLoop _ _ _, rfl⟩
  rw [Protocol.transmit]
  split
  · exact hwritten.trans (h.limit _)
  · exact hwritten.trans (h.lost _)

theorem linkConnected (h : Serves client incoming) (conn : Link Net) :
    incoming (conn.connected client).2.net = incoming conn.net := by
  rw [Link.connected]
  split
  · exact h.connected _
  · rfl

theorem sendCmd (h : Serves client incoming) (cmd : BitVec 8) (id : BitVec 16) (payload : Payload)
    (s : Session Net App) : Still incoming s (Protocol.sendCmd client cmd id payload s) := by
  have hnumbered : Still incoming s (numberOf id s).2 := by
    rw [numberOf]
    split
    · rw [getNextMsgId]
      split <;> exact ⟨rfl, rfl⟩
    · exact ⟨rfl, rfl⟩
  have hconnected : Still incoming s { (numberOf id s).2 with
      conn := ((numberOf id s).2.conn.connected client).2 } :=
    hnumbered.trans ⟨h.linkConnected _, rfl⟩
  rw [Protocol.sendCmd]
  dsimp only
  split
  · exact hconnected.trans (h.transmit _ _)
  · exact hconnected

theorem reportPin (h : Serves client incoming) {name : String}
    {read : BitVec 8 → Net → BitVec 32 × Net} {pin : BitVec 8}
    (hname : (ascii name).length = 2) (hread : (read pin s.conn.net).1 ≤ 1024)
    (hincoming : incoming (read pin s.conn.net).2 = incoming s.conn.net) :
    ∃ t, Protocol.reportPin client name read pin s = some t ∧ Still incoming s t := by
  obtain ⟨bytes, hreport⟩ := reportPin_eq client name hname hread
  have hstill : Still incoming s { s with
      conn := { s.conn with net := (read pin s.conn.net).2 } } := ⟨hincoming, rfl⟩
  exact ⟨_, hreport, hstill.trans (h.sendCmd _ _ _ _)⟩

end Serves

/-- The result of a step: where the sketch is led to and what is left of the stream, or a step
behind a buffer. -/
def Leads (incoming : Net → List (BitVec 8)) (rest : List (BitVec 8)) (app : Option App)
    (result : Option (Session Net App)) : Prop :=
  match app, result with
  | some app, some t => incoming t.conn.net = rest ∧ t.app = app
  | none, none => True
  | _, _ => False

theorem leads_map (s : Session Net App) (app : Option App) :
    Leads incoming (incoming s.conn.net) app (app.map fun app ↦ { s with app }) := by
  cases app with
  | none => trivial
  | some app => exact ⟨rfl, rfl⟩

theorem Still.leads (h : Still incoming s t) :
    Leads incoming (incoming s.conn.net) (some s.app) (some t) :=
  ⟨h.incoming, h.app⟩

theorem Leads.still {rest : List (BitVec 8)} {app : Option App} {later : Session Net App}
    (h : Leads incoming rest app (some t)) (hstill : Still incoming t later) :
    Leads incoming rest app (some later) := by
  cases app with
  | none => exact h
  | some app => exact ⟨hstill.incoming.trans h.1, hstill.app.trans h.2⟩

theorem Leads.map {rest : List (BitVec 8)} {app : Option App} {result : Option (Session Net App)}
    (h : Leads incoming rest app result) {act : Session Net App → Session Net App}
    (hact : ∀ t, Still incoming t (act t)) : Leads incoming rest app (result.map act) := by
  cases result with
  | none => exact h
  | some t => exact h.still (hact t)

/-- The switch does to the sketch what its strings say. -/
theorem Serves.execute (h : Serves client incoming) {body : List (BitVec 8)}
    (hpin : 2 ≤ reached body) :
    Leads incoming (incoming s.conn.net) (actOn client sketch body s.app)
      (execute client sketch (wordOf body) (pinOf client (pinString body)) (paramOf body)
        (offset (stringsOf body) 1) s) := by
  rw [actOn, if_neg (Nat.not_lt.mpr hpin)]
  by_cases hpm : wordOf body = hardwareCommand "pm"
  · rw [execute_pinModes client sketch hpm hpin, if_pos hpm]
    split
    · trivial
    · exact ⟨rfl, rfl⟩
  by_cases hvw : wordOf body = hardwareCommand "vw"
  · have hdw : wordOf body ≠ hardwareCommand "dw" := fun hword ↦
      absurd (hvw.symm.trans hword) (by decide)
    have haw : wordOf body ≠ hardwareCommand "aw" := fun hword ↦
      absurd (hvw.symm.trans hword) (by decide)
    rw [execute_virtualWrite client sketch hvw hpin, if_neg hpm, if_neg hdw, if_neg haw, if_pos hvw]
    cases sketch.writeHandler (pinOf client (pinString body)) with
    | some handler => exact leads_map s _
    | none => exact ⟨rfl, rfl⟩
  rw [Protocol.execute, if_neg hpm, if_neg hpm]
  by_cases hdr : wordOf body = hardwareCommand "dr"
  · have hdw : wordOf body ≠ hardwareCommand "dw" := fun hword ↦
      absurd (hdr.symm.trans hword) (by decide)
    have haw : wordOf body ≠ hardwareCommand "aw" := fun hword ↦
      absurd (hdr.symm.trans hword) (by decide)
    have hread := BitVec.le_trans (client.digitalRead_le (pinOf client (pinString body)) s.conn.net)
      (show (1 : BitVec 32) ≤ 1024 by decide)
    obtain ⟨t, hreport, hstill⟩ := h.reportPin (show (ascii "dw").length = 2 by decide) hread
      (h.digitalRead _ _)
    rw [if_pos hdr, if_neg hdw, if_neg haw, if_neg hvw, hreport]
    exact hstill.leads
  rw [if_neg hdr]
  by_cases hdw : wordOf body = hardwareCommand "dw"
  · rw [if_pos hdw, if_pos hdw, withValue_eq hpin]
    split <;> exact ⟨rfl, rfl⟩
  rw [if_neg hdw, if_neg hdw]
  by_cases har : wordOf body = hardwareCommand "ar"
  · have haw : wordOf body ≠ hardwareCommand "aw" := fun hword ↦
      absurd (har.symm.trans hword) (by decide)
    have hread := client.analogRead_le (pinOf client (pinString body)) s.conn.net
    obtain ⟨t, hreport, hstill⟩ := h.reportPin (show (ascii "aw").length = 2 by decide) hread
      (h.analogRead _ _)
    rw [if_pos har, if_neg haw, if_neg hvw, hreport]
    exact hstill.leads
  rw [if_neg har]
  by_cases haw : wordOf body = hardwareCommand "aw"
  · rw [if_pos haw, if_pos haw, withValue_eq hpin]
    split <;> exact ⟨rfl, rfl⟩
  rw [if_neg haw, if_neg haw, if_neg hvw, if_neg hvw]
  split
  · exact ⟨rfl, rfl⟩
  · exact (h.sendCmd _ _ _ _).leads

theorem Serves.processCmd (h : Serves client incoming) (body : List (BitVec 8)) :
    Leads incoming (incoming s.conn.net) (actOn client sketch body s.app)
      (Protocol.processCmd client sketch body s) := by
  rcases Nat.lt_or_ge (reached body) 2 with hshort | hpin
  · rw [processCmd_of_reached_lt client sketch hshort, actOn, if_pos hshort]
    exact ⟨rfl, rfl⟩
  · rw [processCmd_eq_execute client sketch hpin]
    exact h.execute hpin

/-! ### One message -/

/-- A message that the library knows, and that fits in its buffer. -/
structure Known (message : Message) : Prop extends Proper message where
  length_le : message.payload.bytes.length ≤ maxReadBytes
  cmd_mem : message.cmd ∈
    [Command.response, Command.login, Command.ping, Command.hardware, Command.bridge]

/-- What a message does to the sketch. -/
def effect (client : Client Net) (sketch : Sketch App) (app : App) (message : Message) :
    Option App :=
  if message.cmd = Command.hardware ∨ message.cmd = Command.bridge
  then actOn client sketch message.payload.bytes app else some app

theorem Serves.sendInfo (h : Serves client incoming) (s : Session Net App) :
    Still incoming s (Protocol.sendInfo client sketch s) := h.sendCmd _ _ _ _

theorem Serves.receiveResponse (h : Serves client incoming) (id code : BitVec 16)
    (s : Session Net App) :
    Still incoming s (Protocol.receiveResponse client sketch id code s).2 := by
  have hlater : Still incoming s { (Protocol.getMillis client s).2 with
      lastActivityIn := (Protocol.getMillis client s).1 } := ⟨h.millis _, rfl⟩
  rw [Protocol.receiveResponse]
  dsimp only
  split
  · split
    · have haccepted : Still incoming s { (Protocol.getMillis client s).2 with
          lastActivityIn := (Protocol.getMillis client s).1
          lastHeartbeat := (Protocol.getMillis client s).1
          state := .connected } := ⟨h.millis _, rfl⟩
      exact haccepted.trans (h.sendInfo _)
    · exact hlater
  · exact hlater

/-- A command with a body does what its strings say. -/
theorem Serves.obey (h : Serves client incoming) {message : Message} (hknown : Known message)
    (hresponse : message.cmd ≠ Command.response) :
    Leads incoming (incoming s.conn.net) (effect client sketch s.app message)
      (Protocol.obey client sketch message.cmd message.id message.payload.bytes s) := by
  rw [Protocol.obey, effect]
  by_cases hcommand : message.cmd = Command.hardware ∨ message.cmd = Command.bridge
  · have hlogin : message.cmd ≠ Command.login := by
      rcases hcommand with heq | heq <;> rw [heq] <;> decide
    have hping : message.cmd ≠ Command.ping := by
      rcases hcommand with heq | heq <;> rw [heq] <;> decide
    rw [if_pos hcommand, if_neg hlogin, if_neg hping, if_pos hcommand]
    refine Leads.map ?_ fun t ↦ ⟨rfl, rfl⟩
    exact h.processCmd (s := { s with currentMsgId := message.id }) _
  · rw [if_neg hcommand]
    by_cases hlogin : message.cmd = Command.login
    · rw [if_pos hlogin]
      have hstate : Still incoming s { s with state := .connected } := ⟨rfl, rfl⟩
      exact (hstate.trans ((h.sendCmd _ _ _ _).trans (h.sendInfo _))).leads
    · have hping : message.cmd = Command.ping := by
        rcases List.mem_cons.mp hknown.cmd_mem with heq | hmem
        · exact absurd heq hresponse
        rcases List.mem_cons.mp hmem with heq | hmem
        · exact absurd heq hlogin
        rcases List.mem_cons.mp hmem with heq | hmem
        · exact heq
        · exact absurd (by simpa using hmem) hcommand
      rw [if_neg hlogin, if_pos hping]
      exact (h.sendCmd _ _ _ _).leads

/-- The bytes of a header. -/
theorem encode_header (message : Message) (rest : List (BitVec 8)) :
    (message.encode ++ rest).take 5 =
        [message.cmd, BitVec.ofNat 8 (message.id.toNat / 256), BitVec.ofNat 8 message.id.toNat,
          BitVec.ofNat 8 (message.payload.length / 256), BitVec.ofNat 8 message.payload.length] ∧
      (message.encode ++ rest).drop 5 = message.payload.bytes ++ rest := ⟨rfl, rfl⟩

theorem payload_length_lt {message : Message} (h : Proper message) :
    message.payload.length < 2 ^ 16 := by
  obtain ⟨cmd, id, payload⟩ := message
  cases payload with
  | status code => exact code.isLt
  | body bytes =>
    have hfits : cmd ≠ Command.response ∧ bytes.length < 2 ^ 16 := h.fits
    exact hfits.2

/-- The header of a message is read, and `processInput` goes on behind it. -/
theorem Serves.readHeader (h : Serves client incoming) (sketch : Sketch App) {message : Message}
    (hproper : Proper message)
    {rest : List (BitVec 8)} (hincoming : incoming s.conn.net = message.encode ++ rest) :
    ∃ t : Session Net App, incoming t.conn.net = message.payload.bytes ++ rest ∧ t.app = s.app ∧
      Protocol.processInput client sketch s =
        if message.cmd = Command.response then
          some (Protocol.receiveResponse client sketch message.id
            (BitVec.ofNat 16 message.payload.length) t)
        else receiveBody client sketch message.cmd message.id message.payload.length t := by
  have hlong : 5 ≤ (incoming s.conn.net).length := by
    rw [hincoming, List.length_append, length_encode]
    omega
  obtain ⟨hheader, hbehind⟩ := h.readBytes 5 s.conn.net hlong
  obtain ⟨htake, hdrop⟩ := encode_header message rest
  rw [hincoming, htake] at hheader
  rw [hincoming, hdrop] at hbehind
  refine ⟨{ s with conn := (s.conn.read client 5).2 }, hbehind, rfl, ?_⟩
  have hread : (s.conn.read client 5).1 = _ := hheader
  have hid : ntohs (BitVec.ofNat 8 (message.id.toNat / 256)) (BitVec.ofNat 8 message.id.toNat) =
      message.id := by
    rw [ntohs_encode message.id.isLt, BitVec.ofNat_toNat, BitVec.setWidth_eq]
  have hlt := payload_length_lt hproper
  rw [Protocol.processInput]
  dsimp only
  rw [hread]
  dsimp only
  rw [hid, if_neg hproper.id_ne, ntohs_encode hlt, BitVec.toNat_ofNat, Nat.mod_eq_of_lt hlt]

/-- The body of a message is read, and obeyed. -/
theorem Serves.readBody (h : Serves client incoming) (sketch : Sketch App) (cmd : BitVec 8)
    (id : BitVec 16)
    {bytes rest : List (BitVec 8)} (hshort : bytes.length ≤ maxReadBytes)
    (hincoming : incoming s.conn.net = bytes ++ rest) :
    ∃ t : Session Net App, incoming t.conn.net = rest ∧ t.app = s.app ∧
      receiveBody client sketch cmd id bytes.length s =
        (Protocol.obey client sketch cmd id bytes t).map (true, ·) := by
  have hlong : bytes.length ≤ (incoming s.conn.net).length := by
    rw [hincoming, List.length_append]
    exact Nat.le_add_right _ _
  obtain ⟨hbody, hbehind⟩ := h.readBytes bytes.length s.conn.net hlong
  rw [hincoming, List.take_left] at hbody
  rw [hincoming, List.drop_left] at hbehind
  have hread : (s.conn.read client bytes.length).1 = bytes := hbody
  refine ⟨{ (Protocol.getMillis client
      { s with conn := (s.conn.read client bytes.length).2 }).2 with
      lastActivityIn := (Protocol.getMillis client
        { s with conn := (s.conn.read client bytes.length).2 }).1 },
    (h.millis _).trans hbehind, rfl, ?_⟩
  rw [receiveBody, if_neg (Nat.not_lt.mpr hshort)]
  dsimp only
  rw [hread, if_neg fun hne ↦ hne rfl]

/-- A message on the stream is read whole, and does what it says. -/
theorem Serves.processInput (h : Serves client incoming) (sketch : Sketch App) {message : Message}
    (hknown : Known message) {rest : List (BitVec 8)}
    (hincoming : incoming s.conn.net = message.encode ++ rest) :
    Leads incoming rest (effect client sketch s.app message)
      ((Protocol.processInput client sketch s).map Prod.snd) := by
  obtain ⟨t, hbehind, happ, hinput⟩ := h.readHeader sketch hknown.toProper hincoming
  rw [hinput, ← happ]
  by_cases hresponse : message.cmd = Command.response
  · have hnone : message.payload.bytes = [] := by
      obtain ⟨cmd, id, payload⟩ := message
      cases payload with
      | status code => rfl
      | body bytes =>
        have hfits : cmd ≠ Command.response ∧ bytes.length < 2 ^ 16 := hknown.fits
        exact absurd hresponse hfits.1
    have hcommand : ¬ (message.cmd = Command.hardware ∨ message.cmd = Command.bridge) := by
      rw [hresponse]
      decide
    rw [hnone, List.nil_append] at hbehind
    rw [if_pos hresponse, effect, if_neg hcommand, ← hbehind]
    exact (h.receiveResponse _ _ t).leads
  · have hlength : message.payload.length = message.payload.bytes.length := by
      obtain ⟨cmd, id, payload⟩ := message
      cases payload with
      | status code => exact absurd hknown.fits hresponse
      | body bytes => rfl
    obtain ⟨after, hleft, hsame, hbody⟩ := h.readBody sketch message.cmd message.id
      hknown.length_le hbehind
    rw [if_neg hresponse, hlength, hbody, Option.map_map, ← hsame, ← hleft]
    exact (h.obey hknown hresponse).map fun t ↦ ⟨rfl, rfl⟩

/-! ### Calls of `run` -/

/-- Behind a message `run` does not connect again, even if the session has been lost. -/
theorem Serves.maintain (h : Serves client incoming) (s : Session Net App) :
    Still incoming s (Protocol.maintain client sketch true s).2 := by
  have hlater := h.getMillis s
  rw [Protocol.maintain]
  dsimp only
  split
  · split
    · exact ⟨hlater.incoming, rfl⟩
    split
    · exact hlater.trans (h.lost _)
    split
    · have hsent := h.sendCmd Command.ping 0 (.body []) (Protocol.getMillis client s).2
      exact ⟨hsent.incoming.trans hlater.incoming, hsent.app.trans hlater.app⟩
    · exact hlater
  · split
    · exact hlater.trans (h.lost _)
    · exact hlater
  · exact hlater

/-- The session is connected, and the connection holds. -/
structure Up (client : Client Net) (s : Session Net App) : Prop where
  state : s.state = .connected
  connected : (s.conn.connected client).1 = true

/-- Calls of `run`, one behind the other. -/
def runs (client : Client Net) (sketch : Sketch App) : ℕ → Session Net App →
    Option (Session Net App)
  | 0, s => some s
  | count + 1, s =>
    (runs client sketch count s).bind fun t ↦ (run client sketch false t).map Prod.snd

/-- One call of `run` takes one message from the stream. -/
theorem Serves.run (h : Serves client incoming) (sketch : Sketch App) {message : Message}
    (hknown : Known message)
    {rest : List (BitVec 8)} (hincoming : incoming s.conn.net = message.encode ++ rest)
    (hup : Up client s) :
    Leads incoming rest (effect client sketch s.app message)
      ((Protocol.run client sketch false s).map Prod.snd) := by
  have hdisconnected : s.state ≠ .disconnected := by
    rw [hup.state]
    decide
  have hconnected : incoming (s.conn.connected client).2.net = message.encode ++ rest :=
    (h.linkConnected _).trans hincoming
  have hpos : 0 < (client.available (s.conn.connected client).2.net).1 := by
    refine h.available_pos _ fun hnil ↦ ?_
    rw [hconnected] at hnil
    exact absurd (List.append_eq_nil_iff.mp hnil).1 (List.cons_ne_nil _ _)
  have hpending : pending client false { s with conn := (s.conn.connected client).2 } =
      (true, { s with conn := ((s.conn.connected client).2.available client).2 }) := by
    rw [pending, if_neg Bool.false_ne_true]
    exact Prod.ext (decide_eq_true hpos) rfl
  have hinput := h.processInput sketch
    (s := { s with conn := ((s.conn.connected client).2.available client).2 }) hknown
    ((h.available _).trans hconnected)
  rw [Protocol.run, if_neg hdisconnected]
  dsimp only
  rw [hup.connected, if_pos rfl, hpending]
  dsimp only
  rw [if_pos rfl]
  revert hinput
  cases Protocol.processInput client sketch
      { s with conn := ((s.conn.connected client).2.available client).2 } with
  | none => exact id
  | some result =>
    obtain ⟨good, t⟩ := result
    intro hinput
    rw [Option.map_some, Option.map_some]
    rw [Option.map_some] at hinput
    have hstill : Still incoming t
        (if good = true then Protocol.maintain client sketch true t
          else (false, { t with conn := t.conn.disconnect client })).2 := by
      split
      · exact h.maintain t
      · exact ⟨h.stop _, rfl⟩
    exact hinput.still hstill

/-- While the connection holds, the calls of `run` take the messages one by one, and the sketch
gets to where these lead. -/
theorem runs_app (h : Serves client incoming) {messages : List Message}
    (hknown : ∀ message ∈ messages, Known message)
    (hincoming : incoming s.conn.net = messages.flatMap Message.encode) {count : ℕ}
    (hcount : count ≤ messages.length)
    (hup : ∀ earlier < count, ∀ t, runs client sketch earlier s = some t → Up client t) :
    Leads incoming ((messages.drop count).flatMap Message.encode)
      ((messages.take count).foldlM (effect client sketch) s.app) (runs client sketch count s) := by
  induction count with
  | zero => exact ⟨hincoming, rfl⟩
  | succ count ih =>
    have hbefore := ih (Nat.le_of_succ_le hcount) fun earlier hearlier ↦
      hup earlier (Nat.lt_succ_of_lt hearlier)
    have hmessage : messages[count]? = some messages[count] := List.getElem?_eq_getElem hcount
    rw [List.take_add_one, hmessage, Option.toList_some, List.foldlM_append, runs]
    revert hbefore
    cases hruns : runs client sketch count s with
    | none =>
      cases (messages.take count).foldlM (effect client sketch) s.app with
      | none => exact id
      | some app => exact False.elim
    | some t =>
      cases (messages.take count).foldlM (effect client sketch) s.app with
      | none => exact False.elim
      | some app =>
        rintro ⟨hleft, rfl⟩
        rw [List.drop_eq_getElem_cons hcount, List.flatMap_cons] at hleft
        have hrun := h.run sketch (hknown _ (List.getElem_mem hcount)) hleft
          (hup count (Nat.lt_succ_self _) t hruns)
        have hlast : List.foldlM (effect client sketch) t.app [messages[count]] =
            effect client sketch t.app messages[count] := by
          rw [List.foldlM_cons]
          exact bind_pure _
        rw [Option.bind_some]
        change Leads incoming _ (List.foldlM (effect client sketch) t.app [messages[count]]) _
        rw [hlast]
        exact hrun

end Sketchbook.Blynk.ReceivedCommands
