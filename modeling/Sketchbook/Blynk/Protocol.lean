import Sketchbook.Foundation.BigEndian
import Sketchbook.Blynk.Parameters

/-!
# The Blynk protocol on the ESP8266

A message is a header of five bytes, the command, the number of the message and a length, and a body
of that length. A response has no body, and its length is a status code. `sendCmd` writes a message,
`processInput` reads one and obeys it, and `run` does this once, keeps the connection alive or makes
it again. `processCmd` obeys a command for the hardware, whose body are strings.

`Client` is what the library uses of the core: the TCP client, the clock and the inputs of the
board. `Link` is the transport over it. A `Sketch` gives the token, the text that describes the
device, and the handlers of `BLYNK_WRITE`, which act on what the sketch knows and do not call the
library themselves. The handlers of `BLYNK_READ` and `BLYNK_CONNECTED` are the ones of the library,
which do nothing but log. Reading behind a buffer is `none`.
-/

set_option autoImplicit false
set_option relaxedAutoImplicit false

namespace Sketchbook.Blynk.Protocol

open Parameters

/-! ### Messages -/

namespace Command

def response : BitVec 8 := 0

def login : BitVec 8 := 2

def ping : BitVec 8 := 6

def bridge : BitVec 8 := 15

def hardwareSync : BitVec 8 := 16

def hardwareInfo : BitVec 8 := 17

def hardware : BitVec 8 := 20

end Command

namespace Status

def success : BitVec 16 := 200

def illegalCommand : BitVec 16 := 2

def notAuthenticated : BitVec 16 := 5

def alreadyLoggedIn : BitVec 16 := 11

end Status

/-- What `sendCmd` is given besides the command: no data and a number in place of the length, or
data. -/
inductive Payload
  | status (code : BitVec 16)
  | body (bytes : List (BitVec 8))

def Payload.length : Payload → ℕ
  | .status code => code.toNat
  | .body bytes => bytes.length

def Payload.bytes : Payload → List (BitVec 8)
  | .status _ => []
  | .body bytes => bytes

structure Message where
  cmd : BitVec 8
  id : BitVec 16
  payload : Payload

/-- The bytes of a message, with `htons` for the fields of the header. -/
def Message.encode (message : Message) : List (BitVec 8) :=
  message.cmd :: (Foundation.BigEndian.encode 2 message.id.toNat ++
    (Foundation.BigEndian.encode 2 message.payload.length ++ message.payload.bytes))

/-- `ntohs` of two bytes of the header. -/
def ntohs (high low : BitVec 8) : BitVec 16 :=
  BitVec.ofNat 16 (Foundation.BigEndian.decode [high, low])

/-! ### The connection -/

/-- What the library uses of the core. -/
structure Client (Net : Type*) where
  connect : Net → Bool × Net
  stop : Net → Net
  connected : Net → Bool × Net
  available : Net → ℕ × Net
  readBytes : ℕ → Net → List (BitVec 8) × Net
  write : List (BitVec 8) → Net → ℕ × Net
  millis : Net → BitVec 32 × Net
  digitalRead : BitVec 8 → Net → BitVec 32 × Net
  analogRead : BitVec 8 → Net → BitVec 32 × Net
  analogInputToDigitalPin : BitVec 32 → BitVec 8
  digitalRead_le : ∀ pin net, (digitalRead pin net).1 ≤ 1
  analogRead_le : ∀ pin net, (analogRead pin net).1 ≤ 1024
  readBytes_le : ∀ count net, (readBytes count net).1.length ≤ count
  write_le : ∀ bytes net, (write bytes net).1 ≤ bytes.length

/-- The state of `BlynkArduinoClientGen`. -/
structure Link (Net : Type*) where
  isConn : Bool
  net : Net

variable {Net App : Type*} (client : Client Net)

namespace Link

def connect (conn : Link Net) : Bool × Link Net :=
  let result := client.connect conn.net
  (result.1, ⟨result.1, result.2⟩)

def disconnect (conn : Link Net) : Link Net := ⟨false, client.stop conn.net⟩

def connected (conn : Link Net) : Bool × Link Net :=
  if conn.isConn then
    let result := client.connected conn.net
    (result.1, { conn with net := result.2 })
  else (false, conn)

def available (conn : Link Net) : ℕ × Link Net :=
  let result := client.available conn.net
  (result.1, { conn with net := result.2 })

def read (count : ℕ) (conn : Link Net) : List (BitVec 8) × Link Net :=
  let result := client.readBytes count conn.net
  (result.1, { conn with net := result.2 })

def write (bytes : List (BitVec 8)) (conn : Link Net) : ℕ × Link Net :=
  let result := client.write bytes conn.net
  (result.1, { conn with net := result.2 })

end Link

/-! ### The session -/

inductive BlynkState
  | connecting
  | connected
  | disconnected
deriving DecidableEq

inductive PinMode
  | input
  | output
  | inputPullup
deriving DecidableEq

/-- What a sketch gives the library. `App` is what its handlers and the pins act on: a handler gets
no session, so it sends nothing. -/
structure Sketch (App : Type*) where
  authkey : List (BitVec 8)
  profile : List (BitVec 8)
  writeHandler : BitVec 8 → Option (Param → App → Option App)
  pinMode : BitVec 8 → PinMode → App → App
  digitalWrite : BitVec 8 → Bool → App → App
  analogWrite : BitVec 8 → BitVec 32 → App → App
  authkey_lt : authkey.length < 2 ^ 16
  profile_lt : profile.length < 2 ^ 16

/-- The state of `BlynkProtocol`. The last login shares its place with the last heartbeat, and
`lastMsgId` is the static variable of `getNextMsgId`. -/
structure Session (Net App : Type*) where
  lastActivityIn : BitVec 32
  lastActivityOut : BitVec 32
  lastHeartbeat : BitVec 32
  deltaCmd : BitVec 32
  currentMsgId : BitVec 16
  lastMsgId : BitVec 16
  state : BlynkState
  conn : Link Net
  app : App

def heartbeatMs : BitVec 32 := 10000

def timeoutMs : BitVec 32 := 2000

def maxReadBytes : ℕ := 256

def sendChunk : ℕ := 1024

/-- The least average time between messages, `1000/BLYNK_MSG_LIMIT`. -/
def leastDelta : BitVec 32 := 50

/-- `BlynkAverageSample<32>`. -/
def averageSample (average input : BitVec 32) : BitVec 32 :=
  average - average / 32 + (if 0 < input / 32 then input / 32 else -1)

def getMillis (s : Session Net App) : BitVec 32 × Session Net App :=
  let result := client.millis s.conn.net
  (result.1, { s with conn := { s.conn with net := result.2 } })

/-- `conn.disconnect()` and `state = CONNECTING`. -/
def Session.lost (s : Session Net App) : Session Net App :=
  { s with conn := s.conn.disconnect client, state := .connecting }

/-- `conn.connect()`, with its result left out of account. -/
def Session.reconnect (s : Session Net App) : Session Net App :=
  { s with conn := (s.conn.connect client).2 }

def getNextMsgId (s : Session Net App) : BitVec 16 × Session Net App :=
  if s.currentMsgId ≠ 0 then (s.currentMsgId, s)
  else
    let last := if s.lastMsgId + 1 = 0 then 1 else s.lastMsgId + 1
    (last, { s with lastMsgId := last })

/-! ### Sending -/

/-- The loop that writes a message in parts, which answers whether all of it has been written. -/
def writeLoop : ℕ → List (BitVec 8) → Link Net → Bool × Link Net
  | 0, rest, conn => (rest.isEmpty, conn)
  | turns + 1, rest, conn =>
    if rest = [] then (true, conn)
    else
      let result := conn.write client (rest.take sendChunk)
      if result.1 = 0 then (false, result.2) else writeLoop turns (rest.drop result.1) result.2

/-- The end of `sendCmd`, which keeps the average of the times between messages. -/
def limit (s : Session Net App) : Session Net App :=
  let ts := getMillis client s
  let s := { ts.2 with
    deltaCmd := averageSample ts.2.deltaCmd (ts.1 - ts.2.lastActivityOut)
    lastActivityOut := ts.1 }
  if s.deltaCmd < leastDelta then s.lost client else s

/-- `sendCmd` behind the tests. -/
def transmit (message : Message) (s : Session Net App) : Session Net App :=
  let result := writeLoop client message.encode.length message.encode s.conn
  let s := { s with conn := result.2 }
  if result.1 then limit client s else s.lost client

/-- The commands that are sent before the login. -/
def unguarded (cmd : BitVec 8) : Bool :=
  cmd = Command.response || cmd = Command.ping || cmd = Command.login

/-- The number of a message, which is the next one if none is given. -/
def numberOf (id : BitVec 16) (s : Session Net App) : BitVec 16 × Session Net App :=
  if id = 0 then getNextMsgId s else (id, s)

def sendCmd (cmd : BitVec 8) (id : BitVec 16) (payload : Payload) (s : Session Net App) :
    Session Net App :=
  let numbered := numberOf id s
  let s := numbered.2
  let tconn := s.conn.connected client
  let s := { s with conn := tconn.2 }
  if tconn.1 && (unguarded cmd || s.state = .connected)
  then transmit client ⟨cmd, numbered.1, payload⟩ s else s

variable (sketch : Sketch App)

def sendInfo (s : Session Net App) : Session Net App :=
  sendCmd client Command.hardwareInfo 0 (.body sketch.profile) s

/-- Sends the strings of a parameter, without the last NUL. -/
def sendStrings (cmd : BitVec 8) (size : ℕ) (data : List Data) (s : Session Net App) :
    Option (Session Net App) :=
  (build size data).bind fun builder ↦
    (builder.bytes (builder.len - 1)).map fun bytes ↦ sendCmd client cmd 0 (.body bytes) s

/-- `virtualWrite` of one value or more. -/
def virtualWrite (pin : BitVec 32) (values : List Data) (s : Session Net App) :
    Option (Session Net App) :=
  sendStrings client Command.hardware 128 (.text (ascii "vw") :: .number pin :: values) s

def syncVirtual (pin : BitVec 32) (s : Session Net App) : Option (Session Net App) :=
  sendStrings client Command.hardwareSync 8 [.text (ascii "vr"), .number pin] s

def syncAll (s : Session Net App) : Session Net App :=
  sendCmd client Command.hardwareSync 0 (.body []) s

/-! ### Commands for the hardware -/

/-- The first two bytes of a command, `cmd16`. -/
def hardwareWord (first second : BitVec 8) : BitVec 16 :=
  first.setWidth 16 ||| second.setWidth 16 <<< 8

/-- `BLYNK_HW_PM` and the others. -/
def hardwareCommand (characters : String) : BitVec 16 :=
  hardwareWord ((ascii characters).getD 0 0) ((ascii characters).getD 1 0)

/-- A pin is a number, or the name of an analog input. -/
def pinOf (name : List (BitVec 8)) : BitVec 8 :=
  if name.head? = some 65 then client.analogInputToDigitalPin (atoi name.tail)
  else (atoi name).setWidth 8

def modeOf (name : List (BitVec 8)) : Option PinMode :=
  if name = ascii "in" then some .input
  else if name = ascii "out" ∨ name = ascii "pwm" then some .output
  else if name = ascii "pu" then some .inputPullup
  else none

/-- The loop of the command `pm` over its strings. -/
def pinModes (param : Param) (pin : BitVec 8) : ℕ → ℕ → App → Option App
  | 0, _, app => some app
  | turns + 1, iterator, app =>
    if iterator < param.last then
      (param.succ iterator).bind fun iterator ↦
        (param.str iterator).bind fun name ↦
          (param.succ iterator).bind fun iterator ↦
            pinModes param pin turns iterator
              (match modeOf name with
                | some mode => sketch.pinMode pin mode app
                | none => app)
    else some app

/-- The commands `dr` and `ar`, which send what is read from a pin. -/
def reportPin (name : String) (read : BitVec 8 → Net → BitVec 32 × Net) (pin : BitVec 8)
    (s : Session Net App) : Option (Session Net App) :=
  let result := read pin s.conn.net
  sendStrings client Command.hardware 16
    [.text (ascii name), .number (pin.setWidth 32), .number result.1]
    { s with conn := { s.conn with net := result.2 } }

/-- A command with one value, which does nothing without it. -/
def withValue (param : Param) (iterator : ℕ) (s : Session Net App)
    (act : BitVec 32 → Session Net App) : Option (Session Net App) :=
  (param.succ iterator).bind fun iterator ↦
    if param.last ≤ iterator then some s else (param.int iterator).map act

/-- The switch of `processCmd`, with the iterator at the string of the pin. The command `vr` finds
the default handler. -/
def execute (cmd16 : BitVec 16) (pin : BitVec 8) (param : Param) (iterator : ℕ)
    (s : Session Net App) : Option (Session Net App) :=
  if cmd16 = hardwareCommand "pm" then
    (pinModes sketch param pin param.last iterator s.app).map fun app ↦ { s with app }
  else if cmd16 = hardwareCommand "dr" then reportPin client "dw" client.digitalRead pin s
  else if cmd16 = hardwareCommand "dw" then
    withValue param iterator s fun value ↦
      let app := sketch.pinMode pin .output (sketch.analogWrite pin 0 s.app)
      { s with app := sketch.digitalWrite pin (value ≠ 0) app }
  else if cmd16 = hardwareCommand "ar" then reportPin client "aw" client.analogRead pin s
  else if cmd16 = hardwareCommand "aw" then
    withValue param iterator s fun value ↦
      { s with app := sketch.analogWrite pin value (sketch.pinMode pin .output s.app) }
  else if cmd16 = hardwareCommand "vr" then some s
  else if cmd16 = hardwareCommand "vw" then
    (param.succ iterator).bind fun iterator ↦
      match sketch.writeHandler pin with
      | some handler =>
        (handler { param with first := iterator } s.app).map fun app ↦ { s with app }
      | none => some s
  else some (sendCmd client Command.response s.currentMsgId (.status Status.illegalCommand) s)

/-- The parameter of a command, with the NUL that `processInput` puts behind it. -/
def paramOf (body : List (BitVec 8)) : Param := ⟨body ++ [0], 0, body.length⟩

/-- `cmd16` of a command. -/
def wordOf (body : List (BitVec 8)) : BitVec 16 :=
  hardwareWord ((body ++ [0]).getD 0 0) ((body ++ [0]).getD 1 0)

def processCmd (body : List (BitVec 8)) (s : Session Net App) : Option (Session Net App) :=
  let param := paramOf body
  if param.last ≤ param.first then some s
  else
    (param.succ param.first).bind fun iterator ↦
      if param.last ≤ iterator then some s
      else
        (param.str iterator).bind fun name ↦
          execute client sketch (wordOf body) (pinOf client name) param iterator s

/-! ### Receiving -/

/-- A response: the answer to the login, or one to another message. Behind the login
`BlynkOnConnected` is the empty one of the library. -/
def receiveResponse (id code : BitVec 16) (s : Session Net App) : Bool × Session Net App :=
  let now := getMillis client s
  let s : Session Net App := { now.2 with lastActivityIn := now.1 }
  if s.state = .connecting ∧ id = 1 then
    if code = Status.success ∨ code = Status.alreadyLoggedIn then
      (true, sendInfo client sketch
        { s with lastHeartbeat := s.lastActivityIn, state := .connected })
    else (false, s)
  else (code ≠ Status.notAuthenticated, s)

/-- The command of a message with a body. -/
def obey (cmd : BitVec 8) (id : BitVec 16) (body : List (BitVec 8)) (s : Session Net App) :
    Option (Session Net App) :=
  if cmd = Command.login then
    let s := sendCmd client Command.response id (.status Status.success)
      { s with state := .connected }
    some (sendInfo client sketch s)
  else if cmd = Command.ping then
    some (sendCmd client Command.response id (.status Status.success) s)
  else if cmd = Command.hardware ∨ cmd = Command.bridge then
    (processCmd client sketch body { s with currentMsgId := id }).map fun s ↦
      { s with currentMsgId := 0 }
  else some (s.reconnect client)

def receiveBody (cmd : BitVec 8) (id : BitVec 16) (length : ℕ) (s : Session Net App) :
    Option (Bool × Session Net App) :=
  if maxReadBytes < length then some (true, s.reconnect client)
  else
    let input := s.conn.read client length
    let s := { s with conn := input.2 }
    if input.1.length ≠ length then some (false, s)
    else
      let now := getMillis client s
      (obey client sketch cmd id input.1 { now.2 with lastActivityIn := now.1 }).map (true, ·)

def processInput (s : Session Net App) : Option (Bool × Session Net App) :=
  let header := s.conn.read client 5
  let s := { s with conn := header.2 }
  match header.1 with
  | [] => some (true, s)
  | [cmd, idHigh, idLow, lengthHigh, lengthLow] =>
    let id := ntohs idHigh idLow
    let length := ntohs lengthHigh lengthLow
    if id = 0 then some (false, s)
    else if cmd = Command.response then some (receiveResponse client sketch id length s)
    else receiveBody client sketch cmd id length.toNat s
  | _ => some (false, s)

/-! ### The loop -/

/-- The second half of `run`, which looks at the times. -/
def maintain (tconn : Bool) (s : Session Net App) : Bool × Session Net App :=
  let now := getMillis client s
  let t := now.1
  let s := now.2
  match s.state with
  | .connected =>
    if !tconn then (false, { s with state := .connecting, lastHeartbeat := t })
    else if heartbeatMs + timeoutMs * 3 < t - s.lastActivityIn then (false, s.lost client)
    else if (heartbeatMs < t - s.lastActivityIn ∨ heartbeatMs < t - s.lastActivityOut) ∧
        timeoutMs < t - s.lastHeartbeat then
      (true, { sendCmd client Command.ping 0 (.body []) s with lastHeartbeat := t })
    else (true, s)
  | .connecting =>
    if tconn && timeoutMs < t - s.lastHeartbeat then (false, s.lost client)
    else if !tconn && (5000 : BitVec 32) < t - s.lastHeartbeat then
      let s := { s with conn := s.conn.disconnect client }
      let result := s.conn.connect client
      let s := { s with conn := result.2 }
      if result.1 then
        let s := sendCmd client Command.login 1 (.body sketch.authkey) { s with deltaCmd := 1000 }
        (true, { s with lastHeartbeat := s.lastActivityOut })
      else (false, { s with lastHeartbeat := t })
    else (true, s)
  | .disconnected => (true, s)

/-- Whether there is a message to read. -/
def pending (avail : Bool) (s : Session Net App) : Bool × Session Net App :=
  if avail then (true, s)
  else
    let result := s.conn.available client
    (0 < result.1, { s with conn := result.2 })

def run (avail : Bool) (s : Session Net App) : Option (Bool × Session Net App) :=
  if s.state = .disconnected then some (false, s)
  else
    let tconn := s.conn.connected client
    let s := { s with conn := tconn.2 }
    if tconn.1 then
      let input := pending client avail s
      if input.1 then
        (processInput client sketch input.2).map fun result ↦
          if result.1 then maintain client sketch true result.2
          else (false, { result.2 with conn := result.2.conn.disconnect client })
      else some (maintain client sketch true input.2)
    else some (maintain client sketch false s)

/-- The loop of `connect`, which is `none` if the turns do not suffice. -/
def connectLoop (timeout started : BitVec 32) : ℕ → Session Net App → Option (Session Net App)
  | 0, _ => none
  | turns + 1, s =>
    if s.state = .connected then some s
    else
      let now := getMillis client s
      if now.1 - started < timeout then
        (run client sketch false now.2).bind fun result ↦ connectLoop timeout started turns result.2
      else some now.2

def connect (timeout : BitVec 32) (turns : ℕ) (s : Session Net App) : Option (Session Net App) :=
  let s := { s with conn := s.conn.disconnect client, state := .connecting }
  let now := getMillis client s
  connectLoop client sketch timeout now.1 turns now.2

def disconnect (s : Session Net App) : Session Net App :=
  { s with conn := s.conn.disconnect client, state := .disconnected }

def startSession (s : Session Net App) : Session Net App :=
  let s := { s.reconnect client with state := .connecting, deltaCmd := 1000, currentMsgId := 0 }
  let now := getMillis client s
  { now.2 with lastHeartbeat := now.1, lastActivityIn := now.1, lastActivityOut := now.1 }

/-- The session as it is constructed. -/
def powerOn (net : Net) (app : App) : Session Net App where
  lastActivityIn := 0
  lastActivityOut := 0
  lastHeartbeat := 0
  deltaCmd := 0
  currentMsgId := 0
  lastMsgId := 0
  state := .connecting
  conn := ⟨false, net⟩
  app := app

/-! ### A connection that holds -/

/-- What a server still sends, and the readings of the clock. -/
structure Scripted where
  incoming : List (BitVec 8)
  readings : List (BitVec 32)

/-- A connection that comes to stand and takes all that is written. -/
def scripted : Client Scripted where
  connect net := (true, net)
  stop net := net
  connected net := (true, net)
  available net := (net.incoming.length, net)
  readBytes count net := (net.incoming.take count, { net with incoming := net.incoming.drop count })
  write bytes net := (bytes.length, net)
  millis net := (net.readings.headD 0, { net with readings := net.readings.tail })
  digitalRead _ net := (0, net)
  analogRead _ net := (0, net)
  analogInputToDigitalPin _ := 17
  digitalRead_le _ _ := Nat.zero_le _
  analogRead_le _ _ := Nat.zero_le _
  readBytes_le _ _ := List.length_take_le _ _
  write_le _ _ := le_rfl

theorem length_token_lt : (ascii "token").length < 2 ^ 16 := by decide

theorem length_version_lt : (ascii "ver").length < 2 ^ 16 := by decide

/-- A sketch without handlers. -/
def namelessSketch : Sketch Unit where
  authkey := ascii "token"
  profile := ascii "ver"
  writeHandler _ := none
  pinMode _ _ app := app
  digitalWrite _ _ app := app
  analogWrite _ _ app := app
  authkey_lt := length_token_lt
  profile_lt := length_version_lt

end Sketchbook.Blynk.Protocol
