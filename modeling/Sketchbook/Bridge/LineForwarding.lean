import Mathlib.Data.BitVec
import Mathlib.Data.List.Infix
import Sketchbook.Arduino.Text
import Sketchbook.Foundation.Delimited

/-!
# The bridge between Bluetooth and TCP

BToth_TCP_client passes what it reads from its Bluetooth port to a TCP server and writes the reply
back, line by line: it reads up to a carriage return, prints the line to Serial, copies it into
`buf` and writes `buf` to the port. The reply is the characters that the client has when `loop`
starts to read it and those that come before a read of it times out.

The bound of the copy is `sizeof(line)`, which is the size of the String object and neither that of
`buf` nor the length of the line. `forwards_iff` says which replies are forwarded unchanged: those
whose lines are all shorter than a String object is wide and hold no NUL. `loop_of_received` says
what the port gets of any reply, and that Serial gets it unchanged. `forwardLines_buf` says that the
copies stay in `buf` as long as a String object is not wider than the buffer.
-/

set_option autoImplicit false
set_option relaxedAutoImplicit false

namespace Sketchbook.Bridge.LineForwarding

open Arduino.Text Foundation.Delimited

/-! ### The sketch -/

/-- What the sketch takes from the Arduino core: the size of a String object. -/
structure ArduinoCore where
  sizeofString : ℕ
  sizeofString_pos : 0 < sizeofString

/-- A String object of the ESP8266 core is three words wide. -/
def esp8266 : ArduinoCore := ⟨12, by decide⟩

/-- `String::toCharArray(buf, bufsize)`: at most `bufsize - 1` characters and a NUL, over the memory
from the first cell of the buffer on. -/
def toCharArray (text : List Char) (bufsize : ℕ) (memory : List Char) : List Char :=
  if bufsize = 0 then memory
  else
    let cells := text.take (bufsize - 1) ++ [nul]
    cells ++ memory.drop cells.length

/-- `Stream::readStringUntil(terminator)` on the characters that are still to be read: the String,
and what is left. -/
def readStringUntil (terminator : Char) (unread : List Char) : List Char × List Char :=
  readUntil terminator unread

/-- The sketch between two statements: the memory from the first cell of `buf` on, and what has been
printed to Serial, sent to the server and written to `BTport`. -/
structure BridgeState where
  buf : List Char
  serial : List Char
  sent : List Char
  written : List Char

/-- `setup` leaves `buf`, a global, as 28 cells with NUL. -/
def bufSize : ℕ := 28

/-- A turn of the loop that waits for the reply: whether `client.available()` finds something, and
the value of `millis()` if it does not. -/
structure Poll where
  available : Bool
  millis : BitVec 32

/-- What happens around a call of `loop`: the characters that come from `BTport`, whether the server
accepts the connection, the time at which the waiting starts and its turns, and the reply. -/
structure Exchange where
  request : List Char
  connected : Bool
  timeout : BitVec 32
  polls : List Poll
  reply : List Char

/-- The loop `while (client.available() == 0)`: whether it ends with a reply, `none` while it is
still waiting. -/
def awaitReply (timeout : BitVec 32) : List Poll → Option Bool
  | [] => none
  | poll :: polls =>
    if poll.available then some true
    else if poll.millis - timeout > 5000 then some false
    else awaitReply timeout polls

/-- `println`, with the end of line that it adds. -/
def println (text : List Char) : List Char := text ++ ['\r', '\n']

/-- What the loop over the reply does with a line. -/
def forwardLine (core : ArduinoCore) (line : List Char) (s : BridgeState) : BridgeState :=
  let s := { s with serial := s.serial ++ line }
  let s := { s with buf := toCharArray line core.sizeofString s.buf }
  { s with written := s.written ++ cString s.buf }

/-- The loop `while (client.available())`. -/
def forwardLines (core : ArduinoCore) (unread : List Char) (s : BridgeState) : BridgeState :=
  if unread = [] then s
  else
    let read := readStringUntil '\r' unread
    forwardLines core read.2 (forwardLine core read.1 s)
termination_by unread.length
decreasing_by exact length_readUntil_lt '\r' ‹_›

/-- `loop`, `none` while it waits for the reply. -/
def loop (core : ArduinoCore) (exchange : Exchange) (s : BridgeState) : Option BridgeState :=
  if exchange.request = [] then some s
  else if exchange.connected = false then
    some { s with serial := s.serial ++ println "connection failed".toList }
  else
    let s := { s with sent := s.sent ++ exchange.request }
    match awaitReply exchange.timeout exchange.polls with
    | none => none
    | some false => some { s with serial := s.serial ++ println ">>> Client Timeout !".toList }
    | some true =>
      let s := forwardLines core exchange.reply s
      some { s with
        serial := s.serial ++ println [] ++ println exchange.request ++
          println (Nat.toDigits 10 exchange.request.length) }

/-! ### A line -/

/-- What the port gets of a line. -/
def forwarded (core : ArduinoCore) (line : List Char) : List Char :=
  cString (line.take (core.sizeofString - 1))

variable {core : ArduinoCore}

/-- The copy in `buf` ends with a NUL, whatever the buffer held before. -/
theorem cString_toCharArray (core : ArduinoCore) (line memory : List Char) :
    cString (toCharArray line core.sizeofString memory) = forwarded core line := by
  rw [toCharArray, if_neg (Nat.ne_of_gt core.sizeofString_pos), List.append_assoc]
  exact cString_append_nul _ _

/-- The copy stays in the first cells, as many as a String object has bytes. -/
theorem drop_toCharArray (text memory : List Char) (bufsize : ℕ) :
    (toCharArray text bufsize memory).drop bufsize = memory.drop bufsize := by
  unfold toCharArray
  split_ifs with hsize
  · rfl
  · have hlength : (text.take (bufsize - 1) ++ [nul]).length ≤ bufsize := by
      rw [List.length_append, List.length_take, List.length_singleton]
      omega
    rw [List.drop_append, List.drop_eq_nil_of_le hlength, List.nil_append, List.drop_drop,
      Nat.add_sub_cancel' hlength]

theorem isPrefix_forwarded (core : ArduinoCore) (line : List Char) : forwarded core line <+: line :=
  (isPrefix_cString _).trans (List.take_prefix _ _)

/-- A line gets through whole exactly when it is shorter than a String object is wide and holds no
NUL. -/
theorem forwarded_eq_self_iff (line : List Char) :
    forwarded core line = line ↔ line.length < core.sizeofString ∧ nul ∉ line := by
  have hpos := core.sizeofString_pos
  constructor
  · intro heq
    have hle := (isPrefix_cString (line.take (core.sizeofString - 1))).length_le
    rw [← forwarded, heq, List.length_take] at hle
    have hwhole : line.take (core.sizeofString - 1) = line := List.take_of_length_le (by omega)
    rw [forwarded, hwhole, cString_eq_self_iff] at heq
    exact ⟨by omega, heq⟩
  · rintro ⟨hlength, hnul⟩
    rw [forwarded, List.take_of_length_le (by omega), cString_eq_self hnul]

/-! ### The loop over the lines -/

theorem forwardLine_written (core : ArduinoCore) (line : List Char) (s : BridgeState) :
    (forwardLine core line s).written = s.written ++ forwarded core line :=
  congrArg (s.written ++ ·) (cString_toCharArray core line s.buf)

/-- The port gets of every line what `buf` takes of it. -/
theorem forwardLines_written (core : ArduinoCore) (unread : List Char) (s : BridgeState) :
    (forwardLines core unread s).written =
      s.written ++ (unread.splitOn '\r').flatMap (forwarded core) := by
  have hnil : forwarded core [] = [] := by simp [forwarded, cString]
  fun_induction forwardLines core unread s with
  | case1 s => simp [hnil]
  | case2 unread s h read ih =>
    rw [ih, forwardLine_written, flatMap_splitOn hnil '\r' unread, List.append_assoc]
    rfl

/-- Serial gets every line whole. -/
theorem forwardLines_serial (core : ArduinoCore) (unread : List Char) (s : BridgeState) :
    (forwardLines core unread s).serial = s.serial ++ unread.filter (· ≠ '\r') := by
  rw [← flatten_splitOn, ← List.flatMap_id]
  fun_induction forwardLines core unread s with
  | case1 s => simp
  | case2 unread s h read ih =>
    rw [ih, flatMap_splitOn (f := id) rfl '\r' unread, ← List.append_assoc]
    rfl

theorem forwardLines_sent (core : ArduinoCore) (unread : List Char) (s : BridgeState) :
    (forwardLines core unread s).sent = s.sent := by
  fun_induction forwardLines core unread s with
  | case1 s => rfl
  | case2 unread s h read ih => exact ih

/-- No cell of `buf` is written behind as many as a String object has bytes. -/
theorem forwardLines_buf (core : ArduinoCore) (unread : List Char) (s : BridgeState) :
    (forwardLines core unread s).buf.drop core.sizeofString = s.buf.drop core.sizeofString := by
  fun_induction forwardLines core unread s with
  | case1 s => rfl
  | case2 unread s h read ih => exact ih.trans (drop_toCharArray _ _ _)

/-! ### A reply in time -/

/-- A request gets a reply in time: the server accepts the connection, and the waiting ends before
its 5000 ms are over. -/
structure ReceivedInTime (exchange : Exchange) : Prop where
  requested : exchange.request ≠ []
  accepted : exchange.connected = true
  arrives : ∃ waits poll later, exchange.polls = waits ++ poll :: later ∧ poll.available = true ∧
    ∀ wait ∈ waits, wait.available = false ∧ wait.millis - exchange.timeout ≤ 5000

/-- Turns before the reply do not end the waiting. -/
theorem awaitReply_of_arrives {timeout : BitVec 32} {waits : List Poll} {poll : Poll}
    (havailable : poll.available = true)
    (hwaits : ∀ wait ∈ waits, wait.available = false ∧ wait.millis - timeout ≤ 5000)
    (later : List Poll) :
    awaitReply timeout (waits ++ poll :: later) = some true := by
  induction waits with
  | nil => rw [List.nil_append, awaitReply, if_pos havailable]
  | cons wait waits ih =>
    obtain ⟨⟨hnone, hmillis⟩, hlater⟩ := List.forall_mem_cons.mp hwaits
    rw [List.cons_append, awaitReply, hnone, if_neg Bool.false_ne_true,
      if_neg (BitVec.not_lt.mpr hmillis)]
    exact ih hlater

/-- `loop` sends the request and writes the lines of the reply. -/
theorem loop_of_received {exchange : Exchange} (h : ReceivedInTime exchange) (core : ArduinoCore)
    (s : BridgeState) :
    ∃ next, loop core exchange s = some next ∧ next.sent = s.sent ++ exchange.request ∧
      next.written = s.written ++ (exchange.reply.splitOn '\r').flatMap (forwarded core) ∧
      next.serial = s.serial ++ exchange.reply.filter (· ≠ '\r') ++ println [] ++
        println exchange.request ++ println (Nat.toDigits 10 exchange.request.length) := by
  obtain ⟨waits, poll, later, hpolls, havailable, hwaits⟩ := h.arrives
  have hawait := awaitReply_of_arrives havailable hwaits later
  rw [← hpolls] at hawait
  have haccepted : ¬ exchange.connected = false := by
    rw [h.accepted]
    exact Bool.false_ne_true.symm
  rw [loop, if_neg h.requested, if_neg haccepted, hawait]
  refine ⟨_, rfl, forwardLines_sent _ _ _, forwardLines_written _ _ _, ?_⟩
  rw [forwardLines_serial]

/-- The reply is forwarded unchanged: `loop` writes it to the port without its carriage returns. -/
def Forwards (core : ArduinoCore) (exchange : Exchange) (s : BridgeState) : Prop :=
  ∃ next, loop core exchange s = some next ∧
    next.written = s.written ++ exchange.reply.filter (· ≠ '\r')

/-- A reply is forwarded unchanged exactly when all of its lines are shorter than a String object is
wide and hold no NUL. -/
theorem forwards_iff {exchange : Exchange} (h : ReceivedInTime exchange) (core : ArduinoCore)
    (s : BridgeState) :
    Forwards core exchange s ↔
      ∀ line ∈ exchange.reply.splitOn '\r', line.length < core.sizeofString ∧ nul ∉ line := by
  obtain ⟨next, hloop, -, hwritten, -⟩ := loop_of_received h core s
  have hforwards : Forwards core exchange s ↔
      (exchange.reply.splitOn '\r').flatMap (forwarded core) =
        (exchange.reply.splitOn '\r').flatten := by
    rw [Forwards, hloop, flatten_splitOn]
    constructor
    · rintro ⟨last, hlast, heq⟩
      obtain rfl := Option.some.inj hlast
      exact List.append_cancel_left (hwritten.symm.trans heq)
    · intro heq
      exact ⟨next, rfl, hwritten.trans (congrArg (s.written ++ ·) heq)⟩
  rw [hforwards, flatMap_eq_flatten_iff (isPrefix_forwarded core)]
  simp only [forwarded_eq_self_iff]

/-! ### A reply of three lines and a line that is too long -/

/-- The bridge behind `setup`. -/
def afterSetup : BridgeState := ⟨List.replicate bufSize nul, [], [], []⟩

/-- A request that finds its reply at the first turn of the waiting. -/
def answeredAtOnce (reply : List Char) : Exchange :=
  ⟨"light".toList, true, 0, [⟨true, 0⟩], reply⟩

theorem receivedInTime_answeredAtOnce (reply : List Char) :
    ReceivedInTime (answeredAtOnce reply) := by
  refine ⟨List.cons_ne_nil _ _, rfl, [], ⟨true, 0⟩, [], rfl, rfl, ?_⟩
  exact fun wait hmem ↦ absurd hmem List.not_mem_nil

theorem lightIsOn_forwards :
    Forwards esp8266 (answeredAtOnce "light is on\r\nlock open\r\ndone".toList) afterSetup :=
  (forwards_iff (receivedInTime_answeredAtOnce _) esp8266 afterSetup).mpr (by decide)

/-- One character more than `buf` takes of a line. -/
theorem not_forall_forwards :
    ¬ ∀ (exchange : Exchange) (s : BridgeState),
      ReceivedInTime exchange → Forwards esp8266 exchange s := by
  intro hforwards
  obtain ⟨next, hloop, -, hwritten, -⟩ :=
    loop_of_received (receivedInTime_answeredAtOnce "light is off".toList) esp8266 afterSetup
  obtain ⟨last, hlast, heq⟩ :=
    hforwards _ afterSetup (receivedInTime_answeredAtOnce "light is off".toList)
  obtain rfl := Option.some.inj (hloop.symm.trans hlast)
  rw [hwritten] at heq
  exact absurd (List.append_cancel_left heq) (by decide)

end Sketchbook.Bridge.LineForwarding
