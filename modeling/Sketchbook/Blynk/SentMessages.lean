import Sketchbook.Foundation.TransitionSystem
import Sketchbook.Blynk.CommandStrings

/-!
# What the device sends

`Recorded` is a connection together with what has been written since it was made. In every run of
calls of the library, whatever the connection does, what is written are whole messages with proper
headers, and only a connection that is given up can end in a part of one (`messages_written`).

The record also says whether a login has been accepted since the library last closed a connection,
and what it has written until then. This is nothing but logins and responses
(`messages_before_acceptance`). Closing counts and connecting does not: behind a message that is too
long or has an unknown command, `processInput` connects again without closing, and the session stays
what it is.
-/

set_option autoImplicit false
set_option relaxedAutoImplicit false

namespace Sketchbook.Blynk.SentMessages

open Foundation.TransitionSystem Parameters Protocol CommandStrings

/-! ### Messages as bytes -/

/-- The payload belongs to the command, and its length fits in the header. -/
def Payload.Fits (cmd : BitVec 8) : Payload → Prop
  | .status _ => cmd = Command.response
  | .body bytes => cmd ≠ Command.response ∧ bytes.length < 2 ^ 16

structure Proper (message : Message) : Prop where
  id_ne : message.id ≠ 0
  fits : Payload.Fits message.cmd message.payload

/-- The first message in a sequence of bytes, and what is behind it. -/
def decode : List (BitVec 8) → Option (Message × List (BitVec 8))
  | cmd :: idHigh :: idLow :: lengthHigh :: lengthLow :: rest =>
    let length := ntohs lengthHigh lengthLow
    if cmd = Command.response then some (⟨cmd, ntohs idHigh idLow, .status length⟩, rest)
    else if length.toNat ≤ rest.length then
      some (⟨cmd, ntohs idHigh idLow, .body (rest.take length.toNat)⟩, rest.drop length.toNat)
    else none
  | _ => none

theorem encode_two (number : ℕ) :
    Foundation.BigEndian.encode 2 number =
      [BitVec.ofNat 8 (number / 256), BitVec.ofNat 8 number] := rfl

/-- `ntohs` takes back `htons`. -/
theorem ntohs_encode {number : ℕ} (h : number < 2 ^ 16) :
    ntohs (BitVec.ofNat 8 (number / 256)) (BitVec.ofNat 8 number) = BitVec.ofNat 16 number := by
  rw [ntohs, ← encode_two, Foundation.BigEndian.decode_encode]
  exact congrArg (BitVec.ofNat 16) (Nat.mod_eq_of_lt h)

/-- What `sendCmd` writes is read back, whatever is behind it. -/
theorem decode_encode {message : Message} (h : Proper message) (rest : List (BitVec 8)) :
    decode (message.encode ++ rest) = some (message, rest) := by
  obtain ⟨cmd, id, payload⟩ := message
  have hid : ntohs (BitVec.ofNat 8 (id.toNat / 256)) (BitVec.ofNat 8 id.toNat) = id := by
    rw [ntohs_encode id.isLt, BitVec.ofNat_toNat, BitVec.setWidth_eq]
  rw [Message.encode, encode_two, encode_two]
  cases payload with
  | status code =>
    have hcmd : cmd = Command.response := h.fits
    have hcode : ntohs (BitVec.ofNat 8 (code.toNat / 256)) (BitVec.ofNat 8 code.toNat) = code := by
      rw [ntohs_encode code.isLt, BitVec.ofNat_toNat, BitVec.setWidth_eq]
    change decode (cmd :: _ :: _ :: _ :: _ :: ([] ++ rest)) = _
    rw [decode, if_pos hcmd, List.nil_append]
    change some (Message.mk cmd (ntohs _ _) (.status (ntohs (BitVec.ofNat 8 (code.toNat / 256))
      (BitVec.ofNat 8 code.toNat))), rest) = _
    rw [hid, hcode]
  | body bytes =>
    obtain ⟨hcmd, hlength⟩ : cmd ≠ Command.response ∧ bytes.length < 2 ^ 16 := h.fits
    have hlengths : (ntohs (BitVec.ofNat 8 (bytes.length / 256))
        (BitVec.ofNat 8 bytes.length)).toNat = bytes.length := by
      rw [ntohs_encode hlength, BitVec.toNat_ofNat, Nat.mod_eq_of_lt hlength]
    change decode (cmd :: _ :: _ :: BitVec.ofNat 8 (bytes.length / 256) ::
      BitVec.ofNat 8 bytes.length :: (bytes ++ rest)) = _
    rw [decode, if_neg hcmd]
    dsimp only
    rw [hlengths, hid, List.length_append, if_pos (Nat.le_add_right _ _), List.take_left,
      List.drop_left]

/-- The messages in a sequence of bytes, and what is left of it. -/
def decodeAll : ℕ → List (BitVec 8) → List Message × List (BitVec 8)
  | 0, bytes => ([], bytes)
  | turns + 1, bytes =>
    match decode bytes with
    | some (message, rest) => (message :: (decodeAll turns rest).1, (decodeAll turns rest).2)
    | none => ([], bytes)

theorem length_encode (message : Message) :
    message.encode.length = 5 + message.payload.bytes.length := by
  rw [Message.encode, List.length_cons, List.length_append, List.length_append, encode_two,
    encode_two]
  simp only [List.length_cons, List.length_nil]
  omega

/-- A part of a message is no message. -/
theorem decode_part {message : Message} (h : Proper message) {part : List (BitVec 8)}
    (hpiece : part <+: message.encode) (hlt : part.length < message.encode.length) :
    decode part = none := by
  obtain ⟨missing, hmissing⟩ := hpiece
  cases hdecode : decode part with
  | none => rfl
  | some result =>
    have hwhole := decode_encode h []
    rw [List.append_nil, ← hmissing] at hwhole
    have hlength := congrArg List.length hmissing
    rw [List.length_append] at hlength
    unfold decode at hdecode
    split at hdecode
    · next cmd idHigh idLow lengthHigh lengthLow rest =>
      rw [List.cons_append, List.cons_append, List.cons_append, List.cons_append, List.cons_append,
        decode] at hwhole
      dsimp only at hdecode hwhole
      split at hdecode
      · next hresponse =>
        rw [if_pos hresponse] at hwhole
        have hnil := (Prod.mk.inj (Option.some.inj hwhole)).2
        have hmissingNil := (List.append_eq_nil_iff.mp hnil).2
        rw [hmissingNil, List.length_nil] at hlength
        omega
      · next hother =>
        rw [if_neg hother] at hwhole
        split at hdecode
        · next hfits =>
          rw [List.length_append, if_pos (Nat.le_add_right_of_le hfits)] at hwhole
          have hnil := (Prod.mk.inj (Option.some.inj hwhole)).2
          rw [List.drop_append_of_le_length hfits] at hnil
          have hmissingNil := (List.append_eq_nil_iff.mp hnil).2
          rw [hmissingNil, List.length_nil] at hlength
          omega
        · exact absurd hdecode (Option.some_ne_none _).symm
    · exact absurd hdecode (Option.some_ne_none _).symm

/-- Messages one behind the other are read back, up to a part of one. -/
theorem decodeAll_flatMap {messages : List Message} (h : ∀ message ∈ messages, Proper message)
    {part : List (BitVec 8)} (hpart : decode part = none) (turns : ℕ) :
    decodeAll turns (messages.flatMap Message.encode ++ part) =
      (messages.take turns, (messages.drop turns).flatMap Message.encode ++ part) := by
  induction turns generalizing messages with
  | zero => rfl
  | succ turns ih =>
    cases messages with
    | nil =>
      rw [List.flatMap_nil, List.nil_append, decodeAll, hpart]
      rfl
    | cons message messages =>
      rw [List.flatMap_cons, List.append_assoc, decodeAll, decode_encode (h _ List.mem_cons_self)]
      dsimp only
      rw [ih fun other hmem ↦ h other (List.mem_cons_of_mem _ hmem)]
      rfl

/-! ### The record -/

/-- A header that answers a login well, or that is a login itself. -/
def isAcceptance : List (BitVec 8) → Bool
  | [cmd, idHigh, idLow, lengthHigh, lengthLow] =>
    (cmd = Command.response && ntohs idHigh idLow = 1 &&
        (ntohs lengthHigh lengthLow = Status.success ||
          ntohs lengthHigh lengthLow = Status.alreadyLoggedIn)) ||
      cmd = Command.login
  | _ => false

/-- A connection, what has been written since it was made, whether a login has been accepted since
the last one was closed, and what has been written since then and before the acceptance. -/
structure Recorded (Net : Type*) where
  net : Net
  written : List (BitVec 8)
  accepted : Bool
  before : List (BitVec 8)

variable {Net App : Type*}

/-- The connection with a record of it. -/
def recorded (client : Client Net) : Client (Recorded Net) where
  connect record := ((client.connect record.net).1,
    { record with net := (client.connect record.net).2, written := [] })
  stop record := { record with net := client.stop record.net, accepted := false, before := [] }
  connected record := ((client.connected record.net).1,
    { record with net := (client.connected record.net).2 })
  available record := ((client.available record.net).1,
    { record with net := (client.available record.net).2 })
  readBytes count record := ((client.readBytes count record.net).1,
    { record with
      net := (client.readBytes count record.net).2
      accepted := record.accepted || isAcceptance (client.readBytes count record.net).1 })
  write bytes record := ((client.write bytes record.net).1,
    { record with
      net := (client.write bytes record.net).2
      written := record.written ++ bytes.take (client.write bytes record.net).1
      before := if record.accepted then record.before
        else record.before ++ bytes.take (client.write bytes record.net).1 })
  millis record := ((client.millis record.net).1,
    { record with net := (client.millis record.net).2 })
  digitalRead pin record := ((client.digitalRead pin record.net).1,
    { record with net := (client.digitalRead pin record.net).2 })
  analogRead pin record := ((client.analogRead pin record.net).1,
    { record with net := (client.analogRead pin record.net).2 })
  analogInputToDigitalPin := client.analogInputToDigitalPin
  digitalRead_le pin record := client.digitalRead_le pin record.net
  analogRead_le pin record := client.analogRead_le pin record.net
  readBytes_le count record := client.readBytes_le count record.net
  write_le bytes record := client.write_le bytes record.net

variable (client : Client Net) (sketch : Sketch App)

/-- A message that may be sent to a server that has not accepted a login. -/
def Early (message : Message) : Prop :=
  message.cmd = Command.login ∨ message.cmd = Command.response

/-- What has been written are proper messages, and a part of one if the connection is given up. -/
structure Written (s : Session (Recorded Net) App) (messages : List Message)
    (part : List (BitVec 8)) : Prop where
  written : s.conn.net.written = messages.flatMap Message.encode ++ part
  part_eq : s.conn.isConn = true → part = []
  part_decode : decode part = none
  proper : ∀ message ∈ messages, Proper message

/-- What has been written before an acceptance are messages that may be sent there. -/
structure WrittenBefore (s : Session (Recorded Net) App) (messages : List Message) : Prop where
  before : s.conn.net.before = messages.flatMap Message.encode
  proper : ∀ message ∈ messages, Proper message ∧ Early message

/-- What holds between two steps of the library. -/
structure Orderly (s : Session (Recorded Net) App) : Prop where
  written : ∃ messages part, Written s messages part
  before : ∃ messages, WrittenBefore s messages
  accepted : s.state = .connected → s.conn.isConn = true → s.conn.net.accepted = true

variable {client sketch} {s t : Session (Recorded Net) App}

theorem connecting_ne : BlynkState.connecting ≠ .connected := by decide

theorem writtenBefore_nil (h : s.conn.net.before = []) : WrittenBefore s [] :=
  ⟨h, fun _ hmem ↦ absurd hmem List.not_mem_nil⟩

/-- A step that writes nothing. -/
theorem Orderly.quiet (h : Orderly s) (hwritten : t.conn.net.written = s.conn.net.written)
    (hbefore : t.conn.net.before = s.conn.net.before)
    (hconn : t.conn.isConn = true → s.conn.isConn = true)
    (haccepted : s.conn.net.accepted = true → t.conn.net.accepted = true)
    (hstate : t.state = .connected → s.state = .connected ∨ t.conn.net.accepted = true) :
    Orderly t := by
  obtain ⟨messages, part, hwrites⟩ := h.written
  obtain ⟨early, hearly⟩ := h.before
  refine ⟨⟨messages, part, hwritten.trans hwrites.written, fun h ↦ hwrites.part_eq (hconn h),
    hwrites.part_decode, hwrites.proper⟩, ⟨early, hbefore.trans hearly.before, hearly.proper⟩, ?_⟩
  intro hnow hup
  exact (hstate hnow).elim (fun hconnected ↦ haccepted (h.accepted hconnected (hconn hup))) id

/-- A connection that is closed. -/
theorem Orderly.closed (h : Orderly s) (hwritten : t.conn.net.written = s.conn.net.written)
    (hbefore : t.conn.net.before = []) (hconn : t.conn.isConn = false) : Orderly t := by
  have hdown : t.conn.isConn ≠ true := by
    rw [hconn]
    exact Bool.false_ne_true
  obtain ⟨messages, part, hwrites⟩ := h.written
  exact ⟨⟨messages, part, hwritten.trans hwrites.written, fun h ↦ absurd h hdown,
    hwrites.part_decode, hwrites.proper⟩, ⟨[], writtenBefore_nil hbefore⟩,
    fun _ h ↦ absurd h hdown⟩

/-- A new connection. It finds the session connected only if the old one was not closed. -/
theorem Orderly.fresh (h : Orderly s) (hwritten : t.conn.net.written = [])
    (hbefore : t.conn.net.before = s.conn.net.before)
    (haccepted : t.conn.net.accepted = s.conn.net.accepted)
    (hstate : t.state = .connected → s.state = .connected ∧ s.conn.isConn = true) : Orderly t := by
  obtain ⟨early, hearly⟩ := h.before
  refine ⟨⟨[], [], hwritten, fun _ ↦ rfl, rfl, fun _ h ↦ absurd h List.not_mem_nil⟩,
    ⟨early, hbefore.trans hearly.before, hearly.proper⟩, fun hconnected _ ↦ ?_⟩
  exact haccepted ▸ h.accepted (hstate hconnected).1 (hstate hconnected).2

theorem Orderly.lost (h : Orderly s) : Orderly (s.lost (recorded client)) := h.closed rfl rfl rfl

theorem Orderly.reconnect (h : Orderly s) (hconn : s.conn.isConn = true) :
    Orderly (s.reconnect (recorded client)) :=
  h.fresh rfl rfl rfl fun hstate ↦ ⟨hstate, hconn⟩

theorem Orderly.getMillis (h : Orderly s) : Orderly (Protocol.getMillis (recorded client) s).2 :=
  h.quiet rfl rfl id id Or.inl

/-! ### Sending -/

/-- Between two states of a link these bytes and no others have been written. -/
structure Wrote (conn next : Link (Recorded Net)) (part : List (BitVec 8)) : Prop where
  written : next.net.written = conn.net.written ++ part
  before : next.net.before =
    if conn.net.accepted then conn.net.before else conn.net.before ++ part
  accepted : next.net.accepted = conn.net.accepted

theorem Wrote.refl (conn : Link (Recorded Net)) : Wrote conn conn [] := by
  refine ⟨(List.append_nil _).symm, ?_, rfl⟩
  rw [List.append_nil, ite_self]

theorem Wrote.append {conn next last : Link (Recorded Net)} {first second : List (BitVec 8)}
    (hfirst : Wrote conn next first) (hsecond : Wrote next last second) :
    Wrote conn last (first ++ second) := by
  refine ⟨?_, ?_, hsecond.accepted.trans hfirst.accepted⟩
  · rw [hsecond.written, hfirst.written, List.append_assoc]
  · rw [hsecond.before, hfirst.accepted, hfirst.before]
    split
    · rfl
    · exact List.append_assoc _ _ _

/-- One turn of the loop writes as many bytes of the rest as the client takes. -/
theorem wrote_chunk (client : Client Net) (rest : List (BitVec 8)) (conn : Link (Recorded Net)) :
    Wrote conn (conn.write (recorded client) (rest.take sendChunk)).2
      (rest.take (conn.write (recorded client) (rest.take sendChunk)).1) := by
  have htake : (rest.take sendChunk).take (client.write (rest.take sendChunk) conn.net.net).1 =
      rest.take (client.write (rest.take sendChunk) conn.net.net).1 := by
    rw [List.take_take, Nat.min_eq_left]
    exact (client.write_le _ _).trans (List.length_take_le _ _)
  have hwrote : Wrote conn (conn.write (recorded client) (rest.take sendChunk)).2
      ((rest.take sendChunk).take (client.write (rest.take sendChunk) conn.net.net).1) :=
    ⟨rfl, rfl, rfl⟩
  rw [htake] at hwrote
  exact hwrote

/-- The loop writes its bytes or a part of them. -/
theorem writeLoop_written (client : Client Net) (turns : ℕ) (rest : List (BitVec 8))
    (conn : Link (Recorded Net)) :
    ∃ part, Wrote conn (writeLoop (recorded client) turns rest conn).2 part ∧ part <+: rest ∧
      ((writeLoop (recorded client) turns rest conn).1 = true → part = rest) ∧
      ((writeLoop (recorded client) turns rest conn).1 = false → part.length < rest.length) := by
  induction turns generalizing rest conn with
  | zero =>
    refine ⟨[], .refl conn, List.nil_prefix, fun h ↦ ?_, fun h ↦ ?_⟩
    · exact (List.isEmpty_iff.mp h).symm
    · exact List.length_pos_iff.mpr (List.isEmpty_eq_false_iff.mp h)
  | succ turns ih =>
    rw [writeLoop]
    split
    · next hnil =>
      exact ⟨[], .refl conn, List.nil_prefix, fun _ ↦ hnil.symm, fun h ↦ Bool.noConfusion h⟩
    · next hne =>
      have hchunk := wrote_chunk client rest conn
      generalize conn.write (recorded client) (rest.take sendChunk) = result at hchunk ⊢
      obtain ⟨count, next⟩ := result
      dsimp only at hchunk ⊢
      split
      · next hzero =>
        rw [hzero, List.take_zero] at hchunk
        exact ⟨[], hchunk, List.nil_prefix, fun h ↦ absurd h Bool.false_ne_true,
          fun _ ↦ List.length_pos_iff.mpr hne⟩
      · obtain ⟨part, hwrote, hpiece, hall, hpart⟩ := ih (rest.drop count) next
        refine ⟨rest.take count ++ part, hchunk.append hwrote, ?_, fun h ↦ ?_, fun h ↦ ?_⟩
        · conv_rhs => rw [← List.take_append_drop count rest]
          exact (List.prefix_append_right_inj _).mpr hpiece
        · rw [hall h, List.take_append_drop]
        · have hlt := hpart h
          have hsplit := congrArg List.length (List.take_append_drop count rest)
          rw [List.length_append] at hsplit ⊢
          omega

theorem Orderly.limit (h : Orderly s) : Orderly (Protocol.limit (recorded client) s) := by
  have hlater : Orderly { (Protocol.getMillis (recorded client) s).2 with
      deltaCmd := averageSample s.deltaCmd
        ((Protocol.getMillis (recorded client) s).1 - s.lastActivityOut)
      lastActivityOut := (Protocol.getMillis (recorded client) s).1 } :=
    h.quiet rfl rfl id id Or.inl
  rw [Protocol.limit]
  dsimp only
  split
  · exact hlater.lost
  · exact hlater

theorem Orderly.transmit {message : Message} (h : Orderly s) (hconn : s.conn.isConn = true)
    (hproper : Proper message) (hearly : s.conn.net.accepted = false → Early message) :
    Orderly (Protocol.transmit (recorded client) message s) := by
  obtain ⟨messages, part, hwrites⟩ := h.written
  obtain ⟨early, hearlier⟩ := h.before
  obtain ⟨sent, ⟨hwritten, hbefore, haccepted⟩, hpiece, hall, hpart⟩ :=
    writeLoop_written client message.encode.length message.encode s.conn
  rw [hwrites.written, hwrites.part_eq hconn, List.append_nil] at hwritten
  rw [Protocol.transmit]
  split
  · next hsent =>
    rw [hall hsent] at hwritten hbefore
    refine Orderly.limit ⟨⟨messages ++ [message], [], ?_, fun _ ↦ rfl, rfl, ?_⟩, ?_, ?_⟩
    · rw [List.flatMap_append, List.flatMap_singleton, List.append_nil]
      exact hwritten
    · exact fun other hmem ↦ (List.mem_append.mp hmem).elim (hwrites.proper other)
        fun hlast ↦ List.mem_singleton.mp hlast ▸ hproper
    · cases hlogged : s.conn.net.accepted with
      | true =>
        rw [hlogged, if_pos rfl] at hbefore
        exact ⟨early, hbefore.trans hearlier.before, hearlier.proper⟩
      | false =>
        rw [hlogged, if_neg Bool.false_ne_true, hearlier.before] at hbefore
        refine ⟨early ++ [message], ?_, fun other hmem ↦ ?_⟩
        · rw [List.flatMap_append, List.flatMap_singleton]
          exact hbefore
        · exact (List.mem_append.mp hmem).elim (hearlier.proper other)
            fun hlast ↦ List.mem_singleton.mp hlast ▸ ⟨hproper, hearly hlogged⟩
    · exact fun hstate _ ↦ haccepted.trans (h.accepted hstate hconn)
  · next hbroken =>
    have hdecode := decode_part hproper hpiece (hpart (Bool.eq_false_of_not_eq_true hbroken))
    exact ⟨⟨messages, sent, hwritten, fun h ↦ absurd h Bool.false_ne_true, hdecode,
      hwrites.proper⟩, ⟨[], writtenBefore_nil rfl⟩, fun h ↦ absurd h connecting_ne⟩

theorem isConn_of_connected {conn : Link (Recorded Net)}
    (h : (conn.connected (recorded client)).1 = true) :
    (conn.connected (recorded client)).2.isConn = true := by
  rw [Link.connected] at h ⊢
  split
  · next hconn => exact hconn
  · next hconn =>
    rw [if_neg hconn] at h
    exact absurd h Bool.false_ne_true

theorem getNextMsgId_ne_zero (s : Session Net App) : (getNextMsgId s).1 ≠ 0 := by
  rw [getNextMsgId]
  split
  · next h => exact h
  · dsimp only
    split
    · decide
    · next h => exact h

/-- `sendCmd` keeps the order, for a ping if the session is connected. -/
theorem Orderly.sendCmd {cmd : BitVec 8} {id : BitVec 16} {payload : Payload} (h : Orderly s)
    (hfits : Payload.Fits cmd payload) (hping : cmd = Command.ping → s.state = .connected) :
    Orderly (Protocol.sendCmd (recorded client) cmd id payload s) := by
  have hnumbered : ∃ number, number ≠ 0 ∧ ∃ lastMsgId,
      numberOf id s = (number, { s with lastMsgId }) := by
    rw [numberOf]
    split
    · refine ⟨(getNextMsgId s).1, getNextMsgId_ne_zero s, (getNextMsgId s).2.lastMsgId, ?_⟩
      rw [getNextMsgId]
      split <;> rfl
    · next hne => exact ⟨id, hne, s.lastMsgId, rfl⟩
  obtain ⟨number, hnumber, lastMsgId, heq⟩ := hnumbered
  rw [Protocol.sendCmd, heq]
  dsimp only
  have hquiet : Orderly ({ s with
      lastMsgId
      conn := (s.conn.connected (recorded client)).2 } : Session (Recorded Net) App) := by
    rw [Link.connected]
    split <;> exact h.quiet rfl rfl (fun h ↦ h) (fun h ↦ h) Or.inl
  split
  · next hguard =>
    rw [Bool.and_eq_true, Bool.or_eq_true, decide_eq_true_eq] at hguard
    have hconn := isConn_of_connected hguard.1
    refine hquiet.transmit hconn ⟨hnumber, hfits⟩ fun hfalse ↦ ?_
    have hstate : s.state ≠ .connected := fun hstate ↦
      absurd (hquiet.accepted hstate hconn) (by rw [hfalse]; decide)
    rcases hguard.2 with hunguarded | hconnected
    · rw [unguarded, Bool.or_eq_true, Bool.or_eq_true, decide_eq_true_eq, decide_eq_true_eq,
        decide_eq_true_eq] at hunguarded
      rcases hunguarded with (hresponse | hisPing) | hlogin
      · exact Or.inr hresponse
      · exact absurd (hping hisPing) hstate
      · exact Or.inl hlogin
    · exact absurd hconnected hstate
  · exact hquiet

theorem Orderly.sendInfo (h : Orderly s) : Orderly (Protocol.sendInfo (recorded client) sketch s) :=
  h.sendCmd ⟨by decide, sketch.profile_lt⟩ fun hping ↦ absurd hping (by decide)

/-- A buffer never holds more than its size. -/
theorem length_content_le {size : ℕ} {data : List Data} {builder : Builder}
    (h : build size data = some builder) : builder.content.length ≤ size := by
  suffices hgeneral : ∀ (data : List Data) (first : Builder),
      first.content.length ≤ size ∧ first.content.length ≤ first.len →
        data.foldlM (Builder.add size) first = some builder → builder.content.length ≤ size from
    hgeneral data Builder.empty ⟨Nat.zero_le _, le_rfl⟩ h
  intro data
  induction data with
  | nil =>
    rintro first ⟨hsize, -⟩ hfold
    exact Option.some.inj hfold ▸ hsize
  | cons entry rest ih =>
    rintro first ⟨hsize, hlen⟩ hfold
    rw [List.foldlM_cons] at hfold
    obtain ⟨next, hnext, hrest⟩ := Option.bind_eq_some_iff.mp hfold
    refine ih next ?_ hrest
    cases entry with
    | number value =>
      rw [Builder.add, Builder.addInt] at hnext
      split at hnext
      · exact absurd hnext (Option.some_ne_none _).symm
      · obtain rfl := Option.some.inj hnext
        dsimp only
        rw [List.length_append]
        split
        · rw [List.length_nil]
          omega
        · rw [List.length_append, List.length_take, List.length_singleton]
          omega
    | text characters =>
      obtain rfl := Option.some.inj hnext
      rw [Builder.addBytes]
      split
      · exact ⟨hsize, hlen⟩
      · rw [List.length_append]
        dsimp only
        omega

theorem Orderly.sendStrings {cmd : BitVec 8} {size : ℕ} {data : List Data} (h : Orderly s)
    (hcmd : cmd ≠ Command.response ∧ cmd ≠ Command.ping) (hsize : size < 2 ^ 16)
    (ht : Protocol.sendStrings (recorded client) cmd size data s = some t) : Orderly t := by
  rw [Protocol.sendStrings] at ht
  obtain ⟨builder, hbuild, hsent⟩ := Option.bind_eq_some_iff.mp ht
  obtain ⟨bytes, hbytes, rfl⟩ := Option.map_eq_some_iff.mp hsent
  refine h.sendCmd ⟨hcmd.1, ?_⟩ fun hping ↦ absurd hping hcmd.2
  rw [Builder.bytes] at hbytes
  split at hbytes
  · obtain rfl := Option.some.inj hbytes
    rw [List.length_take]
    exact Nat.lt_of_le_of_lt ((Nat.min_le_right _ _).trans (length_content_le hbuild)) hsize
  · exact absurd hbytes (Option.some_ne_none _).symm

/-! ### Commands for the hardware -/

/-- What a command does to the pins and to the sketch writes nothing. -/
theorem Orderly.app (h : Orderly s) (app : App) : Orderly { s with app } :=
  h.quiet rfl rfl id id Or.inl

theorem Orderly.reportPin {name : String}
    {read : BitVec 8 → Recorded Net → BitVec 32 × Recorded Net} {pin : BitVec 8} (h : Orderly s)
    (hread : ∀ record, (read pin record).2.written = record.written ∧
      (read pin record).2.before = record.before ∧
      (read pin record).2.accepted = record.accepted)
    (ht : Protocol.reportPin (recorded client) name read pin s = some t) : Orderly t := by
  obtain ⟨hwritten, hbefore, haccepted⟩ := hread s.conn.net
  refine Orderly.sendStrings (s := { s with
    conn := { s.conn with net := (read pin s.conn.net).2 } }) ?_ ⟨by decide, by decide⟩
    (by decide) ht
  exact h.quiet hwritten hbefore id (fun htrue ↦ haccepted.trans htrue) Or.inl

theorem Orderly.withValue {param : Param} {iterator : ℕ}
    {act : BitVec 32 → Session (Recorded Net) App} (h : Orderly s)
    (hact : ∀ value, Orderly (act value))
    (ht : Protocol.withValue param iterator s act = some t) : Orderly t := by
  rw [Protocol.withValue] at ht
  obtain ⟨next, -, hvalue⟩ := Option.bind_eq_some_iff.mp ht
  split at hvalue
  · exact Option.some.inj hvalue ▸ h
  · obtain ⟨value, -, rfl⟩ := Option.map_eq_some_iff.mp hvalue
    exact hact value

theorem Orderly.execute {cmd16 : BitVec 16} {pin : BitVec 8} {param : Param} {iterator : ℕ}
    (h : Orderly s)
    (ht : Protocol.execute (recorded client) sketch cmd16 pin param iterator s = some t) :
    Orderly t := by
  rw [Protocol.execute] at ht
  split at ht
  · obtain ⟨app, -, rfl⟩ := Option.map_eq_some_iff.mp ht
    exact h.app app
  split at ht
  · exact h.reportPin (fun _ ↦ ⟨rfl, rfl, rfl⟩) ht
  split at ht
  · exact h.withValue (fun _ ↦ h.app _) ht
  split at ht
  · exact h.reportPin (fun _ ↦ ⟨rfl, rfl, rfl⟩) ht
  split at ht
  · exact h.withValue (fun _ ↦ h.app _) ht
  split at ht
  · exact Option.some.inj ht ▸ h
  split at ht
  · obtain ⟨next, -, hhandled⟩ := Option.bind_eq_some_iff.mp ht
    split at hhandled
    · obtain ⟨app, -, rfl⟩ := Option.map_eq_some_iff.mp hhandled
      exact h.app app
    · exact Option.some.inj hhandled ▸ h
  · obtain rfl := Option.some.inj ht
    exact h.sendCmd rfl fun hping ↦ absurd hping (by decide)

theorem Orderly.processCmd {body : List (BitVec 8)} (h : Orderly s)
    (ht : Protocol.processCmd (recorded client) sketch body s = some t) : Orderly t := by
  rcases Nat.lt_or_ge (reached body) 2 with hshort | hpin
  · rw [processCmd_of_reached_lt _ _ hshort] at ht
    exact Option.some.inj ht ▸ h
  · rw [processCmd_eq_execute _ _ hpin] at ht
    exact h.execute ht

/-! ### Receiving -/

theorem Orderly.receiveResponse (h : Orderly s) {id code : BitVec 16}
    (hacceptance : id = 1 → code = Status.success ∨ code = Status.alreadyLoggedIn →
      s.conn.net.accepted = true) :
    Orderly (Protocol.receiveResponse (recorded client) sketch id code s).2 := by
  have hlater : Orderly { (Protocol.getMillis (recorded client) s).2 with
      lastActivityIn := (Protocol.getMillis (recorded client) s).1 } :=
    h.quiet rfl rfl (fun h ↦ h) (fun h ↦ h) Or.inl
  rw [Protocol.receiveResponse]
  dsimp only
  split
  · next hlogin =>
    split
    · next hcode =>
      have haccepted := hacceptance hlogin.2 hcode
      exact (hlater.quiet rfl rfl (fun h ↦ h) (fun h ↦ h) fun _ ↦ Or.inr haccepted :
        Orderly { (Protocol.getMillis (recorded client) s).2 with
          lastActivityIn := (Protocol.getMillis (recorded client) s).1
          lastHeartbeat := (Protocol.getMillis (recorded client) s).1
          state := .connected }).sendInfo
    · exact hlater
  · exact hlater

theorem Orderly.obey {cmd : BitVec 8} {id : BitVec 16} {body : List (BitVec 8)} (h : Orderly s)
    (hconn : s.conn.isConn = true)
    (hacceptance : cmd = Command.login → s.conn.net.accepted = true)
    (ht : Protocol.obey (recorded client) sketch cmd id body s = some t) : Orderly t := by
  rw [Protocol.obey] at ht
  split at ht
  · next hlogin =>
    obtain rfl := Option.some.inj ht
    refine Orderly.sendInfo (Orderly.sendCmd ?_ rfl fun hping ↦ absurd hping (by decide))
    exact h.quiet rfl rfl (fun h ↦ h) (fun h ↦ h) fun _ ↦ Or.inr (hacceptance hlogin)
  split at ht
  · obtain rfl := Option.some.inj ht
    exact h.sendCmd rfl fun hping ↦ absurd hping (by decide)
  split at ht
  · obtain ⟨after, hafter, rfl⟩ := Option.map_eq_some_iff.mp ht
    have hcommand : Orderly { s with currentMsgId := id } :=
      h.quiet rfl rfl (fun h ↦ h) (fun h ↦ h) Or.inl
    exact (hcommand.processCmd hafter).quiet rfl rfl (fun h ↦ h) (fun h ↦ h) Or.inl
  · exact Option.some.inj ht ▸ h.reconnect hconn

theorem Orderly.receiveBody {cmd : BitVec 8} {id : BitVec 16} {length : ℕ} {answer : Bool}
    (h : Orderly s) (hconn : s.conn.isConn = true)
    (hacceptance : cmd = Command.login → s.conn.net.accepted = true)
    (ht : Protocol.receiveBody (recorded client) sketch cmd id length s = some (answer, t)) :
    Orderly t := by
  rw [Protocol.receiveBody] at ht
  split at ht
  · obtain ⟨-, rfl⟩ := Prod.mk.inj (Option.some.inj ht)
    exact h.reconnect hconn
  have hread (lastActivityIn : BitVec 32) (net : Net) : Orderly ({ s with
      lastActivityIn
      conn := { s.conn with
        net := { ((recorded client).readBytes length s.conn.net).2 with net } } } :
        Session (Recorded Net) App) :=
    h.quiet rfl rfl (fun h ↦ h) (fun htrue ↦ Bool.or_eq_true_iff.mpr (Or.inl htrue)) Or.inl
  dsimp only at ht
  split at ht
  · obtain ⟨-, rfl⟩ := Prod.mk.inj (Option.some.inj ht)
    exact hread s.lastActivityIn _
  · obtain ⟨after, hafter, heq⟩ := Option.map_eq_some_iff.mp ht
    obtain ⟨-, rfl⟩ := Prod.mk.inj heq
    refine Orderly.obey (hread _ _) hconn (fun hlogin ↦ ?_) hafter
    exact Bool.or_eq_true_iff.mpr (Or.inl (hacceptance hlogin))

theorem Orderly.processInput {answer : Bool} (h : Orderly s) (hconn : s.conn.isConn = true)
    (ht : Protocol.processInput (recorded client) sketch s = some (answer, t)) : Orderly t := by
  have hread : Orderly { s with conn := (s.conn.read (recorded client) 5).2 } :=
    h.quiet rfl rfl id (fun htrue ↦ Bool.or_eq_true_iff.mpr (Or.inl htrue)) Or.inl
  rw [Protocol.processInput] at ht
  dsimp only at ht
  split at ht
  · obtain ⟨-, rfl⟩ := Prod.mk.inj (Option.some.inj ht)
    exact hread
  · next cmd idHigh idLow lengthHigh lengthLow hheader =>
    have haccepted : isAcceptance [cmd, idHigh, idLow, lengthHigh, lengthLow] = true →
        (s.conn.read (recorded client) 5).2.net.accepted = true := by
      rw [← hheader]
      exact fun htrue ↦ Bool.or_eq_true_iff.mpr (Or.inr htrue)
    split at ht
    · obtain ⟨-, rfl⟩ := Prod.mk.inj (Option.some.inj ht)
      exact hread
    split at ht
    · next hresponse =>
      have heq := congrArg Prod.snd (Option.some.inj ht)
      dsimp only at heq
      subst heq
      refine hread.receiveResponse fun hid hcode ↦ haccepted ?_
      rw [isAcceptance, Bool.or_eq_true, Bool.and_eq_true, Bool.and_eq_true, Bool.or_eq_true]
      refine Or.inl ⟨⟨decide_eq_true hresponse, decide_eq_true hid⟩, ?_⟩
      exact hcode.imp decide_eq_true decide_eq_true
    · refine hread.receiveBody hconn (fun hlogin ↦ haccepted ?_) ht
      rw [isAcceptance, Bool.or_eq_true]
      exact Or.inr (decide_eq_true hlogin)
  · obtain ⟨-, rfl⟩ := Prod.mk.inj (Option.some.inj ht)
    exact hread

/-! ### The loop -/

theorem Orderly.maintain (h : Orderly s) (tconn : Bool) :
    Orderly (Protocol.maintain (recorded client) sketch tconn s).2 := by
  have hlater : Orderly (Protocol.getMillis (recorded client) s).2 := h.getMillis
  rw [Protocol.maintain]
  dsimp only
  split
  · next hconnected =>
    split
    · exact hlater.quiet rfl rfl id id fun h ↦ absurd h connecting_ne
    split
    · exact hlater.lost
    split
    · have hsent : Orderly (Protocol.sendCmd (recorded client) Command.ping 0 (.body [])
          (Protocol.getMillis (recorded client) s).2) :=
        hlater.sendCmd ⟨by decide, by decide⟩ fun _ ↦ hconnected
      exact hsent.quiet rfl rfl id id Or.inl
    · exact hlater
  · next hconnecting =>
    have hclosed : Orderly { (Protocol.getMillis (recorded client) s).2 with
        conn := (Protocol.getMillis (recorded client) s).2.conn.disconnect (recorded client) } :=
      hlater.closed rfl rfl rfl
    have hfresh {P : Prop} (hstate : s.state = .connected) : P :=
      absurd (hconnecting.symm.trans hstate) connecting_ne
    split
    · exact hlater.lost
    split
    · split
      · have hsent : Orderly (Protocol.sendCmd (recorded client) Command.login 1
            (.body sketch.authkey) { (Protocol.getMillis (recorded client) s).2 with
              conn := ((Protocol.getMillis (recorded client) s).2.conn.disconnect
                (recorded client)).connect (recorded client) |>.2
              deltaCmd := 1000 }) :=
          Orderly.sendCmd (hclosed.fresh rfl rfl rfl hfresh) ⟨by decide, sketch.authkey_lt⟩
            fun hping ↦ absurd hping (by decide)
        exact hsent.quiet rfl rfl id id Or.inl
      · exact hclosed.fresh rfl rfl rfl hfresh
    · exact hlater
  · exact hlater

theorem Orderly.pending (h : Orderly s) (avail : Bool) :
    Orderly (Protocol.pending (recorded client) avail s).2 ∧
      (Protocol.pending (recorded client) avail s).2.conn.isConn = s.conn.isConn := by
  rw [Protocol.pending]
  split
  · exact ⟨h, rfl⟩
  · exact ⟨h.quiet rfl rfl id id Or.inl, rfl⟩

theorem Orderly.run {avail answer : Bool} (h : Orderly s)
    (ht : Protocol.run (recorded client) sketch avail s = some (answer, t)) : Orderly t := by
  have hconnected : Orderly { s with conn := (s.conn.connected (recorded client)).2 } := by
    rw [Link.connected]
    split <;> exact h.quiet rfl rfl (fun h ↦ h) (fun h ↦ h) Or.inl
  rw [Protocol.run] at ht
  split at ht
  · obtain ⟨-, rfl⟩ := Prod.mk.inj (Option.some.inj ht)
    exact h
  dsimp only at ht
  split at ht
  · next hup =>
    obtain ⟨hpending, hsame⟩ := hconnected.pending avail
    split at ht
    · obtain ⟨⟨good, after⟩, hinput, heq⟩ := Option.map_eq_some_iff.mp ht
      have hafter := hpending.processInput (hsame.trans (isConn_of_connected hup)) hinput
      dsimp only at heq
      split at heq
      · obtain rfl := congrArg Prod.snd heq
        exact hafter.maintain true
      · obtain ⟨-, rfl⟩ := Prod.mk.inj heq
        exact hafter.closed rfl rfl rfl
    · have heq := congrArg Prod.snd (Option.some.inj ht)
      subst heq
      exact hpending.maintain true
  · have heq := congrArg Prod.snd (Option.some.inj ht)
    subst heq
    exact hconnected.maintain false

theorem Orderly.connectLoop {timeout started : BitVec 32} {turns : ℕ} (h : Orderly s)
    (ht : Protocol.connectLoop (recorded client) sketch timeout started turns s = some t) :
    Orderly t := by
  induction turns generalizing s with
  | zero => exact absurd ht (Option.some_ne_none _).symm
  | succ turns ih =>
    rw [Protocol.connectLoop] at ht
    split at ht
    · exact Option.some.inj ht ▸ h
    dsimp only at ht
    split at ht
    · obtain ⟨⟨answer, after⟩, hrun, hrest⟩ := Option.bind_eq_some_iff.mp ht
      exact ih (h.getMillis.run hrun) hrest
    · exact Option.some.inj ht ▸ h.getMillis

/-! ### Runs -/

/-- The calls of the library that a sketch makes. -/
inductive Call
  | run (avail : Bool)
  | connect (timeout : BitVec 32) (turns : ℕ)
  | disconnect
  | startSession
  | virtualWrite (pin : BitVec 32) (values : List Data)
  | syncVirtual (pin : BitVec 32)
  | syncAll

/-- A device that makes these calls, from power-on. -/
def device (client : Client Net) (sketch : Sketch App) :
    System (Session (Recorded Net) App) Call where
  initial s := ∃ net app, s = powerOn ⟨net, [], false, []⟩ app
  step s
    | .run avail => (run (recorded client) sketch avail s).map Prod.snd
    | .connect timeout turns => connect (recorded client) sketch timeout turns s
    | .disconnect => some (disconnect (recorded client) s)
    | .startSession => some (startSession (recorded client) s)
    | .virtualWrite pin values => virtualWrite (recorded client) pin values s
    | .syncVirtual pin => syncVirtual (recorded client) pin s
    | .syncAll => some (syncAll (recorded client) s)

theorem orderly_powerOn (net : Net) (app : App) : Orderly (powerOn ⟨net, [], false, []⟩ app) := by
  refine ⟨⟨[], [], rfl, fun _ ↦ rfl, rfl, ?_⟩, ⟨[], writtenBefore_nil rfl⟩, ?_⟩
  · exact fun _ h ↦ absurd h List.not_mem_nil
  · exact fun h ↦ absurd h connecting_ne

/-- One call keeps the order. -/
theorem Orderly.step {call : Call} (h : Orderly s)
    (ht : (device client sketch).step s call = some t) : Orderly t := by
  cases call with
  | run avail =>
    obtain ⟨⟨answer, after⟩, hrun, rfl⟩ := Option.map_eq_some_iff.mp ht
    exact h.run hrun
  | connect timeout turns =>
    refine Orderly.connectLoop (Orderly.getMillis ?_) ht
    exact h.closed rfl rfl rfl
  | disconnect =>
    obtain rfl := Option.some.inj ht
    exact h.closed rfl rfl rfl
  | startSession =>
    obtain rfl := Option.some.inj ht
    exact (h.fresh rfl rfl rfl fun h ↦ absurd h connecting_ne : Orderly { s with
      conn := (s.conn.connect (recorded client)).2, state := .connecting })
      |>.quiet rfl rfl id id fun h ↦ absurd h connecting_ne
  | virtualWrite pin values => exact h.sendStrings ⟨by decide, by decide⟩ (by decide) ht
  | syncVirtual pin =>
    change Protocol.syncVirtual (recorded client) pin s = some t at ht
    rw [Protocol.syncVirtual] at ht
    exact h.sendStrings ⟨by decide, by decide⟩ (by decide) ht
  | syncAll =>
    obtain rfl := Option.some.inj ht
    exact h.sendCmd ⟨by decide, by decide⟩ fun hping ↦ absurd hping (by decide)

variable {trace : List (Transition (Session (Recorded Net) App) Call)}

theorem orderly_of_run (hrun : Run (device client sketch) trace s) : Orderly s := by
  refine hrun.invariant (I := Orderly) ?_ fun _ _ _ horderly hstep ↦ horderly.step hstep
  rintro _ ⟨net, app, rfl⟩
  exact orderly_powerOn net app

/-- Whatever the connection does, a receiver reads what has been written on it as messages with
proper headers, and there is a rest only if the connection has been given up. -/
theorem messages_written (hrun : Run (device client sketch) trace s) :
    ∃ messages part, (∀ turns, messages.length ≤ turns →
        decodeAll turns s.conn.net.written = (messages, part)) ∧
      (∀ message ∈ messages, Proper message) ∧ (s.conn.isConn = true → part = []) := by
  obtain ⟨messages, part, hwrites⟩ := (orderly_of_run hrun).written
  refine ⟨messages, part, fun turns hturns ↦ ?_, hwrites.proper, hwrites.part_eq⟩
  rw [hwrites.written, decodeAll_flatMap hwrites.proper hwrites.part_decode,
    List.take_of_length_le hturns, List.drop_eq_nil_of_le hturns]
  rfl

theorem messages_written_accepted :
    ∃ trace s, Run (device scripted namelessSketch) trace s ∧ s.conn.isConn = true ∧
      ∃ messages part, (∀ turns, messages.length ≤ turns →
          decodeAll turns s.conn.net.written = (messages, part)) ∧
        (∀ message ∈ messages, Proper message) ∧ (s.conn.isConn = true → part = []) := by
  have hreplay : (replay (device scripted namelessSketch)
      (powerOn ⟨⟨[0, 0, 1, 0, 200], [6000, 6100, 6200, 6300, 6400, 6500]⟩, [], false, []⟩ ())
      [.run false, .run false, .virtualWrite 3 [.number 17]]).map
        (fun s ↦ s.conn.isConn) = some true := by decide +kernel
  obtain ⟨s, hrun, hconn⟩ := exists_run_of_replay
    (show (device scripted namelessSketch).initial _ from ⟨_, _, rfl⟩) hreplay
  exact ⟨_, s, hrun, hconn, messages_written hrun⟩

/-- What has been written since the library last closed a connection, up to the acceptance of a
login, is read as logins and responses, and the session is not connected before. -/
theorem messages_before_acceptance (hrun : Run (device client sketch) trace s) :
    (s.state = .connected → s.conn.isConn = true → s.conn.net.accepted = true) ∧
      ∃ messages, (∀ turns, messages.length ≤ turns →
          decodeAll turns s.conn.net.before = (messages, [])) ∧
        ∀ message ∈ messages, Proper message ∧ Early message := by
  have horderly := orderly_of_run hrun
  obtain ⟨messages, hwrites⟩ := horderly.before
  refine ⟨horderly.accepted, messages, fun turns hturns ↦ ?_, hwrites.proper⟩
  have hread := decodeAll_flatMap (fun message hmem ↦ (hwrites.proper message hmem).1)
    (show decode [] = none from rfl) turns
  rw [List.append_nil, ← hwrites.before, List.take_of_length_le hturns,
    List.drop_eq_nil_of_le hturns] at hread
  exact hread

/-- A device that loses its connection and sends a new login. -/
theorem messages_before_acceptance_relogin :
    ∃ trace s, Run (device scripted namelessSketch) trace s ∧ s.conn.net.accepted = false ∧
      s.conn.net.before.length = 10 ∧
      (s.state = .connected → s.conn.isConn = true → s.conn.net.accepted = true) ∧
        ∃ messages, (∀ turns, messages.length ≤ turns →
            decodeAll turns s.conn.net.before = (messages, [])) ∧
          ∀ message ∈ messages, Proper message ∧ Early message := by
  have hreplay : (replay (device scripted namelessSketch)
      (powerOn ⟨⟨[0, 0, 1, 0, 200],
        [6000, 6100, 6200, 6300, 6400, 6500, 30000, 30100, 60000, 60100]⟩, [], false, []⟩ ())
      [.run false, .run false, .virtualWrite 3 [.number 17], .run false, .run false]).map
        (fun s ↦ (s.conn.net.accepted, s.conn.net.before.length)) = some (false, 10) := by
    decide +kernel
  obtain ⟨s, hrun, hfinal⟩ := exists_run_of_replay
    (show (device scripted namelessSketch).initial _ from ⟨_, _, rfl⟩) hreplay
  obtain ⟨haccepted, hlength⟩ := Prod.mk.inj hfinal
  exact ⟨_, s, hrun, haccepted, hlength, messages_before_acceptance hrun⟩

end Sketchbook.Blynk.SentMessages
