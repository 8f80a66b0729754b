import Sketchbook.Blynk.Protocol

/-!
# The limit on messages

`sendCmd` keeps an average of the times between messages, and gives the connection up when it gets
too small. On a connection that takes all that is written, messages that are at least 32
milliseconds apart are never too many (`state_of_spaced`). Messages that follow each other faster
are too many from the one on that takes the average below its least value, whatever the times
between them (`state_iff_of_burst`): behind a login the connection stands for 86 of these.
-/

set_option autoImplicit false
set_option relaxedAutoImplicit false

namespace Sketchbook.Blynk.MessageLimit

open Protocol

/-! ### The average -/

/-- The average behind a message that comes fast. -/
def decay (average : ℕ) : ℕ := average - average / 32 - 1

theorem decay_le (average : ℕ) : decay average ≤ average := by
  rw [decay]
  omega

theorem iterate_decay_le (average : ℕ) {first second : ℕ} (h : first ≤ second) :
    decay^[second] average ≤ decay^[first] average := by
  induction h with
  | refl => exact le_rfl
  | step h ih =>
    rw [Function.iterate_succ_apply']
    exact (decay_le _).trans ih

theorem toNat_udiv_32 (word : BitVec 32) : (word / 32).toNat = word.toNat / 32 :=
  BitVec.toNat_udiv

theorem toNat_sub_share (average : BitVec 32) :
    (average - average / 32).toNat = average.toNat - average.toNat / 32 := by
  have hle : average / 32 ≤ average := by
    rw [BitVec.le_def, toNat_udiv_32]
    exact Nat.div_le_self _ _
  rw [BitVec.toNat_sub_of_le hle, toNat_udiv_32]

theorem zero_lt_share_iff (input : BitVec 32) : 0 < input / 32 ↔ 32 ≤ input.toNat := by
  rw [BitVec.lt_def, toNat_udiv_32]
  change 0 < _ ↔ _
  omega

/-- Behind a message that comes fast the average has decayed. -/
theorem toNat_averageSample_of_lt {average input : BitVec 32} (hpos : 0 < average.toNat)
    (hfast : input.toNat < 32) : (averageSample average input).toNat = decay average.toNat := by
  have hnone : ¬ 0 < input / 32 := fun h ↦
    absurd ((zero_lt_share_iff input).mp h) (Nat.not_le.mpr hfast)
  have hone : (1 : BitVec 32) ≤ average - average / 32 := by
    rw [BitVec.le_def, toNat_sub_share]
    change 1 ≤ _
    omega
  rw [averageSample, if_neg hnone, ← BitVec.sub_eq_add_neg, BitVec.toNat_sub_of_le hone,
    toNat_sub_share, decay]
  rfl

/-- Behind a message that takes its time the average has a share of that time. -/
theorem toNat_averageSample_of_le (average : BitVec 32) {input : BitVec 32}
    (hslow : 32 ≤ input.toNat) :
    (averageSample average input).toNat =
      average.toNat - average.toNat / 32 + input.toNat / 32 := by
  have hshare : 0 < input / 32 := (zero_lt_share_iff input).mpr hslow
  have haverage := average.isLt
  have hinput := input.isLt
  have hsum : (average - average / 32).toNat + (input / 32).toNat < 2 ^ 32 := by
    rw [toNat_sub_share, toNat_udiv_32]
    omega
  rw [averageSample, if_pos hshare, BitVec.toNat_add_of_lt hsum, toNat_sub_share, toNat_udiv_32]

/-! ### Messages -/

variable {Net App : Type*}

/-- A connection that holds and takes all that is written. -/
structure TakesAll (client : Client Net) : Prop where
  connected : ∀ net, (client.connected net).1 = true
  write : ∀ bytes net, (client.write bytes net).1 = bytes.length

variable {client : Client Net}

theorem writeLoop_eq (h : TakesAll client) {turns : ℕ} {rest : List (BitVec 8)} (conn : Link Net)
    (hturns : rest.length ≤ turns) :
    (writeLoop client turns rest conn).1 = true ∧
      (writeLoop client turns rest conn).2.isConn = conn.isConn := by
  induction turns generalizing rest conn with
  | zero =>
    obtain rfl := List.eq_nil_of_length_eq_zero (Nat.le_zero.mp hturns)
    exact ⟨rfl, rfl⟩
  | succ turns ih =>
    rw [writeLoop]
    split
    · exact ⟨rfl, rfl⟩
    · next hne =>
      have hpos := List.length_pos_iff.mpr hne
      have hcount : (conn.write client (rest.take sendChunk)).1 = min sendChunk rest.length :=
        (h.write _ _).trans List.length_take
      have hchunk : 0 < min sendChunk rest.length := Nat.lt_min.mpr ⟨by decide, hpos⟩
      dsimp only
      rw [if_neg (by omega)]
      refine ih _ ?_
      rw [List.length_drop, hcount]
      omega

/-- What a message leaves behind. -/
structure Sent (s t : Session Net App) : Prop where
  deltaCmd : t.deltaCmd = averageSample s.deltaCmd (t.lastActivityOut - s.lastActivityOut)
  alive : leastDelta ≤ t.deltaCmd → t.state = .connected ∧ t.conn.isConn = true
  cut : t.deltaCmd < leastDelta → t.state = .connecting ∧ t.conn.isConn = false

variable {s : Session Net App} {cmd : BitVec 8} {id : BitVec 16} {payload : Payload}

theorem limit_sent (client : Client Net) {t : Session Net App} (hstate : t.state = .connected)
    (hconn : t.conn.isConn = true) : Sent t (limit client t) := by
  rw [limit]
  dsimp only
  split
  · next hlow => exact ⟨rfl, fun hle ↦ absurd hlow (BitVec.not_lt.mpr hle), fun _ ↦ ⟨rfl, rfl⟩⟩
  · next hhigh => exact ⟨rfl, fun _ ↦ ⟨hstate, hconn⟩, fun hlow ↦ absurd hlow hhigh⟩

theorem numberOf_eq (id : BitVec 16) (s : Session Net App) :
    ∃ lastMsgId, (numberOf id s).2 = { s with lastMsgId } := by
  rw [numberOf]
  split
  · rw [getNextMsgId]
    split
    · exact ⟨s.lastMsgId, rfl⟩
    · exact ⟨_, rfl⟩
  · exact ⟨s.lastMsgId, rfl⟩

theorem sendCmd_sent (h : TakesAll client) (hstate : s.state = .connected)
    (hconn : s.conn.isConn = true) : Sent s (sendCmd client cmd id payload s) := by
  obtain ⟨lastMsgId, hnumbered⟩ := numberOf_eq id s
  have hlink : s.conn.connected client = (true, { s.conn with
      net := (client.connected s.conn.net).2 }) := by
    rw [Link.connected, if_pos hconn]
    exact Prod.ext (h.connected _) rfl
  rw [sendCmd]
  dsimp only
  rw [hnumbered]
  dsimp only
  rw [hlink, hstate]
  dsimp only
  rw [decide_eq_true rfl, Bool.or_true, Bool.and_true, if_pos rfl, transmit]
  obtain ⟨hall, hsame⟩ := writeLoop_eq h { s.conn with net := (client.connected s.conn.net).2 }
    (le_refl (Message.mk cmd (numberOf id s).1 payload).encode.length)
  dsimp only
  rw [hall, if_pos rfl]
  obtain ⟨hdelta, halive, hcut⟩ := limit_sent client (t := { s with
    lastMsgId
    state := .connected
    conn := (writeLoop client (Message.mk cmd (numberOf id s).1 payload).encode.length
      (Message.mk cmd (numberOf id s).1 payload).encode
      { s.conn with net := (client.connected s.conn.net).2 }).2 }) rfl (hsame.trans hconn)
  exact ⟨hdelta, halive, hcut⟩

/-! ### Many messages -/

structure Call where
  cmd : BitVec 8
  id : BitVec 16
  payload : Payload

def send (client : Client Net) (s : Session Net App) (call : Call) : Session Net App :=
  sendCmd client call.cmd call.id call.payload s

/-- The time that a message takes note of, from the message before. -/
def gap (client : Client Net) (s : Session Net App) (call : Call) : ℕ :=
  ((send client s call).lastActivityOut - s.lastActivityOut).toNat

/-- While the session is connected, every message comes in a time with this property. -/
def Timed (client : Client Net) (inTime : ℕ → Prop) : List Call → Session Net App → Prop
  | [], _ => True
  | call :: calls, s => (s.state = .connected → inTime (gap client s call)) ∧
      Timed client inTime calls (send client s call)

instance decidableTimed (client : Client Net) (inTime : ℕ → Prop) [DecidablePred inTime] :
    ∀ (calls : List Call) (s : Session Net App), Decidable (Timed client inTime calls s)
  | [], _ => .isTrue trivial
  | call :: calls, s =>
    have := decidableTimed client inTime calls (send client s call)
    inferInstanceAs (Decidable ((_ → _) ∧ _))

/-- A message that is skipped leaves the session cut. -/
theorem send_cut (client : Client Net) (call : Call) (hstate : s.state ≠ .connected)
    (hconn : s.conn.isConn = false) :
    (send client s call).state ≠ .connected ∧ (send client s call).conn.isConn = false := by
  have hlink (t : Session Net App) (h : t.conn.isConn = false) :
      t.conn.connected client = (false, t.conn) := by
    rw [Link.connected, h]
    rfl
  obtain ⟨lastMsgId, hnumbered⟩ := numberOf_eq call.id s
  rw [send, sendCmd]
  dsimp only
  rw [hnumbered, hlink _ hconn]
  exact ⟨hstate, hconn⟩

variable {calls : List Call}

theorem foldl_send_cut (calls : List Call) (hstate : s.state ≠ .connected)
    (hconn : s.conn.isConn = false) : (calls.foldl (send client) s).state ≠ .connected := by
  induction calls generalizing s with
  | nil => exact hstate
  | cons call calls ih =>
    obtain ⟨hnext, hlink⟩ := send_cut client call hstate hconn
    exact ih hnext hlink

/-- Messages that are at least 32 milliseconds apart are never too many. -/
theorem state_of_spaced (h : TakesAll client) (hstate : s.state = .connected)
    (hconn : s.conn.isConn = true) (haverage : 50 ≤ s.deltaCmd.toNat)
    (hspaced : Timed client (32 ≤ ·) calls s) :
    (calls.foldl (send client) s).state = .connected := by
  induction calls generalizing s with
  | nil => exact hstate
  | cons call calls ih =>
    obtain ⟨hfirst, hrest⟩ := hspaced
    have hsent : Sent s (send client s call) := sendCmd_sent h hstate hconn
    have hshare := toNat_averageSample_of_le s.deltaCmd (hfirst hstate)
    rw [← hsent.deltaCmd] at hshare
    have hgap : 32 ≤ ((send client s call).lastActivityOut - s.lastActivityOut).toNat :=
      hfirst hstate
    have hkept : 50 ≤ (send client s call).deltaCmd.toNat := by omega
    obtain ⟨hnext, hlink⟩ := hsent.alive (BitVec.le_def.mpr hkept)
    exact ih hnext hlink hkept hrest

theorem takesAll_scripted : TakesAll scripted := ⟨fun _ ↦ rfl, fun _ _ ↦ rfl⟩

/-- A session behind its login, with these readings of the clock still to come. -/
def loggedIn (readings : List (BitVec 32)) : Session Scripted Unit :=
  { powerOn (Scripted.mk [] readings) () with
    state := .connected
    conn := ⟨true, ⟨[], readings⟩⟩
    deltaCmd := 1000 }

def heartbeat : Call := ⟨Command.ping, 0, .body []⟩

theorem state_of_spaced_heartbeats :
    Timed scripted (32 ≤ ·) [heartbeat, heartbeat] (loggedIn [40, 100]) ∧
      ([heartbeat, heartbeat].foldl (send scripted) (loggedIn [40, 100])).state = .connected := by
  have hspaced : Timed scripted (32 ≤ ·) [heartbeat, heartbeat] (loggedIn [40, 100]) := by
    decide +kernel
  exact ⟨hspaced, state_of_spaced takesAll_scripted rfl rfl (by decide) hspaced⟩

/-- Messages that are less than 32 milliseconds apart are too many from the one on that takes the
average below its least value. -/
theorem state_iff_of_burst (h : TakesAll client) (hstate : s.state = .connected)
    (hconn : s.conn.isConn = true) (haverage : 50 ≤ s.deltaCmd.toNat)
    (hburst : Timed client (· < 32) calls s) :
    (calls.foldl (send client) s).state = .connected ↔
      50 ≤ decay^[calls.length] s.deltaCmd.toNat := by
  induction calls generalizing s with
  | nil => exact iff_of_true hstate haverage
  | cons call calls ih =>
    obtain ⟨hfirst, hrest⟩ := hburst
    have hsent : Sent s (send client s call) := sendCmd_sent h hstate hconn
    have hdecay : (send client s call).deltaCmd.toNat = decay s.deltaCmd.toNat := by
      rw [hsent.deltaCmd]
      exact toNat_averageSample_of_lt (Nat.lt_of_lt_of_le (by decide) haverage) (hfirst hstate)
    rw [List.foldl_cons, List.length_cons, Function.iterate_succ_apply, ← hdecay]
    by_cases hleast : 50 ≤ (send client s call).deltaCmd.toNat
    · obtain ⟨hnext, hlink⟩ := hsent.alive (BitVec.le_def.mpr hleast)
      exact ih hnext hlink hleast hrest
    · obtain ⟨hnext, hlink⟩ := hsent.cut (BitVec.lt_def.mpr (Nat.lt_of_not_le hleast))
      have hne : (send client s call).state ≠ .connected := by
        rw [hnext]
        decide
      refine iff_of_false (foldl_send_cut calls hne hlink) fun hle ↦ hleast ?_
      exact hle.trans (iterate_decay_le _ (Nat.zero_le _))

theorem state_iff_of_burst_heartbeats :
    ((List.replicate 87 heartbeat).foldl (send scripted) (loggedIn [])).state = .connected ↔
      50 ≤ decay^[87] 1000 := by
  have hburst : Timed scripted (· < 32) (List.replicate 87 heartbeat) (loggedIn []) := by
    decide +kernel
  exact state_iff_of_burst takesAll_scripted rfl rfl (by decide) hburst

example : 50 ≤ decay^[86] 1000 ∧ decay^[87] 1000 < 50 := by decide +kernel

end Sketchbook.Blynk.MessageLimit
