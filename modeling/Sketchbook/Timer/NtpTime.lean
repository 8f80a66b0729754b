import Mathlib.Data.Int.Notation
import Mathlib.Data.List.GetD
import Sketchbook.Foundation.BigEndian

/-!
# The time from an NTP reply

timers.ino and NTPClient_update.ino get the time with the same `getNtpTime`. It throws away the
packets that are waiting, sends a request and polls for 1500 ms until a packet of at least 48 bytes
is there. Bytes 40 to 43 of that packet are the seconds since 1900, in an `unsigned long` of 32
bits; the function takes off the seconds between 1900 and 1970 and adds those of the time zone.

The seconds since 1900 pass `2 ^ 32` in February 2036, and a server sends them modulo `2 ^ 32`. From
then on the subtraction wraps around. `getNtpTime_eq` says that the result is right on both sides of
that day.
-/

set_option autoImplicit false
set_option relaxedAutoImplicit false

namespace Sketchbook.Timer.NtpTime

open Foundation.BigEndian

def ntpPacketSize : ℕ := 48
def secsPerHour : BitVec 32 := 3600

/-- What a call of `Udp.parsePacket` finds: the bytes of a packet, if one has arrived. -/
abbrev Arrival := Option (List (BitVec 8))

/-- The value of `Udp.parsePacket`: the length of the packet, 0 if there is none. -/
def parsePacket (arrival : Arrival) : ℕ := (arrival.getD []).length

/-- `Udp.read(packetBuffer, NTP_PACKET_SIZE)`: the first bytes of the packet over the buffer. -/
def readPacket (arrival : Arrival) (packetBuffer : List (BitVec 8)) : List (BitVec 8) :=
  let bytes := (arrival.getD []).take ntpPacketSize
  bytes ++ packetBuffer.drop bytes.length

/-- A turn of the waiting loop: the value of `millis()` in its condition, and what has arrived. -/
structure Poll where
  millis : BitVec 32
  arrival : Arrival

/-- What happens around a call of `getNtpTime`: what the calls of `parsePacket` that discard old
packets find, the buffer with the request, the time at which the waiting starts and its turns. -/
structure Exchange where
  discarded : List Arrival
  request : List (BitVec 8)
  beginWait : BitVec 32
  polls : List Poll

/-- `secsSince1900` from the bytes of the buffer. -/
def secsSince1900 (packetBuffer : List (BitVec 8)) : BitVec 32 :=
  (packetBuffer.getD 40 0).setWidth 32 <<< 24 |||
    (packetBuffer.getD 41 0).setWidth 32 <<< 16 |||
      (packetBuffer.getD 42 0).setWidth 32 <<< 8 |||
        (packetBuffer.getD 43 0).setWidth 32

/-- The time that a full packet buffer stands for. -/
def localTime (timeZone : ℤ) (packetBuffer : List (BitVec 8)) : BitVec 32 :=
  secsSince1900 packetBuffer - 2208988800 + BitVec.ofInt 32 timeZone * secsPerHour

/-- The loop `while (millis() - beginWait < 1500)`, `none` while it is still waiting. -/
def awaitReply (timeZone : ℤ) (beginWait : BitVec 32) (packetBuffer : List (BitVec 8)) :
    List Poll → Option (BitVec 32)
  | [] => none
  | poll :: polls =>
    if poll.millis - beginWait < 1500 then
      let size := parsePacket poll.arrival
      if size ≥ ntpPacketSize then
        some (localTime timeZone (readPacket poll.arrival packetBuffer))
      else awaitReply timeZone beginWait packetBuffer polls
    else some 0

/-- The body of `getNtpTime`. The discarding loop ends at the first call of `parsePacket` that finds
nothing. -/
def ntpTime (timeZone : ℤ) (exchange : Exchange) : Option (BitVec 32) :=
  if exchange.discarded.all (parsePacket · > 0) then none
  else awaitReply timeZone exchange.beginWait exchange.request exchange.polls

namespace Timers

def timeZone : ℤ := 3

/-- `getNtpTime` of timers.ino. -/
def getNtpTime (exchange : Exchange) : Option (BitVec 32) := ntpTime timeZone exchange

end Timers

namespace NTPClientUpdate

def timeZone : ℤ := 3

/-- `getNtpTime` of NTPClient_update.ino. -/
def getNtpTime (exchange : Exchange) : Option (BitVec 32) := ntpTime timeZone exchange

end NTPClientUpdate

/-! ### A call that gets a reply -/

/-- The discarding ends, and the first packet of full size that comes in time is this reply. -/
structure Replies (exchange : Exchange) (reply : List (BitVec 8)) : Prop where
  discards : ∃ arrival ∈ exchange.discarded, parsePacket arrival = 0
  arrives : ∃ waits now later, exchange.polls = waits ++ ⟨now, some reply⟩ :: later ∧
    now - exchange.beginWait < 1500 ∧
    ∀ poll ∈ waits, poll.millis - exchange.beginWait < 1500 ∧
      parsePacket poll.arrival < ntpPacketSize

/-- Turns without a full packet do not end the waiting. -/
theorem awaitReply_append {timeZone : ℤ} {beginWait : BitVec 32} {packetBuffer : List (BitVec 8)}
    {waits : List Poll} (hwaits : ∀ poll ∈ waits, poll.millis - beginWait < 1500 ∧
      parsePacket poll.arrival < ntpPacketSize) (polls : List Poll) :
    awaitReply timeZone beginWait packetBuffer (waits ++ polls) =
      awaitReply timeZone beginWait packetBuffer polls := by
  induction waits with
  | nil => rfl
  | cons poll waits ih =>
    obtain ⟨⟨hmillis, hshort⟩, hlater⟩ := List.forall_mem_cons.mp hwaits
    rw [List.cons_append, awaitReply, if_pos hmillis]
    exact (if_neg (Nat.not_le.mpr hshort)).trans (ih hlater)

/-- The time is computed from the packet buffer with the reply in it. -/
theorem ntpTime_of_replies {exchange : Exchange} {reply : List (BitVec 8)}
    (h : Replies exchange reply) (hsize : ntpPacketSize ≤ reply.length) (timeZone : ℤ) :
    ntpTime timeZone exchange =
      some (localTime timeZone (readPacket (some reply) exchange.request)) := by
  obtain ⟨arrival, hmem, hempty⟩ := h.discards
  obtain ⟨waits, now, later, hpolls, hnow, hwaits⟩ := h.arrives
  have hends : ¬ exchange.discarded.all (parsePacket · > 0) = true := by
    intro hall
    have hfull := List.all_eq_true.mp hall arrival hmem
    rw [hempty] at hfull
    exact absurd hfull (by decide)
  rw [ntpTime, if_neg hends, hpolls, awaitReply_append hwaits, awaitReply, if_pos hnow]
  exact if_pos hsize

/-! ### The arithmetic of the reply -/

/-- Bytes 40 to 43 of the buffer are those of the reply. -/
theorem secsSince1900_readPacket {reply : List (BitVec 8)} (hsize : ntpPacketSize ≤ reply.length)
    (request : List (BitVec 8)) :
    (secsSince1900 (readPacket (some reply) request)).toNat = decode ((reply.drop 40).take 4) := by
  have hbyte (index : ℕ) (hindex : index < ntpPacketSize) :
      (readPacket (some reply) request).getD index 0 = reply.getD index 0 := by
    have htake : index < (reply.take ntpPacketSize).length := by
      rw [List.length_take, Nat.min_eq_left hsize]
      exact hindex
    rw [readPacket, Option.getD_some, List.getD_append _ _ _ _ htake, List.getD_eq_getElem?_getD,
      List.getElem?_take_of_lt hindex, ← List.getD_eq_getElem?_getD]
  have hfield : (reply.drop 40).take 4 =
      [reply.getD 40 0, reply.getD 41 0, reply.getD 42 0, reply.getD 43 0] := by
    have hcell (index : ℕ) (hindex : index < ntpPacketSize) :
        reply.drop index = reply.getD index 0 :: reply.drop (index + 1) := by
      rw [List.drop_eq_getElem_cons (Nat.lt_of_lt_of_le hindex hsize), List.getD_eq_getElem]
    rw [hcell 40 (by decide), hcell 41 (by decide), hcell 42 (by decide), hcell 43 (by decide)]
    rfl
  rw [hfield, secsSince1900, toNat_assembled, hbyte 40 (by decide), hbyte 41 (by decide),
    hbyte 42 (by decide), hbyte 43 (by decide)]

/-- For every Unix time that fits its time zone into 32 bits, a reply whose seconds field is that
time makes `getNtpTime` return the local time, in both sketches and whatever else the reply holds.
The seconds field is modulo `2 ^ 32`, so times behind the rollover of 2036 are among them. -/
theorem getNtpTime_eq {u : ℕ} (hu : u + 10800 < 2 ^ 32) {reply : List (BitVec 8)}
    (hsize : 48 ≤ reply.length)
    (hfield : (reply.drop 40).take 4 = encode 4 ((u + 2208988800) % 2 ^ 32))
    {exchange : Exchange} (hreplies : Replies exchange reply) :
    ∃ time : BitVec 32, time.toNat = u + 10800 ∧ Timers.getNtpTime exchange = some time ∧
      NTPClientUpdate.getNtpTime exchange = some time := by
  refine ⟨localTime 3 (readPacket (some reply) exchange.request), ?_,
    ntpTime_of_replies hreplies hsize 3, ntpTime_of_replies hreplies hsize 3⟩
  have hsecs := secsSince1900_readPacket hsize exchange.request
  rw [hfield, decode_encode] at hsecs
  have hzone : (BitVec.ofInt 32 3 * secsPerHour).toNat = 10800 := by decide
  have hepoch : (2208988800 : BitVec 32).toNat = 2208988800 := by decide
  rw [localTime, BitVec.toNat_add, BitVec.toNat_sub, hsecs, hzone, hepoch]
  omega

/-- A reply of the second in which the seconds since 1900 pass `2 ^ 32`. -/
def rolloverReply : List (BitVec 8) :=
  List.replicate 40 0xAB ++ [0, 0, 0, 0] ++ List.replicate 8 0xCD

/-- The reply comes in the second turn of the waiting, behind an overflow of `millis()`. -/
def rolloverExchange : Exchange where
  discarded := [some [0x00], none]
  request := List.replicate 48 0
  beginWait := 4294967000
  polls := [⟨4294967200, none⟩, ⟨100, some rolloverReply⟩]

/-- The time of the rollover. -/
theorem getNtpTime_rolloverExchange :
    ∃ time : BitVec 32, time.toNat = 2085978496 + 10800 ∧
      Timers.getNtpTime rolloverExchange = some time ∧
      NTPClientUpdate.getNtpTime rolloverExchange = some time :=
  getNtpTime_eq (by decide) (by decide) (by decide)
    { discards := ⟨none, by decide, rfl⟩
      arrives := ⟨[⟨4294967200, none⟩], 100, [], rfl, by decide, by decide⟩ }

end Sketchbook.Timer.NtpTime
