import Sketchbook.OneWire.TargetSearch

/-!
# The search for devices with an alarm

The DallasTemperature library has a search of its own for the devices with an alarm. `alarmSearch`
keeps the position of the last junction at which it went on with a clear bit, moves it while it
walks, and notes that it is done when it passed no such junction. Positions are kept in a `char`,
with -1 for none, and this is a signed type on one board and an unsigned one on another.

Where it is signed, a walk is the same descent through the codes as that of `search`
(`alarmSearch_of_some`), with the junction one below the last discrepancy. Where it is unsigned, -1
is 255, every junction lies in front of it, and each walk repeats the bits of the one before.
-/

set_option autoImplicit false
set_option relaxedAutoImplicit false

namespace Sketchbook.OneWire.AlarmSearch

open Foundation.BitDescent RomSearch SlaveBus DeviceSearch

/-! ### The function -/

/-- The fields of the library for this search. -/
structure Alarms where
  alarmSearchAddress : Rom
  alarmSearchJunction : BitVec 8
  alarmSearchExhausted : Bool

/-- `resetAlarmSearch`, which leaves the last byte of the address. -/
def resetAlarmSearch (state : Alarms) : Alarms where
  alarmSearchAddress :=
    ⟨fun index ↦ if index.val < 7 then 0 else state.alarmSearchAddress.byte index⟩
  alarmSearchJunction := -1
  alarmSearchExhausted := false

/-- The value of a `char`. -/
def ofChar (signed : Bool) (value : BitVec 8) : ℤ := if signed then value.toInt else value.toNat

/-- The variables of `alarmSearch`, and the fields that its loop writes. -/
structure AlarmWalk where
  address : Rom
  junction : BitVec 8
  lastJunction : BitVec 8
  done : Bool

def Alarms.walk (state : Alarms) : AlarmWalk where
  address := state.alarmSearchAddress
  junction := state.alarmSearchJunction
  lastJunction := -1
  done := true

/-- The bit that is taken where the devices leave the choice. -/
def AlarmWalk.fork (signed : Bool) (i : ℕ) (walk : AlarmWalk) : Bool × AlarmWalk :=
  if i = ofChar signed walk.junction then (true, { walk with junction := walk.lastJunction })
  else if i < ofChar signed walk.junction then
    if walk.address.byte (Fin.ofNat 8 (i / 8)) &&& 1#8 <<< (i % 8) ≠ 0 then (true, walk)
    else (false, { walk with done := false, lastJunction := BitVec.ofNat 8 i })
  else (false, { walk with junction := BitVec.ofNat 8 i, done := false })

/-- One turn of the loop for the bit and the complement that were read: the bit that is taken, and
what becomes of the variables. -/
def AlarmWalk.turn (signed : Bool) (i : ℕ) (a nota : Bool) (walk : AlarmWalk) : Bool × AlarmWalk :=
  let taken := if !a && !nota then walk.fork signed i else (a, walk)
  (taken.1, { taken.2 with
    address := taken.2.address.put (Fin.ofNat 8 (i / 8)) (1#8 <<< (i % 8)) taken.1 })

section Bus

variable {Wire : Type*} (bus : Bus Wire)

/-- The loop of `alarmSearch` with a number of its 64 turns to go. It stops at a bit for which no
device answers. -/
def alarmLoop (signed : Bool) : ℕ → AlarmWalk → Wire → Bool × AlarmWalk × Wire
  | 0, walk, wire => (true, walk, wire)
  | turns + 1, walk, wire =>
    let a := bus.readBit wire
    let nota := bus.readBit a.2
    if a.1 && nota.1 then (false, walk, nota.2)
    else
      let turned := walk.turn signed (64 - (turns + 1)) a.1 nota.1
      alarmLoop signed turns turned.2 (bus.writeBit turned.1 nota.2)

def alarmSearch (signed : Bool) (state : Alarms) (wire : Wire) : Option Rom × Alarms × Wire :=
  if state.alarmSearchExhausted then (none, state, wire)
  else
    let presence := bus.reset wire
    if presence.1 then
      let walked := alarmLoop bus signed 64 state.walk (write bus 0xEC presence.2)
      let walk := walked.2.1
      if walked.1 then (some walk.address, ⟨walk.address, walk.junction, walk.done⟩, walked.2.2)
      else (none, ⟨walk.address, walk.junction, false⟩, walked.2.2)
    else (none, state, presence.2)

variable {bus} {P : Wire → Prop}

theorem keeps_alarmLoop (h : bus.Keeps P) (signed : Bool) (turns : ℕ) (walk : AlarmWalk)
    {wire : Wire} (hwire : P wire) : P (alarmLoop bus signed turns walk wire).2.2 := by
  induction turns generalizing walk wire with
  | zero => exact hwire
  | succ turns ih =>
    have hread := h.readBit _ (h.readBit wire hwire)
    rw [alarmLoop]
    dsimp only
    split
    · exact hread
    · exact ih _ (h.writeBit _ _ hread)

/-- The search keeps what every slot keeps. -/
theorem keeps_alarmSearch (h : bus.Keeps P) (signed : Bool) (state : Alarms) {wire : Wire}
    (hwire : P wire) : P (alarmSearch bus signed state wire).2.2 := by
  rw [alarmSearch]
  split
  · exact hwire
  dsimp only
  split
  · split <;> exact keeps_alarmLoop h signed 64 _ (h.write _ (h.reset wire hwire))
  · exact h.reset wire hwire

end Bus

/-! ### Junctions -/

/-- The junction behind a number of bits. -/
def junctionOf (last : ℕ) : BitVec 8 := BitVec.ofNat 8 last - 1

/-- The number of bits in front of which a walk turns, with the bit at the junction. -/
def turnOf (signed : Bool) (junction : BitVec 8) : ℕ := (ofChar signed junction + 1).toNat

theorem turnOf_junctionOf {last : ℕ} (h : last ≤ 64) : turnOf true (junctionOf last) = last := by
  revert last
  decide

theorem turnOf_unsigned : turnOf false (-1) = 256 := by decide

theorem ofNat_eq_junctionOf (i : ℕ) : BitVec.ofNat 8 i = junctionOf (i + 1) := by
  rw [junctionOf, BitVec.ofNat_add]
  exact (BitVec.add_sub_cancel _ _).symm

/-- The choice is made by the rule of a descent. -/
theorem fork_eq (signed : Bool) (i : ℕ) (walk : AlarmWalk) :
    walk.fork signed i =
      if i + 1 = turnOf signed walk.junction then
        (true, { walk with junction := walk.lastJunction })
      else if i + 1 < turnOf signed walk.junction then
        if walk.address.byte (Fin.ofNat 8 (i / 8)) &&& 1#8 <<< (i % 8) ≠ 0 then (true, walk)
        else (false, { walk with done := false, lastJunction := junctionOf (i + 1) })
      else (false, { walk with junction := junctionOf (i + 1), done := false }) := by
  have heq : (i : ℤ) = ofChar signed walk.junction ↔ i + 1 = turnOf signed walk.junction := by
    rw [turnOf]
    omega
  have hlt : (i : ℤ) < ofChar signed walk.junction ↔ i + 1 < turnOf signed walk.junction := by
    rw [turnOf]
    omega
  rw [AlarmWalk.fork, ofNat_eq_junctionOf i]
  exact if_congr heq rfl (if_congr hlt rfl rfl)

/-! ### The walk -/

variable {Memory Task : Type} {functions : Functions Memory Task}
  {slaves : List (Slave Memory Task)} {signed : Bool} {junction : BitVec 8} {position : ℕ}
  {mate : Search} {walk : Walk} {alarm : AlarmWalk}

/-- What the variables have to do with those of a walk of `search`, in front of the turn for one
bit. In front of the junction of the walk before, that one is still kept. Behind it the junction is
the last one at which the walk went on with a clear bit, unless the devices left no choice at the
junction of the walk before, nor behind it. -/
structure Mirrors (slaves : List (Slave Memory Task)) (signed : Bool) (junction : BitVec 8)
    (position : ℕ) (walk : Walk) (alarm : AlarmWalk) : Prop where
  address : alarm.address = walk.romNo
  done : alarm.done = (walk.lastZero == 0)
  before : position < turnOf signed junction →
    alarm.junction = junction ∧ alarm.lastJunction = junctionOf walk.lastZero
  behind : turnOf signed junction ≤ position →
    alarm.junction = junctionOf walk.lastZero ∨ alarm.junction = junction ∧
      alarm.lastJunction = junctionOf walk.lastZero ∧
      ∃ place : Fin 64, place.val + 1 = turnOf signed junction ∧
        ¬ Discrepancy (codes false slaves) walk.romNo.bits place

theorem discrepancy_congr {rom other : Rom} (place : Fin 64)
    (h : ∀ i ≤ place.val, other.bitAt i = rom.bitAt i) :
    Discrepancy (codes false slaves) other.bits place ↔
      Discrepancy (codes false slaves) rom.bits place := by
  have hcandidate (device : Device Memory) :
      Candidate false other place device ↔ Candidate false rom place device :=
    candidate_congr (fun i hi ↦ h i (Nat.le_of_lt hi)) device
  simp only [discrepancy_iff, h place le_rfl, hcandidate]

/-- A turn in which the devices leave no choice. -/
theorem Mirrors.single (h : Mirrors slaves signed junction position walk alarm)
    (hposition : position < 64) {next : Walk} (hlastZero : next.lastZero = walk.lastZero)
    (hbits : ∀ i < position, next.romNo.bitAt i = walk.romNo.bitAt i)
    (hnone : ¬ Discrepancy (codes false slaves) next.romNo.bits ⟨position, hposition⟩) :
    Mirrors slaves signed junction (position + 1) next { alarm with address := next.romNo } where
  address := rfl
  done := by
    rw [hlastZero]
    exact h.done
  before hlt := by
    rw [hlastZero]
    exact h.before (Nat.lt_of_succ_lt hlt)
  behind hle := by
    rw [hlastZero]
    rcases Nat.lt_or_eq_of_le hle with hbehind | heq
    · refine (h.behind (Nat.le_of_lt_succ hbehind)).imp_right ?_
      rintro ⟨hjunction, hlastJunction, place, hplace, hsame⟩
      refine ⟨hjunction, hlastJunction, place, hplace, fun hdiscrepancy ↦ hsame ?_⟩
      exact (discrepancy_congr place fun i hi ↦ hbits i (by omega)).mp hdiscrepancy
    · obtain ⟨hjunction, hlastJunction⟩ := h.before (heq ▸ Nat.lt_succ_self position)
      exact Or.inr ⟨hjunction, hlastJunction, ⟨position, hposition⟩, heq.symm, hnone⟩

/-- A turn in which they leave the choice takes the bit of the descent. -/
theorem Mirrors.fork (h : Mirrors slaves signed junction position walk alarm)
    (hposition : position < 64) (hsigned : signed = true ∨ 64 ≤ turnOf signed junction)
    (hlast : walk.lastZero ≤ position) {previous : Rom}
    (hprevious : walk.romNo.bitAt position = previous.bitAt position) {next : Walk}
    (hlastZero : next.lastZero =
      if chosen previous.bits (turnOf signed junction) ⟨position, hposition⟩ then walk.lastZero
      else position + 1) :
    (alarm.fork signed position).1 =
        chosen previous.bits (turnOf signed junction) ⟨position, hposition⟩ ∧
      Mirrors slaves signed junction (position + 1) next
        { (alarm.fork signed position).2 with address := next.romNo } := by
  have hbit : alarm.address.byte (Fin.ofNat 8 (position / 8)) &&& 1#8 <<< (position % 8) ≠ 0 ↔
      previous.bitAt position = true := by
    rw [h.address, BitVec.and_comm, ← bne_iff_ne,
      bitMask_and_ne_zero _ (Nat.mod_lt _ (by decide)), ← hprevious]
    rfl
  rw [fork_eq]
  rcases Nat.lt_trichotomy (position + 1) (turnOf signed junction) with hlt | heq | hgt
  · obtain ⟨hjunction, hlastJunction⟩ := h.before (Nat.lt_of_succ_lt hlt)
    have hchosen : chosen previous.bits (turnOf signed junction) ⟨position, hposition⟩ =
        previous.bitAt position := if_pos hlt
    rw [hchosen] at hlastZero ⊢
    rw [hjunction, if_neg (Nat.ne_of_lt hlt), if_pos hlt]
    cases hset : previous.bitAt position with
    | true =>
      rw [hset, if_pos rfl] at hlastZero
      rw [if_pos (hbit.mpr hset)]
      refine ⟨rfl, rfl, hlastZero ▸ h.done, fun _ ↦ ⟨hjunction, hlastZero ▸ hlastJunction⟩, ?_⟩
      exact fun hle ↦ absurd hlt (Nat.not_lt.mpr hle)
    | false =>
      rw [hset, if_neg Bool.false_ne_true] at hlastZero
      rw [if_neg fun hne ↦ Bool.noConfusion (hset.symm.trans (hbit.mp hne))]
      refine ⟨rfl, rfl, ?_, fun _ ↦ ⟨rfl, ?_⟩, fun hle ↦ absurd hlt (Nat.not_lt.mpr hle)⟩
      · rw [hlastZero]
        rfl
      · rw [hlastZero]
  · obtain ⟨hjunction, hlastJunction⟩ := h.before (heq ▸ Nat.lt_succ_self position)
    have hchosen : chosen previous.bits (turnOf signed junction) ⟨position, hposition⟩ = true := by
      rw [chosen, if_neg (Nat.not_lt.mpr (Nat.le_of_eq heq.symm)), decide_eq_true heq]
    rw [hchosen, if_pos rfl] at hlastZero
    rw [hchosen, hjunction, if_pos heq, hlastJunction, ← hlastZero]
    refine ⟨rfl, rfl, hlastZero ▸ h.done, fun hlt ↦ absurd heq (Nat.ne_of_lt hlt), ?_⟩
    exact fun _ ↦ Or.inl rfl
  · have hbehind : turnOf signed junction ≤ position := Nat.le_of_lt_succ hgt
    have hchosen : chosen previous.bits (turnOf signed junction) ⟨position, hposition⟩ =
        false := by
      rw [chosen, if_neg (Nat.lt_asymm hgt), decide_eq_false (Nat.ne_of_gt hgt)]
    have hturn : turnOf signed alarm.junction ≤ position := by
      rcases h.behind hbehind with hlatest | ⟨hjunction, -⟩
      · rcases hsigned with rfl | hlarge
        · rw [hlatest, turnOf_junctionOf (hlast.trans hposition.le)]
          exact hlast
        · omega
      · exact hjunction ▸ hbehind
    rw [hchosen, if_neg Bool.false_ne_true] at hlastZero
    rw [hchosen, if_neg (by omega), if_neg (by omega)]
    refine ⟨rfl, rfl, ?_, fun hlt ↦ absurd hlt (Nat.lt_asymm hgt), fun _ ↦ Or.inl ?_⟩
    · rw [hlastZero]
      rfl
    · rw [hlastZero]

theorem address_fork (signed : Bool) (i : ℕ) (walk : AlarmWalk) :
    (walk.fork signed i).2.address = walk.address := by
  rw [AlarmWalk.fork]
  split
  · rfl
  split
  · split <;> rfl
  · rfl

/-- A turn takes the direction of the walk of `search`. -/
theorem Mirrors.turn (h : Mirrors slaves signed junction position walk alarm)
    (hwalking : Walking false slaves mate position walk)
    (hmate : mate.lastDiscrepancy = turnOf signed junction) (hposition : position < 64)
    (hsigned : signed = true ∨ 64 ≤ turnOf signed junction) {idBit cmpIdBit : Bool}
    (hid : idBit = decide (∀ slave ∈ slaves, Candidate false walk.romNo position slave.device →
      slave.device.rom.bitAt position = true))
    (hcmp : cmpIdBit = decide (∀ slave ∈ slaves, Candidate false walk.romNo position slave.device →
      slave.device.rom.bitAt position = false))
    (hanswer : ∃ slave ∈ slaves, Candidate false walk.romNo position slave.device)
    (hbyte : walk.romByteNumber < 8) {direction : Bool}
    (hdirection : direction =
      walk.direction mate.lastDiscrepancy ⟨walk.romByteNumber, hbyte⟩ idBit cmpIdBit) :
    (alarm.turn signed position idBit cmpIdBit).1 = direction ∧
      Mirrors slaves signed junction (position + 1)
        (walk.turn ⟨walk.romByteNumber, hbyte⟩ idBit cmpIdBit direction)
        (alarm.turn signed position idBit cmpIdBit).2 := by
  have haddress : (walk.turn ⟨walk.romByteNumber, hbyte⟩ idBit cmpIdBit direction).romNo =
      walk.romNo.put (Fin.ofNat 8 (position / 8)) (1#8 <<< (position % 8)) direction := by
    rw [← hwalking.index_eq hbyte, ← hwalking.romByteMask]
    rfl
  have hlastZero : (walk.turn ⟨walk.romByteNumber, hbyte⟩ idBit cmpIdBit direction).lastZero =
      if (idBit == cmpIdBit && !direction) = true then position + 1 else walk.lastZero := by
    rw [← hwalking.idBitNumber]
    rfl
  have hlast : walk.lastZero ≤ position := by
    rcases Nat.eq_zero_or_pos walk.lastZero with hzero | hpositive
    · omega
    · obtain ⟨place, hplace, hvalue, -⟩ := hwalking.skipped hpositive
      omega
  generalize walk.turn ⟨walk.romByteNumber, hbyte⟩ idBit cmpIdBit direction = next at *
  have hput : ∀ i < 64, next.romNo.bitAt i =
      if i = position then direction else walk.romNo.bitAt i := fun i hi ↦ by
    rw [haddress, bitAt_put _ hposition hi]
  have hbits : ∀ i < position, next.romNo.bitAt i = walk.romNo.bitAt i := fun i hi ↦ by
    rw [hput i (hi.trans hposition), if_neg (Nat.ne_of_lt hi)]
  rw [hwalking.direction hposition, hmate] at hdirection
  rcases answers hid hcmp hanswer with ⟨hdiffer, hall⟩ | ⟨rfl, rfl, -⟩
  · rw [if_pos hdiffer] at hdirection
    subst hdirection
    have hsingle : (!direction && !cmpIdBit) = false := by
      cases direction <;> cases cmpIdBit <;> first | rfl | exact absurd rfl (bne_iff_ne.mp hdiffer)
    have hsame : ¬ (direction == cmpIdBit && !direction) = true := by
      rw [beq_eq_false_iff_ne.mpr (bne_iff_ne.mp hdiffer)]
      exact Bool.false_ne_true
    rw [if_neg hsame] at hlastZero
    rw [AlarmWalk.turn, hsingle, if_neg Bool.false_ne_true]
    dsimp only
    rw [h.address, ← haddress]
    refine ⟨rfl, h.single hposition hlastZero hbits fun hdiscrepancy ↦ ?_⟩
    obtain ⟨slave, hslave, hcandidate, hne⟩ := (discrepancy_iff _).mp hdiscrepancy
    rw [hput position hposition, if_pos rfl] at hne
    exact hne (hall slave hslave ((candidate_congr hbits slave.device).mp hcandidate))
  · have hchosen : direction =
        chosen mate.romNo.bits (turnOf signed junction) ⟨position, hposition⟩ := hdirection
    have hskip : next.lastZero =
        if chosen mate.romNo.bits (turnOf signed junction) ⟨position, hposition⟩ then walk.lastZero
        else position + 1 := by
      rw [hlastZero, ← hchosen]
      cases direction <;> rfl
    obtain ⟨hbit, hmirrors⟩ := h.fork hposition hsigned hlast
      (hwalking.ahead position hposition le_rfl) hskip
    rw [← hchosen] at hbit
    have hboth : (!false && !false) = true := rfl
    rw [AlarmWalk.turn]
    dsimp only
    rw [if_pos hboth, hbit, address_fork, h.address, ← haddress]
    exact ⟨rfl, hmirrors⟩

variable (functions) in
/-- The rest of the loop, when a device is left that it can find: it goes through all 64 bits beside
a walk of `search`. -/
theorem alarmLoop_eq (turns : ℕ) (hturns : turns ≤ 64)
    (h : Mirrors slaves signed junction (64 - turns) walk alarm)
    (hwalking : Walking false slaves mate (64 - turns) walk)
    (hmate : mate.lastDiscrepancy = turnOf signed junction)
    (hsigned : signed = true ∨ 64 ≤ turnOf signed junction)
    (hanswer : ∃ slave ∈ slaves, Candidate false walk.romNo (64 - turns) slave.device) :
    ∃ final result, alarmLoop (bus functions) signed turns alarm
        (among false walk.romNo (64 - turns) (awaiting functions (64 - turns)) slaves) =
          (true, result, among false final.romNo 64 (.addressed functions.start) slaves) ∧
      Mirrors slaves signed junction 64 final result ∧ Walking false slaves mate 64 final ∧
      ∃ slave ∈ slaves, Candidate false final.romNo 64 slave.device := by
  induction turns generalizing walk alarm with
  | zero => exact ⟨walk, alarm, rfl, h, hwalking, hanswer⟩
  | succ turns ih =>
    have hposition : 64 - (turns + 1) < 64 := by omega
    have hnext : 64 - (turns + 1) + 1 = 64 - turns := by omega
    rw [alarmLoop]
    generalize 64 - (turns + 1) = position at *
    have hbyte : walk.romByteNumber < 8 := by
      rw [hwalking.romByteNumber]
      omega
    have hread := readBit_bit functions false slaves walk.romNo hposition
    have hreadComplement := readBit_complement functions false slaves walk.romNo position
    generalize hid : decide (∀ slave ∈ slaves, Candidate false walk.romNo position slave.device →
      slave.device.rom.bitAt position = true) = idBit at hread
    generalize hcmp : decide (∀ slave ∈ slaves, Candidate false walk.romNo position slave.device →
      slave.device.rom.bitAt position = false) = cmpIdBit at hreadComplement
    have hgoes : ¬ (idBit && cmpIdBit) = true := by
      rcases answers hid.symm hcmp.symm hanswer with ⟨hdiffer, -⟩ | ⟨rfl, -, -⟩
      · cases idBit <;> cases cmpIdBit <;> simp_all
      · exact Bool.false_ne_true
    generalize hdirection :
      walk.direction mate.lastDiscrepancy ⟨walk.romByteNumber, hbyte⟩ idBit cmpIdBit = direction
    obtain ⟨hwalks, hstill⟩ :=
      hwalking.turn hposition hid.symm hcmp.symm hanswer hbyte hdirection.symm
    obtain ⟨hbit, hmirrors⟩ := h.turn hwalking hmate hposition hsigned hid.symm hcmp.symm hanswer
      hbyte hdirection.symm
    have hput : ∀ i < 64,
        (walk.turn ⟨walk.romByteNumber, hbyte⟩ idBit cmpIdBit direction).romNo.bitAt i =
          if i = position then direction else walk.romNo.bitAt i := by
      intro i hi
      change (walk.romNo.put _ walk.romByteMask direction).bitAt i = _
      rw [hwalking.index_eq hbyte, hwalking.romByteMask, bitAt_put _ hposition hi]
    have hbelow : ∀ i < position,
        (walk.turn ⟨walk.romByteNumber, hbyte⟩ idBit cmpIdBit direction).romNo.bitAt i =
          walk.romNo.bitAt i := fun i hi ↦ by
      rw [hput i (hi.trans hposition), if_neg (Nat.ne_of_lt hi)]
    have hhere := (hput position hposition).trans (if_pos rfl)
    rw [hread]
    dsimp only
    rw [hreadComplement]
    dsimp only
    rw [if_neg hgoes, hbit, writeBit_direction functions hbelow hhere, hnext]
    rw [hnext] at hmirrors hwalks hstill
    exact ih (by omega) hmirrors hwalks hstill

/-! ### A call -/

/-- The junctions that there are between two calls. -/
def Usual (signed : Bool) (junction : BitVec 8) : Prop :=
  if signed then ∃ last ≤ 64, junction = junctionOf last else junction = -1

theorem Usual.signed_or (h : Usual signed junction) :
    signed = true ∨ 64 ≤ turnOf signed junction := by
  cases signed with
  | true => exact Or.inl rfl
  | false =>
    obtain rfl : junction = -1 := h
    exact Or.inr (by decide)

theorem Usual.eq_of_turnOf_le (h : Usual signed junction) (hle : turnOf signed junction ≤ 0) :
    junction = junctionOf 0 := by
  cases signed with
  | true =>
    obtain ⟨last, hlast, rfl⟩ := h
    rw [turnOf_junctionOf hlast] at hle
    rw [Nat.le_zero.mp hle]
  | false => exact h

/-- The walk of `search` beside a call, which goes by the junction. -/
def Alarms.search (signed : Bool) (state : Alarms) : Search :=
  ⟨state.alarmSearchAddress, turnOf signed state.alarmSearchJunction, 0, false⟩

theorem mirrors_start (slaves : List (Slave Memory Task)) {state : Alarms}
    (hjunction : Usual signed state.alarmSearchJunction) :
    Mirrors slaves signed state.alarmSearchJunction 0 (state.search signed).walk state.walk where
  address := rfl
  done := rfl
  before _ := ⟨rfl, rfl⟩
  behind hle := Or.inl (hjunction.eq_of_turnOf_le hle)

/-- What a call that finds a device leaves behind. -/
structure Reached (slaves : List (Slave Memory Task)) (signed : Bool) (state : Alarms) (rom : Rom)
    (last : ℕ) (next : Alarms) : Prop where
  address : next.alarmSearchAddress = rom
  descends : Descends (codes false slaves) state.alarmSearchAddress.bits
    (turnOf signed state.alarmSearchJunction) rom.bits
  lastSkip : LastSkip (codes false slaves) rom.bits last
  exhausted : next.alarmSearchExhausted = (last == 0)
  kept : 64 < turnOf signed state.alarmSearchJunction →
    next.alarmSearchJunction = state.alarmSearchJunction
  moved : turnOf signed state.alarmSearchJunction ≤ 64 →
    (∀ place : Fin 64, place.val + 1 = turnOf signed state.alarmSearchJunction →
      Discrepancy (codes false slaves) rom.bits place) →
    next.alarmSearchJunction = junctionOf last

variable (functions signed) in
/-- A call finds a device when one has an alarm. -/
theorem alarmSearch_of_some {state : Alarms} (hexhausted : state.alarmSearchExhausted = false)
    (hjunction : Usual signed state.alarmSearchJunction)
    (hsome : ∃ slave ∈ slaves, participates false slave.device = true) :
    ∃ rom last next, alarmSearch (bus functions) signed state slaves =
        (some rom, next, among false rom 64 (.addressed functions.start) slaves) ∧
      Reached slaves signed state rom last next := by
  obtain ⟨slave, hslave, htakes⟩ := hsome
  have hpresence : ((bus functions).reset slaves).1 = true := by
    cases slaves with
    | nil => exact absurd hslave List.not_mem_nil
    | cons first rest => rfl
  have hcommand := write_search functions false state.alarmSearchAddress slaves
  change write (bus functions) 0xEC ((bus functions).reset slaves).2 = _ at hcommand
  obtain ⟨final, result, hloop, hmirrors, hwalking, other, hother, htakesOther, hagree⟩ :=
    alarmLoop_eq functions 64 le_rfl (mirrors_start slaves hjunction)
      (walking_start (state.search signed)) rfl hjunction.signed_or
      ⟨slave, hslave, htakes, fun i hi ↦ absurd hi (Nat.not_lt_zero i)⟩
  change alarmLoop (bus functions) signed 64 state.walk
    (among false state.alarmSearchAddress 0 (awaiting functions 0) slaves) = _ at hloop
  refine ⟨final.romNo, final.lastZero, ⟨result.address, result.junction, result.done⟩, ?_,
    ⟨hmirrors.address, ⟨?_, fun place ↦ hwalking.rule place place.isLt⟩,
      ⟨fun place ↦ hwalking.bound place place.isLt, fun hpositive ↦ ?_⟩, hmirrors.done,
      fun hlt ↦ (hmirrors.before hlt).1, fun hle hdiscrepancy ↦ ?_⟩⟩
  · rw [alarmSearch, if_neg (Bool.eq_false_iff.mp hexhausted)]
    dsimp only
    rw [if_pos hpresence, hcommand, hloop]
    dsimp only
    rw [if_pos rfl, hmirrors.address]
  · exact ⟨other, hother, htakesOther, funext fun place ↦ hagree place place.isLt⟩
  · obtain ⟨place, -, hvalue, hskip⟩ := hwalking.skipped hpositive
    exact ⟨place, hvalue, hskip⟩
  · rcases hmirrors.behind hle with hjunction | ⟨-, -, place, hplace, hnone⟩
    · exact hjunction
    · exact absurd (hdiscrepancy place hplace) hnone

variable (functions signed) in
/-- A call finds nothing, and changes nothing, when no device has one. -/
theorem alarmSearch_of_none (state : Alarms)
    (hnone : ∀ slave ∈ slaves, participates false slave.device = false) :
    (alarmSearch (bus functions) signed state slaves).1 = none ∧
      (alarmSearch (bus functions) signed state slaves).2.1 = state := by
  cases hexhausted : state.alarmSearchExhausted with
  | true =>
    rw [alarmSearch, if_pos hexhausted]
    exact ⟨rfl, rfl⟩
  | false =>
    have hcandidate (bit : Bool) : ∀ slave ∈ slaves,
        Candidate false state.alarmSearchAddress 0 slave.device →
          slave.device.rom.bitAt 0 = bit := fun slave hslave h ↦
      Bool.noConfusion (h.1.symm.trans (hnone slave hslave))
    have hread := readBit_bit functions false slaves state.alarmSearchAddress
      (show 0 < 64 by decide)
    have hreadComplement := readBit_complement functions false slaves state.alarmSearchAddress 0
    rw [decide_eq_true (hcandidate true)] at hread
    rw [decide_eq_true (hcandidate false)] at hreadComplement
    rw [alarmSearch, if_neg (Bool.eq_false_iff.mp hexhausted)]
    dsimp only
    split
    · have hcommand := write_search functions false state.alarmSearchAddress slaves
      change write (bus functions) 0xEC ((bus functions).reset slaves).2 = _ at hcommand
      rw [hcommand, alarmLoop, hread]
      dsimp only
      rw [hreadComplement]
      refine ⟨rfl, ?_⟩
      obtain ⟨address, junction, exhausted⟩ := state
      obtain rfl : exhausted = false := hexhausted
      rfl
    · exact ⟨rfl, rfl⟩

end Sketchbook.OneWire.AlarmSearch
