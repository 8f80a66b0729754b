import Mathlib.Tactic.IntervalCases
import Sketchbook.Foundation.BitDescent
import Sketchbook.OneWire.SlaveBus

/-!
# The search on a bus with devices

A turn of the loop of `search` is one step of a descent through the codes of the devices that take
part: the two bits read say whether they leave a choice, and the direction is the bit that the rule
of the descent takes. `Walking` is what holds in front of a turn, and `searchLoop_eq` what the
whole loop leads to. From any state of the master, an address that is found is the code of a device
that takes part, and this device alone is addressed afterwards.
-/

set_option autoImplicit false
set_option relaxedAutoImplicit false

namespace Sketchbook.OneWire.DeviceSearch

open Foundation.BitDescent RomSearch SlaveBus

variable {Memory Task : Type} (functions : Functions Memory Task) (searchMode : Bool)

/-! ### The place in a code -/

/-- The counters of the loop in front of its turn for one bit. -/
structure Counting (position : ℕ) (walk : Walk) : Prop where
  idBitNumber : walk.idBitNumber = position + 1
  romByteNumber : walk.romByteNumber = position / 8
  romByteMask : walk.romByteMask = 1#8 <<< (position % 8)

theorem counting_start (state : Search) : Counting 0 state.walk := ⟨rfl, rfl, rfl⟩

/-- The byte of the code that a turn reads and writes. -/
theorem Counting.index_eq {position : ℕ} {walk : Walk} (h : Counting position walk)
    (hbyte : walk.romByteNumber < 8) :
    (⟨walk.romByteNumber, hbyte⟩ : Fin 8) = Fin.ofNat 8 (position / 8) := by
  have hval := h.romByteNumber
  refine Fin.ext ?_
  rw [Fin.val_ofNat]
  change walk.romByteNumber = _
  omega

theorem Counting.turn {position : ℕ} {walk : Walk} (h : Counting position walk) (index : Fin 8)
    (idBit cmpIdBit direction : Bool) :
    Counting (position + 1) (walk.turn index idBit cmpIdBit direction) := by
  have hplace : position % 8 < 8 := Nat.mod_lt _ (by decide)
  have hshift : walk.romByteMask <<< 1 = 1#8 <<< (position % 8 + 1) := by
    rw [h.romByteMask, BitVec.shiftLeft_add]
  refine ⟨congrArg (· + 1) h.idBitNumber, ?_, ?_⟩
  · change (if walk.romByteMask <<< 1 = 0 then _ else _) = _
    rw [hshift, h.romByteNumber]
    generalize hrest : position % 8 = place at hplace
    interval_cases place <;> simp <;> omega
  · change (if walk.romByteMask <<< 1 = 0 then _ else _) = _
    rw [hshift]
    have hnext : (position + 1) % 8 = (position % 8 + 1) % 8 := by omega
    rw [hnext]
    generalize hrest : position % 8 = place at hplace
    interval_cases place <;> rfl

/-- The loop has ended after 64 turns. -/
theorem searchLoop_add {Wire : Type*} (bus : Bus Wire) (lastDiscrepancy extra : ℕ) {turns : ℕ}
    {walk : Walk} {wire : Wire} (hturns : turns ≤ 64) (hcounting : Counting (64 - turns) walk) :
    searchLoop bus lastDiscrepancy (turns + extra) walk wire =
      searchLoop bus lastDiscrepancy turns walk wire := by
  induction turns generalizing walk wire with
  | zero =>
    have hdone : ¬ walk.romByteNumber < 8 := by
      rw [hcounting.romByteNumber]
      decide
    cases extra with
    | zero => rfl
    | succ extra => exact dif_neg hdone
  | succ turns ih =>
    rw [Nat.add_right_comm, searchLoop, searchLoop]
    have hnext : 64 - (turns + 1) + 1 = 64 - turns := by omega
    split
    · dsimp only
      split
      · rfl
      · refine ih (by omega) ?_
        rw [← hnext]
        exact hcounting.turn _ _ _ _
    · rfl

theorem byte_put (rom : Rom) (index : Fin 8) (mask : BitVec 8) (direction : Bool) :
    (rom.put index mask direction).byte = Function.update rom.byte index
      (if direction then rom.byte index ||| mask else rom.byte index &&& ~~~mask) := rfl

/-- Writing a bit of a code leaves the others. -/
theorem bitAt_put (rom : Rom) {position other : ℕ} (hposition : position < 64) (hother : other < 64)
    (direction : Bool) :
    (rom.put (Fin.ofNat 8 (position / 8)) (1#8 <<< (position % 8)) direction).bitAt other =
      if other = position then direction else rom.bitAt other := by
  have hplace : position % 8 < 8 := Nat.mod_lt _ (by decide)
  have hotherPlace : other % 8 < 8 := Nat.mod_lt _ (by decide)
  have hmask : (1#8 <<< (position % 8)).getLsbD (other % 8) =
      decide (position % 8 = other % 8) := by
    have htwo : 1#8 <<< (position % 8) = BitVec.twoPow 8 (position % 8) := rfl
    rw [htwo, BitVec.getLsbD_twoPow, decide_eq_true hplace, Bool.true_and]
  rcases eq_or_ne (other / 8) (position / 8) with hbyte | hbyte
  · have hsame : position % 8 = other % 8 ↔ other = position := by omega
    rw [Rom.bitAt, byte_put, hbyte, Function.update_self]
    cases direction
    · rw [if_neg Bool.false_ne_true, BitVec.getLsbD_and, BitVec.getLsbD_not, hmask,
        decide_eq_true hotherPlace, Bool.true_and, Rom.bitAt, hbyte]
      by_cases heq : other = position <;> simp [hsame, heq]
    · rw [if_pos rfl, BitVec.getLsbD_or, hmask, Rom.bitAt, hbyte]
      by_cases heq : other = position <;> simp [hsame, heq]
  · have hne : other ≠ position := fun h ↦ hbyte (h ▸ rfl)
    have hindex : Fin.ofNat 8 (other / 8) ≠ Fin.ofNat 8 (position / 8) := by
      intro h
      have hval := congrArg Fin.val h
      simp only [Fin.val_ofNat] at hval
      omega
    rw [if_neg hne, Rom.bitAt, byte_put, Function.update_of_ne hindex, Rom.bitAt]

/-! ### The devices that are still in the walk -/

/-- A device takes part in a normal search, and in a conditional one if it has an alarm. -/
def participates (device : Device Memory) : Bool := searchMode || device.alarm

/-- A device that takes part and whose code begins like another. -/
def Candidate (rom : Rom) (position : ℕ) (device : Device Memory) : Prop :=
  participates searchMode device = true ∧ ∀ i < position, device.rom.bitAt i = rom.bitAt i

instance (rom : Rom) (position : ℕ) (device : Device Memory) :
    Decidable (Candidate searchMode rom position device) :=
  inferInstanceAs (Decidable (_ ∧ _))

/-- The codes of the devices that take part. -/
def codes (slaves : List (Slave Memory Task)) : Set (Fin 64 → Bool) :=
  {word | ∃ slave ∈ slaves, participates searchMode slave.device = true ∧
    slave.device.rom.bits = word}

/-- The bus when the candidates are in one phase and the other devices wait. -/
def among (rom : Rom) (position : ℕ) (phase : Phase Task) (slaves : List (Slave Memory Task)) :
    List (Slave Memory Task) :=
  slaves.map fun slave ↦
    ⟨slave.device, if Candidate searchMode rom position slave.device then phase else .idle⟩

/-- The phase of the candidates in front of a turn of the loop, and behind the last one. -/
def awaiting (position : ℕ) : Phase Task :=
  if position < 64 then .bit position else .addressed functions.start

variable {searchMode} {slaves : List (Slave Memory Task)} {rom : Rom} {position : ℕ}

theorem exists_code_iff (place : Fin 64) (choice : Bool → Prop) :
    (∃ other ∈ codes searchMode slaves,
        (∀ i < place, other i = rom.bits i) ∧ choice (other place)) ↔
      ∃ slave ∈ slaves, Candidate searchMode rom place slave.device ∧
        choice (slave.device.rom.bitAt place) := by
  constructor
  · rintro ⟨_, ⟨slave, hslave, htakes, rfl⟩, hagree, hchoice⟩
    exact ⟨slave, hslave, ⟨htakes, fun i hi ↦ hagree ⟨i, hi.trans place.isLt⟩ hi⟩, hchoice⟩
  · rintro ⟨slave, hslave, ⟨htakes, hagree⟩, hchoice⟩
    exact ⟨_, ⟨slave, hslave, htakes, rfl⟩, fun i hi ↦ hagree i hi, hchoice⟩

theorem discrepancy_iff (place : Fin 64) :
    Discrepancy (codes searchMode slaves) rom.bits place ↔
      ∃ slave ∈ slaves, Candidate searchMode rom place slave.device ∧
        slave.device.rom.bitAt place ≠ rom.bitAt place :=
  exists_code_iff place (· ≠ rom.bits place)

theorem skipped_iff (place : Fin 64) :
    Skipped (codes searchMode slaves) rom.bits place ↔ rom.bitAt place = false ∧
      ∃ slave ∈ slaves, Candidate searchMode rom place slave.device ∧
        slave.device.rom.bitAt place = true :=
  and_congr Iff.rfl (exists_code_iff place (· = true))

/-- Only the bits in front of a position decide who is a candidate there. -/
theorem candidate_congr {other : Rom} (h : ∀ i < position, other.bitAt i = rom.bitAt i)
    (device : Device Memory) :
    Candidate searchMode other position device ↔ Candidate searchMode rom position device :=
  and_congr Iff.rfl (forall₂_congr fun i hi ↦ by rw [h i hi])

theorem candidate_succ {other : Rom} {direction : Bool}
    (h : ∀ i < position, other.bitAt i = rom.bitAt i) (hbit : other.bitAt position = direction)
    (device : Device Memory) :
    Candidate searchMode other (position + 1) device ↔
      Candidate searchMode rom position device ∧ device.rom.bitAt position = direction := by
  rw [← candidate_congr h, Candidate, Candidate, Nat.forall_lt_succ_right, hbit, and_assoc]

/-! ### What the devices do in a turn -/

variable (searchMode slaves rom) in
/-- The candidates send their bits: the wire is high when all of these are set. -/
theorem readBit_bit (hposition : position < 64) :
    ((bus functions).readBit (among searchMode rom position (awaiting functions position) slaves)) =
      (decide (∀ slave ∈ slaves, Candidate searchMode rom position slave.device →
          slave.device.rom.bitAt position = true),
        among searchMode rom position (.complement position) slaves) := by
  rw [awaiting, if_pos hposition]
  refine Prod.ext ?_ ?_
  · rw [Bool.eq_iff_iff, decide_eq_true_iff]
    simp only [bus, line, among, Bool.true_and, List.all_map, List.all_eq_true]
    refine forall₂_congr fun slave _ ↦ ?_
    by_cases h : Candidate searchMode rom position slave.device <;> simp [h, Slave.output]
  · simp only [bus, slot, among, List.map_map]
    refine List.map_congr_left fun slave _ ↦ ?_
    by_cases h : Candidate searchMode rom position slave.device <;> simp [h, Slave.slot]

variable (searchMode slaves rom position) in
/-- The candidates send the complements of their bits. -/
theorem readBit_complement :
    ((bus functions).readBit (among searchMode rom position (.complement position) slaves)) =
      (decide (∀ slave ∈ slaves, Candidate searchMode rom position slave.device →
          slave.device.rom.bitAt position = false),
        among searchMode rom position (.direction position) slaves) := by
  refine Prod.ext ?_ ?_
  · rw [Bool.eq_iff_iff, decide_eq_true_iff]
    simp only [bus, line, among, Bool.true_and, List.all_map, List.all_eq_true]
    refine forall₂_congr fun slave _ ↦ ?_
    by_cases h : Candidate searchMode rom position slave.device <;> simp [h, Slave.output]
  · simp only [bus, slot, among, List.map_map]
    refine List.map_congr_left fun slave _ ↦ ?_
    by_cases h : Candidate searchMode rom position slave.device <;> simp [h, Slave.slot]

/-- The candidates that have the bit of the direction stay. -/
theorem writeBit_direction {other : Rom} {direction : Bool}
    (h : ∀ i < position, other.bitAt i = rom.bitAt i) (hbit : other.bitAt position = direction) :
    (bus functions).writeBit direction
        (among searchMode rom position (.direction position) slaves) =
      among searchMode other (position + 1) (awaiting functions (position + 1)) slaves := by
  have hline : line functions direction
      (among searchMode rom position (.direction position) slaves) = direction := by
    have hall : (among searchMode rom position (.direction position) slaves).all
        (·.output functions) = true := by
      simp only [among, List.all_map, List.all_eq_true]
      intro slave _
      by_cases hcandidate : Candidate searchMode rom position slave.device <;>
        simp [hcandidate, Slave.output]
    rw [line, hall, Bool.and_true]
  change slot functions direction _ = _
  rw [slot, hline, among, List.map_map]
  refine List.map_congr_left fun slave _ ↦ ?_
  rw [Function.comp_apply]
  have hnext : Candidate searchMode other (position + 1) slave.device ↔ _ :=
    candidate_succ h hbit slave.device
  by_cases hcandidate : Candidate searchMode rom position slave.device
  · by_cases hstays : slave.device.rom.bitAt position = direction
    · have hstill := hnext.mpr ⟨hcandidate, hstays⟩
      rw [if_pos hcandidate, if_pos hstill, Slave.slot]
      dsimp only
      rw [if_pos hstays.symm, awaiting]
      rcases Nat.lt_or_ge position 63 with hlt | hge
      · rw [if_pos hlt, if_pos (Nat.succ_lt_succ hlt)]
      · rw [if_neg (Nat.not_lt.mpr hge), if_neg (Nat.not_lt.mpr (Nat.succ_le_succ hge))]
    · have hgone := fun hstill ↦ hstays (hnext.mp hstill).2
      rw [if_pos hcandidate, if_neg hgone, Slave.slot]
      exact if_neg (Ne.symm hstays)
  · rw [if_neg hcandidate, if_neg fun hstill ↦ hcandidate (hnext.mp hstill).1]
    rfl

/-! ### The walk -/

variable (searchMode slaves) in
/-- What holds of the variables of the loop in front of its turn for one bit: the code in front of
that bit follows the rule, behind it is the code of the call before, and `lastZero` is the deepest
position that was skipped so far. -/
structure Walking (state : Search) (position : ℕ) (walk : Walk) : Prop
    extends Counting position walk where
  ahead : ∀ i < 64, position ≤ i → walk.romNo.bitAt i = state.romNo.bitAt i
  rule : ∀ place : Fin 64, place.val < position →
    Discrepancy (codes searchMode slaves) walk.romNo.bits place →
      walk.romNo.bits place = chosen state.romNo.bits state.lastDiscrepancy place
  bound : ∀ place : Fin 64, place.val < position →
    Skipped (codes searchMode slaves) walk.romNo.bits place → place.val < walk.lastZero
  skipped : 0 < walk.lastZero → ∃ place : Fin 64, place.val < position ∧
    place.val + 1 = walk.lastZero ∧ Skipped (codes searchMode slaves) walk.romNo.bits place

/-- The loop begins with nothing chosen. -/
theorem walking_start (state : Search) : Walking searchMode slaves state 0 state.walk where
  toCounting := counting_start state
  ahead _ _ _ := rfl
  rule _ h := absurd h (Nat.not_lt_zero _)
  bound _ h := absurd h (Nat.not_lt_zero _)
  skipped h := absurd h (lt_irrefl 0)

/-- The direction of a turn: the bit of all candidates, or what the rule says. -/
theorem Walking.direction {state : Search} {walk : Walk}
    (h : Walking searchMode slaves state position walk) (hposition : position < 64)
    (idBit cmpIdBit : Bool) (hbyte : walk.romByteNumber < 8) :
    walk.direction state.lastDiscrepancy ⟨walk.romByteNumber, hbyte⟩ idBit cmpIdBit =
      if idBit != cmpIdBit then idBit
      else chosen state.romNo.bits state.lastDiscrepancy ⟨position, hposition⟩ := by
  have hindex := h.index_eq hbyte
  have hbit : (walk.romNo.byte (Fin.ofNat 8 (position / 8)) &&& 1#8 <<< (position % 8) != 0) =
      state.romNo.bitAt position := by
    rw [BitVec.and_comm, bitMask_and_ne_zero _ (Nat.mod_lt _ (by decide))]
    exact h.ahead position hposition le_rfl
  rw [Walk.direction, hindex, h.romByteMask, h.idBitNumber, hbit]
  rfl

/-- The answers of the candidates: all have a set bit, all have a clear one, or they differ. -/
theorem answers {idBit cmpIdBit : Bool}
    (hid : idBit = decide (∀ slave ∈ slaves, Candidate searchMode rom position slave.device →
      slave.device.rom.bitAt position = true))
    (hcmp : cmpIdBit = decide (∀ slave ∈ slaves, Candidate searchMode rom position slave.device →
      slave.device.rom.bitAt position = false))
    (hanswer : ∃ slave ∈ slaves, Candidate searchMode rom position slave.device) :
    (idBit != cmpIdBit ∧ ∀ slave ∈ slaves, Candidate searchMode rom position slave.device →
      slave.device.rom.bitAt position = idBit) ∨
    (idBit = false ∧ cmpIdBit = false ∧ ∀ bit, ∃ slave ∈ slaves,
      Candidate searchMode rom position slave.device ∧
        slave.device.rom.bitAt position = bit) := by
  obtain ⟨slave, hslave, hcandidate⟩ := hanswer
  cases idBit with
  | true =>
    have hall := of_decide_eq_true hid.symm
    refine Or.inl ⟨?_, hall⟩
    have hnot : cmpIdBit = false := hcmp.trans (decide_eq_false fun hnone ↦
      Bool.noConfusion ((hall slave hslave hcandidate).symm.trans (hnone slave hslave hcandidate)))
    rw [hnot]
    rfl
  | false =>
    cases cmpIdBit with
    | true => exact Or.inl ⟨rfl, of_decide_eq_true hcmp.symm⟩
    | false =>
      refine Or.inr ⟨rfl, rfl, fun bit ↦ ?_⟩
      have hset := of_decide_eq_false hid.symm
      have hclear := of_decide_eq_false hcmp.symm
      push Not at hset hclear
      cases bit with
      | true =>
        obtain ⟨other, hother, hstill, hbit⟩ := hclear
        exact ⟨other, hother, hstill, Bool.eq_true_of_not_eq_false hbit⟩
      | false =>
        obtain ⟨other, hother, hstill, hbit⟩ := hset
        exact ⟨other, hother, hstill, Bool.eq_false_of_not_eq_true hbit⟩

/-- A turn goes on in the direction of some candidate. Where it leaves another one behind, the rule
took the direction, and the turn notes the position when that one had the set bit. -/
theorem Walking.choice {state : Search} {walk : Walk}
    (h : Walking searchMode slaves state position walk) (hposition : position < 64)
    {idBit cmpIdBit : Bool}
    (hid : idBit = decide (∀ slave ∈ slaves, Candidate searchMode walk.romNo position slave.device →
      slave.device.rom.bitAt position = true))
    (hcmp : cmpIdBit = decide (∀ slave ∈ slaves,
      Candidate searchMode walk.romNo position slave.device →
        slave.device.rom.bitAt position = false))
    (hanswer : ∃ slave ∈ slaves, Candidate searchMode walk.romNo position slave.device)
    (hbyte : walk.romByteNumber < 8) {direction : Bool}
    (hdirection : direction =
      walk.direction state.lastDiscrepancy ⟨walk.romByteNumber, hbyte⟩ idBit cmpIdBit) :
    (∃ slave ∈ slaves, Candidate searchMode walk.romNo position slave.device ∧
        slave.device.rom.bitAt position = direction) ∧
      ((∃ slave ∈ slaves, Candidate searchMode walk.romNo position slave.device ∧
        slave.device.rom.bitAt position ≠ direction) →
          direction = chosen state.romNo.bits state.lastDiscrepancy ⟨position, hposition⟩) ∧
      ((idBit == cmpIdBit && !direction) = true ↔ direction = false ∧
        ∃ slave ∈ slaves, Candidate searchMode walk.romNo position slave.device ∧
          slave.device.rom.bitAt position = true) := by
  rw [h.direction hposition] at hdirection
  rcases answers hid hcmp hanswer with ⟨hdiffer, hall⟩ | ⟨rfl, rfl, hboth⟩
  · rw [if_pos hdiffer] at hdirection
    obtain ⟨slave, hslave, hcandidate⟩ := hanswer
    refine ⟨⟨slave, hslave, hcandidate, ?_⟩, ?_, ?_⟩
    · rw [hdirection, hall slave hslave hcandidate]
    · rintro ⟨other, hother, hstill, hne⟩
      exact absurd (hall other hother hstill) (hdirection ▸ hne)
    · have hnot : ¬ (idBit == cmpIdBit && !direction) = true := by
        rw [bne_iff_ne] at hdiffer
        simp [hdiffer]
      refine iff_of_false hnot ?_
      rintro ⟨hclear, other, hother, hstill, hset⟩
      rw [hall other hother hstill, ← hdirection, hclear] at hset
      exact Bool.noConfusion hset
  · refine ⟨hboth direction, fun _ ↦ hdirection, ?_⟩
    rw [beq_self_eq_true, Bool.true_and, Bool.not_eq_true']
    exact ⟨fun hclear ↦ ⟨hclear, hboth true⟩, fun hclear ↦ hclear.1⟩

/-- One turn: a discrepancy is decided by the rule, and it is a skip when the rule takes a clear
bit. -/
theorem Walking.turn {state : Search} {walk : Walk}
    (h : Walking searchMode slaves state position walk) (hposition : position < 64)
    {idBit cmpIdBit : Bool}
    (hid : idBit = decide (∀ slave ∈ slaves, Candidate searchMode walk.romNo position slave.device →
      slave.device.rom.bitAt position = true))
    (hcmp : cmpIdBit = decide (∀ slave ∈ slaves,
      Candidate searchMode walk.romNo position slave.device →
        slave.device.rom.bitAt position = false))
    (hanswer : ∃ slave ∈ slaves, Candidate searchMode walk.romNo position slave.device)
    (hbyte : walk.romByteNumber < 8) {direction : Bool}
    (hdirection : direction =
      walk.direction state.lastDiscrepancy ⟨walk.romByteNumber, hbyte⟩ idBit cmpIdBit) :
    Walking searchMode slaves state (position + 1)
        (walk.turn ⟨walk.romByteNumber, hbyte⟩ idBit cmpIdBit direction) ∧
      ∃ slave ∈ slaves, Candidate searchMode
        (walk.turn ⟨walk.romByteNumber, hbyte⟩ idBit cmpIdBit direction).romNo (position + 1)
          slave.device := by
  obtain ⟨hstays, hrule, hnoted⟩ := h.choice hposition hid hcmp hanswer hbyte hdirection
  have hput : ∀ i < 64,
      (walk.turn ⟨walk.romByteNumber, hbyte⟩ idBit cmpIdBit direction).romNo.bitAt i =
        if i = position then direction else walk.romNo.bitAt i := by
    intro i hi
    change (walk.romNo.put _ walk.romByteMask direction).bitAt i = _
    rw [h.index_eq hbyte, h.romByteMask, bitAt_put _ hposition hi]
  have hlastZero : (walk.turn ⟨walk.romByteNumber, hbyte⟩ idBit cmpIdBit direction).lastZero =
      if (idBit == cmpIdBit && !direction) = true then position + 1 else walk.lastZero := by
    rw [← h.idBitNumber]
    rfl
  have hcounting := h.toCounting.turn ⟨walk.romByteNumber, hbyte⟩ idBit cmpIdBit direction
  generalize walk.turn ⟨walk.romByteNumber, hbyte⟩ idBit cmpIdBit direction = next at *
  have hbelow : ∀ i < position, next.romNo.bitAt i = walk.romNo.bitAt i := fun i hi ↦ by
    rw [hput i (hi.trans hposition), if_neg (Nat.ne_of_lt hi)]
  have hhere : next.romNo.bitAt position = direction := by
    rw [hput position hposition, if_pos rfl]
  have hcandidate (place : ℕ) (hplace : place ≤ position) (device : Device Memory) :
      Candidate searchMode next.romNo place device ↔ Candidate searchMode walk.romNo place device :=
    candidate_congr (fun i hi ↦ hbelow i (Nat.lt_of_lt_of_le hi hplace)) device
  have hskipped (place : Fin 64) (hplace : place.val < position) :
      Skipped (codes searchMode slaves) next.romNo.bits place ↔
        Skipped (codes searchMode slaves) walk.romNo.bits place := by
    simp only [skipped_iff, hbelow place hplace, hcandidate place hplace.le]
  have hskippedHere : Skipped (codes searchMode slaves) next.romNo.bits ⟨position, hposition⟩ ↔
      (idBit == cmpIdBit && !direction) = true := by
    rw [skipped_iff, hnoted]
    simp only [hhere, hcandidate position le_rfl]
  refine ⟨⟨hcounting, ?_, ?_, ?_, ?_⟩, ?_⟩
  · intro i hi hplace
    rw [hput i hi, if_neg (by omega)]
    exact h.ahead i hi (by omega)
  · intro place hplace hdiscrepancy
    rw [discrepancy_iff] at hdiscrepancy
    rcases Nat.lt_succ_iff_lt_or_eq.mp hplace with hlt | heq
    · simp only [hbelow place hlt, hcandidate place hlt.le] at hdiscrepancy
      rw [← h.rule place hlt ((discrepancy_iff place).mpr hdiscrepancy)]
      exact hbelow place hlt
    · obtain rfl : place = ⟨position, hposition⟩ := Fin.ext heq
      simp only [hhere, hcandidate position le_rfl] at hdiscrepancy
      exact hhere.trans (hrule hdiscrepancy)
  · intro place hplace hskip
    rw [hlastZero]
    rcases Nat.lt_succ_iff_lt_or_eq.mp hplace with hlt | heq
    · split
      · exact hplace
      · exact h.bound place hlt ((hskipped place hlt).mp hskip)
    · obtain rfl : place = ⟨position, hposition⟩ := Fin.ext heq
      rw [if_pos (hskippedHere.mp hskip)]
      exact Nat.lt_succ_self _
  · rw [hlastZero]
    split
    · next hnote =>
      exact fun _ ↦ ⟨⟨position, hposition⟩, Nat.lt_succ_self _, rfl, hskippedHere.mpr hnote⟩
    · intro hpositive
      obtain ⟨place, hplace, hvalue, hskip⟩ := h.skipped hpositive
      exact ⟨place, Nat.lt_succ_of_lt hplace, hvalue, (hskipped place hplace).mpr hskip⟩
  · obtain ⟨slave, hslave, hstill, hbit⟩ := hstays
    exact ⟨slave, hslave, (candidate_succ hbelow hhere slave.device).mpr ⟨hstill, hbit⟩⟩

/-- The rest of the loop, when a candidate is left: it goes through all 64 bits and leaves the
candidates for the whole code addressed. -/
theorem searchLoop_eq {state : Search} (turns : ℕ) {walk : Walk} (hturns : turns ≤ 64)
    (h : Walking searchMode slaves state (64 - turns) walk)
    (hanswer : ∃ slave ∈ slaves, Candidate searchMode walk.romNo (64 - turns) slave.device) :
    ∃ final, searchLoop (bus functions) state.lastDiscrepancy turns walk
        (among searchMode walk.romNo (64 - turns) (awaiting functions (64 - turns)) slaves) =
          (final, among searchMode final.romNo 64 (.addressed functions.start) slaves) ∧
      Walking searchMode slaves state 64 final ∧
      ∃ slave ∈ slaves, Candidate searchMode final.romNo 64 slave.device := by
  induction turns generalizing walk with
  | zero => exact ⟨walk, rfl, h, hanswer⟩
  | succ turns ih =>
    have hposition : 64 - (turns + 1) < 64 := by omega
    have hnext : 64 - (turns + 1) + 1 = 64 - turns := by omega
    generalize 64 - (turns + 1) = position at *
    have hbyte : walk.romByteNumber < 8 := by
      rw [h.romByteNumber]
      omega
    have hread := readBit_bit functions searchMode slaves walk.romNo hposition
    have hreadComplement := readBit_complement functions searchMode slaves walk.romNo position
    generalize hid : decide (∀ slave ∈ slaves,
      Candidate searchMode walk.romNo position slave.device →
        slave.device.rom.bitAt position = true) = idBit at hread
    generalize hcmp : decide (∀ slave ∈ slaves,
      Candidate searchMode walk.romNo position slave.device →
        slave.device.rom.bitAt position = false) = cmpIdBit at hreadComplement
    have hgoes : ¬ (idBit && cmpIdBit) = true := by
      rcases answers hid.symm hcmp.symm hanswer with ⟨hdiffer, -⟩ | ⟨rfl, -, -⟩
      · cases idBit <;> cases cmpIdBit <;> simp_all
      · exact Bool.false_ne_true
    generalize hdirection :
      walk.direction state.lastDiscrepancy ⟨walk.romByteNumber, hbyte⟩ idBit cmpIdBit = direction
    obtain ⟨hwalking, hstill⟩ :=
      h.turn hposition hid.symm hcmp.symm hanswer hbyte hdirection.symm
    have hbelow : ∀ i < position,
        (walk.turn ⟨walk.romByteNumber, hbyte⟩ idBit cmpIdBit direction).romNo.bitAt i =
          walk.romNo.bitAt i := by
      intro i hi
      change (walk.romNo.put _ walk.romByteMask direction).bitAt i = _
      rw [h.index_eq hbyte, h.romByteMask, bitAt_put _ hposition (hi.trans hposition),
        if_neg (Nat.ne_of_lt hi)]
    have hhere : (walk.turn ⟨walk.romByteNumber, hbyte⟩ idBit cmpIdBit direction).romNo.bitAt
        position = direction := by
      change (walk.romNo.put _ walk.romByteMask direction).bitAt position = _
      rw [h.index_eq hbyte, h.romByteMask, bitAt_put _ hposition hposition, if_pos rfl]
    rw [searchLoop, dif_pos hbyte, hread]
    dsimp only
    rw [hreadComplement]
    dsimp only
    rw [if_neg hgoes, hdirection, writeBit_direction functions hbelow hhere, hnext]
    rw [hnext] at hwalking hstill
    exact ih (by omega) hwalking hstill

/-- With no device that takes part the loop ends in its first turn. -/
theorem searchLoop_of_none {state : Search}
    (hnone : ∀ slave ∈ slaves, ¬ Candidate searchMode state.romNo 0 slave.device) :
    (searchLoop (bus functions) state.lastDiscrepancy 64 state.walk
      (among searchMode state.romNo 0 (awaiting functions 0) slaves)).1 = state.walk := by
  have hread := readBit_bit functions searchMode slaves state.romNo (show 0 < 64 by decide)
  have hreadComplement := readBit_complement functions searchMode slaves state.romNo 0
  have hsilent (bit : Bool) : ∀ slave ∈ slaves, Candidate searchMode state.romNo 0 slave.device →
      slave.device.rom.bitAt 0 = bit := fun slave hslave h ↦ absurd h (hnone slave hslave)
  rw [decide_eq_true (hsilent true)] at hread
  rw [decide_eq_true (hsilent false)] at hreadComplement
  have hbyte : state.walk.romByteNumber < 8 := Nat.zero_lt_succ 7
  rw [searchLoop, dif_pos hbyte, hread]
  dsimp only
  rw [hreadComplement]
  rfl

/-! ### A call of the search -/

variable (searchMode) in
/-- Behind the command the devices that take part are about to send their first bit. -/
theorem write_search (rom : Rom) (slaves : List (Slave Memory Task)) :
    write (bus functions) (if searchMode then 0xF0 else 0xEC) (slaves.map Slave.reset) =
      among searchMode rom 0 (awaiting functions 0) slaves := by
  rw [write_command]
  refine List.map_congr_left fun slave _ ↦ ?_
  have hcandidate : Candidate searchMode rom 0 slave.device ↔
      participates searchMode slave.device = true :=
    and_iff_left fun i hi ↦ absurd hi (Nat.not_lt_zero i)
  have hother : serial 236#8 ≠ serial 240#8 := by decide
  cases searchMode with
  | true => simp [hcandidate, participates, obey, awaiting]
  | false => simp [hcandidate, participates, obey, awaiting, hother]

/-- A call finds nothing when no device takes part. -/
theorem search_of_none {state : Search} (hflag : state.lastDeviceFlag = false)
    (hnone : ∀ slave ∈ slaves, participates searchMode slave.device = false) :
    (search (bus functions) searchMode state slaves).1 = none ∧
      (search (bus functions) searchMode state slaves).2.1 = state.forgotten := by
  have hcandidate : ∀ slave ∈ slaves, ¬ Candidate searchMode state.romNo 0 slave.device :=
    fun slave hslave h ↦ Bool.noConfusion (h.1.symm.trans (hnone slave hslave))
  rw [search, if_neg (Bool.eq_false_iff.mp hflag)]
  dsimp only
  by_cases hpresence : ((bus functions).reset slaves).1 = true
  · rw [if_pos hpresence]
    have hcommand := write_search functions searchMode state.romNo slaves
    have hloop := searchLoop_of_none functions hcandidate
    change write (bus functions) _ ((bus functions).reset slaves).2 = _ at hcommand
    rw [hcommand, hloop]
    exact ⟨rfl, rfl⟩
  · rw [if_neg hpresence]
    exact ⟨rfl, rfl⟩

variable (searchMode) in
/-- A call walks to the code of a device when one takes part, and leaves only the devices with that
code addressed. What it returns depends on the family of the code. -/
theorem search_of_some {state : Search} (hflag : state.lastDeviceFlag = false)
    (hsome : ∃ slave ∈ slaves, participates searchMode slave.device = true) :
    ∃ walk : Walk,
      search (bus functions) searchMode state slaves =
        ((state.conclude walk).1, (state.conclude walk).2,
          among searchMode walk.romNo 64 (.addressed functions.start) slaves) ∧
      walk.idBitNumber = 65 ∧
      Descends (codes searchMode slaves) state.romNo.bits state.lastDiscrepancy walk.romNo.bits ∧
      LastSkip (codes searchMode slaves) walk.romNo.bits walk.lastZero := by
  obtain ⟨slave, hslave, htakes⟩ := hsome
  have hpresence : ((bus functions).reset slaves).1 = true := by
    cases slaves with
    | nil => exact absurd hslave List.not_mem_nil
    | cons first rest => rfl
  have hcommand := write_search functions searchMode state.romNo slaves
  change write (bus functions) _ ((bus functions).reset slaves).2 = _ at hcommand
  obtain ⟨final, hloop, hwalking, other, hother, htakesOther, hagree⟩ :=
    searchLoop_eq functions 64 le_rfl (walking_start state)
      ⟨slave, hslave, htakes, fun i hi ↦ absurd hi (Nat.not_lt_zero i)⟩
  refine ⟨final, ?_, hwalking.idBitNumber, ⟨?_, fun place ↦ hwalking.rule place place.isLt⟩,
    ⟨fun place ↦ hwalking.bound place place.isLt, fun hpositive ↦ ?_⟩⟩
  · rw [search, if_neg (Bool.eq_false_iff.mp hflag)]
    dsimp only
    rw [if_pos hpresence, hcommand]
    have hstart := hloop
    change searchLoop (bus functions) state.lastDiscrepancy 64 state.walk
      (among searchMode state.romNo 0 (awaiting functions 0) slaves) = _ at hstart
    rw [hstart]
  · exact ⟨other, hother, htakesOther, funext fun place ↦ hagree place place.isLt⟩
  · obtain ⟨place, -, hvalue, hskip⟩ := hwalking.skipped hpositive
    exact ⟨place, hvalue, hskip⟩

theorem candidate_iff_eq (rom : Rom) (device : Device Memory) :
    Candidate searchMode rom 64 device ↔
      participates searchMode device = true ∧ device.rom = rom := by
  refine and_congr Iff.rfl ⟨fun h ↦ ?_, fun h i _ ↦ h ▸ rfl⟩
  exact bits_injective (funext fun place ↦ h place place.isLt)

/-- From any state of the master, an address that a call returns is the code of a device that takes
part, and the devices with that code are the only ones that are addressed afterwards. -/
theorem search_sound (state : Search) (slaves : List (Slave Memory Task)) {rom : Rom}
    (hreturned : (search (bus functions) searchMode state slaves).1 = some rom) :
    (∃ slave ∈ slaves, participates searchMode slave.device = true ∧ slave.device.rom = rom) ∧
      (search (bus functions) searchMode state slaves).2.2 = slaves.map fun slave ↦
        ⟨slave.device, if participates searchMode slave.device = true ∧ slave.device.rom = rom
          then .addressed functions.start else .idle⟩ := by
  cases hflag : state.lastDeviceFlag with
  | true =>
    rw [search, if_pos hflag] at hreturned
    exact absurd hreturned (Option.some_ne_none rom).symm
  | false =>
    by_cases hsome : ∃ slave ∈ slaves, participates searchMode slave.device = true
    · obtain ⟨walk, hsearch, -, hdescends, -⟩ := search_of_some functions searchMode hflag hsome
      rw [hsearch, Search.conclude] at hreturned
      dsimp only at hreturned
      split at hreturned
      · exact absurd hreturned (Option.some_ne_none rom).symm
      · obtain rfl : walk.romNo = rom := Option.some.inj hreturned
        obtain ⟨slave, hslave, htakes, hbits⟩ := hdescends.mem
        refine ⟨⟨slave, hslave, htakes, bits_injective hbits⟩, ?_⟩
        rw [hsearch, among]
        exact List.map_congr_left fun slave _ ↦ by rw [if_congr (candidate_iff_eq _ _) rfl rfl]
    · push Not at hsome
      have hnone := (search_of_none functions hflag fun slave hslave ↦
        Bool.eq_false_of_not_eq_true (hsome slave hslave)).1
      rw [hnone] at hreturned
      exact absurd hreturned (Option.some_ne_none rom).symm

/-- A device without functions. -/
def silent : Functions Unit Unit where
  start := ()
  output _ _ := true
  slot _ memory task := (memory, task)

def codeOf (family number check : BitVec 8) : Rom :=
  ⟨fun index ↦ [family, number, 0, 0, 0, 0, 0, check].getD index 0⟩

/-- Three devices without alarms, two of them of one family. -/
def threeDevices : List (Slave Unit Unit) :=
  [codeOf 0x28 1 0x29, codeOf 0x10 1 0xCC, codeOf 0x28 2 0x70].map fun rom ↦
    ⟨⟨rom, false, ()⟩, .idle⟩

theorem search_sound_threeDevices :
    ∃ rom, (List.finRange 8).map rom.byte = [0x28, 2, 0, 0, 0, 0, 0, 0x70] ∧
      (∃ slave ∈ threeDevices, participates true slave.device = true ∧ slave.device.rom = rom) ∧
      (search (bus silent) true (targetSearch 0x28) threeDevices).2.2 =
        threeDevices.map fun slave ↦
          ⟨slave.device, if participates true slave.device = true ∧ slave.device.rom = rom
            then .addressed silent.start else .idle⟩ := by
  have hbytes : (search (bus silent) true (targetSearch 0x28) threeDevices).1.map
      (fun rom ↦ (List.finRange 8).map rom.byte) = some [0x28, 2, 0, 0, 0, 0, 0, 0x70] := by
    decide +kernel
  obtain ⟨rom, hreturned, hrom⟩ := Option.map_eq_some_iff.mp hbytes
  exact ⟨rom, hrom, search_sound silent (targetSearch 0x28) threeDevices hreturned⟩

end Sketchbook.OneWire.DeviceSearch
