import Mathlib.Data.List.Basic
import Mathlib.Data.Nat.Notation
import Mathlib.Tactic.IntervalCases
import Sketchbook.Foundation.BitWord

/-!
# Check sums from a feedback shift register

A register moves one bit to the right, and its polynomial is added when a set bit falls out. That is
linear in exclusive or (`shift_xor`). Feeding a bit adds it at the low end first. Eight shifts of a
register with a byte added are the contribution of its low byte and the rest moved down
(`shifts_eight`), which is why a table with one entry for each byte is enough.

`residue` is the register after a message, starting from zero. It is linear too, so two messages
with the same residue differ by a word with residue zero. Such a word has an even number of set bits
when the polynomial has an odd number (`parity_residue`), and it does not have exactly two when the
powers of the register do not repeat within its length (`residue_ne_zero_of_count_eq_two`).
-/

set_option autoImplicit false
set_option relaxedAutoImplicit false

namespace Sketchbook.Foundation.ShiftRegister

open BitWord

variable {w : ℕ} (polynomial : BitVec w)

/-- One step of the register. -/
def shift (register : BitVec w) : BitVec w :=
  if register.getLsbD 0 then register >>> 1 ^^^ polynomial else register >>> 1

/-- A number of steps. -/
def shifts : ℕ → BitVec w → BitVec w
  | 0, register => register
  | count + 1, register => shifts count (shift polynomial register)

/-- The register after a bit: the bit is added at the low end and the register moves. -/
def feed (register : BitVec w) (bit : Bool) : BitVec w :=
  shift polynomial (if bit then register ^^^ 1#w else register)

/-- The bits of a byte, lowest first. -/
def bitsOfByte (byte : BitVec 8) : List Bool := (List.range 8).map byte.getLsbD

/-! ### Linearity -/

@[simp] theorem shift_zero : shift polynomial 0#w = 0#w := by
  simp [shift]

theorem shift_xor (first second : BitVec w) :
    shift polynomial (first ^^^ second) = shift polynomial first ^^^ shift polynomial second := by
  unfold shift
  rw [BitVec.getLsbD_xor, BitVec.ushiftRight_xor_distrib]
  cases first.getLsbD 0 <;> cases second.getLsbD 0 <;>
    simp only [Bool.xor_false, Bool.xor_true, Bool.not_true, Bool.not_false, if_true, if_false,
      Bool.false_eq_true]
  · rw [BitVec.xor_assoc]
  · rw [BitVec.xor_assoc, BitVec.xor_assoc, BitVec.xor_comm polynomial]
  · rw [BitVec.xor_assoc, ← BitVec.xor_assoc polynomial, BitVec.xor_comm polynomial,
      BitVec.xor_assoc, BitVec.xor_self, BitVec.xor_zero]

@[simp] theorem shifts_zero_register (count : ℕ) : shifts polynomial count 0#w = 0#w := by
  induction count with
  | zero => rfl
  | succ count ih => rw [shifts, shift_zero, ih]

theorem shifts_xor (count : ℕ) (first second : BitVec w) :
    shifts polynomial count (first ^^^ second) =
      shifts polynomial count first ^^^ shifts polynomial count second := by
  induction count generalizing first second with
  | zero => rfl
  | succ count ih => rw [shifts, shift_xor, ih, shifts, shifts]

theorem shifts_add (first second : ℕ) (register : BitVec w) :
    shifts polynomial (first + second) register =
      shifts polynomial second (shifts polynomial first register) := by
  induction first generalizing register with
  | zero => rw [Nat.zero_add, shifts]
  | succ first ih => rw [Nat.add_right_comm, shifts, ih, shifts]

/-- A register whose low bits are clear only moves down. -/
theorem shifts_of_clear {count : ℕ} {register : BitVec w}
    (hclear : ∀ place < count, register.getLsbD place = false) :
    shifts polynomial count register = register >>> count := by
  induction count generalizing register with
  | zero => simp [shifts]
  | succ count ih =>
    have hlow : register.getLsbD 0 = false := hclear 0 (Nat.succ_pos _)
    have hstep : shift polynomial register = register >>> 1 := by
      rw [shift, hlow, if_neg Bool.false_ne_true]
    rw [shifts, hstep, ih]
    · rw [← BitVec.shiftRight_add, Nat.add_comm]
    · intro place hplace
      rw [BitVec.getLsbD_ushiftRight, Nat.add_comm]
      exact hclear (place + 1) (Nat.succ_lt_succ hplace)

/-- The low byte of a register. -/
def lowByte (register : BitVec w) : BitVec 8 := register.setWidth 8

/-- Eight steps: what the low byte contributes, and the rest moved down. -/
theorem shifts_eight (register : BitVec w) :
    shifts polynomial 8 register =
      register >>> 8 ^^^ shifts polynomial 8 ((lowByte register).setWidth w) := by
  have hlow (place : ℕ) : ((lowByte register).setWidth w).getLsbD place =
      (decide (place < 8) && register.getLsbD place) := by
    rw [BitVec.getLsbD_setWidth, lowByte, BitVec.getLsbD_setWidth]
    by_cases hplace : place < w
    · simp [hplace]
    · simp [BitVec.getLsbD_of_ge register place (Nat.not_lt.mp hplace)]
  have hsplit : register = (register ^^^ (lowByte register).setWidth w) ^^^
      (lowByte register).setWidth w := by
    rw [BitVec.xor_assoc, BitVec.xor_self, BitVec.xor_zero]
  have hclear : ∀ place < 8,
      (register ^^^ (lowByte register).setWidth w).getLsbD place = false := by
    intro place hplace
    rw [BitVec.getLsbD_xor, hlow, decide_eq_true hplace, Bool.true_and, Bool.xor_self]
  have hhigh : (register ^^^ (lowByte register).setWidth w) >>> 8 = register >>> 8 := by
    refine BitVec.eq_of_getLsbD_eq fun place _ ↦ ?_
    have hnot : ¬ 8 + place < 8 := by omega
    rw [BitVec.getLsbD_ushiftRight, BitVec.getLsbD_ushiftRight, BitVec.getLsbD_xor, hlow,
      decide_eq_false hnot, Bool.false_and, Bool.xor_false]
  conv_lhs => rw [hsplit]
  rw [shifts_xor, shifts_of_clear polynomial hclear, hhigh]

/-! ### Messages -/

/-- Feeding the low bits of a number is adding the number and moving. -/
theorem foldl_feed (count : ℕ) (register number : BitVec w)
    (hnumber : ∀ place, count ≤ place → number.getLsbD place = false) :
    ((List.range count).map number.getLsbD).foldl (feed polynomial) register =
      shifts polynomial count (register ^^^ number) := by
  induction count generalizing register number with
  | zero =>
    have hzero : number = 0#w :=
      BitVec.eq_of_getLsbD_eq fun place _ ↦ by simp [hnumber place (Nat.zero_le _)]
    rw [hzero, BitVec.xor_zero]
    rfl
  | succ count ih =>
    have hrest : ∀ place, count ≤ place → (number >>> 1).getLsbD place = false := by
      intro place hplace
      rw [BitVec.getLsbD_ushiftRight, Nat.add_comm]
      exact hnumber _ (Nat.succ_le_succ hplace)
    have hbits : (List.range count).map (number.getLsbD ∘ Nat.succ) =
        (List.range count).map (number >>> 1).getLsbD := by
      refine List.map_congr_left fun place _ ↦ ?_
      rw [BitVec.getLsbD_ushiftRight, Nat.add_comm]
      rfl
    have hone : (1#w).getLsbD 0 = decide (0 < w) := by simp
    have hstep : feed polynomial register (number.getLsbD 0) ^^^ number >>> 1 =
        shift polynomial (register ^^^ number) := by
      have hnothing : (1#w) >>> 1 = 0#w :=
        BitVec.eq_of_getLsbD_eq fun place _ ↦ by simp [BitVec.getLsbD_one]
      rcases Nat.eq_zero_or_pos w with rfl | hpositive
      · exact Subsingleton.elim _ _
      · unfold feed shift
        rw [BitVec.getLsbD_xor, BitVec.ushiftRight_xor_distrib]
        cases hlow : number.getLsbD 0
        · rw [if_neg Bool.false_ne_true, Bool.xor_false]
          cases register.getLsbD 0 <;>
            simp only [if_true, if_false, Bool.false_eq_true, BitVec.xor_assoc,
              BitVec.xor_comm polynomial]
        · rw [if_pos rfl, BitVec.getLsbD_xor, hone, decide_eq_true hpositive,
            BitVec.ushiftRight_xor_distrib, hnothing, BitVec.xor_zero]
          cases register.getLsbD 0 <;>
            simp only [if_true, if_false, Bool.false_eq_true, BitVec.xor_assoc, Bool.xor_true,
              Bool.not_true, Bool.not_false, BitVec.xor_comm polynomial]
    rw [List.range_succ_eq_map, List.map_cons, List.map_map, hbits, List.foldl_cons,
      ih _ _ hrest, hstep, shifts]

/-- The register after a message that began with the register zero. -/
def residue (message : List Bool) : BitVec w := message.foldl (feed polynomial) 0#w

theorem feed_xor (first second : BitVec w) (firstBit secondBit : Bool) :
    feed polynomial (first ^^^ second) (firstBit ^^ secondBit) =
      feed polynomial first firstBit ^^^ feed polynomial second secondBit := by
  unfold feed
  rw [← shift_xor]
  cases firstBit <;> cases secondBit <;>
    simp only [Bool.xor_false, Bool.xor_true, Bool.not_true, Bool.not_false, if_true, if_false,
      Bool.false_eq_true]
  · rw [BitVec.xor_assoc]
  · rw [BitVec.xor_assoc, BitVec.xor_assoc, BitVec.xor_comm second]
  · rw [BitVec.xor_assoc, ← BitVec.xor_assoc 1#w, BitVec.xor_comm 1#w second,
      BitVec.xor_assoc second, BitVec.xor_self, BitVec.xor_zero]

theorem foldl_feed_xor {first second : List Bool} (hlength : first.length = second.length)
    (one other : BitVec w) :
    (List.zipWith Bool.xor first second).foldl (feed polynomial) (one ^^^ other) =
      first.foldl (feed polynomial) one ^^^ second.foldl (feed polynomial) other := by
  induction first generalizing second one other with
  | nil =>
    obtain rfl := List.length_eq_zero_iff.mp hlength.symm
    rfl
  | cons bit rest ih =>
    cases second with
    | nil => simp at hlength
    | cons otherBit otherRest =>
      rw [List.zipWith_cons_cons, List.foldl_cons, List.foldl_cons, List.foldl_cons, feed_xor]
      exact ih (Nat.succ_injective hlength) _ _

/-- Two messages with the same residue differ by a word with residue zero. -/
theorem residue_zipWith_xor {first second : List Bool} (hlength : first.length = second.length) :
    residue polynomial (List.zipWith Bool.xor first second) =
      residue polynomial first ^^^ residue polynomial second := by
  have h := foldl_feed_xor polynomial hlength 0#w 0#w
  rwa [BitVec.xor_zero] at h

theorem foldl_feed_replicate (count : ℕ) (register : BitVec w) :
    (List.replicate count false).foldl (feed polynomial) register =
      shifts polynomial count register := by
  induction count generalizing register with
  | zero => rfl
  | succ count ih =>
    rw [List.replicate_succ, List.foldl_cons, ih]
    rfl

theorem zipWith_xor_replicate (message : List Bool) :
    List.zipWith Bool.xor (List.replicate message.length false) message = message := by
  induction message with
  | nil => rfl
  | cons bit rest ih =>
    rw [List.length_cons, List.replicate_succ, List.zipWith_cons_cons, Bool.false_xor, ih]

/-- The register before a message and the message contribute separately. -/
theorem foldl_feed_eq (message : List Bool) (register : BitVec w) :
    message.foldl (feed polynomial) register =
      shifts polynomial message.length register ^^^ residue polynomial message := by
  have hlength : (List.replicate message.length false).length = message.length :=
    List.length_replicate
  have h := foldl_feed_xor polynomial hlength register 0#w
  rwa [zipWith_xor_replicate, BitVec.xor_zero, foldl_feed_replicate] at h

/-- What the first bit of a message contributes. -/
theorem residue_cons (bit : Bool) (rest : List Bool) :
    residue polynomial (bit :: rest) =
      (if bit then shifts polynomial (rest.length + 1) 1#w else 0#w) ^^^
        residue polynomial rest := by
  rw [residue, List.foldl_cons, foldl_feed_eq]
  cases bit
  · rw [feed, if_neg Bool.false_ne_true, if_neg Bool.false_ne_true, shift_zero,
      shifts_zero_register]
  · rw [feed, if_pos rfl, if_pos rfl, BitVec.zero_xor, shifts]

theorem residue_of_count_eq_zero {message : List Bool} (h : message.count true = 0) :
    residue polynomial message = 0#w := by
  have hmessage : message = List.replicate message.length false :=
    List.eq_replicate_iff.mpr ⟨rfl, fun bit hbit ↦
      Bool.eq_false_iff.mpr fun htrue ↦ List.count_eq_zero.mp h (htrue ▸ hbit)⟩
  rw [residue, hmessage, foldl_feed_replicate, shifts_zero_register]

theorem parity_zipWith_xor {first second : List Bool} (hlength : first.length = second.length) :
    parity (List.zipWith Bool.xor first second) = (parity first ^^ parity second) := by
  induction first generalizing second with
  | nil =>
    obtain rfl := List.length_eq_zero_iff.mp hlength.symm
    rfl
  | cons bit rest ih =>
    cases second with
    | nil => simp at hlength
    | cons otherBit otherRest =>
      rw [List.zipWith_cons_cons, parity_cons, parity_cons, parity_cons,
        ih (Nat.succ_injective hlength)]
      cases bit <;> cases otherBit <;> simp

theorem bitsOfByte_xor (first second : BitVec 8) :
    bitsOfByte (first ^^^ second) =
      List.zipWith Bool.xor (bitsOfByte first) (bitsOfByte second) := by
  rw [bitsOfByte, bitsOfByte, bitsOfByte, List.zipWith_map, List.zipWith_self]
  exact List.map_congr_left fun place _ ↦ BitVec.getLsbD_xor

/-! ### What a residue of zero excludes -/

/-- A functional that the register keeps gives the parity of the message. -/
theorem functional_residue {functional : BitVec w → Bool}
    (hxor : ∀ first second, functional (first ^^^ second) = (functional first ^^ functional second))
    (hshift : ∀ register, functional (shift polynomial register) = functional register)
    (hone : functional 1#w = true) (message : List Bool) :
    functional (residue polynomial message) = parity message := by
  have hzero : functional 0#w = false := by
    have h := hxor 0#w 0#w
    rwa [BitVec.xor_self, Bool.xor_self] at h
  have hfold (register : BitVec w) : functional (message.foldl (feed polynomial) register) =
      (functional register ^^ parity message) := by
    induction message generalizing register with
    | nil => rw [List.foldl_nil, parity_nil, Bool.xor_false]
    | cons bit rest ih =>
      rw [List.foldl_cons, ih, feed, hshift, parity_cons]
      cases bit
      · rw [if_neg Bool.false_ne_true, Bool.false_xor]
      · rw [if_pos rfl, hxor, hone, Bool.xor_assoc]
  rw [residue, hfold, hzero, Bool.false_xor]

variable {polynomial}

/-- With its highest bit set the polynomial keeps a register from becoming zero. -/
theorem eq_zero_of_shift (htop : polynomial.getLsbD (w - 1) = true) {register : BitVec w}
    (h : shift polynomial register = 0#w) : register = 0#w := by
  unfold shift at h
  cases hlow : register.getLsbD 0
  · rw [hlow, if_neg Bool.false_ne_true] at h
    refine BitVec.eq_of_getLsbD_eq fun place hplace ↦ ?_
    rw [BitVec.getLsbD_zero]
    cases place with
    | zero => exact hlow
    | succ place =>
      have hbit := congrArg (·.getLsbD place) h
      simpa [BitVec.getLsbD_ushiftRight, Nat.add_comm] using hbit
  · rw [hlow, if_pos rfl] at h
    have hbit := congrArg (·.getLsbD (w - 1)) h
    have hhigh : (register >>> 1).getLsbD (w - 1) = false := by
      rw [BitVec.getLsbD_ushiftRight]
      exact BitVec.getLsbD_of_ge _ _ (by omega)
    simp only [BitVec.getLsbD_xor, hhigh, htop, BitVec.getLsbD_zero] at hbit
    exact Bool.noConfusion hbit

theorem eq_zero_of_shifts (htop : polynomial.getLsbD (w - 1) = true) {count : ℕ}
    {register : BitVec w} (h : shifts polynomial count register = 0#w) :
    register = 0#w := by
  induction count generalizing register with
  | zero => exact h
  | succ count ih => exact eq_zero_of_shift htop (ih h)

theorem shifts_injective (htop : polynomial.getLsbD (w - 1) = true) (count : ℕ)
    {first second : BitVec w}
    (h : shifts polynomial count first = shifts polynomial count second) : first = second := by
  have hzero : shifts polynomial count (first ^^^ second) = 0#w := by
    rw [shifts_xor, h, BitVec.xor_self]
  exact BitVec.xor_eq_zero_iff.mp (eq_zero_of_shifts htop hzero)

variable (polynomial) in
/-- A message with one set bit leaves the step count of its bit in the register. -/
theorem residue_of_count_eq_one {message : List Bool} (h : message.count true = 1) :
    ∃ place < message.length, residue polynomial message =
      shifts polynomial (place + 1) 1#w := by
  induction message with
  | nil => simp at h
  | cons bit rest ih =>
    rw [residue_cons]
    cases bit with
    | false =>
      rw [List.count_cons_of_ne Bool.false_ne_true] at h
      obtain ⟨place, hplace, heq⟩ := ih h
      refine ⟨place, Nat.lt_succ_of_lt hplace, ?_⟩
      rw [if_neg Bool.false_ne_true, BitVec.zero_xor, heq]
    | true =>
      rw [List.count_cons_self] at h
      have hzero := residue_of_count_eq_zero polynomial (Nat.succ_injective h)
      exact ⟨rest.length, Nat.lt_succ_self _, by rw [if_pos rfl, hzero, BitVec.xor_zero]⟩

/-- While the powers of the register do not repeat, two set bits do not cancel. -/
theorem residue_ne_zero_of_count_eq_two (htop : polynomial.getLsbD (w - 1) = true) {period : ℕ}
    (hperiod : ∀ count, 0 < count → count < period → shifts polynomial count 1#w ≠ 1#w)
    {message : List Bool} (hlength : message.length ≤ period) (h : message.count true = 2) :
    residue polynomial message ≠ 0#w := by
  induction message with
  | nil => simp at h
  | cons bit rest ih =>
    rw [residue_cons]
    rw [List.length_cons] at hlength
    cases bit with
    | false =>
      rw [List.count_cons_of_ne Bool.false_ne_true] at h
      rw [if_neg Bool.false_ne_true, BitVec.zero_xor]
      exact ih (Nat.le_of_succ_le hlength) h
    | true =>
      rw [List.count_cons_self] at h
      obtain ⟨place, hplace, heq⟩ :=
        residue_of_count_eq_one polynomial (Nat.succ_injective h)
      rw [if_pos rfl, heq]
      intro hzero
      have hsame := BitVec.xor_eq_zero_iff.mp hzero
      have hsteps : rest.length + 1 = (rest.length - place) + (place + 1) := by omega
      rw [hsteps, shifts_add] at hsame
      exact hperiod _ (by omega) (by omega) (shifts_injective htop _ hsame)

/-- The number of places at which two words differ. -/
def distance (first second : List Bool) : ℕ := (List.zipWith Bool.xor first second).count true

theorem eq_of_distance_eq_zero {first second : List Bool} (hlength : first.length = second.length)
    (h : distance first second = 0) : first = second := by
  induction first generalizing second with
  | nil => exact (List.length_eq_zero_iff.mp hlength.symm).symm
  | cons bit rest ih =>
    cases second with
    | nil => simp at hlength
    | cons otherBit otherRest =>
      rw [distance, List.zipWith_cons_cons] at h
      have hbit : bit = otherBit := by
        cases bit <;> cases otherBit <;> simp_all
      subst hbit
      rw [Bool.xor_self, List.count_cons_of_ne Bool.false_ne_true] at h
      rw [ih (Nat.succ_injective hlength) h]

/-- Two different messages with the same residue differ in at least four places: not in one or
three, because the register keeps the parity, and not in two, because its powers do not repeat. -/
theorem four_le_distance (htop : polynomial.getLsbD (w - 1) = true) {period : ℕ}
    (hperiod : ∀ count, 0 < count → count < period → shifts polynomial count 1#w ≠ 1#w)
    {functional : BitVec w → Bool}
    (hxor : ∀ first second, functional (first ^^^ second) = (functional first ^^ functional second))
    (hshift : ∀ register, functional (shift polynomial register) = functional register)
    (hone : functional 1#w = true) {first second : List Bool}
    (hlength : first.length = second.length) (hshort : first.length ≤ period)
    (hresidue : residue polynomial first = residue polynomial second) (hne : first ≠ second) :
    4 ≤ distance first second := by
  have hzero : residue polynomial (List.zipWith Bool.xor first second) = 0#w := by
    rw [residue_zipWith_xor polynomial hlength, hresidue, BitVec.xor_self]
  have heven : Even (distance first second) := by
    rw [distance, ← parity_eq_false_iff, ← functional_residue polynomial hxor hshift hone, hzero]
    have h := hxor 0#w 0#w
    rwa [BitVec.xor_self, Bool.xor_self] at h
  have hnotTwo : distance first second ≠ 2 := by
    intro htwo
    refine residue_ne_zero_of_count_eq_two htop hperiod ?_ htwo hzero
    rw [List.length_zipWith, hlength, Nat.min_self, ← hlength]
    exact hshort
  have hnotZero : distance first second ≠ 0 := fun hnone ↦
    hne (eq_of_distance_eq_zero hlength hnone)
  obtain ⟨half, hhalf⟩ := heven
  omega

end Sketchbook.Foundation.ShiftRegister
