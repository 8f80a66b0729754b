import Mathlib.Algebra.BigOperators.Group.Finset.Basic
import Mathlib.Algebra.GroupWithZero.Nat
import Mathlib.Algebra.Order.BigOperators.Group.Finset

/-!
# Positions in consecutive blocks

Blocks of given lengths lie one behind the other, the first of them at position 0. `start` is where
a block begins. The blocks in front of the one that a position is `Located` in end before it
(`Located.start_succ_le`), so a search that skips whole blocks finds it (`skip_eq`).
-/

set_option autoImplicit false
set_option relaxedAutoImplicit false

namespace Sketchbook.Foundation.Blocks

variable (length : ℕ → ℕ)

/-- The place at which a block begins. -/
def start (index : ℕ) : ℕ := ∑ i ∈ Finset.range index, length i

@[simp] theorem start_zero : start length 0 = 0 := Finset.sum_range_zero length

theorem start_succ (index : ℕ) : start length (index + 1) = start length index + length index :=
  Finset.sum_range_succ length index

theorem start_mono : Monotone (start length) :=
  monotone_nat_of_le_succ fun index ↦ by
    rw [start_succ]
    exact Nat.le_add_right _ _

theorem sum_map_range (index : ℕ) : ((List.range index).map length).sum = start length index := by
  induction index with
  | zero => rfl
  | succ index ih =>
    rw [List.range_succ, List.map_append, List.sum_append, ih, List.map_singleton,
      List.sum_singleton, start_succ]

/-- A position is the place of a block and an offset within the block. -/
structure Located (position index offset : ℕ) : Prop where
  eq : position = start length index + offset
  lt : offset < length index

variable {length} {position index offset : ℕ}

theorem Located.start_le (h : Located length position index offset) :
    start length index ≤ position := h.eq ▸ Nat.le_add_right _ _

theorem Located.lt_start_succ (h : Located length position index offset) :
    position < start length (index + 1) := by
  rw [start_succ, h.eq]
  exact Nat.add_lt_add_left h.lt _

/-- The blocks in front of the one with a position end before it. -/
theorem Located.start_succ_le (h : Located length position index offset) {other : ℕ}
    (hother : other < index) : start length (other + 1) ≤ position :=
  (start_mono length hother).trans h.start_le

variable (length) in
/-- Skipping whole blocks, for a number of turns: the block reached and what is left. -/
def skip : ℕ → ℕ → ℕ → ℕ × ℕ
  | 0, index, left => (index, left)
  | turns + 1, index, left =>
    if length index ≤ left then skip turns (index + 1) (left - length index) else (index, left)

/-- Skipping finds the block and the offset of a position. -/
theorem skip_eq (h : Located length position index offset) {turns first : ℕ}
    (hfirst : first ≤ index) (hturns : index < first + turns) :
    skip length turns first (position - start length first) = (index, offset) := by
  induction turns generalizing first with
  | zero => exact absurd hfirst (Nat.not_le.mpr hturns)
  | succ turns ih =>
    have heq := h.eq
    rcases Nat.eq_or_lt_of_le hfirst with rfl | hlt
    · have hleft : position - start length first = offset := by omega
      rw [hleft, skip, if_neg (Nat.not_le.mpr h.lt)]
    · have hskips := h.start_succ_le hlt
      rw [start_succ] at hskips
      have hleft : position - start length first - length first =
          position - start length (first + 1) := by
        rw [start_succ]
        omega
      rw [skip, if_pos (by omega), hleft]
      exact ih hlt (by omega)

end Sketchbook.Foundation.Blocks
