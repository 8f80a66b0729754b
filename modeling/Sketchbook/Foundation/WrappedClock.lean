import Mathlib.Data.BitVec

/-!
# A clock that wraps

A clock of `width` bits shows the true time modulo `2 ^ width`. The difference of two readings is
the true time between them modulo `2 ^ width` whether or not the clock has wrapped in between
(`sub_eq_ofNat_sub`), it is that time itself exactly when that is below `2 ^ width`
(`toNat_sub_eq_iff`), and it is never more than that time (`add_lt_of_lt_toNat_sub`).
-/

set_option autoImplicit false
set_option relaxedAutoImplicit false

namespace Sketchbook.Foundation.WrappedClock

variable {width first second : ℕ}

theorem sub_eq_ofNat_sub (h : first ≤ second) :
    BitVec.ofNat width second - BitVec.ofNat width first = BitVec.ofNat width (second - first) := by
  rw [BitVec.sub_eq_iff_eq_add, ← BitVec.ofNat_add, Nat.sub_add_cancel h]

/-- The difference of two readings is the time between them exactly when it fits the clock. -/
theorem toNat_sub_eq_iff (h : first ≤ second) :
    (BitVec.ofNat width second - BitVec.ofNat width first).toNat = second - first ↔
      second < first + 2 ^ width := by
  rw [sub_eq_ofNat_sub h, BitVec.toNat_ofNat, Nat.mod_eq_iff_lt (NeZero.ne _)]
  omega

/-- The difference of two readings is at most the time between them. -/
theorem add_lt_of_lt_toNat_sub {limit : ℕ} (h : first ≤ second)
    (hover : limit < (BitVec.ofNat width second - BitVec.ofNat width first).toNat) :
    first + limit < second := by
  rw [sub_eq_ofNat_sub h, BitVec.toNat_ofNat] at hover
  have hmod := Nat.mod_le (second - first) (2 ^ width)
  omega

end Sketchbook.Foundation.WrappedClock
