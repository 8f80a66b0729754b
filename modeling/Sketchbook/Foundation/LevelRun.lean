import Mathlib.Data.Nat.Basic
import Mathlib.Data.Nat.Find
import Mathlib.Data.Bool.Basic

/-!
# Runs of a level in a sampled sequence

A sequence of samples is a function on the natural numbers, and a run is a stretch of consecutive
positions where a level holds. `runBefore` counts the positions directly before a point, as a loop
that polls the level would. A `CompleteRun` is bounded by a sample without the level on both sides.
`completeRun_iff` says which of the runs counted so are complete. `runFrom` is the length of the run
that begins at a point, up to a limit, and `runFrom_succ` counts it one position at a time.
-/

set_option autoImplicit false
set_option relaxedAutoImplicit false

namespace Sketchbook.Foundation.LevelRun

/-- The number of consecutive positions directly before a point where the level holds. -/
def runBefore (level : ℕ → Bool) : ℕ → ℕ
  | 0 => 0
  | n + 1 => if level n then runBefore level n + 1 else 0

/-- The level holds at `length` positions from `first` on, and neither before nor behind them. -/
structure CompleteRun (level : ℕ → Bool) (first length : ℕ) : Prop where
  pos : 0 < length
  start : 0 < first
  before : level (first - 1) = false
  inside : ∀ k < length, level (first + k) = true
  behind : level (first + length) = false

variable {level : ℕ → Bool} {n first length : ℕ}

theorem runBefore_succ_of_level (h : level n = true) :
    runBefore level (n + 1) = runBefore level n + 1 := by
  rw [runBefore, if_pos h]

theorem runBefore_succ_of_not_level (h : level n = false) : runBefore level (n + 1) = 0 := by
  rw [runBefore, if_neg (by rw [h]; exact Bool.false_ne_true)]

theorem runBefore_le (level : ℕ → Bool) (n : ℕ) : runBefore level n ≤ n := by
  induction n with
  | zero => exact le_rfl
  | succ n ih =>
    rw [runBefore]
    split_ifs
    · exact Nat.succ_le_succ ih
    · exact Nat.zero_le _

/-- The level holds throughout the run before a point. -/
theorem level_of_lt {k : ℕ} (hle : n ≤ k + runBefore level n) (hlt : k < n) : level k = true := by
  induction n with
  | zero => exact absurd hlt (Nat.not_lt_zero k)
  | succ n ih =>
    cases hlevel : level n with
    | false =>
      rw [runBefore_succ_of_not_level hlevel] at hle
      omega
    | true =>
      rw [runBefore_succ_of_level hlevel] at hle
      rcases Nat.lt_succ_iff_lt_or_eq.mp hlt with hbefore | rfl
      · exact ih (by omega) hbefore
      · exact hlevel

/-- A run that does not reach back to the first position starts behind one without the level. -/
theorem not_level_before (h : runBefore level n < n) :
    level (n - runBefore level n - 1) = false := by
  induction n with
  | zero => exact absurd h (Nat.not_lt_zero _)
  | succ n ih =>
    cases hlevel : level n with
    | false =>
      rw [runBefore_succ_of_not_level hlevel]
      exact hlevel
    | true =>
      rw [runBefore_succ_of_level hlevel] at h ⊢
      rw [Nat.add_sub_add_right]
      exact ih (by omega)

/-- Along a run that starts behind a position without the level, the count is exact. -/
theorem CompleteRun.runBefore_eq (h : CompleteRun level first length) {k : ℕ} (hk : k ≤ length) :
    runBefore level (first + k) = k := by
  induction k with
  | zero =>
    obtain ⟨start, rfl⟩ := Nat.exists_eq_succ_of_ne_zero (Nat.ne_of_gt h.start)
    exact runBefore_succ_of_not_level h.before
  | succ k ih =>
    rw [← Nat.add_assoc, runBefore_succ_of_level (h.inside k hk), ih (Nat.le_of_succ_le hk)]

/-- The run that ends at a point is complete exactly when it does not reach back to the first
position, and then its length is the one counted. -/
theorem completeRun_iff (hend : level n = false) (hpos : 0 < length) :
    (∃ first, first + length = n ∧ CompleteRun level first length) ↔
      runBefore level n = length ∧ length < n := by
  constructor
  · rintro ⟨first, rfl, h⟩
    have hstart := h.start
    exact ⟨h.runBefore_eq le_rfl, by omega⟩
  · rintro ⟨rfl, hlt⟩
    refine ⟨n - runBefore level n, by omega, hpos, by omega, not_level_before hlt, ?_, ?_⟩
    · intro k hk
      exact level_of_lt (n := n) (by omega) (by omega)
    · rwa [Nat.sub_add_cancel (Nat.le_of_lt hlt)]

/-! ### Runs that begin at a point -/

/-- The number of consecutive positions from a point on where the level holds, up to a limit. -/
def runFrom (level : ℕ → Bool) (first limit : ℕ) : ℕ :=
  Nat.findGreatest (fun count ↦ ∀ k < count, level (first + k) = true) limit

variable {limit : ℕ}

theorem runFrom_le (level : ℕ → Bool) (first limit : ℕ) : runFrom level first limit ≤ limit :=
  Nat.findGreatest_le limit

theorem level_of_lt_runFrom {k : ℕ} (h : k < runFrom level first limit) :
    level (first + k) = true := by
  have hnone : ∀ k < 0, level (first + k) = true := fun k hk ↦ absurd hk (Nat.not_lt_zero k)
  exact Nat.findGreatest_spec (P := fun count ↦ ∀ k < count, level (first + k) = true)
    (Nat.zero_le limit) hnone k h

/-- A run that has not reached the limit ends where the level does not hold. -/
theorem not_level_runFrom (h : runFrom level first limit < limit) :
    level (first + runFrom level first limit) = false := by
  rw [Bool.eq_false_iff]
  intro hlevel
  refine Nat.findGreatest_is_greatest (Nat.lt_succ_self (runFrom level first limit)) h ?_
  intro k hk
  rcases Nat.lt_succ_iff_lt_or_eq.mp hk with hlt | rfl
  · exact level_of_lt_runFrom hlt
  · exact hlevel

theorem runFrom_eq (hinside : ∀ k < length, level (first + k) = true) (hle : length ≤ limit)
    (hend : length < limit → level (first + length) = false) :
    runFrom level first limit = length := by
  have hge : length ≤ runFrom level first limit := Nat.le_findGreatest hle hinside
  rcases Nat.lt_or_eq_of_le hge with hlt | heq
  · have hbehind := hend (Nat.lt_of_lt_of_le hlt (runFrom_le level first limit))
    rw [level_of_lt_runFrom hlt] at hbehind
    exact absurd hbehind (Bool.noConfusion)
  · exact heq.symm

theorem runFrom_of_not_level (h : level first = false) : runFrom level first limit = 0 :=
  runFrom_eq (fun k hk ↦ absurd hk (Nat.not_lt_zero k)) (Nat.zero_le limit) fun _ ↦ h

/-- One position of a run, and the run behind it. -/
theorem runFrom_succ (h : level first = true) :
    runFrom level first (limit + 1) = runFrom level (first + 1) limit + 1 := by
  refine runFrom_eq ?_ (Nat.succ_le_succ (runFrom_le _ _ _)) ?_
  · intro k hk
    cases k with
    | zero => exact h
    | succ k =>
      have hlevel := level_of_lt_runFrom (Nat.lt_of_succ_lt_succ hk)
      rwa [Nat.add_assoc, Nat.add_comm 1 k] at hlevel
  · intro hlt
    have hbehind := not_level_runFrom (Nat.lt_of_succ_lt_succ hlt)
    rwa [Nat.add_assoc, Nat.add_comm 1] at hbehind

end Sketchbook.Foundation.LevelRun
