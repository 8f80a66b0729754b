import Mathlib.Data.Nat.Find
import Mathlib.Data.Nat.ModEq
import Mathlib.Order.Bounds.Basic

/-!
# Slots of a cyclic schedule

Positions are counted from a fixed beginning and shown modulo a period. The slots behind a target
are the open positions from it on that show the same residue. Where the window depends on the number
of the period within a cycle only, a window that is open at all has a next slot
(`exists_isLeast_slots`), and the target itself is the next slot whenever it is open. A position
that shows the residue of the target and lies less than a period before it lies behind it
(`add_le_of_modEq`).
-/

set_option autoImplicit false
set_option relaxedAutoImplicit false

namespace Sketchbook.Foundation.CyclicSlot

/-- The open positions from the target on that show the residue of the target. -/
def slots (period : ℕ) (Open : ℕ → Prop) (target : ℕ) : Set ℕ :=
  {position | target ≤ position ∧ position ≡ target [MOD period] ∧ Open position}

variable {period cycle target position step : ℕ} {Open : ℕ → Prop}

/-- The target is the next slot if it is open. -/
theorem isLeast_slots_target (h : Open target) : IsLeast (slots period Open target) target :=
  ⟨⟨le_rfl, Nat.ModEq.rfl, h⟩, fun _ hposition ↦ hposition.1⟩

/-- The residue of the next target is not shown before it, if the step stays below a period. -/
theorem add_le_of_modEq {origin : ℕ} (hstep : step < period) (horigin : origin ≤ position)
    (h : position ≡ origin + step [MOD period]) : origin + step ≤ position := by
  by_contra hbefore
  push Not at hbefore
  have hdvd : period ∣ origin + step - position := (Nat.modEq_iff_dvd' hbefore.le).mp h
  have hle := Nat.le_of_dvd (Nat.sub_pos_of_lt hbefore) hdvd
  omega

/-- A window that is open in some period of the cycle is open in one behind the target. -/
theorem exists_mem_slots (Window : ℕ → Prop) (hperiod : 0 < period) {number : ℕ}
    (hnumber : number < cycle) (hwindow : Window number) :
    ∃ position, position ∈ slots period (fun p ↦ Window (p / period % cycle)) target := by
  have hcycle : 0 < cycle := Nat.zero_lt_of_lt hnumber
  have hbefore : target / period % cycle < cycle := Nat.mod_lt _ hcycle
  refine ⟨target + period * (number + cycle - target / period % cycle), Nat.le_add_right _ _,
    ?_, ?_⟩
  · exact Nat.ModEq.symm ((Nat.modEq_iff_dvd' (Nat.le_add_right _ _)).mpr (by simp))
  · have hdiv : (target + period * (number + cycle - target / period % cycle)) / period =
        target / period + (number + cycle - target / period % cycle) :=
      Nat.add_mul_div_left _ _ hperiod
    have hsplit := Nat.div_add_mod (target / period) cycle
    have hsum : target / period + (number + cycle - target / period % cycle) =
        number + cycle * (target / period / cycle + 1) := by
      rw [Nat.mul_add, Nat.mul_one]
      omega
    show Window _
    rw [hdiv, hsum, Nat.add_mul_mod_self_left, Nat.mod_eq_of_lt hnumber]
    exact hwindow

/-- A window that is open at all has a next slot. -/
theorem exists_isLeast_slots (Window : ℕ → Prop) (hperiod : 0 < period) {number : ℕ}
    (hnumber : number < cycle) (hwindow : Window number) :
    ∃ slot, IsLeast (slots period (fun p ↦ Window (p / period % cycle)) target) slot := by
  classical
  have hslot : ∃ position, position ∈ slots period (fun p ↦ Window (p / period % cycle)) target :=
    exists_mem_slots Window hperiod hnumber hwindow
  exact ⟨Nat.find hslot, Nat.find_spec hslot, fun _ hposition ↦ Nat.find_min' hslot hposition⟩

end Sketchbook.Foundation.CyclicSlot
