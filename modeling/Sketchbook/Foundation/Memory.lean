import Mathlib.Data.List.GetD
import Mathlib.Data.Nat.Basic
import Mathlib.Logic.Function.Basic

/-!
# Arrays as memory

An array of a C program is memory from its first cell on: an index past its end reaches a cell as
well. `stored` is the memory when a list has been written to its first cells, and `behind` the list
of cells that follow a position. The lemmas say how both grow by one cell. `overwritten` is the
memory when the first cells have been written more than once and nothing was cleared in between.
`successive` is what a loop writes that reads such cells and writes its state behind each of them.
-/

set_option autoImplicit false
set_option relaxedAutoImplicit false

namespace Sketchbook.Foundation.Memory

variable {α : Type*}

/-- The memory when a list has been written to its first cells. -/
def stored (memory : ℕ → α) (cells : List α) (index : ℕ) : α := cells.getD index (memory index)

@[simp] theorem stored_nil (memory : ℕ → α) : stored memory [] = memory := rfl

theorem stored_of_lt (memory : ℕ → α) {cells : List α} {index : ℕ} (h : index < cells.length) :
    stored memory cells index = cells[index] := List.getD_eq_getElem _ _ h

theorem stored_of_le (memory : ℕ → α) {cells : List α} {index : ℕ} (h : cells.length ≤ index) :
    stored memory cells index = memory index := List.getD_eq_default _ _ h

/-- A write behind the cells written so far adds one. -/
theorem update_stored (memory : ℕ → α) (cells : List α) (value : α) :
    Function.update (stored memory cells) cells.length value =
      stored memory (cells ++ [value]) := by
  funext index
  unfold stored
  rcases lt_trichotomy index cells.length with hlt | rfl | hgt
  · rw [Function.update_of_ne (Nat.ne_of_lt hlt), List.getD_append _ _ _ _ hlt]
  · rw [Function.update_self, List.getD_append_right _ _ _ _ le_rfl, Nat.sub_self,
      List.getD_cons_zero]
  · have hend : (cells ++ [value]).length ≤ index := by
      rw [List.length_append]
      exact Nat.succ_le_of_lt hgt
    rw [Function.update_of_ne (Nat.ne_of_gt hgt), List.getD_eq_default _ _ (Nat.le_of_lt hgt),
      List.getD_eq_default _ _ hend]

/-- The first cells hold what was written to them. -/
theorem map_range_stored (memory : ℕ → α) {cells : List α} {count : ℕ} (h : count ≤ cells.length) :
    (List.range count).map (stored memory cells) = cells.take count := by
  apply List.ext_getElem
  · simp [h]
  · intro index hleft hright
    have hindex : index < cells.length := by
      rw [List.length_take] at hright
      omega
    rw [List.getElem_map, List.getElem_range, stored_of_lt _ hindex, List.getElem_take]

/-- The memory when lists have been written to its first cells one after the other, given with the
newest first. -/
def overwritten (memory : ℕ → α) : List (List α) → ℕ → α
  | [] => memory
  | cells :: earlier => stored (overwritten memory earlier) cells

/-- As long as nothing writes a blank, a cell is blank exactly when nothing has reached it. -/
theorem overwritten_eq_blank_iff {blank : α} {writes : List (List α)}
    (hwrites : ∀ cells ∈ writes, blank ∉ cells) (index : ℕ) :
    overwritten (fun _ ↦ blank) writes index = blank ↔ ∀ cells ∈ writes, cells.length ≤ index := by
  induction writes with
  | nil => simp [overwritten]
  | cons cells earlier ih =>
    rw [List.forall_mem_cons] at hwrites ⊢
    rw [overwritten]
    rcases Nat.lt_or_ge index cells.length with hlt | hle
    · have hne : cells[index] ≠ blank := fun heq ↦ hwrites.1 (heq ▸ List.getElem_mem hlt)
      rw [stored_of_lt _ hlt]
      exact iff_of_false hne fun h ↦ absurd h.1 (Nat.not_le.mpr hlt)
    · rw [stored_of_le _ hle, ih hwrites.2]
      exact ⟨fun h ↦ ⟨hle, h⟩, fun h ↦ h.2⟩

/-- The first cells behind a position. -/
def behind (memory : ℕ → α) (position count : ℕ) : List α :=
  (List.range count).map fun k ↦ memory (position + (k + 1))

@[simp] theorem length_behind (memory : ℕ → α) (position count : ℕ) :
    (behind memory position count).length = count := by
  simp [behind]

theorem behind_succ (memory : ℕ → α) (position count : ℕ) :
    behind memory position (count + 1) =
      behind memory position count ++ [memory (position + (count + 1))] := by
  rw [behind, List.range_succ, List.map_append]
  rfl

/-! ### A loop that writes its state to one cell after the other -/

variable {σ : Type*}

/-- The states that a loop goes through as it reads a list, without the one it starts in. -/
def successive (step : σ → α → σ) (state : σ) (list : List α) : List σ :=
  (list.scanl step state).tail

theorem successive_cons (step : σ → α → σ) (state : σ) (first : α) (rest : List α) :
    successive step state (first :: rest) =
      step state first :: successive step (step state first) rest := by
  have hhead := List.cons_head_tail
    (List.scanl_ne_nil (f := step) (b := step state first) (l := rest))
  rw [List.head_scanl] at hhead
  rw [successive, List.scanl_cons, List.tail_cons, ← hhead]
  rfl

@[simp] theorem length_successive (step : σ → α → σ) (state : σ) (list : List α) :
    (successive step state list).length = list.length := by
  rw [successive, List.length_tail, List.length_scanl, Nat.add_sub_cancel]

theorem successive_append (step : σ → α → σ) (state : σ) (first second : List α) :
    successive step state (first ++ second) =
      successive step state first ++ successive step (first.foldl step state) second := by
  rw [successive, List.scanl_append, List.tail_append_of_ne_nil List.scanl_ne_nil]
  rfl

/-- A state that a step reaches only from itself is among the states only if it is the first. -/
theorem notMem_successive {step : σ → α → σ} {value state : σ} {list : List α}
    (hkept : ∀ state entry, step state entry = value → state = value)
    (hfirst : (successive step state list).head? ≠ some value) :
    value ∉ successive step state list := by
  induction list generalizing state with
  | nil => exact List.not_mem_nil
  | cons entry rest ih =>
    rw [successive_cons] at hfirst ⊢
    have hne : step state entry ≠ value := fun heq ↦ hfirst (congrArg some heq)
    rw [List.mem_cons, not_or]
    refine ⟨hne.symm, ih ?_⟩
    cases rest with
    | nil => exact (Option.some_ne_none value).symm
    | cons next later =>
      rw [successive_cons]
      exact fun heq ↦ hne (hkept _ next (Option.some.inj heq))

/-- One more turn of a loop that reads the cells behind a position and writes its state. -/
theorem update_stored_successive (step : σ → α → σ) (state : σ) (target : ℕ → σ) (source : ℕ → α)
    (position count : ℕ) :
    Function.update (stored target (successive step state (behind source position count))) count
        (step ((behind source position count).foldl step state) (source (position + (count + 1)))) =
      stored target (successive step state (behind source position (count + 1))) := by
  have hwrite := update_stored target (successive step state (behind source position count))
    (step ((behind source position count).foldl step state) (source (position + (count + 1))))
  rw [length_successive, length_behind] at hwrite
  rw [hwrite, behind_succ, successive_append, successive_cons]
  rfl

end Sketchbook.Foundation.Memory
