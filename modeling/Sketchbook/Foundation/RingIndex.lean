import Mathlib.Data.Nat.ModEq
import Mathlib.Logic.Function.Basic
import Mathlib.Data.Fin.Basic
import Mathlib.Data.List.Basic
import Mathlib.Tactic.Ring

/-!
# Positions, histories and walks on a ring of cells

A ring of `size` cells is a function on `Fin size`. A position moves by `advance`, which is addition
modulo the size, and `gap` is the modular distance that an index comparison computes. `Recent` is
the meaning of a ring that is written one cell at a time: the newest cells hold the newest entries
of the history, as far back as the ring reaches. `segment` reads a run of consecutive cells, and
`Recent.segment_eq` says which part of the history such a run is.

`walk` is the loop that starts at one position and moves by a fixed stride until it meets a stop
position. Its exit test is equality, so it ends only when the stop position is actually hit;
`walk_eq_foldl` is the case in which the stop lies a whole number of strides ahead and less than one
revolution away.
-/

set_option autoImplicit false
set_option relaxedAutoImplicit false

namespace Sketchbook.Foundation.RingIndex

variable {size : ℕ} [NeZero size]

/-! ### Positions -/

/-- The position `count` cells after `position`. -/
def advance (position : Fin size) (count : ℕ) : Fin size :=
  ⟨(position + count) % size, Nat.mod_lt _ (NeZero.pos size)⟩

/-- The modular distance from `first` to `second`, by comparison and subtraction. -/
def gap (first second : Fin size) : ℕ :=
  if (second : ℕ) < first then second + size - first else second - first

theorem val_advance (position : Fin size) (count : ℕ) :
    (advance position count : ℕ) = (position + count) % size := rfl

@[simp] theorem advance_zero (position : Fin size) : advance position 0 = position := by
  apply Fin.ext
  rw [val_advance, Nat.add_zero, Nat.mod_eq_of_lt position.isLt]

@[simp] theorem advance_advance (position : Fin size) (first second : ℕ) :
    advance (advance position first) second = advance position (first + second) := by
  apply Fin.ext
  simp only [val_advance]
  rw [Nat.mod_add_mod, Nat.add_assoc]

theorem advance_eq_advance_iff (position : Fin size) (first second : ℕ) :
    advance position first = advance position second ↔ first ≡ second [MOD size] := by
  rw [Fin.ext_iff, val_advance, val_advance]
  constructor
  · intro h
    exact Nat.ModEq.add_left_cancel' (position : ℕ) h
  · intro h
    exact Nat.ModEq.add_left (position : ℕ) h

theorem advance_add_size (position : Fin size) (count : ℕ) :
    advance position (count + size) = advance position count := by
  rw [advance_eq_advance_iff]
  exact Nat.add_modEq_right

theorem advance_injective (position : Fin size) {first second : ℕ} (hfirst : first < size)
    (hsecond : second < size) (h : advance position first = advance position second) :
    first = second :=
  Nat.ModEq.eq_of_lt_of_lt ((advance_eq_advance_iff position first second).mp h) hfirst hsecond

/-- Moving both positions by the same count keeps them distinct. -/
theorem advance_left_injective (count : ℕ) {first second : Fin size}
    (h : advance first count = advance second count) : first = second := by
  have hval := congrArg Fin.val h
  rw [val_advance, val_advance] at hval
  have hmod : (first : ℕ) ≡ second [MOD size] := Nat.ModEq.add_right_cancel' count hval
  exact Fin.ext (Nat.ModEq.eq_of_lt_of_lt hmod first.isLt second.isLt)

/-- The distance to an advanced position is the count, reduced modulo the size. -/
theorem gap_advance (position : Fin size) (count : ℕ) :
    gap position (advance position count) = count % size := by
  have hposition := position.isLt
  have hcount := Nat.mod_lt count (NeZero.pos size)
  have hval : (advance position count : ℕ) = (position + count % size) % size := by
    rw [val_advance, Nat.add_mod_mod]
  unfold gap
  rw [hval]
  by_cases hwrap : (position : ℕ) + count % size < size
  · rw [Nat.mod_eq_of_lt hwrap, if_neg (by omega)]
    omega
  · have hmod : ((position : ℕ) + count % size) % size = position + count % size - size := by
      rw [Nat.mod_eq_sub_mod (by omega), Nat.mod_eq_of_lt (by omega)]
    rw [hmod, if_pos (by omega)]
    omega

theorem advance_gap (first second : Fin size) : advance first (gap first second) = second := by
  have hfirst := first.isLt
  have hsecond := second.isLt
  apply Fin.ext
  rw [val_advance]
  unfold gap
  split_ifs with h
  · have hsum : (first : ℕ) + (second + size - first) = second + size := by omega
    rw [hsum, Nat.add_mod_right, Nat.mod_eq_of_lt hsecond]
  · have hsum : (first : ℕ) + (second - first) = second := by omega
    rw [hsum, Nat.mod_eq_of_lt hsecond]

/-! ### The history a ring holds -/

section History

variable {α : Type*}

/-- The newest cell holds the head of the history, and the cell written `age` writes earlier holds
the entry of that age, for every age below the size. -/
def Recent (cells : Fin size → α) (newest : Fin size) (history : List α) : Prop :=
  ∀ (age : ℕ) (entry : α) (cell : Fin size), age < size → history[age]? = some entry →
    advance cell age = newest → cells cell = entry

theorem recent_nil (cells : Fin size → α) (newest : Fin size) : Recent cells newest [] := by
  intro age entry cell _ hentry _
  simp at hentry

/-- Writing the next cell puts the new entry in front of the history. -/
theorem Recent.push {cells : Fin size → α} {newest : Fin size} {history : List α}
    (h : Recent cells newest history) (entry : α) :
    Recent (Function.update cells (advance newest 1) entry) (advance newest 1)
      (entry :: history) := by
  intro age found cell hage hfound hcell
  cases age with
  | zero =>
    rw [advance_zero] at hcell
    rw [hcell, Function.update_self]
    simpa using hfound
  | succ age =>
    have hnewest : advance cell age = newest := by
      rw [← advance_advance cell age 1] at hcell
      exact advance_left_injective 1 hcell
    have hne : cell ≠ advance newest 1 := by
      intro heq
      have hloop : advance cell (age + 1) = advance cell 0 := by
        rw [hcell, advance_zero, heq]
      have := advance_injective cell hage (NeZero.pos size) hloop
      omega
    rw [Function.update_of_ne hne]
    exact h age found cell (by omega) (by simpa using hfound) hnewest

/-- `count` consecutive cells from `start` on. -/
def segment (cells : Fin size → α) (start : Fin size) (count : ℕ) : List α :=
  (List.range count).map fun offset ↦ cells (advance start offset)

@[simp] theorem length_segment (cells : Fin size → α) (start : Fin size) (count : ℕ) :
    (segment cells start count).length = count := by
  simp [segment]

theorem getElem_segment (cells : Fin size → α) (start : Fin size) (count offset : ℕ)
    (h : offset < (segment cells start count).length) :
    (segment cells start count)[offset] = cells (advance start offset) := by
  simp [segment]

theorem segment_succ (cells : Fin size → α) (start : Fin size) (count : ℕ) :
    segment cells start (count + 1) = cells start :: segment cells (advance start 1) count := by
  simp only [segment, List.range_succ_eq_map, List.map_cons, List.map_map, advance_zero]
  congr 1
  apply List.map_congr_left
  intro offset _
  simp only [Function.comp_apply, advance_advance, Nat.succ_eq_add_one]
  rw [Nat.add_comm]

/-- A segment of pairs starts with the two cells of its first pair. -/
theorem segment_pair (cells : Fin size → α) (start : Fin size) (count : ℕ) :
    segment cells start (2 * (count + 1)) =
      cells start :: cells (advance start 1) :: segment cells (advance start 2) (2 * count) := by
  rw [show 2 * (count + 1) = 2 * count + 1 + 1 by ring, segment_succ, segment_succ,
    advance_advance]

/-- A segment that ends at the newest cell is the newest part of the history, oldest first. -/
theorem Recent.segment_eq {cells : Fin size → α} {newest start : Fin size} {history : List α}
    (h : Recent cells newest history) (count : ℕ) (hsize : count ≤ size)
    (hlength : count ≤ history.length) (hend : advance start count = advance newest 1) :
    segment cells start count = (history.take count).reverse := by
  apply List.ext_getElem
  · simp [hlength]
  · intro offset hleft hright
    have hoffset : offset < count := by simpa using hleft
    rw [getElem_segment, List.getElem_reverse]
    have hnewest : advance (advance start offset) (count - 1 - offset) = newest := by
      apply advance_left_injective 1
      rw [advance_advance, advance_advance, ← hend]
      congr 1
      omega
    refine h (count - 1 - offset) _ _ (by omega) ?_ hnewest
    rw [List.getElem_take, List.getElem?_eq_getElem (by omega)]
    simp only [List.length_take, Nat.min_eq_left hlength]

end History

/-! ### Walking with a stride until a stop position -/

section Walk

variable {σ : Type*}

/-- The loop `for (position = start; position != stop; position = (position + stride) % size)`. It
answers `none` when the fuel runs out before the stop position is met. -/
def walk (stride : ℕ) (body : Fin size → σ → σ) (stop : Fin size) : ℕ → Fin size → σ → Option σ
  | 0, position, state => if position = stop then some state else none
  | fuel + 1, position, state =>
    if position = stop then some state
    else walk stride body stop fuel (advance position stride) (body position state)

/-- The first `count` positions that a walk visits. -/
def stations (stride : ℕ) : ℕ → Fin size → List (Fin size)
  | 0, _ => []
  | count + 1, position => position :: stations stride count (advance position stride)

theorem mem_stations_iff {stride count : ℕ} {position start : Fin size} :
    position ∈ stations stride count start ↔
      ∃ turn < count, position = advance start (stride * turn) := by
  induction count generalizing start with
  | zero => simp [stations]
  | succ count ih =>
    rw [stations, List.mem_cons, ih]
    constructor
    · rintro (rfl | ⟨turn, hturn, rfl⟩)
      · exact ⟨0, by omega, by simp⟩
      · refine ⟨turn + 1, by omega, ?_⟩
        rw [advance_advance]
        congr 1
        ring
    · rintro ⟨turn, hturn, rfl⟩
      cases turn with
      | zero => exact Or.inl (by simp)
      | succ turn =>
        refine Or.inr ⟨turn, by omega, ?_⟩
        rw [advance_advance]
        congr 1
        ring

/-- A stop that lies `count` strides ahead and within one revolution is met after exactly `count`
turns of the loop. -/
theorem walk_eq_foldl (stride : ℕ) (hstride : 0 < stride) (body : Fin size → σ → σ) (count : ℕ)
    (hcount : stride * count < size) (fuel : ℕ) (hfuel : count ≤ fuel) (start : Fin size)
    (state : σ) :
    walk stride body (advance start (stride * count)) fuel start state =
      some ((stations stride count start).foldl (fun state position ↦ body position state)
        state) := by
  induction count generalizing fuel start state with
  | zero =>
    cases fuel <;> simp [walk, stations]
  | succ count ih =>
    obtain ⟨fuel, rfl⟩ : ∃ rest, fuel = rest + 1 := ⟨fuel - 1, by omega⟩
    have hpos : 0 < stride * (count + 1) := Nat.mul_pos hstride (Nat.succ_pos count)
    have hne : start ≠ advance start (stride * (count + 1)) := by
      intro heq
      have hzero : advance start 0 = advance start (stride * (count + 1)) := by
        rw [advance_zero]
        exact heq
      have := advance_injective start (NeZero.pos size) hcount hzero
      omega
    have hstop : advance start (stride * (count + 1)) =
        advance (advance start stride) (stride * count) := by
      rw [advance_advance]
      congr 1
      ring
    rw [walk, if_neg hne, hstop]
    have hless : stride * count < size := by
      have hle : stride * count ≤ stride * (count + 1) := Nat.mul_le_mul_left stride (by omega)
      omega
    exact ih hless fuel (by omega) (advance start stride) (body start state)

end Walk

end Sketchbook.Foundation.RingIndex
