import Mathlib.Algebra.GroupWithZero.Nat
import Sketchbook.Foundation.Delimited

/-!
# Terminated strings in a memory

A memory holds strings one behind the other, each with a terminator behind it (`joined`). The string
at an offset ends at the first terminator, and `none` says that the memory ends before (`stringAt`).
At the `offset` of a string stands that string (`stringAt_offset`), and behind the last one there is
none. Whatever stands in front of a terminator is such a memory, of the pieces between the
terminators (`joined_splitOn`); `visible` are those that begin in front of the last terminator.
-/

set_option autoImplicit false
set_option relaxedAutoImplicit false

namespace Sketchbook.Foundation.TerminatedStrings

variable {α : Type*}

/-! ### Memories -/

/-- The strings, each with a terminator behind it. -/
def joined (terminator : α) (strings : List (List α)) : List α :=
  strings.flatMap (· ++ [terminator])

/-- Where a string begins. -/
def offset (strings : List (List α)) (index : ℕ) : ℕ :=
  ((strings.take index).map (·.length + 1)).sum

theorem length_joined (terminator : α) (strings : List (List α)) :
    (joined terminator strings).length = (strings.map (·.length + 1)).sum := by
  rw [joined, List.length_flatMap]
  exact congrArg List.sum (List.map_congr_left fun string _ ↦ by simp)

theorem offset_succ {strings : List (List α)} {index : ℕ} {string : List α}
    (h : strings[index]? = some string) :
    offset strings (index + 1) = offset strings index + string.length + 1 := by
  rw [offset, List.take_add_one, h, Option.toList_some, List.map_append, List.sum_append]
  rfl

theorem offset_of_length_le (terminator : α) {strings : List (List α)} {index : ℕ}
    (h : strings.length ≤ index) : offset strings index = (joined terminator strings).length := by
  rw [offset, List.take_of_length_le h, length_joined]

theorem offset_mono (strings : List (List α)) {first second : ℕ} (h : first ≤ second) :
    offset strings first ≤ offset strings second := by
  have hpiece := (List.take_prefix_take_left h : strings.take first <+: strings.take second)
  obtain ⟨rest, hrest⟩ := hpiece
  rw [offset, offset, ← hrest, List.map_append, List.sum_append]
  exact Nat.le_add_right _ _

/-- A string that is not the last one begins in front of the last terminator. -/
theorem offset_lt (terminator : α) {strings : List (List α)} {index : ℕ}
    (h : index + 1 < strings.length) :
    offset strings index + 1 < (joined terminator strings).length := by
  have hfirst := offset_succ (List.getElem?_eq_getElem (Nat.lt_of_succ_lt h))
  have hsecond := offset_succ (List.getElem?_eq_getElem h)
  have hle := offset_mono strings (Nat.succ_le_of_lt h)
  rw [offset_of_length_le terminator le_rfl] at hle
  rw [Nat.succ_eq_add_one] at hle
  omega

/-- The memory from a string on. -/
theorem drop_offset (terminator : α) (strings : List (List α)) (index : ℕ) :
    (joined terminator strings).drop (offset strings index) =
      joined terminator (strings.drop index) := by
  have hlength : offset strings index = (joined terminator (strings.take index)).length := by
    rw [length_joined]
    rfl
  have hsplit : joined terminator strings =
      joined terminator (strings.take index) ++ joined terminator (strings.drop index) := by
    rw [joined, joined, joined, ← List.flatMap_append, List.take_append_drop]
  rw [hsplit, hlength, List.drop_left]

variable [DecidableEq α]

/-- The string at an offset, if there is a terminator behind it. -/
def stringAt (terminator : α) (memory : List α) (offset : ℕ) : Option (List α) :=
  if terminator ∈ memory.drop offset
  then some ((memory.drop offset).takeWhile (· ≠ terminator)) else none

variable {terminator : α} {strings : List (List α)}

theorem stringAt_offset (h : ∀ string ∈ strings, terminator ∉ string) (index : ℕ) :
    stringAt terminator (joined terminator strings) (offset strings index) = strings[index]? := by
  rw [stringAt, drop_offset]
  cases hindex : strings[index]? with
  | none =>
    rw [List.drop_eq_nil_of_le (List.getElem?_eq_none_iff.mp hindex)]
    exact if_neg List.not_mem_nil
  | some string =>
    obtain ⟨hlt, rfl⟩ := List.getElem?_eq_some_iff.mp hindex
    have hstring := h _ (List.getElem_mem hlt)
    have hall : ∀ entry ∈ strings[index], decide (entry ≠ terminator) = true :=
      Delimited.ne_delimiter_of_mem hstring
    rw [List.drop_eq_getElem_cons hlt, joined, List.flatMap_cons, List.append_assoc,
      List.singleton_append, if_pos (List.mem_append_right _ List.mem_cons_self),
      List.takeWhile_append_of_pos hall, List.takeWhile_cons_of_neg (by simp), List.append_nil]

/-- What stands in front of a terminator are the pieces between the terminators. -/
theorem joined_splitOn (terminator : α) (list : List α) :
    joined terminator (list.splitOn terminator) = list ++ [terminator] := by
  induction list with
  | nil => rfl
  | cons entry rest ih =>
    rw [List.splitOn_cons_eq_if_modifyHead]
    by_cases h : entry = terminator
    · rw [if_pos (by simpa using h), joined, List.flatMap_cons, ← joined, ih, h]
      rfl
    · obtain ⟨piece, pieces, hpieces⟩ := List.exists_cons_of_ne_nil
        (List.splitOn_ne_nil terminator rest)
      rw [hpieces] at ih ⊢
      rw [if_neg (by simpa using h), List.modifyHead_cons, joined, List.flatMap_cons, ← joined,
        List.cons_append, List.cons_append, List.cons_append, ← ih]
      rfl

theorem notMem_of_mem_splitOn {list piece : List α} (h : piece ∈ list.splitOn terminator) :
    terminator ∉ piece := by
  induction list generalizing piece with
  | nil =>
    rw [List.splitOn_nil, List.mem_singleton] at h
    exact h ▸ List.not_mem_nil
  | cons entry rest ih =>
    obtain ⟨first, pieces, hpieces⟩ := List.exists_cons_of_ne_nil
      (List.splitOn_ne_nil terminator rest)
    rw [List.splitOn_cons_eq_if_modifyHead] at h
    rw [hpieces] at h ih
    split at h
    · rcases List.mem_cons.mp h with rfl | hmem
      · exact List.not_mem_nil
      · exact ih hmem
    · next hne =>
      rw [List.modifyHead_cons] at h
      rcases List.mem_cons.mp h with rfl | hmem
      · refine fun hterminator ↦ ih List.mem_cons_self ?_
        rcases List.mem_cons.mp hterminator with heq | htail
        · exact absurd (by simpa using heq.symm) hne
        · exact htail
      · exact ih (List.mem_cons_of_mem _ hmem)

/-! ### The end -/

/-- The strings that begin in front of the last terminator. -/
def visible (strings : List (List α)) : List (List α) :=
  if strings.getLast? = some [] then strings.dropLast else strings

theorem length_visible_le (strings : List (List α)) :
    strings.length - 1 ≤ (visible strings).length ∧ (visible strings).length ≤ strings.length := by
  rw [visible]
  split
  · rw [List.length_dropLast]
    omega
  · omega

/-- A string begins in front of the last terminator exactly when it is one of the visible ones. -/
theorem offset_lt_iff (terminator : α) {index : ℕ} (hindex : index ≤ strings.length) :
    offset strings index < (joined terminator strings).length - 1 ↔
      index < (visible strings).length := by
  obtain ⟨hvisible, hle⟩ := length_visible_le strings
  have hend := offset_of_length_le terminator (le_refl strings.length)
  rcases Nat.lt_trichotomy (index + 1) strings.length with hbefore | hlast | hbehind
  · have hlt := offset_lt terminator hbefore
    omega
  · have hget : strings[index]? = strings.getLast? := by
      rw [List.getLast?_eq_getElem?, ← hlast, Nat.add_sub_cancel]
    have hlt : index < strings.length := by omega
    have hstring := List.getElem?_eq_getElem hlt
    have hnext := offset_succ hstring
    rw [hlast, hend] at hnext
    rw [hstring] at hget
    by_cases hempty : strings[index] = []
    · rw [visible, if_pos (hget ▸ congrArg some hempty), List.length_dropLast]
      rw [hempty, List.length_nil] at hnext
      omega
    · have hpos := List.length_pos_iff.mpr hempty
      rw [visible, if_neg fun h ↦ hempty (Option.some.inj (hget.trans h))]
      omega
  · have hat : index = strings.length := by omega
    rw [hat, hend]
    omega

end Sketchbook.Foundation.TerminatedStrings
