import Mathlib.Data.List.Flatten
import Mathlib.Data.List.Infix
import Mathlib.Data.List.TakeWhile

/-!
# Reading a list piece by piece

`readUntil` takes from a list what stands before the first delimiter, and leaves what stands behind
it. A loop that reads so until nothing is left sees the pieces of `List.splitOn`: `flatMap_splitOn`
is a turn of it. `flatten_splitOn` says that the pieces together are the list without its
delimiters, and `flatMap_eq_flatten_iff` that shortening pieces loses nothing exactly when no piece
gets shorter.
-/

set_option autoImplicit false
set_option relaxedAutoImplicit false

namespace Sketchbook.Foundation.Delimited

variable {α : Type*}

/-- Pieces that may have been cut off at the end are together what they were exactly when none of
them has been cut. -/
theorem flatMap_eq_flatten_iff {cut : List α → List α} (hcut : ∀ piece, cut piece <+: piece)
    (pieces : List (List α)) :
    pieces.flatMap cut = pieces.flatten ↔ ∀ piece ∈ pieces, cut piece = piece := by
  have hlength (pieces : List (List α)) :
      (pieces.flatMap cut).length ≤ pieces.flatten.length := by
    induction pieces with
    | nil => exact le_rfl
    | cons piece pieces ih =>
      rw [List.flatMap_cons, List.flatten_cons, List.length_append, List.length_append]
      exact Nat.add_le_add (hcut piece).length_le ih
  induction pieces with
  | nil => simp
  | cons piece pieces ih =>
    rw [List.flatMap_cons, List.flatten_cons, List.forall_mem_cons]
    constructor
    · intro heq
      have hlengths := congrArg List.length heq
      rw [List.length_append, List.length_append] at hlengths
      have hpiece := (hcut piece).length_le
      have hrest := hlength pieces
      obtain ⟨hkept, htail⟩ := List.append_inj heq (by omega)
      exact ⟨hkept, ih.mp htail⟩
    · rintro ⟨hpiece, hrest⟩
      rw [hpiece, ih.mpr hrest]

variable [DecidableEq α]

/-- What stands before the first delimiter of a list, and what stands behind it. -/
def readUntil (delimiter : α) (list : List α) : List α × List α :=
  (list.takeWhile (· ≠ delimiter), (list.dropWhile (· ≠ delimiter)).tail)

/-- A read takes something away from a list that is not empty. -/
theorem length_readUntil_lt (delimiter : α) {list : List α} (h : list ≠ []) :
    (readUntil delimiter list).2.length < list.length := by
  have hle : (list.dropWhile (· ≠ delimiter)).length ≤ list.length :=
    (List.dropWhile_sublist _).length_le
  have hpos := List.length_pos_iff.mpr h
  rw [readUntil, List.length_tail]
  omega

theorem ne_delimiter_of_mem {delimiter : α} {piece : List α} (h : delimiter ∉ piece) :
    ∀ entry ∈ piece, decide (entry ≠ delimiter) = true :=
  fun _ hmem ↦ decide_eq_true fun heq ↦ h (heq ▸ hmem)

theorem readUntil_of_notMem {delimiter : α} {list : List α} (h : delimiter ∉ list) :
    readUntil delimiter list = (list, []) := by
  have hall := ne_delimiter_of_mem h
  rw [readUntil, List.takeWhile_eq_self_iff.mpr hall, List.dropWhile_eq_nil_iff.mpr hall,
    List.tail_nil]

theorem readUntil_append {delimiter : α} {piece : List α} (h : delimiter ∉ piece) (rest : List α) :
    readUntil delimiter (piece ++ delimiter :: rest) = (piece, rest) := by
  have hall := ne_delimiter_of_mem h
  rw [readUntil, List.takeWhile_append_of_pos hall, List.dropWhile_append_of_pos hall]
  simp

/-- What a loop makes of the pieces it reads, one after the other. -/
theorem flatMap_splitOn {β : Type*} {f : List α → List β} (hnil : f [] = []) (delimiter : α)
    (list : List α) :
    (list.splitOn delimiter).flatMap f = f (readUntil delimiter list).1 ++
      ((readUntil delimiter list).2.splitOn delimiter).flatMap f := by
  by_cases hmem : delimiter ∈ list
  · obtain ⟨piece, rest, rfl, hpiece⟩ := List.eq_append_cons_of_mem hmem
    rw [List.splitOn_append_cons_self_of_not_mem hpiece, readUntil_append hpiece,
      List.flatMap_cons]
  · rw [List.splitOn_eq_singleton hmem, readUntil_of_notMem hmem, List.splitOn_nil]
    simp [hnil]

/-- The pieces together are the list without its delimiters. -/
theorem flatten_splitOn (delimiter : α) (list : List α) :
    (list.splitOn delimiter).flatten = list.filter (· ≠ delimiter) := by
  induction list with
  | nil => rfl
  | cons entry rest ih =>
    rw [List.splitOn_cons_eq_if_modifyHead]
    by_cases h : entry = delimiter
    · simp [h, ih]
    · obtain ⟨piece, pieces, hpieces⟩ := List.exists_cons_of_ne_nil
        (List.splitOn_ne_nil delimiter rest)
      rw [hpieces, List.flatten_cons] at ih
      simp [h, hpieces, ih]

end Sketchbook.Foundation.Delimited
