import Mathlib.Data.List.Basic
import Mathlib.Data.List.TakeWhile

/-!
# Character buffers and the String class of the Arduino core

Texts are lists of characters. `charAt`, `substring` and `indexOf` follow the documented behaviour
of the String class for the arguments the sketches pass. A character buffer that is turned into a
String is the memory from its first cell on: the constructor stops at the first NUL, wherever that
is, and a substring of the result depends on no cell past its right end. `IsCString` says which text
a pointer passes to a function that reads up to the first NUL.
-/

set_option autoImplicit false
set_option relaxedAutoImplicit false

namespace Sketchbook.Arduino.Text

/-- The character that ends a C string. -/
def nul : Char := Char.ofNat 0

/-- `String::charAt`: the character at an index, NUL past the end. -/
def charAt (text : List Char) (index : ℕ) : Char := text.getD index nul

/-- `String::substring(left, right)` for `left ≤ right`. -/
def substring (text : List Char) (left right : ℕ) : List Char := (text.take right).drop left

/-- `String::indexOf`: the first index of a character, `-1` if it does not occur. -/
def indexOf (text : List Char) (character : Char) : ℤ :=
  match text.findIdx? (· == character) with
  | some index => index
  | none => -1

/-- The characters that `String(buffer)` copies out of the first cells of a buffer. -/
def cString (cells : List Char) : List Char := cells.takeWhile (· ≠ nul)

/-- `String(memory).substring(left, right)` for a buffer in memory that may lack a NUL. -/
def cSubstring (memory : ℕ → Char) (left right : ℕ) : List Char :=
  substring (cString ((List.range right).map memory)) left right

/-- The C string that a pointer into memory stands for: the cells up to the first NUL. -/
structure IsCString (memory : ℕ → Char) (text : List Char) : Prop where
  cells : (List.range text.length).map memory = text
  nul_notMem : nul ∉ text
  terminated : memory text.length = nul

theorem indexOf_eq_neg_one_iff (text : List Char) (character : Char) :
    indexOf text character = -1 ↔ character ∉ text := by
  unfold indexOf
  split
  · rename_i index hindex
    have hmem : character ∈ text := by
      obtain ⟨hlt, hfound, -⟩ := List.findIdx?_eq_some_iff_getElem.mp hindex
      have heq : text[index] = character := by simpa using hfound
      exact heq ▸ List.getElem_mem hlt
    simp only [hmem, not_true_eq_false, iff_false]
    omega
  · rename_i hnone
    rw [List.findIdx?_eq_none_iff] at hnone
    simp only [true_iff]
    intro hmem
    simpa using hnone character hmem

theorem isPrefix_cString (cells : List Char) : cString cells <+: cells := List.takeWhile_prefix _

/-- A buffer is copied whole exactly when it holds no NUL. -/
theorem cString_eq_self_iff {cells : List Char} : cString cells = cells ↔ nul ∉ cells := by
  rw [cString, List.takeWhile_eq_self_iff]
  constructor
  · intro hall hmem
    simpa using hall nul hmem
  · intro h character hmem
    exact decide_eq_true fun heq ↦ h (heq ▸ hmem)

theorem cString_eq_self {cells : List Char} (h : nul ∉ cells) : cString cells = cells :=
  cString_eq_self_iff.mpr h

/-- Nothing behind a NUL is copied. -/
theorem cString_append_nul (cells rest : List Char) :
    cString (cells ++ nul :: rest) = cString cells := by
  induction cells with
  | nil => rfl
  | cons character cells ih =>
    unfold cString at ih ⊢
    rw [List.cons_append, List.takeWhile_cons, List.takeWhile_cons, ih]

/-- A substring of a buffer whose cells up to the right end are not NUL reads those cells. -/
theorem cSubstring_eq {memory : ℕ → Char} {left right : ℕ}
    (h : ∀ index < right, memory index ≠ nul) :
    cSubstring memory left right = ((List.range right).map memory).drop left := by
  have hmem : nul ∉ (List.range right).map memory := by
    intro hnul
    obtain ⟨index, hindex, heq⟩ := List.mem_map.mp hnul
    exact h index (List.mem_range.mp hindex) heq
  rw [cSubstring, cString_eq_self hmem, substring, List.take_of_length_le (by simp)]

end Sketchbook.Arduino.Text
