import Mathlib.Data.List.Basic
import Mathlib.Data.Bool.Count
import Mathlib.Data.Finset.Card
import Mathlib.Data.Finset.Range
import Mathlib.Algebra.Ring.Parity
import Mathlib.Tactic.Ring
import Mathlib.Tactic.Linarith

/-!
# Bit words: unsigned and signed value, parity, lost and flipped bits

A word is a list of bits, most significant first. `value` reads it as an unsigned number,
`signedValue` as two's complement, and `parity` is the exclusive or of its bits. The lemmas say how
value and parity compose over concatenation, how the parity of a word with one bit removed or
replaced relates to the parity of the whole, and when removing a bit leaves a part of the word
unchanged.
-/

set_option autoImplicit false
set_option relaxedAutoImplicit false

namespace Sketchbook.Foundation.BitWord

/-! ### Value -/

/-- The unsigned value of a word, most significant bit first. -/
def value (word : List Bool) : ℕ := word.foldl (fun total bit ↦ 2 * total + bit.toNat) 0

/-- The two's complement value of a word, most significant bit first. -/
def signedValue (word : List Bool) : ℤ :=
  if word.head? = some true then value word - 2 ^ word.length else value word

@[simp] theorem value_nil : value [] = 0 := rfl

theorem foldl_value (word : List Bool) (total : ℕ) :
    word.foldl (fun total bit ↦ 2 * total + bit.toNat) total =
      total * 2 ^ word.length + value word := by
  induction word generalizing total with
  | nil => simp
  | cons bit word ih =>
    simp only [value, List.foldl_cons, List.length_cons]
    rw [ih, ih (2 * 0 + bit.toNat)]
    ring

theorem value_append (first second : List Bool) :
    value (first ++ second) = value first * 2 ^ second.length + value second := by
  rw [value, List.foldl_append, foldl_value]
  rfl

theorem value_cons (bit : Bool) (word : List Bool) :
    value (bit :: word) = bit.toNat * 2 ^ word.length + value word := by
  rw [value, List.foldl_cons, foldl_value, Nat.mul_zero, Nat.zero_add]

theorem value_lt (word : List Bool) : value word < 2 ^ word.length := by
  induction word with
  | nil => simp
  | cons bit word ih =>
    rw [value_cons, List.length_cons, pow_succ]
    have hbit := Bool.toNat_le bit
    have hscaled : bit.toNat * 2 ^ word.length ≤ 1 * 2 ^ word.length :=
      Nat.mul_le_mul_right _ hbit
    omega

theorem value_eq_zero_iff (word : List Bool) : value word = 0 ↔ ∀ bit ∈ word, bit = false := by
  induction word with
  | nil => simp
  | cons bit word ih =>
    rw [value_cons, List.forall_mem_cons, ← ih, Nat.add_eq_zero_iff]
    cases bit <;> simp

theorem signedValue_append {high : List Bool} (h : high ≠ []) (low : List Bool) :
    signedValue (high ++ low) = signedValue high * 2 ^ low.length + value low := by
  obtain ⟨sign, rest, rfl⟩ := List.exists_cons_of_ne_nil h
  unfold signedValue
  rw [value_append, List.length_append, pow_add]
  cases sign with
  | false => simp
  | true =>
    simp only [List.cons_append, List.head?_cons, if_true]
    push_cast
    ring

theorem signedValue_eq_zero_iff (word : List Bool) :
    signedValue word = 0 ↔ ∀ bit ∈ word, bit = false := by
  unfold signedValue
  split_ifs with hsign
  · have hlt : (value word : ℤ) < 2 ^ word.length := by exact_mod_cast value_lt word
    refine iff_of_false (by omega) fun hzero ↦ ?_
    exact absurd (hzero true (List.mem_of_head? hsign)) (by decide)
  · rw [Nat.cast_eq_zero, value_eq_zero_iff]

/-- A two's complement word equals the unsigned value of its lower part exactly when the part above
is zero. -/
theorem signedValue_append_eq_iff {high : List Bool} (h : high ≠ []) (low : List Bool) :
    signedValue (high ++ low) = value low ↔ ∀ bit ∈ high, bit = false := by
  have hpos : (2 : ℤ) ^ low.length ≠ 0 := pow_ne_zero _ two_ne_zero
  rw [signedValue_append h, add_eq_right, mul_eq_zero_iff_right hpos, signedValue_eq_zero_iff]

/-- A two's complement word is a number that fits its lower part exactly when the part above is
zero. -/
theorem signedValue_append_bounds_iff {high : List Bool} (h : high ≠ []) (low : List Bool) :
    (0 ≤ signedValue (high ++ low) ∧ signedValue (high ++ low) < 2 ^ low.length) ↔
      ∀ bit ∈ high, bit = false := by
  have hlt : (value low : ℤ) < 2 ^ low.length := by exact_mod_cast value_lt low
  constructor
  · rintro ⟨hnonneg, hbound⟩
    rw [signedValue_append h] at hnonneg hbound
    rw [← signedValue_eq_zero_iff]
    refine le_antisymm ?_ ?_
    · by_contra hpositive
      have hscaled : 1 * (2 : ℤ) ^ low.length ≤ signedValue high * 2 ^ low.length :=
        mul_le_mul_of_nonneg_right (by omega) (by positivity)
      omega
    · by_contra hnegative
      have hscaled : signedValue high * 2 ^ low.length ≤ -1 * (2 : ℤ) ^ low.length :=
        mul_le_mul_of_nonneg_right (by omega) (by positivity)
      omega
  · intro hzero
    rw [(signedValue_append_eq_iff h low).mpr hzero]
    exact ⟨by positivity, hlt⟩

/-- Every number in range is the unsigned value of a word. -/
theorem exists_value_eq (width number : ℕ) (h : number < 2 ^ width) :
    ∃ word, word.length = width ∧ value word = number := by
  induction width generalizing number with
  | zero =>
    rw [pow_zero, Nat.lt_one_iff] at h
    exact ⟨[], rfl, h.symm⟩
  | succ width ih =>
    rw [pow_succ] at h
    by_cases hhigh : 2 ^ width ≤ number
    · obtain ⟨word, hlength, hvalue⟩ := ih (number - 2 ^ width) (by omega)
      refine ⟨true :: word, by rw [List.length_cons, hlength], ?_⟩
      rw [value_cons, hlength, hvalue, Bool.toNat_true]
      omega
    · obtain ⟨word, hlength, hvalue⟩ := ih number (by omega)
      refine ⟨false :: word, by rw [List.length_cons, hlength], ?_⟩
      rw [value_cons, hvalue, Bool.toNat_false]
      omega

/-- Every number in range is the two's complement value of a word. -/
theorem exists_signedValue_eq (width : ℕ) (number : ℤ) (hlower : -2 ^ width ≤ number)
    (hupper : number < 2 ^ width) :
    ∃ word, word.length = width + 1 ∧ signedValue word = number := by
  have hpow : ((2 ^ width : ℕ) : ℤ) = 2 ^ width := by push_cast; rfl
  by_cases hnegative : number < 0
  · obtain ⟨word, hlength, hvalue⟩ :=
      exists_value_eq width (number + 2 ^ width).toNat (by omega)
    refine ⟨true :: word, by rw [List.length_cons, hlength], ?_⟩
    rw [signedValue, List.head?_cons, if_pos rfl, value_cons, hvalue, List.length_cons, hlength,
      pow_succ, Bool.toNat_true]
    push_cast
    omega
  · obtain ⟨word, hlength, hvalue⟩ := exists_value_eq width number.toNat (by omega)
    refine ⟨false :: word, by rw [List.length_cons, hlength], ?_⟩
    rw [signedValue, List.head?_cons, if_neg (by decide), value_cons, hvalue, Bool.toNat_false]
    push_cast
    omega

/-! ### Parity -/

/-- The exclusive or of the bits of a word. -/
def parity (word : List Bool) : Bool := word.foldr Bool.xor false

@[simp] theorem parity_nil : parity [] = false := rfl

@[simp] theorem parity_cons (bit : Bool) (word : List Bool) :
    parity (bit :: word) = (bit ^^ parity word) := rfl

@[simp] theorem parity_append (first second : List Bool) :
    parity (first ++ second) = (parity first ^^ parity second) := by
  induction first with
  | nil => simp
  | cons bit first ih => simp [ih]

theorem parity_reverse (word : List Bool) : parity word.reverse = parity word := by
  induction word with
  | nil => rfl
  | cons bit word ih => simp [ih, Bool.xor_comm]

/-- The parity is even exactly when the word has an even number of ones. -/
theorem parity_eq_false_iff (word : List Bool) :
    parity word = false ↔ Even (word.count true) := by
  induction word with
  | nil => simp
  | cons bit word ih =>
    cases bit with
    | false => simpa using ih
    | true =>
      rw [parity_cons, List.count_cons_self, Nat.even_add_one, ← ih]
      simp

theorem parity_eraseIdx (word : List Bool) (index : ℕ) (h : index < word.length) :
    parity (word.eraseIdx index) = (parity word ^^ word[index]) := by
  induction word generalizing index with
  | nil => simp at h
  | cons bit word ih =>
    cases index with
    | zero => simp [Bool.xor_comm]
    | succ index =>
      have hrest := ih index (by simpa using h)
      simp [hrest]

theorem parity_set (word : List Bool) (index : ℕ) (h : index < word.length) (bit : Bool) :
    parity (word.set index bit) = (parity word ^^ (word[index] ^^ bit)) := by
  induction word generalizing index with
  | nil => simp at h
  | cons head word ih =>
    cases index with
    | zero =>
      simp only [List.set_cons_zero, parity_cons, List.getElem_cons_zero]
      cases head <;> cases bit <;> cases parity word <;> rfl
    | succ index =>
      have hrest := ih index (by simpa using h)
      simp [hrest]

/-! ### Flipped bits -/

/-- A word with the bits at some positions inverted. -/
def flipped (positions : Finset ℕ) (word : List Bool) : List Bool :=
  word.mapIdx fun index bit ↦ bit ^^ decide (index ∈ positions)

@[simp] theorem length_flipped (positions : Finset ℕ) (word : List Bool) :
    (flipped positions word).length = word.length := List.length_mapIdx

/-- Inverting bits changes the parity exactly when an odd number of them lies in the word. -/
theorem parity_flipped (positions : Finset ℕ) (word : List Bool) :
    parity (flipped positions word) =
      (parity word ^^ decide (Odd (positions ∩ Finset.range word.length).card)) := by
  induction word using List.reverseRecOn with
  | nil => simp [flipped]
  | append_singleton word bit ih =>
    have hlast : flipped positions (word ++ [bit]) =
        flipped positions word ++ [bit ^^ decide (word.length ∈ positions)] := by
      rw [flipped, List.mapIdx_concat, flipped]
    rw [hlast, parity_append, ih, parity_append, List.length_append, List.length_singleton,
      Finset.range_add_one]
    by_cases hmem : word.length ∈ positions
    · have hcard : (positions ∩ insert word.length (Finset.range word.length)).card =
          (positions ∩ Finset.range word.length).card + 1 := by
        rw [Finset.inter_insert_of_mem hmem, Finset.card_insert_of_notMem (by simp)]
      rw [hcard]
      simp only [Nat.odd_add_one, decide_not, parity_cons, parity_nil, hmem, decide_true]
      cases bit <;> cases parity word <;> simp
    · rw [Finset.inter_insert_of_notMem hmem]
      simp only [parity_cons, parity_nil, hmem, decide_false]
      cases bit <;> cases parity word <;> simp

/-! ### Lost bits -/

/-- Removing a cell leaves a slice of a word unchanged exactly when the cells it shifts into the
slice repeat the ones they replace. -/
theorem slice_eraseIdx_eq_iff {α : Type*} (word : List α) (index left right : ℕ)
    (hindex : index < word.length) (hright : right < word.length) :
    ((word.eraseIdx index).take right).drop left = (word.take right).drop left ↔
      ∀ m, index ≤ m → left ≤ m → ∀ h : m < right, word[m + 1] = word[m] := by
  have hlength : (word.eraseIdx index).length + 1 = word.length := by
    rw [List.length_eraseIdx_of_lt hindex]
    omega
  constructor
  · intro heq m hlower hleft hlt
    have hcell := congrArg (fun slice : List α ↦ slice[m - left]?) heq
    simp only [List.getElem?_drop, Nat.add_sub_cancel' hleft, List.getElem?_take, hlt, if_true,
      List.getElem?_eraseIdx, Nat.not_lt.mpr hlower, if_false] at hcell
    rw [List.getElem?_eq_getElem (by omega), List.getElem?_eq_getElem (by omega)] at hcell
    exact Option.some.inj hcell
  · intro hequal
    apply List.ext_getElem
    · simp only [List.length_drop, List.length_take]
      omega
    · intro offset hfirst hsecond
      simp only [List.length_drop, List.length_take] at hfirst hsecond
      simp only [List.getElem_drop, List.getElem_take, List.getElem_eraseIdx]
      by_cases hlower : left + offset < index
      · rw [dif_pos hlower]
      · rw [dif_neg hlower]
        exact hequal _ (Nat.not_lt.mp hlower) (Nat.le_add_right _ _) (by omega)

end Sketchbook.Foundation.BitWord
