import Mathlib.Data.Nat.Digits.Lemmas

/-!
# Decimal numbers as text

`text` and `signedText` write a number with the codes of its digits, and `number` reads one as the
functions of C do: behind blanks, with a sign or without, as far as there are digits. It reads what
was written (`number_signedText_append`), whatever stands behind it that is no digit.
-/

set_option autoImplicit false
set_option relaxedAutoImplicit false

namespace Sketchbook.Foundation.DecimalText

/-! ### Writing -/

/-- The code of a digit. -/
def code (digit : ℕ) : BitVec 8 := BitVec.ofNat 8 (48 + digit)

def minus : BitVec 8 := 45

def plus : BitVec 8 := 43

def text (number : ℕ) : List (BitVec 8) :=
  if number = 0 then [code 0] else (Nat.digits 10 number).reverse.map code

def signedText (number : ℤ) : List (BitVec 8) :=
  if number < 0 then minus :: text number.natAbs else text number.natAbs

/-! ### Reading -/

def isDigit (character : BitVec 8) : Bool := 48 ≤ character.toNat && character.toNat ≤ 57

/-- The blanks of `isspace`. -/
def isSpace (character : BitVec 8) : Bool :=
  character.toNat = 32 || (9 ≤ character.toNat && character.toNat ≤ 13)

def value (digits : List (BitVec 8)) : ℕ :=
  digits.foldl (fun total character ↦ total * 10 + (character.toNat - 48)) 0

/-- The number at the beginning of a text behind its sign. -/
def leading (characters : List (BitVec 8)) : ℕ := value (characters.takeWhile isDigit)

/-- The number at the beginning of a text, which is 0 where there is none. -/
def number (characters : List (BitVec 8)) : ℤ :=
  let characters := characters.dropWhile isSpace
  if characters.head? = some minus then -leading characters.tail
  else if characters.head? = some plus then leading characters.tail
  else leading characters

/-! ### What is written is read -/

theorem toNat_code {digit : ℕ} (h : digit < 10) : (code digit).toNat = 48 + digit :=
  Nat.mod_eq_of_lt (by omega)

theorem isDigit_code {digit : ℕ} (h : digit < 10) : isDigit (code digit) = true := by
  rw [isDigit, toNat_code h, Bool.and_eq_true, decide_eq_true_eq, decide_eq_true_eq]
  omega

theorem value_append_singleton (digits : List (BitVec 8)) (character : BitVec 8) :
    value (digits ++ [character]) = value digits * 10 + (character.toNat - 48) := by
  rw [value, List.foldl_append]
  rfl

theorem value_reverse_map_code {digits : List ℕ} (h : ∀ digit ∈ digits, digit < 10) :
    value (digits.reverse.map code) = Nat.ofDigits 10 digits := by
  induction digits with
  | nil => rfl
  | cons digit digits ih =>
    have hdigit := h digit List.mem_cons_self
    rw [List.reverse_cons, List.map_append, List.map_singleton, value_append_singleton,
      ih fun other hother ↦ h other (List.mem_cons_of_mem _ hother), toNat_code hdigit,
      Nat.ofDigits_cons, Nat.add_sub_cancel_left, Nat.mul_comm, Nat.add_comm]

theorem value_text (number : ℕ) : value (text number) = number := by
  rw [text]
  split
  · next hzero => rw [hzero]; rfl
  · rw [value_reverse_map_code fun _ ↦ Nat.digits_lt_base (by decide), Nat.ofDigits_digits]

theorem isDigit_of_mem_text {number : ℕ} {character : BitVec 8} (h : character ∈ text number) :
    isDigit character = true := by
  rw [text] at h
  split at h
  · rw [List.mem_singleton.mp h]
    exact isDigit_code (by decide)
  · obtain ⟨digit, hmem, rfl⟩ := List.mem_map.mp h
    exact isDigit_code (Nat.digits_lt_base (by decide) (List.mem_reverse.mp hmem))

theorem text_ne_nil (number : ℕ) : text number ≠ [] := by
  rw [text]
  split
  · exact List.cons_ne_nil _ _
  · next hne =>
    rwa [ne_eq, List.map_eq_nil_iff, List.reverse_eq_nil_iff, Nat.digits_eq_nil_iff_eq_zero]

/-- A number below a power of ten has no more digits than the exponent says. -/
theorem length_text_le {number width : ℕ} (hwidth : 0 < width) (h : number < 10 ^ width) :
    (text number).length ≤ width := by
  rw [text]
  split
  · exact hwidth
  · rw [List.length_map, List.length_reverse]
    exact (Nat.digits_length_le_iff (by decide) number).mpr h

theorem leading_text_append {number : ℕ} {rest : List (BitVec 8)}
    (h : ∀ character ∈ rest.head?, isDigit character = false) :
    leading (text number ++ rest) = number := by
  have hrest : rest.takeWhile isDigit = [] := by
    cases rest with
    | nil => rfl
    | cons character rest =>
      exact List.takeWhile_cons_of_neg (by simpa using h character rfl)
  rw [leading, List.takeWhile_append_of_pos fun _ ↦ isDigit_of_mem_text, hrest, List.append_nil,
    value_text]

theorem not_isSpace_of_isDigit {character : BitVec 8} (h : isDigit character = true) :
    isSpace character = false := by
  simp only [isDigit, Bool.and_eq_true, decide_eq_true_eq] at h
  simp only [isSpace, Bool.or_eq_false_iff, Bool.and_eq_false_iff, decide_eq_false_iff_not]
  omega

/-- The head of a text is a digit, so it is neither a blank nor a sign. -/
theorem head?_text_append (number : ℕ) (rest : List (BitVec 8)) :
    ∃ character, (text number ++ rest).head? = some character ∧ isDigit character = true := by
  obtain ⟨character, characters, htext⟩ := List.exists_cons_of_ne_nil (text_ne_nil number)
  have hmem : character ∈ text number := htext ▸ List.mem_cons_self
  exact ⟨character, by rw [htext]; rfl, isDigit_of_mem_text hmem⟩

theorem dropWhile_isSpace {characters : List (BitVec 8)} {character : BitVec 8}
    (hhead : characters.head? = some character) (hspace : isSpace character = false) :
    characters.dropWhile isSpace = characters := by
  cases characters with
  | nil => rfl
  | cons first rest =>
    obtain rfl := Option.some.inj hhead
    exact List.dropWhile_cons_of_neg (by simp [hspace])

/-- What is read is the number that was written. -/
theorem number_signedText_append (written : ℤ) {rest : List (BitVec 8)}
    (h : ∀ character ∈ rest.head?, isDigit character = false) :
    number (signedText written ++ rest) = written := by
  rw [signedText]
  split
  · next hneg =>
    have hspace : isSpace minus = false := rfl
    rw [List.cons_append, number, dropWhile_isSpace List.head?_cons hspace]
    rw [List.head?_cons, if_pos rfl, List.tail_cons, leading_text_append h]
    omega
  · next hpos =>
    obtain ⟨character, hhead, hdigit⟩ := head?_text_append written.natAbs rest
    have hminus : some character ≠ some minus := fun heq ↦ by
      rw [Option.some.inj heq] at hdigit
      exact absurd hdigit (by decide)
    have hplus : some character ≠ some plus := fun heq ↦ by
      rw [Option.some.inj heq] at hdigit
      exact absurd hdigit (by decide)
    rw [number, dropWhile_isSpace hhead (not_isSpace_of_isDigit hdigit)]
    rw [hhead, if_neg hminus, if_neg hplus, leading_text_append h]
    omega

theorem number_signedText (written : ℤ) : number (signedText written) = written := by
  have h : number (signedText written ++ []) = written :=
    number_signedText_append written fun _ h ↦ absurd h (by simp)
  rwa [List.append_nil] at h

/-! ### The characters -/

theorem zero_notMem_signedText (written : ℤ) : (0 : BitVec 8) ∉ signedText written := by
  have htext : (0 : BitVec 8) ∉ text written.natAbs := fun h ↦
    absurd (isDigit_of_mem_text h) (by decide)
  rw [signedText]
  split
  · exact fun h ↦ (List.mem_cons.mp h).elim (by decide) htext
  · exact htext

theorem signedText_ne_nil (written : ℤ) : signedText written ≠ [] := by
  rw [signedText]
  split
  · exact List.cons_ne_nil _ _
  · exact text_ne_nil _

/-- A number of 32 bits takes at most eleven characters. -/
theorem length_signedText_le (word : BitVec 32) : (signedText word.toInt).length ≤ 11 := by
  have hlt : word.toInt.natAbs < 10 ^ 10 := by
    have hle := BitVec.le_toInt word
    have hlt := BitVec.toInt_lt (x := word)
    norm_num at hle hlt ⊢
    omega
  have hlength := length_text_le (by decide) hlt
  rw [signedText]
  split
  · rw [List.length_cons]
    omega
  · omega

end Sketchbook.Foundation.DecimalText
