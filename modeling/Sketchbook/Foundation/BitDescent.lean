import Mathlib.Order.PiLex
import Mathlib.Data.Fintype.Basic

/-!
# Descending a set of words bit by bit

A set of words of `n` bits is a binary tree. A descent goes down from the root: where the set leaves
no choice it takes the only bit there is, and elsewhere it follows a rule that knows one word taken
before and one number, `last`. In front of position `last` it repeats the bit of the word before, at
that position it takes a set bit, and behind it a clear one.

`last` is right when it is the deepest position at which the word before took a clear bit although
the set had a word with a set one (`LastSkip`). Then the descent finds the next word of the set in
the order in which the first bit weighs most (`Descends.successor`). With `last = 0` it finds the
first one (`Descends.least`), and a word behind which nothing was skipped is the last one
(`LastSkip.greatest`).
-/

set_option autoImplicit false
set_option relaxedAutoImplicit false

namespace Sketchbook.Foundation.BitDescent

variable {n : ℕ} {words : Set (Fin n → Bool)} {previous word : Fin n → Bool} {last : ℕ}

/-- The word took a clear bit at a position where the set has a word with a set one. -/
def Skipped (words : Set (Fin n → Bool)) (word : Fin n → Bool) (position : Fin n) : Prop :=
  word position = false ∧
    ∃ other ∈ words, (∀ i < position, other i = word i) ∧ other position = true

/-- The deepest skipped position, counted from 1; 0 if nothing was skipped. -/
structure LastSkip (words : Set (Fin n → Bool)) (word : Fin n → Bool) (last : ℕ) : Prop where
  bound : ∀ position, Skipped words word position → position.val < last
  skipped : 0 < last → ∃ position : Fin n, position.val + 1 = last ∧ Skipped words word position

/-- Some word of the set goes the other way at a position. -/
def Discrepancy (words : Set (Fin n → Bool)) (word : Fin n → Bool) (position : Fin n) : Prop :=
  ∃ other ∈ words, (∀ i < position, other i = word i) ∧ other position ≠ word position

/-- The bit that the descent takes where the set leaves the choice. -/
def chosen (previous : Fin n → Bool) (last : ℕ) (position : Fin n) : Bool :=
  if position.val + 1 < last then previous position else decide (position.val + 1 = last)

/-- A word found by going down: in the set, and chosen by the rule wherever there was a choice. -/
structure Descends (words : Set (Fin n → Bool)) (previous : Fin n → Bool) (last : ℕ)
    (word : Fin n → Bool) : Prop where
  mem : word ∈ words
  rule : ∀ position, Discrepancy words word position →
    word position = chosen previous last position

/-- The order of words in which the first bit weighs most. -/
theorem lt_iff (first second : Fin n → Bool) : toLex first < toLex second ↔
    ∃ i, (∀ j < i, first j = second j) ∧ first i = false ∧ second i = true := by
  constructor
  · rintro ⟨i, hagree, hlt⟩
    exact ⟨i, hagree, (Bool.lt_iff.mp hlt).1, (Bool.lt_iff.mp hlt).2⟩
  · rintro ⟨i, hagree, hfirst, hsecond⟩
    exact ⟨i, hagree, Bool.lt_iff.mpr ⟨hfirst, hsecond⟩⟩

/-- A word that comes later leaves the word at a position the word skipped. -/
theorem skipped_of_lt {other : Fin n → Bool} (hother : other ∈ words)
    (hlt : toLex word < toLex other) :
    ∃ position, Skipped words word position ∧ other position = true ∧
      ∀ i < position, word i = other i := by
  obtain ⟨position, hagree, hword, hset⟩ := (lt_iff _ _).mp hlt
  exact ⟨position, ⟨hword, other, hother, fun i hi ↦ (hagree i hi).symm, hset⟩, hset, hagree⟩

/-- Nothing comes behind a word that skipped nothing. -/
theorem LastSkip.greatest (hlast : LastSkip words word 0) :
    ∀ other ∈ words, toLex other ≤ toLex word := by
  intro other hother
  by_contra hlt
  obtain ⟨position, hskipped, -⟩ := skipped_of_lt hother (not_le.mp hlt)
  exact Nat.not_lt_zero _ (hlast.bound position hskipped)

/-- With nothing to repeat, the descent finds the first word. -/
theorem Descends.least (hdescends : Descends words previous 0 word) :
    ∀ other ∈ words, toLex word ≤ toLex other := by
  intro other hother
  by_contra hlt
  obtain ⟨position, hagree, hclear, hset⟩ := (lt_iff _ _).mp (not_le.mp hlt)
  have hchosen := hdescends.rule position ⟨other, hother, hagree, by simp [hclear, hset]⟩
  rw [hset, chosen, if_neg (Nat.not_lt_zero _)] at hchosen
  simp at hchosen

/-- In front of `last` the descent repeats the word before. -/
theorem Descends.repeats (hdescends : Descends words previous last word)
    (hprevious : previous ∈ words) {position : Fin n} (hposition : position.val + 1 < last) :
    word position = previous position := by
  induction position using WellFoundedLT.induction with
  | ind position ih =>
    have hagree : ∀ i < position, previous i = word i := fun i hi ↦
      (ih i hi (lt_trans (Nat.succ_lt_succ hi) hposition)).symm
    by_contra hne
    have hchosen := hdescends.rule position ⟨previous, hprevious, hagree, Ne.symm hne⟩
    rw [chosen, if_pos hposition] at hchosen
    exact hne hchosen

/-- At `last` the descent takes the bit that was skipped. -/
theorem Descends.turns (hdescends : Descends words previous last word)
    (hprevious : previous ∈ words) (hlast : LastSkip words previous last) {position : Fin n}
    (hposition : position.val + 1 = last) : word position = true := by
  have hpositive : 0 < last := hposition ▸ Nat.succ_pos _
  obtain ⟨skip, hskip, -, other, hother, hagree, hset⟩ := hlast.skipped hpositive
  obtain rfl : skip = position := Fin.ext (Nat.succ_injective (hskip.trans hposition.symm))
  by_contra hclear
  have hbelow : ∀ i < skip, other i = word i := fun i hi ↦ by
    rw [hagree i hi, hdescends.repeats hprevious (hposition ▸ Nat.succ_lt_succ hi)]
  have hchosen := hdescends.rule skip ⟨other, hother, hbelow, fun heq ↦ hclear (heq ▸ hset)⟩
  rw [chosen, hposition, if_neg (lt_irrefl _), decide_eq_true rfl] at hchosen
  exact hclear hchosen

/-- At `last` the descent had a choice. -/
theorem Descends.discrepancy (hdescends : Descends words previous last word)
    (hprevious : previous ∈ words) (hlast : LastSkip words previous last) {position : Fin n}
    (hposition : position.val + 1 = last) : Discrepancy words word position := by
  obtain ⟨skip, hskip, hclear, -⟩ := hlast.skipped (hposition ▸ Nat.succ_pos _)
  obtain rfl : skip = position := Fin.ext (Nat.succ_injective (hskip.trans hposition.symm))
  refine ⟨previous, hprevious, fun i hi ↦ ?_, ?_⟩
  · exact (hdescends.repeats hprevious (hposition ▸ Nat.succ_lt_succ hi)).symm
  · rw [hclear, hdescends.turns hprevious hlast hposition]
    exact Bool.false_ne_true

/-- The descent finds the next word of the set. -/
theorem Descends.successor (hdescends : Descends words previous last word)
    (hprevious : previous ∈ words) (hlast : LastSkip words previous last) (hpositive : 0 < last) :
    toLex previous < toLex word ∧
      ∀ other ∈ words, toLex previous < toLex other → toLex word ≤ toLex other := by
  obtain ⟨skip, hskip, hskipped⟩ := hlast.skipped hpositive
  constructor
  · refine (lt_iff _ _).mpr ⟨skip, fun i hi ↦ ?_, hskipped.1, hdescends.turns hprevious hlast hskip⟩
    exact (hdescends.repeats hprevious (hskip ▸ Nat.succ_lt_succ hi)).symm
  · intro other hother hlater
    by_contra hlt
    obtain ⟨fork, hagree, hclear, hset⟩ := (lt_iff _ _).mp (not_le.mp hlt)
    obtain ⟨turn, hturn, hturned, hbefore⟩ := skipped_of_lt hother hlater
    have hdeepest := hlast.bound turn hturn
    have hchosen := hdescends.rule fork ⟨other, hother, hagree, by simp [hclear, hset]⟩
    rw [hset, chosen] at hchosen
    have hnotbelow : turn < fork → ¬ turn.val + 1 < last := by
      intro hfork hrepeats
      have hword := hdescends.repeats hprevious hrepeats
      rw [← hagree turn hfork, hturned, hturn.1] at hword
      exact Bool.noConfusion hword
    rcases lt_trichotomy turn fork with hbelow | rfl | habove
    · have hfork : last ≤ fork.val + 1 := by
        have hle := Nat.le_of_not_lt (hnotbelow hbelow)
        have hval := Fin.lt_def.mp hbelow
        omega
      rw [if_neg (Nat.not_lt.mpr hfork)] at hchosen
      have heq : fork.val + 1 = last := by simpa using hchosen.symm
      exact hnotbelow hbelow (heq ▸ Nat.succ_lt_succ (Fin.lt_def.mp hbelow))
    · rw [hturned] at hclear
      exact Bool.noConfusion hclear
    · have hfork : fork.val + 1 < last :=
        Nat.lt_of_le_of_lt (Fin.lt_def.mp habove) hdeepest
      rw [if_pos hfork, hbefore fork habove, hclear] at hchosen
      exact Bool.noConfusion hchosen

end Sketchbook.Foundation.BitDescent
