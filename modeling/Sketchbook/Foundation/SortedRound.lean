import Mathlib.Data.List.Sort
import Mathlib.Data.List.TakeWhile

/-!
# Going round a sorted list

`round` is one round of answers: the entries of a list in order and then `none`. A caller who only
knows the order finds the next answer from the last one: the least entry first, after an entry the
least one above it, and `none` after the greatest. `Follows` says that a log goes round and round
from an offset on.
-/

set_option autoImplicit false
set_option relaxedAutoImplicit false

namespace Sketchbook.Foundation.SortedRound

variable {α : Type*}

/-- The entries of a list and then `none`. -/
def round (entries : List α) : List (Option α) := entries.map some ++ [none]

@[simp] theorem length_round (entries : List α) : (round entries).length = entries.length + 1 := by
  simp [round]

theorem getElem?_round {entries : List α} {index : ℕ} {entry : α}
    (h : entries[index]? = some entry) : (round entries)[index]? = some (some entry) := by
  obtain ⟨hindex, -⟩ := List.getElem?_eq_some_iff.mp h
  rw [round, List.getElem?_append_left (by simpa using hindex), List.getElem?_map, h]
  rfl

theorem getElem?_round_length (entries : List α) :
    (round entries)[entries.length]? = some none := by
  simp [round]

/-! ### Finding the next answer -/

section Order

variable [LinearOrder α] {entries : List α} {entry : α}

theorem getElem?_zero_of_least (hsorted : entries.SortedLT) (hentry : entry ∈ entries)
    (hleast : ∀ other ∈ entries, entry ≤ other) : entries[0]? = some entry := by
  obtain ⟨index, hindex, rfl⟩ := List.getElem_of_mem hentry
  have hpositive : 0 < entries.length := Nat.zero_lt_of_lt hindex
  have hle := hsorted.getElem_le_getElem_iff.mp (hleast entries[0] (List.getElem_mem hpositive))
  obtain rfl : index = 0 := Nat.le_zero.mp hle
  exact List.getElem?_eq_getElem hpositive

theorem getElem?_succ_of_next (hsorted : entries.SortedLT) {previous : α} {index : ℕ}
    (hprevious : entries[index]? = some previous) (hentry : entry ∈ entries)
    (hlt : previous < entry) (hnext : ∀ other ∈ entries, previous < other → entry ≤ other) :
    entries[index + 1]? = some entry := by
  obtain ⟨hindex, rfl⟩ := List.getElem?_eq_some_iff.mp hprevious
  obtain ⟨place, hplace, rfl⟩ := List.getElem_of_mem hentry
  have hbehind := hsorted.getElem_lt_getElem_iff.mp hlt
  have hsucc : index + 1 < entries.length := Nat.lt_of_le_of_lt hbehind hplace
  have hle := hsorted.getElem_le_getElem_iff.mp
    (hnext entries[index + 1] (List.getElem_mem hsucc)
      (hsorted.getElem_lt_getElem_iff.mpr (Nat.lt_succ_self index)))
  obtain rfl : place = index + 1 := Nat.le_antisymm hle hbehind
  exact List.getElem?_eq_getElem hsucc

theorem length_of_greatest (hsorted : entries.SortedLT) {index : ℕ}
    (hentry : entries[index]? = some entry) (hgreatest : ∀ other ∈ entries, other ≤ entry) :
    entries.length = index + 1 := by
  obtain ⟨hindex, rfl⟩ := List.getElem?_eq_some_iff.mp hentry
  by_contra hne
  have hsucc : index + 1 < entries.length := Nat.lt_of_le_of_ne hindex (Ne.symm hne)
  have hle := hsorted.getElem_le_getElem_iff.mp (hgreatest _ (List.getElem_mem hsucc))
  exact Nat.not_succ_le_self index hle

/-- The least entry with a property is the first one that has it. -/
theorem getElem?_findIdx_of_least (hsorted : entries.SortedLT) {p : α → Bool}
    (hentry : entry ∈ entries) (hp : p entry = true)
    (hleast : ∀ other ∈ entries, p other = true → entry ≤ other) :
    entries[entries.findIdx p]? = some entry := by
  have hlt := List.findIdx_lt_length_of_exists ⟨entry, hentry, hp⟩
  have hfirst : p entries[entries.findIdx p] = true := List.findIdx_getElem
  obtain ⟨index, hindex, rfl⟩ := List.getElem_of_mem hentry
  have hle := hsorted.getElem_le_getElem_iff.mp (hleast _ (List.getElem_mem hlt) hfirst)
  have hge : entries.findIdx p ≤ index :=
    Nat.le_of_not_lt fun h ↦ absurd hp (Bool.eq_false_iff.mp (List.not_of_lt_findIdx h))
  obtain rfl : index = entries.findIdx p := Nat.le_antisymm hle hge
  exact List.getElem?_eq_getElem hlt

/-- The entries with a property that holds between any two of them stand next to each other. -/
theorem exists_eq_append_filter (hsorted : entries.SortedLT) {p : α → Bool}
    (hbetween : ∀ first ∈ entries, ∀ middle ∈ entries, ∀ last ∈ entries, first < middle →
      middle < last → p first = true → p last = true → p middle = true) :
    ∃ before after, entries = before ++ entries.filter p ++ after ∧
      before.length = entries.findIdx p := by
  rw [List.sortedLT_iff_pairwise] at hsorted
  induction entries with
  | nil => exact ⟨[], [], rfl, rfl⟩
  | cons head rest ih =>
    rw [List.pairwise_cons] at hsorted
    by_cases hhead : p head = true
    · have hnone : ∀ entry ∈ rest.dropWhile p, p entry = false := by
        have hrest : rest.takeWhile p ++ rest.dropWhile p = rest := List.takeWhile_append_dropWhile
        cases hdrop : rest.dropWhile p with
        | nil => exact fun entry h ↦ absurd h List.not_mem_nil
        | cons stop later =>
          have hstop : p stop = false := by
            have h := List.head_dropWhile_not p (l := rest) (by simp [hdrop])
            simpa [hdrop] using h
          have hmem : ∀ entry ∈ stop :: later, entry ∈ rest := fun entry hentry ↦ by
            rw [← hrest, hdrop]
            exact List.mem_append_right _ hentry
          intro entry hentry
          rcases List.mem_cons.mp hentry with rfl | hlater
          · exact hstop
          · by_contra hp
            have hlt : stop < entry := by
              have hpairs := hsorted.2
              rw [← hrest, hdrop, List.pairwise_append, List.pairwise_cons] at hpairs
              exact hpairs.2.1.1 entry hlater
            have hall := hbetween head List.mem_cons_self stop
              (List.mem_cons_of_mem _ (hmem stop List.mem_cons_self)) entry
              (List.mem_cons_of_mem _ (hmem entry hentry))
              (hsorted.1 stop (hmem stop List.mem_cons_self)) hlt hhead
              (Bool.eq_true_of_not_eq_false hp)
            rw [hstop] at hall
            exact Bool.noConfusion hall
      refine ⟨[], rest.dropWhile p, ?_, ?_⟩
      · have hfilter : rest.filter p = rest.takeWhile p := by
          conv_lhs => rw [← List.takeWhile_append_dropWhile (p := p) (l := rest)]
          rw [List.filter_append, List.filter_eq_self.mpr fun entry h ↦ List.mem_takeWhile_imp h,
            List.filter_eq_nil_iff.mpr fun entry h ↦ by simp [hnone entry h], List.append_nil]
        rw [List.filter_cons_of_pos hhead, hfilter, List.nil_append, List.cons_append,
          List.takeWhile_append_dropWhile]
      · rw [List.findIdx_cons, hhead]
        rfl
    · obtain ⟨before, after, heq, hlength⟩ := ih hsorted.2
        fun first hfirst middle hmiddle last hlast ↦
          hbetween first (List.mem_cons_of_mem _ hfirst) middle (List.mem_cons_of_mem _ hmiddle)
            last (List.mem_cons_of_mem _ hlast)
      refine ⟨head :: before, after, ?_, ?_⟩
      · rw [List.filter_cons_of_neg hhead, List.cons_append, List.cons_append, ← heq]
      · rw [List.length_cons, hlength, List.findIdx_cons, Bool.eq_false_of_not_eq_true hhead]
        rfl

end Order

/-! ### Logs -/

/-- A log, newest first, that goes round and round the answers from an offset on. -/
def Follows (answers : List α) (offset : ℕ) (log : List α) : Prop :=
  ∀ turn < log.length, log.reverse[turn]? = answers[(offset + turn) % answers.length]?

theorem follows_nil (answers : List α) (offset : ℕ) : Follows answers offset [] :=
  fun _ h ↦ absurd h (Nat.not_lt_zero _)

/-- A log goes on when its next entry is the next answer. -/
theorem Follows.cons {answers : List α} {offset : ℕ} {log : List α} {answer : α}
    (h : Follows answers offset log)
    (hanswer : answers[(offset + log.length) % answers.length]? = some answer) :
    Follows answers offset (answer :: log) := by
  intro turn hturn
  rw [List.length_cons] at hturn
  rw [List.reverse_cons]
  rcases Nat.lt_succ_iff_lt_or_eq.mp hturn with hlt | rfl
  · rw [List.getElem?_append_left (by simpa using hlt)]
    exact h turn hlt
  · rw [hanswer, List.getElem?_append_right (by simp)]
    simp

end Sketchbook.Foundation.SortedRound
