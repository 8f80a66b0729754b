import Sketchbook.OneWire.DallasTemperature

/-!
# Searching for the devices of a family

`target_search` prepares the state of the master so that the next call of `search` follows the bits
of a family code and takes clear bits behind it. If a device of the family takes part, the calls
begin with the first of them. The family code is the beginning of the ROM code, so the devices of a
family stand next to each other in the order of the codes: the calls return all of them, each once,
before any other device.

At the last bit of a code the rule of this call is to take a set bit. That skips a device only if
two codes differ in their last bit alone, and codes with valid check sums never do.
-/

set_option autoImplicit false
set_option relaxedAutoImplicit false

namespace Sketchbook.OneWire.TargetSearch

open Foundation.BitDescent Foundation.SortedRound Foundation.TransitionSystem
open RomSearch SlaveBus DeviceSearch DeviceEnumeration CheckSum DallasTemperature

/-! ### Families and check sums -/

/-- Codes that agree in the bits of a byte have the same byte. -/
theorem byte_eq_of_bitAt_eq {first second : Rom} (index : Fin 8)
    (h : ∀ place < 8, first.bitAt (8 * index + place) = second.bitAt (8 * index + place)) :
    first.byte index = second.byte index := by
  refine BitVec.eq_of_getLsbD_eq fun place hplace ↦ ?_
  have hbit := h place hplace
  rw [Rom.bitAt, Rom.bitAt, Nat.mul_add_div (by decide), Nat.div_eq_of_lt hplace, Nat.add_zero,
    Nat.mul_add_mod, Nat.mod_eq_of_lt hplace, Fin.ofNat_val_eq_self] at hbit
  exact hbit

theorem bitAt_eq_of_byte_eq {first second : Rom} {position : ℕ} (hposition : position < 8)
    (h : first.byte 0 = second.byte 0) : first.bitAt position = second.bitAt position := by
  rw [Rom.bitAt, Rom.bitAt, Nat.div_eq_of_lt hposition]
  change (first.byte 0).getLsbD _ = (second.byte 0).getLsbD _
  rw [h]

/-- Valid codes that agree in the bits of their first seven bytes are equal. -/
theorem eq_of_valid {first second : Rom} (hfirst : validAddress first = true)
    (hsecond : validAddress second = true)
    (h : ∀ i < 56, first.bitAt i = second.bitAt i) : first = second := by
  have hbyte : ∀ index : Fin 7, first.byte index.castSucc = second.byte index.castSucc := by
    intro index
    refine byte_eq_of_bitAt_eq _ fun place hplace ↦ h _ ?_
    have hindex := index.isLt
    rw [Fin.val_castSucc]
    omega
  have hlast : first.byte 7 = second.byte 7 := by
    rw [validAddress, beq_iff_eq] at hfirst hsecond
    have hsum : (List.finRange 7).map (fun index ↦ first.byte index.castSucc) =
        (List.finRange 7).map fun index ↦ second.byte index.castSucc :=
      List.map_congr_left fun index _ ↦ hbyte index
    rw [← hfirst, ← hsecond, hsum]
  suffices hbytes : first.byte = second.byte by
    cases first
    cases second
    exact congrArg _ hbytes
  funext index
  induction index using Fin.lastCases with
  | last => exact hlast
  | cast index => exact hbyte index

/-- A code between two codes of a family belongs to the family. -/
theorem family_between {first middle last : Rom} (hlower : first < middle)
    (hupper : middle < last) {familyCode : BitVec 8} (hfirst : first.byte 0 = familyCode)
    (hlast : last.byte 0 = familyCode) :
    middle.byte 0 = familyCode := by
  obtain ⟨place, hagree, hclear, hset⟩ := (lt_iff _ _).mp (show toLex first.bits < toLex middle.bits
    from hlower)
  have hsame : first.byte 0 = last.byte 0 := hfirst.trans hlast.symm
  rcases Nat.lt_or_ge place 8 with hplace | hplace
  · obtain ⟨fork, hfork, hforkClear, hforkSet⟩ :=
      (lt_iff _ _).mp (show toLex middle.bits < toLex last.bits from hupper)
    have hends (i : Fin 64) (hi : i.val < 8) : first.bits i = last.bits i :=
      bitAt_eq_of_byte_eq hi hsame
    exfalso
    rcases lt_trichotomy fork place with hlt | rfl | hgt
    · have hearly : fork.val < 8 := Nat.lt_trans hlt hplace
      rw [← hends fork hearly, hagree fork hlt, hforkClear] at hforkSet
      exact Bool.noConfusion hforkSet
    · rw [hset] at hforkClear
      exact Bool.noConfusion hforkClear
    · have hmiddle := hfork place hgt
      rw [hset, ← hends place hplace, hclear] at hmiddle
      exact Bool.noConfusion hmiddle
  · rw [← hfirst]
    refine byte_eq_of_bitAt_eq 0 fun i hi ↦ ?_
    have hplain : 8 * (0 : Fin 8).val + i = i := Nat.zero_add i
    rw [hplain]
    have hrange : i < 64 := by omega
    exact (hagree ⟨i, hrange⟩ (Nat.lt_of_lt_of_le hi hplace)).symm

/-! ### The first call -/

variable {Memory Task : Type} {functions : Functions Memory Task} {searchMode : Bool}
  {slaves : List (Slave Memory Task)} {familyCode : BitVec 8}

/-- The bits that the first call follows. -/
theorem bits_targetSearch (position : Fin 64) : (targetSearch familyCode).romNo.bits position =
    if position.val < 8 then familyCode.getLsbD position else false := by
  rw [Rom.bits, Rom.bitAt, targetSearch]
  dsimp only
  by_cases hposition : position.val < 8
  · rw [if_pos hposition, Nat.div_eq_of_lt hposition, Nat.mod_eq_of_lt hposition]
    rfl
  · have hindex : Fin.ofNat 8 (position.val / 8) ≠ 0 := by
      intro h
      have hval := congrArg Fin.val h
      rw [Fin.val_ofNat, Fin.val_zero] at hval
      have hrange := position.isLt
      omega
    rw [if_neg hposition, if_neg hindex]
    exact BitVec.getLsbD_zero

/-- The descent of the first call leads to the first device of the family. -/
theorem descends_family {word : Rom}
    (hdescends :
      Descends (codes searchMode slaves) (targetSearch familyCode).romNo.bits 64 word.bits)
    (hvalid : ∀ rom ∈ inOrder searchMode (slaves.map badge), validAddress rom = true)
    (hmember : ∃ rom ∈ inOrder searchMode (slaves.map badge), rom.byte 0 = familyCode) :
    word.byte 0 = familyCode ∧
      ∀ other ∈ inOrder searchMode (slaves.map badge), other.byte 0 = familyCode →
        word ≤ other := by
  obtain ⟨member, hmember, hfamily⟩ := hmember
  have hbits (rom : Rom) (hrom : rom.byte 0 = familyCode) (i : Fin 64) (hi : i.val < 8) :
      rom.bits i = familyCode.getLsbD i := by
    rw [Rom.bits, Rom.bitAt, Nat.div_eq_of_lt hi, Nat.mod_eq_of_lt hi]
    exact congrArg (·.getLsbD i) hrom
  have hword : ∀ i : Fin 64, i.val < 8 → word.bits i = familyCode.getLsbD i := by
    intro i
    induction i using WellFoundedLT.induction with
    | ind i ih =>
      intro hi
      by_contra hne
      have hagree : ∀ j < i, member.bits j = word.bits j := fun j hj ↦ by
        have hearly : j.val < 8 := Nat.lt_trans hj hi
        rw [hbits member hfamily j hearly, ih j hj hearly]
      have hchosen := hdescends.rule i ⟨member.bits, mem_inOrder.mp hmember, hagree, by
        rw [hbits member hfamily i hi]
        exact Ne.symm hne⟩
      rw [chosen, if_pos (by omega), bits_targetSearch, if_pos hi] at hchosen
      exact hne hchosen
  have hbyte : word.byte 0 = familyCode := by
    refine BitVec.eq_of_getLsbD_eq fun place hplace ↦ ?_
    have hrange : place < 64 := by omega
    rw [← hword ⟨place, hrange⟩ hplace, Rom.bits, Rom.bitAt, Nat.div_eq_of_lt hplace,
      Nat.mod_eq_of_lt hplace]
    rfl
  refine ⟨hbyte, fun other hother hotherFamily ↦ ?_⟩
  by_contra hlt
  obtain ⟨fork, hagree, hclear, hset⟩ := (lt_iff _ _).mp
    (show toLex other.bits < toLex word.bits from not_le.mp hlt)
  have hchosen := hdescends.rule fork
    ⟨other.bits, mem_inOrder.mp hother, hagree, by simp [hclear, hset]⟩
  rcases Nat.lt_or_ge fork.val 63 with hfork | hfork
  · have hlate : ¬ fork.val < 8 := fun hearly ↦ by
      rw [hbits other hotherFamily fork hearly, ← hword fork hearly, hset] at hclear
      exact Bool.noConfusion hclear
    rw [hset, chosen, if_pos (Nat.succ_lt_succ hfork), bits_targetSearch, if_neg hlate] at hchosen
    exact Bool.noConfusion hchosen
  · have hwordMem : word ∈ inOrder searchMode (slaves.map badge) := mem_inOrder.mpr hdescends.mem
    have hsame := eq_of_valid (hvalid other hother) (hvalid word hwordMem) fun i hi ↦ by
      have hrange : i < 64 := by omega
      exact hagree ⟨i, hrange⟩ (show i < fork.val by omega)
    rw [hsame, hset] at hclear
    exact Bool.noConfusion hclear

/-- The first call behind `target_search` answers with the first device of the family. -/
theorem search_targetSearch (functions : Functions Memory Task)
    (hzero : ∀ rom ∈ inOrder searchMode (slaves.map badge), rom.byte 0 ≠ 0)
    (hvalid : ∀ rom ∈ inOrder searchMode (slaves.map badge), validAddress rom = true)
    (hmember : ∃ rom ∈ inOrder searchMode (slaves.map badge), rom.byte 0 = familyCode) :
    (round (inOrder searchMode (slaves.map badge)))[
        (inOrder searchMode (slaves.map badge)).findIdx (·.byte 0 = familyCode)]? =
        some (search (bus functions) searchMode (targetSearch familyCode) slaves).1 ∧
      Due (codes searchMode slaves) (inOrder searchMode (slaves.map badge))
        (((inOrder searchMode (slaves.map badge)).findIdx (·.byte 0 = familyCode) + 1) %
          (round (inOrder searchMode (slaves.map badge))).length)
        (search (bus functions) searchMode (targetSearch familyCode) slaves).2.1 := by
  obtain ⟨member, hin, -⟩ := id hmember
  have hflag : (targetSearch familyCode).lastDeviceFlag = false := rfl
  obtain ⟨rom, hreturned, hnext, hdescends⟩ :=
    search_found functions hflag hzero (List.ne_nil_of_mem hin)
  obtain ⟨hfamily, hleast⟩ := descends_family hdescends hvalid hmember
  have hat := getElem?_findIdx_of_least (sortedLT_inOrder searchMode _)
    (p := fun rom ↦ decide (rom.byte 0 = familyCode)) (mem_inOrder.mpr hdescends.mem)
    (decide_eq_true hfamily) fun other hother h ↦ hleast other hother (of_decide_eq_true h)
  obtain ⟨hindex, -⟩ := List.getElem?_eq_some_iff.mp hat
  have hlt : (inOrder searchMode (slaves.map badge)).findIdx (·.byte 0 = familyCode) + 1 <
      (round (inOrder searchMode (slaves.map badge))).length := by
    rw [length_round]
    exact Nat.succ_lt_succ hindex
  rw [Nat.mod_eq_of_lt hlt, hreturned]
  exact ⟨getElem?_round hat, hlt, rom, hat, hnext⟩

variable {badges : List Badge} {trace : List (Transition (Session Memory Task) Action)}
  {session : Session Memory Task}

/-- Behind `target_search` the calls return the devices of the family, all of them and each once,
then the devices behind them, and go on round the devices. -/
theorem searches_family (hzero : ∀ rom ∈ inOrder searchMode badges, rom.byte 0 ≠ 0)
    (hvalid : ∀ rom ∈ inOrder searchMode badges, validAddress rom = true)
    (hmember : ∃ rom ∈ inOrder searchMode badges, rom.byte 0 = familyCode)
    (hrun : Run (sessions functions searchMode badges (· = targetSearch familyCode)) trace
      session) :
    ∃ before after, inOrder searchMode badges =
        before ++ (inOrder searchMode badges).filter (·.byte 0 = familyCode) ++ after ∧
      Follows (round (inOrder searchMode badges)) before.length session.returned := by
  obtain ⟨before, after, hsplit, hlength⟩ := exists_eq_append_filter
    (sortedLT_inOrder searchMode badges)
    (p := fun rom ↦ decide (rom.byte 0 = familyCode))
    fun first _ middle _ last _ hlower hupper hfirst hlast ↦ decide_eq_true
      (family_between hlower hupper (of_decide_eq_true hfirst) (of_decide_eq_true hlast))
  refine ⟨before, after, hsplit, ?_⟩
  rw [hlength]
  suffices h : (session.returned = [] ∧ session.search = targetSearch familyCode) ∨
      DueAfter searchMode badges
        ((inOrder searchMode badges).findIdx (·.byte 0 = familyCode)) session by
    rcases h with ⟨hempty, -⟩ | hdue
    · exact hempty ▸ follows_nil _ _
    · exact hdue.1
  induction hrun with
  | start hinitial => exact Or.inl ⟨hinitial.1, hinitial.2.2⟩
  | @step trace before after action hrun hstep ih =>
    obtain rfl := Option.some.inj hstep
    have hbadges := badges_of_run hrun
    rcases ih with ⟨hempty, hstate⟩ | hdue
    · cases action with
      | search =>
        subst hbadges
        obtain ⟨hanswer, hdue⟩ := search_targetSearch functions hzero hvalid hmember
        rw [← hstate] at hanswer hdue
        exact Or.inr (dueAfter_first hempty rfl hanswer hdue)
      | reset => exact Or.inl ⟨hempty, hstate⟩
      | slot level => exact Or.inl ⟨hempty, hstate⟩
    · exact Or.inr (dueAfter_act action hzero hbadges hdue)

theorem searches_family_threeDevices :
    ∃ before after, inOrder true (threeDevices.map badge) =
        before ++ (inOrder true (threeDevices.map badge)).filter (·.byte 0 = 0x28) ++ after ∧
      Follows (round (inOrder true (threeDevices.map badge))) before.length
        ([Action.search, .reset, .search, .slot true, .search, .search].foldl (act silent true)
          (threeDevicesSession (targetSearch 0x28))).returned := by
  have hinitial : (sessions silent true (threeDevices.map badge) (· = targetSearch 0x28)).initial
      (threeDevicesSession (targetSearch 0x28)) := ⟨rfl, rfl, rfl⟩
  have hzero : ∀ rom ∈ present true (threeDevices.map badge), rom.byte 0 ≠ 0 := by decide
  have hvalid : ∀ rom ∈ present true (threeDevices.map badge), validAddress rom = true := by
    decide +kernel
  have hmember : ∃ rom ∈ present true (threeDevices.map badge), rom.byte 0 = 0x28 := by decide
  obtain ⟨rom, hrom, hfamily⟩ := hmember
  obtain ⟨trace, hrun⟩ := exists_run hinitial _
  exact searches_family (fun rom hrom ↦ hzero rom (mem_inOrder_iff.mp hrom))
    (fun rom hrom ↦ hvalid rom (mem_inOrder_iff.mp hrom))
    ⟨rom, mem_inOrder_iff.mpr hrom, hfamily⟩ hrun

end Sketchbook.OneWire.TargetSearch
