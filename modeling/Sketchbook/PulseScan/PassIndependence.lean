import Sketchbook.PulseScan.LoopPass

/-!
# What a pass of sketch_feb03a takes over from earlier passes

Of the five globals that survive a pass only `bitreceived` can influence the next one:
`captured_state` is cleared, and the others are written before they are read. The character left in
`bitreceived` is read when a pulse is classified as a sync, which writes it again.

`carry_cases` follows two scans of the same timings that start with different characters. They agree
behind the first window that holds any pulse but a sync, and windows of syncs only are rejected by
both. So the character matters in the first window alone, and there only when the pulse behind its
sync is a second sync: `independent_iff` says exactly for which timings two histories can make a
difference.
-/

set_option autoImplicit false
set_option relaxedAutoImplicit false

namespace Sketchbook.PulseScan.PassIndependence

open Arduino.Text Sensor.BinaryReading Sensor.PulseClassifier FrameScan ScanAcceptance LoopPass

/-! ### The character in front of a window -/

/-- One pulse that is no sync makes the character left behind independent of the one in front. -/
theorem foldl_classify_eq {pulses : List ℤ} (h : ∃ t ∈ pulses, ¬ lengths.within syncLength t)
    (first second : Char) :
    pulses.foldl lengths.classify first = pulses.foldl lengths.classify second := by
  induction pulses generalizing first second with
  | nil => simp at h
  | cons t rest ih =>
    rw [List.foldl_cons, List.foldl_cons]
    by_cases ht : lengths.within syncLength t
    · rw [List.exists_mem_cons_iff] at h
      exact ih (h.resolve_left (not_not_intro ht)) _ _
    · rw [classify_eq_of_not_sync ht first second]

theorem capture_eq_of_not_sync {t : ℤ} (h : ¬ lengths.within syncLength t) (rest : List ℤ)
    (first second : Char) :
    lengths.capture first (t :: rest) = lengths.capture second (t :: rest) := by
  rw [PulseLengths.capture, PulseLengths.capture, classify_eq_of_not_sync h first second]

variable {timings : Fin bufferSize → ℤ} {i : ℕ}

/-- The first two pulses of a window. -/
theorem window_cons_cons (timings : Fin bufferSize → ℤ) (i : ℕ) (h : i + 33 < bufferSize) :
    ∃ rest, window timings i h =
      timings ⟨i + 1, by omega⟩ :: timings ⟨i + 2, by omega⟩ :: rest := by
  refine ⟨List.ofFn fun k : Fin 31 ↦ timings ⟨i + (k + 3), by omega⟩, ?_⟩
  rw [window, List.ofFn_succ, List.ofFn_succ]
  rfl

/-- A window that opens with a sync passes only with a zero in front of it. -/
theorem eq_zero_of_passes {bitreceived : Char} (hfits : i + 33 < bufferSize)
    (hsync : lengths.within syncLength (timings ⟨i + 1, by omega⟩))
    (h : Passes timings bitreceived i) :
    bitreceived = '0' := by
  obtain ⟨_, _, haccepts⟩ := h
  obtain ⟨rest, hwindow⟩ := window_cons_cons timings i hfits
  have hhead := head?_of_id haccepts.id
  rw [hwindow, PulseLengths.capture, classify_of_sync hsync] at hhead
  exact Option.some.inj hhead

/-- A window that opens with two syncs repeats a character, which the sensor id does not. -/
theorem not_passes_of_two_syncs (bitreceived : Char) (hfits : i + 33 < bufferSize)
    (hfirst : lengths.within syncLength (timings ⟨i + 1, by omega⟩))
    (hsecond : lengths.within syncLength (timings ⟨i + 2, by omega⟩)) :
    ¬ Passes timings bitreceived i := by
  rintro ⟨_, _, haccepts⟩
  obtain ⟨rest, hwindow⟩ := window_cons_cons timings i hfits
  have hid := haccepts.id
  rw [hwindow, PulseLengths.capture, PulseLengths.capture, classify_of_sync hfirst,
    classify_of_sync hsecond] at hid
  have hzero : some bitreceived = some '0' := congrArg (fun text : List Char ↦ text[0]?) hid
  have hone : some bitreceived = some '1' := congrArg (fun text : List Char ↦ text[1]?) hid
  exact absurd (hzero.symm.trans hone) (by decide)

/-! ### Two scans of the same timings -/

/-- What is known of two scans when they come to an index. -/
inductive Carry (timings : Fin bufferSize → ℤ) (first second : Char) (i : ℕ) : Prop
  | same (h : carried timings first i = carried timings second i)
  | unopened (h : ∀ j < i, ¬ OpensWindow timings j)
  | syncs (h : ∀ k (hk : k < bufferSize), i ≤ k → k < i + 33 →
      lengths.within syncLength (timings ⟨k, hk⟩))

/-- A window of syncs only keeps the two characters apart, and any other brings them together. -/
theorem carry_of_opensWindow {first second : Char} (h : OpensWindow timings i) :
    Carry timings first second (i + 1) := by
  by_cases hother : ∃ t ∈ window timings i h.1, ¬ lengths.within syncLength t
  · refine Carry.same ?_
    rw [carried, carried, dif_pos h, dif_pos h]
    exact foldl_classify_eq hother _ _
  · push Not at hother
    refine Carry.syncs fun k hk hle hlt ↦ hother _ ?_
    rw [window, List.mem_ofFn]
    exact ⟨⟨k - (i + 1), by omega⟩, congrArg timings (Fin.ext (by simp; omega))⟩

theorem carry_cases (timings : Fin bufferSize → ℤ) (first second : Char) (i : ℕ) :
    Carry timings first second i := by
  induction i with
  | zero => exact Carry.unopened fun j hj ↦ absurd hj (Nat.not_lt_zero j)
  | succ i ih =>
    by_cases hopens : OpensWindow timings i
    · exact carry_of_opensWindow hopens
    · cases ih with
      | same hsame =>
        refine Carry.same ?_
        rw [carried, carried, dif_neg hopens, dif_neg hopens]
        exact hsame
      | unopened hnone =>
        refine Carry.unopened fun j hj ↦ ?_
        rcases Nat.lt_succ_iff_lt_or_eq.mp hj with hlt | rfl
        · exact hnone j hlt
        · exact hopens
      | syncs hsyncs =>
        refine Carry.syncs fun k hk hle _ ↦ hsyncs k hk (by omega) ?_
        by_contra hfar
        exact hopens ⟨by omega, hsyncs i (by omega) le_rfl (by omega)⟩

theorem carried_of_unopened {bitreceived : Char} (h : ∀ j < i, ¬ OpensWindow timings j) :
    carried timings bitreceived i = bitreceived := by
  induction i with
  | zero => rfl
  | succ i ih =>
    rw [carried, dif_neg (h i (Nat.lt_succ_self i))]
    exact ih fun j hj ↦ h j (Nat.lt_succ_of_lt hj)

/-! ### When the character in front matters -/

/-- The first window of the scan lies behind this index, and the pulse behind its sync is a sync. -/
structure DoubledSync (timings : Fin bufferSize → ℤ) (i : ℕ) : Prop where
  fits : i + 33 < bufferSize
  sync : lengths.within syncLength (timings ⟨i, Nat.lt_of_le_of_lt (Nat.le_add_right i 33) fits⟩)
  second : lengths.within syncLength (timings ⟨i + 1, by omega⟩)
  first : ∀ j < i, ¬ OpensWindow timings j

/-- Unless the window behind a doubled sync passes, two scans of the same timings find the same
windows to pass, with the same temperatures. -/
theorem passes_carried {first : Char} (second : Char)
    (hfirst : ∀ i, DoubledSync timings i → ¬ Passes timings first i)
    (h : Passes timings (carried timings first i) i) :
    Passes timings (carried timings second i) i ∧
      reading timings (carried timings first i) i =
        reading timings (carried timings second i) i := by
  obtain ⟨hfits, hsync, haccepts⟩ := h
  cases carry_cases timings first second i with
  | same hsame =>
    rw [← hsame]
    exact ⟨⟨hfits, hsync, haccepts⟩, rfl⟩
  | syncs hsyncs =>
    have htwo := not_passes_of_two_syncs (carried timings first i) hfits
      (hsyncs (i + 1) (by omega) (by omega) (by omega))
      (hsyncs (i + 2) (by omega) (by omega) (by omega))
    exact absurd ⟨hfits, hsync, haccepts⟩ htwo
  | unopened hnone =>
    rw [carried_of_unopened hnone] at haccepts ⊢
    rw [carried_of_unopened hnone]
    by_cases hdoubled : lengths.within syncLength (timings ⟨i + 1, by omega⟩)
    · exact absurd ⟨hfits, hsync, haccepts⟩ (hfirst i ⟨hfits, hsync, hdoubled, hnone⟩)
    · obtain ⟨rest, hwindow⟩ := window_cons_cons timings i hfits
      have hsame : lengths.capture first (window timings i hfits) =
          lengths.capture second (window timings i hfits) := by
        rw [hwindow]
        exact capture_eq_of_not_sync hdoubled _ _ _
      rw [hsame] at haccepts
      refine ⟨⟨hfits, hsync, haccepts⟩, ?_⟩
      rw [reading, reading, dif_pos hfits, dif_pos hfits, hsame]

theorem firstPass_of_firstPass {first second : Char}
    (hfirst : ∀ i, DoubledSync timings i → ¬ Passes timings first i)
    (hsecond : ∀ i, DoubledSync timings i → ¬ Passes timings second i)
    (h : FirstPass timings first i) :
    FirstPass timings second i ∧
      reading timings (carried timings first i) i =
        reading timings (carried timings second i) i := by
  obtain ⟨hpasses, hreading⟩ := passes_carried second hfirst h.passes
  refine ⟨⟨hpasses, fun j hj hother ↦ ?_⟩, hreading⟩
  exact h.first j hj (passes_carried first hsecond hother).1

theorem tempOut_eq_of_not_doubled {first second : Globals} (firstBus secondBus : OneWireBus)
    (hfirstFree : first.capturedState = false) (hsecondFree : second.capturedState = false)
    (hfirst : ∀ i, DoubledSync timings i → ¬ Passes timings first.bitreceived i)
    (hsecond : ∀ i, DoubledSync timings i → ¬ Passes timings second.bitreceived i) :
    (pass timings firstBus first).tempOut = (pass timings secondBus second).tempOut := by
  refine Option.ext fun temperature ↦ ?_
  rw [pass_tempOut_eq_some_iff hfirstFree, pass_tempOut_eq_some_iff hsecondFree]
  constructor
  · rintro ⟨i, hpass, rfl⟩
    obtain ⟨hother, hreading⟩ := firstPass_of_firstPass hfirst hsecond hpass
    exact ⟨i, hother, hreading.symm⟩
  · rintro ⟨i, hpass, rfl⟩
    obtain ⟨hother, hreading⟩ := firstPass_of_firstPass hsecond hfirst hpass
    exact ⟨i, hother, hreading.symm⟩

/-- A doubled sync opens the first window, which passes with a zero in front. -/
theorem DoubledSync.firstPass (h : DoubledSync timings i) (hpasses : Passes timings '0' i) :
    FirstPass timings '0' i where
  passes := by rwa [carried_of_unopened h.first]
  first j hj hother := h.first j hj hother.opensWindow

/-! ### Independence of the history -/

/-- A pass with these timings accepts a frame or not, and uploads an outside temperature or not,
whatever the passes before it were. -/
def Independent (timings : Fin bufferSize → ℤ) : Prop :=
  ∀ (first second : List ((Fin bufferSize → ℤ) × OneWireBus)) (firstBus secondBus : OneWireBus),
    (scan timings (afterPasses first)).capturedState =
        (scan timings (afterPasses second)).capturedState ∧
      (pass timings firstBus (afterPasses first)).tempOut =
        (pass timings secondBus (afterPasses second)).tempOut

/-- With a zero in place of its first sync the window behind a doubled sync passes, and no later
window passes first with the same temperature. -/
structure StaleFrame (timings : Fin bufferSize → ℤ) (i : ℕ) : Prop where
  doubled : DoubledSync timings i
  passes : Passes timings '0' i
  unmatched : ¬ ∃ j, i < j ∧ FirstPass timings nul j ∧
    reading timings (carried timings nul j) j = reading timings '0' i

/-- Without a stale frame every scan uploads what a scan at power on uploads. -/
theorem tempOut_eq_powerOn (hstale : ∀ i, ¬ StaleFrame timings i) {globals : Globals}
    (hfree : globals.capturedState = false) (firstBus secondBus : OneWireBus) :
    (pass timings firstBus globals).tempOut = (pass timings secondBus powerOn).tempOut := by
  have hnul (i : ℕ) (hdoubled : DoubledSync timings i) : ¬ Passes timings powerOn.bitreceived i :=
    fun hpasses ↦ absurd (eq_zero_of_passes hdoubled.fits hdoubled.second hpasses) (by decide)
  by_cases hzero : ∃ i, DoubledSync timings i ∧ Passes timings globals.bitreceived i
  · obtain ⟨i, hdoubled, hpasses⟩ := hzero
    have hbit := eq_zero_of_passes hdoubled.fits hdoubled.second hpasses
    rw [hbit] at hpasses
    have hmatched : ∃ j, i < j ∧ FirstPass timings nul j ∧
        reading timings (carried timings nul j) j = reading timings '0' i := by
      by_contra hunmatched
      exact hstale i ⟨hdoubled, hpasses, hunmatched⟩
    obtain ⟨j, -, hfirst, hreading⟩ := hmatched
    have hhere : (pass timings firstBus globals).tempOut = some (reading timings '0' i) := by
      rw [pass_tempOut_eq_some_iff hfree, hbit]
      exact ⟨i, hdoubled.firstPass hpasses, by rw [carried_of_unopened hdoubled.first]⟩
    have hthere : (pass timings secondBus powerOn).tempOut = some (reading timings '0' i) := by
      have hfreeThere : powerOn.capturedState = false := rfl
      rw [pass_tempOut_eq_some_iff hfreeThere]
      exact ⟨j, hfirst, hreading⟩
    rw [hhere, hthere]
  · push Not at hzero
    exact tempOut_eq_of_not_doubled _ _ hfree rfl hzero hnul

/-- A sync and 154 pulses of zeros: the scan rejects them and leaves a zero in `bitreceived`. -/
def zeroTimings (i : Fin bufferSize) : ℤ :=
  if (i : ℕ) = 0 then syncLength else bit0Length

/-- A bus without a device. -/
def emptyBus : OneWireBus := ⟨false, 0, fun _ ↦ 0⟩

theorem afterPasses_zeroTimings : (afterPasses [(zeroTimings, emptyBus)]).bitreceived = '0' := by
  decide +kernel

/-- The history makes no difference to a pass exactly when its timings hold no stale frame. -/
theorem independent_iff (timings : Fin bufferSize → ℤ) :
    Independent timings ↔ ∀ i, ¬ StaleFrame timings i := by
  constructor
  · intro hindependent i hstale
    obtain ⟨hdoubled, hpasses, hunmatched⟩ := hstale
    have hzero : (pass timings emptyBus (afterPasses [(zeroTimings, emptyBus)])).tempOut =
        some (reading timings '0' i) := by
      rw [pass_tempOut_eq_some_iff (afterPasses_capturedState _), afterPasses_zeroTimings]
      exact ⟨i, hdoubled.firstPass hpasses, by rw [carried_of_unopened hdoubled.first]⟩
    have hpowerOn := (hindependent [] [(zeroTimings, emptyBus)] emptyBus emptyBus).2
    rw [hzero, pass_tempOut_eq_some_iff (afterPasses_capturedState _)] at hpowerOn
    obtain ⟨j, hfirst, hreading⟩ := hpowerOn
    refine hunmatched ⟨j, ?_, hfirst, hreading⟩
    rcases Nat.lt_trichotomy i j with hlt | rfl | hgt
    · exact hlt
    · have hnul : nul = '0' := by
        refine eq_zero_of_passes hdoubled.fits hdoubled.second ?_
        have hcarried := hfirst.passes
        rwa [carried_of_unopened hdoubled.first] at hcarried
      exact absurd hnul (by decide)
    · exact absurd hfirst.passes.opensWindow (hdoubled.first j hgt)
  · intro hstale first second firstBus secondBus
    have hsame : (pass timings firstBus (afterPasses first)).tempOut =
        (pass timings secondBus (afterPasses second)).tempOut := by
      rw [tempOut_eq_powerOn hstale (afterPasses_capturedState first) firstBus emptyBus,
        tempOut_eq_powerOn hstale (afterPasses_capturedState second) secondBus emptyBus]
    refine ⟨?_, hsame⟩
    rw [← isSome_tempOut _ firstBus, hsame, isSome_tempOut]

/-- No sync of whole copies of a frame is doubled. -/
theorem independent_iff_wholeTimings : Independent wholeTimings := by
  have hsingle : ∀ k : Fin 154, lengths.within syncLength (wholeTimings k.castSucc) →
      ¬ lengths.within syncLength (wholeTimings k.succ) := by
    decide +kernel
  refine (independent_iff wholeTimings).mpr fun i hstale ↦ ?_
  have hfits := hstale.doubled.fits
  exact hsingle ⟨i, by unfold bufferSize at hfits; omega⟩ hstale.doubled.sync hstale.doubled.second

/-- Two syncs and the bits 1 to 31 of the frame of 10 degrees. -/
def doubledTimings : Fin bufferSize → ℤ :=
  bufferOf [[syncLength], nominalFrame (tenDegrees.bits.drop 1), [bit0Length]]

/-- The frame is rejected at power on and accepted behind a pass that left a zero. -/
theorem not_forall_independent : ¬ ∀ timings, Independent timings := by
  intro hindependent
  obtain ⟨hsame, -⟩ := hindependent doubledTimings [] [(zeroTimings, emptyBus)] emptyBus emptyBus
  have hrejected : (scan doubledTimings (afterPasses [])).capturedState = false := by
    decide +kernel
  have haccepted :
      (scan doubledTimings (afterPasses [(zeroTimings, emptyBus)])).capturedState = true := by
    decide +kernel
  rw [hrejected, haccepted] at hsame
  exact Bool.noConfusion hsame

end Sketchbook.PulseScan.PassIndependence
