import Mathlib.Algebra.Order.Field.Basic
import Mathlib.Tactic.IntervalCases
import Mathlib.Tactic.Linarith
import Sketchbook.Receiver.SignedDecoder

/-!
# The Celsius and the Fahrenheit number of sketch_jan24c

`loop` of sketch_jan24c prints a sign, the magnitude of the temperature in degrees Celsius, and a
number in degrees Fahrenheit that it computes from the same magnitude. `report_numbers` says which
numbers these are. Both should describe the temperature `tenths` of the twelve pairs 12 to 23, and
nothing should be printed when one of the pairs is no bit (`DescribesWindow`).

The Celsius number is right to half a degree for every temperature. The Fahrenheit number drops the
sign, and `describesWindow_iff` says that it is right exactly for the temperatures from zero on.
-/

set_option autoImplicit false
set_option relaxedAutoImplicit false

namespace Sketchbook.Receiver.FahrenheitReport

open Foundation.BitWord Foundation.RingIndex
open RingReceiver WindowDecoding TemperatureReport SignedDecoder SketchJan24c

/-- `RING_BUFFER_SIZE` of sketch_jan24c. -/
def ringBufferSize : ℕ := 256

instance : NeZero ringBufferSize := ⟨by decide⟩

variable {size : ℕ} [NeZero size]

/-- None of the pairs 12 to 23 behind the first sync index fails. -/
def AllValid (s : ReceiverState size) : Prop :=
  ∀ k < 12, ValidBit (separatorAt s (12 + k)) (pulseAt s (12 + k))

/-- The bits of the pairs 12 to 23. -/
def twelveBits (s : ReceiverState size) : List Bool :=
  (List.range 12).map fun k ↦ readsOne (separatorAt s (12 + k)) (pulseAt s (12 + k))

/-- The temperature of the twelve bits, in tenths of a degree. -/
def tenths (s : ReceiverState size) : ℤ := signedValue (twelveBits s)

/-- A number behind the sign that is printed first. -/
def signed (items : List SerialItem) (number : ℚ) : ℚ :=
  match items with
  | .text "-" :: _ => -number
  | _ => number

/-- `loop` prints the temperature of the window in Celsius to half a degree and in Fahrenheit to one
degree if the twelve pairs are bits, and no number otherwise. -/
def DescribesWindow (s : ReceiverState size) : Prop :=
  ∃ items, SketchJan24c.loop s = some (clearReceived s, items) ∧
    (AllValid s → ∃ celsius fahrenheit, temperatures items = [celsius, fahrenheit] ∧
      |signed items celsius - (tenths s : ℚ) / 10| ≤ 1 / 2 ∧
      |fahrenheit - ((tenths s : ℚ) * 9 / 50 + 32)| ≤ 1) ∧
    (¬ AllValid s → temperatures items = [])

/-! ### A pair that fails -/

/-- A turn fails exactly on a pair that is no bit. -/
theorem decodeBody_fail (timings : Fin size → Micros) (first i : Fin size) (d : SignedDecode) :
    (SketchJan24c.decodeBody timings first i d).fail = true ↔
      d.fail = true ∨ ¬ ValidBit (timings i) (timings (advance i 1)) := by
  unfold SketchJan24c.decodeBody ValidBit
  by_cases hsep : within sepLength 100 (timings i)
  · by_cases hone : within bit1Length 1000 (timings (advance i 1))
    · simp [hsep, hone]
    · by_cases hzero : within bit0Length 1000 (timings (advance i 1)) <;> simp [hsep, hone, hzero]
  · simp [hsep]

/-- The loop fails exactly when one of the pairs it visits is no bit. -/
theorem foldl_decodeBody_fail (timings : Fin size → Micros) (first : Fin size)
    (positions : List (Fin size)) (d : SignedDecode) :
    (positions.foldl (fun d i ↦ SketchJan24c.decodeBody timings first i d) d).fail = true ↔
      d.fail = true ∨
        ∃ i ∈ positions, ¬ ValidBit (timings i) (timings (advance i 1)) := by
  induction positions generalizing d with
  | nil => simp
  | cons i positions ih =>
    rw [List.foldl_cons, ih, decodeBody_fail, List.exists_mem_cons_iff, or_assoc]

/-- The decode loop ends for all ring contents, and fails exactly when one of the twelve pairs is no
bit. -/
theorem exists_decodeLoop_fail (hsize : 66 < size) (s : ReceiverState size) :
    ∃ d, SketchJan24c.decodeLoop s = some d ∧ (d.fail = true ↔ ¬ AllValid s) := by
  have hstop : advance s.syncIndex1 48 = advance (advance s.syncIndex1 24) (2 * 12) := by
    rw [advance_advance]
  have hwalk := walk_eq_foldl 2 (by decide)
    (SketchJan24c.decodeBody s.timings (advance s.syncIndex1 24)) 12 (by omega) size (by omega)
    (advance s.syncIndex1 24) ⟨0, false, false⟩
  refine ⟨_, by rw [SketchJan24c.decodeLoop, hstop]; exact hwalk, ?_⟩
  rw [foldl_decodeBody_fail]
  simp only [Bool.false_eq_true, false_or, AllValid, not_forall, mem_stations_iff]
  have hpair (k : ℕ) : advance (advance s.syncIndex1 24) (2 * k) =
      advance s.syncIndex1 (2 * (12 + k)) := by
    rw [advance_advance]
    congr 1
    ring
  constructor
  · rintro ⟨i, ⟨k, hk, rfl⟩, hinvalid⟩
    refine ⟨k, hk, ?_⟩
    rwa [hpair, advance_advance] at hinvalid
  · rintro ⟨k, hk, hinvalid⟩
    refine ⟨_, ⟨k, hk, rfl⟩, ?_⟩
    rwa [hpair, advance_advance]

/-! ### Twelve valid pairs -/

/-- The pulse of a valid pair is in the window of the bit that is read. -/
theorem within_of_validBit {t0 t1 : Micros} (h : ValidBit t0 t1) :
    within (if readsOne t0 t1 then bit1Length else bit0Length) 1000 t1 := by
  obtain ⟨hsep, hbit⟩ := h
  by_cases hone : within bit1Length 1000 t1
  · simp [readsOne, hsep, hone]
  · simpa [readsOne, hone] using hbit.resolve_left hone

/-- Valid pairs spell the word of their bits. -/
theorem spells_of_validBit (count : ℕ) (times : List Micros) (hlength : times.length = 2 * count)
    (hvalid : ∀ k < count, ValidBit (times.getD (2 * k) 0) (times.getD (2 * k + 1) 0)) :
    Spells ((List.range count).map fun k ↦
      readsOne (times.getD (2 * k) 0) (times.getD (2 * k + 1) 0)) times := by
  induction count generalizing times with
  | zero =>
    obtain rfl := List.eq_nil_of_length_eq_zero (by simpa using hlength)
    trivial
  | succ count ih =>
    match times, hlength with
    | t0 :: t1 :: rest, hlength =>
      have hrest : rest.length = 2 * count := by
        simp only [List.length_cons] at hlength
        omega
      have hfirst : ValidBit t0 t1 := hvalid 0 (Nat.succ_pos count)
      have hlater := ih rest hrest fun k hk ↦ hvalid (k + 1) (Nat.succ_lt_succ hk)
      rw [List.range_succ_eq_map, List.map_cons, List.map_map]
      exact ⟨hfirst.1, within_of_validBit hfirst, hlater⟩

/-- The twelve pairs spell the word of the temperature. -/
theorem spells_twelveBits {s : ReceiverState size} (hvalid : AllValid s) :
    Spells (twelveBits s) (segment s.timings (advance s.syncIndex1 24) 24) := by
  have hcell (offset : ℕ) (hoffset : offset < 24) :
      (segment s.timings (advance s.syncIndex1 24) 24).getD offset 0 =
        s.timings (advance s.syncIndex1 (24 + offset)) := by
    rw [List.getD_eq_getElem _ _ (by simpa using hoffset), getElem_segment, advance_advance]
  have hpair (k : ℕ) (hk : k < 12) :
      separatorAt s (12 + k) = (segment s.timings (advance s.syncIndex1 24) 24).getD (2 * k) 0 ∧
        pulseAt s (12 + k) =
          (segment s.timings (advance s.syncIndex1 24) 24).getD (2 * k + 1) 0 := by
    rw [hcell _ (by omega), hcell _ (by omega), separatorAt, pulseAt, Nat.mul_add]
    exact ⟨rfl, rfl⟩
  have hword : twelveBits s = (List.range 12).map fun k ↦
      readsOne ((segment s.timings (advance s.syncIndex1 24) 24).getD (2 * k) 0)
        ((segment s.timings (advance s.syncIndex1 24) 24).getD (2 * k + 1) 0) := by
    refine List.map_congr_left fun k hk ↦ ?_
    obtain ⟨hseparator, hpulse⟩ := hpair k (List.mem_range.mp hk)
    rw [hseparator, hpulse]
  rw [hword]
  refine spells_of_validBit 12 _ (by simp) fun k hk ↦ ?_
  rw [← (hpair k hk).1, ← (hpair k hk).2]
  exact hvalid k hk

/-! ### The printed numbers -/

/-- The magnitude that both numbers are computed from. -/
def magnitude (d : SignedDecode) : ℕ := (if d.negative then 4096 - d.temp else d.temp).toNat

/-- The two numbers of a magnitude that leaves room for the offset. -/
theorem toNat_numbers {temp : BitVec 32} (hsmall : temp.toNat ≤ 4096) :
    ((temp + 5) / 10).toNat = (temp.toNat + 5) / 10 ∧
      ((temp + 5) * 9 / 50 + 32).toNat = (temp.toNat + 5) * 9 / 50 + 32 := by
  have hfive : (5 : BitVec 32).toNat = 5 := rfl
  have hnine : (9 : BitVec 32).toNat = 9 := rfl
  have hten : (10 : BitVec 32).toNat = 10 := rfl
  have hfifty : (50 : BitVec 32).toNat = 50 := rfl
  have hoffset : (32 : BitVec 32).toNat = 32 := rfl
  have hsum : (temp + 5).toNat = temp.toNat + 5 := by
    rw [BitVec.toNat_add, hfive]
    omega
  have hproduct : ((temp + 5) * 9).toNat = (temp.toNat + 5) * 9 := by
    rw [BitVec.toNat_mul, hsum, hnine]
    omega
  refine ⟨by rw [BitVec.toNat_udiv, hsum, hten], ?_⟩
  rw [BitVec.toNat_add, BitVec.toNat_udiv, hproduct, hfifty, hoffset]
  omega

/-- Without a failure the report is the sign and the two numbers of the magnitude. -/
theorem report_numbers {d : SignedDecode} (hfail : d.fail = false) (hsmall : magnitude d ≤ 4096) :
    temperatures (report d) =
        [(((magnitude d + 5) / 10 : ℕ) : ℚ), (((magnitude d + 5) * 9 / 50 + 32 : ℕ) : ℚ)] ∧
      ∀ number, signed (report d) number = if d.negative then -number else number := by
  obtain ⟨hcelsius, hfahrenheit⟩ := toNat_numbers hsmall
  unfold report magnitude at *
  rw [if_pos hfail]
  cases hnegative : d.negative with
  | true =>
    simp only [hnegative, if_true] at hcelsius hfahrenheit ⊢
    rw [← hcelsius, ← hfahrenheit]
    exact ⟨rfl, fun _ ↦ rfl⟩
  | false =>
    simp only [hnegative, Bool.false_eq_true, if_false] at hcelsius hfahrenheit ⊢
    rw [← hcelsius, ← hfahrenheit]
    exact ⟨rfl, fun _ ↦ rfl⟩

/-- The Celsius number is right to half a degree. -/
theorem abs_celsius_sub_le (m : ℕ) : |(((m + 5) / 10 : ℕ) : ℚ) - (m : ℚ) / 10| ≤ 1 / 2 := by
  have hlower : 10 * ((m + 5) / 10) ≤ m + 5 := Nat.mul_div_le _ _
  have hupper : m + 5 < 10 * ((m + 5) / 10) + 10 := by omega
  have hlower' : (10 : ℚ) * (((m + 5) / 10 : ℕ) : ℚ) ≤ m + 5 := by exact_mod_cast hlower
  have hupper' : (m : ℚ) + 5 ≤ 10 * (((m + 5) / 10 : ℕ) : ℚ) + 10 := by exact_mod_cast hupper.le
  rw [abs_le]
  constructor <;> linarith

/-- The Fahrenheit number of a magnitude is right to one degree for a temperature from zero on. -/
theorem abs_fahrenheit_sub_le (m : ℕ) :
    |(((m + 5) * 9 / 50 + 32 : ℕ) : ℚ) - ((m : ℚ) * 9 / 50 + 32)| ≤ 1 := by
  have hlower : 50 * ((m + 5) * 9 / 50) ≤ (m + 5) * 9 := Nat.mul_div_le _ _
  have hupper : (m + 5) * 9 < 50 * ((m + 5) * 9 / 50) + 50 := by omega
  have hlower' : (50 : ℚ) * (((m + 5) * 9 / 50 : ℕ) : ℚ) ≤ (m + 5) * 9 := by exact_mod_cast hlower
  have hupper' : ((m : ℚ) + 5) * 9 ≤ 50 * (((m + 5) * 9 / 50 : ℕ) : ℚ) + 50 := by
    exact_mod_cast hupper.le
  rw [Nat.cast_add, abs_le]
  push_cast at hlower' hupper' ⊢
  constructor <;> linarith

/-- The Fahrenheit number of a magnitude is wrong by more than one degree for every temperature
below zero. -/
theorem lt_abs_fahrenheit_sub {m : ℕ} (hm : 0 < m) :
    1 < |(((m + 5) * 9 / 50 + 32 : ℕ) : ℚ) - (-(m : ℚ) * 9 / 50 + 32)| := by
  have hfar : 50 < 50 * ((m + 5) * 9 / 50) + 9 * m := by omega
  have hfar' : (50 : ℚ) < 50 * (((m + 5) * 9 / 50 : ℕ) : ℚ) + 9 * m := by exact_mod_cast hfar
  rw [Nat.cast_add, lt_abs]
  push_cast at hfar' ⊢
  exact Or.inl (by linarith)

/-! ### The window -/

/-- What the decode loop finds on twelve valid pairs: the sign is the first bit, and the temperature
is the magnitude with that sign. -/
theorem decoded_of_allValid (hsize : 66 < size) {s : ReceiverState size} (hvalid : AllValid s) :
    ∃ d, SketchJan24c.decodeLoop s = some d ∧ d.fail = false ∧ magnitude d ≤ 4096 ∧
      tenths s = (if d.negative then -(magnitude d : ℤ) else magnitude d) ∧
      (d.negative = true → 0 < magnitude d) ∧
      d.negative = readsOne (separatorAt s 12) (pulseAt s 12) := by
  obtain ⟨sign, word, hsign, hbits⟩ : ∃ sign word,
      sign = readsOne (separatorAt s 12) (pulseAt s 12) ∧ twelveBits s = sign :: word :=
    ⟨_, _, rfl, by rw [twelveBits, List.range_succ_eq_map, List.map_cons]⟩
  have hlength : word.length = 11 := by
    have hcount := congrArg List.length hbits
    simpa [twelveBits] using hcount.symm
  have hspells := spells_twelveBits hvalid
  have hvalue := value_lt (sign :: word)
  rw [List.length_cons, hlength] at hvalue
  have htenths : SketchJan24c.signedTenths ⟨BitVec.ofNat 32 (value (sign :: word)), sign, false⟩ =
      signedValue (sign :: word) := signedTenths_eq hlength
  rw [hbits] at hspells
  refine ⟨_, decodeLoop_eq hsize hlength hspells, rfl, ?_⟩
  rw [tenths, hbits, ← htenths]
  unfold signedValue at htenths
  unfold SketchJan24c.signedTenths magnitude at *
  cases sign with
  | true =>
    simp only [if_true, List.head?_cons, List.length_cons, hlength] at htenths ⊢
    exact ⟨by omega, trivial, fun _ ↦ by omega, hsign⟩
  | false =>
    simp only [Bool.false_eq_true, if_false, BitVec.toNat_ofNat] at htenths ⊢
    exact ⟨by omega, trivial, fun h ↦ absurd h (by decide), hsign⟩

variable {s : ReceiverState ringBufferSize}

theorem loop_of_decodeLoop (hreceived : s.received = true) {d : SignedDecode}
    (hd : SketchJan24c.decodeLoop s = some d) :
    SketchJan24c.loop s = some (clearReceived s, report d) := by
  rw [SketchJan24c.loop, if_pos hreceived, hd]
  rfl

/-- The Celsius number with its sign is right to half a degree, below zero as well. -/
theorem celsius_of_allValid (hreceived : s.received = true) (hvalid : AllValid s) :
    ∃ items celsius fahrenheit, SketchJan24c.loop s = some (clearReceived s, items) ∧
      temperatures items = [celsius, fahrenheit] ∧
      |signed items celsius - (tenths s : ℚ) / 10| ≤ 1 / 2 := by
  obtain ⟨d, hd, hfail, hsmall, htenths, -, -⟩ := decoded_of_allValid (by decide) hvalid
  obtain ⟨hnumbers, hsigned⟩ := report_numbers hfail hsmall
  refine ⟨report d, _, _, loop_of_decodeLoop hreceived hd, hnumbers, ?_⟩
  rw [hsigned, htenths]
  cases d.negative with
  | false => exact abs_celsius_sub_le _
  | true =>
    have hmirror (celsius tenths : ℚ) : |-celsius - -tenths / 10| = |celsius - tenths / 10| := by
      rw [← abs_neg]
      congr 1
      ring
    rw [if_pos rfl, if_pos rfl, Int.cast_neg, Int.cast_natCast, hmirror]
    exact abs_celsius_sub_le _

/-- Below zero the Fahrenheit number is wrong. -/
theorem not_describesWindow (hreceived : s.received = true) (hvalid : AllValid s)
    (hsign : readsOne (separatorAt s 12) (pulseAt s 12) = true) : ¬ DescribesWindow s := by
  obtain ⟨d, hd, hfail, hsmall, htenths, hpos, hnegative⟩ :=
    decoded_of_allValid (by decide) hvalid
  rw [hsign] at hnegative
  rintro ⟨items, hitems, hdescribes, -⟩
  obtain ⟨celsius, fahrenheit, hprinted, -, hclose⟩ := hdescribes hvalid
  have hsame : report d = items := by
    rw [loop_of_decodeLoop hreceived hd, Option.some.injEq, Prod.mk.injEq] at hitems
    exact hitems.2
  rw [← hsame, (report_numbers hfail hsmall).1, List.cons.injEq, List.cons.injEq] at hprinted
  rw [← hprinted.2.1, htenths, if_pos hnegative, Int.cast_neg, Int.cast_natCast] at hclose
  exact not_le.mpr (lt_abs_fahrenheit_sub (hpos hnegative)) hclose

/-- The report describes the temperature of the window exactly when a pair fails or the first of the
twelve bits, the sign, is not set. -/
theorem describesWindow_iff (s : ReceiverState ringBufferSize) (hreceived : s.received = true) :
    DescribesWindow s ↔ (AllValid s → readsOne (separatorAt s 12) (pulseAt s 12) = false) := by
  constructor
  · intro hdescribes hvalid
    rw [Bool.eq_false_iff]
    exact fun hsign ↦ not_describesWindow hreceived hvalid hsign hdescribes
  · intro hallowed
    by_cases hvalid : AllValid s
    · obtain ⟨d, hd, hfail, hsmall, htenths, -, hsign⟩ := decoded_of_allValid (by decide) hvalid
      obtain ⟨hnumbers, hsigned⟩ := report_numbers hfail hsmall
      have hnonneg : ¬ d.negative = true := by
        rw [hsign, hallowed hvalid]
        decide
      rw [if_neg hnonneg] at htenths
      refine ⟨report d, loop_of_decodeLoop hreceived hd, fun _ ↦ ⟨_, _, hnumbers, ?_, ?_⟩,
        fun h ↦ absurd hvalid h⟩
      · rw [hsigned, if_neg hnonneg, htenths, Int.cast_natCast]
        exact abs_celsius_sub_le _
      · rw [htenths, Int.cast_natCast]
        exact abs_fahrenheit_sub_le _
    · obtain ⟨d, hd, hfail⟩ := exists_decodeLoop_fail (by decide) s
      have hfailed : ¬ d.fail = false := by
        rw [hfail.mpr hvalid]
        decide
      refine ⟨report d, loop_of_decodeLoop hreceived hd, fun h ↦ absurd h hvalid, fun _ ↦ ?_⟩
      rw [report, if_neg hfailed]
      rfl

/-! ### Ten tenths above and below zero -/

/-- The bits of ten tenths of a degree, in a frame that is zero elsewhere. -/
def plusTen : List Bool :=
  List.replicate 20 false ++ [true, false, true, false] ++ List.replicate 8 false

theorem allValid_minusTen : AllValid (receivedWord minusTen : ReceiverState ringBufferSize) := by
  intro k hk
  unfold ValidBit
  interval_cases k <;> decide +kernel

theorem plusTen_describesWindow_iff :
    DescribesWindow (receivedWord plusTen : ReceiverState ringBufferSize) ∧
      ¬ DescribesWindow (receivedWord minusTen : ReceiverState ringBufferSize) := by
  constructor
  · exact (describesWindow_iff (receivedWord plusTen) rfl).mpr fun _ ↦ by decide +kernel
  · intro hdescribes
    have hpositive := (describesWindow_iff (receivedWord minusTen) rfl).mp hdescribes
      allValid_minusTen
    exact absurd hpositive (by decide +kernel)

/-- For minus one degree the Fahrenheit number is 34, and 30.2 degrees are right. -/
theorem not_forall_describesWindow :
    ¬ ∀ s : ReceiverState ringBufferSize, s.received = true → DescribesWindow s := by
  intro h
  exact not_describesWindow rfl allValid_minusTen (by decide +kernel)
    (h (receivedWord minusTen) rfl)

end Sketchbook.Receiver.FahrenheitReport
