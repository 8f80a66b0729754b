import Sketchbook.Receiver.TemperatureReport

/-!
# The twelve-bit decoder of sketch_jan24c and the eight-bit decoder of RF_RECEIVER_V2

sketch_jan24c reads the same ring as RF_RECEIVER_V2 and takes the temperature from the twelve pairs
12 to 23 as two's complement: it shifts a bit at a time into `temp`, remembers in `negative`
whether the first of them is set, and gives up with `fail` on a pair that is no bit.
`decodeLoop_eq` says what that loop computes on durations that spell a word.

RF_RECEIVER_V2 takes the lower eight of the twelve bits only. `loops_agree_iff` is the comparison:
the two temperatures are equal exactly when the four bits above are zero, that is for temperatures
from 0 to 25.5 degrees.
-/

set_option autoImplicit false
set_option relaxedAutoImplicit false

namespace Sketchbook.Receiver.SketchJan24c

open Foundation.RingIndex RingReceiver

variable {size : ℕ} [NeZero size]

/-- The locals of `loop` that the decode loop changes. -/
structure SignedDecode where
  temp : BitVec 32
  negative : Bool
  fail : Bool

/-- One turn of the decode loop, at ring position `i`. -/
def decodeBody (timings : Fin size → Micros) (first : Fin size) (i : Fin size)
    (d : SignedDecode) : SignedDecode :=
  let t0 := timings i
  let t1 := timings (advance i 1)
  if within sepLength 100 t0 then
    if within bit1Length 1000 t1 then
      { d with
        negative := if i = first then true else d.negative
        temp := (d.temp <<< 1) + 1 }
    else if within bit0Length 1000 t1 then { d with temp := (d.temp <<< 1) + 0 }
    else { d with fail := true }
  else { d with fail := true }

/-- The decode loop, from 24 cells behind the first sync index to 48 cells behind it. -/
def decodeLoop (s : ReceiverState size) : Option SignedDecode :=
  walk 2 (decodeBody s.timings (advance s.syncIndex1 24)) (advance s.syncIndex1 48) size
    (advance s.syncIndex1 24) ⟨0, false, false⟩

/-- What `loop` prints for a decoded temperature. -/
def report (d : SignedDecode) : List SerialItem :=
  if d.fail = false then
    let temp := if d.negative then 4096 - d.temp else d.temp
    (if d.negative then [.text "-"] else []) ++
      [.number ((temp + 5) / 10).toNat, .chars [Char.ofNat 176], .text "C/",
        .number ((temp + 5) * 9 / 50 + 32).toNat, .chars [Char.ofNat 176], .text "F"]
  else [.text "Decoding error."]

/-- `loop` of sketch_jan24c: the state after one pass and what it prints, `none` if the decode loop
does not end. -/
def loop (s : ReceiverState size) : Option (ReceiverState size × List SerialItem) :=
  if s.received = true then (decodeLoop s).map fun d ↦ (clearReceived s, report d)
  else some (s, [])

/-- The temperature in tenths of a degree before rounding: the number printed after the sign. -/
def signedTenths (d : SignedDecode) : ℤ :=
  if d.negative then -((4096 - d.temp).toNat : ℤ) else d.temp.toNat

end Sketchbook.Receiver.SketchJan24c

namespace Sketchbook.Receiver.SignedDecoder

open Foundation.BitWord Foundation.RingIndex Sensor.BinaryReading
open RingReceiver WindowDecoding TemperatureReport

variable {size : ℕ} [NeZero size]

/-! ### The decode loop of sketch_jan24c -/

/-- One turn on a valid bit shifts it into `temp`. -/
theorem decodeBody_of_valid {timings : Fin size → Micros} {first i : Fin size} {bit : Bool}
    (hsep : within sepLength 100 (timings i))
    (hbit : within (if bit then bit1Length else bit0Length) 1000 (timings (advance i 1)))
    (d : SketchJan24c.SignedDecode) :
    SketchJan24c.decodeBody timings first i d =
      ⟨(d.temp <<< 1) + (if bit then 1 else 0), d.negative || (bit && decide (i = first)),
        d.fail⟩ := by
  unfold SketchJan24c.decodeBody
  cases bit with
  | true =>
    have hone : within bit1Length 1000 (timings (advance i 1)) := hbit
    simp only [if_pos hsep, if_pos hone]
    by_cases hfirst : i = first <;> simp [hfirst]
  | false =>
    have hzero : within bit0Length 1000 (timings (advance i 1)) := hbit
    have hone : ¬ within bit1Length 1000 (timings (advance i 1)) := by
      simp only [within, bit0Length, bit1Length] at hzero ⊢
      omega
    simp [hsep, hone, hzero]

/-- Shifting a bit into a 32-bit word that has room for it. -/
theorem toNat_shift_add {temp : BitVec 32} (bit : Bool) (h : temp.toNat < 2 ^ 31) :
    ((temp <<< 1) + (if bit then 1 else 0)).toNat = 2 * temp.toNat + bit.toNat := by
  have hshift : (temp <<< 1).toNat = 2 * temp.toNat := by
    rw [BitVec.toNat_shiftLeft, Nat.shiftLeft_eq, Nat.mod_eq_of_lt (by omega)]
    ring
  cases bit with
  | true =>
    rw [if_pos rfl, BitVec.toNat_add, hshift]
    show (2 * temp.toNat + 1) % 2 ^ 32 = 2 * temp.toNat + 1
    exact Nat.mod_eq_of_lt (by omega)
  | false =>
    rw [if_neg Bool.false_ne_true, add_zero, hshift]
    rfl

/-- Turns away from the first position shift the bits of a word into `temp`. -/
theorem foldl_decodeBody {timings : Fin size → Micros} {first : Fin size} {word : List Bool}
    {i : Fin size} (hspells : Spells word (segment timings i (2 * word.length)))
    (hfirst : ∀ position ∈ stations 2 word.length i, position ≠ first)
    (d : SketchJan24c.SignedDecode) (hroom : d.temp.toNat * 2 ^ word.length + value word < 2 ^ 32) :
    (stations 2 word.length i).foldl
        (fun d position ↦ SketchJan24c.decodeBody timings first position d) d =
      ⟨BitVec.ofNat 32 (d.temp.toNat * 2 ^ word.length + value word), d.negative, d.fail⟩ := by
  induction word generalizing i d with
  | nil => simp [stations]
  | cons bit word ih =>
    rw [List.length_cons, segment_pair] at hspells
    obtain ⟨hsep, hbit, hrest⟩ := hspells
    have hne : i ≠ first := hfirst i List.mem_cons_self
    have hpow : 0 < 2 ^ word.length := Nat.two_pow_pos _
    have hvalue : d.temp.toNat * 2 ^ (word.length + 1) + value (bit :: word) =
        (2 * d.temp.toNat + bit.toNat) * 2 ^ word.length + value word := by
      rw [value_cons, pow_succ]
      ring
    rw [List.length_cons, hvalue] at hroom
    have hsmall : 2 * d.temp.toNat + bit.toNat < 2 ^ 32 := by
      have hle : (2 * d.temp.toNat + bit.toNat) * 1 ≤
          (2 * d.temp.toNat + bit.toNat) * 2 ^ word.length := Nat.mul_le_mul_left _ hpow
      omega
    have hshift := toNat_shift_add bit (show d.temp.toNat < 2 ^ 31 by omega)
    rw [List.length_cons, stations, List.foldl_cons, decodeBody_of_valid hsep hbit, ih hrest
      (fun position hmem ↦ hfirst position (List.mem_cons_of_mem _ hmem)) _ (by
        rw [hshift]
        exact hroom), hshift, hvalue]
    simp [hne]

/-- The turns of the decode loop on durations that spell twelve bits: the first sets the sign, the
others shift their bits in. -/
theorem foldl_decodeBody_twelve (hsize : 66 < size) {timings : Fin size → Micros}
    {first : Fin size} {sign : Bool} {word : List Bool} (hword : word.length = 11)
    (hspells : Spells (sign :: word) (segment timings first 24)) :
    (stations 2 12 first).foldl
        (fun d position ↦ SketchJan24c.decodeBody timings first position d) ⟨0, false, false⟩ =
      ⟨BitVec.ofNat 32 (value (sign :: word)), sign, false⟩ := by
  rw [show 24 = 2 * (11 + 1) from rfl, segment_pair] at hspells
  obtain ⟨hsep, hbit, hrest⟩ := hspells
  have hlater : ∀ position ∈ stations 2 word.length (advance first 2), position ≠ first := by
    intro position hmem heq
    obtain ⟨turn, hturn, hposition⟩ := mem_stations_iff.mp hmem
    have hloop : advance first 0 = advance first (2 + 2 * turn) := by
      rw [advance_zero, ← advance_advance, ← hposition, heq]
    have := advance_injective first (by omega) (by omega) hloop
    omega
  have hstations : stations 2 12 first = first :: stations 2 11 (advance first 2) := rfl
  have hzero : (0 : BitVec 32) <<< 1 + (if sign then 1 else 0) = if sign then 1 else 0 := by
    cases sign <;> rfl
  have hstart : (if sign then (1 : BitVec 32) else 0).toNat = sign.toNat := by
    cases sign <;> rfl
  have hvalue := value_lt (sign :: word)
  rw [value_cons, List.length_cons, hword] at hvalue
  rw [hstations, List.foldl_cons, decodeBody_of_valid hsep hbit, hzero, ← hword,
    foldl_decodeBody (by rw [hword]; exact hrest) hlater _ (by
      rw [hstart, hword]
      omega), hstart, value_cons]
  simp

/-- On durations that spell twelve bits, the decode loop ends with their unsigned value and the
first of them. -/
theorem decodeLoop_eq (hsize : 66 < size) {s : ReceiverState size} {sign : Bool} {word : List Bool}
    (hword : word.length = 11)
    (hspells : Spells (sign :: word) (segment s.timings (advance s.syncIndex1 24) 24)) :
    SketchJan24c.decodeLoop s = some ⟨BitVec.ofNat 32 (value (sign :: word)), sign, false⟩ := by
  have hstop : advance s.syncIndex1 48 = advance (advance s.syncIndex1 24) (2 * 12) := by
    rw [advance_advance]
  rw [SketchJan24c.decodeLoop, hstop, walk_eq_foldl 2 (by omega) _ 12 (by omega) size (by omega),
    foldl_decodeBody_twelve hsize hword hspells]

/-- The number that sketch_jan24c prints before rounding is the two's complement value. -/
theorem signedTenths_eq {sign : Bool} {word : List Bool} (hword : word.length = 11) :
    SketchJan24c.signedTenths ⟨BitVec.ofNat 32 (value (sign :: word)), sign, false⟩ =
      signedValue (sign :: word) := by
  have hvalue := value_lt (sign :: word)
  rw [List.length_cons, hword] at hvalue
  unfold SketchJan24c.signedTenths signedValue
  cases sign with
  | false =>
    simp only [List.head?_cons, Option.some.injEq, Bool.false_eq_true, if_false,
      BitVec.toNat_ofNat]
    rw [Nat.mod_eq_of_lt (by omega)]
  | true =>
    have hdifference : (4096 - BitVec.ofNat 32 (value (true :: word))).toNat =
        4096 - value (true :: word) := by
      have hlimit : (4096 : BitVec 32).toNat = 4096 := rfl
      have hsmall : value (true :: word) % 2 ^ 32 = value (true :: word) :=
        Nat.mod_eq_of_lt (by omega)
      rw [BitVec.toNat_sub, BitVec.toNat_ofNat, hlimit, hsmall]
      omega
    simp only [List.head?_cons, if_true, hdifference, List.length_cons, hword]
    have hle : value (true :: word) ≤ 4096 := by omega
    rw [Nat.cast_sub hle]
    push_cast
    ring

/-! ### The two temperatures of one window -/

/-- A state whose window starts with 32 pairs that spell a word, ready to be decoded. -/
structure HoldsWord (s : ReceiverState size) (word : List Bool) : Prop where
  received : s.received = true
  closed : advance s.syncIndex1 66 = s.syncIndex2
  length : word.length = 32
  spells : Spells word ((window s).take 64)

/-- Both loops end on such a state, and this is what they find. -/
theorem HoldsWord.decoded
    {s : ReceiverState RfReceiverV2WithInterrupts.sketch.ringBufferSize} {word : List Bool}
    (h : HoldsWord s word) (stack : Stack) :
    ∃ items d, RfReceiverV2WithInterrupts.loop s stack = some (clearReceived s, items) ∧
      temperatures items = [(value ((word.take 24).drop 16) : ℚ) / 10] ∧
      SketchJan24c.decodeLoop s = some d ∧ d.fail = false ∧
      SketchJan24c.signedTenths d = signedValue ((word.take 24).drop 12) := by
  obtain ⟨hreceived, hclosed, hlength, hspells⟩ := h
  have hsize := RfReceiverV2WithInterrupts.sketch.fits
  obtain ⟨d, hd, -, hStr, hprinted⟩ := exists_decodeLoop hsize true hclosed stack
  rw [← List.take_append_drop 64 (window s)] at hStr
  obtain ⟨-, htemp⟩ := decode_of_spells hlength hspells hStr
  have htwelve : Spells ((word.take 24).drop 12)
      (segment s.timings (advance s.syncIndex1 24) 24) := by
    have hpart := (hspells.take 24).drop 12
    have htimes : (((window s).take 64).take (2 * 24)).drop (2 * 12) =
        segment s.timings (advance s.syncIndex1 24) 24 := by
      apply List.ext_getElem
      · simp [window]
      · intro index hleft hright
        simp only [window, List.getElem_drop, List.getElem_take, getElem_segment, advance_advance]
    rw [htimes] at hpart
    exact hpart
  obtain ⟨sign, rest, htwelveBits⟩ : ∃ sign rest, (word.take 24).drop 12 = sign :: rest :=
    List.exists_cons_of_length_pos (by simp [hlength])
  have hrest : rest.length = 11 := by
    have hcount := congrArg List.length htwelveBits
    simp only [List.length_drop, List.length_take, hlength, List.length_cons] at hcount
    omega
  rw [htwelveBits] at htwelve
  refine ⟨_, _, by simp only [RfReceiverV2WithInterrupts.loop, loop, hreceived, hd]; rfl, ?_,
    decodeLoop_eq hsize hrest htwelve, rfl, ?_⟩
  · rw [temperatures_append, hprinted]
    rw [htemp, bintodec_bitText _ (by simp [hlength])]
    rfl
  · rw [signedTenths_eq hrest, htwelveBits]

/-- The twelve bits are the four above and the eight that RF_RECEIVER_V2 reads. -/
theorem twelve_eq_append {word : List Bool} (hlength : word.length = 32) :
    (word.take 24).drop 12 = (word.take 16).drop 12 ++ (word.take 24).drop 16 := by
  have hsplit : word.take 24 = word.take 16 ++ (word.take 24).drop 16 := by
    conv_lhs => rw [← List.take_append_drop 16 (word.take 24), List.take_take]
    rfl
  conv_lhs => rw [hsplit]
  rw [List.drop_append_of_le_length (by simp [hlength])]

/-- The temperature that RF_RECEIVER_V2 prints for a window of valid bits is the one that
sketch_jan24c decodes if and only if bits 12 to 15 are all zero. -/
theorem loops_agree_iff (s : ReceiverState RfReceiverV2WithInterrupts.sketch.ringBufferSize)
    (word : List Bool) (h : HoldsWord s word) (stack : Stack) :
    ∃ next items temperature d, RfReceiverV2WithInterrupts.loop s stack = some (next, items) ∧
      temperatures items = [temperature] ∧ SketchJan24c.decodeLoop s = some d ∧ d.fail = false ∧
      (temperature * 10 = (SketchJan24c.signedTenths d : ℚ) ↔
        ∀ bit ∈ (word.take 16).drop 12, bit = false) := by
  obtain ⟨items, d, hloop, hprinted, hd, hfail, hsigned⟩ := h.decoded stack
  refine ⟨_, items, _, d, hloop, hprinted, hd, hfail, ?_⟩
  have hfour : (word.take 16).drop 12 ≠ [] := by
    intro hnil
    have hcount := congrArg List.length hnil
    simp [h.length] at hcount
  rw [hsigned, twelve_eq_append h.length,
    ← signedValue_append_eq_iff hfour ((word.take 24).drop 16)]
  rw [div_mul_cancel₀ _ (by norm_num : (10 : ℚ) ≠ 0)]
  constructor
  · intro heq
    exact_mod_cast heq.symm
  · intro heq
    rw [heq]
    norm_cast

/-! ### One degree below zero -/

/-- The bits of minus ten tenths of a degree, in a frame that is zero elsewhere. -/
def minusTen : List Bool :=
  List.replicate 12 false ++
    [true, true, true, true, true, true, true, true, false, true, true, false] ++
    List.replicate 8 false

/-- A received frame at the start of the ring. -/
def receivedWord (word : List Bool) : ReceiverState size :=
  { powerOn (fun i ↦ (encode word ++ [500, 9000]).getD i 0) with
    received := true
    syncIndex2 := advance 0 66 }

theorem holdsWord_receivedWord (hsize : 66 < size) (word : List Bool) (h : word.length = 32) :
    HoldsWord (receivedWord word : ReceiverState size) word := by
  have hlength : (encode word).length = 64 := by rw [(spells_encode word).length_eq, h]
  have htake : (window (receivedWord word : ReceiverState size)).take 64 = encode word := by
    apply List.ext_getElem
    · simp [window, hlength]
    · intro index hleft hright
      have hindex : index < 64 := by omega
      have hposition : ((advance (0 : Fin size) index : Fin size) : ℕ) = index := by
        rw [val_advance, Fin.val_zero, Nat.zero_add]
        exact Nat.mod_eq_of_lt (by omega)
      simp only [List.getElem_take, window, getElem_segment]
      show (encode word ++ [500, 9000]).getD (advance (0 : Fin size) index : Fin size) 0 = _
      rw [hposition, List.getD_append _ _ _ _ (by omega), List.getD_eq_getElem _ _ (by omega)]
  exact ⟨rfl, rfl, h, by rw [htake]; exact spells_encode word⟩

/-- For minus one degree RF_RECEIVER_V2 prints 24.6. -/
theorem not_forall_loops_agree : ¬ ∀ (s : ReceiverState
      RfReceiverV2WithInterrupts.sketch.ringBufferSize) (word : List Bool), HoldsWord s word →
    ∀ stack next items temperature d,
      RfReceiverV2WithInterrupts.loop s stack = some (next, items) →
        temperatures items = [temperature] → SketchJan24c.decodeLoop s = some d →
          temperature * 10 = (SketchJan24c.signedTenths d : ℚ) := by
  intro h
  have hholds := holdsWord_receivedWord RfReceiverV2WithInterrupts.sketch.fits minusTen rfl
  obtain ⟨items, d, hloop, hprinted, hd, -, hsigned⟩ := hholds.decoded ⟨'0', fun _ ↦ '0'⟩
  have hagree := h _ minusTen hholds _ _ items _ d hloop hprinted hd
  have height : value ((minusTen.take 24).drop 16) = 246 := by decide
  have htwelve : signedValue ((minusTen.take 24).drop 12) = -10 := by decide
  rw [hsigned, height, htwelve] at hagree
  norm_num at hagree

theorem minusTen_agree_iff : ∃ next items temperature d,
    RfReceiverV2WithInterrupts.loop (receivedWord minusTen) ⟨'0', fun _ ↦ '0'⟩ =
      some (next, items) ∧
      temperatures items = [temperature] ∧
      SketchJan24c.decodeLoop (receivedWord minusTen :
        ReceiverState RfReceiverV2WithInterrupts.sketch.ringBufferSize) = some d ∧ d.fail = false ∧
      (temperature * 10 = (SketchJan24c.signedTenths d : ℚ) ↔
        ∀ bit ∈ (minusTen.take 16).drop 12, bit = false) :=
  loops_agree_iff (receivedWord minusTen) minusTen
    (holdsWord_receivedWord RfReceiverV2WithInterrupts.sketch.fits minusTen rfl) _

end Sketchbook.Receiver.SignedDecoder
