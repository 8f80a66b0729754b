import Sketchbook.PulseScan.ScanAcceptance

/-!
# A pass of sketch_feb03a behind its capture

Once the buffer is full a pass scans it. When the scan has accepted a frame, the pass uploads the
outside temperature, clears `captured_state`, reads the DS18x20 on the one-wire bus and uploads the
inside temperature; it returns early when the bus has no device or the device is of another family.
Every way out leaves `captured_state` cleared and the other globals as the scan left them.

`pass_tempOut_eq_some_iff` says what a scan does in terms of its input alone: a window `Passes` with
the character that is in `bitreceived` when the scan comes to it, that character is what the earlier
windows carry along (`carried`), and the scan takes the temperature of the first window that passes.
-/

set_option autoImplicit false
set_option relaxedAutoImplicit false

namespace Sketchbook.PulseScan.LoopPass

open Arduino.Text Sensor.BinaryReading Sensor.PulseClassifier FrameScan ScanAcceptance

/-! ### The DS18x20 and the uploads -/

/-- What the one-wire bus answers in a pass: whether `ds.search` finds a device, the first byte of
its address, and the nine bytes of its scratchpad. -/
structure OneWireBus where
  search : Bool
  addr : BitVec 8
  data : Fin 9 → BitVec 8

/-- `type_s` by the family code, `none` for a device of another family. -/
def typeS (addr : BitVec 8) : Option Bool :=
  if addr = 0x10 then some true
  else if addr = 0x28 then some false
  else if addr = 0x22 then some false
  else none

/-- The temperature in sixteenths of a degree, as an `int16_t`. -/
def raw (typeS : Bool) (data : Fin 9 → BitVec 8) : BitVec 16 :=
  let raw : BitVec 16 := data 1 ++ data 0
  if typeS then
    let raw := raw <<< 3
    if data 7 = 0x10 then (raw &&& 0xFFF0) + 12 - (data 6).setWidth 16 else raw
  else
    let cfg := data 4 &&& 0x60
    if cfg = 0x00 then raw &&& ~~~7
    else if cfg = 0x20 then raw &&& ~~~3
    else if cfg = 0x40 then raw &&& ~~~1
    else raw

def celsius (typeS : Bool) (data : Fin 9 → BitVec 8) : ℚ := (raw typeS data).toInt / 16

/-- The globals behind a pass and the values it has uploaded to the two datastreams. -/
structure PassResult where
  globals : Globals
  tempOut : Option ℚ
  tempIn : Option ℚ

/-- The part of `loop` behind the scan. -/
def report (bus : OneWireBus) (globals : Globals) : PassResult :=
  if globals.capturedState = true then
    let tempOut := bintodec globals.tempOut
    let globals := { globals with capturedState := false }
    if bus.search = false then ⟨globals, some tempOut, none⟩
    else
      match typeS bus.addr with
      | none => ⟨globals, some tempOut, none⟩
      | some typeS => ⟨globals, some tempOut, some (celsius typeS bus.data)⟩
  else ⟨globals, none, none⟩

/-- A pass of `loop` with the timings it has captured. -/
def pass (timings : Fin bufferSize → ℤ) (bus : OneWireBus) (globals : Globals) : PassResult :=
  report bus (scan timings globals)

/-- The globals behind a list of passes since power on. -/
def afterPasses (history : List ((Fin bufferSize → ℤ) × OneWireBus)) : Globals :=
  history.foldl (fun globals earlier ↦ (pass earlier.1 earlier.2 globals).globals) powerOn

/-- Every way out of `loop` clears `captured_state`, and leaves the other globals of the scan. -/
theorem report_globals (bus : OneWireBus) (globals : Globals) :
    (report bus globals).globals = { globals with capturedState := false } := by
  unfold report
  cases hstate : globals.capturedState with
  | false => rw [if_neg Bool.false_ne_true, ← hstate]
  | true =>
    rw [if_pos rfl]
    dsimp only
    split_ifs
    · rfl
    · split <;> rfl

/-- The outside temperature is uploaded exactly when the scan has accepted a frame. -/
theorem report_tempOut (bus : OneWireBus) (globals : Globals) :
    (report bus globals).tempOut =
      if globals.capturedState = true then some (bintodec globals.tempOut) else none := by
  unfold report
  cases globals.capturedState with
  | false => rfl
  | true =>
    rw [if_pos rfl, if_pos rfl]
    dsimp only
    split_ifs
    · rfl
    · split <;> rfl

/-- A pass uploads an outside temperature exactly when its scan has accepted a frame. -/
theorem isSome_tempOut (timings : Fin bufferSize → ℤ) (bus : OneWireBus) (globals : Globals) :
    (pass timings bus globals).tempOut.isSome = (scan timings globals).capturedState := by
  rw [pass, report_tempOut]
  cases (scan timings globals).capturedState <;> rfl

/-- Between passes `captured_state` is cleared. -/
theorem afterPasses_capturedState (history : List ((Fin bufferSize → ℤ) × OneWireBus)) :
    (afterPasses history).capturedState = false := by
  induction history using List.reverseRecOn with
  | nil => rfl
  | append_singleton earlier last _ =>
    rw [afterPasses, List.foldl_append, List.foldl_cons, List.foldl_nil, pass, report_globals]

/-! ### What the windows carry along -/

/-- The scan classifies the window behind this index. -/
def OpensWindow (timings : Fin bufferSize → ℤ) (i : ℕ) : Prop :=
  ∃ h : i + 33 < bufferSize,
    lengths.within syncLength (timings ⟨i, Nat.lt_of_le_of_lt (Nat.le_add_right i 33) h⟩)

instance (timings : Fin bufferSize → ℤ) (i : ℕ) : Decidable (OpensWindow timings i) :=
  inferInstanceAs (Decidable (∃ _, _))

/-- The character in `bitreceived` when the scan comes to an index, from the one it started with. -/
def carried (timings : Fin bufferSize → ℤ) (bitreceived : Char) : ℕ → Char
  | 0 => bitreceived
  | i + 1 =>
    if h : OpensWindow timings i then
      (window timings i h.1).foldl lengths.classify (carried timings bitreceived i)
    else carried timings bitreceived i

/-- The window behind this index is one of a sync, and its text passes the checks. -/
def Passes (timings : Fin bufferSize → ℤ) (bitreceived : Char) (i : ℕ) : Prop :=
  ∃ h : i + 33 < bufferSize,
    lengths.within syncLength (timings ⟨i, Nat.lt_of_le_of_lt (Nat.le_add_right i 33) h⟩) ∧
      Accepts (lengths.capture bitreceived (window timings i h))

/-- The first window that passes, with the character carried to it. -/
structure FirstPass (timings : Fin bufferSize → ℤ) (bitreceived : Char) (i : ℕ) : Prop where
  passes : Passes timings (carried timings bitreceived i) i
  first : ∀ j < i, ¬ Passes timings (carried timings bitreceived j) j

/-- The temperature in the window behind an index. -/
def reading (timings : Fin bufferSize → ℤ) (bitreceived : Char) (i : ℕ) : ℚ :=
  if h : i + 33 < bufferSize then
    bintodec (substring (lengths.capture bitreceived (window timings i h)) 16 24)
  else 0

variable {timings : Fin bufferSize → ℤ} {globals : Globals}

theorem Passes.opensWindow {bitreceived : Char} {i : ℕ} (h : Passes timings bitreceived i) :
    OpensWindow timings i :=
  ⟨h.1, h.2.1⟩

theorem exists_firstPass {bitreceived : Char}
    (h : ∃ i, Passes timings (carried timings bitreceived i) i) :
    ∃ i, FirstPass timings bitreceived i := by
  classical
  exact ⟨Nat.find h, Nat.find_spec h, fun _ hlt ↦ Nat.find_min h hlt⟩

/-- A turn of the scan sets `captured_state` at a window that passes. -/
theorem scanBody_capturedState_iff_passes {i : Fin bufferSize}
    (hfree : globals.capturedState = false) :
    (scanBody timings globals i).capturedState = true ↔ Passes timings globals.bitreceived i := by
  rw [scanBody_capturedState_iff hfree]
  constructor
  · rintro ⟨hsync, h, haccepts⟩
    exact ⟨h, hsync, haccepts⟩
  · rintro ⟨h, hsync, haccepts⟩
    exact ⟨hsync, h, haccepts⟩

/-- The checks leave `bitreceived` alone. -/
theorem checkCaptured_bitreceived (globals : Globals) :
    (checkCaptured globals).bitreceived = globals.bitreceived := by
  unfold checkCaptured
  dsimp only
  split_ifs <;> rfl

theorem scanBody_bitreceived (i : Fin bufferSize) :
    (scanBody timings globals i).bitreceived =
      if h : OpensWindow timings i then
        (window timings i h.1).foldl lengths.classify globals.bitreceived
      else globals.bitreceived := by
  unfold scanBody
  by_cases hopens : lengths.within syncLength (timings i) ∧ (i : ℕ) + 33 < bufferSize
  · rw [dif_pos hopens, dif_pos ⟨hopens.2, hopens.1⟩, checkCaptured_bitreceived]
  · rw [dif_neg hopens, dif_neg fun h : OpensWindow timings i ↦ hopens ⟨h.2, h.1⟩]

/-- Up to the first window that passes, the scan only carries `bitreceived` along. -/
theorem reach_of_not_passes (timings : Fin bufferSize → ℤ)
    (hfree : globals.capturedState = false) {i : ℕ} (hi : i ≤ bufferSize)
    (hnone : ∀ j < i, ¬ Passes timings (carried timings globals.bitreceived j) j) :
    (reach timings globals i).capturedState = false ∧
      (reach timings globals i).bitreceived = carried timings globals.bitreceived i := by
  induction i with
  | zero => exact ⟨hfree, rfl⟩
  | succ i ih =>
    obtain ⟨hstate, hcarried⟩ := ih (Nat.le_of_succ_le hi)
      fun j hj ↦ hnone j (Nat.lt_succ_of_lt hj)
    have hturn := reach_succ timings globals ⟨i, hi⟩
    rw [scanStep, if_pos hstate] at hturn
    change reach timings globals (i + 1) = _ at hturn
    refine ⟨?_, ?_⟩
    · rw [hturn, Bool.eq_false_iff, Ne, scanBody_capturedState_iff_passes hstate, hcarried]
      exact hnone i (Nat.lt_succ_self i)
    · rw [hturn, scanBody_bitreceived, hcarried, carried]

theorem FirstPass.acceptedAt (hfree : globals.capturedState = false) {i : ℕ}
    (h : FirstPass timings globals.bitreceived i) (hi : i < bufferSize) :
    AcceptedAt timings globals ⟨i, hi⟩ := by
  obtain ⟨hstate, hcarried⟩ := reach_of_not_passes timings hfree (Nat.le_of_lt hi) h.first
  refine ⟨hstate, (scanBody_capturedState_iff_passes hstate).mpr ?_⟩
  rw [hcarried]
  exact h.passes

/-- The scan takes the temperature of the first window that passes, and accepts nothing else. -/
theorem pass_tempOut_eq_some_iff (hfree : globals.capturedState = false) (bus : OneWireBus)
    (temperature : ℚ) :
    (pass timings bus globals).tempOut = some temperature ↔
      ∃ i, FirstPass timings globals.bitreceived i ∧
        reading timings (carried timings globals.bitreceived i) i = temperature := by
  have hreading {i : ℕ} (h : FirstPass timings globals.bitreceived i) :
      (pass timings bus globals).tempOut =
        some (reading timings (carried timings globals.bitreceived i) i) := by
    obtain ⟨hfits, hsync, haccepts⟩ := h.passes
    have hi : i < bufferSize := by omega
    have haccepted := h.acceptedAt hfree hi
    obtain ⟨-, hcarried⟩ := reach_of_not_passes timings hfree (Nat.le_of_lt hi) h.first
    have hset : (scan timings globals).capturedState = true := by
      rw [haccepted.scan_eq]
      exact haccepted.2
    rw [pass, report_tempOut, if_pos hset, haccepted.scan_eq,
      scanBody_tempOut hsync hfits (by rwa [hcarried]), hcarried, reading, dif_pos hfits]
  constructor
  · intro huploaded
    by_cases hexists : ∃ i, Passes timings (carried timings globals.bitreceived i) i
    · obtain ⟨i, hfirst⟩ := exists_firstPass hexists
      rw [hreading hfirst] at huploaded
      exact ⟨i, hfirst, Option.some.inj huploaded⟩
    · have hnone := (reach_of_not_passes timings hfree le_rfl
        fun j _ hpasses ↦ hexists ⟨j, hpasses⟩).1
      rw [reach, List.take_of_length_le (by simp)] at hnone
      have hscan : (scan timings globals).capturedState = false := hnone
      rw [pass, report_tempOut, if_neg (Bool.eq_false_iff.mp hscan)] at huploaded
      exact absurd huploaded (by simp)
  · rintro ⟨i, hfirst, rfl⟩
    exact hreading hfirst

end Sketchbook.PulseScan.LoopPass
