import Mathlib.Data.List.Basic
import Mathlib.Data.Nat.Notation
import Mathlib.Tactic.Ring

/-!
# Numbers in big-endian byte order

`encode` writes a number as a given number of bytes, most significant first, and `decode` reads
bytes back. `decode_encode` is the round trip, up to the bits that do not fit. A field that is put
together with shifts and ors is the number its bytes spell because each or fills bits the shift has
left free (`toNat_or_of_dvd`).
-/

set_option autoImplicit false
set_option relaxedAutoImplicit false

namespace Sketchbook.Foundation.BigEndian

/-- The bytes of a number, most significant first. -/
def encode : ℕ → ℕ → List (BitVec 8)
  | 0, _ => []
  | width + 1, number => encode width (number / 256) ++ [BitVec.ofNat 8 number]

/-- The number that bytes spell, most significant first. -/
def decode (bytes : List (BitVec 8)) : ℕ :=
  bytes.foldl (fun total byte ↦ total * 256 + byte.toNat) 0

@[simp] theorem length_encode (width number : ℕ) : (encode width number).length = width := by
  induction width generalizing number with
  | zero => rfl
  | succ width ih => rw [encode, List.length_append, ih, List.length_singleton]

theorem decode_append_singleton (bytes : List (BitVec 8)) (byte : BitVec 8) :
    decode (bytes ++ [byte]) = decode bytes * 256 + byte.toNat := by
  rw [decode, List.foldl_append]
  rfl

/-- What is read back is the number, less the bits that did not fit. -/
theorem decode_encode (width number : ℕ) : decode (encode width number) = number % 256 ^ width := by
  induction width generalizing number with
  | zero => rw [pow_zero, Nat.mod_one]; rfl
  | succ width ih =>
    have hsplit : number % (256 * 256 ^ width) =
        number % 256 + 256 * (number / 256 % 256 ^ width) := Nat.mod_mul
    rw [encode, decode_append_singleton, ih, BitVec.toNat_ofNat, pow_succ' 256, hsplit,
      Nat.mul_comm, Nat.add_comm]

/-- The or of a word with a number below its lowest bit is their sum. -/
theorem toNat_or_of_dvd (shift : ℕ) {width : ℕ} {high low : BitVec width}
    (hhigh : 2 ^ shift ∣ high.toNat) (hlow : low.toNat < 2 ^ shift) :
    (high ||| low).toNat = high.toNat + low.toNat := by
  obtain ⟨count, hcount⟩ := hhigh
  rw [BitVec.toNat_or, hcount, Nat.mul_comm, ← Nat.shiftLeft_eq,
    ← Nat.shiftLeft_add_eq_or_of_lt hlow]

/-- The word of four bytes put together with shifts and ors. -/
theorem toNat_assembled (first second third fourth : BitVec 8) :
    (first.setWidth 32 <<< 24 ||| second.setWidth 32 <<< 16 ||| third.setWidth 32 <<< 8 |||
      fourth.setWidth 32).toNat = decode [first, second, third, fourth] := by
  have hshift (byte : BitVec 8) (shift : ℕ) (hfits : shift ≤ 24) :
      (byte.setWidth 32 <<< shift).toNat = byte.toNat * 2 ^ shift := by
    have hscaled : byte.toNat * 2 ^ shift < 2 ^ 8 * 2 ^ 24 :=
      Nat.mul_lt_mul_of_lt_of_le byte.isLt (Nat.pow_le_pow_right (by decide) hfits) (by decide)
    have hbyte : byte.toNat % 2 ^ 32 = byte.toNat :=
      Nat.mod_eq_of_lt (Nat.lt_of_lt_of_le byte.isLt (by decide))
    rw [BitVec.toNat_shiftLeft, Nat.shiftLeft_eq, BitVec.toNat_setWidth, hbyte]
    exact Nat.mod_eq_of_lt hscaled
  have hfirst := hshift first 24 le_rfl
  have hsecond := hshift second 16 (by decide)
  have hthird := hshift third 8 (by decide)
  have hfourth := hshift fourth 0 (by decide)
  rw [BitVec.shiftLeft_zero] at hfourth
  have hbytes := And.intro second.isLt (And.intro third.isLt fourth.isLt)
  have htop : (first.setWidth 32 <<< 24 ||| second.setWidth 32 <<< 16).toNat = _ :=
    toNat_or_of_dvd 24 (by omega) (by omega)
  have hmiddle : (first.setWidth 32 <<< 24 ||| second.setWidth 32 <<< 16 |||
      third.setWidth 32 <<< 8).toNat = _ := toNat_or_of_dvd 16 (by omega) (by omega)
  rw [toNat_or_of_dvd 8 (by omega) (by omega), hmiddle, htop, hfirst, hsecond, hthird, hfourth]
  simp only [decode, List.foldl_cons, List.foldl_nil]
  ring

end Sketchbook.Foundation.BigEndian
