import Mathlib.Algebra.Order.Ring.Int
import Mathlib.Data.List.Basic
import Mathlib.Tactic.Positivity
import Mathlib.Tactic.Ring
import Mathlib.Tactic.Zify

/-!
# Big-endian numbers

Naturals and two's complement integers as a fixed number of bytes, the most significant byte first.
-/

namespace BankPlatform.Library

abbrev Bytes := List UInt8

namespace BigEndian

/-- The number that some bytes spell. -/
def decode (bs : Bytes) : ℕ := bs.foldl (fun n b => n * 256 + b.toNat) 0

/-- The last `width` bytes of a number. -/
def encode : ℕ → ℕ → Bytes
  | 0, _ => []
  | width + 1, n => encode width (n / 256) ++ [UInt8.ofNat n]

/-- The integer that some bytes spell in two's complement. -/
def decodeSigned (bs : Bytes) : ℤ :=
  if 2 * decode bs < 256 ^ bs.length then decode bs else decode bs - 256 ^ bs.length

/-- The last `width` bytes of an integer in two's complement. -/
def encodeSigned (width : ℕ) (z : ℤ) : Bytes := encode width (z % 256 ^ width).toNat

@[simp] theorem decode_nil : decode [] = 0 := rfl

@[simp] theorem decode_concat (bs : Bytes) (b : UInt8) :
    decode (bs ++ [b]) = decode bs * 256 + b.toNat := by
  simp [decode]

@[simp] theorem length_encode (width n : ℕ) : (encode width n).length = width := by
  induction width generalizing n with
  | zero => rfl
  | succ width ih => simp [encode, ih]

@[simp] theorem length_encodeSigned (width : ℕ) (z : ℤ) : (encodeSigned width z).length = width :=
  length_encode _ _

theorem decode_lt (bs : Bytes) : decode bs < 256 ^ bs.length := by
  induction bs using List.reverseRecOn with
  | nil => decide
  | append_singleton bs b ih =>
    have hb := b.toNat_lt
    rw [decode_concat, List.length_append, List.length_singleton, pow_succ]
    omega

theorem natAbs_decodeSigned_le (bs : Bytes) : 2 * (decodeSigned bs).natAbs ≤ 256 ^ bs.length := by
  have hlt := decode_lt bs
  have hcast : ((256 ^ bs.length : ℕ) : ℤ) = 256 ^ bs.length := by norm_num
  unfold decodeSigned
  rw [← hcast]
  split <;> omega

/-- A number that fits its width is read back. -/
theorem decode_encode {width n : ℕ} (h : n < 256 ^ width) : decode (encode width n) = n := by
  induction width generalizing n with
  | zero =>
    obtain rfl : n = 0 := by simpa using h
    rfl
  | succ width ih =>
    have hdiv : n / 256 < 256 ^ width := by
      rw [Nat.div_lt_iff_lt_mul (by decide), ← pow_succ]
      exact h
    rw [encode, decode_concat, ih hdiv, UInt8.toNat_ofNat']
    omega

/-- An integer that fits its width is read back. -/
theorem decodeSigned_encodeSigned {width : ℕ} {z : ℤ} (hlo : -(256 ^ width) ≤ 2 * z)
    (hhi : 2 * z < 256 ^ width) : decodeSigned (encodeSigned width z) = z := by
  have hpos : (0 : ℤ) < 256 ^ width := by positivity
  have hnonneg := Int.emod_nonneg z hpos.ne'
  have hlt := Int.emod_lt_of_pos z hpos
  have hfits : (z % 256 ^ width).toNat < 256 ^ width := by
    zify
    rwa [Int.toNat_of_nonneg hnonneg]
  have hdecode : (decode (encodeSigned width z) : ℤ) = z % 256 ^ width := by
    rw [encodeSigned, decode_encode hfits, Int.toNat_of_nonneg hnonneg]
  unfold decodeSigned
  rw [length_encodeSigned]
  zify
  rw [hdecode]
  by_cases hz : 0 ≤ z
  · rw [Int.emod_eq_of_lt hz (by omega), if_pos hhi]
  · have hmod : z % 256 ^ width = z + 256 ^ width := by
      rw [← Int.add_emod_right, Int.emod_eq_of_lt (by omega) (by omega)]
    rw [hmod, if_neg (by omega)]
    ring

end BigEndian

end BankPlatform.Library
