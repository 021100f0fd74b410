import Mathlib.Algebra.Order.Group.Int
import Mathlib.Data.Nat.Log
import Mathlib.Data.Rat.Floor
import Mathlib.Tactic.Linarith
import Mathlib.Tactic.NormNum
import Mathlib.Tactic.Ring

/-!
# JavaScript numbers

A JavaScript number has a 53-bit significand. `JsNumber.ofNat` is the number that a larger integer
is rounded to, to the nearest one and to an even significand on a tie. A product with a fraction is
rounded in the same way, as long as it is not too small for a full significand.
-/

namespace BankPlatform.Library.JsNumber

/-- `Number.MAX_SAFE_INTEGER`. -/
def maxSafeInteger : ℕ := 2 ^ 53 - 1

/-- The distance between neighbouring numbers at the magnitude of `n`. -/
def ulp (n : ℕ) : ℕ := 2 ^ (Nat.log2 n - 52)

/-- The number nearest to a natural. -/
def ofNat (n : ℕ) : ℕ :=
  if n ≤ 2 ^ 53 then n
  else
    let q := n / ulp n
    let r := n % ulp n
    if 2 * r < ulp n ∨ (2 * r = ulp n ∧ q % 2 = 0) then q * ulp n else (q + 1) * ulp n

/-- The number nearest to an integer. -/
def ofInt (n : ℤ) : ℤ := if n < 0 then -(ofNat n.natAbs) else ofNat n.natAbs

theorem ofNat_of_le {n : ℕ} (h : n ≤ 2 ^ 53) : ofNat n = n := if_pos h

theorem ofNat_of_lt {n : ℕ} (h : 2 ^ 53 < n) :
    ofNat n = if 2 * (n % ulp n) < ulp n ∨ (2 * (n % ulp n) = ulp n ∧ n / ulp n % 2 = 0) then
      n / ulp n * ulp n else (n / ulp n + 1) * ulp n :=
  if_neg (not_le.mpr h)

theorem ulp_pos (n : ℕ) : 0 < ulp n := Nat.two_pow_pos _

/-- Above the exact integers the significand takes its 53 bits. -/
theorem significand_bounds {n : ℕ} (h : 2 ^ 53 < n) :
    2 ^ Nat.log2 n ≤ n / ulp n * ulp n ∧ (n / ulp n + 1) * ulp n ≤ 2 ^ (Nat.log2 n + 1) := by
  have hlog : 53 ≤ Nat.log2 n := (Nat.le_log2 (by omega)).mpr h.le
  have hlow : 2 ^ 52 * ulp n = 2 ^ Nat.log2 n := by
    rw [ulp, ← pow_add]
    congr 1
    omega
  have hhigh : 2 ^ 53 * ulp n = 2 ^ (Nat.log2 n + 1) := by
    rw [ulp, ← pow_add]
    congr 1
    omega
  constructor
  · rw [← hlow]
    refine Nat.mul_le_mul_right _ ((Nat.le_div_iff_mul_le (ulp_pos n)).mpr ?_)
    rw [hlow]
    exact Nat.log2_self_le (by omega)
  · rw [← hhigh]
    refine Nat.mul_le_mul_right _ (Nat.succ_le_of_lt ((Nat.div_lt_iff_lt_mul (ulp_pos n)).mpr ?_))
    rw [hhigh]
    exact Nat.lt_log2_self

/-- A number above the exact integers is rounded to a neighbouring multiple of the distance. -/
theorem ofNat_bounds {n : ℕ} (h : 2 ^ 53 < n) :
    n / ulp n * ulp n ≤ ofNat n ∧ ofNat n ≤ (n / ulp n + 1) * ulp n := by
  have hstep : n / ulp n * ulp n ≤ (n / ulp n + 1) * ulp n :=
    Nat.mul_le_mul_right _ (Nat.le_succ _)
  rw [ofNat_of_lt h]
  split
  · exact ⟨le_rfl, hstep⟩
  · exact ⟨hstep, le_rfl⟩

/-- Rounding does not cross the end of the range of exact integers. -/
theorem le_ofNat_of_lt {n : ℕ} (h : 2 ^ 53 < n) : 2 ^ 53 ≤ ofNat n := by
  have hlog : 53 ≤ Nat.log2 n := (Nat.le_log2 (by omega)).mpr h.le
  calc 2 ^ 53 ≤ 2 ^ Nat.log2 n := Nat.pow_le_pow_right (by omega) hlog
    _ ≤ n / ulp n * ulp n := (significand_bounds h).1
    _ ≤ ofNat n := (ofNat_bounds h).1

/-- Rounding keeps the order. -/
theorem ofNat_mono : Monotone ofNat := by
  intro n n' hle
  by_cases hn' : n' ≤ 2 ^ 53
  · rwa [ofNat_of_le hn', ofNat_of_le (hle.trans hn')]
  have hn' : 2 ^ 53 < n' := not_le.mp hn'
  by_cases hn : n ≤ 2 ^ 53
  · rw [ofNat_of_le hn]
    exact hn.trans (le_ofNat_of_lt hn')
  have hn : 2 ^ 53 < n := not_le.mp hn
  have hlog : Nat.log2 n ≤ Nat.log2 n' :=
    (Nat.le_log2 (by omega)).mpr ((Nat.log2_self_le (by omega)).trans hle)
  rcases hlog.lt_or_eq with hlt | heq
  · -- a power of two lies between the two
    calc ofNat n ≤ (n / ulp n + 1) * ulp n := (ofNat_bounds hn).2
      _ ≤ 2 ^ (Nat.log2 n + 1) := (significand_bounds hn).2
      _ ≤ 2 ^ Nat.log2 n' := Nat.pow_le_pow_right (by omega) hlt
      _ ≤ n' / ulp n' * ulp n' := (significand_bounds hn').1
      _ ≤ ofNat n' := (ofNat_bounds hn').1
  · have hulp : ulp n' = ulp n := by rw [ulp, ulp, heq]
    rcases (Nat.div_le_div_right (c := ulp n) hle).lt_or_eq with hlt | heq
    · calc ofNat n ≤ (n / ulp n + 1) * ulp n := (ofNat_bounds hn).2
        _ ≤ n' / ulp n * ulp n := Nat.mul_le_mul_right _ hlt
        _ = n' / ulp n' * ulp n' := by rw [hulp]
        _ ≤ ofNat n' := (ofNat_bounds hn').1
    · -- the same significand before rounding: the larger remainder is rounded up if the smaller is
      have hmod : n % ulp n ≤ n' % ulp n := by
        have hsplit := Nat.div_add_mod n (ulp n)
        have hsplit' := Nat.div_add_mod n' (ulp n)
        rw [heq] at hsplit
        omega
      have hstep : n / ulp n * ulp n ≤ (n / ulp n + 1) * ulp n :=
        Nat.mul_le_mul_right _ (Nat.le_succ _)
      rw [ofNat_of_lt hn, ofNat_of_lt hn', hulp, ← heq]
      by_cases hup : 2 * (n' % ulp n) < ulp n ∨
          2 * (n' % ulp n) = ulp n ∧ n / ulp n % 2 = 0
      · rw [if_pos hup, if_pos (by omega)]
      · rw [if_neg hup]
        split_ifs
        · exact hstep
        · exact le_rfl

theorem ofNat_pos {n : ℕ} (h : 0 < n) : 0 < ofNat n := by
  by_cases hn : n ≤ 2 ^ 53
  · rwa [ofNat_of_le hn]
  · have := le_ofNat_of_lt (not_le.mp hn)
    omega

/-- Comparing the rounded integer with a safe one gives the verdict on the integer itself. -/
theorem ofInt_lt_iff {n : ℤ} {a : ℕ} (ha : a ≤ maxSafeInteger) : ofInt n < a ↔ n < a := by
  have ha' : a < 2 ^ 53 := by
    have : maxSafeInteger < 2 ^ 53 := by decide
    omega
  unfold ofInt
  by_cases hneg : n < 0
  · have := ofNat_pos (Int.natAbs_pos.mpr hneg.ne)
    rw [if_pos hneg]
    omega
  · rw [if_neg hneg]
    obtain ⟨k, rfl⟩ := Int.eq_ofNat_of_zero_le (not_lt.mp hneg)
    simp only [Int.natAbs_natCast, Nat.cast_lt]
    by_cases hk : k ≤ 2 ^ 53
    · rw [ofNat_of_le hk]
    · have := le_ofNat_of_lt (not_le.mp hk)
      omega

theorem ofInt_natCast (n : ℕ) : ofInt n = ofNat n := by
  unfold ofInt
  rw [if_neg (by omega), Int.natAbs_natCast]

theorem ofInt_neg (n : ℤ) : ofInt (-n) = -ofInt n := by
  unfold ofInt
  rw [Int.natAbs_neg]
  rcases lt_trichotomy n 0 with hn | rfl | hn
  · rw [if_neg (by omega), if_pos hn, neg_neg]
  · rfl
  · rw [if_pos (by omega), if_neg (by omega)]

theorem ofInt_mono {n n' : ℤ} (hle : n ≤ n') : ofInt n ≤ ofInt n' := by
  unfold ofInt
  split_ifs with hn hn' hn'
  · have := ofNat_mono (show n'.natAbs ≤ n.natAbs by omega)
    omega
  · omega
  · omega
  · have := ofNat_mono (show n.natAbs ≤ n'.natAbs by omega)
    omega

/-- A number is at most a safe one exactly when the integer that was rounded to it is. -/
theorem ofNat_le_iff {n bound : ℕ} (hbound : bound ≤ maxSafeInteger) :
    ofNat n ≤ bound ↔ n ≤ bound := by
  have hmax : maxSafeInteger + 1 = 2 ^ 53 := by decide
  by_cases hn : n ≤ 2 ^ 53
  · rw [ofNat_of_le hn]
  · have := le_ofNat_of_lt (not_le.mp hn)
    omega

/-! ## Fractions -/

/-- The number `mantissa / 2 ^ shift`. -/
structure Dyadic where
  mantissa : ℕ
  shift : ℕ

/-- The product of an integer and a fraction. -/
def scale (n : ℤ) (s : Dyadic) : ℚ := ofInt (n * s.mantissa) / 2 ^ s.shift

theorem scale_neg (n : ℤ) (s : Dyadic) : scale (-n) s = -scale n s := by
  unfold scale
  rw [neg_mul, ofInt_neg]
  push_cast
  ring

theorem scale_nonneg {n : ℤ} (h : 0 ≤ n) (s : Dyadic) : 0 ≤ scale n s := by
  obtain ⟨k, rfl⟩ := Int.eq_ofNat_of_zero_le h
  rw [scale, ← Nat.cast_mul, ofInt_natCast]
  positivity

theorem scale_mono (s : Dyadic) {n n' : ℤ} (hle : n ≤ n') : scale n s ≤ scale n' s := by
  have hproduct : n * s.mantissa ≤ n' * s.mantissa :=
    mul_le_mul_of_nonneg_right hle (Int.natCast_nonneg _)
  have hround : (ofInt (n * s.mantissa) : ℚ) ≤ ofInt (n' * s.mantissa) :=
    Int.cast_le.mpr (ofInt_mono hproduct)
  exact div_le_div_of_nonneg_right hround (by positivity)

/-- Where a bound lies between two neighbouring multiples, it divides all multiples. -/
theorem scale_le_iff {s : Dyadic} {bound : ℚ} {k : ℤ} (hbelow : scale k s ≤ bound)
    (habove : bound < scale (k + 1) s) (n : ℤ) : scale n s ≤ bound ↔ n ≤ k := by
  constructor
  · intro hn
    by_contra hlt
    have := scale_mono s (show k + 1 ≤ n by omega)
    exact absurd (habove.trans_le (this.trans hn)) (lt_irrefl _)
  · exact fun hn => (scale_mono s hn).trans hbelow

/-- The same with a bound that is kept strictly. -/
theorem scale_lt_iff {s : Dyadic} {bound : ℚ} {k : ℤ} (hbelow : scale k s < bound)
    (habove : bound ≤ scale (k + 1) s) (n : ℤ) : scale n s < bound ↔ n ≤ k := by
  constructor
  · intro hn
    by_contra hlt
    have := scale_mono s (show k + 1 ≤ n by omega)
    exact absurd (habove.trans this) (not_le.mpr hn)
  · exact fun hn => (scale_mono s hn).trans_lt hbelow

/-- The number that `x.toFixed(digits)` shows, in units of its last digit. -/
def toFixed (digits : ℕ) (x : ℚ) : ℤ :=
  if x < 0 then -⌊-x * 10 ^ digits + 1 / 2⌋ else ⌊x * 10 ^ digits + 1 / 2⌋

theorem toFixed_natAbs_lt {digits bound : ℕ} {x : ℚ} (hx : 0 ≤ x) :
    (toFixed digits x).natAbs < bound ↔ x * 10 ^ digits + 1 / 2 < bound := by
  have hnonneg : 0 ≤ ⌊x * 10 ^ digits + 1 / 2⌋ := Int.floor_nonneg.mpr (by positivity)
  rw [toFixed, if_neg (not_lt.mpr hx), ← Int.cast_natCast (R := ℚ) bound, ← Int.floor_lt]
  omega

end BankPlatform.Library.JsNumber
