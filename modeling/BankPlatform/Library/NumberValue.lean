import Mathlib.Algebra.Order.Ring.Rat
import Mathlib.Data.Nat.Cast.Order.Ring
import Mathlib.Order.WithBot

/-!
# The order of JavaScript numbers

A number is a fraction, an infinity or `NaN`. Every comparison with `NaN` is false, and the larger
of two numbers is `NaN` if one of them is.
-/

namespace BankPlatform.Library

/-- A JavaScript number: a fraction or an infinity, or `none` for `NaN`. -/
abbrev NumberValue := Option (WithBot (WithTop ℚ))

namespace NumberValue

def ofRat (q : ℚ) : NumberValue := some ((q : WithTop ℚ) : WithBot (WithTop ℚ))

def ofNat (n : ℕ) : NumberValue := ofRat n

/-- `a < b`. -/
def less (a b : NumberValue) : Bool := a.any fun x => b.any fun y => decide (x < y)

/-- `Math.max(a, b)`. -/
def larger (a b : NumberValue) : NumberValue := a.bind fun x => b.map fun y => max x y

@[simp] theorem less_ofRat {p q : ℚ} : less (ofRat p) (ofRat q) = decide (p < q) := by
  simp [less, ofRat]

@[simp] theorem less_ofNat {m n : ℕ} : less (ofNat m) (ofNat n) = decide (m < n) := by
  simp [ofNat]

theorem less_larger_left {a b c : NumberValue} (hb : b ≠ none) (h : less c a = true) :
    less c (larger a b) = true := by
  obtain ⟨y, rfl⟩ := Option.ne_none_iff_exists'.mp hb
  cases a with
  | none => simp [less] at h
  | some x =>
    cases c with
    | none => simp [less] at h
    | some z =>
      have hlt : z < x := by simpa [less] using h
      simp [less, larger, hlt]

/-- What is less than a bound that a number does not stay below is less than the number. -/
theorem less_larger_right {a b c d : NumberValue} (ha : a ≠ none) (hb : b ≠ none)
    (h : less c d = true) (hd : less b d = false) : less c (larger a b) = true := by
  obtain ⟨x, rfl⟩ := Option.ne_none_iff_exists'.mp ha
  obtain ⟨y, rfl⟩ := Option.ne_none_iff_exists'.mp hb
  cases c with
  | none => simp [less] at h
  | some z =>
    cases d with
    | none => simp [less] at h
    | some w =>
      have hzw : z < w := by simpa [less] using h
      have hwy : w ≤ y := by simpa [less] using hd
      have hlt : z < max x y := lt_max_of_lt_right (hzw.trans_le hwy)
      simpa [less, larger] using hlt

end NumberValue

end BankPlatform.Library
