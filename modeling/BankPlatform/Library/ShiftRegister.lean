import Mathlib.Algebra.BigOperators.Group.Finset.Basic
import Mathlib.Algebra.Field.ZMod
import Mathlib.Logic.Function.Iterate

/-!
# Linear feedback shift registers

A register takes in bits and is shifted by one place for each, to the right; a one that falls out
is fed back as a fixed pattern of bits. This is the division of polynomials behind a cyclic
redundancy check, in reflected form: what is left in the register is the check.

## Main definitions

* `ShiftRegister.run` — what is left after a list of bits.

## Main results

* `run_ne_of_burst` — flipping bits within the width of the register changes what is left.
* `run_ne_of_odd` — so does flipping an odd number of bits, if the pattern is odd.
-/

namespace BankPlatform.Library.ShiftRegister

open Finset

variable {w : ℕ} (poly : BitVec w)

/-- One place to the right, with feedback. -/
def shift (s : BitVec w) : BitVec w := if s.getLsbD 0 then (s >>> 1) ^^^ poly else s >>> 1

/-- A word with one bit in the lowest place. -/
def bit (b : Bool) : BitVec w := (BitVec.ofBool b).setWidth w

/-- Take in one bit. -/
def feed (s : BitVec w) (b : Bool) : BitVec w := shift poly (s ^^^ bit b)

/-- What is left of an empty register after some bits. -/
def run (bits : List Bool) : BitVec w := bits.foldl (feed poly) 0#w

/-! ## Linearity -/

theorem shift_xor (s t : BitVec w) : shift poly (s ^^^ t) = shift poly s ^^^ shift poly t := by
  unfold shift
  rw [BitVec.getLsbD_xor, BitVec.ushiftRight_xor_distrib]
  cases s.getLsbD 0 <;> cases t.getLsbD 0 <;> ext i hi <;> simp <;> grind

@[simp] theorem shift_zero : shift poly 0#w = 0#w := by simp [shift]

theorem bit_xor (b c : Bool) : (bit (b ^^ c) : BitVec w) = bit b ^^^ bit c := by
  ext i hi
  cases b <;> cases c <;> simp [bit]

@[simp] theorem bit_false : (bit false : BitVec w) = 0#w := by
  ext i hi
  simp [bit]

theorem feed_xor (s t : BitVec w) (b c : Bool) :
    feed poly (s ^^^ t) (b ^^ c) = feed poly s b ^^^ feed poly t c := by
  rw [feed, feed, feed, bit_xor, ← shift_xor]
  congr 1
  ac_rfl

theorem foldl_feed_xor {l l' : List Bool} (hlength : l.length = l'.length) (s t : BitVec w) :
    (List.zipWith xor l l').foldl (feed poly) (s ^^^ t) =
      l.foldl (feed poly) s ^^^ l'.foldl (feed poly) t := by
  induction l generalizing l' s t with
  | nil =>
    obtain rfl := List.length_eq_zero_iff.mp hlength.symm
    rfl
  | cons b l ih =>
    cases l' with
    | nil => cases hlength
    | cons c l' =>
      rw [List.zipWith_cons_cons, List.foldl_cons, List.foldl_cons, List.foldl_cons, feed_xor]
      exact ih (Nat.succ.inj hlength) _ _

/-- Two lists leave the same exactly if the places where they differ leave nothing. -/
theorem run_eq_iff {l l' : List Bool} (hlength : l.length = l'.length) :
    run poly l = run poly l' ↔ run poly (List.zipWith xor l l') = 0#w := by
  have hxor := foldl_feed_xor poly hlength 0#w 0#w
  rw [BitVec.xor_self] at hxor
  rw [run, run, run, hxor]
  constructor
  · intro h
    rw [h, BitVec.xor_self]
  · intro h
    exact BitVec.xor_eq_zero_iff.mp h

/-- Different lists differ somewhere. -/
theorem true_mem_zipWith_xor {l l' : List Bool} (hlength : l.length = l'.length) (hne : l ≠ l') :
    true ∈ List.zipWith xor l l' := by
  induction l generalizing l' with
  | nil => exact absurd (List.length_eq_zero_iff.mp hlength.symm).symm hne
  | cons b l ih =>
    cases l' with
    | nil => cases hlength
    | cons c l' =>
      rw [List.zipWith_cons_cons, List.mem_cons]
      by_cases hfirst : b = c
      · subst hfirst
        exact .inr (ih (Nat.succ.inj hlength) fun hrest => hne (hrest ▸ rfl))
      · left
        cases b <;> cases c <;> simp_all

/-! ## Bursts -/

/-- A list of bits as a word, lowest place first. -/
def word (bits : List Bool) : BitVec w := (BitVec.ofBoolListLE bits).setWidth w

theorem getLsbD_word (bits : List Bool) (i : ℕ) :
    (word bits : BitVec w).getLsbD i = (decide (i < w) && bits.getD i false) := by
  rw [word, BitVec.getLsbD_setWidth, BitVec.getLsbD_ofBoolListLE]

/-- Bits that fit in the register can be taken in at once. -/
theorem foldl_feed_eq_iterate {bits : List Bool} (hbits : bits.length ≤ w) (s : BitVec w) :
    bits.foldl (feed poly) s = (shift poly)^[bits.length] (s ^^^ word bits) := by
  induction bits generalizing s with
  | nil =>
    have hword : (word [] : BitVec w) = 0#w := by
      apply BitVec.eq_of_getLsbD_eq
      intro i _
      rw [getLsbD_word]
      simp
    simp [hword]
  | cons b bits ih =>
    have hlength : bits.length < w := hbits
    have hrest : shift poly (word bits <<< 1) = word bits := by
      have hlow : (word bits <<< 1 : BitVec w).getLsbD 0 = false := by simp
      rw [shift, hlow, if_neg Bool.false_ne_true]
      apply BitVec.eq_of_getLsbD_eq
      intro i hi
      simp only [BitVec.getLsbD_ushiftRight, BitVec.getLsbD_shiftLeft, getLsbD_word]
      -- the top place is free
      by_cases hlast : 1 + i < w
      · simp [hlast, hi]
      · have hnone : bits[i]? = none := List.getElem?_eq_none (by omega)
        simp [hlast, hnone]
    have hword : (word (b :: bits) : BitVec w) = bit b ^^^ word bits <<< 1 := by
      apply BitVec.eq_of_getLsbD_eq
      intro i hi
      rw [BitVec.getLsbD_xor, BitVec.getLsbD_shiftLeft, getLsbD_word, getLsbD_word, bit]
      cases i with
      | zero => simp [hi]
      | succ i =>
        have hlow : i < w := by omega
        simp [hi, hlow]
    rw [List.foldl_cons, ih hlength.le, feed, List.length_cons, Function.iterate_succ_apply, hword,
      ← BitVec.xor_assoc, shift_xor poly (s ^^^ bit b), hrest]

theorem foldl_feed_false {bits : List Bool} (h : ∀ b ∈ bits, b = false) (s : BitVec w) :
    bits.foldl (feed poly) s = (shift poly)^[bits.length] s := by
  induction bits generalizing s with
  | nil => rfl
  | cons b bits ih =>
    obtain rfl := h b List.mem_cons_self
    rw [List.foldl_cons, ih fun b hb => h b (List.mem_cons_of_mem _ hb), feed, bit_false,
      BitVec.xor_zero, List.length_cons, Function.iterate_succ_apply]

variable {poly}

/-- With feedback into the highest place no information is lost. -/
theorem shift_eq_zero_iff (hpoly : poly.msb = true) {s : BitVec w} :
    shift poly s = 0#w ↔ s = 0#w := by
  refine ⟨fun h => ?_, fun h => h ▸ shift_zero poly⟩
  unfold shift at h
  split at h
  next hlow =>
    -- what is fed back shows at the top
    have hmsb := congrArg BitVec.msb h
    rw [BitVec.msb_xor, hpoly, BitVec.msb_ushiftRight] at hmsb
    simp at hmsb
  next hlow =>
    apply BitVec.eq_of_getLsbD_eq
    intro i hi
    cases i with
    | zero => simpa using hlow
    | succ i =>
      have hbit := congrArg (fun s : BitVec w => s.getLsbD i) h
      simpa [Nat.add_comm] using hbit

theorem iterate_shift_eq_zero_iff (hpoly : poly.msb = true) (n : ℕ) {s : BitVec w} :
    (shift poly)^[n] s = 0#w ↔ s = 0#w := by
  induction n generalizing s with
  | zero => rfl
  | succ n ih => rw [Function.iterate_succ_apply, ih, shift_eq_zero_iff hpoly]

/-- Ones within the width of the register leave something. -/
theorem run_ne_zero_of_burst (hpoly : poly.msb = true) {flips : List Bool} (hflips : true ∈ flips)
    {i : ℕ} (hburst : ∀ j, flips[j]? = some true → i ≤ j ∧ j < i + w) : run poly flips ≠ 0#w := by
  set burst := (flips.drop i).take w with hdef
  have hparts : flips = flips.take i ++ (burst ++ flips.drop (i + w)) := by
    rw [hdef, ← List.drop_drop, List.take_append_drop, List.take_append_drop]
  have hbefore : ∀ b ∈ flips.take i, b = false := by
    intro b hb
    obtain ⟨j, hj⟩ := List.mem_iff_getElem?.mp hb
    rw [List.getElem?_take] at hj
    cases b with
    | false => rfl
    | true =>
      split at hj
      next hlt =>
        have hplace := hburst _ hj
        omega
      next => cases hj
  have hafter : ∀ b ∈ flips.drop (i + w), b = false := by
    intro b hb
    obtain ⟨j, hj⟩ := List.mem_iff_getElem?.mp hb
    rw [List.getElem?_drop] at hj
    cases b with
    | false => rfl
    | true =>
      have hplace := hburst _ hj
      omega
  have hlength : burst.length ≤ w := List.length_take_le _ _
  have hmem : true ∈ burst := by
    rw [hparts] at hflips
    rcases List.mem_append.mp hflips with hmem | hmem
    · cases hbefore true hmem
    · rcases List.mem_append.mp hmem with hmem | hmem
      · exact hmem
      · cases hafter true hmem
  have hword : (word burst : BitVec w) ≠ 0#w := by
    intro hzero
    obtain ⟨j, hj⟩ := List.mem_iff_getElem?.mp hmem
    have hlt : j < w := (List.getElem?_eq_some_iff.mp hj).1.trans_le hlength
    have hbit := congrArg (fun s : BitVec w => s.getLsbD j) hzero
    simp only [getLsbD_word, List.getD_eq_getElem?_getD, hj, hlt] at hbit
    simp at hbit
  rw [run, hparts, List.foldl_append, List.foldl_append, foldl_feed_false poly hbefore,
    foldl_feed_eq_iterate poly hlength, foldl_feed_false poly hafter, Ne,
    iterate_shift_eq_zero_iff hpoly, iterate_shift_eq_zero_iff hpoly,
    (iterate_shift_eq_zero_iff hpoly _).mpr rfl, BitVec.zero_xor]
  exact hword

/-- Flipping bits within the width of the register changes what is left. -/
theorem run_ne_of_burst (hpoly : poly.msb = true) {l l' : List Bool} (hlength : l.length = l'.length)
    (hne : l ≠ l') {i : ℕ}
    (hburst : ∀ j, (List.zipWith xor l l')[j]? = some true → i ≤ j ∧ j < i + w) :
    run poly l ≠ run poly l' := by
  intro h
  exact run_ne_zero_of_burst hpoly (true_mem_zipWith_xor hlength hne) hburst
    ((run_eq_iff poly hlength).mp h)

/-! ## Parity -/

/-- A bit as a number modulo two. -/
def digit (b : Bool) : ZMod 2 := if b then 1 else 0

theorem digit_xor (b c : Bool) : digit (b ^^ c) = digit b + digit c := by
  revert b c
  decide

/-- The number of ones of a word, modulo two. -/
def weight (s : BitVec w) : ZMod 2 := ∑ i ∈ range w, digit (s.getLsbD i)

@[simp] theorem weight_zero : weight 0#w = 0 := by simp [weight, digit]

theorem weight_xor (s t : BitVec w) : weight (s ^^^ t) = weight s + weight t := by
  simp only [weight, BitVec.getLsbD_xor, digit_xor, sum_add_distrib]

theorem weight_bit (hw : 0 < w) (b : Bool) : weight (bit b : BitVec w) = digit b := by
  rw [weight, sum_eq_single_of_mem 0 (mem_range.mpr hw)]
  · simp [bit, hw]
  · intro i _ hi
    simp [bit, hi, digit]

/-- A one that falls out is replaced by an odd number of ones. -/
theorem weight_shift (hodd : weight poly = 1) (s : BitVec w) : weight (shift poly s) = weight s := by
  have hshift : weight (s >>> 1) + digit (s.getLsbD 0) = weight s := by
    have htop : digit (s.getLsbD w) = 0 := by simp [digit]
    calc weight (s >>> 1) + digit (s.getLsbD 0)
        = ∑ i ∈ range (w + 1), digit (s.getLsbD i) := by
          rw [sum_range_succ', weight]
          simp [Nat.add_comm]
      _ = weight s := by rw [sum_range_succ, htop, add_zero, weight]
  unfold shift
  split
  next hlow => rw [weight_xor, hodd, ← hshift, hlow, digit, if_pos rfl]
  next hlow =>
    rw [Bool.not_eq_true] at hlow
    rw [← hshift, hlow, digit, if_neg Bool.false_ne_true, add_zero]

theorem weight_foldl_feed (hw : 0 < w) (hodd : weight poly = 1) (bits : List Bool) (s : BitVec w) :
    weight (bits.foldl (feed poly) s) = weight s + (bits.count true : ℕ) := by
  induction bits generalizing s with
  | nil => simp
  | cons b bits ih =>
    rw [List.foldl_cons, ih, feed, weight_shift hodd, weight_xor, weight_bit hw]
    cases b with
    | false => simp [digit]
    | true =>
      simp only [digit, if_true, List.count_cons_self]
      rw [Nat.cast_add, Nat.cast_one, add_assoc, add_comm (1 : ZMod 2)]

/-- Flipping an odd number of bits changes what is left. -/
theorem run_ne_of_odd (hw : 0 < w) (hpoly : weight poly = 1) {l l' : List Bool}
    (hlength : l.length = l'.length) (hodd : Odd ((List.zipWith xor l l').count true)) :
    run poly l ≠ run poly l' := by
  intro h
  have hzero := congrArg weight ((run_eq_iff poly hlength).mp h)
  rw [run, weight_foldl_feed hw hpoly, weight_zero, zero_add] at hzero
  have heven := (ZMod.natCast_eq_zero_iff_even).mp hzero
  exact Nat.not_even_iff_odd.mpr hodd heven

end BankPlatform.Library.ShiftRegister
