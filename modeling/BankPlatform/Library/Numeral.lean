import BankPlatform.Library.BigEndian
import Mathlib.Tactic.IntervalCases

/-!
# Numerals

Decimal texts of numbers, and hexadecimal texts of bytes: two digits for each byte, in lower case.
-/

namespace BankPlatform.Library.Numeral

/-! ## Decimal -/

/-- The number that a text of decimal digits spells. -/
def decimal? (s : String) : Option ℕ :=
  if s.toList ≠ [] ∧ s.toList.all Char.isDigit then some (Nat.ofDigitChars 10 s.toList 0) else none

theorem decimal?_toString (n : ℕ) : decimal? (toString n) = some n := by
  have hchars : (toString n).toList = Nat.toDigits 10 n := Nat.toList_repr
  have hdigits : (Nat.toDigits 10 n).all Char.isDigit = true := by
    rw [List.all_eq_true]
    intro c hc
    exact Nat.isDigit_of_mem_toDigits (by decide) le_rfl hc
  rw [decimal?, hchars, if_pos ⟨Nat.toDigits_ne_nil, hdigits⟩,
    Nat.ofDigitChars_toDigits (by decide) le_rfl]

theorem toString_injective : Function.Injective (toString : ℕ → String) := by
  intro a b h
  have hread := congrArg decimal? h
  rw [decimal?_toString, decimal?_toString] at hread
  exact Option.some.inj hread

/-! ## Hexadecimal -/

/-- The digits of a byte. -/
def byteDigits (b : UInt8) : List Char := [Nat.digitChar (b.toNat / 16), Nat.digitChar (b.toNat % 16)]

/-- `buffer.toString('hex')`. -/
def hex (bytes : Bytes) : String := String.ofList (bytes.flatMap byteDigits)

def hexDigit? (c : Char) : Option ℕ :=
  if '0' ≤ c ∧ c ≤ '9' then some (c.toNat - 48)
  else if 'a' ≤ c ∧ c ≤ 'f' then some (c.toNat - 87)
  else none

/-- The bytes that pairs of digits stand for. -/
def bytes? : List Char → Option Bytes
  | [] => some []
  | [_] => none
  | high :: low :: rest => do
    let h ← hexDigit? high
    let l ← hexDigit? low
    return UInt8.ofNat (16 * h + l) :: (← bytes? rest)

/-- The bytes that a text spells. -/
def hex? (s : String) : Option Bytes := bytes? s.toList

theorem hexDigit?_digitChar {n : ℕ} (h : n < 16) : hexDigit? (Nat.digitChar n) = some n := by
  interval_cases n <;> rfl

theorem bytes?_byteDigits (b : UInt8) (cs : List Char) :
    bytes? (byteDigits b ++ cs) = (bytes? cs).map (b :: ·) := by
  have hlt := b.toNat_lt
  have hhigh := hexDigit?_digitChar (n := b.toNat / 16) (by omega)
  have hlow := hexDigit?_digitChar (n := b.toNat % 16) (by omega)
  have hbyte : UInt8.ofNat (16 * (b.toNat / 16) + b.toNat % 16) = b := by
    rw [Nat.div_add_mod]
    exact UInt8.ofNat_toNat
  rw [byteDigits, List.cons_append, List.cons_append, List.nil_append, bytes?, hhigh, hlow]
  simp only [Option.bind_eq_bind, Option.bind_some, Option.pure_def, hbyte]
  cases bytes? cs <;> rfl

/-- The bytes are read back. -/
theorem hex?_hex (bytes : Bytes) : hex? (hex bytes) = some bytes := by
  rw [hex?, hex, String.toList_ofList]
  induction bytes with
  | nil => rfl
  | cons b bytes ih => rw [List.flatMap_cons, bytes?_byteDigits, ih, Option.map_some]

end BankPlatform.Library.Numeral
