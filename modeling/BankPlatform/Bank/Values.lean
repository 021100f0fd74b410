import Mathlib.Data.Fin.Basic
import Mathlib.Order.Fin.Basic
import BankPlatform.Library.JsNumber

/-!
# Values of the banking domain

Ids, amounts of money and the errors that the services throw.

## Main definitions

* `Uuid` — a UUID by its value; `Uuid.text` is the spelling that the database returns.
* `PositiveCents`, `NonNegativeCents` — the amounts that the request schemas accept.
* `ErrorCode`, `AppError` — the error classes of `errors.ts`.
-/

namespace BankPlatform.Bank

open Library

instance uuidCount_neZero : NeZero (2 ^ 128 : ℕ) := ⟨by decide⟩

/-- A UUID, compared and sorted by value as its canonical spelling is. -/
structure Uuid where
  value : Fin (2 ^ 128)
  deriving DecidableEq

namespace Uuid

theorem value_injective : Function.Injective value := fun ⟨_⟩ ⟨_⟩ h => congrArg _ h

instance : LinearOrder Uuid := LinearOrder.lift' value value_injective

/-- A lower-case hexadecimal digit. -/
def hexDigit (n : ℕ) : Char := if n < 10 then Char.ofNat (48 + n) else Char.ofNat (87 + n)

/-- The lowest `count` hexadecimal digits of `n`, most significant first. -/
def hexDigits : (count n : ℕ) → List Char
  | 0, _ => []
  | count + 1, n => hexDigits count (n / 16) ++ [hexDigit (n % 16)]

/-- The canonical lower-case spelling, dashes after digits 8, 12, 16 and 20. -/
def chars (u : Uuid) : List Char :=
  let digits := hexDigits 32 u.value
  digits.take 8 ++ '-' :: (digits.drop 8).take 4 ++ '-' :: (digits.drop 12).take 4 ++
    '-' :: (digits.drop 16).take 4 ++ '-' :: digits.drop 20

def text (u : Uuid) : String := String.ofList u.chars

theorem hexDigit_injective : ∀ a < 16, ∀ b < 16, hexDigit a = hexDigit b → a = b := by
  decide

@[simp] theorem length_hexDigits (count n : ℕ) : (hexDigits count n).length = count := by
  induction count generalizing n with
  | zero => rfl
  | succ count ih => simp [hexDigits, ih]

theorem hexDigits_injective {count a b : ℕ} (ha : a < 16 ^ count) (hb : b < 16 ^ count)
    (h : hexDigits count a = hexDigits count b) : a = b := by
  induction count generalizing a b with
  | zero => omega
  | succ count ih =>
    obtain ⟨hrest, hlast⟩ := List.append_inj h (by simp)
    have hdiv : a / 16 = b / 16 := ih (by omega) (by omega) hrest
    have hmod : a % 16 = b % 16 :=
      hexDigit_injective _ (by omega) _ (by omega) (by simpa using hlast)
    omega

@[simp] theorem length_chars (u : Uuid) : u.chars.length = 36 := by
  simp [chars]

theorem chars_injective : Function.Injective chars := by
  intro u v h
  simp only [chars, List.append_assoc, List.cons_append] at h
  obtain ⟨h₁, h⟩ := List.append_inj h (by simp)
  obtain ⟨h₂, h⟩ := List.append_inj (List.cons.inj h).2 (by simp)
  obtain ⟨h₃, h⟩ := List.append_inj (List.cons.inj h).2 (by simp)
  obtain ⟨h₄, h⟩ := List.append_inj (List.cons.inj h).2 (by simp)
  have h₅ := (List.cons.inj h).2
  -- the five groups together are all digits
  have groups : ∀ l : List Char, l = l.take 8 ++ ((l.drop 8).take 4 ++ ((l.drop 12).take 4 ++
      ((l.drop 16).take 4 ++ l.drop 20))) := by
    intro l
    have regroup : ∀ n, (l.drop n).take 4 ++ l.drop (n + 4) = l.drop n := fun n => by
      rw [← List.drop_drop, List.take_append_drop]
    rw [regroup 16, regroup 12, regroup 8, List.take_append_drop]
  have hdigits : hexDigits 32 u.value = hexDigits 32 v.value := by
    rw [groups (hexDigits 32 u.value), groups (hexDigits 32 v.value), h₁, h₂, h₃, h₄, h₅]
  have hu : (u.value : ℕ) < 16 ^ 32 := u.value.isLt.trans_eq (by norm_num)
  have hv : (v.value : ℕ) < 16 ^ 32 := v.value.isLt.trans_eq (by norm_num)
  exact value_injective (Fin.ext (hexDigits_injective hu hv hdigits))

end Uuid

/-- Milliseconds since the epoch. -/
abbrev Date := ℕ

/-- What `positiveCents` accepts. -/
structure PositiveCents where
  cents : ℕ
  positive : 0 < cents
  safe : cents ≤ JsNumber.maxSafeInteger
  deriving DecidableEq

theorem PositiveCents.cents_injective : Function.Injective PositiveCents.cents :=
  fun ⟨_, _, _⟩ ⟨_, _, _⟩ h => by cases h; rfl

/-- What `nonNegativeCents` accepts. -/
structure NonNegativeCents where
  cents : ℕ
  safe : cents ≤ JsNumber.maxSafeInteger
  deriving DecidableEq

inductive ErrorCode where
  | VALIDATION_ERROR
  | UNAUTHORIZED
  | INVALID_CREDENTIALS
  | EMAIL_TAKEN
  | NOT_FOUND
  | CUSTOMER_NOT_FOUND
  | ACCOUNT_NOT_FOUND
  | TRANSFER_NOT_FOUND
  | LOCK_NOT_FOUND
  | LOCK_ALREADY_RELEASED
  | IDEMPOTENCY_KEY_REUSED
  | ACCOUNT_LOCKED
  | INSUFFICIENT_FUNDS
  | SAME_ACCOUNT
  | SERVICE_UNAVAILABLE
  | INTERNAL_ERROR
  deriving DecidableEq, Repr

def ErrorCode.text : ErrorCode → String
  | .VALIDATION_ERROR => "VALIDATION_ERROR"
  | .UNAUTHORIZED => "UNAUTHORIZED"
  | .INVALID_CREDENTIALS => "INVALID_CREDENTIALS"
  | .EMAIL_TAKEN => "EMAIL_TAKEN"
  | .NOT_FOUND => "NOT_FOUND"
  | .CUSTOMER_NOT_FOUND => "CUSTOMER_NOT_FOUND"
  | .ACCOUNT_NOT_FOUND => "ACCOUNT_NOT_FOUND"
  | .TRANSFER_NOT_FOUND => "TRANSFER_NOT_FOUND"
  | .LOCK_NOT_FOUND => "LOCK_NOT_FOUND"
  | .LOCK_ALREADY_RELEASED => "LOCK_ALREADY_RELEASED"
  | .IDEMPOTENCY_KEY_REUSED => "IDEMPOTENCY_KEY_REUSED"
  | .ACCOUNT_LOCKED => "ACCOUNT_LOCKED"
  | .INSUFFICIENT_FUNDS => "INSUFFICIENT_FUNDS"
  | .SAME_ACCOUNT => "SAME_ACCOUNT"
  | .SERVICE_UNAVAILABLE => "SERVICE_UNAVAILABLE"
  | .INTERNAL_ERROR => "INTERNAL_ERROR"

/-- The classes derived from `AppError`. -/
inductive ErrorClass where
  | UnauthorizedError
  | NotFoundError
  | ConflictError
  | UnprocessableError
  deriving DecidableEq, Repr

def ErrorClass.status : ErrorClass → ℕ
  | .UnauthorizedError => 401
  | .NotFoundError => 404
  | .ConflictError => 409
  | .UnprocessableError => 422

structure AppError where
  cls : ErrorClass
  code : ErrorCode
  message : String
  details : List (String × String) := []
  deriving DecidableEq

/-- What a call rejects with: an `AppError`, or any other error by its message. -/
inductive Thrown where
  | app (err : AppError)
  | error (message : String)
  deriving DecidableEq

/-- `transferFailureError` of `executor.ts`. -/
def transferFailureError (reason : ErrorCode) (transferId : Uuid) : AppError :=
  let details := [("transferId", transferId.text)]
  match reason with
  | .INSUFFICIENT_FUNDS =>
    ⟨.UnprocessableError, .INSUFFICIENT_FUNDS,
      "The source account balance is lower than the transfer amount", details⟩
  | .ACCOUNT_LOCKED =>
    ⟨.UnprocessableError, .ACCOUNT_LOCKED,
      "One of the accounts is locked; the transfer was rejected", details⟩
  | reason =>
    ⟨.UnprocessableError, .INSUFFICIENT_FUNDS, "Transfer failed: " ++ reason.text, details⟩

/-- The error of every lookup of an account that does not exist. -/
def accountNotFound (accountId : Uuid) : AppError :=
  ⟨.NotFoundError, .ACCOUNT_NOT_FOUND, "Account " ++ accountId.text ++ " does not exist", []⟩

def customerNotFound (customerId : Uuid) : AppError :=
  ⟨.NotFoundError, .CUSTOMER_NOT_FOUND, "Customer " ++ customerId.text ++ " does not exist", []⟩

def lockNotFound (lockId : Uuid) : AppError :=
  ⟨.NotFoundError, .LOCK_NOT_FOUND, "Lock " ++ lockId.text ++ " does not exist on this account", []⟩

def lockAlreadyReleased (lockId : Uuid) : AppError :=
  ⟨.ConflictError, .LOCK_ALREADY_RELEASED, "Lock " ++ lockId.text ++ " was already released", []⟩

end BankPlatform.Bank
