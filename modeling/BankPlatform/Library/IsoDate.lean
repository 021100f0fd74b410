import Mathlib.Algebra.Order.Ring.Int
import Mathlib.Data.List.Basic
import Mathlib.Tactic.NormNum
import Mathlib.Tactic.Ring

/-!
# Dates

Time values, in milliseconds since the epoch, in the proleptic Gregorian calendar, and their
ISO 8601 texts. `toISOString` prints a year outside 0 to 9999 with a sign and six digits;
`parse?` reads UTC texts with four digits for the year.

## Main results

* `dayFromYear_yearOfDay` — the year of a day.
* `parse?_toISOString` — exactly the texts with a four-digit year are read, and read back.
-/

namespace BankPlatform.Library.IsoDate

/-! ## The calendar -/

/-- The first day of a year, counted from the epoch. -/
def dayFromYear (y : ℤ) : ℤ := 365 * (y - 1970) + (y - 1969) / 4 - (y - 1901) / 100 + (y - 1601) / 400

def isLeap (y : ℤ) : Bool := y % 4 = 0 && (y % 100 ≠ 0 || y % 400 = 0)

/-- The year of a day: an estimate by the mean length of a year, corrected by at most one. -/
def yearOfDay (day : ℤ) : ℤ :=
  let y := 1970 + day * 400 / 146097
  if dayFromYear (y + 1) ≤ day then y + 1 else if dayFromYear y ≤ day then y else y - 1

/-- The days of a year before a month; month 13 is the end of the year. -/
def daysBefore (leap : Bool) : ℕ → ℕ
  | 0 => 0
  | 1 => 0
  | 2 => 31
  | 3 => 59 + leap.toNat
  | 4 => 90 + leap.toNat
  | 5 => 120 + leap.toNat
  | 6 => 151 + leap.toNat
  | 7 => 181 + leap.toNat
  | 8 => 212 + leap.toNat
  | 9 => 243 + leap.toNat
  | 10 => 273 + leap.toNat
  | 11 => 304 + leap.toNat
  | 12 => 334 + leap.toNat
  | _ => 365 + leap.toNat

def daysInMonth (leap : Bool) (month : ℕ) : ℕ := daysBefore leap (month + 1) - daysBefore leap month

/-- The month of a day of the year. -/
def monthOfDay (leap : Bool) (day : ℕ) : ℕ :=
  if day < daysBefore leap 2 then 1
  else if day < daysBefore leap 3 then 2
  else if day < daysBefore leap 4 then 3
  else if day < daysBefore leap 5 then 4
  else if day < daysBefore leap 6 then 5
  else if day < daysBefore leap 7 then 6
  else if day < daysBefore leap 8 then 7
  else if day < daysBefore leap 9 then 8
  else if day < daysBefore leap 10 then 9
  else if day < daysBefore leap 11 then 10
  else if day < daysBefore leap 12 then 11
  else 12

theorem dayFromYear_succ (y : ℤ) :
    dayFromYear (y + 1) = dayFromYear y + 365 + (isLeap y).toNat := by
  unfold dayFromYear isLeap
  by_cases h4 : y % 4 = 0 <;> by_cases h100 : y % 100 = 0 <;> by_cases h400 : y % 400 = 0 <;>
    simp only [h4, h100, h400, decide_true, decide_false, ne_eq, not_true_eq_false,
      not_false_eq_true, Bool.and_true, Bool.and_false, Bool.or_true, Bool.or_false,
      Bool.toNat_true, Bool.toNat_false] <;> omega

/-- A day lies in its year. -/
theorem dayFromYear_yearOfDay (day : ℤ) :
    dayFromYear (yearOfDay day) ≤ day ∧ day < dayFromYear (yearOfDay day + 1) := by
  unfold yearOfDay
  dsimp only
  split_ifs with h1 h2
  · refine ⟨h1, ?_⟩
    unfold dayFromYear
    omega
  · exact ⟨h2, not_le.mp h1⟩
  · rw [sub_add_cancel]
    refine ⟨?_, not_le.mp h2⟩
    unfold dayFromYear
    omega

/-- A day of the year lies in its month. -/
theorem daysBefore_monthOfDay {leap : Bool} {day : ℕ} (h : day < 365 + leap.toNat) :
    daysBefore leap (monthOfDay leap day) ≤ day ∧
      day < daysBefore leap (monthOfDay leap day + 1) ∧
      1 ≤ monthOfDay leap day ∧ monthOfDay leap day ≤ 12 := by
  fun_cases monthOfDay leap day <;> simp only [daysBefore] at * <;> omega

theorem daysInMonth_le (leap : Bool) {month : ℕ} (h : month ≤ 12) :
    daysInMonth leap month ≤ 31 := by
  have hall : ∀ leap : Bool, ∀ month ≤ 12, daysInMonth leap month ≤ 31 := by decide
  exact hall leap month h

/-! ## Texts -/

/-- The milliseconds of a day. -/
def msPerDay : ℤ := 86400000

def digit (n : ℕ) : Char := Char.ofNat (48 + n % 10)

/-- The last `width` decimal digits of a number. -/
def digits : ℕ → ℕ → List Char
  | 0, _ => []
  | width + 1, n => digits width (n / 10) ++ [digit n]

/-- Four digits, or a sign and six. -/
def yearText (y : ℤ) : List Char :=
  if 0 ≤ y ∧ y ≤ 9999 then digits 4 y.toNat
  else (if y < 0 then '-' else '+') :: digits 6 y.natAbs

/-- `date.toISOString()` of a date whose time value is `t`. -/
def toISOString (t : ℤ) : List Char :=
  let day := t / msPerDay
  let y := yearOfDay day
  let leap := isLeap y
  let dayOfYear := (day - dayFromYear y).toNat
  let month := monthOfDay leap dayOfYear
  let ms := (t % msPerDay).toNat
  yearText y ++ '-' :: digits 2 month ++ '-' :: digits 2 (dayOfYear - daysBefore leap month + 1) ++
    'T' :: digits 2 (ms / 3600000) ++ ':' :: digits 2 (ms / 60000 % 60) ++
    ':' :: digits 2 (ms / 1000 % 60) ++ '.' :: digits 3 (ms % 1000) ++ ['Z']

/-- The number that some digits spell. -/
def number? (cs : List Char) : Option ℕ :=
  if cs.all Char.isDigit then some (cs.foldl (fun n c => n * 10 + (c.toNat - 48)) 0) else none

/-- A number in a range. -/
def field? (cs : List Char) (low high : ℕ) : Option ℕ :=
  (number? cs).filter fun n => low ≤ n && n ≤ high

/-- The milliseconds of a fraction of a second: at least one digit; those after the third are
dropped. -/
def fraction? (cs : List Char) : Option ℕ :=
  if cs = [] then none else (number? cs).bind fun _ => number? ((cs ++ ['0', '0']).take 3)

/-- The seconds, which may be missing, as milliseconds. -/
def seconds? : List Char → Option ℕ
  | [p1] => if p1 = 'Z' then some 0 else none
  | p1 :: s1 :: s2 :: p2 :: rest =>
    if p1 = ':' then do
      let seconds ← field? [s1, s2] 0 59
      if p2 = 'Z' ∧ rest = [] then
        return seconds * 1000
      else if p2 = '.' ∧ rest.getLast? = some 'Z' then
        return seconds * 1000 + (← fraction? rest.dropLast)
      else none
    else none
  | _ => none

/-- The time value of a text `YYYY-MM-DDTHH:mm[:ss[.s+]]Z` that names a day of the calendar. -/
def parse? : List Char → Option ℤ
  | y1 :: y2 :: y3 :: y4 :: p1 :: m1 :: m2 :: p2 :: d1 :: d2 :: p3 ::
      h1 :: h2 :: p4 :: n1 :: n2 :: rest =>
    if [p1, p2, p3, p4] = ['-', '-', 'T', ':'] then do
      let year ← number? [y1, y2, y3, y4]
      let leap := isLeap year
      let month ← field? [m1, m2] 1 12
      let day ← field? [d1, d2] 1 (daysInMonth leap month)
      let hour ← field? [h1, h2] 0 23
      let minute ← field? [n1, n2] 0 59
      let ms ← seconds? rest
      return (dayFromYear year + daysBefore leap month + (day - 1)) * msPerDay +
        hour * 3600000 + minute * 60000 + ms
    else none
  | _ => none

/-! ## Reading back -/

theorem digit_spec (n : ℕ) : (digit n).isDigit = true ∧ (digit n).toNat - 48 = n % 10 := by
  have hall : ∀ k < 10, (Char.ofNat (48 + k)).isDigit = true ∧
      (Char.ofNat (48 + k)).toNat - 48 = k := by decide
  exact hall (n % 10) (Nat.mod_lt _ (by decide))

theorem isDigit_digits (width n : ℕ) : (digits width n).all Char.isDigit = true := by
  induction width generalizing n with
  | zero => rfl
  | succ width ih => simp [digits, ih, digit_spec]

theorem foldl_digits (width n : ℕ) :
    (digits width n).foldl (fun n c => n * 10 + (c.toNat - 48)) 0 = n % 10 ^ width := by
  induction width generalizing n with
  | zero => simp [digits, Nat.mod_one]
  | succ width ih =>
    rw [digits, List.foldl_append, ih, List.foldl_cons, List.foldl_nil, (digit_spec n).2,
      pow_succ', Nat.mod_mul]
    ring

theorem number?_digits (width : ℕ) {n : ℕ} (h : n < 10 ^ width) :
    number? (digits width n) = some n := by
  rw [number?, if_pos (isDigit_digits width n), foldl_digits, Nat.mod_eq_of_lt h]

theorem field?_digits {n low high : ℕ} (hlow : low ≤ n) (hhigh : n ≤ high) (h : n < 100) :
    field? (digits 2 n) low high = some n := by
  rw [field?, number?_digits 2 h]
  simp [hlow, hhigh]

/-- A text with a sign is not read. -/
theorem number?_sign {c : Char} (h : c.isDigit = false) (cs : List Char) :
    number? (c :: cs) = none := by
  rw [number?, if_neg]
  simp [h]

theorem digits_two (n : ℕ) : digits 2 n = [digit (n / 10), digit n] := rfl

theorem seconds?_text (ms : ℕ) :
    seconds? (':' :: digits 2 (ms / 1000 % 60) ++ '.' :: digits 3 (ms % 1000) ++ ['Z']) =
      some (ms % 60000) := by
  have hseconds : field? (digits 2 (ms / 1000 % 60)) 0 59 = some (ms / 1000 % 60) :=
    field?_digits (Nat.zero_le _) (by omega) (by omega)
  have hfraction : fraction? (digits 3 (ms % 1000)) = some (ms % 1000) := by
    have hnumber := number?_digits 3 (n := ms % 1000) (by omega)
    have htake : (digits 3 (ms % 1000) ++ ['0', '0']).take 3 = digits 3 (ms % 1000) := rfl
    rw [fraction?, if_neg (by simp [digits]), hnumber, htake]
    exact hnumber
  rw [digits_two] at hseconds ⊢
  simp only [List.cons_append, List.nil_append, seconds?, if_true, hseconds, List.getLast?_concat,
    List.dropLast_concat, hfraction, Option.bind_eq_bind, Option.bind_some]
  simp
  omega

theorem digits_four (n : ℕ) :
    digits 4 n = [digit (n / 10 / 10 / 10), digit (n / 10 / 10), digit (n / 10), digit n] := rfl

/-- A text is read field by field. -/
theorem parse?_fields (y month day hour minute : ℕ) {ms : ℕ} {rest : List Char} (hy : y ≤ 9999)
    (hmonth : 1 ≤ month ∧ month ≤ 12)
    (hday : 1 ≤ day ∧ day ≤ daysInMonth (isLeap y) month ∧ day < 100) (hhour : hour ≤ 23)
    (hminute : minute ≤ 59) (hms : seconds? rest = some ms) :
    parse? (digits 4 y ++ '-' :: digits 2 month ++ '-' :: digits 2 day ++ 'T' :: digits 2 hour ++
        ':' :: digits 2 minute ++ rest) =
      some ((dayFromYear y + daysBefore (isLeap y) month + (day - 1)) * msPerDay +
        hour * 3600000 + minute * 60000 + ms) := by
  have hy' := number?_digits 4 (n := y) (by omega)
  have hmonth' := field?_digits hmonth.1 hmonth.2 (by omega)
  have hday' := field?_digits hday.1 hday.2.1 hday.2.2
  have hhour' := field?_digits (Nat.zero_le hour) hhour (by omega)
  have hminute' := field?_digits (Nat.zero_le minute) hminute (by omega)
  rw [digits_four] at hy'
  rw [digits_two] at hmonth' hday' hhour' hminute'
  simp only [digits_four, digits_two, List.cons_append, List.nil_append, parse?, if_true, hy',
    hmonth', hday', hhour', hminute', hms, Option.bind_eq_bind, Option.bind_some, Option.pure_def]

/-- The days of the four-digit years. -/
theorem yearOfDay_range (day : ℤ) :
    0 ≤ yearOfDay day ∧ yearOfDay day ≤ 9999 ↔ -719528 ≤ day ∧ day < 2932897 := by
  have hy := dayFromYear_yearOfDay day
  unfold dayFromYear at hy
  omega

/-- Exactly the texts with a four-digit year are read, and they are read back. -/
theorem parse?_toISOString (t : ℤ) :
    parse? (toISOString t) =
      if -62167219200000 ≤ t ∧ t < 253402300800000 then some t else none := by
  set day := t / msPerDay with hday
  have hrange := yearOfDay_range day
  have hyear := dayFromYear_yearOfDay day
  have hsucc := dayFromYear_succ (yearOfDay day)
  set y := yearOfDay day with hy
  set dayOfYear := (day - dayFromYear y).toNat with hdayOfYear
  have hdoy : dayOfYear < 365 + (isLeap y).toNat := by omega
  obtain ⟨hlow, hhigh, hmonth⟩ := daysBefore_monthOfDay hdoy
  set month := monthOfDay (isLeap y) dayOfYear with hmonthdef
  set ms := (t % msPerDay).toNat with hms
  have hmsBound : ms < 86400000 := by
    unfold msPerDay at hms
    omega
  have htext : toISOString t = yearText y ++ '-' :: digits 2 month ++
      '-' :: digits 2 (dayOfYear - daysBefore (isLeap y) month + 1) ++
      'T' :: digits 2 (ms / 3600000) ++ ':' :: digits 2 (ms / 60000 % 60) ++
      (':' :: digits 2 (ms / 1000 % 60) ++ '.' :: digits 3 (ms % 1000) ++ ['Z']) := by
    simp only [toISOString, ← hday, ← hy, ← hdayOfYear, ← hmonthdef, ← hms, List.append_assoc,
      List.cons_append]
  rw [htext]
  by_cases hfour : 0 ≤ y ∧ y ≤ 9999
  · have hcast : (y.toNat : ℤ) = y := Int.toNat_of_nonneg hfour.1
    have hin : -62167219200000 ≤ t ∧ t < 253402300800000 := by
      have := hrange.mp hfour
      unfold msPerDay at hday
      omega
    have hlength : daysInMonth (isLeap y) month ≤ 31 := daysInMonth_le _ hmonth.2
    have hdays : dayOfYear - daysBefore (isLeap y) month + 1 ≤ daysInMonth (isLeap y) month := by
      unfold daysInMonth
      omega
    have hfields := parse?_fields y.toNat month
      (dayOfYear - daysBefore (isLeap y) month + 1) (ms / 3600000) (ms / 60000 % 60) (by omega) hmonth
      (by rw [hcast]; exact ⟨by omega, hdays, by omega⟩) (by omega) (by omega) (seconds?_text ms)
    rw [yearText, if_pos hfour, hfields, if_pos hin, hcast]
    congr 1
    unfold msPerDay at *
    push_cast
    omega
  · have hout : ¬ (-62167219200000 ≤ t ∧ t < 253402300800000) := by
      intro hin
      refine hfour (hrange.mpr ?_)
      unfold msPerDay at hday
      omega
    rw [yearText, if_neg hfour, if_neg hout]
    have hsign : (if y < 0 then '-' else '+').isDigit = false := by split <;> rfl
    simp only [digits, List.nil_append, List.cons_append, parse?, number?_sign hsign,
      Option.bind_eq_bind, Option.bind_none, ite_self]

/-! ## What is read -/

theorem foldl_lt {cs : List Char} (h : cs.all Char.isDigit = true) (n : ℕ) :
    cs.foldl (fun n c => n * 10 + (c.toNat - 48)) n < (n + 1) * 10 ^ cs.length := by
  induction cs generalizing n with
  | nil => simp
  | cons c cs ih =>
    rw [List.all_cons, Bool.and_eq_true] at h
    have hdigit : c.toNat - 48 ≤ 9 := by
      have := h.1
      simp only [Char.isDigit, ge_iff_le, Bool.and_eq_true, decide_eq_true_eq] at this
      have hle : c.toNat ≤ 57 := this.2
      omega
    rw [List.foldl_cons, List.length_cons, pow_succ']
    calc
      _ < (n * 10 + (c.toNat - 48) + 1) * 10 ^ cs.length := ih h.2 _
      _ ≤ (n + 1) * 10 * 10 ^ cs.length := Nat.mul_le_mul_right _ (by omega)
      _ = (n + 1) * (10 * 10 ^ cs.length) := Nat.mul_assoc _ _ _

theorem number?_lt {cs : List Char} {n : ℕ} (h : number? cs = some n) : n < 10 ^ cs.length := by
  unfold number? at h
  split at h
  · next hall =>
    obtain rfl := Option.some.inj h
    simpa using foldl_lt hall 0
  · cases h

theorem field?_bounds {cs : List Char} {low high n : ℕ} (h : field? cs low high = some n) :
    low ≤ n ∧ n ≤ high := by
  have := (Option.filter_eq_some_iff.mp h).2
  simpa using this

theorem fraction?_lt {cs : List Char} {n : ℕ} (h : fraction? cs = some n) : n < 1000 := by
  unfold fraction? at h
  split at h
  · cases h
  · obtain ⟨_, _, hnumber⟩ := Option.bind_eq_some_iff.mp h
    calc
      n < 10 ^ ((cs ++ ['0', '0']).take 3).length := number?_lt hnumber
      _ ≤ 10 ^ 3 := Nat.pow_le_pow_right (by decide) (List.length_take_le 3 _)

theorem seconds?_lt {cs : List Char} {ms : ℕ} (h : seconds? cs = some ms) : ms < 60000 := by
  unfold seconds? at h
  split at h
  · split at h
    · obtain rfl := Option.some.inj h
      omega
    · cases h
  · split at h
    · obtain ⟨seconds, hseconds, h⟩ := Option.bind_eq_some_iff.mp h
      have hbounds := field?_bounds hseconds
      split at h
      · obtain rfl := Option.some.inj h
        omega
      · split at h
        · obtain ⟨fraction, hfraction, h⟩ := Option.bind_eq_some_iff.mp h
          have hlt := fraction?_lt hfraction
          obtain rfl := Option.some.inj h
          omega
        · cases h
    · cases h
  · cases h

/-- Every text that is read denotes a time in the years from 0 to 9999. -/
theorem parse?_bounds {cs : List Char} {t : ℤ} (h : parse? cs = some t) :
    -62167219200000 ≤ t ∧ t < 253500000000000 := by
  unfold parse? at h
  split at h
  · split at h
    · obtain ⟨year, hyear, h⟩ := Option.bind_eq_some_iff.mp h
      obtain ⟨month, hmonth, h⟩ := Option.bind_eq_some_iff.mp h
      obtain ⟨day, hday, h⟩ := Option.bind_eq_some_iff.mp h
      obtain ⟨hour, hhour, h⟩ := Option.bind_eq_some_iff.mp h
      obtain ⟨minute, hminute, h⟩ := Option.bind_eq_some_iff.mp h
      obtain ⟨ms, hms, h⟩ := Option.bind_eq_some_iff.mp h
      obtain rfl := Option.some.inj h
      have hyear : year < 10000 := by simpa using number?_lt hyear
      have hmonth := field?_bounds hmonth
      have hdays := daysInMonth_le (isLeap year) hmonth.2
      have hday := field?_bounds hday
      have hhour := field?_bounds hhour
      have hminute := field?_bounds hminute
      have hms := seconds?_lt hms
      have hbefore : ∀ leap : Bool, ∀ month ≤ 12, daysBefore leap month ≤ 335 := by decide
      have hbefore := hbefore (isLeap year) month hmonth.2
      unfold dayFromYear msPerDay
      omega
    · cases h
  · cases h

end BankPlatform.Library.IsoDate

namespace BankPlatform.Library

/-- A `Date` by its time value; `none` is an invalid date. -/
abbrev JsDate := Option ℤ

/-- The `RangeError` that a method of `Date` throws. -/
structure DateError where
  message : String
  deriving DecidableEq, Repr

namespace JsDate

/-- The largest magnitude of a time value. -/
def maxTime : ℕ := 8640000000000000

/-- `new Date(t)`. -/
def ofTime (t : ℤ) : JsDate := if t.natAbs ≤ maxTime then some t else none

/-- `date.toISOString()`. -/
def toISOString : JsDate → Except DateError String
  | some t => .ok (String.ofList (IsoDate.toISOString t))
  | none => .error ⟨"Invalid time value"⟩

/-- `Date.parse(s)` of an ISO text. -/
def parse (s : String) : JsDate := IsoDate.parse? s.toList

end JsDate

end BankPlatform.Library
