import BankPlatform.Library.JsMap
import BankPlatform.Library.JsNumber
import Mathlib.Data.Rat.Defs

/-!
# JSON values and schemas

A JSON text stands for its value. A schema reads a value, or finds out what is wrong with it: the
issues of all parts are collected, each with the path of the part. What a finding is called in
words is left open.

## Main definitions

* `Json`, `Json.object` — values; an object is written without the keys that are undefined.
* `Validated`, `Validator` — the outcome of a schema, and a schema.
* `Judges v P a` — the outcome `v` is the value `a` if `P`, and issues otherwise.

## Main results

* One rule for each schema: on what a value is written as, the schema judges the value.
-/

namespace BankPlatform.Library

inductive Json where
  | null
  | bool (b : Bool)
  | num (q : ℚ)
  | str (s : String)
  | arr (items : List Json)
  | obj (entries : List (String × Json))

namespace Json

/-- An object literal, of which `undefined` properties are not written. -/
def object (properties : List (String × Option Json)) : Json :=
  .obj (properties.filterMap fun p => p.2.map fun j => (p.1, j))

/-- A dictionary of texts. -/
def dictionary (m : JsMap String String) : Json := .obj (m.rows.map fun p => (p.1, .str p.2))

/-- A property that is not written is undefined. -/
theorem lookup_object {properties : List (String × Option Json)}
    (h : (properties.map Prod.fst).Nodup) (key : String) :
    (properties.filterMap fun p => p.2.map fun j => (p.1, j)).lookup key =
      (properties.lookup key).join := by
  induction properties with
  | nil => rfl
  | cons p properties ih =>
    obtain ⟨name, value⟩ := p
    obtain ⟨hname, hrest⟩ := List.nodup_cons.mp h
    have ih := ih hrest
    by_cases hkey : key = name
    · subst hkey
      have hout : properties.lookup key = none := by
        refine List.lookup_eq_none_iff.mpr fun p hp => ?_
        have hne : key ≠ p.1 := fun heq => hname (heq ▸ List.mem_map.mpr ⟨p, hp, rfl⟩)
        simp [hne]
      cases value with
      | none => simpa [hout] using ih
      | some j => simp
    · have hbeq : (key == name) = false := by simpa using hkey
      cases value with
      | none => simpa [List.lookup_cons, hbeq] using ih
      | some j => simpa [List.lookup_cons, hbeq] using ih

end Json

/-! ## Outcomes -/

/-- What a schema may find. -/
inductive Problem where
  | invalidType (expected : String)
  | invalidValue (allowed : List Json)
  | tooSmall (minimum : ℚ)
  | tooBig (maximum : ℚ)
  | invalidFormat (format : String)
  | custom (message : String)

/-- A finding, where it was made and on which value; `none` is `undefined`. -/
structure Issue where
  path : List String
  problem : Problem
  input : Option Json

/-- How findings are put into words. -/
abbrev Wording := Problem → Option Json → String

/-- A refinement that brings its own message is reported with it. -/
def Issue.message (wording : Wording) (issue : Issue) : String :=
  match issue.problem with
  | .custom message => message
  | problem => wording problem issue.input

inductive Validated (α : Type) where
  | valid (a : α)
  | invalid (issues : List Issue)

abbrev Validator (α : Type) := Option Json → Validated α

variable {α β : Type}

namespace Validated

def map (f : α → β) : Validated α → Validated β
  | valid a => valid (f a)
  | invalid issues => invalid issues

/-- Both parts are read, and the issues of both are kept. -/
def seq : Validated (α → β) → Validated α → Validated β
  | valid f, x => x.map f
  | invalid issues, valid _ => invalid issues
  | invalid issues, invalid issues' => invalid (issues ++ issues')

instance : Applicative Validated where
  pure := valid
  seq f x := seq f (x ())

/-- The issues of a part are those of the whole, below a key. -/
def within (key : String) : Validated α → Validated α
  | valid a => valid a
  | invalid issues => invalid (issues.map fun issue => { issue with path := key :: issue.path })

/-- The value is `a` if `P`, and there are issues otherwise. -/
structure Judges (v : Validated α) (P : Prop) (a : α) : Prop where
  accept : P → v = valid a
  reject : ¬ P → ∃ issues, v = invalid issues

namespace Judges

variable {v : Validated α} {P Q : Prop} {a : α}

theorem of_eq (h : v = valid a) : Judges v True a := ⟨fun _ => h, fun hn => (hn trivial).elim⟩

theorem congr (h : Judges v P a) (hPQ : P ↔ Q) : Judges v Q a :=
  ⟨fun hQ => h.accept (hPQ.mpr hQ), fun hQ => h.reject (hQ ∘ hPQ.mp)⟩

/-- A condition that is known to hold. -/
theorem holds (h : Judges v P a) (hP : P) : Judges v True a := of_eq (h.accept hP)

theorem pure (a : α) : Judges (Pure.pure a : Validated α) True a := of_eq rfl

theorem map (h : Judges v P a) (f : α → β) : Judges (v.map f) P (f a) where
  accept hP := by rw [h.accept hP]; rfl
  reject hP := by
    obtain ⟨issues, hv⟩ := h.reject hP
    exact ⟨issues, by rw [hv]; rfl⟩

theorem fmap (h : Judges v P a) (f : α → β) : Judges (f <$> v) P (f a) := h.map f

theorem seq {f : Validated (α → β)} {g : α → β} (hf : Judges f P g) (hv : Judges v Q a) :
    Judges (f <*> v) (P ∧ Q) (g a) where
  accept h := by
    rw [hf.accept h.1, hv.accept h.2]
    rfl
  reject h := by
    by_cases hP : P
    · obtain ⟨issues, hissues⟩ := hv.reject fun hQ => h ⟨hP, hQ⟩
      rw [hf.accept hP, hissues]
      exact ⟨issues, rfl⟩
    · obtain ⟨issues, hissues⟩ := hf.reject hP
      rw [hissues]
      cases v with
      | valid a => exact ⟨issues, rfl⟩
      | invalid issues' => exact ⟨issues ++ issues', rfl⟩

theorem within (h : Judges v P a) (key : String) : Judges (v.within key) P a where
  accept hP := by rw [h.accept hP]; rfl
  reject hP := by
    obtain ⟨issues, hissues⟩ := h.reject hP
    exact ⟨_, by rw [hissues]; rfl⟩

/-- The value is returned exactly when the condition holds, and no other value is. -/
theorem eq_valid_iff (h : Judges v P a) {b : α} : v = valid b ↔ P ∧ b = a := by
  by_cases hP : P
  · rw [h.accept hP]
    simp [hP, eq_comm]
  · obtain ⟨issues, hissues⟩ := h.reject hP
    simp [hissues, hP]

end Judges

end Validated

/-! ## Schemas -/

namespace Schema

open Validated

/-- A check of a value that has the right type. After a check that aborts no other is made. -/
structure Check (α : Type) where
  passes : α → Bool
  problem : α → Problem
  aborts : Bool

/-- The issues that the checks of a value find, in their order. -/
def findings (input : Json) (a : α) : List (Check α) → List Issue
  | [] => []
  | check :: checks =>
    if check.passes a then findings input a checks
    else ⟨[], check.problem a, some input⟩ ::
      if check.aborts then [] else findings input a checks

def checked (input : Json) (a : α) (checks : List (Check α)) : Validated α :=
  match findings input a checks with
  | [] => valid a
  | issues => invalid issues

def mismatch (problem : Problem) (input : Option Json) : Validated α :=
  invalid [⟨[], problem, input⟩]

def minimum (low : ℚ) : Check ℚ := ⟨fun q => low ≤ q, fun _ => .tooSmall low, false⟩

def maximum (high : ℚ) : Check ℚ := ⟨fun q => q ≤ high, fun _ => .tooBig high, false⟩

def nonnegative : Check ℤ := ⟨fun z => 0 ≤ z, fun _ => .tooSmall 0, false⟩

/-- Integers that a JavaScript number holds exactly. -/
def safe : Check ℤ :=
  ⟨fun z => z.natAbs ≤ JsNumber.maxSafeInteger,
    fun z => if 0 < z then .tooBig JsNumber.maxSafeInteger else .tooSmall (-JsNumber.maxSafeInteger),
    false⟩

def minLength (low : ℕ) : Check String := ⟨fun s => low ≤ s.length, fun _ => .tooSmall low, false⟩

/-- A text of some form. -/
def format (name : String) (matching : String → Bool) : Check String :=
  ⟨matching, fun _ => .invalidFormat name, false⟩

/-- A refinement with its own message. -/
def refinement (passes : α → Bool) (message : String) : Check α :=
  ⟨passes, fun _ => .custom message, false⟩

def number (checks : List (Check ℚ)) : Validator ℚ
  | some (.num q) => checked (.num q) q checks
  | input => mismatch (.invalidType "number") input

def int (checks : List (Check ℤ)) : Validator ℤ
  | some (.num q) =>
    if q.den = 1 then checked (.num q) q.num (safe :: checks)
    else mismatch (.invalidType "int") (some (.num q))
  | input => mismatch (.invalidType "number") input

def string (checks : List (Check String)) : Validator String
  | some (.str s) => checked (.str s) s checks
  | input => mismatch (.invalidType "string") input

def boolean : Validator Bool
  | some (.bool b) => valid b
  | input => mismatch (.invalidType "boolean") input

/-- One number only. -/
def literal (z : ℤ) : Validator ℤ
  | some (.num q) => if q = z then valid z else mismatch (.invalidValue [.num z]) (some (.num q))
  | input => mismatch (.invalidValue [.num z]) input

/-- One of some names. -/
def enum (options : List (String × α)) : Validator α
  | some (.str s) =>
    match options.lookup s with
    | some a => valid a
    | none => mismatch (.invalidValue (options.map fun o => .str o.1)) (some (.str s))
  | input => mismatch (.invalidValue (options.map fun o => .str o.1)) input

def optional (v : Validator α) : Validator (Option α)
  | none => valid none
  | input => (v input).map some

def nullable (v : Validator α) : Validator (Option α)
  | some .null => valid none
  | input => (v input).map some

/-- The items of an array from an index on. -/
def items (v : Validator α) : ℕ → List Json → Validated (List α)
  | _, [] => pure []
  | i, j :: js => (List.cons <$> (v (some j)).within (toString i)) <*> items v (i + 1) js

def array (v : Validator α) : Validator (List α)
  | some (.arr js) => items v 0 js
  | input => mismatch (.invalidType "array") input

/-- The entries of an object. -/
def entries (v : Validator α) : List (String × Json) → Validated (List (String × α))
  | [] => pure []
  | (key, j) :: rest =>
    ((fun a as => (key, a) :: as) <$> (v (some j)).within key) <*> entries v rest

/-- An object whose keys may be any texts. -/
def record (v : Validator α) : Validator (JsMap String α)
  | some (.obj properties) =>
    (entries v properties).map fun es => es.foldl (fun m e => JsMap.set m e.1 e.2) Table.empty
  | input => mismatch (.invalidType "record") input

/-- An object with known keys; others are dropped. -/
def object (shape : List (String × Json) → Validated α) : Validator α
  | some (.obj properties) => shape properties
  | input => mismatch (.invalidType "object") input

def field (properties : List (String × Json)) (key : String) (v : Validator α) : Validated α :=
  (v (properties.lookup key)).within key

/-- A check of a value that was read without issues. -/
def refine (v : Validator α) (check : Check α) : Validator α := fun input =>
  match v input with
  | valid a => checked (input.getD .null) a [check]
  | invalid issues => invalid issues

/-! ## What schemas say about written values -/

theorem findings_eq_nil (input : Json) (a : α) (checks : List (Check α)) :
    findings input a checks = [] ↔ ∀ check ∈ checks, check.passes a = true := by
  induction checks with
  | nil => simp [findings]
  | cons check checks ih =>
    unfold findings
    split
    · next hpasses => simp [ih, hpasses]
    · next hpasses => simp [hpasses]

theorem judges_checked (input : Json) (a : α) (checks : List (Check α)) :
    Judges (checked input a checks) (∀ check ∈ checks, check.passes a = true) a where
  accept h := by
    rw [checked, (findings_eq_nil input a checks).mpr h]
  reject h := by
    unfold checked
    split
    · next hnil => exact (h ((findings_eq_nil input a checks).mp hnil)).elim
    · exact ⟨_, rfl⟩

theorem judges_number (q : ℚ) (checks : List (Check ℚ)) :
    Judges (number checks (some (.num q))) (∀ check ∈ checks, check.passes q = true) q :=
  judges_checked _ _ _

theorem judges_int (z : ℤ) (checks : List (Check ℤ)) :
    Judges (int checks (some (.num z)))
      (z.natAbs ≤ JsNumber.maxSafeInteger ∧ ∀ check ∈ checks, check.passes z = true) z := by
  have hint : int checks (some (.num z)) = checked (.num z) z (safe :: checks) := by
    simp [int]
  rw [hint]
  refine (judges_checked _ z (safe :: checks)).congr ?_
  simp [safe]

theorem judges_string (s : String) (checks : List (Check String)) :
    Judges (string checks (some (.str s))) (∀ check ∈ checks, check.passes s = true) s :=
  judges_checked _ _ _

theorem judges_optional {v : Validator α} {write : α → Json} {P : α → Prop}
    (hv : ∀ a, Judges (v (some (write a))) (P a) a) (a : Option α) :
    Judges (optional v (a.map write)) (∀ x ∈ a, P x) a := by
  cases a with
  | none => exact (Judges.of_eq rfl).congr (by simp)
  | some a => exact ((hv a).map some).congr (by simp)

theorem judges_nullable {v : Validator α} {write : α → Json} {P : α → Prop}
    (hv : ∀ a, Judges (v (some (write a))) (P a) a) (hnull : ∀ a, write a ≠ .null)
    (a : Option α) :
    Judges (nullable v (some ((a.map write).getD .null))) (∀ x ∈ a, P x) a := by
  cases a with
  | none => exact (Judges.of_eq rfl).congr (by simp)
  | some a =>
    have hread : nullable v (some (write a)) = (v (some (write a))).map some := by
      unfold nullable
      split
      · next heq => exact (hnull a (Option.some.inj heq)).elim
      · rfl
    exact (hread ▸ (hv a).map some).congr (by simp)

theorem judges_items {v : Validator α} {write : α → Json} {P : α → Prop}
    (hv : ∀ a, Judges (v (some (write a))) (P a) a) (i : ℕ) (as : List α) :
    Judges (items v i (as.map write)) (∀ a ∈ as, P a) as := by
  induction as generalizing i with
  | nil => exact (Judges.pure []).congr (by simp)
  | cons a as ih =>
    exact ((((hv a).within _).map List.cons).seq (ih (i + 1))).congr (by simp)

theorem judges_array {v : Validator α} {write : α → Json} {P : α → Prop}
    (hv : ∀ a, Judges (v (some (write a))) (P a) a) (as : List α) :
    Judges (array v (some (.arr (as.map write)))) (∀ a ∈ as, P a) as :=
  judges_items hv 0 as

theorem entries_written {v : Validator α} {write : α → Json}
    (hv : ∀ a, v (some (write a)) = valid a) (es : List (String × α)) :
    entries v (es.map fun e => (e.1, write e.2)) = valid es := by
  induction es with
  | nil => rfl
  | cons e es ih =>
    rw [List.map_cons, entries, hv, ih]
    rfl

theorem judges_record {v : Validator String} (hv : ∀ s, v (some (.str s)) = valid s)
    (m : JsMap String String) : Judges (record v (some (Json.dictionary m))) True m := by
  refine Judges.of_eq ?_
  have hread : record v (some (Json.dictionary m)) =
      valid (m.rows.foldl (fun m e => JsMap.set m e.1 e.2) Table.empty) := by
    rw [Json.dictionary, record, entries_written hv]
    rfl
  rw [hread, JsMap.foldl_set_rows]

theorem judges_refine {v : Validator α} {j : Json} {P : Prop} {a : α}
    (hv : Judges (v (some j)) P a) (check : Check α) :
    Judges (refine v check (some j)) (P ∧ check.passes a = true) a where
  accept h := by
    rw [refine, hv.accept h.1]
    exact (judges_checked _ a [check]).accept (by simpa using h.2)
  reject h := by
    by_cases hP : P
    · rw [refine, hv.accept hP]
      exact (judges_checked _ a [check]).reject (by simpa using fun hpass => h ⟨hP, hpass⟩)
    · obtain ⟨issues, hissues⟩ := hv.reject hP
      exact ⟨issues, by rw [refine, hissues]⟩

/-- A property that was written. -/
theorem judges_field {v : Validator α} {properties : List (String × Option Json)}
    (hkeys : (properties.map Prod.fst).Nodup) (key : String) {value : Option Json}
    (hlookup : properties.lookup key = some value) {P : Prop} {a : α} (hv : Judges (v value) P a) :
    Judges (field (properties.filterMap fun p => p.2.map fun j => (p.1, j)) key v) P a := by
  rw [field, Json.lookup_object hkeys, hlookup]
  exact hv.within key

end Schema

end BankPlatform.Library
