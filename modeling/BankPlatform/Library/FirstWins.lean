import Mathlib.Data.List.Basic

/-!
# The first write wins

A store keeps one content for each key. A write to a key that is in use changes nothing, so it makes
no difference whether writes come once or again, and only their first one counts.

## Main definitions

* `firstWins` — what is stored behind some writes.

## Main results

* `firstWins_append` — writes one after the other.
* `firstWins_eq_base` — when writes change nothing.
* `firstWins_cons_eq` — when the first of some writes makes no difference.
-/

namespace BankPlatform.Library

variable {R K C : Type*} [DecidableEq K] (key : R → K) (content : R → C)

/-- What is stored under each key behind the writes `rs` to a store. -/
def firstWins (base : K → Option C) (rs : List R) (x : K) : Option C :=
  (base x).or ((rs.find? fun r => key r = x).map content)

variable {key content} {base : K → Option C}

@[simp] theorem firstWins_nil : firstWins key content base [] = base := by
  funext x
  simp [firstWins]

theorem firstWins_cons (r : R) (rs : List R) (x : K) :
    firstWins key content base (r :: rs) x =
      (base x).or
        (if key r = x then some (content r) else (rs.find? fun r => key r = x).map content) := by
  by_cases h : key r = x <;> simp [firstWins, h]

theorem firstWins_append (rs rs' : List R) :
    firstWins key content base (rs ++ rs') =
      firstWins key content (firstWins key content base rs) rs' := by
  funext x
  simp [firstWins, List.find?_append, Option.map_or, Option.or_assoc]

/-- A key is in use if it was or if one of the writes is to it. -/
theorem isSome_firstWins (rs : List R) (x : K) :
    (firstWins key content base rs x).isSome = true ↔
      (base x).isSome = true ∨ ∃ r ∈ rs, key r = x := by
  simp [firstWins, Option.isSome_or]

/-- What is stored was stored before, or is the content of a write to the key. -/
theorem firstWins_eq_some {rs : List R} {x : K} {c : C}
    (h : firstWins key content base rs x = some c) :
    base x = some c ∨ ∃ r ∈ rs, key r = x ∧ content r = c := by
  rcases Option.or_eq_some_iff.mp h with hbase | ⟨_, hfound⟩
  · exact .inl hbase
  · obtain ⟨r, hr, rfl⟩ := Option.map_eq_some_iff.mp hfound
    exact .inr ⟨r, List.mem_of_find?_eq_some hr, by simpa using List.find?_some hr, rfl⟩

/-- Nothing changes exactly if every key that is written to is in use. -/
theorem firstWins_eq_base (rs : List R) :
    firstWins key content base rs = base ↔ ∀ r ∈ rs, (base (key r)).isSome = true := by
  constructor
  · intro h r hr
    rw [← h, isSome_firstWins]
    exact .inr ⟨r, hr, rfl⟩
  · intro h
    funext x
    cases hbase : base x with
    | some c => simp [firstWins, hbase]
    | none =>
      have hfound : rs.find? (fun r => key r = x) = none := by
        rw [List.find?_eq_none]
        intro r hr heq
        have hsome := h r hr
        rw [of_decide_eq_true heq, hbase] at hsome
        cases hsome
      simp [firstWins, hbase, hfound]

/-- Writes that are all there already change nothing when they come again. -/
theorem firstWins_again (rs : List R) :
    firstWins key content (firstWins key content base rs) rs = firstWins key content base rs := by
  rw [firstWins_eq_base]
  intro r hr
  rw [isSome_firstWins]
  exact .inr ⟨r, hr, rfl⟩

/-- The first write makes no difference exactly if its key is in use, or if the next write to this
key has the same content. -/
theorem firstWins_cons_eq (r : R) (rs : List R) :
    firstWins key content base (r :: rs) = firstWins key content base rs ↔
      (base (key r)).isSome = true ∨
        firstWins key content base rs (key r) = some (content r) := by
  constructor
  · intro h
    cases hbase : base (key r) with
    | some c => exact .inl rfl
    | none =>
      right
      rw [← h, firstWins_cons, hbase, if_pos rfl, Option.none_or]
  · intro h
    funext x
    rw [firstWins_cons]
    by_cases hx : key r = x
    · subst hx
      rw [if_pos rfl]
      cases hbase : base (key r) with
      | some c => simp [firstWins, hbase]
      | none =>
        rw [hbase] at h
        simpa using (h.resolve_left (by simp)).symm
    · rw [if_neg hx, firstWins]

/-- Keys that are told apart: what is stored under some of them depends on the writes to these
only. -/
theorem firstWins_filter (p : K → Bool) (rs : List R) {x : K} (hx : p x = true) :
    firstWins key content base (rs.filter fun r => p (key r)) x =
      firstWins key content base rs x := by
  unfold firstWins
  congr 2
  rw [List.find?_filter]
  congr 1
  funext r
  by_cases h : key r = x
  · simp [h, hx]
  · simp [h]

/-- Writes that are named in another way, `name` saying how. -/
theorem firstWins_rename {K' : Type*} [DecidableEq K'] {key' : R → K'} {name : K' → K}
    (hname : ∀ r x, key r = name x ↔ key' r = x) (rs : List R) (x : K') :
    firstWins key content base rs (name x) =
      firstWins key' content (fun x => base (name x)) rs x := by
  simp only [firstWins, hname]

theorem firstWins_map {R' : Type*} (f : R' → R) (rs : List R') :
    firstWins key content base (rs.map f) =
      firstWins (fun r => key (f r)) (fun r => content (f r)) base rs := by
  funext x
  simp [firstWins, List.find?_map, Function.comp_def]

/-- A part of the contents. -/
theorem map_firstWins {C' : Type*} (g : C → C') (rs : List R) (x : K) :
    (firstWins key content base rs x).map g =
      firstWins key (fun r => g (content r)) (fun x => (base x).map g) rs x := by
  simp [firstWins, Option.map_or, Function.comp_def]

end BankPlatform.Library
