import Mathlib.Algebra.BigOperators.Group.List.Basic
import Mathlib.Algebra.Order.Group.Int
import Mathlib.Data.List.Nodup
import Mathlib.Tactic.Ring

/-!
# Tables with a primary key

A table is a list of rows in which no two rows share a key. Reading a row by its key, inserting a
row under a fresh key and replacing the row of a key keep it so.

## Main definitions

* `Table` — rows with pairwise distinct keys.
* `Table.find?`, `Table.insert?`, `Table.put` — select, insert and replace by primary key.
* `Table.update`, `Table.upsert` — change the row of a key, or add it.
* `Table.UniqueIndex` — a nullable column in which no two rows agree.
* `Table.total` — the sum of an integer column.
-/

namespace BankPlatform.Library

/-- The primary key of a kind of rows. -/
class Keyed (R : Type*) (K : outParam Type*) where
  key : R → K

/-- A list of rows in which no two rows share a key. -/
structure Table (R : Type*) {K : Type*} [Keyed R K] where
  rows : List R
  nodup : (rows.map Keyed.key).Nodup

namespace Table

open Keyed

variable {R K : Type*} [Keyed R K]

/-- The table without rows. -/
def empty : Table R := ⟨[], List.nodup_nil⟩

variable [DecidableEq K]

/-- The row stored under a key. -/
def find? (t : Table R) (k : K) : Option R := t.rows.find? (fun r => key r = k)

/-- Replace the row that has the key of `r`; without such a row nothing changes. -/
def put (t : Table R) (r : R) : Table R where
  rows := t.rows.map fun x => if key x = key r then r else x
  nodup := by
    have : (t.rows.map fun x => if key x = key r then r else x).map key = t.rows.map key := by
      rw [List.map_map]
      refine List.map_congr_left fun x _ => ?_
      by_cases h : key x = key r <;> simp [h]
    exact this ▸ t.nodup

/-- Delete the row of a key. -/
def erase (t : Table R) (k : K) : Table R where
  rows := t.rows.filter fun x => key x ≠ k
  nodup := (List.filter_sublist.map key).nodup t.nodup

@[simp] theorem find?_empty (k : K) : (empty : Table R).find? k = none := rfl

theorem key_of_find? {t : Table R} {k : K} {r : R} (h : t.find? k = some r) : key r = k := by
  simpa using List.find?_some h

theorem mem_of_find? {t : Table R} {k : K} {r : R} (h : t.find? k = some r) : r ∈ t.rows :=
  List.mem_of_find?_eq_some h

theorem find?_eq_none {t : Table R} {k : K} : t.find? k = none ↔ ∀ r ∈ t.rows, key r ≠ k := by
  simp [find?]

theorem nodup_keys_find? {l : List R} (hl : (l.map key).Nodup) {r : R} (hr : r ∈ l) :
    l.find? (fun x => key x = key r) = some r := by
  induction l with
  | nil => cases hr
  | cons x l ih =>
    simp only [List.map_cons, List.nodup_cons] at hl
    rcases List.mem_cons.mp hr with rfl | hr
    · simp
    · have hx : key x ≠ key r := fun h => hl.1 (h ▸ List.mem_map_of_mem hr)
      simp [hx, ih hl.2 hr]

theorem find?_key {t : Table R} {r : R} (hr : r ∈ t.rows) : t.find? (key r) = some r :=
  nodup_keys_find? t.nodup hr

theorem find?_eq_some {t : Table R} {k : K} {r : R} :
    t.find? k = some r ↔ r ∈ t.rows ∧ key r = k :=
  ⟨fun h => ⟨mem_of_find? h, key_of_find? h⟩, fun ⟨h, hk⟩ => hk ▸ find?_key h⟩

/-- Add a row whose key is not in use yet. -/
def insert? (t : Table R) (r : R) : Option (Table R) :=
  if h : t.find? (key r) = none then
    some
      { rows := t.rows ++ [r]
        nodup := by
          rw [find?_eq_none] at h
          simpa [List.nodup_append, t.nodup] using h }
  else none

theorem insert?_eq_some {t t' : Table R} {r : R} (h : t.insert? r = some t') :
    t.find? (key r) = none ∧ t'.rows = t.rows ++ [r] := by
  unfold insert? at h
  split at h
  · next hf => exact ⟨hf, by cases h; rfl⟩
  · cases h

theorem isSome_insert? {t : Table R} {r : R} (h : t.find? (key r) = none) :
    (t.insert? r).isSome = true := by
  unfold insert?
  rw [dif_pos h]
  rfl

/-- An insert is refused because the key is taken. -/
theorem exists_of_insert?_eq_none {t : Table R} {r : R} (h : t.insert? r = none) :
    ∃ x ∈ t.rows, key x = key r := by
  by_contra hnone
  simp only [not_exists, not_and] at hnone
  simpa [h] using isSome_insert? (find?_eq_none.mpr hnone)

theorem find?_insert? {t t' : Table R} {r : R} (h : t.insert? r = some t') (k : K) :
    t'.find? k = if key r = k then some r else t.find? k := by
  obtain ⟨hf, ht⟩ := insert?_eq_some h
  rw [find?, ht, List.find?_append]
  by_cases hk : key r = k
  · subst hk
    change (t.find? (key r)).or _ = _
    simp [hf]
  · simp [hk, find?]

/-- An insert keeps the rows that are there. -/
theorem find?_insert?_of_some {t t' : Table R} {r x : R} (h : t.insert? r = some t') {k : K}
    (hx : t.find? k = some x) : t'.find? k = some x := by
  have hk : key r ≠ k := by
    rintro rfl
    simp [(insert?_eq_some h).1] at hx
  rw [find?_insert? h, if_neg hk, hx]

theorem mem_insert? {t t' : Table R} {r x : R} (h : t.insert? r = some t') :
    x ∈ t'.rows ↔ x ∈ t.rows ∨ x = r := by
  simp [(insert?_eq_some h).2]

theorem mem_put {t : Table R} {r x : R} (h : x ∈ (t.put r).rows) : x ∈ t.rows ∨ x = r := by
  obtain ⟨y, hy, rfl⟩ := List.mem_map.mp h
  by_cases hk : key y = key r
  · simp [hk]
  · simp [hk, hy]

theorem find?_put (t : Table R) (r : R) (k : K) :
    (t.put r).find? k = if key r = k then (t.find? k).map fun _ => r else t.find? k := by
  obtain ⟨rows, nodup⟩ := t
  simp only [find?, put]
  clear nodup
  induction rows with
  | nil => simp
  | cons x l ih => by_cases h1 : key x = key r <;> by_cases h2 : key r = k <;> grind

theorem find?_put_of_ne {t : Table R} {r : R} {k : K} (h : key r ≠ k) :
    (t.put r).find? k = t.find? k := by
  simp [find?_put, h]

@[simp] theorem isSome_find?_put (t : Table R) (r : R) (k : K) :
    ((t.put r).find? k).isSome = (t.find? k).isSome := by
  rw [find?_put]
  split <;> simp

/-- Change the row of a key. -/
def update (t : Table R) (k : K) (f : R → R) : Table R :=
  match t.find? k with
  | some r => t.put (f r)
  | none => t

/-- Add a row, or change the one that has its key. -/
def upsert (t : Table R) (r : R) (f : R → R) : Table R :=
  match t.insert? r with
  | some t' => t'
  | none => t.update (key r) f

theorem find?_update {f : R → R} (hf : ∀ r, key (f r) = key r) (t : Table R) (k k' : K) :
    (t.update k f).find? k' = if k = k' then (t.find? k').map f else t.find? k' := by
  unfold update
  cases h : t.find? k with
  | none =>
    dsimp only
    split
    · next heq => rw [← heq, h, Option.map_none]
    · rfl
  | some r =>
    dsimp only
    rw [find?_put, hf, key_of_find? h]
    split
    · next heq => rw [← heq, h, Option.map_some, Option.map_some]
    · rfl

theorem find?_upsert {f : R → R} (hf : ∀ r, key (f r) = key r) (t : Table R) (r : R) (k : K) :
    (t.upsert r f).find? k =
      if key r = k then some ((t.find? k).elim r f) else t.find? k := by
  unfold upsert
  cases h : t.insert? r with
  | some t' =>
    dsimp only
    rw [find?_insert? h]
    split
    · next heq => rw [← heq, (insert?_eq_some h).1, Option.elim_none]
    · rfl
  | none =>
    dsimp only
    rw [find?_update hf]
    split
    · next heq =>
      cases hk : t.find? k with
      | some x => rfl
      | none => simp [insert?, heq, hk] at h
    · rfl

/-! ## Unique indexes -/

section UniqueIndex

variable {J : Type*} [DecidableEq J]

/-- No two rows agree on an indexed column in which they are not null. -/
def UniqueIndex (t : Table R) (column : R → Option J) : Prop :=
  ∀ r ∈ t.rows, ∀ r' ∈ t.rows, column r ≠ none → column r = column r' → r = r'

omit [DecidableEq K] [DecidableEq J] in
theorem uniqueIndex_empty (column : R → Option J) : (empty : Table R).UniqueIndex column := by
  simp [UniqueIndex, empty]

variable {t t' : Table R} {column : R → Option J} {r : R}

omit [DecidableEq K] in
/-- The row found by an indexed value is the only one that has it. -/
theorem UniqueIndex.find?_eq_some (h : t.UniqueIndex column) {j : J} :
    t.rows.find? (fun x => column x = some j) = some r ↔ r ∈ t.rows ∧ column r = some j := by
  constructor
  · exact fun hf => ⟨List.mem_of_find?_eq_some hf, by simpa using List.find?_some hf⟩
  · rintro ⟨hr, hj⟩
    have hfound : (t.rows.find? fun x => column x = some j).isSome :=
      List.find?_isSome.mpr ⟨r, hr, by simpa using hj⟩
    obtain ⟨x, hx⟩ := Option.isSome_iff_exists.mp hfound
    have hxj : column x = some j := by simpa using List.find?_some hx
    rw [hx, h x (List.mem_of_find?_eq_some hx) r hr (by simp [hxj]) (hxj.trans hj.symm)]

omit [DecidableEq J] in
theorem UniqueIndex.insert? (h : t.UniqueIndex column) (ht : t.insert? r = some t')
    (hfresh : column r ≠ none → ∀ x ∈ t.rows, column x ≠ column r) : t'.UniqueIndex column := by
  intro x hx y hy hsome heq
  rcases (mem_insert? ht).mp hx with hx | rfl <;> rcases (mem_insert? ht).mp hy with hy | rfl
  · exact h x hx y hy hsome heq
  · exact absurd heq (hfresh (heq ▸ hsome) x hx)
  · exact absurd heq.symm (hfresh hsome y hy)
  · rfl

omit [DecidableEq J] in
/-- An update that leaves the indexed column alone. -/
theorem UniqueIndex.put (h : t.UniqueIndex column) {x : R} (hx : t.find? (key r) = some x)
    (hcolumn : column x = column r) : (t.put r).UniqueIndex column := by
  have old : ∀ y ∈ (t.put r).rows, (y ∈ t.rows ∧ key y ≠ key r) ∨ y = r := by
    intro y hy
    obtain ⟨z, hz, rfl⟩ := List.mem_map.mp hy
    by_cases hk : key z = key r
    · simp [hk]
    · simp [hk, hz]
  have hxr : x ∈ t.rows ∧ key x = key r := Table.find?_eq_some.mp hx
  intro y hy z hz hsome heq
  rcases old y hy with ⟨hyt, hyk⟩ | hyr <;> rcases old z hz with ⟨hzt, hzk⟩ | hzr
  · exact h y hyt z hzt hsome heq
  · have : y = x := h y hyt x hxr.1 hsome (heq.trans (hzr ▸ hcolumn.symm))
    exact absurd (this ▸ hxr.2) hyk
  · subst hyr
    have : x = z := h x hxr.1 z hzt (hcolumn ▸ hsome) (hcolumn.trans heq)
    exact absurd (this ▸ hxr.2) hzk
  · rw [hyr, hzr]

end UniqueIndex

/-- The sum of an integer column. -/
def total (t : Table R) (g : R → ℤ) : ℤ := (t.rows.map g).sum

theorem total_insert? {t t' : Table R} {r : R} (h : t.insert? r = some t') (g : R → ℤ) :
    t'.total g = t.total g + g r := by
  simp [total, (insert?_eq_some h).2]

theorem total_put {t : Table R} {r x : R} (h : t.find? (key r) = some x) (g : R → ℤ) :
    (t.put r).total g = t.total g - g x + g r := by
  obtain ⟨rows, nodup⟩ := t
  simp only [total, put, find?] at h ⊢
  induction rows with
  | nil => simp at h
  | cons y l ih =>
    simp only [List.map_cons, List.nodup_cons] at nodup
    by_cases hy : key y = key r
    · obtain rfl : y = x := by simpa [hy] using h
      have hrest : (l.map fun x => if key x = key r then r else x) = l := by
        refine (List.map_congr_left fun x hx => ?_).trans (List.map_id l)
        have : key x ≠ key r := fun hxr => nodup.1 ((hy.trans hxr.symm) ▸ List.mem_map_of_mem hx)
        simp [this]
      rw [List.map_cons, if_pos hy, hrest]
      simp only [List.map_cons, List.sum_cons]
      ring
    · have h' : l.find? (fun x => key x = key r) = some x := by simpa [hy] using h
      have := ih nodup.2 h'
      simp only [List.map_cons, if_neg hy, List.sum_cons, this]
      ring

end Table

end BankPlatform.Library
