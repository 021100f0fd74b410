import Mathlib.Data.List.Induction
import Mathlib.Data.Nat.Find
import Mathlib.Logic.Relation
import Mathlib.Order.Lattice

/-!
# Outboxes

A sender records items and keeps them until it knows that they are stored. It offers stretches of
what it keeps; the store puts a batch for a stretch into its log late, repeatedly or never, and the
sender deletes items that the log covers.

## Main definitions

* `Outbox` — the items, how many of them are deleted, and the log.
* `Outbox.Step` — the steps of a sender and its store.
* `Outbox.Delivered` — nothing is lost, and the log holds no item before the items recorded
  earlier.

## Main results

* `Outbox.delivered` — every run delivers.
-/

namespace BankPlatform.Library

universe u v

/-- The batch that stands for a stretch of items in a log. -/
structure Shipment (β : Type v) where
  start : ℕ
  count : ℕ
  batch : β

/-- The item at a position belongs to the stretch. -/
def Shipment.Covers {β : Type v} (x : Shipment β) (p : ℕ) : Prop := x.start ≤ p ∧ p < x.start + x.count

/-- A sender and its store. -/
structure Outbox (α : Type u) (β : Type v) where
  recorded : List α
  /-- How many items the sender has deleted, from the first one on. -/
  deleted : ℕ
  log : List (Shipment β)

namespace Outbox

variable {α : Type u} {β : Type v}

def empty : Outbox α β := ⟨[], 0, []⟩

/-- The items of a shipment. -/
def stretch (recorded : List α) (x : Shipment β) : List α := (recorded.drop x.start).take x.count

/-- Some shipment of the log covers the position. -/
def Covered (log : List (Shipment β)) (p : ℕ) : Prop := ∃ x ∈ log, x.Covers p

variable (carries : List α → β → Prop)

inductive Step : Outbox α β → Outbox α β → Prop
  | record {s : Outbox α β} (item : α) : Step s { s with recorded := s.recorded ++ [item] }
  /-- A batch that was offered when its first item was the first one kept, or earlier. -/
  | store {s : Outbox α β} (x : Shipment β) : x.start ≤ s.deleted →
      x.start + x.count ≤ s.recorded.length → carries (stretch s.recorded x) x.batch →
      Step s { s with log := s.log ++ [x] }
  | delete {s : Outbox α β} (count : ℕ) :
      (∀ p, s.deleted ≤ p → p < s.deleted + count → Covered s.log p) →
      Step s { s with deleted := s.deleted + count }

abbrev Steps : Outbox α β → Outbox α β → Prop := Relation.ReflTransGen (Step carries)

/-- The log carries items that were recorded, it has everything that was deleted, and at every time
it has had no item before the items recorded earlier. -/
structure Delivered (s : Outbox α β) : Prop where
  carried : ∀ x ∈ s.log, x.start + x.count ≤ s.recorded.length ∧
    carries (stretch s.recorded x) x.batch
  kept : ∀ p < s.deleted, Covered s.log p
  gapless : ∀ before x after, s.log = before ++ x :: after → ∀ p < x.start, Covered before p

variable {carries} {s s' : Outbox α β}

theorem stretch_append {recorded : List α} {x : Shipment β}
    (h : x.start + x.count ≤ recorded.length) (more : List α) :
    stretch (recorded ++ more) x = stretch recorded x := by
  rw [stretch, List.drop_append_of_le_length (by omega), List.take_append_of_le_length, stretch]
  rw [List.length_drop]
  omega

theorem Covered.append {log : List (Shipment β)} {p : ℕ} (h : Covered log p)
    (more : List (Shipment β)) : Covered (log ++ more) p := by
  obtain ⟨x, hx, hp⟩ := h
  exact ⟨x, List.mem_append_left _ hx, hp⟩

theorem delivered_empty : Delivered carries empty where
  carried x hx := by cases hx
  kept p hp := by cases hp
  gapless before x after h := by simp [empty] at h

theorem Delivered.step (h : Delivered carries s) (hstep : Step carries s s') :
    Delivered carries s' := by
  cases hstep with
  | record item =>
    refine ⟨fun x hx => ?_, h.kept, h.gapless⟩
    obtain ⟨hlength, hcarries⟩ := h.carried x hx
    rw [List.length_append, stretch_append hlength]
    exact ⟨by omega, hcarries⟩
  | store x hstart hlength hcarries =>
    refine ⟨fun y hy => ?_, fun p hp => (h.kept p hp).append _, ?_⟩
    · rcases List.mem_append.mp hy with hy | hy
      · exact h.carried y hy
      · obtain rfl := List.mem_singleton.mp hy
        exact ⟨hlength, hcarries⟩
    · intro before y after hlog p hp
      -- the new batch is the last one, or the split is one of the old log
      cases after using List.reverseRecOn with
      | nil =>
        obtain ⟨rfl, hlast⟩ := List.append_inj' hlog rfl
        obtain rfl := List.singleton_inj.mp hlast
        exact h.kept p (hp.trans_le hstart)
      | append_singleton after last _ =>
        rw [← List.cons_append, ← List.append_assoc] at hlog
        exact h.gapless before y after (List.append_inj' hlog rfl).1 p hp
  | delete count hcovered =>
    refine ⟨h.carried, fun p hp => ?_, h.gapless⟩
    by_cases hold : p < s.deleted
    · exact h.kept p hold
    · exact hcovered p (not_lt.mp hold) hp

/-- Every run delivers. -/
theorem delivered (h : Steps carries empty s) : Delivered carries s := by
  induction h with
  | refl => exact delivered_empty
  | tail _ hstep ih => exact ih.step hstep

/-- Nothing is deleted that was not recorded. -/
theorem Delivered.deleted_le (h : Delivered carries s) : s.deleted ≤ s.recorded.length := by
  by_contra hmore
  obtain ⟨x, hx, -, hp⟩ := h.kept s.recorded.length (not_le.mp hmore)
  have := (h.carried x hx).1
  omega

/-- What the log covers is an initial part of the items, at every time. -/
theorem Delivered.initial (h : Delivered carries s) {log : List (Shipment β)} (hlog : log <+: s.log)
    {p q : ℕ} (hp : p ≤ q) (hq : Covered log q) : Covered log p := by
  obtain ⟨x, hx, hcovers⟩ := hq
  by_cases hstart : x.start ≤ p
  · exact ⟨x, hx, hstart, hp.trans_lt hcovers.2⟩
  · obtain ⟨before, after, rfl⟩ := List.append_of_mem hx
    obtain ⟨later, hlater⟩ := hlog
    rw [List.append_assoc, List.cons_append] at hlater
    exact (h.gapless before x (after ++ later) hlater.symm p (not_le.mp hstart)).append _

/-- The log covers the first items, and no others. -/
theorem Delivered.covered_iff (h : Delivered carries s) : ∃ n, s.deleted ≤ n ∧
    n ≤ s.recorded.length ∧ ∀ p, Covered s.log p ↔ p < n := by
  classical
  have hlast : ¬ Covered s.log s.recorded.length := by
    rintro ⟨x, hx, -, hend⟩
    have := (h.carried x hx).1
    omega
  have hnot : ∃ p, ¬ Covered s.log p := ⟨_, hlast⟩
  refine ⟨Nat.find hnot, ?_, Nat.find_min' hnot hlast, fun p => ⟨fun hp => ?_, fun hp => ?_⟩⟩
  · by_contra hmore
    exact Nat.find_spec hnot (h.kept _ (not_le.mp hmore))
  · by_contra hmore
    exact Nat.find_spec hnot (h.initial List.prefix_rfl (not_lt.mp hmore) hp)
  · exact not_not.mp (Nat.find_min hnot hp)

/-- The first items are those at the first positions. -/
theorem mem_take_iff {as : List α} {n : ℕ} {a : α} :
    a ∈ as.take n ↔ ∃ p < n, as[p]? = some a := by
  simp only [List.mem_iff_getElem?, List.getElem?_take, Option.ite_none_right_eq_some]

/-- The items of a stretch are those at its positions. -/
theorem mem_stretch {recorded : List α} {x : Shipment β} {a : α} :
    a ∈ stretch recorded x ↔ ∃ p, x.Covers p ∧ recorded[p]? = some a := by
  rw [stretch, mem_take_iff]
  constructor
  · rintro ⟨k, hlt, hget⟩
    rw [List.getElem?_drop] at hget
    exact ⟨x.start + k, ⟨Nat.le_add_right _ _, Nat.add_lt_add_left hlt _⟩, hget⟩
  · rintro ⟨p, ⟨hstart, hend⟩, hget⟩
    refine ⟨p - x.start, by omega, ?_⟩
    rwa [List.getElem?_drop, Nat.add_sub_cancel' hstart]

/-- The log carries the first items, and no others. -/
theorem Delivered.shipped_iff (h : Delivered carries s) : ∃ n, s.deleted ≤ n ∧
    n ≤ s.recorded.length ∧ ∀ a,
      (∃ x ∈ s.log, a ∈ stretch s.recorded x) ↔ a ∈ s.recorded.take n := by
  obtain ⟨n, hdeleted, hlength, hcovered⟩ := h.covered_iff
  refine ⟨n, hdeleted, hlength, fun a => ?_⟩
  rw [mem_take_iff]
  constructor
  · rintro ⟨x, hx, ha⟩
    obtain ⟨p, hp, hget⟩ := mem_stretch.mp ha
    exact ⟨p, (hcovered p).mp ⟨x, hx, hp⟩, hget⟩
  · rintro ⟨p, hlt, hget⟩
    obtain ⟨x, hx, hcovers⟩ := (hcovered p).mpr hlt
    exact ⟨x, hx, mem_stretch.mpr ⟨p, hcovers, hget⟩⟩

end Outbox

end BankPlatform.Library
