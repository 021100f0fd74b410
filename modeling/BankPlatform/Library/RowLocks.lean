import Mathlib.Data.Fintype.Card
import Mathlib.Data.Fintype.EquivFin
import Mathlib.Data.Fintype.Sets
import Mathlib.Logic.Relation
import Mathlib.Order.Basic
import Mathlib.Order.WellFounded

/-!
# Row locks and wait-for graphs

The two row-lock modes that a `SELECT ... FOR UPDATE` and a foreign-key check take. A lock table
only ever holds compatible locks; a process that asks for a conflicting one waits. When every
process asks for rows above those it holds, no cycle of waiting processes exists.

## Main definitions

* `LockMode`, `LockMode.conflicts` — the modes and when two of them exclude each other.
* `LockTable` — the locks held by open transactions, pairwise compatible.
* `LockTable.acquire?`, `LockTable.release` — take a lock or wait, and end a transaction.
* `LockTable.WaitsFor` — the wait-for graph.
-/

namespace BankPlatform.Library

inductive LockMode where
  | forKeyShare
  | forUpdate
  deriving DecidableEq, Repr

/-- `FOR UPDATE` excludes every other lock on the row, `FOR KEY SHARE` admits itself. -/
def LockMode.conflicts : LockMode → LockMode → Bool
  | .forKeyShare, .forKeyShare => false
  | _, _ => true

namespace LockMode

@[simp] theorem conflicts_forUpdate (m : LockMode) : m.conflicts .forUpdate = true := by
  cases m <;> rfl

@[simp] theorem forUpdate_conflicts (m : LockMode) : conflicts .forUpdate m = true := by
  cases m <;> rfl

theorem conflicts_comm (m m' : LockMode) : m.conflicts m' = m'.conflicts m := by
  cases m <;> cases m' <;> rfl

end LockMode

/-- One lock: who holds it, on which row, in which mode. -/
structure Held (Pid Row : Type*) where
  pid : Pid
  row : Row
  mode : LockMode
  deriving DecidableEq

/-- Two locks that may be held at the same time. -/
def Held.compatible {Pid Row : Type*} (e f : Held Pid Row) : Prop :=
  e.row = f.row → e.pid ≠ f.pid → e.mode.conflicts f.mode = false

/-- The locks that open transactions hold. -/
structure LockTable (Pid Row : Type*) where
  held : List (Held Pid Row)
  compatible : ∀ e ∈ held, ∀ f ∈ held, e.compatible f

namespace LockTable

variable {Pid Row : Type*}

/-- No transaction is open. -/
def empty : LockTable Pid Row := ⟨[], by simp⟩

/-- Process `i` holds a lock of mode `m` on `row`. -/
def Holds (t : LockTable Pid Row) (i : Pid) (row : Row) (m : LockMode) : Prop :=
  ⟨i, row, m⟩ ∈ t.held

@[simp] theorem not_holds_empty (i : Pid) (row : Row) (m : LockMode) :
    ¬ (empty : LockTable Pid Row).Holds i row m := by
  simp [Holds, empty]

/-- Nobody else holds a lock on a row that is locked for update. -/
theorem Holds.exclusive {t : LockTable Pid Row} {i j : Pid} {row : Row} {m : LockMode}
    (hi : t.Holds i row .forUpdate) (hj : t.Holds j row m) : i = j := by
  by_contra hne
  have := t.compatible _ hi _ hj rfl hne
  simp at this

variable [DecidableEq Pid] [DecidableEq Row]

instance (t : LockTable Pid Row) (i : Pid) (row : Row) (m : LockMode) :
    Decidable (t.Holds i row m) :=
  inferInstanceAs (Decidable (_ ∈ _))

/-- Nobody else holds a conflicting lock on `row`. -/
def available (t : LockTable Pid Row) (i : Pid) (row : Row) (m : LockMode) : Bool :=
  t.held.all fun e => e.row ≠ row || e.pid = i || !m.conflicts e.mode

theorem available_iff {t : LockTable Pid Row} {i : Pid} {row : Row} {m : LockMode} :
    t.available i row m ↔ ∀ j m', t.Holds j row m' → i ≠ j → m.conflicts m' = false := by
  simp only [available, List.all_eq_true, Bool.or_eq_true, decide_eq_true_eq, Bool.not_eq_true',
    Holds]
  constructor
  · intro h j m' hj hne
    rcases h _ hj with (h | h) | h
    · simp at h
    · exact absurd h.symm hne
    · exact h
  · rintro h ⟨j, row', m'⟩ he
    by_cases hr : row' = row
    · subst hr
      by_cases hj : i = j
      · simp [hj]
      · simp [h j m' he hj]
    · simp [hr]

/-- Take a lock; `none` while a conflicting lock makes the process wait. -/
def acquire? (t : LockTable Pid Row) (i : Pid) (row : Row) (m : LockMode) :
    Option (LockTable Pid Row) :=
  if h : t.available i row m then
    some
      { held := ⟨i, row, m⟩ :: t.held
        compatible := by
          rw [available_iff] at h
          intro e he f hf hrow hne
          rcases List.mem_cons.mp he with rfl | he <;> rcases List.mem_cons.mp hf with rfl | hf
          · exact absurd rfl hne
          · exact h f.pid f.mode (by rw [Holds, show row = f.row from hrow]; exact hf) hne
          · rw [LockMode.conflicts_comm]
            exact h e.pid e.mode (by rw [Holds, show row = e.row from hrow.symm]; exact he) hne.symm
          · exact t.compatible e he f hf hrow hne }
  else none

/-- The end of a transaction drops every lock it took. -/
def release (t : LockTable Pid Row) (i : Pid) : LockTable Pid Row where
  held := t.held.filter fun e => e.pid ≠ i
  compatible e he f hf :=
    t.compatible e (List.mem_filter.mp he).1 f (List.mem_filter.mp hf).1

theorem acquire?_of_available {t : LockTable Pid Row} {i : Pid} {row : Row} {m : LockMode}
    (h : t.available i row m) :
    ∃ t', t.acquire? i row m = some t' ∧ t'.held = ⟨i, row, m⟩ :: t.held := by
  simp [acquire?, h]

theorem holds_acquire? {t t' : LockTable Pid Row} {i : Pid} {row : Row} {m : LockMode}
    (h : t.acquire? i row m = some t') (j : Pid) (row' : Row) (m' : LockMode) :
    t'.Holds j row' m' ↔ (j = i ∧ row' = row ∧ m' = m) ∨ t.Holds j row' m' := by
  unfold acquire? at h
  split at h
  · cases h
    simp [Holds]
  · cases h

omit [DecidableEq Row] in
@[simp] theorem holds_release (t : LockTable Pid Row) (i j : Pid) (row : Row) (m : LockMode) :
    (t.release i).Holds j row m ↔ t.Holds j row m ∧ j ≠ i := by
  simp [Holds, release]

/-! ## The wait-for graph -/

section WaitFor

variable (t : LockTable Pid Row) (request : Pid → Option (Row × LockMode))

/-- Process `i` asks for a lock that conflicts with one that `j` holds. -/
def WaitsFor (i j : Pid) : Prop :=
  i ≠ j ∧ ∃ row m m', request i = some (row, m) ∧ t.Holds j row m' ∧ m.conflicts m' = true

/-- A cycle of the wait-for graph: processes that wait for each other for ever. -/
def Deadlocked : Prop := ∃ i, Relation.TransGen (WaitsFor t request) i i

variable {t request}

omit [DecidableEq Pid] [DecidableEq Row] in
/-- A cycle stays one when more requests are taken into account. -/
theorem Deadlocked.mono {request' : Pid → Option (Row × LockMode)}
    (himp : ∀ i x, request i = some x → request' i = some x) (h : Deadlocked t request) :
    Deadlocked t request' := by
  obtain ⟨i, hcycle⟩ := h
  refine ⟨i, Relation.TransGen.mono ?_ i i hcycle⟩
  rintro j k ⟨hne, row, m, m', hrequest, hheld, hconflict⟩
  exact ⟨hne, row, m, m', himp j _ hrequest, hheld, hconflict⟩

omit [DecidableEq Pid] [DecidableEq Row] in
/-- When every waiting process asks for a row above each row it holds, or for one that it holds
exclusively already, nobody waits in a cycle. -/
theorem not_deadlocked_of_ordered {α : Type*} [Preorder α] (rank : Row → α)
    (ordered : ∀ i row m, request i = some (row, m) → ∀ row' m', t.Holds i row' m' →
      rank row' < rank row ∨ t.Holds i row .forUpdate) :
    ¬ t.Deadlocked request := by
  -- along a path the requested rows climb, so no path returns to its start
  have climb : ∀ i j, Relation.TransGen (WaitsFor t request) i j → ∀ k, WaitsFor t request j k →
      ∃ row m row' m', request i = some (row, m) ∧ request j = some (row', m') ∧
        rank row < rank row' := by
    intro i j hpath
    have edge : ∀ i j k, WaitsFor t request i j → WaitsFor t request j k →
        ∃ row m row' m', request i = some (row, m) ∧ request j = some (row', m') ∧
          rank row < rank row' := by
      rintro i j k ⟨_, row, m, m₁, hi, hj, _⟩ ⟨hne, row', m', m₂, hj', hk, _⟩
      rcases ordered j row' m' hj' row m₁ hj with hlt | hown
      · exact ⟨row, m, row', m', hi, hj', hlt⟩
      · exact absurd (hown.exclusive hk) hne
    induction hpath with
    | single h => exact fun k hk => edge _ _ k h hk
    | tail _ h ih =>
      intro k hk
      obtain ⟨row, m, row₁, m₁, hi, hj, hlt⟩ := ih _ h
      obtain ⟨row₂, m₂, row', m', hj', hk', hlt'⟩ := edge _ _ k h hk
      obtain ⟨rfl, rfl⟩ : row₁ = row₂ ∧ m₁ = m₂ := by simpa [hj] using hj'
      exact ⟨row, m, row', m', hi, hk', lt_trans hlt hlt'⟩
  rintro ⟨i, hcycle⟩
  obtain ⟨j, hij, _⟩ := Relation.TransGen.head'_iff.mp hcycle
  obtain ⟨row, m, row', m', hi, hi', hlt⟩ := climb i i hcycle j hij
  obtain ⟨rfl, rfl⟩ : row = row' ∧ m = m' := by simpa [hi] using hi'
  exact absurd hlt (lt_irrefl _)

omit [DecidableEq Pid] [DecidableEq Row] in
/-- Among finitely many processes without a cycle, some process waits for none of the others. -/
theorem exists_not_waiting (h : ¬ t.Deadlocked request) {busy : Finset Pid}
    (hbusy : busy.Nonempty) : ∃ i ∈ busy, ∀ j ∈ busy, ¬ WaitsFor t request i j := by
  let path : {i // i ∈ busy} → {i // i ∈ busy} → Prop :=
    fun j i => Relation.TransGen (WaitsFor t request) i j
  have : IsTrans _ path := ⟨fun _ _ _ hkj hji => hji.trans hkj⟩
  have : Std.Irrefl path := ⟨fun i hcycle => h ⟨i, hcycle⟩⟩
  obtain ⟨i, hi⟩ := hbusy
  obtain ⟨⟨last, hlast⟩, -, hmin⟩ :=
    (Finite.wellFounded_of_trans_of_irrefl path).has_min Set.univ ⟨⟨i, hi⟩, trivial⟩
  exact ⟨last, hlast, fun j hj hwaits => hmin ⟨j, hj⟩ trivial (.single hwaits)⟩

end WaitFor

end LockTable

end BankPlatform.Library
