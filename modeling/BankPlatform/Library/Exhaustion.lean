import BankPlatform.Library.Interleaving
import Mathlib.Algebra.BigOperators.Group.Finset.Basic
import Mathlib.Algebra.Order.BigOperators.Group.Finset

/-!
# Runs that come to an end

Where every step takes some of the work that its process has still to do, and nobody gives work to
another process, a run comes to an end, whatever the schedule.

## Main definitions

* `Interleaving.Consumes` — every admitted step leaves its process with less work.
* `Interleaving.workOf` — the work of some processes.
* `Interleaving.Exhausted` — no admitted step can be taken.

## Main results

* `Interleaving.Consumes.length_le` — a schedule has no more steps than there is work.
* `Interleaving.Consumes.exists_exhausted` — some run goes on to the end.
-/

namespace BankPlatform.Library.Interleaving

universe u

variable {Pid Shared Local Label : Type u} [DecidableEq Pid]

/-- Every admitted step leaves its process with less work than before. -/
def Consumes (P : Interleaving Pid Shared Local Label) (ok : Guard Pid Shared Local Label)
    (work : Local → ℕ) : Prop :=
  ∀ c i a s l, ok c i a → P.step c.shared i (c.locals i) a = some (s, l) → work l < work (c.locals i)

/-- The work that some processes have still to do. -/
def workOf (work : Local → ℕ) (busy : Finset Pid) (c : Config Pid Shared Local) : ℕ :=
  ∑ i ∈ busy, work (c.locals i)

/-- No admitted step can be taken. -/
def Exhausted (P : Interleaving Pid Shared Local Label) (ok : Guard Pid Shared Local Label)
    (c : Config Pid Shared Local) : Prop :=
  ∀ i a, ok c i a → P.move c i a = none

namespace Consumes

variable {P : Interleaving Pid Shared Local Label} {ok : Guard Pid Shared Local Label}
  {work : Local → ℕ} {busy : Finset Pid} {c c' : Config Pid Shared Local}

/-- A step takes work away, and the processes without work are still without. -/
theorem move (h : P.Consumes ok work) (hidle : ∀ i ∉ busy, work (c.locals i) = 0) {i : Pid}
    {a : Label} (hok : ok c i a) (hmove : P.move c i a = some c') :
    workOf work busy c' < workOf work busy c ∧ ∀ j ∉ busy, work (c'.locals j) = 0 := by
  obtain ⟨s, l, hstep, rfl⟩ := move_eq_some.mp hmove
  have hless := h c i a s l hok hstep
  have hbusy : i ∈ busy := by
    by_contra hnot
    rw [hidle i hnot] at hless
    exact Nat.not_lt_zero _ hless
  have hother {j : Pid} (hj : j ≠ i) :
      work (Function.update c.locals i l j) = work (c.locals j) := by
    rw [Function.update_of_ne hj]
  constructor
  · refine Finset.sum_lt_sum (fun j _ => ?_) ⟨i, hbusy, by simpa using hless⟩
    by_cases hj : j = i
    · subst hj
      simpa using hless.le
    · exact (hother hj).le
  · intro j hj
    have hne : j ≠ i := by
      rintro rfl
      exact hj hbusy
    exact (hother hne).trans (hidle j hj)

/-- A schedule has no more steps than there is work. -/
theorem length_le [∀ c i a, Decidable (ok c i a)] (h : P.Consumes ok work)
    (hidle : ∀ i ∉ busy, work (c.locals i) = 0) {schedule : List (Pid × Label)}
    (hschedule : P.moves ok c schedule = some c') : schedule.length ≤ workOf work busy c := by
  induction schedule generalizing c with
  | nil => exact Nat.zero_le _
  | cons step rest ih =>
    obtain ⟨i, a⟩ := step
    simp only [moves, Option.ite_none_right_eq_some, Option.bind_eq_some_iff] at hschedule
    obtain ⟨hok, d, hmove, hrest⟩ := hschedule
    obtain ⟨hless, hidle'⟩ := h.move hidle hok hmove
    have := ih hidle' hrest
    rw [List.length_cons]
    omega

/-- Some run goes on until no step can be taken. -/
theorem exists_exhausted (h : P.Consumes ok work) (hidle : ∀ i ∉ busy, work (c.locals i) = 0) :
    ∃ c', P.Run ok c c' ∧ P.Exhausted ok c' := by
  induction hwork : workOf work busy c using Nat.strong_induction_on generalizing c with
  | _ n ih =>
    by_cases hend : P.Exhausted ok c
    · exact ⟨c, .refl, hend⟩
    · simp only [Exhausted, not_forall] at hend
      obtain ⟨i, a, hok, hmove⟩ := hend
      obtain ⟨d, hd⟩ := Option.ne_none_iff_exists'.mp hmove
      obtain ⟨hless, hidle'⟩ := h.move hidle hok hd
      obtain ⟨c', hrun, hend⟩ := ih _ (hwork ▸ hless) hidle' rfl
      exact ⟨c', (Run.step .refl hok hd).trans hrun, hend⟩

end Consumes

end BankPlatform.Library.Interleaving
