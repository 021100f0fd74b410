import Mathlib.Logic.Function.Basic
import Mathlib.Logic.Relation

/-!
# Interleaved processes over a shared state

A family of processes that share one state. Every process owns a local state, and a step of
process `i` reads the shared state and its own local state and changes these two only. A run is
any interleaving of such steps, restricted to the steps that a guard admits.

## Main definitions

* `Interleaving` — the step function of one process.
* `Interleaving.move`, `Interleaving.moves` — one step of the whole family, and a list of steps.
* `Interleaving.Run` — the configurations that a guarded run reaches.
* `Interleaving.RelyGuarantee` — local assertions that survive the steps of the others.

## Main results

* `Interleaving.RelyGuarantee.sound` — the assertions hold throughout a run.
* `Interleaving.Run.simulate` — a machine that can go along with each step of a process goes along
  with every run.
-/

namespace BankPlatform.Library

universe u

/-- The step function of one process; `none` means that the step cannot be taken now. -/
structure Interleaving (Pid Shared Local Label : Type u) where
  step : Shared → Pid → Local → Label → Option (Shared × Local)

/-- The shared state together with the local state of every process. -/
structure Config (Pid Shared Local : Type u) where
  shared : Shared
  locals : Pid → Local

namespace Interleaving

variable {Pid Shared Local Label : Type u} [DecidableEq Pid]
variable (P : Interleaving Pid Shared Local Label)

/-- One step of process `i` inside the whole family. -/
def move (c : Config Pid Shared Local) (i : Pid) (a : Label) : Option (Config Pid Shared Local) :=
  (P.step c.shared i (c.locals i) a).map fun r => ⟨r.1, Function.update c.locals i r.2⟩

/-- The steps that a run may take. -/
abbrev Guard (Pid Shared Local Label : Type u) := Config Pid Shared Local → Pid → Label → Prop

/-- The guard that admits every step. -/
def anyStep : Guard Pid Shared Local Label := fun _ _ _ => True

instance (c : Config Pid Shared Local) (i : Pid) (a : Label) : Decidable (anyStep c i a) :=
  .isTrue trivial

/-- Take the listed steps, each by the process it names; `none` where a step is not admitted or
cannot be taken. -/
def moves (ok : Guard Pid Shared Local Label) [∀ c i a, Decidable (ok c i a)]
    (c : Config Pid Shared Local) : List (Pid × Label) → Option (Config Pid Shared Local)
  | [] => some c
  | (i, a) :: rest => if ok c i a then (P.move c i a).bind fun c' => moves ok c' rest else none

/-- The configurations reached from `c₀` by steps that `ok` admits, in any interleaving. -/
inductive Run (ok : Guard Pid Shared Local Label) (c₀ : Config Pid Shared Local) :
    Config Pid Shared Local → Prop
  | refl : Run ok c₀ c₀
  | step {c c' : Config Pid Shared Local} {i : Pid} {a : Label} :
      Run ok c₀ c → ok c i a → P.move c i a = some c' → Run ok c₀ c'

variable {P}

theorem move_eq_some {c c' : Config Pid Shared Local} {i : Pid} {a : Label} :
    P.move c i a = some c' ↔ ∃ s l, P.step c.shared i (c.locals i) a = some (s, l) ∧
      c' = ⟨s, Function.update c.locals i l⟩ := by
  simp only [move, Option.map_eq_some_iff, Prod.exists]
  exact exists₂_congr fun s l => and_congr_right fun _ => eq_comm

/-- Listed steps make a run. -/
theorem Run.of_moves {ok : Guard Pid Shared Local Label} [∀ c i a, Decidable (ok c i a)]
    {c₀ c c' : Config Pid Shared Local} {w : List (Pid × Label)} (h : P.Run ok c₀ c)
    (hw : P.moves ok c w = some c') : P.Run ok c₀ c' := by
  induction w generalizing c with
  | nil =>
    obtain rfl : c = c' := by simpa [moves] using hw
    exact h
  | cons x rest ih =>
    simp only [moves, Option.ite_none_right_eq_some, Option.bind_eq_some_iff] at hw
    obtain ⟨hok, d, hd, hrest⟩ := hw
    exact ih (h.step hok hd) hrest

/-- A run can be continued. -/
theorem Run.trans {ok : Guard Pid Shared Local Label} {c₀ c c' : Config Pid Shared Local}
    (h : P.Run ok c₀ c) (h' : P.Run ok c c') : P.Run ok c₀ c' := by
  induction h' with
  | refl => exact h
  | step _ hok hmove ih => exact ih.step hok hmove

variable (P) in
/-- Steps of process `i` alone, from its own view. -/
def Alone (ok : Shared → Label → Prop) (i : Pid) : Shared × Local → Shared × Local → Prop :=
  Relation.ReflTransGen fun x y => ∃ a, ok x.1 a ∧ P.step x.1 i x.2 a = some y

/-- What a process can do alone it can do among the others. -/
theorem Alone.run {okAlone : Shared → Label → Prop} {ok : Guard Pid Shared Local Label} {i : Pid}
    {c : Config Pid Shared Local} {y : Shared × Local}
    (h : P.Alone okAlone i (c.shared, c.locals i) y)
    (himp : ∀ c a, okAlone c.shared a → ok c i a) :
    ∃ c', P.Run ok c c' ∧ (c'.shared, c'.locals i) = y := by
  induction h with
  | refl => exact ⟨c, .refl, rfl⟩
  | @tail x y _ hstep ih =>
    obtain ⟨c', hrun, rfl⟩ := ih
    obtain ⟨a, hok, ha⟩ := hstep
    exact ⟨⟨y.1, Function.update c'.locals i y.2⟩,
      hrun.step (himp c' a hok) (move_eq_some.mpr ⟨y.1, y.2, ha, rfl⟩), by simp⟩

/-- What holds at the start and is kept by every admitted step holds in every run. The step may
use what is already `known` of every run. -/
theorem Run.invariant {ok : Guard Pid Shared Local Label} {c₀ c : Config Pid Shared Local}
    (h : P.Run ok c₀ c) (known inv : Config Pid Shared Local → Prop)
    (hknown : ∀ c, P.Run ok c₀ c → known c) (init : inv c₀)
    (keep : ∀ c i a c', known c → inv c → ok c i a → P.move c i a = some c' → inv c') :
    inv c := by
  induction h with
  | refl => exact init
  | step hc hok hmove ih => exact keep _ _ _ _ (hknown _ hc) ih hok hmove

/-- A run whose steps a second guard admits too is a run of that guard. -/
theorem Run.refine {ok ok' : Guard Pid Shared Local Label} {c₀ : Config Pid Shared Local}
    (himp : ∀ c i a c', P.Run ok c₀ c → ok c i a → P.move c i a = some c' → ok' c i a)
    {c : Config Pid Shared Local} (h : P.Run ok c₀ c) : P.Run ok' c₀ c := by
  induction h with
  | refl => exact .refl
  | step hc hok hmove ih => exact ih.step (himp _ _ _ _ hc hok hmove) hmove

theorem Run.any {ok : Guard Pid Shared Local Label} {c₀ c : Config Pid Shared Local}
    (h : P.Run ok c₀ c) : P.Run anyStep c₀ c :=
  h.refine fun _ _ _ _ _ _ _ => trivial

/-- A machine with steps `R` goes along with process `i` through a run, if it can go along with
each step of `i`, and no step of another process parts them. -/
theorem Run.simulate {M : Type*} {R : M → M → Prop} {sim : Shared → Local → M → Prop} {i : Pid}
    {ok : Guard Pid Shared Local Label}
    (own : ∀ s l a s' l' m, sim s l m → P.step s i l a = some (s', l') →
      ∃ m', Relation.ReflTransGen R m m' ∧ sim s' l' m')
    (other : ∀ s j l a s' l', j ≠ i → P.step s j l a = some (s', l') →
      ∀ li m, sim s li m → sim s' li m)
    {c c' : Config Pid Shared Local} (h : P.Run ok c c') {m : M} (hm : sim c.shared (c.locals i) m) :
    ∃ m', Relation.ReflTransGen R m m' ∧ sim c'.shared (c'.locals i) m' := by
  induction h with
  | refl => exact ⟨m, .refl, hm⟩
  | @step d d' j a _ _ hmove ih =>
    obtain ⟨m', hsteps, hsim⟩ := ih
    obtain ⟨s, l, hstep, rfl⟩ := move_eq_some.mp hmove
    by_cases hj : j = i
    · subst hj
      obtain ⟨m'', hsteps', hsim'⟩ := own _ _ _ _ _ _ hsim hstep
      exact ⟨m'', hsteps.trans hsteps', by simpa using hsim'⟩
    · refine ⟨m', hsteps, ?_⟩
      simpa [Function.update_of_ne (Ne.symm hj)] using other _ _ _ _ _ _ hj hstep _ _ hsim

/-- Local assertions for a family of processes: a step of process `i` keeps the shared invariant,
re-establishes the assertion of `i`, and changes the shared state only as its guarantee allows;
no guarantee of another process breaks the assertion of `i`. -/
structure RelyGuarantee (P : Interleaving Pid Shared Local Label)
    (ok : Guard Pid Shared Local Label) (known : Config Pid Shared Local → Prop) where
  inv : Shared → Prop
  asserts : Pid → Shared → Local → Prop
  guarantee : Pid → Shared → Shared → Prop
  own : ∀ c i a s l, known c → inv c.shared → (∀ j, asserts j c.shared (c.locals j)) →
    ok c i a → P.step c.shared i (c.locals i) a = some (s, l) →
      inv s ∧ asserts i s l ∧ guarantee i c.shared s
  stable : ∀ i j s s' l, i ≠ j → inv s → guarantee j s s' → asserts i s l → asserts i s' l

/-- The shared invariant and every local assertion hold throughout a run. -/
theorem RelyGuarantee.sound {ok : Guard Pid Shared Local Label}
    {known : Config Pid Shared Local → Prop} (R : RelyGuarantee P ok known)
    {c₀ c : Config Pid Shared Local} (h : P.Run ok c₀ c)
    (hknown : ∀ c, P.Run ok c₀ c → known c) (hinv : R.inv c₀.shared)
    (hasserts : ∀ j, R.asserts j c₀.shared (c₀.locals j)) :
    R.inv c.shared ∧ ∀ j, R.asserts j c.shared (c.locals j) := by
  refine h.invariant known (fun c => R.inv c.shared ∧ ∀ j, R.asserts j c.shared (c.locals j))
    hknown ⟨hinv, hasserts⟩ ?_
  rintro c i a c' hk ⟨hi, ha⟩ hok hmove
  obtain ⟨s, l, hstep, rfl⟩ := move_eq_some.mp hmove
  obtain ⟨hs, hl, hg⟩ := R.own c i a s l hk hi ha hok hstep
  refine ⟨hs, fun j => ?_⟩
  by_cases hj : j = i
  · subst hj
    simpa using hl
  · simpa [Function.update_of_ne hj] using R.stable j i c.shared s _ hj hi hg (ha j)

end Interleaving

end BankPlatform.Library
