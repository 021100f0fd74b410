import BankPlatform.Library.Interleaving

/-!
# Serial runs

A process may be inside a transaction, which begins at the `origin` of its local state. In a
serial run a process takes a step only while no other process is inside one. When each step of
an interleaving can be put off until its transaction ends, and the whole transaction then be
replayed by its process alone, every run has a serial one that reaches the same state.

## Main definitions

* `Interleaving.serial` — the guard that lets one transaction run at a time.
* `Interleaving.Serializes` — how the transactions of an interleaving are replayed.

## Main results

* `Interleaving.Serializes.sound` — every run has a serial run behind it.
-/

namespace BankPlatform.Library

universe u

namespace Interleaving

variable {Pid Shared Local Label : Type u} [DecidableEq Pid]
variable {P : Interleaving Pid Shared Local Label}

/-- No other process is inside a transaction. -/
def serial (origin : Local → Local) : Guard Pid Shared Local Label :=
  fun c i _ => ∀ j, j ≠ i → origin (c.locals j) = c.locals j

/-- What a process does alone, while the others are outside their transactions, is serial. -/
theorem Alone.serial (origin : Local → Local) {i : Pid} {c : Config Pid Shared Local}
    {y : Shared × Local} (h : P.Alone (fun _ _ => True) i (c.shared, c.locals i) y)
    (hc : ∀ j, j ≠ i → origin (c.locals j) = c.locals j) :
    P.Run (serial origin) c ⟨y.1, Function.update c.locals i y.2⟩ := by
  induction h with
  | refl =>
    rw [Function.update_eq_self]
    exact .refl
  | @tail x y _ hstep ih =>
    obtain ⟨a, _, ha⟩ := hstep
    refine ih.step (i := i) (a := a) (fun j hj => ?_) (move_eq_some.mpr ⟨y.1, y.2, ?_, ?_⟩)
    · simpa [Function.update_of_ne hj] using hc j hj
    · simpa using ha
    · simp

/-- The transactions of an interleaving. A step either leaves its process inside its transaction,
or the transaction up to this step can be replayed from its origin by the process alone, on a
shared state that shows the `same` as the present one. -/
structure Serializes (P : Interleaving Pid Shared Local Label)
    (ok : Guard Pid Shared Local Label) (known : Config Pid Shared Local → Prop) where
  origin : Local → Local
  origin_origin : ∀ l, origin (origin l) = origin l
  same : Shared → Shared → Prop
  replay : ∀ c i a s l t, known c → ok c i a → P.step c.shared i (c.locals i) a = some (s, l) →
    same c.shared t →
      ∃ t', P.Alone (fun _ _ => True) i (t, origin (c.locals i)) (t', origin l) ∧ same s t'

/-- Behind every run there is a serial one that shows the same and has each process at the origin
of its transaction. -/
theorem Serializes.sound {ok : Guard Pid Shared Local Label}
    {known : Config Pid Shared Local → Prop} (S : Serializes P ok known)
    {c₀ c : Config Pid Shared Local} (h : P.Run ok c₀ c) (hknown : ∀ c, P.Run ok c₀ c → known c)
    (hsame : S.same c₀.shared c₀.shared) (hstart : ∀ i, S.origin (c₀.locals i) = c₀.locals i) :
    ∃ t, P.Run (serial S.origin) c₀ ⟨t, S.origin ∘ c.locals⟩ ∧ S.same c.shared t := by
  induction h with
  | refl =>
    refine ⟨c₀.shared, ?_, hsame⟩
    rw [show S.origin ∘ c₀.locals = c₀.locals from funext hstart]
    exact .refl
  | @step c c' i a hc hok hmove ih =>
    obtain ⟨t, hrun, ht⟩ := ih
    obtain ⟨s, l, hstep, rfl⟩ := move_eq_some.mp hmove
    obtain ⟨t', halone, ht'⟩ := S.replay c i a s l t (hknown c hc) hok hstep ht
    refine ⟨t', ?_, ht'⟩
    rw [Function.comp_update]
    have hreplay := Alone.serial S.origin (c := ⟨t, S.origin ∘ c.locals⟩) halone fun j _ =>
      S.origin_origin (c.locals j)
    exact hrun.trans hreplay

end Interleaving

end BankPlatform.Library
