import Mathlib.Data.List.Basic

/-!
# Histories

A history is the list of the events of a run, oldest first. Safety properties about the order of
events say of each event what had been recorded before it. They are proved once for the event that
is recorded last and then hold for good, since a history only grows.

## Main definitions

* `Recorded P log` — at the time of each event of the history, `P` held of the events before it.
-/

namespace BankPlatform.Library

variable {E : Type*} {P : List E → E → Prop}

/-- Every event satisfies `P` together with the events that were recorded before it. -/
inductive Recorded (P : List E → E → Prop) : List E → Prop
  | nil : Recorded P []
  | snoc {log : List E} {e : E} : Recorded P log → P log e → Recorded P (log ++ [e])

namespace Recorded

theorem append {log es : List E} (h : Recorded P log)
    (hes : ∀ before e after, es = before ++ e :: after → P (log ++ before) e) :
    Recorded P (log ++ es) := by
  induction es generalizing log with
  | nil => simpa using h
  | cons e es ih =>
    have hfirst : Recorded P (log ++ [e]) := h.snoc (by simpa using hes [] e es rfl)
    have := ih hfirst fun before x after hsplit => by
      simpa using hes (e :: before) x after (by rw [hsplit]; rfl)
    simpa using this

/-- What held when an event was recorded. -/
theorem of_split {log before after : List E} {e : E} (h : Recorded P log)
    (hsplit : log = before ++ e :: after) : P before e := by
  induction h generalizing after with
  | nil => simp at hsplit
  | @snoc log' x _ hx ih =>
    rcases List.eq_nil_or_concat after with rfl | ⟨rest, y, rfl⟩
    · obtain ⟨rfl, hxe⟩ := List.append_inj' hsplit rfl
      obtain rfl : x = e := by simpa using hxe
      exact hx
    · have hsplit' : log' ++ [x] = (before ++ e :: rest) ++ [y] := by simpa using hsplit
      exact ih (List.append_inj' hsplit' rfl).1

end Recorded

end BankPlatform.Library
