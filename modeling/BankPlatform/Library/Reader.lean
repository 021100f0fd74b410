import Mathlib.Data.List.Basic

/-!
# Readers

A reader is a computation that may fail and moves a position `σ` through an input. `Reads` says
what it makes of some bytes, wherever they stand; the rules below put the readers of the parts of
a format together.
-/

namespace BankPlatform.Library

universe u

theorem ok_bind {α β ε : Type u} (a : α) (f : α → Except ε β) : (Except.ok a >>= f) = f a := rfl

theorem error_bind {α β ε : Type u} (e : ε) (f : α → Except ε β) :
    ((Except.error e : Except ε α) >>= f) = .error e := rfl

/-- A computation that moves a position and may fail. -/
abbrev Reader (σ ε : Type u) := StateT σ (Except ε)

namespace Reader

variable {σ ε α γ : Type u} {β τ : Type*}

/-- Run the body of a counted loop. -/
def forTimes (body : α → Reader σ ε α) : ℕ → α → Reader σ ε α
  | 0, a => pure a
  | n + 1, a => body a >>= forTimes body n

variable (place : List β → List β → σ)

/-- The reader turns `xs` into `a` and moves behind it, wherever `xs` stands in the input. -/
def Reads (p : Reader σ ε α) (xs : List β) (a : α) : Prop :=
  ∀ before after, p.run (place before (xs ++ after)) = .ok (a, place (before ++ xs) after)

variable {place}

theorem Reads.pure (a : α) : Reads place (pure a : Reader σ ε α) [] a := by
  intro before after
  rw [List.append_nil]
  rfl

theorem Reads.bind {p : Reader σ ε α} {f : α → Reader σ ε γ} {xs ys : List β} {a : α} {c : γ}
    (hp : Reads place p xs a) (hf : Reads place (f a) ys c) :
    Reads place (p >>= f) (xs ++ ys) c := by
  intro before after
  rw [StateT.run_bind, List.append_assoc, hp before (ys ++ after), ← List.append_assoc]
  exact hf (before ++ xs) after

/-- A last step that reads nothing. -/
theorem Reads.map {p : Reader σ ε α} {xs : List β} {a : α} (hp : Reads place p xs a) (f : α → γ) :
    Reads place (p >>= fun x => Pure.pure (f x)) xs (f a) := by
  have hpure : Reads place (Pure.pure (f a) : Reader σ ε γ) [] (f a) := .pure _
  have := hp.bind (f := fun x => Pure.pure (f x)) hpure
  rwa [List.append_nil] at this

/-- A loop over a list reads the encodings of its rounds one after another. -/
theorem Reads.foldlM {body : α → τ → Reader σ ε α} {encode : τ → List β} {step : α → τ → α}
    (items : List τ) (h : ∀ item ∈ items, ∀ a, Reads place (body a item) (encode item) (step a item))
    (a : α) :
    Reads place (items.foldlM body a) (items.flatMap encode) (items.foldl step a) := by
  induction items generalizing a with
  | nil => exact .pure a
  | cons item items ih =>
    rw [List.flatMap_cons, List.foldlM_cons]
    exact (h item List.mem_cons_self a).bind
      (ih (fun x hx => h x (List.mem_cons_of_mem _ hx)) (step a item))

/-- A counted loop reads the encodings of its rounds one after another. -/
theorem Reads.forTimes {body : α → Reader σ ε α} {encode : τ → List β} {step : α → τ → α}
    (items : List τ) (h : ∀ item ∈ items, ∀ a, Reads place (body a) (encode item) (step a item))
    (a : α) :
    Reads place (forTimes body items.length a) (items.flatMap encode) (items.foldl step a) := by
  induction items generalizing a with
  | nil => exact .pure a
  | cons item items ih =>
    rw [List.flatMap_cons]
    exact (h item List.mem_cons_self a).bind
      (ih (fun x hx => h x (List.mem_cons_of_mem _ hx)) (step a item))

end Reader

end BankPlatform.Library
