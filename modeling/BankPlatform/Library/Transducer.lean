import Mathlib.Data.List.Basic
import Mathlib.Logic.Function.Basic

/-!
# Transducers

A transducer reads items one after the other and tells something of each, which may depend on the
items before. With one copy for each key, what a copy tells depends on the items of its key only.

## Main definitions

* `Transducer.tells`, `Transducer.tellsEach` — what is told of some items, and of each of some
  batches.
* `Transducer.keyed` — a copy for each key.

## Main results

* `Transducer.flatten_tellsEach` — batches make no difference.
* `Transducer.tells_keyed` — the items of other keys make no difference.
-/

namespace BankPlatform.Library

structure Transducer (S I O : Type*) where
  next : S → I → S
  output : S → I → List O

namespace Transducer

variable {S I O K : Type*} (T : Transducer S I O)

/-- The state behind some items. -/
def after (s : S) (items : List I) : S := items.foldl T.next s

/-- What is told of some items. -/
def tells : S → List I → List O
  | _, [] => []
  | s, i :: items => T.output s i ++ tells (T.next s i) items

/-- What is told of each batch. -/
def tellsEach : S → List (List I) → List (List O)
  | _, [] => []
  | s, batch :: batches => T.tells s batch :: tellsEach (T.after s batch) batches

/-- A copy for each key; what it tells is marked with the key. -/
def keyed [DecidableEq K] (key : I → K) : Transducer (K → S) I (K × O) where
  next states i := Function.update states (key i) (T.next (states (key i)) i)
  output states i := (T.output (states (key i)) i).map (Prod.mk (key i))

@[simp] theorem after_nil (s : S) : T.after s [] = s := rfl

@[simp] theorem after_cons (s : S) (i : I) (items : List I) :
    T.after s (i :: items) = T.after (T.next s i) items := rfl

@[simp] theorem tells_nil (s : S) : T.tells s [] = [] := rfl

@[simp] theorem tells_cons (s : S) (i : I) (items : List I) :
    T.tells s (i :: items) = T.output s i ++ T.tells (T.next s i) items := rfl

theorem tells_append (s : S) (items items' : List I) :
    T.tells s (items ++ items') = T.tells s items ++ T.tells (T.after s items) items' := by
  induction items generalizing s <;> grind [tells_nil, tells_cons, after_nil, after_cons]

/-- It makes no difference how items are grouped. -/
theorem flatten_tellsEach (s : S) (batches : List (List I)) :
    (T.tellsEach s batches).flatten = T.tells s batches.flatten := by
  induction batches generalizing s with
  | nil => rfl
  | cons batch batches ih => rw [tellsEach, List.flatten_cons, ih, List.flatten_cons, tells_append]

/-- Items that change nothing and of which nothing is told may be left out. -/
theorem tells_filter {p : I → Bool} (hnext : ∀ s i, p i = false → T.next s i = s)
    (houtput : ∀ s i, p i = false → T.output s i = []) (s : S) (items : List I) :
    T.tells s (items.filter p) = T.tells s items := by
  induction items generalizing s <;> grind [tells_nil, tells_cons]

variable [DecidableEq K] {key : I → K}

theorem next_keyed (states : K → S) (i : I) (k : K) :
    (T.keyed key).next states i k = if key i = k then T.next (states k) i else states k := by
  by_cases hkey : key i = k
  · subst hkey
    simp [keyed]
  · simp [keyed, hkey, Function.update_of_ne (Ne.symm hkey)]

@[simp] theorem output_keyed (states : K → S) (i : I) :
    (T.keyed key).output states i = (T.output (states (key i)) i).map (Prod.mk (key i)) := rfl

/-- A copy reads the items of its key. -/
theorem after_keyed (states : K → S) (items : List I) (k : K) :
    (T.keyed key).after states items k =
      T.after (states k) (items.filter fun i => key i = k) := by
  induction items generalizing states with
  | nil => rfl
  | cons i items ih =>
    rw [after_cons, ih, next_keyed]
    by_cases hkey : key i = k
    · rw [if_pos hkey, List.filter_cons_of_pos (by simpa using hkey), after_cons]
    · rw [if_neg hkey, List.filter_cons_of_neg (by simpa using hkey)]

/-- What is told under a key depends on the items of this key only. -/
theorem tells_keyed (states : K → S) (items : List I) (k : K) :
    ((T.keyed key).tells states items).filter (fun o => o.1 = k) =
      (T.tells (states k) (items.filter fun i => key i = k)).map (Prod.mk k) := by
  induction items generalizing states with
  | nil => rfl
  | cons i items ih =>
    rw [tells_cons, List.filter_append, ih, next_keyed, output_keyed, List.filter_map]
    by_cases hkey : key i = k
    · subst hkey
      rw [if_pos rfl, List.filter_cons_of_pos (by simp), tells_cons, List.map_append]
      simp [Function.comp_def]
    · rw [if_neg hkey, List.filter_cons_of_neg (by simpa using hkey)]
      simp [hkey]

end Transducer

end BankPlatform.Library
