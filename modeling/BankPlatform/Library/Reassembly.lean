import Mathlib.Data.List.Basic

/-!
# Reassembly of a stream

A machine that receives a stream in chunks, keeps what it has not used yet and emits an event
whenever it holds enough for one. After a fatal event it is spent and ignores all further input.
The machine may look at everything it holds, but what it decides must not depend on what arrives
later; then the events do not depend on how the stream was cut.

## Main definitions

* `Reassembler` — a machine, and `Reassembler.Lawful` what is asked of it.
* `Reassembler.drain`, `Reassembler.push`, `Reassembler.feed` — emit all that can be emitted,
  receive one chunk, receive several.

## Main results

* `Reassembler.push_append` — a chunk may be cut in two.
* `Reassembler.feed_eq_push` — any chunks amount to their concatenation.
* `Reassembler.feed_invariant` — what receiving and emitting preserve holds throughout.
-/

namespace BankPlatform.Library

/-- A machine with states `M` that turns a stream of `β` into events `ε`. -/
structure Reassembler (M β ε : Type*) where
  /-- Append a chunk to what the machine holds. -/
  accept : M → List β → M
  /-- The next event and the state after it, or `none` while more input is needed. -/
  next : M → Option (ε × M)
  fatal : ε → Bool
  /-- What a fatal event makes of the machine. -/
  spend : M → M
  spent : M → Bool
  /-- How many more events the machine can emit at most. -/
  size : M → ℕ

namespace Reassembler

variable {M β ε : Type*} (R : Reassembler M β ε)

/-- Emit events until more input is needed or an event is fatal; `fuel` bounds their number. -/
def drain : ℕ → M → List ε × M
  | 0, m => ([], m)
  | fuel + 1, m =>
    match R.next m with
    | none => ([], m)
    | some (e, m') =>
      if R.fatal e then ([e], R.spend m')
      else (e :: (drain fuel m').1, (drain fuel m').2)

/-- Receive one chunk. -/
def push (m : M) (chunk : List β) : List ε × M :=
  if R.spent m then ([], m) else R.drain (R.size (R.accept m chunk) + 1) (R.accept m chunk)

/-- Receive chunks one after another. -/
def feed (m : M) : List (List β) → List ε × M
  | [] => ([], m)
  | chunk :: rest =>
    ((R.push m chunk).1 ++ (feed (R.push m chunk).2 rest).1, (feed (R.push m chunk).2 rest).2)

/-- The machine has nothing to emit before it receives more. -/
def Settled (m : M) : Prop := R.spent m ∨ R.next m = none

structure Lawful : Prop where
  accept_nil : ∀ m, R.accept m [] = m
  accept_append : ∀ m xs ys, R.accept m (xs ++ ys) = R.accept (R.accept m xs) ys
  spent_accept : ∀ m xs, R.spent (R.accept m xs) = R.spent m
  /-- More input changes nothing about an event that could be emitted without it. -/
  next_accept : ∀ m e m' xs, R.next m = some (e, m') →
    R.next (R.accept m xs) = some (e, R.accept m' xs)
  size_next : ∀ m e m', R.next m = some (e, m') → R.fatal e = false → R.size m' < R.size m
  spent_next : ∀ m e m', R.next m = some (e, m') → R.fatal e = false → R.spent m' = R.spent m
  spent_spend : ∀ m, R.spent (R.spend m)
  spend_accept : ∀ m xs, R.spend (R.accept m xs) = R.spend m

variable {R} {m : M}

theorem drain_of_none (h : R.next m = none) (fuel : ℕ) : R.drain fuel m = ([], m) := by
  cases fuel with
  | zero => rfl
  | succ fuel => simp [drain, h]

/-- A chunk that completes one event, after which the machine needs more input. -/
theorem push_of_next {m m' : M} {e : ε} {chunk : List β} (hspent : ¬ R.spent m)
    (hnext : R.next (R.accept m chunk) = some (e, m')) (hfatal : R.fatal e = false)
    (hneed : R.next m' = none) : R.push m chunk = ([e], m') := by
  rw [push, if_neg hspent, drain, hnext]
  simp [hfatal, drain_of_none hneed]

/-! ## Invariants -/

/-- What every event preserves. -/
structure Preserves (R : Reassembler M β ε) (I : M → Prop) : Prop where
  emit : ∀ m e m', I m → R.next m = some (e, m') → R.fatal e = false → I m'
  spend : ∀ m e m', I m → R.next m = some (e, m') → R.fatal e = true → I (R.spend m')

theorem Preserves.drain {I : M → Prop} (h : R.Preserves I) (hm : I m) (fuel : ℕ) :
    I (R.drain fuel m).2 := by
  induction fuel generalizing m with
  | zero => exact hm
  | succ fuel ih =>
    cases hnext : R.next m with
    | none =>
      rw [drain_of_none hnext]
      exact hm
    | some r =>
      obtain ⟨e, m'⟩ := r
      cases hfatal : R.fatal e with
      | true => simpa [Reassembler.drain, hnext, hfatal] using h.spend m e m' hm hnext hfatal
      | false => simpa [Reassembler.drain, hnext, hfatal] using ih (h.emit m e m' hm hnext hfatal)

theorem feed_invariant {I : M → Prop} (h : R.Preserves I)
    (haccept : ∀ m xs, I m → R.spent m = false → I (R.accept m xs)) (hm : I m)
    (chunks : List (List β)) : I (R.feed m chunks).2 := by
  induction chunks generalizing m with
  | nil => exact hm
  | cons chunk rest ih =>
    apply ih
    unfold push
    split
    · exact hm
    · next hspent => exact h.drain (haccept m chunk hm (by simpa using hspent)) _

/-- Events that each use up some of what the machine holds are few. -/
theorem length_drain_le {cost : ℕ}
    (hcost : ∀ m e m', R.next m = some (e, m') → R.fatal e = false → R.size m' + cost ≤ R.size m)
    (hspend : ∀ m, R.size (R.spend m) = 0) (fuel : ℕ) (m : M) :
    cost * (R.drain fuel m).1.countP (fun e => !R.fatal e) + R.size (R.drain fuel m).2 ≤
      R.size m := by
  induction fuel generalizing m with
  | zero => simp [drain]
  | succ fuel ih =>
    cases hnext : R.next m with
    | none => simp [drain_of_none hnext]
    | some r =>
      obtain ⟨e, m'⟩ := r
      cases hfatal : R.fatal e with
      | true => simp [drain, hnext, hfatal, hspend]
      | false =>
        have hstep := hcost m e m' hnext hfatal
        have hrest := ih m'
        simp only [drain, hnext, hfatal, Bool.false_eq_true, if_false, List.countP_cons,
          Bool.not_false, if_true, Nat.mul_add, Nat.mul_one]
        omega

namespace Lawful

variable (hR : R.Lawful)
include hR

/-- Fuel above the size of the machine never runs out. -/
theorem drain_fuel {fuel fuel' : ℕ} (h : R.size m < fuel) (h' : R.size m < fuel') :
    R.drain fuel m = R.drain fuel' m := by
  induction fuel generalizing m fuel' with
  | zero => omega
  | succ fuel ih =>
    obtain ⟨fuel', rfl⟩ : ∃ k, fuel' = k + 1 := ⟨fuel' - 1, by omega⟩
    cases hnext : R.next m with
    | none => rw [drain_of_none hnext, drain_of_none hnext]
    | some r =>
      obtain ⟨e, m'⟩ := r
      by_cases hfatal : R.fatal e
      · simp [drain, hnext, hfatal]
      · have hsize := hR.size_next m e m' hnext (by simpa using hfatal)
        have hrest : R.drain fuel m' = R.drain fuel' m' := ih (by omega) (by omega)
        simp [drain, hnext, hfatal, hrest]

theorem settled_drain {fuel : ℕ} (h : R.size m < fuel) : R.Settled (R.drain fuel m).2 := by
  induction fuel generalizing m with
  | zero => omega
  | succ fuel ih =>
    cases hnext : R.next m with
    | none =>
      rw [drain_of_none hnext]
      exact .inr hnext
    | some r =>
      obtain ⟨e, m'⟩ := r
      by_cases hfatal : R.fatal e
      · simpa [drain, hnext, hfatal] using .inl (hR.spent_spend m')
      · have hsize := hR.size_next m e m' hnext (by simpa using hfatal)
        simpa [drain, hnext, hfatal] using ih (m := m') (by omega)

theorem settled_push (m : M) (chunk : List β) : R.Settled (R.push m chunk).2 := by
  unfold push
  split
  · next hspent => exact .inl hspent
  · exact hR.settled_drain (Nat.lt_succ_self _)

theorem push_nil (h : R.Settled m) : R.push m [] = ([], m) := by
  unfold push
  split
  · rfl
  · next hspent =>
    rw [hR.accept_nil, drain_of_none (h.resolve_left hspent)]

/-- Draining can stop halfway and go on when more input has arrived. -/
theorem drain_accept {fuel fuel' : ℕ} (xs : List β) (hspent : R.spent m = false)
    (h : R.size m < fuel) (h' : R.size (R.accept m xs) < fuel') :
    R.drain fuel' (R.accept m xs) =
      ((R.drain fuel m).1 ++ (R.push (R.drain fuel m).2 xs).1,
        (R.push (R.drain fuel m).2 xs).2) := by
  induction fuel generalizing m fuel' with
  | zero => omega
  | succ fuel ih =>
    obtain ⟨fuel', rfl⟩ : ∃ k, fuel' = k + 1 := ⟨fuel' - 1, by omega⟩
    cases hnext : R.next m with
    | none =>
      rw [drain_of_none hnext, push, hspent]
      simpa using hR.drain_fuel h' (Nat.lt_succ_self _)
    | some r =>
      obtain ⟨e, m'⟩ := r
      have hnext' := hR.next_accept m e m' xs hnext
      by_cases hfatal : R.fatal e
      · simp [drain, hnext, hnext', hfatal, push, hR.spent_spend, hR.spend_accept]
      · have hfatal : R.fatal e = false := by simpa using hfatal
        have hsize := hR.size_next m e m' hnext hfatal
        have hsize' := hR.size_next _ e _ hnext' hfatal
        have hm' := (hR.spent_next m e m' hnext hfatal).trans hspent
        have hrest : R.drain fuel' (R.accept m' xs) =
            ((R.drain fuel m').1 ++ (R.push (R.drain fuel m').2 xs).1,
              (R.push (R.drain fuel m').2 xs).2) :=
          ih hm' (by omega) (by omega)
        simp [drain, hnext, hnext', hfatal, hrest]

/-- Receiving two chunks one after the other is receiving them as one. -/
theorem push_append (m : M) (xs ys : List β) :
    R.push m (xs ++ ys) =
      ((R.push m xs).1 ++ (R.push (R.push m xs).2 ys).1, (R.push (R.push m xs).2 ys).2) := by
  by_cases hspent : R.spent m
  · simp [push, hspent]
  · have hspent' : R.spent (R.accept m xs) = false := by
      simpa [hR.spent_accept] using hspent
    have hdrain := hR.drain_accept ys hspent' (Nat.lt_succ_self _) (Nat.lt_succ_self _)
    rw [push, if_neg hspent, hR.accept_append, hdrain, push.eq_def R m xs, if_neg hspent]

/-- How a stream is cut into chunks makes no difference. -/
theorem feed_eq_push (h : R.Settled m) (chunks : List (List β)) :
    R.feed m chunks = R.push m chunks.flatten := by
  induction chunks generalizing m with
  | nil => exact (hR.push_nil h).symm
  | cons chunk rest ih =>
    rw [feed, ih (hR.settled_push m chunk), List.flatten_cons, hR.push_append]

end Lawful

end Reassembler

end BankPlatform.Library
