import BankPlatform.Library.Session

/-!
# Transactions

The statements of a transaction work on a copy of the store, which the commit installs. Whatever
else ends the transaction leaves the store alone.

## Main definitions

* `Tx` — a store with the working copy of an open transaction.
* `Session.inside`, `Session.outside` — a program in a transaction, and one without.
* `Session.transaction` — a program between its begin and its commit or rollback.

## Main results

* `does_transaction`, `throws_transaction`, `fails_transaction` — how a transaction ends.
-/

namespace BankPlatform.Library

/-- A store and, in a transaction, its working copy. -/
structure Tx (D : Type) where
  committed : D
  working : Option D

namespace Tx

variable {D : Type}

/-- No transaction is open. -/
def idle (d : D) : Tx D := ⟨d, none⟩

/-- What the statements of a transaction see. -/
def current (s : Tx D) : D := s.working.getD s.committed

def work (effect : D → D) (s : Tx D) : Tx D := { s with working := some (effect s.current) }

def autocommit (effect : D → D) (s : Tx D) : Tx D := { s with committed := effect s.committed }

end Tx

namespace Session

variable {D L ε α : Type}

/-- A program inside a transaction. -/
def inside : Session D L ε α → Session (Tx D) L ε α
  | pure a => pure a
  | throw e => throw e
  | memory effect next => memory (Tx.work effect) fun s => (next s.current).inside
  | statement label effect next =>
    statement label (Tx.work effect) fun s => (next s.current).inside

/-- A program each of whose statements commits by itself. -/
def outside : Session D L ε α → Session (Tx D) L ε α
  | pure a => pure a
  | throw e => throw e
  | memory effect next => memory (Tx.autocommit effect) fun s => (next s.committed).outside
  | statement label effect next =>
    statement label (Tx.autocommit effect) fun s => (next s.committed).outside

/-- A program in a transaction: an error rolls it back and goes on. -/
def transaction (start commit rollback : L) (body : Session D L ε α) : Session (Tx D) L ε α := do
  statement start (fun s => ⟨s.committed, some s.committed⟩) fun _ => pure ()
  match ← body.inside.attempt with
  | .ok a => statement commit (fun s => .idle s.current) fun _ => pure a
  | .error e => statement rollback (fun s => .idle s.committed) fun _ => throw e

/-! ## Inside and outside -/

theorem does_inside {p : Session D L ε α} {c d : D} {a : α} {s' : Tx D} :
    Does p.inside ⟨c, some d⟩ a s' ↔ ∃ d', Does p d a d' ∧ s' = ⟨c, some d'⟩ := by
  induction p generalizing d with
  | pure a' =>
    constructor
    · intro h
      cases h
      exact ⟨d, rfl, rfl⟩
    · rintro ⟨d', h, rfl⟩
      cases h
      rfl
  | throw e =>
    constructor
    · intro h
      cases h
    · rintro ⟨d', h, _⟩
      cases h
  | memory effect next ih => exact ih d
  | statement label effect next ih => exact ih d

theorem throws_inside {p : Session D L ε α} {c d : D} {e : ε} {s' : Tx D} :
    Throws p.inside ⟨c, some d⟩ e s' ↔ ∃ d', Throws p d e d' ∧ s' = ⟨c, some d'⟩ := by
  induction p generalizing d with
  | pure a =>
    constructor
    · intro h
      cases h
    · rintro ⟨d', h, _⟩
      cases h
  | throw e' =>
    constructor
    · intro h
      cases h
      exact ⟨d, rfl, rfl⟩
    · rintro ⟨d', h, rfl⟩
      cases h
      rfl
  | memory effect next ih => exact ih d
  | statement label effect next ih => exact ih d

/-- A statement that fails inside a transaction does not reach the store. -/
theorem fails_inside {p : Session D L ε α} {s s' : Tx D} {label : L} {landed : Bool}
    (h : Fails p.inside s label landed s') : s'.committed = s.committed := by
  obtain ⟨n, h⟩ := h
  induction p generalizing s n with
  | pure a => cases h
  | throw e => cases h
  | memory effect next ih => exact ih s.current (s := s.work effect) n h
  | statement name effect next ih =>
    cases n with
    | zero =>
      cases h
      cases landed <;> rfl
    | succ n => exact ih s.current (s := s.work effect) n h

theorem does_outside {p : Session D L ε α} {d : D} {a : α} {s' : Tx D} :
    Does p.outside (.idle d) a s' ↔ ∃ d', Does p d a d' ∧ s' = .idle d' := by
  induction p generalizing d with
  | pure a' =>
    constructor
    · intro h
      cases h
      exact ⟨d, rfl, rfl⟩
    · rintro ⟨d', h, rfl⟩
      cases h
      rfl
  | throw e =>
    constructor
    · intro h
      cases h
    · rintro ⟨d', h, _⟩
      cases h
  | memory effect next ih => exact ih d
  | statement label effect next ih => exact ih d

/-! ## Transactions -/

variable {start commit rollback : L} {body : Session D L ε α}

/-- A transaction that returns has installed what its program did. -/
theorem does_transaction {s s' : Tx D} {a : α} :
    Does (transaction start commit rollback body) s a s' ↔
      ∃ d', Does body s.committed a d' ∧ s' = .idle d' := by
  constructor
  · intro h
    obtain ⟨_, t, hstart, h⟩ := does_bind.mp h
    cases hstart
    obtain ⟨r, t, hbody, h⟩ := does_bind.mp h
    cases r with
    | ok a' =>
      obtain ⟨d', hdone, rfl⟩ := does_inside.mp (does_attempt_ok.mp hbody)
      cases h
      exact ⟨d', hdone, rfl⟩
    | error e => cases h
  · rintro ⟨d', hbody, rfl⟩
    have hinside : Does body.inside ⟨s.committed, some s.committed⟩ a ⟨s.committed, some d'⟩ :=
      does_inside.mpr ⟨d', hbody, rfl⟩
    refine does_bind.mpr ⟨(), ⟨s.committed, some s.committed⟩, rfl, ?_⟩
    exact does_bind.mpr ⟨.ok a, ⟨s.committed, some d'⟩, does_attempt_ok.mpr hinside, rfl⟩

/-- A transaction that throws leaves the store alone. -/
theorem throws_transaction {s s' : Tx D} {e : ε} :
    Throws (transaction start commit rollback body) s e s' ↔
      (∃ d', Throws body s.committed e d') ∧ s' = .idle s.committed := by
  constructor
  · intro h
    rcases throws_bind.mp h with hstart | ⟨_, t, hstart, h⟩
    · cases hstart
    cases hstart
    rcases throws_bind.mp h with hbody | ⟨r, t, hbody, h⟩
    · exact (not_throws_attempt hbody).elim
    cases r with
    | ok a => cases h
    | error e' =>
      obtain ⟨d', hthrown, rfl⟩ := throws_inside.mp (does_attempt_error.mp hbody)
      cases h
      exact ⟨⟨d', hthrown⟩, rfl⟩
  · rintro ⟨⟨d', hbody⟩, rfl⟩
    refine throws_bind.mpr (.inr ⟨(), ⟨s.committed, some s.committed⟩, rfl, ?_⟩)
    refine throws_bind.mpr (.inr ⟨.error e, ⟨s.committed, some d'⟩, ?_, rfl⟩)
    exact does_attempt_error.mpr (throws_inside.mpr ⟨d', hbody, rfl⟩)

/-- A transaction in which a statement fails leaves the store alone, except if the commit took
effect although it failed. -/
theorem fails_transaction {s s' : Tx D} {label : L} {landed : Bool}
    (h : Fails (transaction start commit rollback body) s label landed s') :
    s'.committed = s.committed ∨
      (label = commit ∧ landed = true ∧ ∃ a, Does body s.committed a s'.committed) := by
  rcases fails_bind.mp h with hstart | ⟨_, t, hstart, h⟩
  · obtain ⟨n, hstart⟩ := hstart
    cases n with
    | zero =>
      cases hstart
      cases landed <;> exact .inl rfl
    | succ n => cases hstart
  cases hstart
  rcases fails_bind.mp h with hbody | ⟨r, t, hbody, h⟩
  · exact .inl (fails_inside (s := ⟨s.committed, some s.committed⟩) (fails_attempt.mp hbody))
  cases r with
  | ok a =>
    obtain ⟨d', hdone, rfl⟩ := does_inside.mp (does_attempt_ok.mp hbody)
    obtain ⟨n, h⟩ := h
    cases n with
    | zero =>
      cases h
      cases landed with
      | true => exact .inr ⟨rfl, rfl, a, hdone⟩
      | false => exact .inl rfl
    | succ n => cases h
  | error e =>
    obtain ⟨d', _, rfl⟩ := throws_inside.mp (does_attempt_error.mp hbody)
    obtain ⟨n, h⟩ := h
    cases n with
    | zero =>
      cases h
      cases landed <;> exact .inl rfl
    | succ n => cases h

end Session

end BankPlatform.Library
