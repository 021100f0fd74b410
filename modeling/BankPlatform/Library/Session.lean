import Mathlib.Data.List.Basic

/-!
# Programs that talk to a store

A program alternates between steps in its own memory and statements to a store; both change one
state. Every statement may fail, which aborts the program there, and a failed statement may still
have taken effect.

## Main definitions

* `Session` — programs, `Session.run` — their runs with at most one failure.
* `Does p s a s'`, `Throws p s e s'` — the outcome without a failure.
* `Fails p s label landed s'` — the outcomes with one.
* `Session.attempt` — a program whose errors are caught.

## Main results

* `does_bind`, `fails_bind` — the rules for sequences.
* `Does.forM_prefix`, `Does.forM_invariant`, `fails_forM` — the rules for loops.
-/

namespace BankPlatform.Library

/-- A failure strikes behind a number of answered statements. -/
structure Failure where
  after : ℕ
  landed : Bool

/-- Programs over a state `σ` with statements named by `L`, which may throw. What comes next may
depend on the state before the effect. -/
inductive Session (σ L ε α : Type) where
  | pure (a : α)
  | throw (e : ε)
  | memory (effect : σ → σ) (next : σ → Session σ L ε α)
  | statement (label : L) (effect : σ → σ) (next : σ → Session σ L ε α)

/-- What a program ends in. -/
inductive Outcome (σ L ε α : Type) where
  | done (a : α) (s : σ)
  | thrown (e : ε) (s : σ)
  | failed (label : L) (landed : Bool) (s : σ)

namespace Session

variable {σ L ε α β ι : Type}

def bind : Session σ L ε α → (α → Session σ L ε β) → Session σ L ε β
  | pure a, k => k a
  | throw e, _ => throw e
  | memory effect next, k => memory effect fun s => (next s).bind k
  | statement label effect next, k => statement label effect fun s => (next s).bind k

instance : Monad (Session σ L ε) where
  pure := pure
  bind := bind

theorem bind_pure (p : Session σ L ε α) : p.bind pure = p := by
  induction p with
  | pure a => rfl
  | throw e => rfl
  | memory effect next ih => exact congrArg (memory effect) (funext ih)
  | statement label effect next ih => exact congrArg (statement label effect) (funext ih)

theorem bind_assoc {γ : Type} (p : Session σ L ε α) (k : α → Session σ L ε β)
    (k' : β → Session σ L ε γ) : (p.bind k).bind k' = p.bind fun a => (k a).bind k' := by
  induction p with
  | pure a => rfl
  | throw e => rfl
  | memory effect next ih => exact congrArg (memory effect) (funext ih)
  | statement label effect next ih => exact congrArg (statement label effect) (funext ih)

instance : LawfulMonad (Session σ L ε) :=
  LawfulMonad.mk' _ (fun p => bind_pure p) (fun _ _ => rfl) (fun p k k' => bind_assoc p k k')

/-! ## Steps -/

/-- The state, as far as the program may look at it without a statement. -/
def get : Session σ L ε σ := memory id pure

def modify (effect : σ → σ) : Session σ L ε Unit := memory effect fun _ => pure ()

/-- A statement that reads. -/
def query (label : L) (read : σ → α) : Session σ L ε α :=
  statement label id fun s => pure (read s)

/-- A statement that writes, or is refused and changes nothing. -/
def execute (label : L) (write : σ → Except ε σ) : Session σ L ε Unit :=
  statement label
    (fun s => match write s with
      | .ok s' => s'
      | .error _ => s)
    fun s => match write s with
      | .ok _ => pure ()
      | .error e => throw e

/-- A statement that writes and returns, or is refused and changes nothing. -/
def returning (label : L) (write : σ → Except ε (α × σ)) : Session σ L ε α :=
  statement label
    (fun s => match write s with
      | .ok r => r.2
      | .error _ => s)
    fun s => match write s with
      | .ok r => pure r.1
      | .error e => throw e

/-! ## Runs -/

/-- Run a program from a state; at most one statement fails. -/
def run : Session σ L ε α → Option Failure → σ → Outcome σ L ε α
  | pure a, _, s => .done a s
  | throw e, _, s => .thrown e s
  | memory effect next, failure, s => (next s).run failure (effect s)
  | statement _ effect next, none, s => (next s).run none (effect s)
  | statement label effect _, some ⟨0, landed⟩, s =>
    .failed label landed (if landed then effect s else s)
  | statement _ effect next, some ⟨n + 1, landed⟩, s =>
    (next s).run (some ⟨n, landed⟩) (effect s)

/-- Without a failure the program returns. -/
def Does (p : Session σ L ε α) (s : σ) (a : α) (s' : σ) : Prop := p.run none s = .done a s'

/-- Without a failure the program throws. -/
def Throws (p : Session σ L ε α) (s : σ) (e : ε) (s' : σ) : Prop := p.run none s = .thrown e s'

/-- A failure of a statement with this label leaves the state `s'`. -/
def Fails (p : Session σ L ε α) (s : σ) (label : L) (landed : Bool) (s' : σ) : Prop :=
  ∃ n, p.run (some ⟨n, landed⟩) s = .failed label landed s'

theorem does_pure {a b : α} {s s' : σ} :
    Does (Pure.pure a : Session σ L ε α) s b s' ↔ b = a ∧ s' = s := by
  change (Outcome.done a s : Outcome σ L ε α) = .done b s' ↔ _
  rw [Outcome.done.injEq, eq_comm, eq_comm (a := s)]

theorem not_fails_pure {a : α} {s s' : σ} {label : L} {landed : Bool} :
    ¬ Fails (Pure.pure a : Session σ L ε α) s label landed s' := by
  rintro ⟨n, h⟩
  cases h

theorem does_bind {p : Session σ L ε α} {k : α → Session σ L ε β} {s s' : σ} {b : β} :
    Does (p >>= k) s b s' ↔ ∃ a t, Does p s a t ∧ Does (k a) t b s' := by
  change (p.bind k).run none s = _ ↔ _
  induction p generalizing s with
  | pure a =>
    constructor
    · exact fun h => ⟨a, s, rfl, h⟩
    · rintro ⟨a', t, h, hk⟩
      cases h
      exact hk
  | throw e =>
    constructor
    · intro h
      cases h
    · rintro ⟨a', t, h, _⟩
      cases h
  | memory effect next ih => exact ih s
  | statement label effect next ih => exact ih s

/-- A sequence fails in its first part or, once that is done, in its second. -/
theorem fails_bind {p : Session σ L ε α} {k : α → Session σ L ε β} {s s' : σ} {label : L}
    {landed : Bool} :
    Fails (p >>= k) s label landed s' ↔
      Fails p s label landed s' ∨ ∃ a t, Does p s a t ∧ Fails (k a) t label landed s' := by
  change (∃ n, (p.bind k).run (some ⟨n, landed⟩) s = _) ↔ _
  induction p generalizing s with
  | pure a =>
    constructor
    · exact fun h => .inr ⟨a, s, rfl, h⟩
    · rintro (⟨n, h⟩ | ⟨a', t, h, hk⟩)
      · cases h
      · cases h
        exact hk
  | throw e =>
    constructor
    · rintro ⟨n, h⟩
      cases h
    · rintro (⟨n, h⟩ | ⟨a', t, h, _⟩)
      · cases h
      · cases h
  | memory effect next ih => exact ih s
  | statement name effect next ih =>
    constructor
    · rintro ⟨n, h⟩
      cases n with
      | zero =>
        cases h
        exact .inl ⟨0, rfl⟩
      | succ n =>
        rcases (ih s).mp ⟨n, h⟩ with ⟨n', h⟩ | h
        · exact .inl ⟨n' + 1, h⟩
        · exact .inr h
    · rintro (⟨n, h⟩ | h)
      · cases n with
        | zero =>
          cases h
          exact ⟨0, rfl⟩
        | succ n =>
          obtain ⟨n', h'⟩ := (ih s).mpr (.inl ⟨n, h⟩)
          exact ⟨n' + 1, h'⟩
      · obtain ⟨n', h'⟩ := (ih s).mpr (.inr h)
        exact ⟨n' + 1, h'⟩

theorem Does.bind {p : Session σ L ε α} {k : α → Session σ L ε β} {s t s' : σ} {a : α} {b : β}
    (hp : Does p s a t) (hk : Does (k a) t b s') : Does (p >>= k) s b s' :=
  does_bind.mpr ⟨a, t, hp, hk⟩

/-- A program has one outcome. -/
theorem Does.unique {p : Session σ L ε α} {s t t' : σ} {a a' : α} (h : Does p s a t)
    (h' : Does p s a' t') : a' = a ∧ t' = t := by
  rw [Does, h, Outcome.done.injEq] at h'
  exact ⟨h'.1.symm, h'.2.symm⟩

theorem does_get (s : σ) : Does (get : Session σ L ε σ) s s s := rfl

theorem does_modify (effect : σ → σ) (s : σ) :
    Does (modify effect : Session σ L ε Unit) s () (effect s) := rfl

theorem does_query (label : L) (read : σ → α) (s : σ) :
    Does (query label read : Session σ L ε α) s (read s) s := rfl

theorem not_fails_get {s s' : σ} {label : L} {landed : Bool} :
    ¬ Fails (get : Session σ L ε σ) s label landed s' := by
  rintro ⟨n, h⟩
  cases h

theorem not_fails_modify {effect : σ → σ} {s s' : σ} {label : L} {landed : Bool} :
    ¬ Fails (modify effect : Session σ L ε Unit) s label landed s' := by
  rintro ⟨n, h⟩
  cases h

/-- A failed query has changed nothing. -/
theorem fails_query {name label : L} {read : σ → α} {s s' : σ} {landed : Bool} :
    Fails (query name read : Session σ L ε α) s label landed s' ↔ label = name ∧ s' = s := by
  constructor
  · rintro ⟨n, h⟩
    cases n with
    | zero =>
      change Outcome.failed name landed (if landed then id s else s) = _ at h
      cases h
      exact ⟨rfl, ite_self s⟩
    | succ n => cases h
  · rintro ⟨rfl, rfl⟩
    refine ⟨0, ?_⟩
    change Outcome.failed label landed (if landed then id s' else s') = _
    rw [id, ite_self]

theorem does_execute {label : L} {write : σ → Except ε σ} {s s' : σ} :
    Does (execute label write) s () s' ↔ write s = .ok s' := by
  change (match write s with
    | .ok _ => pure ()
    | .error e => throw e : Session σ L ε Unit).run none (match write s with
      | .ok s' => s'
      | .error _ => s) = _ ↔ _
  cases write s with
  | ok t =>
    change (Outcome.done () t : Outcome σ L ε Unit) = .done () s' ↔ _
    simp
  | error e =>
    change (Outcome.thrown e s : Outcome σ L ε Unit) = .done () s' ↔ _
    simp

/-- A failed write has taken effect only if it landed. -/
theorem fails_execute {name label : L} {write : σ → Except ε σ} {s s' : σ} {landed : Bool} :
    Fails (execute name write) s label landed s' ↔
      label = name ∧ (s' = if landed then (match write s with
        | .ok t => t
        | .error _ => s) else s) := by
  constructor
  · rintro ⟨n, h⟩
    cases n with
    | zero =>
      cases h
      exact ⟨rfl, rfl⟩
    | succ n =>
      change (match write s with
        | .ok _ => pure ()
        | .error e => throw e : Session σ L ε Unit).run (some ⟨n, landed⟩) _ = _ at h
      cases hw : write s with
      | ok t =>
        rw [hw] at h
        cases h
      | error e =>
        rw [hw] at h
        cases h
  · rintro ⟨rfl, rfl⟩
    exact ⟨0, rfl⟩

/-! ## Errors -/

theorem throws_throw {e e' : ε} {s s' : σ} :
    Throws (throw e : Session σ L ε α) s e' s' ↔ e' = e ∧ s' = s := by
  change (Outcome.thrown e s : Outcome σ L ε α) = .thrown e' s' ↔ _
  rw [Outcome.thrown.injEq, eq_comm, eq_comm (a := s)]

/-- A refused write throws and changes nothing. -/
theorem throws_execute {label : L} {write : σ → Except ε σ} {s : σ} {e : ε}
    (h : write s = .error e) : Throws (execute label write) s e s := by
  change (match write s with
    | .ok _ => pure ()
    | .error e => throw e : Session σ L ε Unit).run none (match write s with
      | .ok s' => s'
      | .error _ => s) = _
  rw [h]
  rfl

theorem not_does_throw {e : ε} {a : α} {s s' : σ} :
    ¬ Does (throw e : Session σ L ε α) s a s' := by
  intro h
  cases h

theorem not_fails_throw {e : ε} {s s' : σ} {label : L} {landed : Bool} :
    ¬ Fails (throw e : Session σ L ε α) s label landed s' := by
  rintro ⟨n, h⟩
  cases h

theorem not_throws_pure {a : α} {e : ε} {s s' : σ} :
    ¬ Throws (Pure.pure a : Session σ L ε α) s e s' := by
  intro h
  cases h

/-- Without a failure a program returns or throws. -/
theorem does_or_throws (p : Session σ L ε α) (s : σ) :
    (∃ a s', Does p s a s') ∨ ∃ e s', Throws p s e s' := by
  induction p generalizing s with
  | pure a => exact .inl ⟨a, s, rfl⟩
  | throw e => exact .inr ⟨e, s, rfl⟩
  | memory effect next ih => exact ih s (effect s)
  | statement label effect next ih => exact ih s (effect s)

theorem Does.not_throws {p : Session σ L ε α} {s s' s'' : σ} {a : α} {e : ε} (h : Does p s a s') :
    ¬ Throws p s e s'' := by
  intro hthrows
  rw [Throws, h] at hthrows
  cases hthrows

theorem Throws.unique {p : Session σ L ε α} {s t t' : σ} {e e' : ε} (h : Throws p s e t)
    (h' : Throws p s e' t') : e' = e ∧ t' = t := by
  rw [Throws, h, Outcome.thrown.injEq] at h'
  exact ⟨h'.1.symm, h'.2.symm⟩

/-- A sequence throws in its first part or, once that is done, in its second. -/
theorem throws_bind {p : Session σ L ε α} {k : α → Session σ L ε β} {s s' : σ} {e : ε} :
    Throws (p >>= k) s e s' ↔
      Throws p s e s' ∨ ∃ a t, Does p s a t ∧ Throws (k a) t e s' := by
  change (p.bind k).run none s = _ ↔ _
  induction p generalizing s with
  | pure a =>
    constructor
    · exact fun h => .inr ⟨a, s, rfl, h⟩
    · rintro (h | ⟨a', t, h, hk⟩)
      · cases h
      · cases h
        exact hk
  | throw e' =>
    constructor
    · intro h
      cases h
      exact .inl rfl
    · rintro (h | ⟨a', t, h, _⟩)
      · cases h
        rfl
      · cases h
  | memory effect next ih => exact ih s
  | statement label effect next ih => exact ih s

/-- The program with its errors as values. -/
def attempt : Session σ L ε α → Session σ L ε (Except ε α)
  | pure a => pure (.ok a)
  | throw e => pure (.error e)
  | memory effect next => memory effect fun s => (next s).attempt
  | statement label effect next => statement label effect fun s => (next s).attempt

@[simp] theorem attempt_pure (a : α) :
    (Pure.pure a : Session σ L ε α).attempt = Pure.pure (.ok a) := rfl

@[simp] theorem attempt_throw (e : ε) :
    (throw e : Session σ L ε α).attempt = Pure.pure (.error e) := rfl

theorem attempt_attempt (p : Session σ L ε α) :
    p.attempt.attempt = p.attempt >>= fun r => Pure.pure (.ok r) := by
  change p.attempt.attempt = p.attempt.bind _
  induction p with
  | pure a => rfl
  | throw e => rfl
  | memory effect next ih => exact congrArg (memory effect) (funext ih)
  | statement label effect next ih => exact congrArg (statement label effect) (funext ih)

/-- An error leaves out what comes next. -/
theorem attempt_bind (p : Session σ L ε α) (k : α → Session σ L ε β) :
    (p >>= k).attempt = p.attempt >>= fun r =>
      match r with
      | .ok a => (k a).attempt
      | .error e => Pure.pure (.error e) := by
  change (p.bind k).attempt = p.attempt.bind _
  induction p with
  | pure a => rfl
  | throw e => rfl
  | memory effect next ih => exact congrArg (memory effect) (funext ih)
  | statement label effect next ih => exact congrArg (statement label effect) (funext ih)

theorem does_attempt_ok {p : Session σ L ε α} {s s' : σ} {a : α} :
    Does p.attempt s (.ok a) s' ↔ Does p s a s' := by
  induction p generalizing s with
  | pure a' =>
    change (Outcome.done (.ok a') s : Outcome σ L ε (Except ε α)) = _ ↔ Outcome.done a' s = _
    simp
  | throw e =>
    change (Outcome.done (.error e) s : Outcome σ L ε (Except ε α)) = _ ↔ Outcome.thrown e s = _
    simp
  | memory effect next ih => exact ih s
  | statement label effect next ih => exact ih s

theorem does_attempt_error {p : Session σ L ε α} {s s' : σ} {e : ε} :
    Does p.attempt s (.error e) s' ↔ Throws p s e s' := by
  induction p generalizing s with
  | pure a =>
    change (Outcome.done (.ok a) s : Outcome σ L ε (Except ε α)) = _ ↔ Outcome.done a s = _
    simp
  | throw e' =>
    change (Outcome.done (.error e') s : Outcome σ L ε (Except ε α)) = _ ↔ Outcome.thrown e' s = _
    simp
  | memory effect next ih => exact ih s
  | statement label effect next ih => exact ih s

theorem not_throws_attempt {p : Session σ L ε α} {s s' : σ} {e : ε} :
    ¬ Throws p.attempt s e s' := by
  induction p generalizing s with
  | pure a =>
    intro h
    cases h
  | throw e' =>
    intro h
    cases h
  | memory effect next ih => exact ih s
  | statement label effect next ih => exact ih s

/-- A failed statement is not an error that a program can catch and go on from. -/
theorem fails_attempt {p : Session σ L ε α} {s s' : σ} {label : L} {landed : Bool} :
    Fails p.attempt s label landed s' ↔ Fails p s label landed s' := by
  refine exists_congr fun n => ?_
  induction p generalizing s n with
  | pure a =>
    constructor <;> intro h <;> cases h
  | throw e =>
    constructor <;> intro h <;> cases h
  | memory effect next ih => exact ih s n
  | statement name effect next ih =>
    cases n with
    | zero =>
      change Outcome.failed name landed _ = _ ↔ Outcome.failed name landed _ = _
      simp
    | succ n => exact ih s n

/-! ## Loops -/

/-- A loop with an invariant about the rounds that are done. -/
theorem Does.forM_prefix {body : ι → Session σ L ε PUnit} {J : List ι → σ → Prop} (items : List ι)
    (h : ∀ done i rest, items = done ++ i :: rest → ∀ s, J done s →
      ∃ s', Does (body i) s () s' ∧ J (done ++ [i]) s') {s : σ} (hJ : J [] s) :
    ∃ s', Does (items.forM body) s () s' ∧ J items s' := by
  suffices hfrom : ∀ rest done s, items = done ++ rest → J done s →
      ∃ s', Does (rest.forM body) s () s' ∧ J items s' from
    hfrom items [] s rfl hJ
  clear hJ s
  intro rest
  induction rest with
  | nil =>
    intro done s hitems hJ
    rw [List.append_nil] at hitems
    exact ⟨s, rfl, hitems ▸ hJ⟩
  | cons i rest ih =>
    intro done s hitems hJ
    obtain ⟨t, hbody, hJ⟩ := h done i rest hitems s hJ
    obtain ⟨s', hrest, hJ⟩ := ih (done ++ [i]) t (by simp [hitems]) hJ
    refine ⟨s', ?_, hJ⟩
    rw [List.forM_eq_forM, List.forM_cons]
    exact hbody.bind hrest

/-- What every round keeps holds behind a loop that is done. -/
theorem Does.forM_invariant {body : ι → Session σ L ε PUnit} {J : List ι → σ → Prop}
    (items : List ι) (h : ∀ done i rest, items = done ++ i :: rest → ∀ s s', J done s →
      Does (body i) s () s' → J (done ++ [i]) s') {s s' : σ} (hJ : J [] s)
    (hdoes : Does (items.forM body) s () s') : J items s' := by
  suffices hfrom : ∀ rest done s, items = done ++ rest → J done s →
      Does (rest.forM body) s () s' → J items s' from hfrom items [] s rfl hJ hdoes
  clear hJ hdoes s
  intro rest
  induction rest with
  | nil =>
    intro done s hitems hJ hdoes
    rw [List.append_nil] at hitems
    obtain ⟨-, rfl⟩ := does_pure.mp hdoes
    exact hitems ▸ hJ
  | cons i rest ih =>
    intro done s hitems hJ hdoes
    rw [List.forM_eq_forM, List.forM_cons] at hdoes
    obtain ⟨_, t, hbody, hrest⟩ := does_bind.mp hdoes
    exact ih (done ++ [i]) t (by simp [hitems]) (h done i rest hitems s t hJ hbody) hrest

/-- A loop fails in one of its rounds, behind the rounds that were done. -/
theorem fails_forM {body : ι → Session σ L ε PUnit} {items : List ι} {s s' : σ} {label : L}
    {landed : Bool} (h : Fails (items.forM body) s label landed s') :
    ∃ before i after t, items = before ++ i :: after ∧ Does (before.forM body) s () t ∧
      Fails (body i) t label landed s' := by
  induction items generalizing s with
  | nil => exact (not_fails_pure h).elim
  | cons i items ih =>
    rw [List.forM_eq_forM, List.forM_cons, fails_bind] at h
    rcases h with h | ⟨a, t, hbody, h⟩
    · exact ⟨[], i, items, s, rfl, rfl, h⟩
    · obtain ⟨before, j, after, t', rfl, hbefore, hj⟩ := ih h
      refine ⟨i :: before, j, after, t', rfl, ?_, hj⟩
      rw [List.forM_eq_forM, List.forM_cons]
      exact hbody.bind hbefore

/-- A loop that carries a value: an invariant about the rounds that are done. -/
theorem Does.foldlM {body : α → ι → Session σ L ε α} {J : List ι → α → σ → Prop}
    (items : List ι) (h : ∀ done, ∀ i ∈ items, ∀ a s, J done a s →
      ∃ a' s', Does (body a i) s a' s' ∧ J (done ++ [i]) a' s')
    {a : α} {s : σ} (hJ : J [] a s) :
    ∃ a' s', Does (items.foldlM body a) s a' s' ∧ J items a' s' := by
  suffices hfrom : ∀ done a s, J done a s →
      ∃ a' s', Does (items.foldlM body a) s a' s' ∧ J (done ++ items) a' s' by
    simpa using hfrom [] a s hJ
  clear hJ
  induction items with
  | nil => exact fun done a s hJ => ⟨a, s, rfl, by rwa [List.append_nil]⟩
  | cons i items ih =>
    intro done a s hJ
    obtain ⟨a', t, hbody, hJ⟩ := h done i List.mem_cons_self a s hJ
    obtain ⟨a'', s', hrest, hJ⟩ :=
      ih (fun done j hj => h done j (List.mem_cons_of_mem _ hj)) _ _ _ hJ
    refine ⟨a'', s', ?_, by rwa [List.append_assoc] at hJ⟩
    rw [List.foldlM_cons]
    exact hbody.bind hrest

theorem fails_foldlM {body : α → ι → Session σ L ε α} {items : List ι} {a : α} {s s' : σ}
    {label : L} {landed : Bool} (h : Fails (items.foldlM body a) s label landed s') :
    ∃ before i after a' t, items = before ++ i :: after ∧
      Does (before.foldlM body a) s a' t ∧ Fails (body a' i) t label landed s' := by
  induction items generalizing a s with
  | nil => exact (not_fails_pure h).elim
  | cons i items ih =>
    rw [List.foldlM_cons, fails_bind] at h
    rcases h with h | ⟨b, t, hbody, h⟩
    · exact ⟨[], i, items, a, s, rfl, rfl, h⟩
    · obtain ⟨before, j, after, a', t', rfl, hbefore, hj⟩ := ih h
      refine ⟨i :: before, j, after, a', t', rfl, ?_, hj⟩
      rw [List.foldlM_cons]
      exact hbody.bind hbefore

end Session

end BankPlatform.Library
