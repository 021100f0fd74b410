import BankPlatform.Library.Interference
import BankPlatform.Library.Interleaving
import Mathlib.Logic.Equiv.Defs

/-!
# Programs of many processes over one store

Processes share a store, and each has a memory of its own. Calls run programs that see the store and
the memory of their process; they go on in any order, step by step, may fail at any statement, and
processes start anew at any time.

## Main definitions

* `Hosting` — the programs, and `Hosting.calls` — the calls as an interleaving.
* `Hosting.Discipline` — what everybody keeps, and what the programs promise.

## Main results

* `Hosting.Discipline.sound` — what is kept holds throughout, and every answer is as promised.
* `Hosting.Discipline.run_finishes` — a call that is left alone gets its answer.
-/

namespace BankPlatform.Library

/-- The store, what each process remembers, and the answers that calls have got. -/
structure Hosts (Process D M Q α : Type) where
  store : D
  memory : Process → M
  answers : List (Q × α)

/-- A call, and what it has still to do. -/
structure HostedCall (σ L ε Q α : Type) where
  query : Q
  rest : Session σ L ε α

inductive HostLabel (σ Q : Type) where
  | call (q : Q)
  /-- A call goes on up to its next step, or ends. -/
  | proceed
  /-- A statement fails, and the call with it. -/
  | fail (landed : Bool)
  /-- The process starts anew, which each of its calls notices. -/
  | restart
  /-- Other parts of the process and other users of the store go on. -/
  | elsewhere (w : σ)

/-- What programs see of the store and the memory of their process, and the program of a call. -/
structure Hosting (σ D M L ε Q α : Type) where
  view : D × M ≃ σ
  start : M
  program : Q → Session σ L ε α

namespace Hosting

variable {σ D M L ε Q α Process Pid : Type} (H : Hosting σ D M L ε Q α)

/-- The state as one process sees it. -/
def world (s : Hosts Process D M Q α) (m : Process) : σ := H.view (s.store, s.memory m)

variable [DecidableEq Process]

/-- The state behind a step of one process. -/
def set (s : Hosts Process D M Q α) (m : Process) (w : σ) : Hosts Process D M Q α :=
  { s with
    store := (H.view.symm w).1
    memory := Function.update s.memory m (H.view.symm w).2 }

@[simp] theorem world_set (s : Hosts Process D M Q α) (m : Process) (w : σ) :
    H.world (H.set s m w) m = w := by
  exact (congrArg H.view (by simp [set])).trans (H.view.apply_symm_apply w)

theorem world_set_of_ne (s : Hosts Process D M Q α) {m m' : Process} (h : m' ≠ m) (w : σ) :
    H.world (H.set s m w) m' = H.view ((H.view.symm w).1, s.memory m') := by
  simp [world, set, h]

variable (host : Pid → Process)

def callStep (s : Hosts Process D M Q α) (i : Pid) (call : Option (HostedCall σ L ε Q α)) :
    HostLabel σ Q → Option (Hosts Process D M Q α × Option (HostedCall σ L ε Q α))
  | .call q =>
    match call with
    | none => some (s, some ⟨q, H.program q⟩)
    | some _ => none
  | .proceed =>
    match call with
    | none => none
    | some ⟨q, .pure a⟩ => some ({ s with answers := s.answers ++ [(q, a)] }, none)
    | some ⟨_, .throw _⟩ => some (s, none)
    | some ⟨q, .memory effect next⟩ =>
      some (H.set s (host i) (effect (H.world s (host i))), some ⟨q, next (H.world s (host i))⟩)
    | some ⟨q, .statement _ effect next⟩ =>
      some (H.set s (host i) (effect (H.world s (host i))), some ⟨q, next (H.world s (host i))⟩)
  | .fail landed =>
    match call with
    | some ⟨_, .statement _ effect _⟩ =>
      some (if landed then H.set s (host i) (effect (H.world s (host i))) else s, none)
    | _ => none
  | .restart => some ({ s with memory := Function.update s.memory (host i) H.start }, none)
  | .elsewhere w => some (H.set s (host i) w, call)

/-- The calls of all processes; a process may have any number of them at a time. -/
def calls : Interleaving Pid (Hosts Process D M Q α) (Option (HostedCall σ L ε Q α))
    (HostLabel σ Q) :=
  ⟨H.callStep host⟩

/-! ## What is kept -/

/-- From `w` to `w'` the store is kept, and so is what is known of the memory. -/
def relies (keeps : D → D → Prop) (inv : σ → Prop) (w w' : σ) : Prop :=
  keeps (H.view.symm w).1 (H.view.symm w').1 ∧ (inv w → inv w')

/-- What is kept of the store and known of each memory, which calls are made, and what the answers
to them say about the store from then on. -/
structure Discipline where
  keeps : D → D → Prop
  keeps_refl : ∀ d, keeps d d
  keeps_trans : ∀ d d' d'', keeps d d' → keeps d' d'' → keeps d d''
  inv : σ → Prop
  inv_keeps : ∀ d d' m, inv (H.view (d, m)) → keeps d d' → inv (H.view (d', m))
  inv_start : ∀ d, inv (H.view (d, H.start))
  accepts : Q → Prop
  promise : Q → α → D → Prop
  promise_keeps : ∀ q a d d', promise q a d → keeps d d' → promise q a d'
  guards : ∀ q, accepts q → ∀ w, inv w →
    Session.Guards (H.relies keeps inv) (H.relies keeps inv)
      (fun a w' => promise q a (H.view.symm w').1) (H.program q) w

namespace Discipline

variable {H} (A : H.Discipline)

/-- Calls are made that are accepted, and everybody else keeps what is kept. -/
def admits : Interleaving.Guard Pid (Hosts Process D M Q α) (Option (HostedCall σ L ε Q α))
    (HostLabel σ Q) :=
  fun c i a =>
    match a with
    | .call q => A.accepts q
    | .elsewhere w => H.relies A.keeps A.inv (H.world c.shared (host i)) w
    | _ => True

/-- What is known of a call in progress. -/
def InProgress (w : σ) (call : HostedCall σ L ε Q α) : Prop :=
  Session.Guards (H.relies A.keeps A.inv) (H.relies A.keeps A.inv)
    (fun a w' => A.promise call.query a (H.view.symm w').1) call.rest w

/-- What is known of the store, the memories and the answers. -/
structure Consistent (s : Hosts Process D M Q α) : Prop where
  inv : ∀ m, A.inv (H.world s m)
  answers : ∀ e ∈ s.answers, A.promise e.1 e.2 s.store

/-- What a step of a call does. -/
structure StepOf (s : Hosts Process D M Q α) (i : Pid)
    (s' : Hosts Process D M Q α) (call' : Option (HostedCall σ L ε Q α)) : Prop where
  relies : ∀ m, H.relies A.keeps A.inv (H.world s m) (H.world s' m)
  keeps : A.keeps s.store s'.store
  answers : s'.answers = s.answers ∨
    ∃ e, s'.answers = s.answers ++ [e] ∧ A.promise e.1 e.2 s'.store
  inProgress : ∀ c, call' = some c → A.InProgress (H.world s' (host i)) c

variable {A host}

theorem relies_refl (w : σ) : H.relies A.keeps A.inv w w := ⟨A.keeps_refl _, id⟩

theorem relies_trans (w w' w'' : σ) (h : H.relies A.keeps A.inv w w')
    (h' : H.relies A.keeps A.inv w' w'') : H.relies A.keeps A.inv w w'' :=
  ⟨A.keeps_trans _ _ _ h.1 h'.1, h'.2 ∘ h.2⟩

omit [DecidableEq Process] in
theorem InProgress.relies {w w' : σ} {call : HostedCall σ L ε Q α} (h : A.InProgress w call)
    (hw : H.relies A.keeps A.inv w w') : A.InProgress w' call :=
  h.stable relies_trans (fun _ _ _ hpost ht => A.promise_keeps _ _ _ _ hpost ht.1) hw

/-- A step of one process is kept to by all. -/
theorem relies_set {s : Hosts Process D M Q α} {m : Process} {w : σ}
    (h : H.relies A.keeps A.inv (H.world s m) w) (m' : Process) :
    H.relies A.keeps A.inv (H.world s m') (H.world (H.set s m w) m') := by
  by_cases hm : m' = m
  · subst hm
    rwa [world_set]
  · have hstore : A.keeps s.store (H.view.symm w).1 := by simpa [world] using h.1
    rw [world_set_of_ne H s hm]
    exact ⟨by simpa [world] using hstore, fun hinv => A.inv_keeps _ _ _ hinv hstore⟩

/-- A step in which a process changes what it sees. -/
theorem stepOf_set {s : Hosts Process D M Q α} {i : Pid} {w : σ}
    (hw : H.relies A.keeps A.inv (H.world s (host i)) w) {call' : Option (HostedCall σ L ε Q α)}
    (hcall' : ∀ c, call' = some c → A.InProgress w c) :
    A.StepOf host s i (H.set s (host i) w) call' where
  relies := relies_set hw
  keeps := by simpa [world, set] using hw.1
  answers := .inl rfl
  inProgress c hc := by
    rw [world_set]
    exact hcall' c hc

omit [DecidableEq Process] in
/-- A step in which nothing happens but that a call begins or is dropped. -/
theorem stepOf_refl {s : Hosts Process D M Q α} {i : Pid}
    {call' : Option (HostedCall σ L ε Q α)}
    (hcall' : ∀ c, call' = some c → A.InProgress (H.world s (host i)) c) :
    A.StepOf host s i s call' :=
  ⟨fun _ => relies_refl _, A.keeps_refl _, .inl rfl, hcall'⟩

/-- Every step keeps what is kept, and no answer is given but the promised one. -/
theorem callStep_spec {c : Config Pid (Hosts Process D M Q α) (Option (HostedCall σ L ε Q α))}
    {i : Pid} {a : HostLabel σ Q} (hs : A.Consistent c.shared)
    (hcall : ∀ call, c.locals i = some call → A.InProgress (H.world c.shared (host i)) call)
    (hadmits : A.admits host c i a) {s' : Hosts Process D M Q α}
    {call' : Option (HostedCall σ L ε Q α)}
    (hstep : H.callStep host c.shared i (c.locals i) a = some (s', call')) :
    A.StepOf host c.shared i s' call' := by
  unfold callStep at hstep
  cases a with
  | call q =>
    cases hl : c.locals i with
    | none =>
      rw [hl] at hstep
      cases hstep
      refine stepOf_refl fun call hq => ?_
      obtain rfl := Option.some.inj hq
      exact A.guards q hadmits _ (hs.inv _)
    | some call =>
      rw [hl] at hstep
      cases hstep
  | proceed =>
    cases hl : c.locals i with
    | none =>
      rw [hl] at hstep
      cases hstep
    | some call =>
      obtain ⟨q, rest⟩ := call
      have hguards := hcall _ hl
      rw [hl] at hstep
      cases rest with
      | pure b =>
        cases hstep
        refine ⟨fun _ => relies_refl _, A.keeps_refl _, .inr ⟨(q, b), rfl, ?_⟩, fun _ h => ?_⟩
        · simpa [InProgress, Session.Guards, world] using hguards
        · cases h
      | throw e => exact hguards.elim
      | memory effect next =>
        cases hstep
        obtain ⟨hguar, hnext⟩ := hguards _ (relies_refl _)
        refine stepOf_set hguar fun call hq => ?_
        obtain rfl := Option.some.inj hq
        exact hnext
      | statement label effect next =>
        cases hstep
        obtain ⟨hguar, hnext⟩ := hguards _ (relies_refl _)
        refine stepOf_set hguar fun call hq => ?_
        obtain rfl := Option.some.inj hq
        exact hnext
  | fail landed =>
    cases hl : c.locals i with
    | none =>
      rw [hl] at hstep
      cases hstep
    | some call =>
      obtain ⟨q, rest⟩ := call
      have hguards := hcall _ hl
      rw [hl] at hstep
      cases rest with
      | statement label effect next =>
        cases hstep
        cases landed with
        | true => exact stepOf_set (hguards _ (relies_refl _)).1 fun _ hq => by cases hq
        | false => exact stepOf_refl fun _ hq => by cases hq
      | pure b => cases hstep
      | throw e => cases hstep
      | memory effect next => cases hstep
  | restart =>
    cases hstep
    have hset : { c.shared with memory := Function.update c.shared.memory (host i) H.start } =
        H.set c.shared (host i) (H.view (c.shared.store, H.start)) := by simp [set]
    rw [hset]
    have hrelies : H.relies A.keeps A.inv (H.world c.shared (host i))
        (H.view (c.shared.store, H.start)) :=
      ⟨by simpa [world] using A.keeps_refl _, fun _ => A.inv_start _⟩
    exact stepOf_set hrelies fun _ hq => by cases hq
  | elsewhere w =>
    cases hstep
    exact stepOf_set hadmits fun call hq => (hcall call hq).relies hadmits

omit [DecidableEq Process] in
theorem StepOf.consistent {s s' : Hosts Process D M Q α} {i : Pid}
    {call' : Option (HostedCall σ L ε Q α)} (h : A.StepOf host s i s' call')
    (hs : A.Consistent s) : A.Consistent s' where
  inv m := (h.relies m).2 (hs.inv m)
  answers e he := by
    have hold : ∀ e ∈ s.answers, A.promise e.1 e.2 s'.store := fun e he =>
      A.promise_keeps _ _ _ _ (hs.answers e he) h.keeps
    rcases h.answers with hsame | ⟨e', hmore, hpromise⟩
    · rw [hsame] at he
      exact hold e he
    · rw [hmore] at he
      rcases List.mem_append.mp he with he | he
      · exact hold e he
      · obtain rfl := List.mem_singleton.mp he
        exact hpromise

variable [DecidableEq Pid]

variable (A host) in
/-- The assertions of the calls, none of which another call breaks. -/
def kept : Interleaving.RelyGuarantee (H.calls host) (A.admits host) fun _ => True where
  inv := A.Consistent
  asserts i s call := ∀ c, call = some c → A.InProgress (H.world s (host i)) c
  guarantee _ s s' := ∀ m, H.relies A.keeps A.inv (H.world s m) (H.world s' m)
  own c i a s call _ hs hcalls hadmits hstep := by
    have h := callStep_spec hs (hcalls i) hadmits hstep
    exact ⟨h.consistent hs, h.inProgress, h.relies⟩
  stable i j s s' call _ _ hrelies hcall c hc := (hcall c hc).relies (hrelies (host i))

/-- In every run everything stays as it is kept, all answers are as promised and stay so, and the
calls in progress will keep to it. -/
theorem sound {c₀ c : Config Pid (Hosts Process D M Q α) (Option (HostedCall σ L ε Q α))}
    (hs : A.Consistent c₀.shared) (hidle : ∀ i, c₀.locals i = none)
    (h : (H.calls host).Run (A.admits host) c₀ c) :
    A.Consistent c.shared ∧ ∀ i call, c.locals i = some call →
      A.InProgress (H.world c.shared (host i)) call := by
  refine (kept host A).sound h (fun _ _ => trivial) hs fun j call hcall => ?_
  rw [hidle j] at hcall
  cases hcall

/-! ## Calls that are left alone -/

omit [DecidableEq Process] in
/-- A call in progress will not throw. -/
theorem InProgress.not_throws {w : σ} {q : Q} {e : ε} : ¬ A.InProgress w ⟨q, .throw e⟩ := id

variable (A host) in
theorem run_callStep {c : Config Pid (Hosts Process D M Q α) (Option (HostedCall σ L ε Q α))}
    {i : Pid} {a : HostLabel σ Q} (hadmits : A.admits host c i a) {s : Hosts Process D M Q α}
    {call : Option (HostedCall σ L ε Q α)}
    (hstep : H.callStep host c.shared i (c.locals i) a = some (s, call)) :
    (H.calls host).Run (A.admits host) c ⟨s, Function.update c.locals i call⟩ :=
  .step .refl hadmits (Interleaving.move_eq_some.mpr ⟨_, _, hstep, rfl⟩)

/-- A call goes on to its answer, if no statement fails. -/
theorem run_finishes {c₀ : Config Pid (Hosts Process D M Q α) (Option (HostedCall σ L ε Q α))}
    (hs : A.Consistent c₀.shared) (hidle : ∀ i, c₀.locals i = none) {i : Pid} {q : Q}
    (rest : Session σ L ε α)
    {c : Config Pid (Hosts Process D M Q α) (Option (HostedCall σ L ε Q α))}
    (h : (H.calls host).Run (A.admits host) c₀ c) (hcall : c.locals i = some ⟨q, rest⟩) :
    ∃ c' a, (H.calls host).Run (A.admits host) c c' ∧
      c'.locals = Function.update c.locals i none ∧
      c'.shared.answers = c.shared.answers ++ [(q, a)] := by
  induction rest generalizing c with
  | pure a =>
    have hrun := run_callStep host A (a := .proceed) trivial (by rw [hcall]; rfl)
    exact ⟨_, a, hrun, rfl, rfl⟩
  | throw e => exact (InProgress.not_throws ((sound hs hidle h).2 i _ hcall)).elim
  | memory effect next ih =>
    have hrun := run_callStep host A (a := .proceed) trivial (by rw [hcall]; rfl)
    obtain ⟨c', a, hrun', hlocals, hanswers⟩ := ih _ (h.trans hrun) (Function.update_self ..)
    exact ⟨c', a, hrun.trans hrun', by rw [hlocals, Function.update_idem], hanswers⟩
  | statement label effect next ih =>
    have hrun := run_callStep host A (a := .proceed) trivial (by rw [hcall]; rfl)
    obtain ⟨c', a, hrun', hlocals, hanswers⟩ := ih _ (h.trans hrun) (Function.update_self ..)
    exact ⟨c', a, hrun.trans hrun', by rw [hlocals, Function.update_idem], hanswers⟩

end Discipline

end Hosting

end BankPlatform.Library
