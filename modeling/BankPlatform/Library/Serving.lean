import BankPlatform.Library.Interference
import BankPlatform.Library.Interleaving
import Mathlib.Data.List.Basic

/-!
# Requests to one store

Requests run programs over one store. They go on in any order, step by step, and a statement may
fail at any time, which ends the request. What is asked may depend on the answers given so far, and
what an answer says on the store that the request has found; so a request remembers both.

## Main definitions

* `requests` — requests as an interleaving, and `Served` — the record of one that is answered.
* `Contract` — what everybody keeps, which requests are made, and what they are promised.

## Main results

* `Contract.sound` — every answered request has got what it was promised.
* `Contract.run_finishes` — a request that is left alone is answered.
-/

namespace BankPlatform.Library

/-- An answered request: how many answers had been given when it began, and the store at its
beginning and at its end. -/
structure Served (σ Q α : Type) where
  query : Q
  asked : ℕ
  began : σ
  answer : α
  ended : σ

/-- The store, and the requests answered so far. -/
structure Serving (σ Q α : Type) where
  store : σ
  served : List (Served σ Q α)

/-- A request in progress, and what it has still to do. -/
structure Request (σ L ε Q α : Type) where
  query : Q
  asked : ℕ
  began : σ
  rest : Session σ L ε α

inductive RequestLabel (σ Q : Type) where
  | ask (q : Q)
  /-- A request goes on up to its next step, or ends. -/
  | proceed
  /-- A statement fails, and the request with it. -/
  | fail (landed : Bool)
  /-- Others use the store, and time passes. -/
  | elsewhere (w : σ)

variable {σ L ε Q α Pid : Type}

def requestStep (program : Q → Session σ L ε α) (s : Serving σ Q α)
    (request : Option (Request σ L ε Q α)) :
    RequestLabel σ Q → Option (Serving σ Q α × Option (Request σ L ε Q α))
  | .ask q =>
    match request with
    | none => some (s, some ⟨q, s.served.length, s.store, program q⟩)
    | some _ => none
  | .proceed =>
    match request with
    | none => none
    | some ⟨q, asked, began, .pure a⟩ =>
      some ({ s with served := s.served ++ [⟨q, asked, began, a, s.store⟩] }, none)
    | some ⟨_, _, _, .throw _⟩ => some (s, none)
    | some ⟨q, asked, began, .memory effect next⟩ =>
      some ({ s with store := effect s.store }, some ⟨q, asked, began, next s.store⟩)
    | some ⟨q, asked, began, .statement _ effect next⟩ =>
      some ({ s with store := effect s.store }, some ⟨q, asked, began, next s.store⟩)
  | .fail landed =>
    match request with
    | some ⟨_, _, _, .statement _ effect _⟩ =>
      some (if landed then { s with store := effect s.store } else s, none)
    | _ => none
  | .elsewhere w => some ({ s with store := w }, request)

/-- Any number of requests to one store. -/
def requests (program : Q → Session σ L ε α) :
    Interleaving Pid (Serving σ Q α) (Option (Request σ L ε Q α)) (RequestLabel σ Q) :=
  ⟨fun s _ => requestStep program s⟩

/-- What is kept of the store; which requests are made behind which answers; and what an answer says
about the answers before its request, the store at its beginning, and the store from its end on. -/
structure Terms (σ Q α : Type) where
  keeps : σ → σ → Prop
  keeps_refl : ∀ w, keeps w w
  keeps_trans : ∀ w w' w'', keeps w w' → keeps w' w'' → keeps w w''
  accepts : Q → List (Served σ Q α) → Prop
  promise : Q → List (Served σ Q α) → σ → α → σ → Prop
  promise_keeps : ∀ q known began a w w', promise q known began a w → keeps w w' →
    promise q known began a w'

namespace Terms

variable (A : Terms σ Q α)

/-- An answered request has got what it was promised. -/
structure Fulfilled (first : σ) (s : Serving σ Q α) (e : Served σ Q α) : Prop where
  asked : e.asked ≤ s.served.length
  known : ∀ k ∈ s.served.take e.asked, A.keeps k.ended e.began
  accepted : A.accepts e.query (s.served.take e.asked)
  before : A.keeps first e.began
  during : A.keeps e.began e.ended
  after : A.keeps e.ended s.store
  promised : A.promise e.query (s.served.take e.asked) e.began e.answer e.ended

/-- What is known of the store and the answers. -/
structure Consistent (first : σ) (s : Serving σ Q α) : Prop where
  keeps : A.keeps first s.store
  served : ∀ e ∈ s.served, A.Fulfilled first s e

/-- Requests are made that are accepted, and everybody else keeps what is kept. -/
def admits : Interleaving.Guard Pid (Serving σ Q α) (Option (Request σ L ε Q α))
    (RequestLabel σ Q) :=
  fun c _ a =>
    match a with
    | .ask q => A.accepts q c.shared.served
    | .elsewhere w => A.keeps c.shared.store w
    | _ => True

end Terms

/-- The programs keep to the terms. -/
structure Contract (program : Q → Session σ L ε α) extends Terms σ Q α where
  guards : ∀ q first s, toTerms.Consistent first s → accepts q s.served →
    Session.Guards keeps keeps (promise q s.served s.store) (program q) s.store

namespace Contract

variable {program : Q → Session σ L ε α} (A : Contract program)

/-- What is known of a request in progress. -/
structure InProgress (first : σ) (s : Serving σ Q α) (request : Request σ L ε Q α) : Prop where
  asked : request.asked ≤ s.served.length
  known : ∀ k ∈ s.served.take request.asked, A.keeps k.ended request.began
  accepted : A.accepts request.query (s.served.take request.asked)
  before : A.keeps first request.began
  during : A.keeps request.began s.store
  guards : Session.Guards A.keeps A.keeps
    (A.promise request.query (s.served.take request.asked) request.began) request.rest s.store

/-- What a step does: the store is kept, and answers are added. -/
structure Later (s s' : Serving σ Q α) : Prop where
  keeps : A.keeps s.store s'.store
  served : s.served <+: s'.served

/-- What is known behind a step of a request. -/
structure StepOf (first : σ) (s s' : Serving σ Q α) (request' : Option (Request σ L ε Q α)) :
    Prop where
  later : A.Later s s'
  consistent : A.Consistent first s'
  inProgress : ∀ r, request' = some r → A.InProgress first s' r

variable {A} {first : σ} {s s' : Serving σ Q α}

theorem Later.refl (s : Serving σ Q α) : A.Later s s := ⟨A.keeps_refl _, List.prefix_refl _⟩

theorem Later.set {w : σ} (hw : A.keeps s.store w) : A.Later s { s with store := w } :=
  ⟨hw, List.prefix_refl _⟩

/-- The answers that a request knows stay as they are. -/
theorem Later.take (h : A.Later s s') {n : ℕ} (hn : n ≤ s.served.length) :
    s'.served.take n = s.served.take n := by
  obtain ⟨more, hmore⟩ := h.served
  rw [← hmore, List.take_append_of_le_length hn]

theorem InProgress.later {request : Request σ L ε Q α} (h : A.InProgress first s request)
    (hs : A.Later s s') : A.InProgress first s' request where
  asked := Nat.le_trans h.asked hs.served.length_le
  known := by
    rw [hs.take h.asked]
    exact h.known
  accepted := by
    rw [hs.take h.asked]
    exact h.accepted
  before := h.before
  during := A.keeps_trans _ _ _ h.during hs.keeps
  guards := by
    rw [hs.take h.asked]
    exact h.guards.stable A.keeps_trans (fun _ _ _ => A.promise_keeps _ _ _ _ _ _) hs.keeps

/-- The request itself takes a step. -/
theorem InProgress.goOn {w : σ} {q : Q} {asked : ℕ} {began : σ} {rest rest' : Session σ L ε α}
    (h : A.InProgress first s ⟨q, asked, began, rest⟩) (hkeeps : A.keeps s.store w)
    (hrest : Session.Guards A.keeps A.keeps (A.promise q (s.served.take asked) began) rest' w) :
    A.InProgress first { s with store := w } ⟨q, asked, began, rest'⟩ where
  asked := h.asked
  known := h.known
  accepted := h.accepted
  before := h.before
  during := A.keeps_trans _ _ _ h.during hkeeps
  guards := hrest

theorem Fulfilled.later {e : Served σ Q α} (h : A.Fulfilled first s e) (hs : A.Later s s') :
    A.Fulfilled first s' e where
  asked := Nat.le_trans h.asked hs.served.length_le
  known := by
    rw [hs.take h.asked]
    exact h.known
  accepted := by
    rw [hs.take h.asked]
    exact h.accepted
  before := h.before
  during := h.during
  after := A.keeps_trans _ _ _ h.after hs.keeps
  promised := by
    rw [hs.take h.asked]
    exact h.promised

theorem Consistent.set (h : A.Consistent first s) {w : σ} (hw : A.keeps s.store w) :
    A.Consistent first { s with store := w } where
  keeps := A.keeps_trans _ _ _ h.keeps hw
  served e he := Fulfilled.later (h.served e he) (.set hw)

theorem Later.answer (s : Serving σ Q α) (e : Served σ Q α) :
    A.Later s { s with served := s.served ++ [e] } :=
  ⟨A.keeps_refl _, List.prefix_append ..⟩

theorem Consistent.answer (h : A.Consistent first s) {q : Q} {asked : ℕ} {began : σ} {a : α}
    (hrequest : A.InProgress first s ⟨q, asked, began, .pure a⟩) :
    A.Consistent first { s with served := s.served ++ [⟨q, asked, began, a, s.store⟩] } where
  keeps := h.keeps
  served e he := by
    rcases List.mem_append.mp he with he | he
    · exact Fulfilled.later (h.served e he) (.answer s _)
    · obtain rfl := List.mem_singleton.mp he
      have hlater := hrequest.later (.answer s ⟨q, asked, began, a, s.store⟩)
      exact ⟨hlater.asked, hlater.known, hlater.accepted, hlater.before, hlater.during,
        A.keeps_refl _, hlater.guards⟩

theorem stepOf_set (hs : A.Consistent first s) {w : σ} (hw : A.keeps s.store w)
    {request' : Option (Request σ L ε Q α)}
    (hrequest' : ∀ r, request' = some r → A.InProgress first { s with store := w } r) :
    A.StepOf first s { s with store := w } request' :=
  ⟨.set hw, Consistent.set hs hw, hrequest'⟩

/-- Every step keeps what is kept, and no answer is given but the promised one. -/
theorem requestStep_spec {c : Config Pid (Serving σ Q α) (Option (Request σ L ε Q α))} {i : Pid}
    {a : RequestLabel σ Q} (hs : A.Consistent first c.shared)
    (hrequest : ∀ r, c.locals i = some r → A.InProgress first c.shared r)
    (hadmits : A.admits c i a) {request' : Option (Request σ L ε Q α)}
    (hstep : requestStep program c.shared (c.locals i) a = some (s', request')) :
    A.StepOf first c.shared s' request' := by
  unfold requestStep at hstep
  cases a with
  | ask q =>
    cases hl : c.locals i with
    | some r => simp [hl] at hstep
    | none =>
      rw [hl] at hstep
      cases hstep
      refine ⟨.refl _, hs, fun r hr => ?_⟩
      obtain rfl := Option.some.inj hr
      have hall : c.shared.served.take c.shared.served.length = c.shared.served :=
        List.take_length
      refine ⟨Nat.le_refl _, fun k hk => ?_, ?_, hs.keeps, A.keeps_refl _, ?_⟩
      · exact (hs.served k (List.mem_of_mem_take hk)).after
      · rwa [hall]
      · rw [hall]
        exact A.guards q _ _ hs hadmits
  | elsewhere w =>
    cases hstep
    exact stepOf_set hs hadmits fun r hr => (hrequest r hr).later (.set hadmits)
  | proceed =>
    cases hl : c.locals i with
    | none => simp [hl] at hstep
    | some r =>
      obtain ⟨q, asked, began, rest⟩ := r
      have hprogress := hrequest _ hl
      rw [hl] at hstep
      cases rest with
      | pure b =>
        cases hstep
        exact ⟨.answer _ _, Consistent.answer hs hprogress, fun _ h => by cases h⟩
      | throw e => exact hprogress.guards.elim
      | memory effect next | statement label effect next =>
        cases hstep
        obtain ⟨hkeeps, hnext⟩ := hprogress.guards _ (A.keeps_refl _)
        refine stepOf_set hs hkeeps fun r hr => ?_
        obtain rfl := Option.some.inj hr
        exact hprogress.goOn hkeeps hnext
  | fail landed =>
    cases hl : c.locals i with
    | none => simp [hl] at hstep
    | some r =>
      obtain ⟨q, asked, began, rest⟩ := r
      have hprogress := hrequest _ hl
      rw [hl] at hstep
      cases rest with
      | statement label effect next =>
        cases hstep
        cases landed with
        | true => exact stepOf_set hs (hprogress.guards _ (A.keeps_refl _)).1 fun _ h => by cases h
        | false => exact ⟨.refl _, hs, fun _ h => by cases h⟩
      | pure b | throw e | memory effect next => cases hstep

/-! ## Runs -/

/-- Before the first request. -/
structure Idle (c : Config Pid (Serving σ Q α) (Option (Request σ L ε Q α))) : Prop where
  served : c.shared.served = []
  requests : ∀ i, c.locals i = none

theorem Idle.consistent {c : Config Pid (Serving σ Q α) (Option (Request σ L ε Q α))}
    (h : Idle c) : A.Consistent c.shared.store c.shared where
  keeps := A.keeps_refl _
  served e he := by simp [h.served] at he

variable [DecidableEq Pid]

variable (A) in
/-- The assertions of the requests, none of which another request breaks. -/
def kept (first : σ) :
    Interleaving.RelyGuarantee
      (requests program : Interleaving Pid (Serving σ Q α) (Option (Request σ L ε Q α)) _)
      A.admits fun _ => True where
  inv := A.Consistent first
  asserts _ s request := ∀ r, request = some r → A.InProgress first s r
  guarantee _ s s' := A.Later s s'
  own c i a s request _ hs hrequests hadmits hstep := by
    have h := requestStep_spec hs (hrequests i) hadmits hstep
    exact ⟨h.consistent, h.inProgress, h.later⟩
  stable i j s s' request _ _ hlater hrequest r hr := (hrequest r hr).later hlater

variable {c₀ c : Config Pid (Serving σ Q α) (Option (Request σ L ε Q α))}

/-- In every run the store is kept, every answered request has got what it was promised, and the
requests in progress will get it. -/
theorem sound (h₀ : Idle c₀) (h : (requests program).Run A.admits c₀ c) :
    A.Consistent c₀.shared.store c.shared ∧
      ∀ i r, c.locals i = some r → A.InProgress c₀.shared.store c.shared r :=
  (kept A c₀.shared.store).sound h (fun _ _ => trivial) h₀.consistent fun i r hr => by
    simp [h₀.requests i] at hr

theorem run_requestStep {i : Pid} {a : RequestLabel σ Q} (hadmits : A.admits c i a)
    {request : Option (Request σ L ε Q α)}
    (hstep : requestStep program c.shared (c.locals i) a = some (s, request)) :
    (requests program).Run A.admits c ⟨s, Function.update c.locals i request⟩ :=
  .step .refl hadmits (Interleaving.move_eq_some.mpr ⟨_, _, hstep, rfl⟩)

/-- A request goes on to its answer, if no statement fails. -/
theorem run_finishes (h₀ : Idle c₀) {i : Pid} {q : Q} {asked : ℕ} {began : σ}
    (rest : Session σ L ε α) {c : Config Pid (Serving σ Q α) (Option (Request σ L ε Q α))}
    (h : (requests program).Run A.admits c₀ c)
    (hrequest : c.locals i = some ⟨q, asked, began, rest⟩) :
    ∃ c' a, (requests program).Run A.admits c c' ∧ c'.locals = Function.update c.locals i none ∧
      c'.shared.served = c.shared.served ++ [⟨q, asked, began, a, c'.shared.store⟩] := by
  induction rest generalizing c with
  | pure a =>
    have hrun := run_requestStep (A := A) (a := .proceed) trivial (by rw [hrequest]; rfl)
    exact ⟨_, a, hrun, rfl, rfl⟩
  | throw e => exact ((sound h₀ h).2 i _ hrequest).guards.elim
  | memory effect next ih | statement label effect next ih =>
    have hrun := run_requestStep (A := A) (a := .proceed) trivial (by rw [hrequest]; rfl)
    obtain ⟨c', a, hrun', hlocals, hserved⟩ := ih _ (h.trans hrun) (Function.update_self ..)
    exact ⟨c', a, hrun.trans hrun', by rw [hlocals, Function.update_idem], hserved⟩

theorem run_does {i : Pid} {q : Q} {asked : ℕ} {began w : σ} {a : α} {rest : Session σ L ε α}
    (hrequest : c.locals i = some ⟨q, asked, began, rest⟩)
    (h : Session.Does rest c.shared.store a w) :
    (requests program).Run A.admits c
      ⟨⟨w, c.shared.served ++ [⟨q, asked, began, a, w⟩]⟩, Function.update c.locals i none⟩ := by
  induction rest generalizing c with
  | pure b =>
    cases h
    exact run_requestStep (A := A) (a := .proceed) trivial (by rw [hrequest]; rfl)
  | throw e => cases h
  | memory effect next ih | statement label effect next ih =>
    have hrun := run_requestStep (A := A) (a := .proceed) trivial (by rw [hrequest]; rfl)
    have hrest := ih c.shared.store (c := ⟨{ c.shared with store := effect c.shared.store },
      Function.update c.locals i (some ⟨q, asked, began, next c.shared.store⟩)⟩)
      (Function.update_self ..) h
    rw [Function.update_idem] at hrest
    exact hrun.trans hrest

/-- A request that nobody interrupts. -/
theorem run_alone {i : Pid} {q : Q} {w : σ} {a : α} (haccepts : A.accepts q c.shared.served)
    (hidle : c.locals i = none) (h : Session.Does (program q) c.shared.store a w) :
    (requests program).Run A.admits c
      ⟨⟨w, c.shared.served ++ [⟨q, c.shared.served.length, c.shared.store, a, w⟩]⟩, c.locals⟩ := by
  have hask := run_requestStep (A := A) (i := i) (a := .ask q) haccepts (by rw [hidle]; rfl)
  have hrest := run_does (A := A) (Function.update_self ..) (c := ⟨c.shared,
    Function.update c.locals i (some ⟨q, c.shared.served.length, c.shared.store, program q⟩)⟩) h
  rw [Function.update_idem, ← hidle, Function.update_eq_self] at hrest
  exact hask.trans hrest

end Contract

end BankPlatform.Library
