import BankPlatform.Library.Hosting

/-!
# Calls that take turns

The calls about one key take turns, and any process may work on any of them; calls about different
keys go on at the same time. As long as everybody spares what belongs to the other keys, the store
shows of a key what the calls about it did, as if they had been alone.

## Main definitions

* `Hosting.turns` — the calls as an interleaving of the keys.
* `Hosting.Ownership` — what belongs to a key, and what the store shows of the calls about it.

## Main results

* `Hosting.Ownership.sound`, `Hosting.Ownership.kept` — the store shows of every key the calls about
  it, and is kept.
* `Hosting.Ownership.run_finishes` — a call that is left alone ends.
-/

namespace BankPlatform.Library

/-- A call in hand, the process that works on it, and what it has still to do. -/
structure Turn (Process σ L ε Q α : Type) where
  process : Process
  query : Q
  rest : Session σ L ε α

inductive TurnLabel (Process σ Q : Type) where
  | call (m : Process) (q : Q)
  /-- The call in hand goes on up to its next step, or ends. -/
  | proceed
  /-- A process starts anew. -/
  | restart (m : Process)
  /-- Other parts of a process and other users of the store go on. -/
  | elsewhere (m : Process) (w : σ)

/-- The calls about a key that have been answered, in their order. -/
def Hosts.handled {Process D M Q α K : Type} [DecidableEq K] (s : Hosts Process D M Q α)
    (key : Q → K) (k : K) : List Q :=
  (s.answers.map Prod.fst).filter fun q => key q = k

namespace Hosting

variable {σ D M L ε Q α K Process : Type} (H : Hosting σ D M L ε Q α)

section

variable [DecidableEq Process]

def turnStep (s : Hosts Process D M Q α) (turn : Option (Turn Process σ L ε Q α)) :
    TurnLabel Process σ Q → Option (Hosts Process D M Q α × Option (Turn Process σ L ε Q α))
  | .call m q =>
    match turn with
    | none => some (s, some ⟨m, q, H.program q⟩)
    | some _ => none
  | .proceed =>
    match turn with
    | none => none
    | some ⟨_, q, .pure a⟩ => some ({ s with answers := s.answers ++ [(q, a)] }, none)
    | some ⟨_, _, .throw _⟩ => some (s, none)
    | some ⟨m, q, .memory effect next⟩ =>
      some (H.set s m (effect (H.world s m)), some ⟨m, q, next (H.world s m)⟩)
    | some ⟨m, q, .statement _ effect next⟩ =>
      some (H.set s m (effect (H.world s m)), some ⟨m, q, next (H.world s m)⟩)
  | .restart m => some ({ s with memory := Function.update s.memory m H.start }, turn)
  | .elsewhere m w => some (H.set s m w, turn)

/-- The turns of all keys. -/
def turns : Interleaving K (Hosts Process D M Q α) (Option (Turn Process σ L ε Q α))
    (TurnLabel Process σ Q) :=
  ⟨fun s _ => H.turnStep s⟩

end

/-- The store that a program sees. -/
def storeOf (w : σ) : D := (H.view.symm w).1

@[simp] theorem storeOf_world (s : Hosts Process D M Q α) (m : Process) :
    H.storeOf (H.world s m) = s.store := by
  simp [storeOf, world]

/-- From `w` to `w'` the store is kept; and if all was well it still is, and what belongs to the
keys in `ks` is spared. -/
def sparing (keeps : D → D → Prop) (inv : σ → Prop) (spares : K → D → D → Prop) (ks : K → Prop)
    (w w' : σ) : Prop :=
  keeps (H.storeOf w) (H.storeOf w') ∧
    (inv w → inv w' ∧ ∀ k, ks k → spares k (H.storeOf w) (H.storeOf w'))

/-- What is kept of the store, what belongs to each key, what is known of each memory, which calls
are made, and what the store shows of the calls about a key. -/
structure Ownership (key : Q → K) where
  keeps : D → D → Prop
  keeps_refl : ∀ d, keeps d d
  keeps_trans : ∀ d d' d'', keeps d d' → keeps d' d'' → keeps d d''
  spares : K → D → D → Prop
  spares_refl : ∀ k d, spares k d d
  spares_trans : ∀ k d d' d'', spares k d d' → spares k d' d'' → spares k d d''
  inv : σ → Prop
  inv_keeps : ∀ d d' m, inv (H.view (d, m)) → keeps d d' → inv (H.view (d', m))
  inv_start : ∀ d m, inv (H.view (d, m)) → inv (H.view (d, H.start))
  accepts : Q → Prop
  shows : K → List Q → D → Prop
  shows_spares : ∀ k qs d d', shows k qs d → keeps d d' → spares k d d' → shows k qs d'
  guards : ∀ q, accepts q → ∀ qs w, inv w → shows (key q) qs (H.storeOf w) →
    Session.Guards (H.sparing keeps inv spares (· = key q)) (H.sparing keeps inv spares (· ≠ key q))
      (fun _ w' => inv w' ∧ shows (key q) (qs ++ [q]) (H.storeOf w')) (H.program q) w

namespace Ownership

variable {H} {key : Q → K} (A : H.Ownership key)

/-- From `w` to `w'` what belongs to the keys in `ks` is spared. -/
abbrev Sparing (ks : K → Prop) : σ → σ → Prop := H.sparing A.keeps A.inv A.spares ks

section

variable [DecidableEq Process]

/-- Calls about a key are made that are accepted, a process starts anew between its calls, and
everybody else spares every key. -/
def admits : Interleaving.Guard K (Hosts Process D M Q α) (Option (Turn Process σ L ε Q α))
    (TurnLabel Process σ Q) :=
  fun c k a =>
    match a with
    | .call _ q => key q = k ∧ A.accepts q
    | .proceed => True
    | .restart m => ∀ k' turn, c.locals k' = some turn → turn.process ≠ m
    | .elsewhere m w => A.Sparing (fun _ => True) (H.world c.shared m) w

end

/-- All is well in every process. -/
def Consistent (s : Hosts Process D M Q α) : Prop := ∀ m, A.inv (H.world s m)

variable {A}

theorem sparing_refl (ks : K → Prop) (w : σ) : A.Sparing ks w w :=
  ⟨A.keeps_refl _, fun hw => ⟨hw, fun k _ => A.spares_refl k _⟩⟩

theorem sparing_trans {ks : K → Prop} (w w' w'' : σ) (h : A.Sparing ks w w')
    (h' : A.Sparing ks w' w'') : A.Sparing ks w w'' := by
  refine ⟨A.keeps_trans _ _ _ h.1 h'.1, fun hw => ?_⟩
  obtain ⟨hw', hspares⟩ := h.2 hw
  obtain ⟨hw'', hspares'⟩ := h'.2 hw'
  exact ⟨hw'', fun k hk => A.spares_trans _ _ _ _ (hspares k hk) (hspares' k hk)⟩

variable [DecidableEq K]

variable (A) in
/-- What is known when it is the turn of a call, or of none. -/
def Asserts (k : K) (s : Hosts Process D M Q α) : Option (Turn Process σ L ε Q α) → Prop
  | none => A.shows k (s.handled key k) s.store
  | some turn => key turn.query = k ∧
    Session.Guards (A.Sparing (· = k)) (A.Sparing (· ≠ k))
      (fun _ w' => A.inv w' ∧ A.shows k (s.handled key k ++ [turn.query]) (H.storeOf w'))
      turn.rest (H.world s turn.process)

variable (A) in
/-- From `s` to `s'` the keys in `ks` are spared. -/
structure Spared (ks : K → Prop) (s s' : Hosts Process D M Q α) : Prop where
  keeps : A.keeps s.store s'.store
  consistent : A.Consistent s'
  spares : ∀ k, ks k → A.spares k s.store s'.store
  handled : ∀ k, ks k → s'.handled key k = s.handled key k

theorem Spared.sparing {ks : K → Prop} {s s' : Hosts Process D M Q α} (h : A.Spared ks s s') {k : K}
    (hk : ks k) (m : Process) : A.Sparing (· = k) (H.world s m) (H.world s' m) := by
  unfold Sparing Hosting.sparing
  rw [storeOf_world, storeOf_world]
  exact ⟨h.keeps, fun _ => ⟨h.consistent m, fun _ heq => heq ▸ h.spares k hk⟩⟩

/-- What is known about a key that is spared stays known. -/
theorem Asserts.spared {ks : K → Prop} {s s' : Hosts Process D M Q α} {k : K}
    {turn : Option (Turn Process σ L ε Q α)} (h : A.Asserts k s turn) (hs : A.Spared ks s s')
    (hk : ks k) : A.Asserts k s' turn := by
  cases turn with
  | none =>
    unfold Asserts at h ⊢
    rw [hs.handled k hk]
    exact A.shows_spares _ _ _ _ h hs.keeps (hs.spares k hk)
  | some turn =>
    unfold Asserts at h ⊢
    rw [hs.handled k hk]
    refine ⟨h.1, h.2.stable sparing_trans ?_ (hs.sparing hk turn.process)⟩
    intro _ w w' ⟨hw, hshows⟩ hrely
    obtain ⟨hw', hspares⟩ := hrely.2 hw
    exact ⟨hw', A.shows_spares _ _ _ _ hshows hrely.1 (hspares k rfl)⟩

theorem Spared.refl {s : Hosts Process D M Q α} (hs : A.Consistent s) (ks : K → Prop) :
    A.Spared ks s s :=
  ⟨A.keeps_refl _, hs, fun k _ => A.spares_refl k _, fun _ _ => rfl⟩

theorem handled_answer (s : Hosts Process D M Q α) (q : Q) (a : α) (k : K) :
    Hosts.handled { s with answers := s.answers ++ [(q, a)] } key k =
      s.handled key k ++ if key q = k then [q] else [] := by
  simp [Hosts.handled, List.filter_singleton, Bool.cond_eq_ite]

variable [DecidableEq Process]

/-- A process changes what it sees. -/
theorem spared_set {s : Hosts Process D M Q α} (hs : A.Consistent s) {m : Process} {w : σ}
    {ks : K → Prop} (hw : A.Sparing ks (H.world s m) w) : A.Spared ks s (H.set s m w) := by
  unfold Sparing Hosting.sparing at hw
  rw [storeOf_world] at hw
  obtain ⟨hinv, hspares⟩ := hw.2 (hs m)
  refine ⟨hw.1, fun m' => ?_, hspares, fun _ _ => rfl⟩
  by_cases hm : m' = m
  · subst hm
    rwa [world_set]
  · rw [world_set_of_ne H s hm]
    exact A.inv_keeps _ _ _ (hs m') hw.1

theorem spared_restart {s : Hosts Process D M Q α} (hs : A.Consistent s) (m : Process)
    (ks : K → Prop) :
    A.Spared ks s { s with memory := Function.update s.memory m H.start } := by
  refine ⟨A.keeps_refl _, fun m' => ?_, fun k _ => A.spares_refl k _, fun _ _ => rfl⟩
  by_cases hm : m' = m
  · subst hm
    have hstart : A.inv (H.view (s.store, H.start)) := A.inv_start _ _ (hs m')
    simpa [world] using hstart
  · simpa [world, hm] using hs m'

/-- What a turn knows, it knows behind each of its steps; and each step spares the other keys. -/
theorem turnStep_spec {c : Config K (Hosts Process D M Q α) (Option (Turn Process σ L ε Q α))}
    {k : K} {a : TurnLabel Process σ Q} (hs : A.Consistent c.shared)
    (hturn : A.Asserts k c.shared (c.locals k)) (hadmits : A.admits c k a)
    {s' : Hosts Process D M Q α} {turn' : Option (Turn Process σ L ε Q α)}
    (hstep : H.turnStep c.shared (c.locals k) a = some (s', turn')) :
    A.Asserts k s' turn' ∧ A.Spared (· ≠ k) c.shared s' := by
  -- A step of the call in hand, which sees the world of its process.
  have goes {m : Process} {q : Q} {effect : σ → σ} {next : σ → Session σ L ε α}
      (hkey : key q = k) (hguards : A.Sparing (· ≠ k) (H.world c.shared m)
          (effect (H.world c.shared m)) ∧ Session.Guards (A.Sparing (· = k)) (A.Sparing (· ≠ k))
            (fun _ w' => A.inv w' ∧
              A.shows k (c.shared.handled key k ++ [q]) (H.storeOf w'))
            (next (H.world c.shared m)) (effect (H.world c.shared m))) :
      A.Asserts k (H.set c.shared m (effect (H.world c.shared m)))
          (some ⟨m, q, next (H.world c.shared m)⟩) ∧
        A.Spared (· ≠ k) c.shared (H.set c.shared m (effect (H.world c.shared m))) := by
    refine ⟨⟨hkey, ?_⟩, spared_set hs hguards.1⟩
    rw [world_set]
    exact hguards.2
  unfold turnStep at hstep
  cases a with
  | call m q =>
    cases hl : c.locals k with
    | some turn =>
      rw [hl] at hstep
      cases hstep
    | none =>
      rw [hl] at hstep hturn
      cases hstep
      obtain ⟨rfl, haccepts⟩ := hadmits
      refine ⟨⟨rfl, A.guards q haccepts _ _ (hs m) ?_⟩, .refl hs _⟩
      rw [storeOf_world]
      exact hturn
  | proceed =>
    cases hl : c.locals k with
    | none =>
      rw [hl] at hstep
      cases hstep
    | some turn =>
      obtain ⟨m, q, rest⟩ := turn
      rw [hl] at hstep hturn
      obtain ⟨hkey, hguards⟩ := hturn
      cases rest with
      | pure b =>
        cases hstep
        obtain ⟨-, hshows⟩ := hguards
        refine ⟨?_, A.keeps_refl _, hs, fun k' _ => A.spares_refl k' _, fun k' hk' => ?_⟩
        · unfold Asserts
          rw [handled_answer, if_pos hkey]
          simpa using hshows
        · rw [handled_answer, if_neg fun heq => hk' (heq.symm.trans hkey), List.append_nil]
      | throw e => exact hguards.elim
      | memory effect next =>
        cases hstep
        exact goes hkey (hguards _ (sparing_refl _ _))
      | statement label effect next =>
        cases hstep
        exact goes hkey (hguards _ (sparing_refl _ _))
  | restart m =>
    cases hstep
    exact ⟨hturn.spared (spared_restart hs m fun _ => True) trivial, spared_restart hs m _⟩
  | elsewhere m w =>
    cases hstep
    have hall := spared_set hs hadmits
    exact ⟨hturn.spared hall trivial, hall.keeps, hall.consistent,
      fun k' _ => hall.spares k' trivial, fun k' _ => hall.handled k' trivial⟩

variable (A) in
/-- What the turns know, and no step about another key breaks. -/
def owned : Interleaving.RelyGuarantee (H.turns : Interleaving K (Hosts Process D M Q α) _ _)
    A.admits fun _ => True where
  inv := A.Consistent
  asserts := A.Asserts
  guarantee k := A.Spared (· ≠ k)
  own c k a s turn _ hs hturns hadmits hstep := by
    have h := turnStep_spec hs (hturns k) hadmits hstep
    exact ⟨h.2.consistent, h.1, h.2⟩
  stable k j s s' turn hne _ hspared hturn := hturn.spared hspared hne

/-- Before the first call. -/
structure Started (A : H.Ownership key)
    (c : Config K (Hosts Process D M Q α) (Option (Turn Process σ L ε Q α))) : Prop where
  consistent : A.Consistent c.shared
  answers : c.shared.answers = []
  idle : ∀ k, c.locals k = none
  shows : ∀ k, A.shows k [] c.shared.store

/-- In every run all is well in every process, and the store shows of every key the calls about it
that have been answered; and a call in hand will see to it that it is shown as well. -/
theorem sound {c₀ c : Config K (Hosts Process D M Q α) (Option (Turn Process σ L ε Q α))}
    (h₀ : A.Started c₀) (h : H.turns.Run A.admits c₀ c) :
    A.Consistent c.shared ∧ ∀ k, A.Asserts k c.shared (c.locals k) := by
  refine A.owned.sound h (fun _ _ => trivial) h₀.consistent fun k => ?_
  have hnone : c₀.shared.handled key k = [] := by
    rw [Hosts.handled, h₀.answers]
    rfl
  have hasserts : A.Asserts k c₀.shared none := by
    unfold Asserts
    rw [hnone]
    exact h₀.shows k
  rwa [← h₀.idle k] at hasserts

/-- From each state of a run to the later ones the store is kept. -/
theorem kept {c₀ c c' : Config K (Hosts Process D M Q α) (Option (Turn Process σ L ε Q α))}
    (h₀ : A.Started c₀) (h : H.turns.Run A.admits c₀ c) (h' : H.turns.Run A.admits c c') :
    A.keeps c.shared.store c'.shared.store := by
  induction h' with
  | refl => exact A.keeps_refl _
  | @step d d' k a hrun hadmits hmove ih =>
    obtain ⟨s, turn, hstep, rfl⟩ := Interleaving.move_eq_some.mp hmove
    obtain ⟨hs, hturns⟩ := sound h₀ (h.trans hrun)
    exact A.keeps_trans _ _ _ ih (turnStep_spec hs (hturns k) hadmits hstep).2.keeps

/-! ## Calls that are left alone -/

theorem run_turnStep {c : Config K (Hosts Process D M Q α) (Option (Turn Process σ L ε Q α))}
    {k : K} {a : TurnLabel Process σ Q} (hadmits : A.admits c k a) {s : Hosts Process D M Q α}
    {turn : Option (Turn Process σ L ε Q α)}
    (hstep : H.turnStep c.shared (c.locals k) a = some (s, turn)) :
    H.turns.Run A.admits c ⟨s, Function.update c.locals k turn⟩ :=
  .step .refl hadmits (Interleaving.move_eq_some.mpr ⟨_, _, hstep, rfl⟩)

/-- A call goes on to its end. -/
theorem run_finishes {c₀ : Config K (Hosts Process D M Q α) (Option (Turn Process σ L ε Q α))}
    (h₀ : A.Started c₀) {k : K} {m : Process} {q : Q} (rest : Session σ L ε α)
    {c : Config K (Hosts Process D M Q α) (Option (Turn Process σ L ε Q α))}
    (h : H.turns.Run A.admits c₀ c) (hturn : c.locals k = some ⟨m, q, rest⟩) :
    ∃ c' a, H.turns.Run A.admits c c' ∧ c'.locals = Function.update c.locals k none ∧
      c'.shared.answers = c.shared.answers ++ [(q, a)] := by
  induction rest generalizing c with
  | pure a =>
    have hrun := run_turnStep (A := A) (a := .proceed) trivial (by rw [hturn]; rfl)
    exact ⟨_, a, hrun, rfl, rfl⟩
  | throw e =>
    have hasserts := (sound h₀ h).2 k
    rw [hturn] at hasserts
    exact hasserts.2.elim
  | memory effect next ih =>
    have hrun := run_turnStep (A := A) (a := .proceed) trivial (by rw [hturn]; rfl)
    obtain ⟨c', a, hrun', hlocals, hanswers⟩ := ih _ (h.trans hrun) (Function.update_self ..)
    exact ⟨c', a, hrun.trans hrun', by rw [hlocals, Function.update_idem], hanswers⟩
  | statement label effect next ih =>
    have hrun := run_turnStep (A := A) (a := .proceed) trivial (by rw [hturn]; rfl)
    obtain ⟨c', a, hrun', hlocals, hanswers⟩ := ih _ (h.trans hrun) (Function.update_self ..)
    exact ⟨c', a, hrun.trans hrun', by rw [hlocals, Function.update_idem], hanswers⟩

end Ownership

end Hosting

end BankPlatform.Library
