import BankPlatform.Library.Session

/-!
# Programs under interference

Between the steps of a program others change the state as well. A program guards its ends if,
whatever the others do within what it relies on, its own steps stay within what it guarantees, it
does not throw, and what holds when it returns is as promised.

## Main definitions

* `Session.Guards` — a program that guards its ends.
* `Session.Ends` — what it ends in, if its errors are caught.

## Main results

* `Session.Guards.bind`, `Session.Guards.foldlM`, `Session.Guards.forM` — the rules for sequences
  and loops.
* `Session.Guards.frame`, `Session.Guards.weaken` — what nobody breaks holds in the end, and what
  may be relied on instead.
* `Session.Guards.stable` — the others do not break it.
-/

namespace BankPlatform.Library.Session

variable {σ L ε α β ι : Type} {rely guar : σ → σ → Prop} {post : α → σ → Prop}

/-- Whatever the others do before each step. -/
def Guards (rely guar : σ → σ → Prop) (post : α → σ → Prop) : Session σ L ε α → σ → Prop
  | pure a, s => post a s
  | throw _, _ => False
  | memory effect next, s =>
    ∀ t, rely s t → guar t (effect t) ∧ Guards rely guar post (next t) (effect t)
  | statement _ effect next, s =>
    ∀ t, rely s t → guar t (effect t) ∧ Guards rely guar post (next t) (effect t)

theorem Guards.mono {post' : α → σ → Prop} {p : Session σ L ε α} {s : σ}
    (h : Guards rely guar post p s) (himp : ∀ a t, post a t → post' a t) :
    Guards rely guar post' p s := by
  induction p generalizing s with
  | pure a => exact himp a s h
  | throw e => exact h
  | memory effect next ih => exact fun t ht => ⟨(h t ht).1, ih t (h t ht).2⟩
  | statement label effect next ih => exact fun t ht => ⟨(h t ht).1, ih t (h t ht).2⟩

/-- What the others do leaves it as it is, if it leaves the promise as it is. -/
theorem Guards.stable {p : Session σ L ε α} {s t : σ}
    (htrans : ∀ s t u, rely s t → rely t u → rely s u)
    (hpost : ∀ a s t, post a s → rely s t → post a t) (h : Guards rely guar post p s)
    (hst : rely s t) : Guards rely guar post p t := by
  cases p with
  | pure a => exact hpost a s t h hst
  | throw e => exact h
  | memory effect next => exact fun u htu => h u (htrans s t u hst htu)
  | statement label effect next => exact fun u htu => h u (htrans s t u hst htu)

/-- The rule of consequence: the others may be relied on for less where `P` holds, which the program
sees to. -/
theorem Guards.weaken {P : σ → Prop} {rely' guar' : σ → σ → Prop} {p : Session σ L ε α} {s : σ}
    (h : Guards rely guar post p s) (hrely : ∀ s t, P s → rely' s t → rely s t)
    (hguar : ∀ s t, guar s t → guar' s t) (hP : ∀ s t u, P s → rely' s t → guar t u → P u)
    (hs : P s) : Guards rely' guar' post p s := by
  induction p generalizing s with
  | pure a => exact h
  | throw e => exact h
  | memory effect next ih =>
    intro t ht
    obtain ⟨hstep, hnext⟩ := h t (hrely s t hs ht)
    exact ⟨hguar _ _ hstep, ih t hnext (hP s t _ hs ht hstep)⟩
  | statement label effect next ih =>
    intro t ht
    obtain ⟨hstep, hnext⟩ := h t (hrely s t hs ht)
    exact ⟨hguar _ _ hstep, ih t hnext (hP s t _ hs ht hstep)⟩

/-- What neither the others nor the program itself break holds when it returns. -/
theorem Guards.frame {P : σ → Prop} {p : Session σ L ε α} {s : σ}
    (h : Guards rely guar post p s) (hrely : ∀ s t, P s → rely s t → P t)
    (hguar : ∀ s t, P s → guar s t → P t) (hs : P s) :
    Guards rely guar (fun a t => post a t ∧ P t) p s := by
  induction p generalizing s with
  | pure a => exact ⟨h, hs⟩
  | throw e => exact h
  | memory effect next ih =>
    intro t ht
    exact ⟨(h t ht).1, ih t (h t ht).2 (hguar t _ (hrely s t hs ht) (h t ht).1)⟩
  | statement label effect next ih =>
    intro t ht
    exact ⟨(h t ht).1, ih t (h t ht).2 (hguar t _ (hrely s t hs ht) (h t ht).1)⟩

theorem Guards.bind {p : Session σ L ε α} {k : α → Session σ L ε β} {mid : α → σ → Prop}
    {post : β → σ → Prop} {s : σ} (h : Guards rely guar mid p s)
    (hk : ∀ a t, mid a t → Guards rely guar post (k a) t) :
    Guards rely guar post (p >>= k) s := by
  change Guards rely guar post (p.bind k) s
  induction p generalizing s with
  | pure a => exact hk a s h
  | throw e => exact h.elim
  | memory effect next ih => exact fun t ht => ⟨(h t ht).1, ih t (h t ht).2⟩
  | statement label effect next ih => exact fun t ht => ⟨(h t ht).1, ih t (h t ht).2⟩

/-- What holds behind a program that returns, or throws. -/
def Ends (returns : α → σ → Prop) (throws : ε → σ → Prop) : Except ε α → σ → Prop
  | .ok a => returns a
  | .error e => throws e

/-- A program that throws nothing ends as it returns. -/
theorem Guards.attempt {p : Session σ L ε α} {throws : ε → σ → Prop} {s : σ}
    (h : Guards rely guar post p s) : Guards rely guar (Ends post throws) p.attempt s := by
  induction p generalizing s with
  | pure a => exact h
  | throw e => exact h.elim
  | memory effect next ih => exact fun t ht => ⟨(h t ht).1, ih t (h t ht).2⟩
  | statement label effect next ih => exact fun t ht => ⟨(h t ht).1, ih t (h t ht).2⟩

/-- The rule for sequences of programs whose errors are caught. -/
theorem Guards.attempt_bind {p : Session σ L ε α} {k : α → Session σ L ε β}
    {returns : α → σ → Prop} {throws : ε → σ → Prop} {post : Except ε β → σ → Prop} {s : σ}
    (h : Guards rely guar (Ends returns throws) p.attempt s)
    (hreturns : ∀ a t, returns a t → Guards rely guar post (k a).attempt t)
    (hthrows : ∀ e t, throws e t → post (.error e) t) :
    Guards rely guar post (p >>= k).attempt s := by
  rw [Session.attempt_bind]
  refine h.bind fun r t hr => ?_
  cases r with
  | ok a => exact hreturns a t hr
  | error e => exact hthrows e t hr

/-- The rule for a `try` that goes on whatever it has come to. -/
theorem Guards.attempt_try {p : Session σ L ε α} {k : Except ε α → Session σ L ε β}
    {mid : Except ε α → σ → Prop} {post : Except ε β → σ → Prop} {s : σ}
    (h : Guards rely guar mid p.attempt s)
    (hk : ∀ r t, mid r t → Guards rely guar post (k r).attempt t) :
    Guards rely guar post (p.attempt >>= k).attempt s := by
  rw [Session.attempt_bind, attempt_attempt, LawfulMonad.bind_assoc]
  exact h.bind hk

theorem guards_pure {a : α} {s : σ} (h : post a s) :
    Guards rely guar post (Pure.pure a : Session σ L ε α) s := h

theorem guards_get {post : σ → σ → Prop} {s : σ}
    (h : ∀ t, rely s t → guar t t ∧ post t t) :
    Guards rely guar post (get : Session σ L ε σ) s := h

theorem guards_modify {effect : σ → σ} {post : Unit → σ → Prop} {s : σ}
    (h : ∀ t, rely s t → guar t (effect t) ∧ post () (effect t)) :
    Guards rely guar post (modify effect : Session σ L ε Unit) s := h

theorem guards_query {label : L} {read : σ → α} {s : σ}
    (h : ∀ t, rely s t → guar t t ∧ post (read t) t) :
    Guards rely guar post (query label read : Session σ L ε α) s := h

/-- A write that is accepted. -/
theorem guards_execute {label : L} {write : σ → Except ε σ} {post : Unit → σ → Prop} {s : σ}
    (h : ∀ t, rely s t → ∃ t', write t = .ok t' ∧ guar t t' ∧ post () t') :
    Guards rely guar post (execute label write) s := by
  intro t ht
  obtain ⟨t', hwrite, hguar, hpost⟩ := h t ht
  dsimp only
  rw [hwrite]
  exact ⟨hguar, hpost⟩

theorem guards_attempt_get {k : σ → Session σ L ε α} {post : Except ε α → σ → Prop} {s : σ}
    (h : ∀ t, rely s t → guar t t ∧ Guards rely guar post (k t).attempt t) :
    Guards rely guar post (get >>= k).attempt s := h

theorem guards_attempt_query {label : L} {read : σ → β} {k : β → Session σ L ε α}
    {post : Except ε α → σ → Prop} {s : σ}
    (h : ∀ t, rely s t → guar t t ∧ Guards rely guar post (k (read t)).attempt t) :
    Guards rely guar post (query label read >>= k).attempt s := h

/-- A write that is accepted or refused. -/
theorem guards_attempt_execute {label : L} {write : σ → Except ε σ}
    {post : Except ε Unit → σ → Prop} {s : σ}
    (hok : ∀ t, rely s t → ∀ t', write t = .ok t' → guar t t' ∧ post (.ok ()) t')
    (herror : ∀ t, rely s t → ∀ e, write t = .error e → guar t t ∧ post (.error e) t) :
    Guards rely guar post (execute label write).attempt s := by
  intro t ht
  dsimp only
  cases hwrite : write t with
  | ok t' => exact hok t ht t' hwrite
  | error e => exact herror t ht e hwrite

/-- A write that returns, or is refused. -/
theorem guards_attempt_returning {label : L} {write : σ → Except ε (α × σ)}
    {post : Except ε α → σ → Prop} {s : σ}
    (hok : ∀ t, rely s t → ∀ a t', write t = .ok (a, t') → guar t t' ∧ post (.ok a) t')
    (herror : ∀ t, rely s t → ∀ e, write t = .error e → guar t t ∧ post (.error e) t) :
    Guards rely guar post (returning label write).attempt s := by
  intro t ht
  dsimp only
  cases hwrite : write t with
  | ok r => exact hok t ht r.1 r.2 hwrite
  | error e => exact herror t ht e hwrite

/-- A loop: one round brings `J` from the items before it to those up to it. -/
theorem Guards.foldlM {f : α → ι → Session σ L ε α} {J : List ι → α → σ → Prop} (items : List ι)
    (hround : ∀ (done : List ι), ∀ i ∈ items, ∀ a s, J done a s →
      Guards rely guar (J (done ++ [i])) (f a i) s)
    {a : α} {s : σ} (h : J [] a s) : Guards rely guar (J items) (items.foldlM f a) s := by
  suffices hfrom : ∀ (rest done : List ι), (∀ i ∈ rest, i ∈ items) → ∀ a s, J done a s →
      Guards rely guar (J (done ++ rest)) (rest.foldlM f a) s from
    hfrom items [] (fun _ => id) a s h
  intro rest
  induction rest with
  | nil =>
    intro done _ a s hdone
    rw [List.append_nil]
    exact guards_pure hdone
  | cons i rest ih =>
    intro done hitems a s hdone
    rw [List.foldlM_cons]
    refine (hround done i (hitems i List.mem_cons_self) a s hdone).bind fun b t ht => ?_
    rw [List.append_cons]
    exact ih (done ++ [i]) (fun j hj => hitems j (List.mem_cons_of_mem _ hj)) b t ht

/-- A loop that carries no value. -/
theorem Guards.forM {body : ι → Session σ L ε PUnit} {J : List ι → σ → Prop} (items : List ι)
    (hround : ∀ done i rest, items = done ++ i :: rest → ∀ s, J done s →
      Guards rely guar (fun _ => J (done ++ [i])) (body i) s)
    {s : σ} (h : J [] s) : Guards rely guar (fun _ => J items) (items.forM body) s := by
  suffices hfrom : ∀ rest done s, items = done ++ rest → J done s →
      Guards rely guar (fun _ => J items) (rest.forM body) s from hfrom items [] s rfl h
  intro rest
  induction rest with
  | nil =>
    intro done s hitems hdone
    rw [List.append_nil] at hitems
    exact guards_pure (hitems ▸ hdone)
  | cons i rest ih =>
    intro done s hitems hdone
    rw [List.forM_eq_forM, List.forM_cons]
    refine (hround done i rest hitems s hdone).bind fun _ t ht => ?_
    exact ih (done ++ [i]) t (by simp [hitems]) ht

end BankPlatform.Library.Session
