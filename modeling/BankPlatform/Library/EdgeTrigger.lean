import Mathlib.Data.List.Infix
import Mathlib.Data.List.MinMax
import Mathlib.Data.List.Perm.Subperm
import Mathlib.Order.Lattice

/-!
# Edge triggers with a cooldown

Readings either satisfy a condition or do not. A trigger reports a reading when the condition starts
holding, and again when the cooldown has passed since the last report while it goes on holding. It
remembers two things: whether the condition held last, and when it last fired.

## Main definitions

* `EdgeTrigger`, `EdgeState` — a condition over readings, and what is remembered.
* `EdgeTrigger.fired`, `EdgeTrigger.after` — the readings that are reported, and the state behind.
* `EdgeTrigger.RisesOrCools` — which readings of a history are to be reported.

## Main results

* `risesOrCools_fired` — exactly those are reported.
* `retry_covers`, `retry_loses` — what a second delivery makes up for, and what it does not.
* `fired_again` — when a second delivery reports nothing.
* `perm_fired_base` — when readings without the condition in between change no report.
-/

namespace BankPlatform.Library

/-- A condition over readings with a clock of their own. -/
structure EdgeTrigger (R : Type*) where
  holds : R → Bool
  time : R → ℤ
  cooldown : ℤ

/-- What a trigger remembers. -/
structure EdgeState where
  active : Bool
  lastFired : Option ℤ
  deriving DecidableEq, Repr

/-- Nothing has been read. -/
def EdgeState.initial : EdgeState := ⟨false, none⟩

namespace EdgeTrigger

variable {R : Type*} (e : EdgeTrigger R)

def cooledDown (s : EdgeState) (r : R) : Bool :=
  s.lastFired.any fun last => e.cooldown ≤ e.time r - last

def fires (s : EdgeState) (r : R) : Bool := e.holds r && (!s.active || e.cooledDown s r)

def step (s : EdgeState) (r : R) : EdgeState where
  active := e.holds r
  lastFired := if e.fires s r then some (e.time r) else s.lastFired

def after (s : EdgeState) (rs : List R) : EdgeState := rs.foldl e.step s

/-- The readings that are reported. -/
def fired (s : EdgeState) : List R → List R
  | [] => []
  | r :: rs => (if e.fires s r then [r] else []) ++ fired (e.step s r) rs

@[simp] theorem after_nil (s : EdgeState) : e.after s [] = s := rfl

@[simp] theorem after_cons (s : EdgeState) (r : R) (rs : List R) :
    e.after s (r :: rs) = e.after (e.step s r) rs := rfl

@[simp] theorem after_append (s : EdgeState) (rs rs' : List R) :
    e.after s (rs ++ rs') = e.after (e.after s rs) rs' := List.foldl_append

@[simp] theorem fired_append (s : EdgeState) (rs rs' : List R) :
    e.fired s (rs ++ rs') = e.fired s rs ++ e.fired (e.after s rs) rs' := by
  induction rs generalizing s with
  | nil => rfl
  | cons r rs ih =>
    rw [List.cons_append, fired, fired, ih, List.append_assoc]
    rfl

/-- Only readings with the condition are reported. -/
theorem holds_of_mem_fired {s : EdgeState} {rs : List R} {r : R} (h : r ∈ e.fired s rs) :
    e.holds r = true := by
  induction rs generalizing s with
  | nil => cases h
  | cons r' rs ih =>
    rcases List.mem_append.mp h with hfirst | hrest
    · split at hfirst
      · next hfires =>
        obtain rfl := List.mem_singleton.mp hfirst
        rw [fires, Bool.and_eq_true] at hfires
        exact hfires.1
      · cases hfirst
    · exact ih hrest

@[simp] theorem step_active (s : EdgeState) (r : R) : (e.step s r).active = e.holds r := rfl

/-! ## The whole history -/

/-- The readings at the marked positions. -/
def selected (mark : ℕ → Bool) (rs : List R) : List R :=
  (rs.zipIdx.filter fun p => mark p.2).map Prod.fst

theorem selected_concat (mark : ℕ → Bool) (rs : List R) (r : R) :
    selected mark (rs ++ [r]) = selected mark rs ++ (if mark rs.length then [r] else []) := by
  unfold selected
  rw [List.zipIdx_append, List.filter_append, List.map_append]
  congr 1
  cases h : mark rs.length <;> simp [h]

/-- Marked are the readings with the condition that are the first, that follow one without it, or
that come the cooldown or more after the latest marked one before them. -/
def RisesOrCools (rs : List R) (mark : ℕ → Bool) : Prop :=
  ∀ i r, rs[i]? = some r → (mark i = true ↔ e.holds r = true ∧
    (i = 0 ∨ (∃ p, rs[i - 1]? = some p ∧ e.holds p = false) ∨
      ∃ l, (selected mark (rs.take i)).getLast? = some l ∧ e.cooldown ≤ e.time r - e.time l))

/-- The positions of the readings that are reported. -/
def reported (rs : List R) (i : ℕ) : Bool :=
  rs[i]?.any (e.fires (e.after .initial (rs.take i)))

theorem reported_append_left {rs : List R} {i : ℕ} (h : i < rs.length) (rs' : List R) :
    e.reported (rs ++ rs') i = e.reported rs i := by
  unfold reported
  rw [List.getElem?_append_left h, List.take_append_of_le_length h.le]

theorem selected_reported_append (rs rs' : List R) :
    selected (e.reported (rs ++ rs')) rs = selected (e.reported rs) rs := by
  unfold selected
  congr 1
  refine List.filter_congr fun p hp => ?_
  have hlt : p.2 < rs.length := by
    have := List.snd_lt_of_mem_zipIdx hp
    omega
  exact e.reported_append_left hlt rs'

theorem fired_eq_selected (rs : List R) :
    e.fired .initial rs = selected (e.reported rs) rs := by
  induction rs using List.reverseRecOn with
  | nil => rfl
  | append_singleton rs r ih =>
    have hlast : e.reported (rs ++ [r]) rs.length = e.fires (e.after .initial rs) r := by
      simp [reported]
    rw [fired_append, selected_concat, selected_reported_append, hlast, ih]
    simp [fired]

/-- The condition held last if it does in the last reading. -/
theorem active_after (s : EdgeState) (rs : List R) :
    (e.after s rs).active = (rs.getLast?.map e.holds).getD s.active := by
  cases rs using List.reverseRecOn with
  | nil => rfl
  | append_singleton rs r => simp

/-- The time of the last report. -/
theorem lastFired_after (s : EdgeState) (rs : List R) :
    (e.after s rs).lastFired = ((e.fired s rs).getLast?.map e.time).or s.lastFired := by
  induction rs using List.reverseRecOn with
  | nil => rfl
  | append_singleton rs r ih =>
    rw [after_append, fired_append]
    cases hfires : e.fires (e.after s rs) r with
    | true => simp [fired, step, hfires]
    | false => simp [fired, step, hfires, ih]

/-- The reports are those of the whole history. -/
theorem risesOrCools_reported (rs : List R) : e.RisesOrCools rs (e.reported rs) := by
  intro i r hr
  have hlt : i < rs.length := (List.getElem?_eq_some_iff.mp hr).1
  have hsplit : rs.take i ++ rs.drop i = rs := List.take_append_drop i rs
  have hselected : selected (e.reported rs) (rs.take i) = e.fired .initial (rs.take i) := by
    rw [fired_eq_selected, ← selected_reported_append e (rs.take i) (rs.drop i), hsplit]
  have hactive : (e.after .initial (rs.take i)).active = true ↔
      ∃ p, rs[i - 1]? = some p ∧ i ≠ 0 ∧ e.holds p = true := by
    rw [active_after, List.getLast?_take]
    by_cases hi : i = 0
    · simp [hi, EdgeState.initial]
    · have hprev : i - 1 < rs.length := by omega
      simp [hi, List.getElem?_eq_getElem hprev]
  have hcooled : e.cooledDown (e.after .initial (rs.take i)) r = true ↔
      ∃ l, (selected (e.reported rs) (rs.take i)).getLast? = some l ∧
        e.cooldown ≤ e.time r - e.time l := by
    rw [hselected, cooledDown, lastFired_after]
    cases (e.fired .initial (rs.take i)).getLast? <;> simp [EdgeState.initial]
  rw [reported, hr, Option.any_some, fires, Bool.and_eq_true, Bool.or_eq_true, hcooled,
    Bool.not_eq_true', ← Bool.not_eq_true, hactive]
  refine and_congr_right fun hholds => ?_
  by_cases hi : i = 0
  · simp [hi]
  · have hprev : i - 1 < rs.length := by omega
    simp [hi, List.getElem?_eq_getElem hprev]

/-! ## A second delivery -/

variable {e}

theorem fires_of_inactive {s : EdgeState} (h : s.active = false) (r : R) :
    e.fires s r = e.holds r := by
  simp [fires, h]

theorem step_eq_self {s : EdgeState} {r : R} (hholds : e.holds r = true) (hactive : s.active = true)
    (hcooled : e.cooledDown s r = false) : e.fires s r = false ∧ e.step s r = s := by
  have hfires : e.fires s r = false := by simp [fires, hactive, hcooled]
  refine ⟨hfires, ?_⟩
  rw [step, hfires, hholds, if_neg Bool.false_ne_true, ← hactive]

/-- While the condition does not hold it does not matter when it last fired. -/
theorem fired_of_inactive {s s' : EdgeState} (h : s.active = false) (h' : s'.active = false)
    (rs : List R) : e.fired s rs = e.fired s' rs := by
  induction rs generalizing s s' with
  | nil => rfl
  | cons r rs ih =>
    rw [fired, fired, fires_of_inactive h, fires_of_inactive h']
    congr 1
    cases hholds : e.holds r with
    | false => exact ih hholds hholds
    | true =>
      have hstep : e.step s r = e.step s' r := by
        simp [step, fires_of_inactive h, fires_of_inactive h', hholds]
      rw [hstep]

/-- Behind a reading without the condition the reports do not depend on the state before. -/
theorem fired_after_break {s s' : EdgeState} {r : R} (hholds : e.holds r = false)
    (rs : List R) : e.fired (e.step s r) rs = e.fired (e.step s' r) rs :=
  fired_of_inactive hholds hholds rs

/-- What has not cooled down goes on not having cooled down while the condition holds: the time of
the last report only grows. -/
theorem cooledDown_step {s : EdgeState} (hcooldown : 0 < e.cooldown) {r r' : R}
    (hactive : s.active = true) (h : e.cooledDown s r' = false) :
    e.cooledDown (e.step s r) r' = false := by
  cases hfires : e.fires s r with
  | false => simpa [cooledDown, step, hfires] using h
  | true =>
    have hcooled : e.cooledDown s r = true := by
      simp [fires, hactive] at hfires
      exact hfires.2
    cases hlast : s.lastFired with
    | none => simp [cooledDown, hlast] at hcooled
    | some last =>
      simp only [cooledDown, hlast, Option.any_some, decide_eq_true_eq, decide_eq_false_iff_not]
        at h hcooled
      simp only [cooledDown, step, hfires, if_true, Option.any_some, decide_eq_false_iff_not]
      omega

/-- A reading with the condition has not cooled down behind itself. -/
theorem cooledDown_step_self {s : EdgeState} (hcooldown : 0 < e.cooldown) {r : R}
    (hholds : e.holds r = true) : e.cooledDown (e.step s r) r = false := by
  cases hfires : e.fires s r with
  | true =>
    simp only [cooledDown, step, hfires, if_true, Option.any_some, decide_eq_false_iff_not]
    omega
  | false =>
    have hlast : (e.step s r).lastFired = s.lastFired := by simp [step, hfires]
    simp only [fires, hholds, Bool.true_and, Bool.or_eq_false_iff] at hfires
    rw [cooledDown, hlast]
    exact hfires.2

theorem cooledDown_after {s : EdgeState} (hcooldown : 0 < e.cooldown) {rs : List R} {r' : R}
    (hactive : s.active = true) (hrs : ∀ r ∈ rs, e.holds r = true)
    (h : e.cooledDown s r' = false) : e.cooledDown (e.after s rs) r' = false := by
  induction rs generalizing s with
  | nil => exact h
  | cons r rs ih =>
    obtain ⟨hr, hrs⟩ := List.forall_mem_cons.mp hrs
    exact ih hr hrs (cooledDown_step hcooldown hactive h)

/-- Behind readings that all have the condition none of them has cooled down. -/
theorem cooledDown_after_mem {s : EdgeState} (hcooldown : 0 < e.cooldown) {rs : List R}
    (hrs : ∀ r ∈ rs, e.holds r = true) : ∀ r ∈ rs, e.cooledDown (e.after s rs) r = false := by
  induction rs generalizing s with
  | nil =>
    intro r hr
    cases hr
  | cons r rs ih =>
    intro r' hr'
    have hr : e.holds r = true := hrs r List.mem_cons_self
    have hrs' : ∀ r ∈ rs, e.holds r = true := fun r hr => hrs r (List.mem_cons_of_mem _ hr)
    rcases List.mem_cons.mp hr' with rfl | hr'
    · exact cooledDown_after (s := e.step s r') hcooldown hr hrs'
        (cooledDown_step_self hcooldown hr)
    · exact ih hrs' r' hr'

theorem active_after_of_holds {s : EdgeState} {rs : List R} (hne : rs ≠ [])
    (hrs : ∀ r ∈ rs, e.holds r = true) : (e.after s rs).active = true := by
  rw [active_after, List.getLast?_eq_getLast_of_ne_nil hne]
  exact hrs _ (List.getLast_mem hne)

/-- Readings that have not cooled down in an active state change nothing. -/
theorem after_eq_self {s : EdgeState} {rs : List R} (hactive : s.active = true)
    (hrs : ∀ r ∈ rs, e.holds r = true ∧ e.cooledDown s r = false) :
    e.fired s rs = [] ∧ e.after s rs = s := by
  induction rs with
  | nil => exact ⟨rfl, rfl⟩
  | cons r rs ih =>
    obtain ⟨hr, hrs⟩ := List.forall_mem_cons.mp hrs
    obtain ⟨hfires, hstep⟩ := step_eq_self hr.1 hactive hr.2
    rw [fired, after_cons, hfires, hstep]
    exact ih hrs

/-- Readings that all have the condition, delivered again. -/
theorem again_of_holds {s : EdgeState} (hcooldown : 0 < e.cooldown) {rs : List R}
    (hrs : ∀ r ∈ rs, e.holds r = true) :
    e.fired (e.after s rs) rs = [] ∧ e.after (e.after s rs) rs = e.after s rs := by
  rcases List.eq_nil_or_concat rs with rfl | ⟨rs', r, rfl⟩
  · exact ⟨rfl, rfl⟩
  · exact after_eq_self (active_after_of_holds (by simp) hrs)
      fun r hr => ⟨hrs r hr, cooledDown_after_mem hcooldown hrs r hr⟩

theorem after_of_never {s : EdgeState} {rs : List R} (h : s.active = false)
    (hrs : ∀ r ∈ rs, e.holds r = false) : (e.after s rs).active = false := by
  induction rs generalizing s with
  | nil => exact h
  | cons r rs ih =>
    obtain ⟨hr, hrs⟩ := List.forall_mem_cons.mp hrs
    exact ih hr hrs

theorem fired_of_never {s : EdgeState} {rs : List R} (hrs : ∀ r ∈ rs, e.holds r = false) :
    e.fired s rs = [] := by
  induction rs generalizing s with
  | nil => rfl
  | cons r rs ih =>
    obtain ⟨hr, hrs⟩ := List.forall_mem_cons.mp hrs
    rw [fired, ih hrs]
    simp [fires, hr]

/-- From an inactive state the first reading with the condition is reported. -/
theorem never_of_fired {s : EdgeState} {rs : List R} (h : s.active = false)
    (hnone : e.fired s rs = []) : ∀ r ∈ rs, e.holds r = false := by
  induction rs generalizing s with
  | nil =>
    intro r hr
    cases hr
  | cons r rs ih =>
    rw [fired, fires_of_inactive h] at hnone
    obtain ⟨hr, hrs⟩ := List.append_eq_nil_iff.mp hnone
    have hholds : e.holds r = false := by
      cases hholds : e.holds r with
      | false => rfl
      | true => simp [hholds] at hr
    exact List.forall_mem_cons.mpr ⟨hholds, ih hholds hrs⟩

/-- A second delivery reports nothing exactly if the condition holds throughout or never. -/
theorem fired_again {s : EdgeState} (hcooldown : 0 < e.cooldown) (rs : List R) :
    e.fired (e.after s rs) rs = [] ↔
      (∀ r ∈ rs, e.holds r = true) ∨ ∀ r ∈ rs, e.holds r = false := by
  constructor
  · intro hnone
    cases hactive : (e.after s rs).active with
    | false => exact .inr (never_of_fired hactive hnone)
    | true =>
      refine .inl fun n hn => ?_
      by_contra hholds
      rw [Bool.not_eq_true] at hholds
      -- behind `n` nothing is reported, so the condition never holds again
      obtain ⟨before, rest, rfl⟩ := List.append_of_mem hn
      have hrest : ∀ r ∈ rest, e.holds r = false := by
        rw [fired_append, fired, List.append_eq_nil_iff, List.append_eq_nil_iff] at hnone
        exact never_of_fired (e.step_active _ n ▸ hholds) hnone.2.2
      rw [after_append, after_cons, after_of_never (e.step_active _ n ▸ hholds) hrest] at hactive
      cases hactive
  · rintro (hall | hnever)
    · exact (again_of_holds hcooldown hall).1
    · exact fired_of_never hnever

/-- A pass that stops behind `rs`, and a second pass over everything from whatever state: with a
reading in between that does not have the condition nothing is lost. -/
theorem retry_covers_of_break {s s' : EdgeState} {rs : List R} (rs' : List R)
    (h : ∃ r ∈ rs, e.holds r = false) :
    (e.fired s (rs ++ rs')).Subperm (e.fired s rs ++ e.fired s' (rs ++ rs')) := by
  obtain ⟨n, hn, hholds⟩ := h
  obtain ⟨before, rest, rfl⟩ := List.append_of_mem hn
  have hsplit : before ++ n :: rest ++ rs' = before ++ [n] ++ (rest ++ rs') := by simp
  have hbreak : ∀ t, e.fired t (before ++ n :: rest ++ rs') =
      e.fired t (before ++ [n]) ++ e.fired (e.step (e.after s before) n) (rest ++ rs') := by
    intro t
    rw [hsplit, fired_append, after_append]
    exact congrArg _ (fired_after_break hholds _)
  have hbefore : (e.fired s (before ++ [n])).Sublist (e.fired s (before ++ n :: rest)) := by
    rw [List.append_cons before n rest, fired_append e s (before ++ [n])]
    exact List.sublist_append_left _ _
  rw [hbreak s, hbreak s']
  exact (hbefore.append (List.sublist_append_right _ _)).subperm

/-- A pass that stops behind `rs`, and a second pass from the state reached: nothing is lost. -/
theorem retry_covers {s : EdgeState} (hcooldown : 0 < e.cooldown) (rs rs' : List R) :
    (e.fired s (rs ++ rs')).Subperm
      (e.fired s rs ++ e.fired (e.after s rs) (rs ++ rs')) := by
  by_cases hbreak : ∃ r ∈ rs, e.holds r = false
  · exact retry_covers_of_break rs' hbreak
  · have hall : ∀ r ∈ rs, e.holds r = true := by
      simpa using hbreak
    obtain ⟨hfired, hafter⟩ := again_of_holds (s := s) hcooldown hall
    rw [fired_append, fired_append e (e.after s rs), hfired, hafter, List.nil_append]

/-- A pass that stops behind a reading whose report it remembers but has not made, and a second pass
from the state reached: after readings that all have the condition, that report is lost. -/
theorem retry_loses {s : EdgeState} (hcooldown : 0 < e.cooldown) {rs : List R} {r : R}
    (rs' : List R) (hrs : ∀ r ∈ rs, e.holds r = true) (hfires : e.fires (e.after s rs) r = true) :
    (e.fired s (rs ++ r :: rs')).Perm
      (r :: (e.fired s rs ++ e.fired (e.after s (rs ++ [r])) (rs ++ r :: rs'))) := by
  have hr : e.holds r = true := by
    rw [fires, Bool.and_eq_true] at hfires
    exact hfires.1
  have hall : ∀ r' ∈ rs ++ [r], e.holds r' = true := by
    intro r' hr'
    rcases List.mem_append.mp hr' with hr' | hr'
    · exact hrs r' hr'
    · rw [List.mem_singleton.mp hr', hr]
  obtain ⟨hfired, hafter⟩ := again_of_holds (s := s) hcooldown hall
  have hagain : e.fired (e.after s (rs ++ [r])) (rs ++ r :: rs') =
      e.fired (e.after s (rs ++ [r])) rs' := by
    rw [List.append_cons rs r rs', fired_append, hfired, hafter, List.nil_append]
  have honce : e.fired s (rs ++ r :: rs') =
      e.fired s rs ++ r :: e.fired (e.after s (rs ++ [r])) rs' := by
    rw [fired_append, fired, if_pos hfires, after_append]
    rfl
  rw [hagain, honce]
  exact List.perm_middle

/-! ## Insertions

A history in which some readings are marked as inserted. -/

/-- The history without what was inserted. -/
def kept (items : List (R × Bool)) : List R := (items.filter fun i => !i.2).map Prod.fst

@[simp] theorem kept_append (items items' : List (R × Bool)) :
    kept (items ++ items') = kept items ++ kept items' := by
  simp [kept]

@[simp] theorem kept_inserted (r : R) : kept [(r, true)] = [] := rfl

@[simp] theorem kept_original (r : R) : kept [(r, false)] = [r] := rfl

/-- Where a reading with the condition follows insertions, the condition did not hold before them or
the reading is reported anyway. -/
def Harmless (e : EdgeTrigger R) (s : EdgeState) (items : List (R × Bool)) : Prop :=
  ∀ before i r rest, items = before ++ (i, true) :: (r, false) :: rest → e.holds r = true →
    (e.after s (kept before)).active = true → e.cooledDown (e.after s (kept before)) r = true

theorem Harmless.of_append {s : EdgeState} {items items' : List (R × Bool)}
    (h : Harmless e s (items ++ items')) : Harmless e s items := by
  intro before i r rest hitems
  exact h before i r (rest ++ items') (by simp [hitems])

/-- Behind a prefix: nothing was just inserted and the condition held last in both histories or in
none, or something was. -/
theorem active_cases (s : EdgeState) {items : List (R × Bool)}
    (hsilent : ∀ i ∈ items, i.2 = true → e.holds i.1 = false) :
    (e.after s (items.map Prod.fst)).active = (e.after s (kept items)).active ∨
      ∃ before i, items = before ++ [(i, true)] ∧
        (e.after s (items.map Prod.fst)).active = false := by
  cases items using List.reverseRecOn with
  | nil => exact .inl rfl
  | append_singleton before i =>
    obtain ⟨r, inserted⟩ := i
    cases inserted with
    | false => simp
    | true =>
      have hr : e.holds r = false := hsilent (r, true) (by simp) rfl
      exact .inr ⟨before, r, rfl, by simp [hr]⟩

/-- The first direction: the two histories agree on the last report, so they can differ in one only
behind an insertion, where the condition is in the way. -/
theorem fired_kept {s : EdgeState} {items : List (R × Bool)}
    (hsilent : ∀ i ∈ items, i.2 = true → e.holds i.1 = false) (h : Harmless e s items) :
    e.fired s (items.map Prod.fst) = e.fired s (kept items) := by
  induction items using List.reverseRecOn with
  | nil => rfl
  | append_singleton items i ih =>
    have hsilent' : ∀ i ∈ items, i.2 = true → e.holds i.1 = false :=
      fun i hi => hsilent i (List.mem_append_left _ hi)
    have hfired := ih hsilent' h.of_append
    obtain ⟨r, inserted⟩ := i
    cases inserted with
    | true =>
      have hr : e.holds r = false := hsilent (r, true) (by simp) rfl
      simp [hfired, fired, fires, hr]
    | false =>
      have hlast : (e.after s (items.map Prod.fst)).lastFired =
          (e.after s (kept items)).lastFired := by
        rw [lastFired_after, lastFired_after, hfired]
      have hfires : e.fires (e.after s (items.map Prod.fst)) r =
          e.fires (e.after s (kept items)) r := by
        rcases active_cases s hsilent' with hactive | ⟨before, i, rfl, hinactive⟩
        · rw [fires, fires, hactive, cooledDown, cooledDown, hlast]
        · rw [fires_of_inactive hinactive, fires]
          have hi := h before i r [] (by simp)
          cases hr : e.holds r with
          | false => rfl
          | true =>
            cases hactive : (e.after s (kept before)).active with
            | false => simp [hactive]
            | true => simp [hi hr hactive]
      simp [hfired, fired, hfires]

/-- How the reports of the two histories differ behind a prefix. Every report that the insertions
cost comes later, by the clock of the readings, than one that they caused. -/
structure Diverges (e : EdgeTrigger R) (s : EdgeState) (items : List (R × Bool))
    (extra missing : List R) : Prop where
  perm : (e.fired s (items.map Prod.fst) ++ missing).Perm (e.fired s (kept items) ++ extra)
  earlier : ∀ m ∈ missing, ∃ x ∈ extra, e.time x < e.time m
  harmless : extra = [] → Harmless e s items
  last : (e.after s (items.map Prod.fst)).active = true →
    (e.after s (items.map Prod.fst)).lastFired = (e.after s (kept items)).lastFired ∨
      ∃ x ∈ extra, ∀ last ∈ (e.after s (kept items)).lastFired, e.time x < last + e.cooldown

/-- Two neighbours in a list with one more element: the new one is the second, or both were there. -/
theorem neighbours_concat {ι : Type*} {items before rest : List ι} {i r last : ι}
    (h : items ++ [last] = before ++ i :: r :: rest) :
    (items = before ++ [i] ∧ last = r) ∨ ∃ rest', items = before ++ i :: r :: rest' := by
  cases rest using List.reverseRecOn with
  | nil =>
    have hlast : items ++ [last] = before ++ [i] ++ [r] := by simp [h]
    obtain ⟨hitems, hr⟩ := List.append_inj' hlast rfl
    exact .inl ⟨hitems, List.singleton_inj.mp hr⟩
  | append_singleton rest r' =>
    have hlast : items ++ [last] = (before ++ i :: r :: rest) ++ [r'] := by simp [h]
    exact .inr ⟨rest, (List.append_inj' hlast rfl).1⟩

theorem Harmless.concat_inserted {s : EdgeState} {items : List (R × Bool)}
    (h : Harmless e s items) (r : R) : Harmless e s (items ++ [(r, true)]) := by
  intro before i r' rest hitems
  rcases neighbours_concat hitems with ⟨_, hlast⟩ | ⟨rest', hitems⟩
  · cases hlast
  · exact h before i r' rest' hitems

theorem Harmless.concat_original {s : EdgeState} {items : List (R × Bool)} {r : R}
    (h : Harmless e s items)
    (hr : ∀ before i, items = before ++ [(i, true)] → e.holds r = true →
      (e.after s (kept items)).active = true → e.cooledDown (e.after s (kept items)) r = true) :
    Harmless e s (items ++ [(r, false)]) := by
  intro before i r' rest hitems
  rcases neighbours_concat hitems with ⟨rfl, hlast⟩ | ⟨rest', hitems⟩
  · cases hlast
    simpa using hr before i rfl
  · exact h before i r' rest' hitems

theorem perm_concat_left (xs ys : List R) (r : R) : (xs ++ [r] ++ ys).Perm (r :: (xs ++ ys)) := by
  rw [List.append_assoc]
  exact List.perm_middle

theorem perm_concat_right (xs ys : List R) (r : R) :
    (xs ++ (ys ++ [r])).Perm (r :: (xs ++ ys)) := by
  rw [← List.append_assoc]
  exact List.perm_append_singleton r _

theorem diverges_nil (s : EdgeState) : Diverges e s [] [] [] where
  perm := .refl _
  earlier m hm := by cases hm
  harmless _ before i r rest h := by simp at h
  last _ := .inl rfl

theorem Diverges.inserted {s : EdgeState} {items : List (R × Bool)} {extra missing : List R}
    (h : Diverges e s items extra missing) {r : R} (hr : e.holds r = false) :
    Diverges e s (items ++ [(r, true)]) extra missing where
  perm := by simpa [fired, fires, hr] using h.perm
  earlier := h.earlier
  harmless hextra := (h.harmless hextra).concat_inserted r
  last hactive := by simp [hr] at hactive

theorem fires_eq_false {s : EdgeState} {r : R} (h : e.fires s r = false)
    (hholds : e.holds r = true) : s.active = true ∧ e.cooledDown s r = false := by
  simpa [fires, hholds] using h

/-- One more reading, reported in neither history. -/
theorem Diverges.neither {s : EdgeState} {items : List (R × Bool)} {extra missing : List R}
    (hsilent : ∀ i ∈ items, i.2 = true → e.holds i.1 = false) (h : Diverges e s items extra missing)
    {r : R} (hall : e.fires (e.after s (items.map Prod.fst)) r = false)
    (hkept : e.fires (e.after s (kept items)) r = false) :
    Diverges e s (items ++ [(r, false)]) extra missing where
  perm := by simpa [fired, hall, hkept] using h.perm
  earlier := h.earlier
  harmless hextra := by
    refine (h.harmless hextra).concat_original fun before i hitems hr _ => ?_
    subst hitems
    have hi : e.holds i = false := hsilent (i, true) (by simp) rfl
    have hactive := (fires_eq_false hall hr).1
    simp [hi] at hactive
  last hactive := by
    have hr : e.holds r = true := by simpa using hactive
    simpa [step, hall, hkept] using h.last (fires_eq_false hall hr).1

/-- One more reading, reported in both. -/
theorem Diverges.both {s : EdgeState} {items : List (R × Bool)} {extra missing : List R}
    (h : Diverges e s items extra missing)
    {r : R} (hall : e.fires (e.after s (items.map Prod.fst)) r = true)
    (hkept : e.fires (e.after s (kept items)) r = true) :
    Diverges e s (items ++ [(r, false)]) extra missing where
  perm := by
    have hperm := (h.perm.cons r)
    have hleft := perm_concat_left (e.fired s (items.map Prod.fst)) missing r
    have hright := perm_concat_left (e.fired s (kept items)) extra r
    simpa [fired, hall, hkept] using hleft.trans (hperm.trans hright.symm)
  earlier := h.earlier
  harmless hextra := by
    refine (h.harmless hextra).concat_original fun before i hitems hr hactive => ?_
    simpa [fires, hr, hactive] using hkept
  last _ := by simp [step, hall, hkept]

/-- One more reading, reported only with the insertions. -/
theorem Diverges.gained {s : EdgeState} {items : List (R × Bool)} {extra missing : List R}
    (h : Diverges e s items extra missing)
    {r : R} (hall : e.fires (e.after s (items.map Prod.fst)) r = true)
    (hkept : e.fires (e.after s (kept items)) r = false) :
    Diverges e s (items ++ [(r, false)]) (extra ++ [r]) missing where
  perm := by
    have hperm := (h.perm.cons r)
    have hleft := perm_concat_left (e.fired s (items.map Prod.fst)) missing r
    have hright := perm_concat_right (e.fired s (kept items)) extra r
    simpa [fired, hall, hkept] using hleft.trans (hperm.trans hright.symm)
  earlier m hm := by
    obtain ⟨x, hx, hlt⟩ := h.earlier m hm
    exact ⟨x, List.mem_append_left _ hx, hlt⟩
  harmless hextra := by simp at hextra
  last _ := by
    have hr : e.holds r = true := by
      rw [fires, Bool.and_eq_true] at hall
      exact hall.1
    have hcooled := (fires_eq_false hkept hr).2
    refine .inr ⟨r, by simp, fun last hlast => ?_⟩
    have hlast' : (e.after s (kept items)).lastFired = some last := by
      simpa [step, hkept] using hlast
    simp only [cooledDown, hlast', Option.any_some, decide_eq_false_iff_not] at hcooled
    omega

/-- One more reading, reported only without the insertions: it comes behind one that is reported
only with them. -/
theorem Diverges.lost {s : EdgeState} (hcooldown : 0 < e.cooldown) {items : List (R × Bool)}
    {extra missing : List R} (hsilent : ∀ i ∈ items, i.2 = true → e.holds i.1 = false)
    (h : Diverges e s items extra missing)
    {r : R} (hall : e.fires (e.after s (items.map Prod.fst)) r = false)
    (hkept : e.fires (e.after s (kept items)) r = true) :
    Diverges e s (items ++ [(r, false)]) extra (missing ++ [r]) := by
  have hr : e.holds r = true := by
    rw [fires, Bool.and_eq_true] at hkept
    exact hkept.1
  obtain ⟨hactive, hwarm⟩ := fires_eq_false hall hr
  have hactive' : (e.after s (kept items)).active = true := by
    rcases active_cases s hsilent with heq | ⟨_, _, _, hinactive⟩
    · rw [← heq, hactive]
    · rw [hactive] at hinactive
      cases hinactive
  have hcooled : e.cooledDown (e.after s (kept items)) r = true := by
    simpa [fires, hr, hactive'] using hkept
  obtain ⟨x, hx, hlast⟩ := (h.last hactive).resolve_left fun heq => by
    rw [cooledDown, heq] at hwarm
    exact Bool.false_ne_true (hwarm.symm.trans hcooled)
  have hlt : e.time x < e.time r := by
    cases hfired : (e.after s (kept items)).lastFired with
    | none => simp [cooledDown, hfired] at hcooled
    | some last =>
      have hearlier := hlast last hfired
      simp only [cooledDown, hfired, Option.any_some, decide_eq_true_eq] at hcooled
      omega
  refine ⟨?_, fun m hm => ?_, fun hextra => ?_, fun _ => .inr ⟨x, hx, fun last hlast => ?_⟩⟩
  · have hperm := (h.perm.cons r)
    have hleft := perm_concat_right (e.fired s (items.map Prod.fst)) missing r
    have hright := perm_concat_left (e.fired s (kept items)) extra r
    simpa [fired, hall, hkept] using hleft.trans (hperm.trans hright.symm)
  · rcases List.mem_append.mp hm with hm | hm
    · exact h.earlier m hm
    · rw [List.mem_singleton.mp hm]
      exact ⟨x, hx, hlt⟩
  · rw [hextra] at hx
    cases hx
  · obtain rfl : e.time r = last := by simpa [step, hkept] using hlast
    omega

/-- Whatever is inserted, there is such a difference. -/
theorem exists_diverges {s : EdgeState} (hcooldown : 0 < e.cooldown) {items : List (R × Bool)}
    (hsilent : ∀ i ∈ items, i.2 = true → e.holds i.1 = false) :
    ∃ extra missing, Diverges e s items extra missing := by
  induction items using List.reverseRecOn with
  | nil => exact ⟨[], [], diverges_nil s⟩
  | append_singleton items i ih =>
    have hsilent' : ∀ i ∈ items, i.2 = true → e.holds i.1 = false :=
      fun i hi => hsilent i (List.mem_append_left _ hi)
    obtain ⟨extra, missing, h⟩ := ih hsilent'
    obtain ⟨r, inserted⟩ := i
    cases inserted with
    | true =>
      have hr : e.holds r = false := hsilent (r, true) (by simp) rfl
      exact ⟨extra, missing, h.inserted hr⟩
    | false =>
      cases hall : e.fires (e.after s (items.map Prod.fst)) r with
      | true =>
        cases hkept : e.fires (e.after s (kept items)) r with
        | true => exact ⟨extra, missing, h.both hall hkept⟩
        | false => exact ⟨extra ++ [r], missing, h.gained hall hkept⟩
      | false =>
        cases hkept : e.fires (e.after s (kept items)) r with
        | true => exact ⟨extra, missing ++ [r], h.lost hcooldown hsilent' hall hkept⟩
        | false => exact ⟨extra, missing, h.neither hsilent' hall hkept⟩

/-- Insertions of readings without the condition change no report exactly if they are harmless. -/
theorem perm_fired_kept {s : EdgeState} (hcooldown : 0 < e.cooldown) {items : List (R × Bool)}
    (hsilent : ∀ i ∈ items, i.2 = true → e.holds i.1 = false) :
    ((e.fired s (items.map Prod.fst)).map e.time).Perm ((e.fired s (kept items)).map e.time) ↔
      Harmless e s items := by
  constructor
  · intro hperm
    obtain ⟨extra, missing, h⟩ := exists_diverges (s := s) hcooldown hsilent
    refine h.harmless ?_
    have htimes : (missing.map e.time).Perm (extra.map e.time) := by
      have hboth := h.perm.map e.time
      rw [List.map_append, List.map_append] at hboth
      exact (List.perm_append_left_iff _).mp (hboth.trans (hperm.symm.append_right _))
    -- the earliest missing report would come behind an extra one, which is as early as a missing one
    cases hmin : missing.argmin e.time with
    | none =>
      rw [List.argmin_eq_none] at hmin
      simpa [hmin] using htimes
    | some m =>
      obtain ⟨x, hx, hlt⟩ := h.earlier m (List.argmin_mem hmin)
      obtain ⟨m', hm', htime⟩ := List.mem_map.mp (htimes.mem_iff.mpr (List.mem_map_of_mem hx))
      have hle := List.le_of_mem_argmin hm' hmin
      omega
  · intro h
    rw [fired_kept hsilent h]

end EdgeTrigger

end BankPlatform.Library
