import BankPlatform.Library.FirstWins

/-!
# Change detectors

A detector watches an input through readings of its value. It tells a reading as a change if its
source says so, or if another value is known from before. What it tells is stored under the time and
the value of the reading, once.

## Main definitions

* `ChangeDetector` — how a reading shows a value, and whether its source reports a change.
* `ChangeDetector.shown`, `ChangeDetector.after` — the readings that are told as changes, and what
  is known behind them.
* `ChangeDetector.split` — what is told when only a part of the readings is watched.

## Main results

* `shown_eq_or` — what was known from before matters for the first reading only.
* `firstWins_again_shown` — when readings that come again add nothing.
* `firstWins_shown_eq` — when it makes no difference what was known.
* `isChain_split_iff` — when what is told of a split history shows each change once.
-/

namespace BankPlatform.Library

/-- Readings of an input with values in `V`. -/
structure ChangeDetector (R V : Type*) where
  value : R → V
  reported : R → Bool

namespace ChangeDetector

variable {R V : Type*} (d : ChangeDetector R V)

/-- What is known behind some readings. -/
def after (known : Option V) (rs : List R) : Option V := (rs.getLast?.map d.value).or known

@[simp] theorem after_nil (known : Option V) : d.after known [] = known := rfl

@[simp] theorem after_append (known : Option V) (rs rs' : List R) :
    d.after known (rs ++ rs') = d.after (d.after known rs) rs' := by
  simp [after, List.getLast?_append, Option.map_or, Option.or_assoc]

theorem after_cons (known : Option V) (r : R) (rs : List R) :
    d.after known (r :: rs) = d.after (some (d.value r)) rs := by
  rw [← List.singleton_append, after_append]
  rfl

variable [DecidableEq V]

/-- The reading is told as a change. -/
def shows (known : Option V) (r : R) : Bool := d.reported r || known.any fun v => v ≠ d.value r

/-- The readings that are told as changes. -/
def shown : Option V → List R → List R
  | _, [] => []
  | known, r :: rs => (if d.shows known r then [r] else []) ++ shown (some (d.value r)) rs

@[simp] theorem shown_nil (known : Option V) : d.shown known [] = [] := rfl

@[simp] theorem shown_append (known : Option V) (rs rs' : List R) :
    d.shown known (rs ++ rs') = d.shown known rs ++ d.shown (d.after known rs) rs' := by
  induction rs generalizing known with
  | nil => rfl
  | cons r rs ih => rw [List.cons_append, shown, shown, ih, after_cons, List.append_assoc]

theorem shown_sublist (known : Option V) (rs : List R) : (d.shown known rs).Sublist rs := by
  induction rs generalizing known with
  | nil => exact List.Sublist.slnil
  | cons r rs ih =>
    rw [shown]
    split
    · exact (ih _).cons_cons r
    · exact (ih _).cons r

variable {d}

theorem shows_of_reported {r : R} (h : d.reported r = true) (known : Option V) :
    d.shows known r = true := by
  simp [shows, h]

/-- What is known matters for the first reading only. -/
theorem shown_cons_of_shows {known : Option V} {r : R} (h : d.shows known r = true) (rs : List R) :
    d.shown known (r :: rs) = r :: d.shown (some (d.value r)) rs := by
  rw [shown, if_pos h, List.singleton_append]

theorem shown_cons_of_not_shows {known : Option V} {r : R} (h : d.shows known r = false)
    (rs : List R) : d.shown known (r :: rs) = d.shown (some (d.value r)) rs := by
  rw [shown, if_neg (by simp [h]), List.nil_append]

/-- What is told is reported: between neighbours the value is the same, or the second one is
reported. -/
theorem forall_shown_cons_reported (r : R) (rs : List R) :
    (∀ r' ∈ d.shown (some (d.value r)) rs, d.reported r' = true) ↔
      (r :: rs).IsChain fun r r' => d.value r = d.value r' ∨ d.reported r' = true := by
  induction rs generalizing r with
  | nil => simp
  | cons r' rs ih =>
    rw [List.isChain_cons_cons, ← ih, shown, List.forall_mem_append]
    refine and_congr_left fun _ => ?_
    cases hreported : d.reported r' <;> by_cases hvalue : d.value r = d.value r' <;>
      simp [shows, hreported, hvalue]

theorem forall_shown_reported (rs : List R) :
    (∀ r ∈ d.shown none rs, d.reported r = true) ↔
      rs.IsChain fun r r' => d.value r = d.value r' ∨ d.reported r' = true := by
  cases rs with
  | nil => simp
  | cons r rs =>
    rw [← forall_shown_cons_reported, shown, List.forall_mem_append]
    refine and_iff_right fun r' hr' => ?_
    cases hreported : d.reported r <;> simp_all [shows]

section Stored

variable {K C : Type*} [DecidableEq K] {key : R → K} {content : R → C} {base : K → Option C}

/-- Readings that come again, when `known'` is known, add nothing exactly if the first of them is not
told or its key is in use. -/
theorem firstWins_again_shown (known known' : Option V) (rs : List R) :
    firstWins key content (firstWins key content base (d.shown known rs)) (d.shown known' rs) =
        firstWins key content base (d.shown known rs) ↔
      ∀ first ∈ rs.head?, d.shows known' first = true →
        (base (key first)).isSome = true ∨ ∃ r ∈ d.shown known rs, key r = key first := by
  rw [firstWins_eq_base]
  simp only [isSome_firstWins]
  cases rs with
  | nil => simp
  | cons r rs =>
    have hrest : ∀ r' ∈ d.shown (some (d.value r)) rs, r' ∈ d.shown known (r :: rs) := by
      intro r' hr'
      rw [shown]
      exact List.mem_append_right _ hr'
    constructor
    · intro h first hfirst hshows
      obtain rfl : r = first := by simpa using hfirst
      exact h r (by simp [shown_cons_of_shows hshows])
    · intro h r' hr'
      rw [shown] at hr'
      rcases List.mem_append.mp hr' with hfirst | hr'
      · split at hfirst
        · next hshows =>
          obtain rfl := List.mem_singleton.mp hfirst
          exact h r' rfl hshows
        · cases hfirst
      · exact .inr ⟨r', hrest r' hr', rfl⟩

/-- Two detectors that read the same, one with `known` and one with `known'`: the same is stored
exactly if they agree about the first reading, or if this reading makes no difference. -/
theorem firstWins_shown_eq (known known' : Option V) (rs : List R) :
    firstWins key content base (d.shown known rs) = firstWins key content base (d.shown known' rs) ↔
      ∀ first ∈ rs.head?, d.shows known first = d.shows known' first ∨
        (base (key first)).isSome = true ∨
        firstWins key content base (d.shown (some (d.value first)) rs.tail) (key first) =
          some (content first) := by
  cases rs with
  | nil => simp
  | cons r rs =>
    rw [List.head?_cons, List.tail_cons]
    simp only [Option.mem_some_iff, forall_eq']
    rw [← firstWins_cons_eq]
    cases h : d.shows known r <;> cases h' : d.shows known' r
    · simp [shown_cons_of_not_shows h, shown_cons_of_not_shows h']
    · simp [shown_cons_of_not_shows h, shown_cons_of_shows h', eq_comm]
    · simp [shown_cons_of_shows h, shown_cons_of_not_shows h']
    · simp [shown_cons_of_shows h, shown_cons_of_shows h']

end Stored

/-! ## Split histories -/

section Split

variable {F : Type*} (d) (watched : F → Bool)

/-- The source reports a reading exactly if its value differs from the one before. -/
def Reports : Option V → List R → Prop
  | _, [] => True
  | before, r :: rs =>
    (d.reported r = true ↔ before.any (· ≠ d.value r) = true) ∧ Reports (some (d.value r)) rs

/-- What is told of a history of which only a part is watched: of the other readings those that the
source reports. -/
def split : Option V → List (R × F) → List R
  | _, [] => []
  | known, (r, f) :: history =>
    if watched f then
      (if d.shows known r then [r] else []) ++ split (some (d.value r)) history
    else (if d.reported r then [r] else []) ++ split known history

variable {d watched}

theorem split_sublist (known : Option V) (history : List (R × F)) :
    (d.split watched known history).Sublist (history.map Prod.fst) := by
  induction history generalizing known with
  | nil => exact List.Sublist.slnil
  | cons x history ih =>
    rw [split, List.map_cons]
    split_ifs
    · exact (ih _).cons_cons x.1
    · exact (ih _).cons x.1
    · exact (ih _).cons_cons x.1
    · exact (ih _).cons x.1

theorem mem_split {known : Option V} {history : List (R × F)} {r : R} :
    r ∈ d.split watched known history ↔
      r ∈ d.shown known ((history.filter fun x => watched x.2).map Prod.fst) ∨
        r ∈ ((history.filter fun x => !watched x.2).map Prod.fst).filter d.reported := by
  induction history generalizing known with
  | nil => simp [split]
  | cons x history ih =>
    rw [split]
    cases hwatched : watched x.2
    · rw [if_neg (by simp), List.mem_append, ih]
      cases hreported : d.reported x.1 <;> simp [hwatched, hreported, or_left_comm]
    · rw [if_pos rfl, List.mem_append, ih]
      cases hshows : d.shows known x.1 <;> simp [hwatched, hshows, shown, or_assoc]

/-- What was told last is the value before, if anything was told; and something was if another value
is known than the one before. -/
structure Tracks (before last known : Option V) : Prop where
  told : last = none ∨ last = before
  changed : ∀ v ∈ known, before ≠ some v → last.isSome = true

theorem Tracks.reported {before last known : Option V} (h : Tracks before last known) {v : V}
    (hchange : before.any (· ≠ v) = true) :
    last ≠ some v ∧ Tracks (some v) (some v) known ∧ Tracks (some v) (some v) (some v) := by
  refine ⟨?_, ⟨.inr rfl, fun _ _ _ => rfl⟩, ⟨.inr rfl, fun _ _ _ => rfl⟩⟩
  rintro rfl
  rcases h.told with hnone | rfl
  · cases hnone
  · simp at hchange

/-- No change was reported: the value is the one before, or it is the first one. -/
theorem Tracks.unreported {before last known : Option V} (h : Tracks before last known) {v : V}
    (hsame : ¬ before.any (· ≠ v) = true) :
    Tracks (some v) last known ∧ Tracks (some v) last (some v) ∧
      (known.any (· ≠ v) = true → last = some v) := by
  have hbefore : before = none ∨ before = some v := by
    cases before with
    | none => exact .inl rfl
    | some b => simpa using hsame
  have htold : last = none ∨ last = some v := by
    rcases h.told with hnone | rfl
    · exact .inl hnone
    · exact hbefore
  have hchanged : ∀ v' ∈ known, v' ≠ v → last.isSome = true := by
    intro v' hv' hne
    refine h.changed v' hv' ?_
    rintro rfl
    rcases hbefore with hnone | hv
    · cases hnone
    · exact hne (Option.some.inj hv)
  refine ⟨⟨htold, fun v' hv' hne => hchanged v' hv' (by rintro rfl; exact hne rfl)⟩,
    ⟨htold, fun v' hv' hne => (hne hv').elim⟩, fun hdiffers => ?_⟩
  obtain ⟨v', rfl⟩ : ∃ v', known = some v' := by
    cases known with
    | none => cases hdiffers
    | some v' => exact ⟨v', rfl⟩
  have hsome := hchanged v' rfl (by simpa using hdiffers)
  rcases htold with rfl | hv
  · cases hsome
  · exact hv

theorem isChain_toList_cons {A : Type*} {S : A → A → Prop} (o : Option A) (a : A) (l : List A) :
    (o.toList ++ a :: l).IsChain S ↔ (∀ b ∈ o, S b a) ∧ (a :: l).IsChain S := by
  cases o <;> simp

/-- What is told of a history whose changes are reported shows each change once exactly if every
watched reading that is told is reported. -/
theorem isChain_split {before last known : Option V} (h : Tracks before last known)
    {history : List (R × F)} (hreports : d.Reports before (history.map Prod.fst)) :
    (last.toList ++ (d.split watched known history).map d.value).IsChain (· ≠ ·) ↔
      ∀ r ∈ d.shown known ((history.filter fun x => watched x.2).map Prod.fst),
        d.reported r = true := by
  induction history generalizing before last known with
  | nil => cases last <;> simp [split]
  | cons x history ih =>
    obtain ⟨hreported, hreports⟩ := hreports
    have htold : ∀ known', last ≠ some (d.value x.1) →
        Tracks (some (d.value x.1)) (some (d.value x.1)) known' →
        ((last.toList ++ d.value x.1 :: (d.split watched known' history).map d.value).IsChain
          (· ≠ ·) ↔ ∀ r ∈ d.shown known' ((history.filter fun x => watched x.2).map Prod.fst),
            d.reported r = true) := by
      intro known' hlast htracks
      rw [isChain_toList_cons, ← ih htracks hreports]
      refine and_iff_right ?_
      rintro v rfl heq
      exact hlast (by rw [heq])
    by_cases hchange : before.any (· ≠ d.value x.1) = true
    · -- The change is reported, so it is told on either side.
      obtain ⟨hlast, htracks, htracks'⟩ := h.reported hchange
      have hsource := hreported.mpr hchange
      rw [split]
      cases hwatched : watched x.2
      · simpa [hwatched, hsource] using htold known hlast htracks
      · have hshows := shows_of_reported hsource known
        simpa [hwatched, hshows, hsource, shown] using htold _ hlast htracks'
    · -- Nothing changed, so a reading that is told all the same repeats the row before.
      obtain ⟨htracks, htracks', hdiffers⟩ := h.unreported hchange
      have hsource : d.reported x.1 = false := by
        rw [← Bool.not_eq_true, hreported]
        exact hchange
      rw [split]
      cases hwatched : watched x.2
      · simpa [hwatched, hsource] using ih htracks hreports
      · cases hshows : d.shows known x.1 with
        | false => simpa [hwatched, hshows, shown] using ih htracks' hreports
        | true =>
          have hlast := hdiffers (by simpa [shows, hsource] using hshows)
          rw [hlast]
          refine iff_of_false ?_ ?_
          · simp
          · intro hall
            have hreported' := hall x.1 (by simp [hwatched, shown, hshows])
            rw [hsource] at hreported'
            cases hreported'

end Split

end ChangeDetector

end BankPlatform.Library
