import Mathlib.Computability.Language
import BankPlatform.Library.Reader

/-!
# Readers and languages

A reader recognizes a language if it succeeds exactly on the inputs that start with a word of the
language, and then moves behind that word. The rules put the languages of the parts of a format
together as the readers are put together.

## Main definitions

* `Reader.Parses` — the reader returns `a` exactly on the words of `L a`.
* `Reader.Accepts` — the reader succeeds exactly on the words of `L`.
* `Reader.Ensures` — what holds of every value that the reader returns.
-/

namespace BankPlatform.Library.Reader

universe u

variable {σ ε α γ : Type u} {β τ : Type*}

theorem run_bind_eq_ok {p : Reader σ ε α} {f : α → Reader σ ε γ} {s s' : σ} {c : γ} :
    (p >>= f).run s = .ok (c, s') ↔
      ∃ a t, p.run s = .ok (a, t) ∧ (f a).run t = .ok (c, s') := by
  rw [StateT.run_bind]
  cases h : p.run s with
  | error e =>
    constructor
    · intro hc
      cases hc
    · rintro ⟨a, t, ha, _⟩
      cases ha
  | ok r =>
    constructor
    · intro hc
      exact ⟨r.1, r.2, rfl, hc⟩
    · rintro ⟨a, t, ha, hc⟩
      cases ha
      exact hc

/-! ## Languages -/

/-- The words of any of the languages. -/
def anyOf {ι : Type*} (L : ι → Language β) : Language β := {xs | ∃ i, xs ∈ L i}

theorem mem_anyOf {ι : Type*} {L : ι → Language β} {xs : List β} :
    xs ∈ anyOf L ↔ ∃ i, xs ∈ L i := Iff.rfl

section

variable (place : List β → List β → σ)

/-- What is left of the input after a success, and where the reader stands. -/
def Consumes (p : Reader σ ε α) (L : α → Language β) : Prop :=
  ∀ before rest a s, p.run (place before rest) = .ok (a, s) →
    ∃ xs ∈ L a, ∃ after, rest = xs ++ after ∧ s = place (before ++ xs) after

/-- The reader returns `a` exactly on the words of `L a`. -/
structure Parses (p : Reader σ ε α) (L : α → Language β) : Prop where
  sound : Consumes place p L
  complete : ∀ a, ∀ xs ∈ L a, Reads place p xs a

/-- The reader succeeds exactly on the words of `L`. -/
structure Accepts (p : Reader σ ε α) (L : Language β) : Prop where
  sound : Consumes place p fun _ => L
  complete : ∀ xs ∈ L, ∃ a, Reads place p xs a

end

variable {place : List β → List β → σ}

theorem Accepts.pure (a : α) : Accepts place (pure a : Reader σ ε α) 1 where
  sound before rest b s h := by
    cases h
    exact ⟨[], Language.nil_mem_one, rest, rfl, by rw [List.append_nil]⟩
  complete xs hxs := by
    obtain rfl := (Language.mem_one xs).mp hxs
    exact ⟨a, .pure a⟩

theorem Accepts.throw (e : ε) : Accepts place (throw e : Reader σ ε α) 0 where
  sound before rest b s h := by cases h
  complete xs hxs := (Language.notMem_zero xs hxs).elim

/-- What comes after a value may depend on it. -/
theorem Parses.bind {p : Reader σ ε α} {f : α → Reader σ ε γ} {L M : α → Language β}
    (hp : Parses place p L) (hf : ∀ a, Accepts place (f a) (M a)) :
    Accepts place (p >>= f) (anyOf fun a => L a * M a) where
  sound before rest c s h := by
    obtain ⟨a, t, ha, hc⟩ := run_bind_eq_ok.mp h
    obtain ⟨xs, hxs, after, rfl, rfl⟩ := hp.sound _ _ _ _ ha
    obtain ⟨ys, hys, after', rfl, rfl⟩ := (hf a).sound _ _ _ _ hc
    refine ⟨xs ++ ys, ?_, after', by rw [List.append_assoc], by rw [List.append_assoc]⟩
    exact mem_anyOf.mpr ⟨a, Language.append_mem_mul hxs hys⟩
  complete zs hzs := by
    obtain ⟨a, ha⟩ := mem_anyOf.mp hzs
    obtain ⟨xs, hxs, ys, hys, rfl⟩ := Language.mem_mul.mp ha
    obtain ⟨c, hc⟩ := (hf a).complete ys hys
    exact ⟨c, (hp.complete a xs hxs).bind hc⟩

/-- A value that is checked: only `a` goes on. -/
theorem Parses.check {p : Reader σ ε α} {f : α → Reader σ ε γ} {L : α → Language β}
    {M : Language β} (hp : Parses place p L) (a : α) (hok : Accepts place (f a) M)
    (hother : ∀ b, b ≠ a → Accepts place (f b) 0) : Accepts place (p >>= f) (L a * M) where
  sound before rest c s h := by
    obtain ⟨b, t, hb, hc⟩ := run_bind_eq_ok.mp h
    obtain ⟨xs, hxs, after, rfl, rfl⟩ := hp.sound _ _ _ _ hb
    by_cases hba : b = a
    · subst hba
      obtain ⟨ys, hys, after', rfl, rfl⟩ := hok.sound _ _ _ _ hc
      exact ⟨xs ++ ys, Language.append_mem_mul hxs hys, after', by rw [List.append_assoc],
        by rw [List.append_assoc]⟩
    · obtain ⟨ys, hys, _⟩ := (hother b hba).sound _ _ _ _ hc
      exact (Language.notMem_zero ys hys).elim
  complete zs hzs := by
    obtain ⟨xs, hxs, ys, hys, rfl⟩ := Language.mem_mul.mp hzs
    obtain ⟨c, hc⟩ := hok.complete ys hys
    exact ⟨c, (hp.complete a xs hxs).bind hc⟩

theorem Accepts.bind {p : Reader σ ε α} {f : α → Reader σ ε γ} {L M : Language β}
    (hp : Accepts place p L) (hf : ∀ a, Accepts place (f a) M) :
    Accepts place (p >>= f) (L * M) where
  sound before rest c s h := by
    obtain ⟨a, t, ha, hc⟩ := run_bind_eq_ok.mp h
    obtain ⟨xs, hxs, after, rfl, rfl⟩ := hp.sound _ _ _ _ ha
    obtain ⟨ys, hys, after', rfl, rfl⟩ := (hf a).sound _ _ _ _ hc
    exact ⟨xs ++ ys, Language.append_mem_mul hxs hys, after', by rw [List.append_assoc],
      by rw [List.append_assoc]⟩
  complete zs hzs := by
    obtain ⟨xs, hxs, ys, hys, rfl⟩ := Language.mem_mul.mp hzs
    obtain ⟨a, ha⟩ := hp.complete xs hxs
    obtain ⟨c, hc⟩ := (hf a).complete ys hys
    exact ⟨c, ha.bind hc⟩

/-- A last step that reads nothing. -/
theorem Accepts.map {p : Reader σ ε α} {L : Language β} (hp : Accepts place p L) (f : α → γ) :
    Accepts place (p >>= fun x => Pure.pure (f x)) L := by
  have := hp.bind fun a => Accepts.pure (f a)
  rwa [mul_one] at this

/-- A counted loop repeats the language of its body. -/
theorem Accepts.forTimes {body : α → Reader σ ε α} {L : Language β}
    (h : ∀ a, Accepts place (body a) L) (n : ℕ) (a : α) :
    Accepts place (forTimes body n a) (L ^ n) := by
  induction n generalizing a with
  | zero => exact .pure a
  | succ n ih =>
    rw [pow_succ']
    exact (h a).bind ih

/-- A loop over a list reads a word of each item's language. -/
theorem Accepts.foldlM {body : α → τ → Reader σ ε α} {L : τ → Language β}
    (h : ∀ a item, Accepts place (body a item) (L item)) (items : List τ) (a : α) :
    Accepts place (items.foldlM body a) (items.map L).prod := by
  induction items generalizing a with
  | nil => exact .pure a
  | cons item items ih =>
    rw [List.foldlM_cons, List.map_cons, List.prod_cons]
    exact (h a item).bind ih

/-! ## Postconditions -/

/-- Every value that the reader returns satisfies `P`. -/
def Ensures (p : Reader σ ε α) (P : α → Prop) : Prop := ∀ s a s', p.run s = .ok (a, s') → P a

theorem Ensures.pure {P : α → Prop} {a : α} (h : P a) : Ensures (pure a : Reader σ ε α) P := by
  intro s b s' hb
  cases hb
  exact h

theorem Ensures.bind {p : Reader σ ε α} {f : α → Reader σ ε γ} {P : α → Prop} {Q : γ → Prop}
    (hp : Ensures p P) (hf : ∀ a, P a → Ensures (f a) Q) : Ensures (p >>= f) Q := by
  intro s c s' h
  obtain ⟨a, t, ha, hc⟩ := run_bind_eq_ok.mp h
  exact hf a (hp s a t ha) t c s' hc

/-- What holds after each round of a counted loop, by the number of the round. -/
theorem Ensures.forTimes_rounds {body : α → Reader σ ε α} {P : ℕ → α → Prop}
    (h : ∀ k a, P k a → Ensures (body a) (P (k + 1))) (n : ℕ) {k : ℕ} {a : α} (ha : P k a) :
    Ensures (forTimes body n a) (P (k + n)) := by
  induction n generalizing k a with
  | zero => exact .pure ha
  | succ n ih =>
    have hrest := (h k a ha).bind fun b hb => ih hb
    rwa [Nat.add_right_comm] at hrest

end BankPlatform.Library.Reader
