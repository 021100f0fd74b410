import BankPlatform.Bank.Locking

/-!
# Idempotent submission

However many calls of `TransferService.create` race with one idempotency key, one row is stored
under it, at most one call reports that it created the row, and every other call answers from the
row: with its id when the payload is the stored one, with `IDEMPOTENCY_KEY_REUSED` otherwise. The
unique index decides which insert wins; the rest follows since rows are never deleted and no
statement changes their payload.

## Main definitions

* `CreateTransferInput.SamePayload` — the row stores the payload of the input.
* `existingAccounts` — calls with one key name two different accounts that exist.
* `KeyInv` — what the rows and the history say about one key.

## Main results

* `stringify_injective` — the hashed text determines the payload.
* `submit_idempotent` — the guarantees for one key in every run.
-/

namespace BankPlatform.Bank

open Library

/-! ## Payloads -/

/-- The row stores the payload of the input. -/
def CreateTransferInput.SamePayload (input : CreateTransferInput) (r : TransferRow) : Prop :=
  r.fromAccountId = some input.fromAccountId ∧ r.toAccountId = input.toAccountId ∧
    r.amountCents = input.amountCents

instance (input : CreateTransferInput) (r : TransferRow) : Decidable (input.SamePayload r) :=
  inferInstanceAs (Decidable (_ ∧ _))

theorem CreateTransferInput.SamePayload.congr {input : CreateTransferInput} {r r' : TransferRow}
    (h : input.SamePayload r) (hsame : r.SameRequest r') : input.SamePayload r' :=
  ⟨hsame.fromAccountId_eq ▸ h.1, hsame.toAccountId_eq ▸ h.2.1, hsame.amountCents_eq ▸ h.2.2⟩

theorem toString_injective {m n : ℕ} (h : toString m = toString n) : m = n := by
  have hdigits : Nat.toDigits 10 m = Nat.toDigits 10 n := by
    rw [← Nat.toList_repr, ← Nat.toList_repr]
    exact congrArg String.toList h
  rw [← Nat.ofDigitChars_toDigits (b := 10) (n := m) (by omega) (by omega), hdigits,
    Nat.ofDigitChars_toDigits (by omega) (by omega)]

theorem toList_text (u : Uuid) : u.text.toList = u.chars := String.toList_ofList

/-- The hashed text determines the payload. -/
theorem stringify_injective {input input' : CreateTransferInput}
    (h : TransferService.stringify input = TransferService.stringify input') :
    input.fromAccountId = input'.fromAccountId ∧ input.toAccountId = input'.toAccountId ∧
      input.amountCents = input'.amountCents := by
  have hlist := congrArg String.toList h
  simp only [TransferService.stringify, String.toList_append, toList_text, List.append_assoc]
    at hlist
  have h₁ := List.append_cancel_left hlist
  obtain ⟨hfrom, h₂⟩ := List.append_inj h₁ (by simp)
  obtain ⟨hto, h₃⟩ := List.append_inj (List.append_cancel_left h₂) (by simp)
  have hamount := List.append_cancel_right (List.append_cancel_left h₃)
  refine ⟨Uuid.chars_injective hfrom, Uuid.chars_injective hto, ?_⟩
  exact PositiveCents.cents_injective (toString_injective (String.toList_inj.mp hamount))

theorem samePayload_congr {input input' : CreateTransferInput} {r : TransferRow}
    (h : TransferService.stringify input = TransferService.stringify input')
    (hr : input.SamePayload r) : input'.SamePayload r := by
  obtain ⟨hfrom, hto, hamount⟩ := stringify_injective h
  exact ⟨hfrom ▸ hr.1, hto ▸ hr.2.1, hamount ▸ hr.2.2⟩

/-! ## The rows of one key -/

/-- Calls with this key name two different accounts that exist. -/
def existingAccounts (key : String) : Guard := fun c _ a =>
  (match a with
    | .start (.createTransfer input) =>
      input.idempotencyKey ≠ key ||
        (input.fromAccountId ≠ input.toAccountId &&
          (c.shared.db.accounts.find? input.fromAccountId).isSome &&
          (c.shared.db.accounts.find? input.toAccountId).isSome)
    | _ => true) = true

instance (key : String) (c : State) (i : Pid) (a : Label) : Decidable (existingAccounts key c i a) :=
  inferInstanceAs (Decidable (_ = true))

/-- A call reported that it created the transfer of the key. -/
def Event.creates (key : String) : Event → Bool
  | .responded input (.ok result) => input.idempotencyKey = key && result.created
  | _ => false

namespace Change

variable {deps : Dependencies} {s : Shared} {i : Pid} {p : Proc} {a : Label} {db : Db}
  {es : List Event}

/-- A step stores a row under a key by the commit of an insert, or leaves the keys alone. -/
theorem keyed (h : Change deps s i p a db es)
    (hunique : s.db.transfers.UniqueIndex TransferRow.idempotencyKey) :
    ((∀ j row, .inserted j row ∉ es) ∧
        (∀ r' ∈ db.transfers.rows, r'.idempotencyKey ≠ none →
          ∃ r ∈ s.db.transfers.rows, r.SameRequest r') ∧
        db.transfers.UniqueIndex TransferRow.idempotencyKey) ∨
      ∃ input c hne, p = .createTransfer input
          (.commit (TransferService.pendingRow deps input c hne)) ∧
        es = [.inserted i (TransferService.pendingRow deps input c hne)] ∧
        (∀ x ∈ s.db.transfers.rows, x.idempotencyKey ≠ some input.idempotencyKey) ∧
        ∃ t, s.db.transfers.insert? (TransferService.pendingRow deps input c hne) = some t ∧
          db = { s.db with transfers := t } := by
  have put : ∀ {x y : TransferRow}, s.db.transfers.find? y.id = some x → x.SameRequest y →
      (∀ r' ∈ (s.db.transfers.put y).rows, r'.idempotencyKey ≠ none →
        ∃ r ∈ s.db.transfers.rows, r.SameRequest r') ∧
      (s.db.transfers.put y).UniqueIndex TransferRow.idempotencyKey := by
    intro x y hx hsame
    refine ⟨fun r' hr' _ => ?_, hunique.put hx hsame.idempotencyKey_eq⟩
    rcases Table.mem_put hr' with hr' | rfl
    · exact ⟨r', hr', .refl r'⟩
    · exact ⟨x, Table.mem_of_find? hx, hsame⟩
  have same : (∀ j row, .inserted j row ∉ es) → db.transfers = s.db.transfers →
      ((∀ j row, .inserted j row ∉ es) ∧
        (∀ r' ∈ db.transfers.rows, r'.idempotencyKey ≠ none →
          ∃ r ∈ s.db.transfers.rows, r.SameRequest r') ∧
        db.transfers.UniqueIndex TransferRow.idempotencyKey) := by
    intro hes hdb
    rw [hdb]
    exact ⟨hes, fun r' hr' _ => ⟨r', hr', .refl r'⟩, hunique⟩
  cases h with
  | quiet hes => exact .inl (same (fun j row he => by simpa [Event.silent] using hes _ he) rfl)
  | moved _ _ _ _ hrow hsame hc =>
    subst hc
    have hid := Table.key_of_find? hrow
    refine .inl ⟨by simp, put ?_ (TransferRow.sameRequest_complete _ _)⟩
    simpa [← hid] using hrow
  | rejected _ _ hrow _ =>
    have hid := Table.key_of_find? hrow
    refine .inl ⟨by simp, put ?_ (TransferRow.sameRequest_fail _ _ _)⟩
    simpa [← hid] using hrow
  | opened _ _ hinstall =>
    obtain ⟨t, _, hcase⟩ := install_openingWrites hinstall
    rcases hcase with ⟨_, rfl⟩ | ⟨_, u, hu, rfl⟩
    · exact .inl (same (by simp) rfl)
    · refine .inl ⟨by simp, fun r' hr' hkey => ?_, hunique.insert? hu fun hkey => ?_⟩
      · rcases (Table.mem_insert? hu).mp hr' with hr' | rfl
        · exact ⟨r', hr', .refl r'⟩
        · exact absurd rfl hkey
      · exact absurd rfl hkey
  | @inserted input c hne c' _ _ hwrite =>
    obtain ⟨hfresh, t, ht, rfl⟩ := write_insertTransfer hwrite
    refine .inr ⟨input, c, hne, rfl, rfl, fun x hx hkey => ?_, t, ht, rfl⟩
    have := hfresh x hx
    simp [TransferRow.collides, TransferService.pendingRow, hkey] at this
  | locked _ _ _ _ | released _ _ | commented => exact .inl (same (by simp) rfl)

/-- No step breaks the unique index on the keys. -/
theorem uniqueKeys (h : Change deps s i p a db es)
    (hunique : s.db.transfers.UniqueIndex TransferRow.idempotencyKey) :
    db.transfers.UniqueIndex TransferRow.idempotencyKey := by
  rcases h.keyed hunique with ⟨_, _, hunique'⟩ | ⟨input, c, hne, _, _, hfresh, t, ht, rfl⟩
  · exact hunique'
  · exact hunique.insert? ht fun _ x hx heq => hfresh x hx heq

end Change

/-! ## What the rows and the history say about one key -/

section Key

variable (deps : Dependencies) (key : String)

/-- The row that is stored under the key. -/
def Db.KeyRow (db : Db) (r : TransferRow) : Prop :=
  r ∈ db.transfers.rows ∧ r.idempotencyKey = some key

/-- How a call that uses the key answers from the stored row. -/
def Answers (db : Db) (input : CreateTransferInput) :
    Except Thrown CreateTransferResult → Prop
  | .ok result => ∃ r, db.KeyRow key r ∧ r.id = result.transfer.id ∧
      r.requestHash = some (TransferService.hashRequest deps input)
  | .error err => ∃ r, db.KeyRow key r ∧
      ((err = TransferService.idempotencyKeyReused ∧
        r.requestHash ≠ some (TransferService.hashRequest deps input)) ∨
        r.requestHash = some (TransferService.hashRequest deps input))

/-- The rows and the history of one key. -/
structure KeyInv (s : Shared) : Prop where
  unique : s.db.transfers.UniqueIndex TransferRow.idempotencyKey
  called : ∀ r, s.db.KeyRow key r → ∃ input, .called input ∈ s.log ∧ input.idempotencyKey = key ∧
    input.SamePayload r ∧ r.requestHash = some (TransferService.hashRequest deps input)
  stored : ∀ i row, .inserted i row ∈ s.log → row.idempotencyKey = some key →
    ∃ r, s.db.KeyRow key r
  once : ∀ i i' row row', .inserted i row ∈ s.log → .inserted i' row' ∈ s.log →
    row.idempotencyKey = some key → row'.idempotencyKey = some key → i = i'
  responses : ∀ input result, .responded input result ∈ s.log → input.idempotencyKey = key →
    .called input ∈ s.log ∧ Answers deps key s.db input result
  created : s.log.countP (Event.creates key) ≤ 1

/-- What a call that uses the key knows at each await. -/
def CreateTransferPc.Knows (s : Shared) (i : Pid) (input : CreateTransferInput) :
    CreateTransferPc → Prop
  | .assertAccountsExist => (s.db.accounts.find? input.fromAccountId).isSome ∧
      (s.db.accounts.find? input.toAccountId).isSome
  | .enqueue row created =>
    (∃ r, s.db.KeyRow key r ∧ r.id = row.id ∧
      r.requestHash = some (TransferService.hashRequest deps input)) ∧
      (created → s.log.countP (Event.creates key) = 0 ∧
        ∃ row, .inserted i row ∈ s.log ∧ row.idempotencyKey = some key)
  | .replay => ∃ r, s.db.KeyRow key r
  | _ => True

def Proc.Knows (s : Shared) (i : Pid) : Proc → Prop
  | .createTransfer input pc => input.idempotencyKey = key →
      .called input ∈ s.log ∧ input.fromAccountId ≠ input.toAccountId ∧ pc.Knows deps key s i input
  | _ => True

/-- What a step guarantees to the calls that use the key. -/
structure KeyGuarantee (j : Pid) (s s' : Shared) : Prop extends Guarantee j s s' where
  accountStays : ∀ id, (s.db.accounts.find? id).isSome → (s'.db.accounts.find? id).isSome
  log : ∃ es, s'.log = s.log ++ es ∧ (es.countP (Event.creates key) ≠ 0 →
    ∃ row, .inserted j row ∈ s.log ∧ row.idempotencyKey = some key)

variable {deps key}

theorem Guarantee.keyRow {j : Pid} {s s' : Shared} (hg : Guarantee j s s') {r : TransferRow}
    (hr : s.db.KeyRow key r) : ∃ r', s'.db.KeyRow key r' ∧ r.SameRequest r' := by
  obtain ⟨r', hr', hsame⟩ := hg.transfers r.id r (Table.find?_key hr.1)
  exact ⟨r', ⟨Table.mem_of_find? hr', hsame.idempotencyKey_eq ▸ hr.2⟩, hsame⟩

theorem Guarantee.answers {j : Pid} {s s' : Shared} (hg : Guarantee j s s')
    {input : CreateTransferInput} {result : Except Thrown CreateTransferResult}
    (h : Answers deps key s.db input result) : Answers deps key s'.db input result := by
  cases result with
  | ok result =>
    obtain ⟨r, hr, hid, hhash⟩ := h
    obtain ⟨r', hr', hsame⟩ := hg.keyRow hr
    exact ⟨r', hr', hsame.id_eq ▸ hid, hsame.requestHash_eq ▸ hhash⟩
  | error err =>
    obtain ⟨r, hr, hhash⟩ := h
    obtain ⟨r', hr', hsame⟩ := hg.keyRow hr
    exact ⟨r', hr', hsame.requestHash_eq ▸ hhash⟩

theorem knows_stable {i j : Pid} {s s' : Shared} {p : Proc} (hij : i ≠ j)
    (hinv : KeyInv deps key s) (hg : KeyGuarantee key j s s') (h : p.Knows deps key s i) :
    p.Knows deps key s' i := by
  obtain ⟨es, hlog, hcreates⟩ := hg.log
  cases p with
  | createTransfer input pc =>
    intro hkey
    obtain ⟨hcalled, hne, hpc⟩ := h hkey
    refine ⟨by simp [hlog, hcalled], hne, ?_⟩
    cases pc with
    | assertAccountsExist => exact ⟨hg.accountStays _ hpc.1, hg.accountStays _ hpc.2⟩
    | enqueue row created =>
      obtain ⟨⟨r, hr, hid, hhash⟩, hcreated⟩ := hpc
      obtain ⟨r', hr', hsame⟩ := hg.toGuarantee.keyRow hr
      refine ⟨⟨r', hr', hsame.id_eq ▸ hid, hsame.requestHash_eq ▸ hhash⟩, fun h => ?_⟩
      obtain ⟨hzero, x, hx, hxkey⟩ := hcreated h
      -- a second creator would have inserted the row as well
      have hes : es.countP (Event.creates key) = 0 := by
        by_contra hpos
        obtain ⟨y, hy, hykey⟩ := hcreates hpos
        exact hij (hinv.once i j x y hx hy hxkey hykey)
      refine ⟨by rw [hlog, List.countP_append, hzero, hes], x, by simp [hlog, hx], hxkey⟩
    | replay =>
      obtain ⟨r, hr⟩ := hpc
      obtain ⟨r', hr', _⟩ := hg.toGuarantee.keyRow hr
      exact ⟨r', hr'⟩
    | _ => trivial
  | _ => trivial

theorem transferByKey_eq_some {db : Db} (h : db.transfers.UniqueIndex TransferRow.idempotencyKey)
    {r : TransferRow} : db.transferByKey key = some r ↔ db.KeyRow key r :=
  h.find?_eq_some

/-- What a step records of the answers to calls that use the key. -/
structure NewResponses (deps : Dependencies) (key : String) (s : Shared) (i : Pid)
    (es : List Event) : Prop where
  responses : ∀ input result, .responded input result ∈ es → input.idempotencyKey = key →
    .called input ∈ s.log ∧ Answers deps key s.db input result
  atMostOne : es.countP (Event.creates key) ≤ 1
  creator : es.countP (Event.creates key) ≠ 0 → s.log.countP (Event.creates key) = 0 ∧
    ∃ row, .inserted i row ∈ s.log ∧ row.idempotencyKey = some key

theorem NewResponses.none {s : Shared} {i : Pid} {es : List Event}
    (h : ∀ input result, .responded input result ∈ es → input.idempotencyKey ≠ key) :
    NewResponses deps key s i es := by
  have hzero : es.countP (Event.creates key) = 0 := by
    refine List.countP_eq_zero.mpr fun e he hcreates => ?_
    cases e with
    | responded input result =>
      cases result with
      | ok result =>
        simp only [Event.creates, Bool.and_eq_true, decide_eq_true_eq] at hcreates
        exact h input _ he hcreates.1
      | error err => simp [Event.creates] at hcreates
    | _ => simp [Event.creates] at hcreates
  exact ⟨fun input result he hkey => absurd hkey (h input result he), by omega,
    fun hne => absurd hzero hne⟩

/-- An answer that does not report a new row. -/
theorem NewResponses.replayed {s : Shared} {i : Pid} {input : CreateTransferInput}
    {result : Except Thrown CreateTransferResult} (hcalled : .called input ∈ s.log)
    (hanswers : Answers deps key s.db input result)
    (hold : ∀ res, result = .ok res → res.created = false) :
    NewResponses deps key s i [.responded input result] := by
  have hzero : [Event.responded input result].countP (Event.creates key) = 0 := by
    cases result with
    | ok res => simp [Event.creates, hold res rfl]
    | error err => simp [Event.creates]
  refine ⟨fun input' result' he _ => ?_, by omega, fun hne => absurd hzero hne⟩
  obtain ⟨rfl, rfl⟩ : input' = input ∧ result' = result := by simpa using he
  exact ⟨hcalled, hanswers⟩

theorem newResponses_next {s : Shared} {i : Pid} {input : CreateTransferInput}
    {pc : CreateTransferPc} {c : Choice} {m : Move} (hinv : KeyInv deps key s)
    (hp : (Proc.createTransfer input pc).Knows deps key s i)
    (hm : TransferService.next deps s i input c pc = some m) :
    NewResponses deps key s i m.events := by
  by_cases hkey : input.idempotencyKey = key
  · obtain ⟨hcalled, hne, hpc⟩ := hp hkey
    cases pc with
    | assertAccountsExist =>
      have hexist : TransferService.assertAccountsExist s.db input = .ok () := by
        simp [TransferService.assertAccountsExist, Option.isNone_eq_false_iff.mpr hpc.1,
          Option.isNone_eq_false_iff.mpr hpc.2]
      simp only [TransferService.next, hexist, Option.some.injEq] at hm
      subst hm
      exact .none (by simp)
    | insert =>
      simp only [TransferService.next, hne, ne_eq, not_false_eq_true, dite_true] at hm
      split at hm
      · cases hm
        exact .none (by simp)
      · split at hm <;> cases hm
        exact .none (by simp)
    | referenceFrom row | referenceTo row | commit row =>
      cases hm
      exact .none (by simp)
    | enqueue row created =>
      obtain ⟨⟨r, hr, hid, hhash⟩, hcreated⟩ := hpc
      simp only [TransferService.next] at hm
      split at hm
      · cases hm
        exact .replayed hcalled ⟨r, hr, .inr hhash⟩ (by simp)
      · cases hm
        refine ⟨fun input' result' he _ => ?_, List.countP_le_length, fun hpos => ?_⟩
        · obtain ⟨rfl, rfl⟩ : input' = input ∧ result' = .ok ⟨row, created⟩ := by
            simpa [TransferService.respond] using he
          exact ⟨hcalled, r, hr, hid, hhash⟩
        · refine hcreated ?_
          by_contra hnot
          simp [TransferService.respond, Event.creates, hnot] at hpos
    | replay =>
      obtain ⟨r, hr⟩ := hpc
      simp only [TransferService.next, hkey, (transferByKey_eq_some hinv.unique).mpr hr] at hm
      split at hm
      · next hhash =>
        cases hm
        exact .replayed hcalled ⟨r, hr, .inl ⟨rfl, hhash⟩⟩ (by simp)
      · next hhash =>
        split at hm <;> cases hm
        · exact .none (by simp)
        · exact .replayed hcalled ⟨r, hr, rfl, not_not.mp hhash⟩ (by simp)
  · refine .none fun input' result he => ?_
    suffices input' = input by rwa [this]
    cases pc <;> simp only [TransferService.next, TransferService.respond] at hm <;> grind

theorem newResponses_act {c : State} {i : Pid} {a : Label} {m : Move}
    (hok : existingAccounts key c i a) (hinv : KeyInv deps key c.shared)
    (hp : (c.locals i).Knows deps key c.shared i)
    (hacts : Acts deps c.shared i (c.locals i) a m) :
    NewResponses deps key c.shared i m.events := by
  generalize c.locals i = p at hp hacts
  cases hacts with
  | @next p ch m hm =>
    cases p with
    | idle => simp [Proc.next] at hm
    | createTransfer input pc => exact newResponses_next hinv hp hm
    | processor job pc =>
      obtain rfl := Option.some.inj hm
      refine .none fun input result he => ?_
      cases pc with
      | executing transfer fromAccountId pc =>
        cases pc <;> simp only [ProcessorPc.next, TransferExecutor.next] at he <;> grind
      | _ => simp only [ProcessorPc.next] at he; grind
    | _ => exact .none fun input result he => absurd he ((next_aside rfl hm).1 input result)
  | @start op m hm =>
    refine .none fun input result he hkey => ?_
    cases op with
    | createTransfer input' =>
      simp only [Operation.begin] at hm
      split at hm
      · next heq =>
        cases hm
        obtain ⟨rfl, _⟩ : input = input' ∧ result = _ := by simpa using he
        simp [existingAccounts, hkey, heq] at hok
      · cases hm
        simp at he
    | _ => simp only [Operation.begin] at hm; grind
  | deliver _ => exact .none (by simp)
  | queue => exact .none (by simp)
  | abort => exact .none (by cases p <;> simp [Proc.abort])
  | crash => exact .none (by simp)

theorem KeyInv.step {s s' : Shared} {i : Pid} {p : Proc} {a : Label} {es : List Event}
    (hinv : KeyInv deps key s) (hlog : s'.log = s.log ++ es)
    (hchange : Change deps s i p a s'.db es) (hg : Guarantee i s s')
    (hp : p.Knows deps key s i) (hnew : NewResponses deps key s i es) :
    KeyInv deps key s' := by
  have hresponses : ∀ input result, .responded input result ∈ s'.log →
      input.idempotencyKey = key →
        .called input ∈ s'.log ∧ Answers deps key s'.db input result := by
    intro input result he hkey
    rw [hlog, List.mem_append] at he
    obtain ⟨hcalled, hanswers⟩ := he.elim (fun he => hinv.responses input result he hkey)
      fun he => hnew.responses input result he hkey
    exact ⟨by simp [hlog, hcalled], hg.answers hanswers⟩
  have hcreated : s'.log.countP (Event.creates key) ≤ 1 := by
    rw [hlog, List.countP_append]
    by_cases hzero : es.countP (Event.creates key) = 0
    · rw [hzero]
      exact hinv.created
    · rw [(hnew.creator hzero).1]
      simpa using hnew.atMostOne
  rcases hchange.keyed hinv.unique with ⟨hes, hrows, hunique⟩ |
      ⟨input, ch, hne, rfl, rfl, hfresh, t, ht, hdb⟩
  · have hinserted : ∀ {j row}, .inserted j row ∈ s'.log → .inserted j row ∈ s.log := by
      intro j row hj
      rw [hlog, List.mem_append, or_iff_left (hes j row)] at hj
      exact hj
    refine ⟨hunique, fun r hr => ?_, fun j row hj hkey => ?_,
      fun j j' row row' hj hj' => hinv.once j j' row row' (hinserted hj) (hinserted hj'),
      hresponses, hcreated⟩
    · obtain ⟨r₀, hr₀, hsame⟩ := hrows r hr.1 (by simp [hr.2])
      obtain ⟨input, hcalled, hkey, hpayload, hhash⟩ :=
        hinv.called r₀ ⟨hr₀, hsame.idempotencyKey_eq.trans hr.2⟩
      exact ⟨input, by simp [hlog, hcalled], hkey, hpayload.congr hsame,
        hsame.requestHash_eq ▸ hhash⟩
    · obtain ⟨r, hr⟩ := hinv.stored j row (hinserted hj) hkey
      obtain ⟨r', hr', _⟩ := hg.keyRow hr
      exact ⟨r', hr'⟩
  · have hrows : ∀ r, r ∈ s'.db.transfers.rows ↔
        r ∈ s.db.transfers.rows ∨ r = TransferService.pendingRow deps input ch hne := by
      intro r
      rw [hdb]
      exact Table.mem_insert? ht
    -- an earlier insert under the key would have left a row that the new one clashes with
    have hold : ∀ {j row}, .inserted j row ∈ s.log → row.idempotencyKey = some key →
        input.idempotencyKey = key → False := by
      intro j row hj hkey hinput
      obtain ⟨r, hr, hrkey⟩ := hinv.stored j row hj hkey
      exact hfresh r hr (hrkey.trans (congrArg some hinput.symm))
    refine ⟨hchange.uniqueKeys hinv.unique, fun r hr => ?_, fun j row hj hkey => ?_,
      fun j j' row row' hj hj' hk hk' => ?_, hresponses, hcreated⟩
    · rcases (hrows r).mp hr.1 with hrow | rfl
      · obtain ⟨input', hcalled, hrest⟩ := hinv.called r ⟨hrow, hr.2⟩
        exact ⟨input', by simp [hlog, hcalled], hrest⟩
      · have hkey : input.idempotencyKey = key := Option.some.inj hr.2
        exact ⟨input, by simp [hlog, (hp hkey).1], hkey, ⟨rfl, rfl, rfl⟩, rfl⟩
    · rw [hlog, List.mem_append, List.mem_singleton] at hj
      rcases hj with hj | hj
      · obtain ⟨r, hr⟩ := hinv.stored j row hj hkey
        obtain ⟨r', hr', _⟩ := hg.keyRow hr
        exact ⟨r', hr'⟩
      · obtain ⟨rfl, rfl⟩ := Event.inserted.inj hj
        exact ⟨_, (hrows _).mpr (.inr rfl), hkey⟩
    · rw [hlog, List.mem_append, List.mem_singleton] at hj hj'
      rcases hj with hj | hj <;> rcases hj' with hj' | hj'
      · exact hinv.once j j' row row' hj hj' hk hk'
      · obtain ⟨rfl, rfl⟩ := Event.inserted.inj hj'
        exact (hold hj hk (Option.some.inj hk')).elim
      · obtain ⟨rfl, rfl⟩ := Event.inserted.inj hj
        exact (hold hj' hk' (Option.some.inj hk)).elim
      · rw [(Event.inserted.inj hj).1, (Event.inserted.inj hj').1]

/-- Nobody reports a row before it is stored. -/
theorem KeyInv.creates_eq_zero {s : Shared} (hinv : KeyInv deps key s)
    (hnone : ∀ r, ¬ s.db.KeyRow key r) : s.log.countP (Event.creates key) = 0 := by
  refine List.countP_eq_zero.mpr fun e he hcreates => ?_
  cases e with
  | responded input result =>
    cases result with
    | ok result =>
      simp only [Event.creates, Bool.and_eq_true, decide_eq_true_eq] at hcreates
      obtain ⟨_, r, hr, _⟩ := hinv.responses input _ he hcreates.1
      exact hnone r hr
    | error err => simp [Event.creates] at hcreates
  | _ => simp [Event.creates] at hcreates

/-- A statement of a call brings it to what it knows at its next await. -/
theorem knows_next {s s₁ : Shared} {i : Pid} {input : CreateTransferInput} {pc : CreateTransferPc}
    {c : Choice} {m : Move} (hinv : KeyInv deps key s)
    (hp : (Proc.createTransfer input pc).Knows deps key s i)
    (hm : TransferService.next deps s i input c pc = some m)
    (happ : s.apply i m.effect = some s₁)
    (hchange : Change deps s i (.createTransfer input pc) (.next c) s₁.db m.events) :
    m.next.Knows deps key (s₁.record m.events) i := by
  by_cases hkey : input.idempotencyKey = key
  · obtain ⟨hcalled, hne, hpc⟩ := hp hkey
    have hcalled' : .called input ∈ (s₁.record m.events).log := by
      simp [apply_log happ, hcalled]
    cases pc with
    | assertAccountsExist =>
      simp only [TransferService.next, TransferService.respond] at hm
      split at hm <;> cases hm
      · trivial
      · exact fun _ => ⟨hcalled', hne, trivial⟩
    | insert =>
      simp only [TransferService.next, hne, ne_eq, not_false_eq_true, dite_true] at hm
      split at hm
      · next hfound =>
        cases hm
        obtain rfl := Option.some.inj happ
        obtain ⟨r, hr⟩ := Option.isSome_iff_exists.mp hfound
        exact fun _ => ⟨hcalled', hne, r, (transferByKey_eq_some hinv.unique).mp (hkey ▸ hr)⟩
      · split at hm <;> cases hm
        exact fun _ => ⟨hcalled', hne, trivial⟩
    | referenceFrom row | referenceTo row =>
      cases hm
      exact fun _ => ⟨hcalled', hne, trivial⟩
    | commit row =>
      cases hm
      rcases hchange.keyed hinv.unique with ⟨hes, _, _⟩ |
          ⟨input', ch, hne', hproc, _, hfresh, t, ht, hdb⟩
      · exact absurd List.mem_cons_self (hes i row)
      · obtain ⟨rfl, hpc'⟩ := Proc.createTransfer.inj hproc
        obtain rfl := CreateTransferPc.commit.inj hpc'
        have hkeyed : (TransferService.pendingRow deps input ch hne').idempotencyKey = some key :=
          congrArg some hkey
        have hrow : (s₁.record [.inserted i (TransferService.pendingRow deps input ch hne')]).db.KeyRow
            key (TransferService.pendingRow deps input ch hne') := by
          refine ⟨?_, hkeyed⟩
          rw [Shared.record_db, hdb]
          exact (Table.mem_insert? ht).mpr (.inr rfl)
        have hzero := hinv.creates_eq_zero fun r hr =>
          hfresh r hr.1 (hr.2.trans (congrArg some hkey.symm))
        refine fun _ => ⟨hcalled', hne, ⟨_, hrow, rfl, rfl⟩, fun _ => ⟨?_, _, ?_, hkeyed⟩⟩
        · simp [apply_log happ, hzero, Event.creates]
        · simp
    | enqueue row created =>
      simp only [TransferService.next, TransferService.respond] at hm
      split at hm <;> cases hm <;> trivial
    | replay =>
      obtain ⟨r, hr⟩ := hpc
      simp only [TransferService.next, TransferService.respond, hkey,
        (transferByKey_eq_some hinv.unique).mpr hr] at hm
      split at hm
      · cases hm
        trivial
      · next hhash =>
        split at hm <;> cases hm
        · obtain rfl := Option.some.inj happ
          exact fun _ => ⟨hcalled', hne, ⟨r, hr, rfl, not_not.mp hhash⟩, by simp⟩
        · trivial
  · unfold Proc.Knows
    split
    · next input' pc' hnext =>
      obtain rfl : input = input' :=
        sameCall_of_next (p := .createTransfer input pc) hm hnext (by simp)
      exact fun h => absurd h hkey
    · trivial

theorem knows_own {c : State} {s₁ : Shared} {i : Pid} {a : Label} {m : Move}
    (hok : existingAccounts key c i a) (hinv : KeyInv deps key c.shared)
    (hp : (c.locals i).Knows deps key c.shared i)
    (hacts : Acts deps c.shared i (c.locals i) a m)
    (happ : c.shared.apply i m.effect = some s₁)
    (hchange : Change deps c.shared i (c.locals i) a s₁.db m.events) :
    m.next.Knows deps key (s₁.record m.events) i := by
  cases hnext : m.next with
  | createTransfer input pc =>
    rcases createTransfer_of_acts hacts hnext with ⟨pc₀, hp₀⟩ | ⟨rfl, hne⟩
    · rw [hp₀] at hp hacts hchange
      cases hacts with
      | next hm =>
        rw [← hnext]
        exact knows_next hinv hp hm happ hchange
      | abort => cases hnext
      | crash => cases hnext
    · intro hkey
      cases hlocal : c.locals i with
      | idle =>
        rw [hlocal] at hacts
        cases hacts with
        | start hm =>
          simp only [Operation.begin, hne, if_false, Option.some.injEq] at hm
          subst hm
          cases hnext
          obtain rfl := Option.some.inj happ
          have hexist : (c.shared.db.accounts.find? input.fromAccountId).isSome ∧
              (c.shared.db.accounts.find? input.toAccountId).isSome := by
            simpa [existingAccounts, hkey, hne] using hok
          exact ⟨by simp, hne, hexist⟩
      | _ => rw [hlocal] at hacts; cases hacts
  | _ => trivial

/-- One idempotency key as an invariant of the interleaving. -/
def keyProof (deps : Dependencies) (key : String) :
    Interleaving.RelyGuarantee (system deps) (existingAccounts key)
      fun c => ∀ i, (c.locals i).Holding deps c.shared i where
  inv s := KeyInv deps key s
  asserts i s p := p.Knows deps key s i
  guarantee := KeyGuarantee key
  own c i a s p hknown hinv hall hok hstep := by
    obtain ⟨m, s₁, hact, happ, rfl, rfl⟩ := step_eq_some.mp hstep
    have hg := step_guarantee (hknown i) hstep
    have hchange := change_act (hknown i) (acts_of_act hact) happ
    have hnew := newResponses_act hok hinv (hall i) (acts_of_act hact)
    have hlog : (s₁.record m.events).log = c.shared.log ++ m.events := by simp [apply_log happ]
    exact ⟨hinv.step hlog hchange hg (hall i) hnew,
      knows_own hok hinv (hall i) (acts_of_act hact) happ hchange,
      hg, fun _ => hchange.account_stays, m.events, hlog, fun hpos => (hnew.creator hpos).2⟩
  stable i j s s' p hij hinv hg hp := knows_stable hij hinv hg hp

section Runs

variable {customers : Table CustomerRow} {c c' : State}

theorem keyInv (h : Reaches deps (existingAccounts key) (Db.seeded customers) c) :
    KeyInv deps key c.shared ∧ ∀ i, (c.locals i).Knows deps key c.shared i := by
  refine (keyProof deps key).sound h (fun _ hc => holding hc) ?_ fun _ => trivial
  refine ⟨Table.uniqueIndex_empty _, fun r hr => ?_, ?_, ?_, ?_, Nat.zero_le _⟩
  · simp [Db.KeyRow, State.init, Db.seeded, Table.empty] at hr
  all_goals simp [State.init]

/-- The row of a key stays stored with its payload. -/
theorem keyRow_stays (h : Reaches deps (existingAccounts key) (Db.seeded customers) c)
    (h' : (system deps).Run (existingAccounts key) c c') {r : TransferRow}
    (hr : c.shared.db.KeyRow key r) : ∃ r', c'.shared.db.KeyRow key r' ∧ r.SameRequest r' := by
  refine h'.invariant (Reaches deps (existingAccounts key) (Db.seeded customers))
    (fun d => ∃ r', d.shared.db.KeyRow key r' ∧ r.SameRequest r') (fun _ hd => h.trans hd)
    ⟨r, hr, .refl r⟩ ?_
  rintro d i a d' hd ⟨r', hr', hsame⟩ _ hmove
  obtain ⟨s, p, hstep, rfl⟩ := Interleaving.move_eq_some.mp hmove
  obtain ⟨r'', hr'', hsame'⟩ := (step_guarantee (holding hd i) hstep).keyRow hr'
  exact ⟨r'', hr'', hsame.trans hsame'⟩

theorem log_stays (h : Reaches deps (existingAccounts key) (Db.seeded customers) c)
    (h' : (system deps).Run (existingAccounts key) c c') {e : Event} (he : e ∈ c.shared.log) :
    e ∈ c'.shared.log := by
  refine h'.invariant (Reaches deps (existingAccounts key) (Db.seeded customers))
    (fun d => e ∈ d.shared.log) (fun _ hd => h.trans hd) he ?_
  intro d i a d' hd hmem _ hmove
  obtain ⟨es, hlog, _⟩ := move_change hd hmove
  exact hlog ▸ List.mem_append_left es hmem

/-- SHA-256 is injective on the payloads that were submitted with the key. -/
def HashInjective (deps : Dependencies) (key : String) (log : List Event) : Prop :=
  ∀ input input', .called input ∈ log → .called input' ∈ log → input.idempotencyKey = key →
    input'.idempotencyKey = key →
    TransferService.hashRequest deps input = TransferService.hashRequest deps input' →
      TransferService.stringify input = TransferService.stringify input'

/-- The stored hash tells whether a call has the stored payload. -/
theorem requestHash_iff {s : Shared} (hinv : KeyInv deps key s)
    (hinj : HashInjective deps key s.log) {input : CreateTransferInput}
    (hcalled : .called input ∈ s.log) (hkey : input.idempotencyKey = key) {r : TransferRow}
    (hr : s.db.KeyRow key r) :
    r.requestHash = some (TransferService.hashRequest deps input) ↔ input.SamePayload r := by
  obtain ⟨input', hcalled', hkey', hpayload, hhash⟩ := hinv.called r hr
  rw [hhash, Option.some.injEq]
  constructor
  · intro heq
    exact samePayload_congr (hinj input' input hcalled' hcalled hkey' hkey heq) hpayload
  · intro hsame
    have hfrom := Option.some.inj (hpayload.1.symm.trans hsame.1)
    have hto := hpayload.2.1.symm.trans hsame.2.1
    have hamount := hpayload.2.2.symm.trans hsame.2.2
    simp only [TransferService.hashRequest, TransferService.stringify, hfrom, hto, hamount]

theorem keyRow_unique {s : Shared} (hinv : KeyInv deps key s) {r r' : TransferRow}
    (hr : s.db.KeyRow key r) (hr' : s.db.KeyRow key r') : r = r' :=
  hinv.unique r hr.1 r' hr'.1 (by simp [hr.2]) (hr.2.trans hr'.2.symm)

/-- The statements that change neither a table nor the queue. -/
def Effect.harmless : Effect → Bool
  | .quiet | .lock _ _ | .rollback => true
  | _ => false

theorem apply_harmless {s s₁ : Shared} {i : Pid} {e : Effect} (h : s.apply i e = some s₁)
    (he : e.harmless) : s₁.db = s.db ∧ s₁.queue = s.queue := by
  cases e <;> simp only [Shared.apply, Option.map_eq_some_iff, Option.some.injEq,
    Option.ite_none_right_eq_some] at h <;> grind [Effect.harmless]

/-- A statement of `create` is harmless, commits the insert or enqueues the row. -/
theorem harmless_or {s : Shared} {i : Pid} {input : CreateTransferInput} {pc : CreateTransferPc}
    {ch : Choice} {m : Move} (hm : TransferService.next deps s i input ch pc = some m) :
    m.effect.harmless ∨ (∃ row, pc = .commit row) ∨ ∃ row created, pc = .enqueue row created := by
  cases pc <;> simp only [TransferService.next, TransferService.respond] at hm <;>
    grind [Effect.harmless]

/-- No statement of a call whose payload differs from the stored one changes a table or the
queue, also while the row is not stored yet. -/
theorem differing_call_changes_nothing {i : Pid} {a : Label} {c₁ c₂ : State}
    {input : CreateTransferInput} {pc : CreateTransferPc} {r : TransferRow}
    (h : Reaches deps (existingAccounts key) (Db.seeded customers) c₁)
    (hp : c₁.locals i = .createTransfer input pc) (hkey : input.idempotencyKey = key)
    (hok : existingAccounts key c₁ i a) (hmove : (system deps).move c₁ i a = some c₂)
    (h' : (system deps).Run (existingAccounts key) c₂ c)
    (hinj : HashInjective deps key c.shared.log) (hr : c.shared.db.KeyRow key r)
    (hdiffers : ¬ input.SamePayload r) :
    c₂.shared.db = c₁.shared.db ∧ c₂.shared.queue = c₁.shared.queue := by
  have h₂ : Reaches deps (existingAccounts key) (Db.seeded customers) c₂ := h.step hok hmove
  obtain ⟨hinv, hknows⟩ := keyInv h
  have hinv' := (keyInv (h₂.trans h')).1
  have hp' := hknows i
  rw [hp] at hp'
  obtain ⟨hcalled, _, hpc⟩ := hp' hkey
  obtain ⟨s, p, hstep, rfl⟩ := Interleaving.move_eq_some.mp hmove
  have hg := step_guarantee (holding h i) hstep
  obtain ⟨m, s₁, hact, happ, rfl, rfl⟩ := step_eq_some.mp hstep
  have hacts := acts_of_act hact
  have hchange := change_act (holding h i) hacts happ
  have heffect : m.effect.harmless → s₁.db = c₁.shared.db ∧ s₁.queue = c₁.shared.queue :=
    apply_harmless happ
  have hcalled' : .called input ∈ c.shared.log :=
    log_stays h₂ h' (by simp [apply_log happ, hcalled])
  rw [hp] at hacts hchange
  -- a row with the payload of the call would still be stored
  have habsurd : ∀ r₀, s₁.db.KeyRow key r₀ →
      r₀.requestHash = some (TransferService.hashRequest deps input) → False := by
    intro r₀ hr₀ hhash
    obtain ⟨r', hr', hsame⟩ := keyRow_stays h₂ h' hr₀
    obtain rfl := keyRow_unique hinv' hr hr'
    exact hdiffers ((requestHash_iff hinv' hinj hcalled' hkey hr).mp
      (hsame.requestHash_eq ▸ hhash))
  cases hacts with
  | next hm =>
    rcases harmless_or hm with hharmless | ⟨row, rfl⟩ | ⟨row, created, rfl⟩
    · exact heffect hharmless
    · cases hm
      obtain ⟨hes, _⟩ | ⟨input', ch, hne', hproc, _, _, t, ht, hdb⟩ := hchange.keyed hinv.unique
      · exact absurd List.mem_cons_self (hes i row)
      · obtain ⟨rfl, _⟩ := Proc.createTransfer.inj hproc
        have hstored : s₁.db.KeyRow key (TransferService.pendingRow deps input ch hne') := by
          refine ⟨?_, congrArg some hkey⟩
          rw [hdb]
          exact (Table.mem_insert? ht).mpr (.inr rfl)
        exact (habsurd _ hstored rfl).elim
    · obtain ⟨⟨r₀, hr₀, _, hhash⟩, _⟩ := hpc
      obtain ⟨r', hr', hsame⟩ := hg.keyRow hr₀
      exact (habsurd r' hr' (hsame.requestHash_eq ▸ hhash)).elim
  | abort => exact heffect rfl
  | crash => exact heffect rfl

end Runs

end Key

/-- Whatever calls of `create` with one key and existing, distinct accounts race, with each other
and with anything else: one row is ever stored under the key; at most one call reports that it
created the row; a call that answers has the stored payload and answers with the id of the row, or
another payload and fails with `IDEMPOTENCY_KEY_REUSED`, and then none of its statements has
changed a table or the queue. -/
theorem submit_idempotent (deps : Dependencies) (customers : Table CustomerRow) (key : String)
    (c : State) (h : Reaches deps (existingAccounts key) (Db.seeded customers) c)
    (hinj : HashInjective deps key c.shared.log) :
    (∀ r r', c.shared.db.KeyRow key r → c.shared.db.KeyRow key r' → r = r') ∧
    c.shared.log.countP (Event.creates key) ≤ 1 ∧
    (∀ input result, .responded input result ∈ c.shared.log → input.idempotencyKey = key →
      ∃ r, c.shared.db.KeyRow key r ∧
        (input.SamePayload r → ∀ res, result = .ok res → res.transfer.id = r.id) ∧
        (¬ input.SamePayload r → result = .error TransferService.idempotencyKeyReused)) ∧
    (∀ c₁ c₂ i a input pc r, Reaches deps (existingAccounts key) (Db.seeded customers) c₁ →
      c₁.locals i = .createTransfer input pc → input.idempotencyKey = key →
      existingAccounts key c₁ i a → (system deps).move c₁ i a = some c₂ →
      (system deps).Run (existingAccounts key) c₂ c → c.shared.db.KeyRow key r →
      ¬ input.SamePayload r →
        c₂.shared.db = c₁.shared.db ∧ c₂.shared.queue = c₁.shared.queue) := by
  have hinv := (keyInv h).1
  refine ⟨fun r r' hr hr' => keyRow_unique hinv hr hr', hinv.created,
    fun input result he hkey => ?_,
    fun c₁ c₂ i a input pc r h₁ hp hkey hok hmove h' hr hdiffers =>
      differing_call_changes_nothing h₁ hp hkey hok hmove h' hinj hr hdiffers⟩
  obtain ⟨hcalled, hanswers⟩ := hinv.responses input result he hkey
  cases result with
  | ok result =>
    obtain ⟨r, hr, hid, hhash⟩ := hanswers
    refine ⟨r, hr, fun _ res hres => ?_, fun hdiffers => ?_⟩
    · obtain rfl := Except.ok.inj hres
      exact hid.symm
    · exact absurd ((requestHash_iff hinv hinj hcalled hkey hr).mp hhash) hdiffers
  | error err =>
    obtain ⟨r, hr, hcase⟩ := hanswers
    refine ⟨r, hr, fun _ res hres => by simp at hres, fun hdiffers => ?_⟩
    rcases hcase with ⟨rfl, _⟩ | hhash
    · rfl
    · exact absurd ((requestHash_iff hinv hinj hcalled hkey hr).mp hhash) hdiffers

section Submit

def submitFifty : CreateTransferInput := sampleInput "key"

def submitSixty : CreateTransferInput :=
  { submitFifty with amountCents := ⟨60, by decide, sixtyCents.safe⟩ }

/-- The SHA-256 digests of the two payloads. -/
def submitDigest (text : String) : String :=
  if text = "[\"00000000-0000-0000-0000-000000000001\"," ++
      "\"00000000-0000-0000-0000-000000000002\",50]" then
    "c84a8386ba317fe97ddd8dfdadb905704dc6fa0b86d74dbf82a94eea3147f945"
  else if text = "[\"00000000-0000-0000-0000-000000000001\"," ++
      "\"00000000-0000-0000-0000-000000000002\",60]" then
    "2547ac0850debcfb11c9e015ada839a666363032f5c401522b5f5eecbb3b4aa4"
  else ""

def submitDeps : Dependencies := { sampleDeps with sha256 := submitDigest }

/-- Two accounts, then three calls with one key, the last of which has another payload. -/
def submitScript : List (Pid × Label) :=
  let next (i : Pid) : Pid × Label := (i, .next (chosen 3))
  openAccounts ++
  [(0, .start (.createTransfer submitFifty)), (1, .start (.createTransfer submitFifty)),
    (2, .start (.createTransfer submitSixty)), next 0, next 1, next 2, next 0, next 0, next 0,
    next 0, next 1, next 2, next 0, next 1, next 1, next 2]

/-- The first call creates the row, the second replays it and the third is refused. -/
theorem submit_idempotent_raced : ∃ c : State,
    (c.shared.db.transfers.rows.filter fun r => r.idempotencyKey = some "key").length = 1 ∧
    c.shared.log.countP (Event.creates "key") = 1 ∧
    .responded submitSixty (.error TransferService.idempotencyKeyReused) ∈ c.shared.log ∧
    ∀ input result, .responded input result ∈ c.shared.log → input.idempotencyKey = "key" →
      ∃ r, c.shared.db.KeyRow "key" r ∧
        (input.SamePayload r → ∀ res, result = .ok res → res.transfer.id = r.id) ∧
        (¬ input.SamePayload r → result = .error TransferService.idempotencyKeyReused) := by
  let known (e : Event) : Bool :=
    match e with
    | .called input => input = submitFifty || input = submitSixty
    | _ => true
  have hrun : ((system submitDeps).moves (existingAccounts "key")
      (State.init (Db.seeded sampleCustomers)) submitScript).map (fun c =>
        ((c.shared.db.transfers.rows.filter fun r => r.idempotencyKey = some "key").length,
          c.shared.log.countP (Event.creates "key"), c.shared.log.all known,
          decide (.responded submitSixty (.error TransferService.idempotencyKeyReused) ∈
            c.shared.log))) = some (1, 1, true, true) := by decide
  obtain ⟨c, hc, hfacts⟩ := Option.map_eq_some_iff.mp hrun
  simp only [Prod.mk.injEq, decide_eq_true_eq] at hfacts
  obtain ⟨hrows, hcreated, hknown, hreused⟩ := hfacts
  have hcalled : ∀ input, .called input ∈ c.shared.log →
      input = submitFifty ∨ input = submitSixty := by
    intro input hinput
    simpa [known] using List.all_eq_true.mp hknown _ hinput
  have hinj : HashInjective submitDeps "key" c.shared.log := by
    intro input input' hinput hinput' _ _ hhash
    rcases hcalled input hinput with rfl | rfl <;> rcases hcalled input' hinput' with rfl | rfl
    · rfl
    · exact absurd hhash (by decide)
    · exact absurd hhash (by decide)
    · rfl
  exact ⟨c, hrows, hcreated, hreused,
    (submit_idempotent submitDeps _ "key" c (.of_moves .refl hc) hinj).2.2.1⟩

end Submit

end BankPlatform.Bank
