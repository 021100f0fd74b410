import BankPlatform.Library.Session
import BankPlatform.Bank.Idempotency

/-!
# Spellings of account ids

`idSchema` accepts upper-case digits, and Postgres reads an id by its value and returns it in lower
case. `TransferService.create` compares the texts of the ids with each other and with the ones that
the database returns, so an account that is not spelled as the database spells it is not found.

## Main definitions

* `SpelledId` — an id as a client spells it.
* `TransferService.create` — a call that runs alone, on the texts of the ids.
* `SameOutcome` — two calls that end alike.

## Main results

* `create_spelling_iff` — when a call ends as with the canonical spellings.
-/

namespace BankPlatform.Bank

open Library

/-! ## Spellings -/

/-- An id that `idSchema` accepts: its text, in any letter case, and the value that Postgres reads. -/
structure SpelledId where
  text : String
  id : Uuid
  spells : text.toList.map Char.toLower = id.chars

theorem toLower_hexDigit : ∀ n < 16, (Uuid.hexDigit n).toLower = Uuid.hexDigit n := by
  decide

theorem toLower_hexDigits (count n : ℕ) :
    (Uuid.hexDigits count n).map Char.toLower = Uuid.hexDigits count n := by
  induction count generalizing n with
  | zero => rfl
  | succ count ih =>
    rw [Uuid.hexDigits, List.map_append, ih, List.map_singleton,
      toLower_hexDigit _ (Nat.mod_lt _ (by omega))]

theorem toLower_chars (u : Uuid) : u.chars.map Char.toLower = u.chars := by
  have hdash : '-'.toLower = '-' := by decide
  simp only [Uuid.chars, List.map_append, List.map_cons, List.map_take, List.map_drop,
    toLower_hexDigits, hdash]

theorem text_injective {u v : Uuid} (h : u.text = v.text) : u = v := by
  refine Uuid.chars_injective ?_
  rw [← toList_text, h, toList_text]

namespace SpelledId

/-- The spelling that the database returns. -/
def ofId (u : Uuid) : SpelledId := ⟨u.text, u, by rw [toList_text, toLower_chars]⟩

def canonical (x : SpelledId) : SpelledId := ofId x.id

/-- The id is spelled as the database spells it. -/
def IsCanonical (x : SpelledId) : Prop := x.text = x.id.text

instance (x : SpelledId) : Decidable x.IsCanonical := inferInstanceAs (Decidable (_ = _))

theorem canonical_text (x : SpelledId) : x.canonical.text = x.id.text := by
  rw [canonical, ofId]

theorem canonical_id (x : SpelledId) : x.canonical.id = x.id := by
  rw [canonical, ofId]

theorem isCanonical_canonical (x : SpelledId) : x.canonical.IsCanonical := by
  rw [IsCanonical, canonical_text, canonical_id]

theorem canonical_eq_self {x : SpelledId} (h : x.IsCanonical) : x.canonical = x := by
  obtain ⟨text, id, spells⟩ := x
  obtain rfl : text = id.text := h
  rfl

/-- A text denotes one value. -/
theorem id_eq_of_text {x y : SpelledId} (h : x.text = y.text) : x.id = y.id := by
  refine Uuid.chars_injective ?_
  rw [← x.spells, h, y.spells]

/-- A text that the database returned is the canonical spelling of what it denotes. -/
theorem eq_of_text {x : SpelledId} {u : Uuid} (h : u.text = x.text) : x.id = u :=
  id_eq_of_text (y := ofId u) h.symm

end SpelledId

/-- The arguments of `TransferService.create` as a client spells them. -/
structure SpelledInput where
  idempotencyKey : String
  fromAccountId : SpelledId
  toAccountId : SpelledId
  amountCents : PositiveCents

namespace SpelledInput

/-- The same call with the spellings of the database. -/
def canonical (input : SpelledInput) : SpelledInput :=
  { input with
    fromAccountId := input.fromAccountId.canonical
    toAccountId := input.toAccountId.canonical }

theorem canonical_fromAccountId (input : SpelledInput) :
    input.canonical.fromAccountId = input.fromAccountId.canonical := by
  rw [canonical]

theorem canonical_toAccountId (input : SpelledInput) :
    input.canonical.toAccountId = input.toAccountId.canonical := by
  rw [canonical]

/-- The canonical texts are the same exactly if the ids are. -/
theorem canonical_text_eq_iff (input : SpelledInput) :
    input.canonical.fromAccountId.text = input.canonical.toAccountId.text ↔
      input.fromAccountId.id = input.toAccountId.id := by
  rw [canonical_fromAccountId, canonical_toAccountId, SpelledId.canonical_text,
    SpelledId.canonical_text]
  exact ⟨text_injective, fun h => by rw [h]⟩

theorem canonical_eq_self (input : SpelledInput)
    (h : input.fromAccountId.IsCanonical ∧ input.toAccountId.IsCanonical) :
    input.canonical = input := by
  rw [canonical, SpelledId.canonical_eq_self h.1, SpelledId.canonical_eq_self h.2]

/-- The ids that the texts denote. -/
def denotes (input : SpelledInput) : CreateTransferInput :=
  ⟨input.idempotencyKey, input.fromAccountId.id, input.toAccountId.id, input.amountCents⟩

end SpelledInput

/-! ## `TransferService.create` -/

/-- What `TransferService` works on. -/
structure Store where
  db : Db
  queue : Queue

inductive SubmitStatement where
  | selectAccounts
  | insertTransfer
  | enqueueTransfer
  | selectTransfer
  deriving DecidableEq, Repr

abbrev Submission := Session Store SubmitStatement Thrown CreateTransferResult

namespace TransferService

def hashSpelled (deps : Dependencies) (input : SpelledInput) : String :=
  deps.sha256 ("[\"" ++ input.fromAccountId.text ++ "\",\"" ++ input.toAccountId.text ++ "\"," ++
    toString input.amountCents.cents ++ "]")

/-- The row that the insert writes: the ids by their values, the hash over their texts. -/
def spelledRow (deps : Dependencies) (input : SpelledInput) (c : Choice)
    (h : input.fromAccountId.id ≠ input.toAccountId.id) : TransferRow :=
  { pendingRow deps input.denotes c h with requestHash := some (hashSpelled deps input) }

def enqueueTransfer (deps : Dependencies) (row : TransferRow) (idempotencyKey : String)
    (created : Bool) : Submission :=
  if deps.customIdRejected idempotencyKey then
    Session.throw (.error (deps.customIdMessage idempotencyKey))
  else
    Session.statement .enqueueTransfer
      (fun s => { s with queue := s.queue.add idempotencyKey row.id }) fun _ => pure ⟨row, created⟩

def replay (deps : Dependencies) (idempotencyKey requestHash : String) : Submission := do
  match ← Session.query .selectTransfer fun s => s.db.transferByKey idempotencyKey with
  | none =>
    Session.throw (.error ("Transfer with idempotency key " ++ idempotencyKey ++ " not found"))
  | some row =>
    if row.requestHash ≠ some requestHash then Session.throw idempotencyKeyReused
    else if row.status = .pending then enqueueTransfer deps row idempotencyKey false
    else pure ⟨row, false⟩

/-- The ids of the accounts that the select of `assertAccountsExist` finds, as it returns them. -/
def foundIds (input : SpelledInput) (db : Db) : List String :=
  (db.accounts.rows.filter fun r =>
    r.id = input.fromAccountId.id || r.id = input.toAccountId.id).map fun r => r.id.text

def spelledAccountMissing (label : String) (accountId : SpelledId) : Thrown :=
  .app ⟨.NotFoundError, .ACCOUNT_NOT_FOUND,
    label ++ " account " ++ accountId.text ++ " does not exist", [("accountId", accountId.text)]⟩

def assertFound (input : SpelledInput) (found : List String) : Except Thrown Unit :=
  if !found.contains input.fromAccountId.text then
    .error (spelledAccountMissing "Source" input.fromAccountId)
  else if !found.contains input.toAccountId.text then
    .error (spelledAccountMissing "Destination" input.toAccountId)
  else .ok ()

/-- The insert of the pending row and what follows; a violated unique index leads to the stored
transfer. -/
def insertPending (deps : Dependencies) (input : SpelledInput) (c : Choice) : Submission :=
  if h : input.fromAccountId.id ≠ input.toAccountId.id then do
    let row := spelledRow deps input c h
    let inserted ← Session.statement .insertTransfer
      (fun s => match s.db.write (.insertTransfer row) with
        | some db => { s with db }
        | none => s)
      fun s => pure (s.db.write (.insertTransfer row)).isSome
    if inserted then enqueueTransfer deps row input.idempotencyKey true
    else replay deps input.idempotencyKey (hashSpelled deps input)
  else Session.throw (.error "transfers_distinct_accounts")

def create (deps : Dependencies) (input : SpelledInput) (c : Choice) : Submission :=
  if input.fromAccountId.text = input.toAccountId.text then Session.throw sameAccount
  else do
    match assertFound input (← Session.query .selectAccounts fun s => foundIds input s.db) with
    | .error err => Session.throw err
    | .ok () => insertPending deps input c

end TransferService

/-! ## Outcomes -/

/-- What a client tells errors apart by. -/
def Thrown.code? : Thrown → Option ErrorCode
  | .app err => some err.code
  | .error _ => none

/-- Two calls from one state return the same, or throw errors with one code, and leave the same
behind. -/
def SameOutcome (p q : Submission) (s : Store) : Prop :=
  (∃ result s', Session.Does p s result s' ∧ Session.Does q s result s') ∨
    ∃ e e' s', Session.Throws p s e s' ∧ Session.Throws q s e' s' ∧ e.code? = e'.code?

open TransferService

theorem sameOutcome_refl (p : Submission) (s : Store) : SameOutcome p p s := by
  rcases p.does_or_throws s with ⟨result, s', h⟩ | ⟨e, s', h⟩
  · exact .inl ⟨result, s', h, h⟩
  · exact .inr ⟨e, e, s', h, h, rfl⟩

theorem not_sameOutcome {p q : Submission} {s s' : Store} {err : Thrown}
    (hp : Session.Throws p s err s')
    (hq : ∀ err' s'', Session.Throws q s err' s'' → err'.code? ≠ err.code?) :
    ¬ SameOutcome p q s := by
  rintro (⟨result, t, hdoes, _⟩ | ⟨e, e', t, hthrows, hthrows', hcode⟩)
  · exact hdoes.not_throws hp
  · obtain ⟨rfl, _⟩ := hp.unique hthrows
    exact hq _ _ hthrows' hcode.symm

/-- An account is found exactly if it exists and is spelled as the database spells it. -/
theorem contains_foundIds {input : SpelledInput} {db : Db} {x : SpelledId}
    (hx : x.id = input.fromAccountId.id ∨ x.id = input.toAccountId.id) :
    (foundIds input db).contains x.text = true ↔
      x.IsCanonical ∧ (db.accounts.find? x.id).isSome = true := by
  rw [List.contains_iff_mem, foundIds, List.mem_map]
  constructor
  · rintro ⟨r, hr, htext⟩
    have hid : x.id = r.id := SpelledId.eq_of_text htext
    refine ⟨by rw [SpelledId.IsCanonical, hid, htext], ?_⟩
    rw [hid, Option.isSome_iff_exists]
    exact ⟨r, Table.find?_key (List.mem_of_mem_filter hr)⟩
  · rintro ⟨hcanonical, hsome⟩
    obtain ⟨r, hr⟩ := Option.isSome_iff_exists.mp hsome
    have hid : r.id = x.id := Table.key_of_find? hr
    refine ⟨r, List.mem_filter.mpr ⟨Table.mem_of_find? hr, ?_⟩, by rw [hid, hcanonical]⟩
    simpa [hid] using hx

/-- Both accounts are found. -/
def SpelledInput.Found (input : SpelledInput) (db : Db) : Prop :=
  (input.fromAccountId.IsCanonical ∧ (db.accounts.find? input.fromAccountId.id).isSome = true) ∧
    input.toAccountId.IsCanonical ∧ (db.accounts.find? input.toAccountId.id).isSome = true

instance (input : SpelledInput) (db : Db) : Decidable (input.Found db) :=
  inferInstanceAs (Decidable (_ ∧ _))

theorem SpelledInput.canonical_found_iff {input : SpelledInput} {db : Db} :
    input.canonical.Found db ↔ (db.accounts.find? input.fromAccountId.id).isSome = true ∧
      (db.accounts.find? input.toAccountId.id).isSome = true := by
  rw [Found, canonical_fromAccountId, canonical_toAccountId, SpelledId.canonical_id,
    SpelledId.canonical_id]
  exact and_congr (and_iff_right (SpelledId.isCanonical_canonical _))
    (and_iff_right (SpelledId.isCanonical_canonical _))

theorem assertFound_eq {input : SpelledInput} {db : Db} :
    (input.Found db → assertFound input (foundIds input db) = .ok ()) ∧
      (¬ input.Found db → ∃ err, assertFound input (foundIds input db) = .error err ∧
        err.code? = some .ACCOUNT_NOT_FOUND) := by
  have hfrom := (contains_foundIds (.inl rfl) : (foundIds input db).contains
    input.fromAccountId.text = true ↔ _)
  have hto := (contains_foundIds (.inr rfl) : (foundIds input db).contains
    input.toAccountId.text = true ↔ _)
  unfold assertFound
  constructor
  · intro hfound
    rw [hfrom.mpr hfound.1, hto.mpr hfound.2]
    rfl
  · intro hfound
    cases hf : (foundIds input db).contains input.fromAccountId.text with
    | false => exact ⟨_, rfl, rfl⟩
    | true =>
      cases ht : (foundIds input db).contains input.toAccountId.text with
      | false => exact ⟨_, rfl, rfl⟩
      | true => exact (hfound ⟨hfrom.mp hf, hto.mp ht⟩).elim

/-- With canonical spellings the hash is the one of the ids. -/
theorem hashSpelled_of_canonical {input : SpelledInput} (deps : Dependencies)
    (h : input.fromAccountId.IsCanonical ∧ input.toAccountId.IsCanonical) :
    hashSpelled deps input = hashRequest deps input.denotes := by
  rw [hashSpelled, h.1, h.2]
  rfl

/-- With canonical spellings the accounts are looked for by their ids. -/
theorem assertFound_of_canonical {input : SpelledInput} (db : Db)
    (h : input.fromAccountId.IsCanonical ∧ input.toAccountId.IsCanonical) :
    assertFound input (foundIds input db) = assertAccountsExist db input.denotes := by
  have hfrom := (contains_foundIds (.inl rfl) : (foundIds input db).contains
    input.fromAccountId.text = true ↔ _)
  have hto := (contains_foundIds (.inr rfl) : (foundIds input db).contains
    input.toAccountId.text = true ↔ _)
  rw [and_iff_right h.1] at hfrom
  rw [and_iff_right h.2] at hto
  unfold assertFound assertAccountsExist spelledAccountMissing accountMissing
  rw [Bool.eq_iff_iff.mpr hfrom, Bool.eq_iff_iff.mpr hto, h.1, h.2, Option.not_isSome,
    Option.not_isSome]
  rfl

section Create

variable (deps : Dependencies) (input : SpelledInput) (c : Choice) (s : Store)

theorem throws_sameAccount (h : input.fromAccountId.text = input.toAccountId.text) :
    Session.Throws (create deps input c) s sameAccount s := by
  rw [create, if_pos h]
  rfl

theorem throws_notFound (h : input.fromAccountId.text ≠ input.toAccountId.text)
    (hfound : ¬ input.Found s.db) : ∃ err, Session.Throws (create deps input c) s err s ∧
      err.code? = some .ACCOUNT_NOT_FOUND := by
  obtain ⟨err, herr, hcode⟩ := assertFound_eq.2 hfound
  refine ⟨err, ?_, hcode⟩
  rw [create, if_neg h]
  refine Session.throws_bind.mpr (.inr ⟨foundIds input s.db, s, Session.does_query _ _ _, ?_⟩)
  rw [herr]
  rfl

theorem throws_found {err : Thrown} {s' : Store}
    (h : input.fromAccountId.text ≠ input.toAccountId.text) (hfound : input.Found s.db)
    (hthrows : Session.Throws (create deps input c) s err s') :
    Session.Throws (insertPending deps input c) s err s' := by
  rw [create, if_neg h] at hthrows
  rcases Session.throws_bind.mp hthrows with hquery | ⟨found, t, hquery, hrest⟩
  · exact ((Session.does_query _ _ _).not_throws hquery).elim
  · obtain ⟨rfl, rfl⟩ := (Session.does_query _ _ _).unique hquery
    rw [assertFound_eq.1 hfound] at hrest
    exact hrest

end Create

theorem code_of_throws_enqueue {deps : Dependencies} {row : TransferRow} {idempotencyKey : String}
    {created : Bool} {s s' : Store} {err : Thrown}
    (h : Session.Throws (enqueueTransfer deps row idempotencyKey created) s err s') :
    err.code? = none := by
  unfold enqueueTransfer at h
  split at h
  · obtain ⟨rfl, _⟩ := Session.throws_throw.mp h
    rfl
  · cases h

theorem code_of_throws_replay {deps : Dependencies} {idempotencyKey requestHash : String}
    {s s' : Store} {err : Thrown}
    (h : Session.Throws (replay deps idempotencyKey requestHash) s err s') :
    err.code? = none ∨ err.code? = some .IDEMPOTENCY_KEY_REUSED := by
  rcases Session.throws_bind.mp h with hquery | ⟨found, t, _, h⟩
  · exact ((Session.does_query _ _ _).not_throws hquery).elim
  · cases found with
    | none =>
      obtain ⟨rfl, _⟩ := Session.throws_throw.mp h
      exact .inl rfl
    | some row =>
      dsimp only at h
      split at h
      · obtain ⟨rfl, _⟩ := Session.throws_throw.mp h
        exact .inr rfl
      · split at h
        · exact .inl (code_of_throws_enqueue h)
        · exact (Session.not_throws_pure h).elim

/-- Once the accounts are found, no error is about them. -/
theorem code_of_throws_insert {deps : Dependencies} {input : SpelledInput} {c : Choice}
    {s s' : Store} {err : Thrown} (h : Session.Throws (insertPending deps input c) s err s') :
    err.code? = none ∨ err.code? = some .IDEMPOTENCY_KEY_REUSED := by
  unfold insertPending at h
  split at h
  · rcases Session.throws_bind.mp h with hinsert | ⟨inserted, t, _, h⟩
    · cases hinsert
    · cases inserted with
      | true => exact .inl (code_of_throws_enqueue h)
      | false => exact code_of_throws_replay h
  · obtain ⟨rfl, _⟩ := Session.throws_throw.mp h
    exact .inl rfl

/-! ## The outcome and the spelling -/

/-- A call ends as the one with the canonical spellings exactly if its two texts are the same, or
both are canonical, or the ids differ and one of the accounts does not exist. -/
theorem create_spelling_iff (deps : Dependencies) (input : SpelledInput) (c : Choice)
    (s : Store) :
    SameOutcome (create deps input c) (create deps input.canonical c) s ↔
      input.fromAccountId.text = input.toAccountId.text ∨
      (input.fromAccountId.IsCanonical ∧ input.toAccountId.IsCanonical) ∨
      (input.fromAccountId.id ≠ input.toAccountId.id ∧
        (s.db.accounts.find? input.fromAccountId.id = none ∨
          s.db.accounts.find? input.toAccountId.id = none)) := by
  by_cases htexts : input.fromAccountId.text = input.toAccountId.text
  · have hcanonical := input.canonical_text_eq_iff.mpr (SpelledId.id_eq_of_text htexts)
    refine iff_of_true (.inr ⟨_, _, s, throws_sameAccount deps input c s htexts,
      throws_sameAccount deps input.canonical c s hcanonical, rfl⟩) (.inl htexts)
  by_cases hcanonical : input.fromAccountId.IsCanonical ∧ input.toAccountId.IsCanonical
  · rw [input.canonical_eq_self hcanonical]
    exact iff_of_true (sameOutcome_refl _ s) (.inr (.inl hcanonical))
  obtain ⟨err, hthrows, hcode⟩ := throws_notFound deps input c s htexts
    fun hfound => hcanonical ⟨hfound.1.1, hfound.2.1⟩
  by_cases hids : input.fromAccountId.id = input.toAccountId.id
  · -- The same account in two spellings is not noticed, and not found.
    have hsame := input.canonical_text_eq_iff.mpr hids
    refine iff_of_false (not_sameOutcome hthrows fun err' s' hthrows' => ?_) ?_
    · obtain ⟨rfl, _⟩ := (throws_sameAccount deps input.canonical c s hsame).unique hthrows'
      rw [hcode]
      simp [sameAccount, Thrown.code?]
    · simp [htexts, hcanonical, hids]
  have hdiffer := input.canonical_text_eq_iff.not.mpr hids
  by_cases hexist : (s.db.accounts.find? input.fromAccountId.id).isSome = true ∧
      (s.db.accounts.find? input.toAccountId.id).isSome = true
  · -- Both accounts exist, and one of them is not found.
    have hfound := SpelledInput.canonical_found_iff.mpr hexist
    refine iff_of_false (not_sameOutcome hthrows fun err' s' hthrows' => ?_) ?_
    · rw [hcode]
      rcases code_of_throws_insert (throws_found deps _ c s hdiffer hfound hthrows') with h | h <;>
        simp [h]
    · simp only [htexts, hcanonical, false_or, not_and, not_or]
      exact fun _ => ⟨Option.ne_none_iff_isSome.mpr hexist.1,
        Option.ne_none_iff_isSome.mpr hexist.2⟩
  · obtain ⟨err', hthrows', hcode'⟩ := throws_notFound deps input.canonical c s hdiffer
      (SpelledInput.canonical_found_iff.not.mpr hexist)
    refine iff_of_true (.inr ⟨err, err', s, hthrows, hthrows', hcode.trans hcode'.symm⟩) ?_
    rw [not_and_or, Option.not_isSome_iff_eq_none, Option.not_isSome_iff_eq_none] at hexist
    exact .inr (.inr ⟨hids, hexist⟩)

/-- An account id whose spelling has a letter. -/
def letterId : Uuid := ⟨0x0000000a000040008000000000000001⟩

/-- The same id as a client may spell it. -/
def upperCaseId : SpelledId := ⟨"0000000A-0000-4000-8000-000000000001", letterId, by decide⟩

def digitId : Uuid := ⟨0x00000002000040008000000000000002⟩

def upperCaseInput : SpelledInput := ⟨"key", upperCaseId, .ofId digitId, fiftyCents⟩

/-- Both accounts exist. -/
def spellingStore : Store :=
  ⟨{ Db.seeded sampleCustomers with
    accounts := ⟨[⟨letterId, ⟨9⟩, 60⟩, ⟨digitId, ⟨9⟩, 0⟩], by decide⟩ }, .empty⟩

theorem not_isCanonical_upperCaseId : ¬ upperCaseId.IsCanonical := by
  intro h
  have hlist := congrArg String.toList h
  rw [toList_text] at hlist
  exact absurd hlist (by decide)

/-- An account that exists is not found because its id is spelled in upper case. -/
theorem spelling_hides_account : ¬ ∀ (deps : Dependencies) (input : SpelledInput) (c : Choice)
    (s : Store), SameOutcome (create deps input c) (create deps input.canonical c) s := by
  intro hclaim
  have htexts : upperCaseInput.fromAccountId.text ≠ upperCaseInput.toAccountId.text := by
    intro h
    have hids : letterId = digitId := SpelledId.id_eq_of_text h
    exact absurd hids (by decide)
  have hdiffer : upperCaseInput.canonical.fromAccountId.text ≠
      upperCaseInput.canonical.toAccountId.text :=
    upperCaseInput.canonical_text_eq_iff.not.mpr (by decide)
  have hfound : upperCaseInput.canonical.Found spellingStore.db :=
    SpelledInput.canonical_found_iff.mpr (by decide)
  obtain ⟨err, hthrows, hcode⟩ := throws_notFound sampleDeps upperCaseInput (chosen 3) spellingStore
    htexts fun hfound => not_isCanonical_upperCaseId hfound.1.1
  refine not_sameOutcome hthrows (fun err' s' hthrows' => ?_)
    (hclaim sampleDeps upperCaseInput (chosen 3) spellingStore)
  rw [hcode]
  rcases code_of_throws_insert (throws_found sampleDeps _ _ _ hdiffer hfound hthrows') with h | h <;>
    simp [h]

end BankPlatform.Bank
