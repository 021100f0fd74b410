import BankPlatform.Library.Transaction
import BankPlatform.Bank.System

/-!
# A transfer that is executed alone

`TransferExecutor.execute` as one program: what a call returns or throws and what it leaves in the
database, also when one of its statements fails. The calls of the interleaved system are made of the
same statements.

## Main definitions

* `TransferExecutor.execute` — the call, with its transaction and the update behind it.
* `Settles`, `Moves` — what a rejected and a completed transfer change.
* `ExecutedAlone` — what a call does while nothing else runs.

## Main results

* `unchanged_of_fails`, `unchanged_of_throws` — the transaction is all or nothing.
* `execute_spec` — a pending transfer between two accounts is executed alone.
-/

namespace BankPlatform.Bank

open Library

/-! ## The call -/

/-- The statements of a call of `execute`. -/
inductive ExecuteStatement where
  | begin
  | selectAccount
  | selectLocks
  | debit
  | credit
  | complete
  | commit
  | rollback
  | markFailed
  deriving DecidableEq, Repr

/-- `err instanceof UnprocessableError`. -/
def Thrown.unprocessable? : Thrown → Option AppError
  | .app err => if err.cls = .UnprocessableError then some err else none
  | .error _ => none

/-- `UPDATE accounts SET balance_cents = balance_cents + ...`: the balance stays in the range of the
column and passes `accounts_balance_non_negative`. -/
def Db.addToBalance (db : Db) (accountId : Uuid) (cents : ℤ) : Except Thrown Db :=
  match db.accounts.find? accountId with
  | none => .ok db
  | some row =>
    if maxBigint < row.balanceCents + cents then .error (.error "bigint out of range")
    else if row.balanceCents + cents < 0 then .error (.error "accounts_balance_non_negative")
    else .ok { db with accounts := db.accounts.put (row.add cents) }

namespace TransferExecutor

/-- `SELECT ... FOR UPDATE` of one account. -/
def selectAccount (rowById : List (Uuid × ℤ)) (accountId : Uuid) :
    Session Db ExecuteStatement Thrown (List (Uuid × ℤ)) := do
  match ← Session.query .selectAccount fun db => db.accounts.find? accountId with
  | none => Session.throw (.app (accountNotFound accountId))
  | some row => pure (rowById ++ [(row.id, row.balanceNumber)])

/-- The update of the transfer row that completes it. -/
def complete (transfer : TransferRow) (now : Date) :
    Session Db ExecuteStatement Thrown TransferRow :=
  Session.statement .complete
    (fun db => { db with
      transfers := db.transfers.update transfer.id fun row => row.complete now })
    fun db =>
      match db.transfers.find? transfer.id with
      | none =>
        Session.throw (.error ("Transfer row " ++ transfer.id.text ++
          " disappeared mid-transaction"))
      | some row => pure (row.complete now)

/-- The callback of `db.transaction`. -/
def move (transfer : TransferRow) (fromAccountId : Uuid) (now : Date) :
    Session Db ExecuteStatement Thrown TransferRow := do
  let order := lockOrder fromAccountId transfer.toAccountId
  let rowById ← [order.1, order.2].foldlM selectAccount []
  match ← Session.query .selectLocks fun db => verdict db transfer fromAccountId rowById with
  | some err => Session.throw (.app err)
  | none =>
    Session.execute .debit fun db => db.addToBalance fromAccountId (-transfer.amountCents.cents)
    Session.execute .credit fun db =>
      db.addToBalance transfer.toAccountId transfer.amountCents.cents
    complete transfer now

/-- The update behind a rejection; any other error is only passed on. -/
def markFailed (transferId : Uuid) (thrown : Thrown) (now : Date) :
    Session Db ExecuteStatement Thrown Unit :=
  match thrown.unprocessable? with
  | some err =>
    Session.statement .markFailed
      (fun db => { db with
        transfers := db.transfers.update transferId fun row => row.fail err.code now })
      fun _ => pure ()
  | none => pure ()

def execute (transfer : TransferRow) (now : Date) :
    Session (Tx Db) ExecuteStatement Thrown TransferRow :=
  match transfer.fromAccountId with
  | none =>
    Session.throw (.error ("Transfer " ++ transfer.id.text ++
      " has no source account; deposits are not queued"))
  | some fromAccountId => do
    match ← (Session.transaction .begin .commit .rollback
      (move transfer fromAccountId now)).attempt with
    | .ok completed => pure completed
    | .error thrown => do
      (markFailed transfer.id thrown now).outside
      Session.throw thrown

end TransferExecutor

/-! ## All or nothing -/

open TransferExecutor

/-- What a call does without a failure. -/
theorem does_execute {transfer row : TransferRow} {fromAccountId : Uuid} {now : Date} {db : Db}
    {s' : Tx Db} (hfrom : transfer.fromAccountId = some fromAccountId) :
    Session.Does (execute transfer now) (.idle db) row s' ↔
      ∃ db', Session.Does (move transfer fromAccountId now) db row db' ∧ s' = .idle db' := by
  unfold execute
  rw [hfrom]
  constructor
  · intro h
    obtain ⟨r, t, h, hrest⟩ := Session.does_bind.mp h
    cases r with
    | ok completed =>
      obtain ⟨db', hmove, rfl⟩ := Session.does_transaction.mp (Session.does_attempt_ok.mp h)
      cases hrest
      exact ⟨db', hmove, rfl⟩
    | error thrown =>
      obtain ⟨_, _, _, hthrow⟩ := Session.does_bind.mp hrest
      exact (Session.not_does_throw hthrow).elim
  · rintro ⟨db', hmove, rfl⟩
    exact (Session.does_attempt_ok.mpr (Session.does_transaction.mpr ⟨db', hmove, rfl⟩)).bind rfl

theorem does_markFailed (transferId : Uuid) (thrown : Thrown) (now : Date) (db : Db) :
    Session.Does (markFailed transferId thrown now) db ()
      (match thrown.unprocessable? with
        | some err => { db with
            transfers := db.transfers.update transferId fun row => row.fail err.code now }
        | none => db) := by
  unfold markFailed
  cases thrown.unprocessable? <;> rfl

theorem label_of_fails_markFailed {transferId : Uuid} {thrown : Thrown} {now : Date} {s s' : Tx Db}
    {label : ExecuteStatement} {landed : Bool}
    (h : Session.Fails (markFailed transferId thrown now).outside s label landed s') :
    label = .markFailed := by
  unfold markFailed at h
  obtain ⟨n, h⟩ := h
  cases hthrown : thrown.unprocessable? with
  | none =>
    rw [hthrown] at h
    cases h
  | some err =>
    rw [hthrown] at h
    cases n with
    | zero =>
      cases h
      rfl
    | succ n => cases h

/-- What a call throws without a failure, and what it leaves behind then. -/
theorem throws_execute {transfer : TransferRow} {fromAccountId : Uuid} {now : Date} {db : Db}
    {thrown : Thrown} {s' : Tx Db} (hfrom : transfer.fromAccountId = some fromAccountId) :
    Session.Throws (execute transfer now) (.idle db) thrown s' ↔
      (∃ db', Session.Throws (move transfer fromAccountId now) db thrown db') ∧
        s' = .idle (match thrown.unprocessable? with
          | some err => { db with
              transfers := db.transfers.update transfer.id fun row => row.fail err.code now }
          | none => db) := by
  unfold execute
  rw [hfrom]
  have hmark := fun thrown => Session.does_outside.mpr
    ⟨_, does_markFailed transfer.id thrown now db, rfl⟩
  constructor
  · intro h
    rcases Session.throws_bind.mp h with h | ⟨r, t, h, hrest⟩
    · exact (Session.not_throws_attempt h).elim
    cases r with
    | ok completed => exact (Session.not_throws_pure hrest).elim
    | error thrown' =>
      obtain ⟨hmove, rfl⟩ := Session.throws_transaction.mp (Session.does_attempt_error.mp h)
      rcases Session.throws_bind.mp hrest with hthrow | ⟨_, t, hdone, hthrow⟩
      · exact ((hmark thrown').not_throws hthrow).elim
      · obtain ⟨rfl, rfl⟩ := Session.throws_throw.mp hthrow
        exact ⟨hmove, ((hmark thrown).unique hdone).2⟩
  · rintro ⟨hmove, rfl⟩
    refine Session.throws_bind.mpr (.inr ⟨.error thrown, .idle db, ?_, ?_⟩)
    · exact Session.does_attempt_error.mpr (Session.throws_transaction.mpr ⟨hmove, rfl⟩)
    · exact Session.throws_bind.mpr (.inr ⟨(), _, hmark thrown, rfl⟩)

/-- A statement that fails before the transaction is through leaves the database alone. -/
theorem unchanged_of_fails {transfer : TransferRow} {now : Date} {db : Db}
    {label : ExecuteStatement} {landed : Bool} {s' : Tx Db}
    (h : Session.Fails (execute transfer now) (.idle db) label landed s')
    (hlabel : label ≠ .markFailed) (hcommit : label = .commit → landed = false) :
    s'.committed = db := by
  unfold execute at h
  split at h
  · exact (Session.not_fails_throw h).elim
  rcases Session.fails_bind.mp h with h | ⟨r, t, h, hrest⟩
  · rcases Session.fails_transaction (Session.fails_attempt.mp h) with h | ⟨heq, hlanded, _⟩
    · exact h
    · rw [hcommit heq] at hlanded
      cases hlanded
  cases r with
  | ok completed => exact (Session.not_fails_pure hrest).elim
  | error thrown =>
    obtain ⟨_, rfl⟩ := Session.throws_transaction.mp (Session.does_attempt_error.mp h)
    rcases Session.fails_bind.mp hrest with hmark | ⟨_, _, _, hthrow⟩
    · exact (hlabel (label_of_fails_markFailed hmark)).elim
    · exact (Session.not_fails_throw hthrow).elim

/-- An error that is not a rejection leaves the database alone. -/
theorem unchanged_of_throws {transfer : TransferRow} {now : Date} {db : Db} {thrown : Thrown}
    {s' : Tx Db} (h : Session.Throws (execute transfer now) (.idle db) thrown s')
    (hthrown : thrown.unprocessable? = none) : s'.committed = db := by
  cases hfrom : transfer.fromAccountId with
  | none =>
    unfold execute at h
    rw [hfrom] at h
    obtain ⟨_, rfl⟩ := Session.throws_throw.mp h
    rfl
  | some fromAccountId =>
    obtain ⟨_, rfl⟩ := (throws_execute hfrom).mp h
    rw [hthrown]
    rfl

/-! ## The verdict -/

/-- One of the accounts of a transfer has a lock that is not released. -/
def Db.blocks (db : Db) (transfer : TransferRow) : Prop :=
  ∃ l ∈ db.accountLocks.rows,
    (some l.accountId = transfer.fromAccountId ∨ l.accountId = transfer.toAccountId) ∧
      l.releasedAt = none

/-- The values of `accounts.balance_cents` that its type and its check allow. -/
def Db.BalancesFit (db : Db) : Prop :=
  ∀ r ∈ db.accounts.rows, 0 ≤ r.balanceCents ∧ r.balanceCents ≤ maxBigint

theorem activeLocks_eq_nil {db : Db} {transfer : TransferRow} {fromAccountId : Uuid}
    (hfrom : transfer.fromAccountId = some fromAccountId) :
    db.activeLocks fromAccountId transfer.toAccountId = [] ↔ ¬ db.blocks transfer := by
  simp only [Db.activeLocks, Db.blocks, List.filter_eq_nil_iff, hfrom, Bool.and_eq_true,
    Bool.or_eq_true, decide_eq_true_eq, Option.isNone_iff_eq_none, Option.some.injEq, not_exists,
    not_and]

theorem does_selectAccount {db : Db} {accountId : Uuid} {row : AccountRow}
    (hrow : db.accounts.find? accountId = some row) (rowById : List (Uuid × ℤ)) :
    Session.Does (selectAccount rowById accountId) db
      (rowById ++ [(row.id, row.balanceNumber)]) db := by
  refine (Session.does_query _ _ _).bind ?_
  rw [hrow]
  rfl

section Alone

variable {db : Db} {transfer : TransferRow} {source destination : AccountRow}
  (hfrom : transfer.fromAccountId = some source.id)
  (hsource : db.accounts.find? source.id = some source)
  (hdestination : db.accounts.find? transfer.toAccountId = some destination)

include hfrom hsource hdestination

/-- Both accounts are read, in the order in which they are locked. -/
theorem does_selectAccounts :
    ∃ rowById, rowById.lookup source.id = some source.balanceNumber ∧
      Session.Does ([(lockOrder source.id transfer.toAccountId).1,
        (lockOrder source.id transfer.toAccountId).2].foldlM selectAccount []) db rowById db := by
  have hboth : ∀ {first second : AccountRow},
      db.accounts.find? first.id = some first → db.accounts.find? second.id = some second →
      Session.Does ([first.id, second.id].foldlM selectAccount []) db
        [(first.id, first.balanceNumber), (second.id, second.balanceNumber)] db := by
    intro first second hfirst hsecond
    exact (does_selectAccount hfirst []).bind ((does_selectAccount hsecond _).bind rfl)
  have hid : destination.id = transfer.toAccountId := Table.key_of_find? hdestination
  rw [← hid] at hdestination ⊢
  unfold lockOrder
  split
  · exact ⟨_, by simp, hboth hsource hdestination⟩
  · refine ⟨_, ?_, hboth hdestination hsource⟩
    have hne : source.id ≠ destination.id := by
      intro heq
      exact transfer.distinct (by rw [hfrom, heq, hid])
    simp [List.lookup_cons, beq_false_of_ne hne]

/-- The checks behind the locks: the run throws what they say, or goes on to the updates. -/
theorem does_checks (now : Date) : ∃ rowById : List (Uuid × ℤ),
    (∀ err, verdict db transfer source.id rowById = some err →
      Session.Throws (move transfer source.id now) db (.app err) db) ∧
    (∀ debited credited, verdict db transfer source.id rowById = none →
      db.addToBalance source.id (-transfer.amountCents.cents) = .ok debited →
      debited.addToBalance transfer.toAccountId transfer.amountCents.cents = .ok credited →
      ∀ row, credited.transfers.find? transfer.id = some row →
        Session.Does (move transfer source.id now) db (row.complete now)
          { credited with
            transfers := credited.transfers.update transfer.id fun row => row.complete now }) ∧
    rowById.lookup source.id = some source.balanceNumber := by
  obtain ⟨rowById, hlookup, hselect⟩ := does_selectAccounts hfrom hsource hdestination
  refine ⟨rowById, fun err herr => ?_, fun debited credited hnone hdebit hcredit row hrow => ?_,
    hlookup⟩
  · refine Session.throws_bind.mpr (.inr ⟨rowById, db, hselect, ?_⟩)
    refine Session.throws_bind.mpr (.inr ⟨some err, db, ?_, rfl⟩)
    rw [← herr]
    exact Session.does_query _ _ _
  · refine hselect.bind ((Session.does_query _ _ _).bind ?_)
    rw [hnone]
    refine (Session.does_execute.mpr hdebit).bind ((Session.does_execute.mpr hcredit).bind ?_)
    unfold complete
    change (match credited.transfers.find? transfer.id with
      | none => Session.throw _
      | some row => pure (row.complete now) :
        Session Db ExecuteStatement Thrown TransferRow).run none _ = _
    rw [hrow]
    rfl

end Alone

theorem verdict_of_blocks {db : Db} {transfer : TransferRow} {fromAccountId : Uuid}
    (hfrom : transfer.fromAccountId = some fromAccountId) (hblocks : db.blocks transfer)
    (rowById : List (Uuid × ℤ)) : verdict db transfer fromAccountId rowById =
      some (transferFailureError .ACCOUNT_LOCKED transfer.id) :=
  if_pos fun hnil => (activeLocks_eq_nil hfrom).mp hnil hblocks

/-- The comparison of the numbers is the comparison of the balances. -/
theorem verdict_of_not_blocks {db : Db} {transfer : TransferRow} {source : AccountRow}
    (hfrom : transfer.fromAccountId = some source.id) (hblocks : ¬ db.blocks transfer)
    {rowById : List (Uuid × ℤ)} (hlookup : rowById.lookup source.id = some source.balanceNumber) :
    verdict db transfer source.id rowById =
      if source.balanceCents < transfer.amountCents.cents then
        some (transferFailureError .INSUFFICIENT_FUNDS transfer.id)
      else none := by
  unfold verdict
  rw [if_neg (not_not.mpr ((activeLocks_eq_nil hfrom).mpr hblocks)), hlookup]
  exact if_congr (JsNumber.ofInt_lt_iff transfer.amountCents.safe) rfl rfl

/-! ## What changes -/

/-- From `db` to `db'` the row of a transfer became `row`, and no other one changed. -/
structure Stores (row : TransferRow) (db db' : Db) : Prop where
  stored : db'.transfers.find? row.id = some row
  others : ∀ id, id ≠ row.id → db'.transfers.find? id = db.transfers.find? id

/-- A transfer was rejected: only its row changed. -/
structure Settles (row : TransferRow) (db db' : Db) : Prop where
  customers : db'.customers = db.customers
  accounts : db'.accounts = db.accounts
  transfers : Stores row db db'
  accountLocks : db'.accountLocks = db.accountLocks
  accountComments : db'.accountComments = db.accountComments

/-- A transfer was completed: besides its row the balances of its accounts changed. -/
structure Moves (row : TransferRow) (source destination : AccountRow) (db db' : Db) : Prop where
  customers : db'.customers = db.customers
  debited : db'.accounts.find? source.id =
    some { source with balanceCents := source.balanceCents - row.amountCents.cents }
  credited : db'.accounts.find? destination.id =
    some { destination with balanceCents := destination.balanceCents + row.amountCents.cents }
  others : ∀ id, id ≠ source.id → id ≠ destination.id →
    db'.accounts.find? id = db.accounts.find? id
  transfers : Stores row db db'
  accountLocks : db'.accountLocks = db.accountLocks
  accountComments : db'.accountComments = db.accountComments

theorem stores_update {db db' : Db} {transfer : TransferRow}
    (hstored : db.transfers.find? transfer.id = some transfer) {f : TransferRow → TransferRow}
    (hf : ∀ r, (f r).id = r.id) (hdb' : db'.transfers = db.transfers.update transfer.id f) :
    Stores (f transfer) db db' where
  stored := by rw [hdb', Table.find?_update hf, hf, if_pos rfl, hstored, Option.map_some]
  others id hid := by
    rw [hf] at hid
    rw [hdb', Table.find?_update hf, if_neg (Ne.symm hid)]

theorem Settles.mark {db : Db} {transfer : TransferRow}
    (hstored : db.transfers.find? transfer.id = some transfer) (reason : ErrorCode) (now : Date) :
    Settles (transfer.fail reason now) db { db with
      transfers := db.transfers.update transfer.id fun row => row.fail reason now } :=
  ⟨rfl, rfl, stores_update hstored (fun r => r.fail_id reason now) rfl, rfl, rfl⟩

theorem addToBalance_eq {db : Db} {row : AccountRow} (hrow : db.accounts.find? row.id = some row)
    {cents : ℤ} (hlow : 0 ≤ row.balanceCents + cents)
    (hhigh : row.balanceCents + cents ≤ maxBigint) :
    db.addToBalance row.id cents = .ok { db with accounts := db.accounts.put (row.add cents) } := by
  unfold Db.addToBalance
  rw [hrow]
  dsimp only
  rw [if_neg (not_lt.mpr hhigh), if_neg (not_lt.mpr hlow)]

/-- The balances behind the debit and the credit. -/
theorem find?_transferred {accounts : Table AccountRow} {source destination : AccountRow}
    (hsource : accounts.find? source.id = some source)
    (hdestination : accounts.find? destination.id = some destination)
    (hne : source.id ≠ destination.id) (cents : ℤ) (id : Uuid) :
    ((accounts.put (source.add (-cents))).put (destination.add cents)).find? id =
      if id = source.id then some { source with balanceCents := source.balanceCents - cents }
      else if id = destination.id then
        some { destination with balanceCents := destination.balanceCents + cents }
      else accounts.find? id := by
  have hdebit : (accounts.put (source.add (-cents))).find? id =
      if source.id = id then some (source.add (-cents)) else accounts.find? id := by
    rw [Table.find?_put]
    change (if source.id = id then _ else _) = _
    split
    · next heq => rw [← heq, hsource, Option.map_some]
    · rfl
  have hcredit : ((accounts.put (source.add (-cents))).put (destination.add cents)).find? id =
      if destination.id = id then some (destination.add cents)
      else (accounts.put (source.add (-cents))).find? id := by
    rw [Table.find?_put]
    change (if destination.id = id then _ else _) = _
    split
    · next heq =>
      rw [← heq, Table.find?_put_of_ne (by exact hne), hdestination, Option.map_some]
    · rfl
  rw [hcredit, hdebit]
  by_cases hid : source.id = id
  · rw [if_neg (fun h => hne (hid.trans h.symm)), if_pos hid, if_pos hid.symm]
    rfl
  · rw [if_neg hid, if_neg (Ne.symm hid)]
    by_cases hid' : destination.id = id
    · rw [if_pos hid', if_pos hid'.symm]
      rfl
    · rw [if_neg hid', if_neg (Ne.symm hid')]

/-! ## A call -/

/-- What a call of `execute` does while nothing else runs. -/
structure ExecutedAlone (db : Db) (transfer : TransferRow) (source destination : AccountRow)
    (now : Date) : Prop where
  locked : db.blocks transfer → ∃ err db',
    err.cls = .UnprocessableError ∧ err.code = .ACCOUNT_LOCKED ∧
    Session.Throws (execute transfer now) (.idle db) (.app err) (.idle db') ∧
    Settles (transfer.fail .ACCOUNT_LOCKED now) db db'
  short : ¬ db.blocks transfer → source.balanceCents < transfer.amountCents.cents → ∃ err db',
    err.cls = .UnprocessableError ∧ err.code = .INSUFFICIENT_FUNDS ∧
    Session.Throws (execute transfer now) (.idle db) (.app err) (.idle db') ∧
    Settles (transfer.fail .INSUFFICIENT_FUNDS now) db db'
  moved : ¬ db.blocks transfer → transfer.amountCents.cents ≤ source.balanceCents →
    destination.balanceCents + transfer.amountCents.cents ≤ maxBigint → ∃ db',
      Session.Does (execute transfer now) (.idle db) (transfer.complete now) (.idle db') ∧
      Moves (transfer.complete now) source destination db db'
  /-- A statement of the transaction fails; a commit fails if it does not take effect. -/
  failed : ∀ label landed s', Session.Fails (execute transfer now) (.idle db) label landed s' →
    label ≠ .markFailed → (label = .commit → landed = false) → s'.committed = db ∧
      (s'.committed.transfers.find? transfer.id).map TransferRow.status = some .pending
  /-- The database refuses a statement. -/
  refused : ∀ thrown s', Session.Throws (execute transfer now) (.idle db) thrown s' →
    thrown.unprocessable? = none → s'.committed = db ∧
      (s'.committed.transfers.find? transfer.id).map TransferRow.status = some .pending

/-- A pending transfer between two accounts is executed alone. Its amount is one that
`positiveCents` admits, from 1 to `Number.MAX_SAFE_INTEGER`. -/
theorem execute_spec {db : Db} (hfit : db.BalancesFit) {transfer : TransferRow}
    (hstored : db.transfers.find? transfer.id = some transfer)
    (hpending : transfer.status = .pending) {source destination : AccountRow}
    (hfrom : transfer.fromAccountId = some source.id)
    (hsource : db.accounts.find? source.id = some source)
    (hto : transfer.toAccountId = destination.id)
    (hdestination : db.accounts.find? destination.id = some destination) (now : Date) :
    ExecutedAlone db transfer source destination now := by
  have hkept : ∀ s' : Tx Db, s'.committed = db → s'.committed = db ∧
      (s'.committed.transfers.find? transfer.id).map TransferRow.status = some .pending := by
    intro s' heq
    rw [heq, hstored, Option.map_some, hpending]
    exact ⟨rfl, rfl⟩
  obtain ⟨rowById, hthrows, hdoes, hlookup⟩ := does_checks hfrom hsource (hto ▸ hdestination) now
  refine ⟨fun hblocks => ?_, fun hblocks hshort => ?_, fun hblocks hfunds hroom => ?_,
    fun label landed s' h hlabel hcommit => hkept s' (unchanged_of_fails h hlabel hcommit),
    fun thrown s' h hthrown => hkept s' (unchanged_of_throws h hthrown)⟩
  · have hmove := hthrows _ (verdict_of_blocks hfrom hblocks rowById)
    exact ⟨_, _, rfl, rfl, (throws_execute hfrom).mpr ⟨⟨db, hmove⟩, rfl⟩, .mark hstored _ now⟩
  · have hverdict := verdict_of_not_blocks hfrom hblocks hlookup
    rw [if_pos hshort] at hverdict
    have hmove := hthrows _ hverdict
    exact ⟨_, _, rfl, rfl, (throws_execute hfrom).mpr ⟨⟨db, hmove⟩, rfl⟩, .mark hstored _ now⟩
  · have hverdict := verdict_of_not_blocks hfrom hblocks hlookup
    rw [if_neg (not_lt.mpr hfunds)] at hverdict
    have hne : source.id ≠ destination.id := fun heq => transfer.distinct (by rw [hfrom, hto, heq])
    have hsourceFits := hfit source (Table.mem_of_find? hsource)
    have hdestinationFits := hfit destination (Table.mem_of_find? hdestination)
    have hlow : 0 ≤ source.balanceCents + -transfer.amountCents.cents := by omega
    have hdebit := addToBalance_eq hsource hlow (by omega)
    have hother : (db.accounts.put (source.add (-transfer.amountCents.cents))).find?
        destination.id = some destination := by
      rw [Table.find?_put_of_ne (by exact hne), hdestination]
    have hlow' : 0 ≤ destination.balanceCents + transfer.amountCents.cents := by omega
    have hcredit : ({ db with
        accounts := db.accounts.put (source.add (-transfer.amountCents.cents)) } : Db).addToBalance
        destination.id transfer.amountCents.cents = _ := addToBalance_eq hother hlow' hroom
    rw [← hto] at hcredit
    have hmove := hdoes _ _ hverdict hdebit hcredit transfer hstored
    refine ⟨_, (does_execute hfrom).mpr ⟨_, hmove, rfl⟩, rfl, ?_, ?_, fun id hid hid' => ?_,
      stores_update hstored (fun r => r.complete_id now) rfl, rfl, rfl⟩
    · exact (find?_transferred hsource hdestination hne _ _).trans (if_pos rfl)
    · exact (find?_transferred hsource hdestination hne _ _).trans
        ((if_neg (Ne.symm hne)).trans (if_pos rfl))
    · exact (find?_transferred hsource hdestination hne _ _).trans
        ((if_neg hid).trans (if_neg hid'))

/-- A pending transfer of 50 from an account with 60 to an empty one. -/
def sampleTransfer : TransferRow :=
  TransferService.pendingRow sampleDeps (sampleInput "key") (chosen 3) (by decide)

def sampleDb : Db where
  customers := sampleCustomers
  accounts := ⟨[⟨⟨1⟩, ⟨9⟩, 60⟩, ⟨⟨2⟩, ⟨9⟩, 0⟩], by decide⟩
  transfers := ⟨[sampleTransfer], by simp⟩
  accountLocks := .empty
  accountComments := .empty

theorem execute_spec_sample :
    ExecutedAlone sampleDb sampleTransfer ⟨⟨1⟩, ⟨9⟩, 60⟩ ⟨⟨2⟩, ⟨9⟩, 0⟩ 7 :=
  execute_spec (by simp [Db.BalancesFit, sampleDb, maxBigint]) rfl rfl rfl rfl rfl rfl 7

end BankPlatform.Bank
