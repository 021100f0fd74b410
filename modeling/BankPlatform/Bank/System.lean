import BankPlatform.Library.Interleaving
import BankPlatform.Library.Numeral
import BankPlatform.Library.RowLocks
import BankPlatform.Bank.Schema
import BankPlatform.Bank.Queue

/-!
# The banking system

Every request handler and every worker is a process that runs one service call at a time. A call
is a sequence of awaited statements; one constructor of its program counter stands for each await,
with the local variables that are live there. Statements of different processes interleave. A
statement reads the committed database (READ COMMITTED), the versions that a transaction writes
stay private until its commit installs them, and the row locks it takes last until it ends. No
statement deletes an account, so a foreign-key check only has to wait for the row.

## Main definitions

* `Shared` — the committed database, the row locks, the queue and the history of the run.
* `Proc` — what a process is executing.
* `Proc.next` — the next statement of a process, one definition for each service method.
* `system` — the interleaving of all processes; `Reaches` — its guarded runs.
-/

namespace BankPlatform.Bank

open Library

/-- What a lock can be taken on: a row, or an entry of the idempotency key index. -/
inductive RowRef where
  | account (id : Uuid)
  | transfer (id : Uuid)
  | lock (id : Uuid)
  | idempotencyKey (key : String)
  deriving DecidableEq

structure CreateTransferInput where
  idempotencyKey : String
  fromAccountId : Uuid
  toAccountId : Uuid
  amountCents : PositiveCents
  deriving DecidableEq

structure CreateTransferResult where
  transfer : TransferRow
  created : Bool
  deriving DecidableEq

/-- The history of a run, kept for specifications only: no statement reads it. -/
inductive Event where
  /-- `AccountService.create` committed. -/
  | opened (account : AccountRow)
  /-- `TransferService.create` was called. -/
  | called (input : CreateTransferInput)
  /-- The insert of a pending transfer committed. -/
  | inserted (pid : Pid) (row : TransferRow)
  /-- A call of `TransferService.create` returned or threw. -/
  | responded (input : CreateTransferInput) (result : Except Thrown CreateTransferResult)
  /-- A run of `execute` read `account_locks`. -/
  | locksRead (pid : Pid) (transfer : TransferRow)
  /-- A run of `execute` that had read `account_locks` at time `readAt` committed. -/
  | moved (transfer : TransferRow) (fromAccountId : Uuid) (readAt : ℕ)
  /-- The `failed` update of a rejected run took effect. -/
  | rejected (transferId : Uuid) (reason : ErrorCode)
  /-- `LockService.create` committed. -/
  | locked (lock : LockRow)
  /-- The update of `LockService.release` took effect. -/
  | released (lockId : Uuid)
  /-- A call of another service threw. -/
  | threw (err : AppError)
  deriving DecidableEq

/-- What all processes share. -/
structure Shared where
  db : Db
  locks : LockTable Pid RowRef
  queue : Queue
  log : List Event

/-- What the next statement of a process does to the shared state. -/
inductive Effect where
  /-- Nothing that another process could see. -/
  | quiet
  /-- Take a row lock, or wait for its holder. -/
  | lock (row : RowRef) (mode : LockMode)
  /-- End the transaction, if one is open, without a trace. -/
  | rollback
  /-- Install the versions of the transaction and end it. -/
  | commit (ws : List Write)
  /-- A statement outside a transaction that updates one row, after waiting for its holder. -/
  | autocommit (row : RowRef) (ws : List Write)
  | enqueue (jobId : String) (transferId : Uuid)
  /-- BullMQ hands a waiting job to the process. -/
  | take (jobId : String)
  | settle (jobId : String) (outcome : Outcome)
  /-- BullMQ moves a job on its own. -/
  | react (e : QueueEvent)
  deriving DecidableEq

namespace Shared

def record (s : Shared) (es : List Event) : Shared := { s with log := s.log ++ es }

@[simp] theorem record_db (s : Shared) (es : List Event) : (s.record es).db = s.db := rfl
@[simp] theorem record_locks (s : Shared) (es : List Event) : (s.record es).locks = s.locks := rfl
@[simp] theorem record_queue (s : Shared) (es : List Event) : (s.record es).queue = s.queue := rfl
@[simp] theorem record_log (s : Shared) (es : List Event) : (s.record es).log = s.log ++ es := rfl

/-- The effect of a statement of process `i`; `none` while it has to wait. -/
def apply (s : Shared) (i : Pid) : Effect → Option Shared
  | .quiet => some s
  | .lock row mode => (s.locks.acquire? i row mode).map fun t => { s with locks := t }
  | .rollback => some { s with locks := s.locks.release i }
  | .commit ws => (s.db.install ws).map fun db => { s with db, locks := s.locks.release i }
  | .autocommit row ws =>
    if s.locks.available i row .forUpdate then (s.db.install ws).map fun db => { s with db }
    else none
  | .enqueue jobId transferId => some { s with queue := s.queue.add jobId transferId }
  | .take jobId => (s.queue.take? i jobId).map fun queue => { s with queue }
  | .settle jobId outcome => some { s with queue := s.queue.settle i jobId outcome }
  | .react e => (s.queue.react? e).map fun queue => { s with queue }

end Shared

/-- What the environment supplies to a statement: the clock, `gen_random_uuid()` and the identity
sequence. -/
structure Choice where
  now : Date
  uuid : Uuid
  seq : ℕ
  deriving DecidableEq

/-! ## Program counters -/

/-- The awaits of `TransferExecutor.execute`. -/
inductive ExecutePc where
  | lockRows (accountId : Uuid) (rest : List Uuid) (rowById : List (Uuid × ℤ))
  | readLocks (rowById : List (Uuid × ℤ))
  | debit (readAt : ℕ)
  | credit (readAt : ℕ) (ws : List Write)
  | complete (readAt : ℕ) (ws : List Write)
  | commit (readAt : ℕ) (ws : List Write) (completed : TransferRow)
  | markFailed (err : AppError)
  deriving DecidableEq

/-- The awaits of a processor run. -/
inductive ProcessorPc where
  | select (transferId : Uuid)
  | executing (transfer : TransferRow) (fromAccountId : Uuid) (pc : ExecutePc)
  | acknowledge (outcome : Outcome)
  deriving DecidableEq

/-- The awaits of `AccountService.create`. -/
inductive CreateAccountPc where
  | selectCustomer
  | insertAccount
  | insertDeposit (account : AccountRow)
  | commit (account : AccountRow) (ws : List Write)
  deriving DecidableEq

/-- The awaits of `LockService.create`. -/
inductive CreateLockPc where
  | selectAccount
  | insertLock
  | commit (lock : LockRow)
  deriving DecidableEq

/-- The awaits of `LockService.release`. -/
inductive ReleaseLockPc where
  | assertAccountExists
  | update
  | selectLock
  deriving DecidableEq

/-- The awaits of `CommentService.create`; the insert first takes its foreign-key lock. -/
inductive CreateCommentPc where
  | assertAccountExists
  | insert
  | commit (comment : CommentRow)
  deriving DecidableEq

/-- The awaits of `TransferService.create`, with the insert split into its index entry, its two
foreign-key locks and its commit. -/
inductive CreateTransferPc where
  | assertAccountsExist
  | insert
  | referenceFrom (row : TransferRow)
  | referenceTo (row : TransferRow)
  | commit (row : TransferRow)
  | enqueue (row : TransferRow) (created : Bool)
  | replay
  deriving DecidableEq

/-- What a process is executing. -/
inductive Proc where
  | idle
  | processor (job : Option String) (pc : ProcessorPc)
  | createAccount (customerId : Uuid) (initialDepositCents : NonNegativeCents) (pc : CreateAccountPc)
  | createLock (accountId : Uuid) (reason : String) (pc : CreateLockPc)
  | releaseLock (accountId lockId : Uuid) (pc : ReleaseLockPc)
  | createComment (accountId : Uuid) (body : String) (pc : CreateCommentPc)
  | createTransfer (input : CreateTransferInput) (pc : CreateTransferPc)
  deriving DecidableEq

/-- A statement: its effect, what the history records of it, and where the process goes on. -/
structure Move where
  effect : Effect
  events : List Event
  next : Proc
  deriving DecidableEq

/-! ## `TransferExecutor.execute` -/

/-- The largest value of a `bigint` column. -/
def maxBigint : ℤ := 2 ^ 63 - 1

/-- `balance_cents` reads as a JavaScript number. -/
def AccountRow.balanceNumber (r : AccountRow) : ℤ := JsNumber.ofInt r.balanceCents

def AccountRow.add (r : AccountRow) (cents : ℤ) : AccountRow :=
  { r with balanceCents := r.balanceCents + cents }

/-- The account rows in `[fromAccountId, toAccountId].sort()` order. -/
def lockOrder (fromAccountId toAccountId : Uuid) : Uuid × Uuid :=
  if fromAccountId ≤ toAccountId then (fromAccountId, toAccountId)
  else (toAccountId, fromAccountId)

namespace TransferExecutor

/-- The synchronous start of `execute`. -/
def start (transfer : TransferRow) : ProcessorPc :=
  match transfer.fromAccountId with
  | none =>
    .acknowledge (.threw (.error ("Transfer " ++ transfer.id.text ++
      " has no source account; deposits are not queued")))
  | some fromAccountId =>
    let order := lockOrder fromAccountId transfer.toAccountId
    .executing transfer fromAccountId (.lockRows order.1 [order.2] [])

/-- The synchronous end of the lock loop: the next row, or the lock check. -/
def lockRest (rest : List Uuid) (rowById : List (Uuid × ℤ)) : ExecutePc :=
  match rest with
  | [] => .readLocks rowById
  | accountId :: rest => .lockRows accountId rest rowById

/-- The checks after the locks are read: the error to roll back with, if any. -/
def verdict (db : Db) (transfer : TransferRow) (fromAccountId : Uuid)
    (rowById : List (Uuid × ℤ)) : Option AppError :=
  if db.activeLocks fromAccountId transfer.toAccountId ≠ [] then
    some (transferFailureError .ACCOUNT_LOCKED transfer.id)
  else
    match rowById.lookup fromAccountId with
    | none => some (transferFailureError .INSUFFICIENT_FUNDS transfer.id)
    | some balanceCents =>
      if balanceCents < transfer.amountCents.cents then
        some (transferFailureError .INSUFFICIENT_FUNDS transfer.id)
      else none

/-- The version of an account row that `SET balance_cents = balance_cents + ...` writes. -/
def updateBalance (db : Db) (accountId : Uuid) (cents : ℤ) : List Write :=
  match db.accounts.find? accountId with
  | none => []
  | some row => [.putAccount (row.add cents)]

/-- `bigint out of range`: the credited balance does not fit the column. -/
def overflows (db : Db) (accountId : Uuid) (cents : ℤ) : Bool :=
  match db.accounts.find? accountId with
  | none => false
  | some row => maxBigint < row.balanceCents + cents

/-- The statements of `execute`, each with the state in which the run goes on. -/
def next (s : Shared) (i : Pid) (transfer : TransferRow) (fromAccountId : Uuid) (c : Choice) :
    ExecutePc → Effect × List Event × ProcessorPc
  | .lockRows accountId rest rowById =>
    match s.db.accounts.find? accountId with
    | none => (.rollback, [], .acknowledge (.threw (.app (accountNotFound accountId))))
    | some row =>
      (.lock (.account accountId) .forUpdate, [],
        .executing transfer fromAccountId
          (lockRest rest (rowById ++ [(row.id, row.balanceNumber)])))
  | .readLocks rowById =>
    match verdict s.db transfer fromAccountId rowById with
    | some err =>
      (.rollback, [.locksRead i transfer], .executing transfer fromAccountId (.markFailed err))
    | none =>
      (.quiet, [.locksRead i transfer],
        .executing transfer fromAccountId (.debit s.log.length))
  | .debit readAt =>
    (.quiet, [], .executing transfer fromAccountId
      (.credit readAt (updateBalance s.db fromAccountId (-transfer.amountCents.cents))))
  | .credit readAt ws =>
    if overflows s.db transfer.toAccountId transfer.amountCents.cents then
      (.rollback, [], .acknowledge (.threw (.error "bigint out of range")))
    else
      (.quiet, [], .executing transfer fromAccountId
        (.complete readAt
          (ws ++ updateBalance s.db transfer.toAccountId transfer.amountCents.cents)))
  | .complete readAt ws =>
    match s.db.transfers.find? transfer.id with
    | none =>
      (.rollback, [], .acknowledge (.threw (.error ("Transfer row " ++ transfer.id.text ++
        " disappeared mid-transaction"))))
    | some row =>
      (.lock (.transfer transfer.id) .forUpdate, [],
        .executing transfer fromAccountId (.commit readAt ws (row.complete c.now)))
  | .commit readAt ws completed =>
    (.commit (ws ++ [.putTransfer completed]), [.moved transfer fromAccountId readAt],
      .acknowledge .returned)
  | .markFailed err =>
    -- the processor swallows the `UnprocessableError` that `execute` rethrows here
    (.autocommit (.transfer transfer.id)
      (match s.db.transfers.find? transfer.id with
        | none => []
        | some row => [.putTransfer (row.fail err.code c.now)]),
      [.rejected transfer.id err.code], .acknowledge .returned)

end TransferExecutor

/-! ## `createTransferProcessor` -/

/-- The statements of a processor run and the report of its outcome to the queue. -/
def ProcessorPc.next (s : Shared) (i : Pid) (job : Option String) (c : Choice) :
    ProcessorPc → Move
  | .select transferId =>
    match s.db.transfers.find? transferId with
    | none => ⟨.quiet, [], .processor job (.acknowledge .returned)⟩
    | some row =>
      if row.status ≠ .pending then ⟨.quiet, [], .processor job (.acknowledge .returned)⟩
      else ⟨.quiet, [], .processor job (TransferExecutor.start row)⟩
  | .executing transfer fromAccountId pc =>
    let r := TransferExecutor.next s i transfer fromAccountId c pc
    ⟨r.1, r.2.1, .processor job r.2.2⟩
  | .acknowledge outcome =>
    match job with
    | none => ⟨.quiet, [], .idle⟩
    | some jobId => ⟨.settle jobId outcome, [], .idle⟩

/-! ## `AccountService.create` -/

/-- An id that no row has and no open transaction has inserted. -/
def Shared.unusedAccountId (s : Shared) (id : Uuid) : Bool :=
  (s.db.accounts.find? id).isNone && s.locks.held.all fun e => e.row ≠ .account id

/-- The opening deposit as a completed transfer without a source. -/
def depositRow (account : AccountRow) (amountCents : PositiveCents) (c : Choice) : TransferRow where
  id := c.uuid
  seq := c.seq
  idempotencyKey := none
  requestHash := none
  fromAccountId := none
  toAccountId := account.id
  amountCents := amountCents
  status := .completed
  failureReason := none
  createdAt := c.now
  completedAt := some c.now
  distinct := by simp

/-- The statements of `AccountService.create`; `none` where the chosen id is taken. -/
def CreateAccountPc.next (s : Shared) (customerId : Uuid) (deposit : NonNegativeCents)
    (c : Choice) : CreateAccountPc → Option Move
  | .selectCustomer =>
    match s.db.customers.find? customerId with
    | none => some ⟨.rollback, [.threw (customerNotFound customerId)], .idle⟩
    | some _ => some ⟨.quiet, [], .createAccount customerId deposit .insertAccount⟩
  | .insertAccount =>
    let account : AccountRow := ⟨c.uuid, customerId, deposit.cents⟩
    if s.unusedAccountId account.id then
      some ⟨.lock (.account account.id) .forUpdate, [],
        .createAccount customerId deposit
          (if 0 < deposit.cents then .insertDeposit account
            else .commit account [.insertAccount account])⟩
    else none
  | .insertDeposit account =>
    if h : 0 < deposit.cents then
      some ⟨.lock (.account account.id) .forKeyShare, [],
        .createAccount customerId deposit
          (.commit account [.insertAccount account,
            .insertTransfer (depositRow account ⟨deposit.cents, h, deposit.safe⟩ c)])⟩
    else none
  | .commit account ws => some ⟨.commit ws, [.opened account], .idle⟩

/-! ## `LockService` -/

/-- The statements of `LockService.create`. -/
def CreateLockPc.next (s : Shared) (accountId : Uuid) (reason : String) (c : Choice) :
    CreateLockPc → Move
  | .selectAccount =>
    match s.db.accounts.find? accountId with
    | none => ⟨.rollback, [.threw (accountNotFound accountId)], .idle⟩
    | some _ => ⟨.lock (.account accountId) .forUpdate, [], .createLock accountId reason .insertLock⟩
  | .insertLock =>
    ⟨.lock (.account accountId) .forKeyShare, [],
      .createLock accountId reason (.commit ⟨c.uuid, accountId, reason, c.now, none⟩)⟩
  | .commit lock => ⟨.commit [.insertLock lock], [.locked lock], .idle⟩

/-- The lock that the update of `LockService.release` matches. -/
def Db.releasable (db : Db) (accountId lockId : Uuid) : Option LockRow :=
  (db.accountLocks.find? lockId).filter fun l => l.accountId = accountId && l.releasedAt.isNone

/-- The statements of `LockService.release`. -/
def ReleaseLockPc.next (s : Shared) (accountId lockId : Uuid) (c : Choice) : ReleaseLockPc → Move
  | .assertAccountExists =>
    match s.db.accounts.find? accountId with
    | none => ⟨.rollback, [.threw (accountNotFound accountId)], .idle⟩
    | some _ => ⟨.quiet, [], .releaseLock accountId lockId .update⟩
  | .update =>
    match s.db.releasable accountId lockId with
    | some l =>
      ⟨.autocommit (.lock lockId) [.putLock { l with releasedAt := some c.now }],
        [.released lockId], .idle⟩
    | none => ⟨.quiet, [], .releaseLock accountId lockId .selectLock⟩
  | .selectLock =>
    match (s.db.accountLocks.find? lockId).filter fun l => l.accountId = accountId with
    | none => ⟨.quiet, [.threw (lockNotFound lockId)], .idle⟩
    | some _ => ⟨.quiet, [.threw (lockAlreadyReleased lockId)], .idle⟩

/-! ## `CommentService.create` -/

/-- The statements of `CommentService.create`. -/
def CreateCommentPc.next (s : Shared) (accountId : Uuid) (body : String) (c : Choice) :
    CreateCommentPc → Move
  | .assertAccountExists =>
    match s.db.accounts.find? accountId with
    | none => ⟨.rollback, [.threw (accountNotFound accountId)], .idle⟩
    | some _ => ⟨.quiet, [], .createComment accountId body .insert⟩
  | .insert =>
    ⟨.lock (.account accountId) .forKeyShare, [],
      .createComment accountId body (.commit ⟨c.uuid, accountId, body, c.now⟩)⟩
  | .commit comment => ⟨.commit [.insertComment comment], [], .idle⟩

/-! ## `TransferService.create` -/

namespace TransferService

/-- `JSON.stringify([fromAccountId, toAccountId, amountCents])`. -/
def stringify (input : CreateTransferInput) : String :=
  "[\"" ++ input.fromAccountId.text ++ "\",\"" ++ input.toAccountId.text ++ "\"," ++
    toString input.amountCents.cents ++ "]"

def hashRequest (deps : Dependencies) (input : CreateTransferInput) : String :=
  deps.sha256 (stringify input)

theorem distinct_accounts {input : CreateTransferInput}
    (h : input.fromAccountId ≠ input.toAccountId) :
    some input.fromAccountId ≠ some input.toAccountId := by
  simpa using h

/-- The pending row that the insert writes. -/
def pendingRow (deps : Dependencies) (input : CreateTransferInput) (c : Choice)
    (h : input.fromAccountId ≠ input.toAccountId) : TransferRow where
  id := c.uuid
  seq := c.seq
  idempotencyKey := some input.idempotencyKey
  requestHash := some (hashRequest deps input)
  fromAccountId := some input.fromAccountId
  toAccountId := input.toAccountId
  amountCents := input.amountCents
  status := .pending
  failureReason := none
  createdAt := c.now
  completedAt := none
  distinct := distinct_accounts h

def sameAccount : Thrown :=
  .app ⟨.UnprocessableError, .SAME_ACCOUNT, "Cannot transfer an amount to the same account", []⟩

def accountMissing (label : String) (accountId : Uuid) : Thrown :=
  .app ⟨.NotFoundError, .ACCOUNT_NOT_FOUND,
    label ++ " account " ++ accountId.text ++ " does not exist", [("accountId", accountId.text)]⟩

def idempotencyKeyReused : Thrown :=
  .app ⟨.ConflictError, .IDEMPOTENCY_KEY_REUSED,
    "This Idempotency-Key was already used with a different payload", []⟩

/-- A call that returns or throws. -/
def respond (effect : Effect) (input : CreateTransferInput)
    (result : Except Thrown CreateTransferResult) : Move :=
  ⟨effect, [.responded input result], .idle⟩

/-- `assertAccountsExist` on the rows that its select found. -/
def assertAccountsExist (db : Db) (input : CreateTransferInput) : Except Thrown Unit :=
  if (db.accounts.find? input.fromAccountId).isNone then
    .error (accountMissing "Source" input.fromAccountId)
  else if (db.accounts.find? input.toAccountId).isNone then
    .error (accountMissing "Destination" input.toAccountId)
  else .ok ()

/-- The statements of `create` and `replay`; `none` where the chosen id is taken. -/
def next (deps : Dependencies) (s : Shared) (i : Pid) (input : CreateTransferInput)
    (c : Choice) : CreateTransferPc → Option Move
  | .assertAccountsExist =>
    match assertAccountsExist s.db input with
    | .error err => some (respond .quiet input (.error err))
    | .ok () => some ⟨.quiet, [], .createTransfer input .insert⟩
  | .insert =>
    if (s.db.transferByKey input.idempotencyKey).isSome then
      some ⟨.quiet, [], .createTransfer input .replay⟩
    else if h : input.fromAccountId ≠ input.toAccountId then
      if (s.db.transfers.find? c.uuid).isNone then
        some ⟨.lock (.idempotencyKey input.idempotencyKey) .forUpdate, [],
          .createTransfer input (.referenceFrom (pendingRow deps input c h))⟩
      else none
    else some (respond .rollback input (.error (.error "transfers_distinct_accounts")))
  | .referenceFrom row =>
    some ⟨.lock (.account input.fromAccountId) .forKeyShare, [],
      .createTransfer input (.referenceTo row)⟩
  | .referenceTo row =>
    some ⟨.lock (.account input.toAccountId) .forKeyShare, [], .createTransfer input (.commit row)⟩
  | .commit row =>
    some ⟨.commit [.insertTransfer row], [.inserted i row], .createTransfer input (.enqueue row true)⟩
  | .enqueue row created =>
    if deps.customIdRejected input.idempotencyKey then
      some (respond .quiet input (.error (.error (deps.customIdMessage input.idempotencyKey))))
    else
      some (respond (.enqueue input.idempotencyKey row.id) input (.ok ⟨row, created⟩))
  | .replay =>
    match s.db.transferByKey input.idempotencyKey with
    | none =>
      some (respond .quiet input (.error (.error
        ("Transfer with idempotency key " ++ input.idempotencyKey ++ " not found"))))
    | some row =>
      if row.requestHash ≠ some (hashRequest deps input) then
        some (respond .quiet input (.error idempotencyKeyReused))
      else if row.status = .pending then
        some ⟨.quiet, [], .createTransfer input (.enqueue row false)⟩
      else some (respond .quiet input (.ok ⟨row, false⟩))

end TransferService

/-! ## The system -/

/-- The service calls. `processJob` is a processor run outside the queue, `execute` a direct call
on a row that was read from the table, possibly long ago. -/
inductive Operation where
  | processJob (transferId : Uuid)
  | execute (transfer : TransferRow)
  | createAccount (customerId : Uuid) (initialDepositCents : NonNegativeCents)
  | createLock (accountId : Uuid) (reason : String)
  | releaseLock (accountId lockId : Uuid)
  | createComment (accountId : Uuid) (body : String)
  | createTransfer (input : CreateTransferInput)
  deriving DecidableEq

/-- What happens at a process: a call starts, a job is delivered, the next statement takes effect,
the statement fails for an infrastructure reason, or the process dies. An idle process also stands
for BullMQ moving a job. -/
inductive Label where
  | start (op : Operation)
  | deliver (jobId : String)
  | next (c : Choice)
  | abort
  | crash
  | queue (e : QueueEvent)
  deriving DecidableEq

/-- A stored version of the row that a caller passes to `execute`. -/
def Db.stores (db : Db) (transfer : TransferRow) : Bool :=
  (db.transfers.find? transfer.id).any fun row => row.SameRequest transfer

/-- The synchronous start of a call. -/
def Operation.begin (s : Shared) : Operation → Option Move
  | .processJob transferId => some ⟨.quiet, [], .processor none (.select transferId)⟩
  | .execute transfer =>
    if s.db.stores transfer then
      some ⟨.quiet, [], .processor none (TransferExecutor.start transfer)⟩
    else none
  | .createAccount customerId deposit =>
    some ⟨.quiet, [], .createAccount customerId deposit .selectCustomer⟩
  | .createLock accountId reason => some ⟨.quiet, [], .createLock accountId reason .selectAccount⟩
  | .releaseLock accountId lockId =>
    some ⟨.quiet, [], .releaseLock accountId lockId .assertAccountExists⟩
  | .createComment accountId body =>
    some ⟨.quiet, [], .createComment accountId body .assertAccountExists⟩
  | .createTransfer input =>
    if input.fromAccountId = input.toAccountId then
      some ⟨.quiet, [.called input, .responded input (.error TransferService.sameAccount)], .idle⟩
    else some ⟨.quiet, [.called input], .createTransfer input .assertAccountsExist⟩

namespace Proc

/-- The next statement of a process. -/
def next (deps : Dependencies) (s : Shared) (i : Pid) (c : Choice) : Proc → Option Move
  | .idle => none
  | .processor job pc => some (pc.next s i job c)
  | .createAccount customerId deposit pc => pc.next s customerId deposit c
  | .createLock accountId reason pc => some (pc.next s accountId reason c)
  | .releaseLock accountId lockId pc => some (pc.next s accountId lockId c)
  | .createComment accountId body pc => some (pc.next s accountId body c)
  | .createTransfer input pc => TransferService.next deps s i input c pc

/-- An infrastructure error: the transaction is rolled back and the call rejects. -/
def abort : Proc → Move
  | .processor job _ =>
    ⟨.rollback, [], .processor job (.acknowledge (.threw (.error "connection terminated")))⟩
  | _ => ⟨.rollback, [], .idle⟩

/-- What a process does under a label. -/
def act (deps : Dependencies) (s : Shared) (i : Pid) : Proc → Label → Option Move
  | .idle, .start op => op.begin s
  | .idle, .deliver jobId =>
    (s.queue.find? jobId).map fun job =>
      ⟨.take jobId, [], .processor (some jobId) (.select job.transferId)⟩
  | .idle, .queue e => some ⟨.react e, [], .idle⟩
  | p, .next c => p.next deps s i c
  | p, .abort => some p.abort
  | _, .crash => some ⟨.rollback, [], .idle⟩
  | _, _ => none

end Proc

/-- Carry out a statement of process `i`. -/
def Shared.perform (s : Shared) (i : Pid) (m : Move) : Option (Shared × Proc) :=
  (s.apply i m.effect).map fun s' => (s'.record m.events, m.next)

/-- Request handlers and workers, interleaved. -/
def system (deps : Dependencies) : Interleaving Pid Shared Proc Label where
  step s i p a := (p.act deps s i a).bind (s.perform i)

/-- The state of the whole bank. -/
abbrev State := Config Pid Shared Proc

/-- A restriction on the steps of a run. -/
abbrev Guard := Interleaving.Guard Pid Shared Proc Label

/-- All processes idle on a database, with an empty queue and an empty history. -/
def State.init (db : Db) : State := ⟨⟨db, .empty, .empty, []⟩, fun _ => .idle⟩

/-- The states that a guarded run reaches from a database at rest. -/
abbrev Reaches (deps : Dependencies) (ok : Guard) (db : Db) : State → Prop :=
  (system deps).Run ok (State.init db)

/-! ## A small bank -/

/-- In the concrete runs a text is its own digest, and only what is documented is refused. -/
def sampleDeps : Dependencies where
  sha256 := id
  customIdRejected jobId :=
    ((Numeral.decimal? jobId).any fun n =>
        jobId = toString n && decide (n ≤ JsNumber.maxSafeInteger)) ||
      (jobId.toList.contains ':' && jobId.toList.count ':' ≠ 2)
  customIdMessage jobId := jobId ++ " is no custom job id"

theorem documented_sampleDeps : sampleDeps.Documented where
  integers n hn := by
    unfold sampleDeps
    dsimp only
    rw [Numeral.decimal?_toString, Option.any_some]
    simp [hn]
  colons jobId hmem hcount := by
    simp [sampleDeps, hmem, hcount]

/-- The database of the concrete runs has one customer. -/
def sampleCustomers : Table CustomerRow := ⟨[⟨⟨9⟩, "customer"⟩], by decide⟩

def sixtyCents : NonNegativeCents := ⟨60, by decide⟩

def noCents : NonNegativeCents := ⟨0, by decide⟩

def fiftyCents : PositiveCents := ⟨50, by decide, by decide⟩

/-- A transfer of 50 from account 1 to account 2. -/
def sampleInput (key : String) : CreateTransferInput := ⟨key, ⟨1⟩, ⟨2⟩, fiftyCents⟩

/-- The choice of one number for whatever a step may choose. -/
def chosen (id : Fin (2 ^ 128)) : Choice := ⟨0, ⟨id⟩, id⟩

/-- Process 0 opens account 1 with 60 and account 2 with nothing. -/
def openAccounts : List (Pid × Label) :=
  [(0, .start (.createAccount ⟨9⟩ sixtyCents)), (0, .next (chosen 1)), (0, .next (chosen 1)),
    (0, .next (chosen 4)), (0, .next (chosen 1)), (0, .start (.createAccount ⟨9⟩ noCents)),
    (0, .next (chosen 2)), (0, .next (chosen 2)), (0, .next (chosen 2))]

/-- A submission under a key by process 0, and a worker that executes the transfer. -/
def executed (input : CreateTransferInput) : List (Pid × Label) :=
  [(0, .start (.createTransfer input))] ++ List.replicate 6 (0, .next (chosen 3)) ++
    [(0, .start (.processJob ⟨3⟩))] ++ List.replicate 8 (0, .next (chosen 3))

end BankPlatform.Bank
