import BankPlatform.Library.Table
import BankPlatform.Bank.Values

/-!
# The banking database

The tables of `packages/db/src/schema` with their primary keys, the row checks that the services
rely on, and the writes that a committed transaction installs. `accounts_balance_non_negative` is
left out: a debit is kept from overdrawing an account by the code alone.
-/

namespace BankPlatform.Bank

open Library

inductive TransferStatus where
  | pending
  | completed
  | failed
  deriving DecidableEq, Repr

structure CustomerRow where
  id : Uuid
  name : String
  deriving DecidableEq

structure AccountRow where
  id : Uuid
  customerId : Uuid
  balanceCents : ℤ
  deriving DecidableEq

/-- A row of `transfers`; the last field is `transfers_distinct_accounts`, and the amount type
implies `transfers_amount_positive`. A null source marks the opening deposit. -/
structure TransferRow where
  id : Uuid
  seq : ℕ
  idempotencyKey : Option String
  requestHash : Option String
  fromAccountId : Option Uuid
  toAccountId : Uuid
  amountCents : PositiveCents
  status : TransferStatus
  failureReason : Option ErrorCode
  createdAt : Date
  completedAt : Option Date
  distinct : fromAccountId ≠ some toAccountId
  deriving DecidableEq

/-- A row of `account_locks`; the lock is active while `releasedAt` is null. -/
structure LockRow where
  id : Uuid
  accountId : Uuid
  reason : String
  createdAt : Date
  releasedAt : Option Date
  deriving DecidableEq

structure CommentRow where
  id : Uuid
  accountId : Uuid
  body : String
  createdAt : Date
  deriving DecidableEq

instance : Keyed CustomerRow Uuid := ⟨CustomerRow.id⟩
instance : Keyed AccountRow Uuid := ⟨AccountRow.id⟩
instance : Keyed TransferRow Uuid := ⟨TransferRow.id⟩
instance : Keyed LockRow Uuid := ⟨LockRow.id⟩
instance : Keyed CommentRow Uuid := ⟨CommentRow.id⟩

@[simp] theorem key_accountRow (r : AccountRow) : Keyed.key r = r.id := rfl
@[simp] theorem key_transferRow (r : TransferRow) : Keyed.key r = r.id := rfl
@[simp] theorem key_lockRow (r : LockRow) : Keyed.key r = r.id := rfl
@[simp] theorem key_commentRow (r : CommentRow) : Keyed.key r = r.id := rfl

namespace TransferRow

/-- The row version that the successful transaction writes. -/
def complete (r : TransferRow) (now : Date) : TransferRow :=
  { r with status := .completed, completedAt := some now }

/-- The row version that a rejection writes. -/
def fail (r : TransferRow) (reason : ErrorCode) (now : Date) : TransferRow :=
  { r with status := .failed, failureReason := some reason, completedAt := some now }

/-- The row as it was inserted: what no statement updates. -/
def request (r : TransferRow) : TransferRow :=
  { r with status := .pending, failureReason := none, completedAt := none }

/-- Versions of one row. -/
def SameRequest (r r' : TransferRow) : Prop := r.request = r'.request

instance (r r' : TransferRow) : Decidable (r.SameRequest r') :=
  inferInstanceAs (Decidable (_ = _))

namespace SameRequest

variable {r r' r'' : TransferRow}

theorem refl (r : TransferRow) : r.SameRequest r := rfl

theorem symm (h : r.SameRequest r') : r'.SameRequest r := Eq.symm h

theorem trans (h : r.SameRequest r') (h' : r'.SameRequest r'') : r.SameRequest r'' := Eq.trans h h'

theorem id_eq (h : r.SameRequest r') : r.id = r'.id :=
  (congrArg TransferRow.id h :)

theorem idempotencyKey_eq (h : r.SameRequest r') : r.idempotencyKey = r'.idempotencyKey :=
  (congrArg TransferRow.idempotencyKey h :)

theorem requestHash_eq (h : r.SameRequest r') : r.requestHash = r'.requestHash :=
  (congrArg TransferRow.requestHash h :)

theorem fromAccountId_eq (h : r.SameRequest r') : r.fromAccountId = r'.fromAccountId :=
  (congrArg TransferRow.fromAccountId h :)

theorem toAccountId_eq (h : r.SameRequest r') : r.toAccountId = r'.toAccountId :=
  (congrArg TransferRow.toAccountId h :)

theorem amountCents_eq (h : r.SameRequest r') : r.amountCents = r'.amountCents :=
  (congrArg TransferRow.amountCents h :)

end SameRequest

@[simp] theorem sameRequest_complete (r : TransferRow) (now : Date) :
    r.SameRequest (r.complete now) := rfl

@[simp] theorem sameRequest_fail (r : TransferRow) (reason : ErrorCode) (now : Date) :
    r.SameRequest (r.fail reason now) := rfl

@[simp] theorem complete_id (r : TransferRow) (now : Date) : (r.complete now).id = r.id := rfl

@[simp] theorem fail_id (r : TransferRow) (reason : ErrorCode) (now : Date) :
    (r.fail reason now).id = r.id := rfl

@[simp] theorem complete_status (r : TransferRow) (now : Date) :
    (r.complete now).status = .completed := rfl

@[simp] theorem fail_status (r : TransferRow) (reason : ErrorCode) (now : Date) :
    (r.fail reason now).status = .failed := rfl

end TransferRow

/-- The committed database. -/
structure Db where
  customers : Table CustomerRow
  accounts : Table AccountRow
  transfers : Table TransferRow
  accountLocks : Table LockRow
  accountComments : Table CommentRow

/-- A bank with customers and nothing else yet. -/
def Db.seeded (customers : Table CustomerRow) : Db :=
  ⟨customers, .empty, .empty, .empty, .empty⟩

/-- A row version of a transaction that is not committed yet. -/
inductive Write where
  | insertAccount (r : AccountRow)
  | insertTransfer (r : TransferRow)
  | insertLock (r : LockRow)
  | insertComment (r : CommentRow)
  | putAccount (r : AccountRow)
  | putTransfer (r : TransferRow)
  | putLock (r : LockRow)
  deriving DecidableEq

/-- A clash with `transfers_idempotency_key_uq` or `transfers_seq_uq`. -/
def TransferRow.collides (r x : TransferRow) : Bool :=
  (r.idempotencyKey.isSome && r.idempotencyKey = x.idempotencyKey) || r.seq = x.seq

namespace Db

/-- Install one row version; an insert that violates a unique index fails. -/
def write (db : Db) : Write → Option Db
  | .insertAccount r => (db.accounts.insert? r).map fun t => { db with accounts := t }
  | .insertTransfer r =>
    if db.transfers.rows.any r.collides then none
    else (db.transfers.insert? r).map fun t => { db with transfers := t }
  | .insertLock r => (db.accountLocks.insert? r).map fun t => { db with accountLocks := t }
  | .insertComment r => (db.accountComments.insert? r).map fun t => { db with accountComments := t }
  | .putAccount r => some { db with accounts := db.accounts.put r }
  | .putTransfer r => some { db with transfers := db.transfers.put r }
  | .putLock r => some { db with accountLocks := db.accountLocks.put r }

/-- Install the row versions of a transaction in the order in which it wrote them. -/
def install (db : Db) (ws : List Write) : Option Db := ws.foldlM write db

@[simp] theorem install_nil (db : Db) : db.install [] = some db := rfl

@[simp] theorem install_cons (db : Db) (w : Write) (ws : List Write) :
    db.install (w :: ws) = (db.write w).bind fun db' => db'.install ws := rfl

/-- The active locks on one of two accounts, as the executor's lock check selects them. -/
def activeLocks (db : Db) (fromAccountId toAccountId : Uuid) : List LockRow :=
  db.accountLocks.rows.filter fun l =>
    (l.accountId = fromAccountId || l.accountId = toAccountId) && l.releasedAt.isNone

/-- The transfer stored under an idempotency key. -/
def transferByKey (db : Db) (key : String) : Option TransferRow :=
  db.transfers.rows.find? fun r => r.idempotencyKey = some key

end Db

end BankPlatform.Bank
