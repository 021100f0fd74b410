import BankPlatform.Bank.Deadlock
import BankPlatform.Library.Exhaustion

/-!
# Every call ends

A call has a bounded number of statements, and when all transfers name the smaller account first,
the processes cannot all wait for each other's row locks. So the calls in progress end, whatever
the schedule. What can still stop them is a number drawn for a new row that is taken by then, on
which the database would refuse the row.

## Main definitions

* `Proc.work` — a bound on the statements that a process has still to carry out.
* `Proc.DrawsTaken` — a process is at an insert whose id or sequence number is taken.
* `onwards` — only calls in progress go on.

## Main results

* `can_move` — a process goes on, waits for a row lock, or has drawn a taken number.
* `calls_end` — every schedule ends, and at its end every call has ended.
-/

namespace BankPlatform.Bank

open Library

variable {deps : Dependencies}

/-! ## The work of a call -/

namespace ExecutePc

def work : ExecutePc → ℕ
  | .lockRows _ rest _ => 7 + rest.length
  | .readLocks _ => 6
  | .debit _ => 5
  | .credit _ _ => 4
  | .complete _ _ => 3
  | .commit _ _ _ => 2
  | .markFailed _ => 2

end ExecutePc

def ProcessorPc.work : ProcessorPc → ℕ
  | .select _ => 9
  | .executing _ _ pc => pc.work
  | .acknowledge _ => 1

def CreateAccountPc.work : CreateAccountPc → ℕ
  | .selectCustomer => 4
  | .insertAccount => 3
  | .insertDeposit _ => 2
  | .commit _ _ => 1

def CreateLockPc.work : CreateLockPc → ℕ
  | .selectAccount => 3
  | .insertLock => 2
  | .commit _ => 1

def ReleaseLockPc.work : ReleaseLockPc → ℕ
  | .assertAccountExists => 3
  | .update => 2
  | .selectLock => 1

def CreateCommentPc.work : CreateCommentPc → ℕ
  | .assertAccountExists => 3
  | .insert => 2
  | .commit _ => 1

def CreateTransferPc.work : CreateTransferPc → ℕ
  | .assertAccountsExist => 6
  | .insert => 5
  | .referenceFrom _ => 4
  | .referenceTo _ => 3
  | .commit _ => 2
  | .replay => 2
  | .enqueue _ _ => 1

/-- How many statements a process has still to carry out, at most. -/
def Proc.work : Proc → ℕ
  | .idle => 0
  | .processor _ pc => pc.work
  | .createAccount _ _ pc => pc.work
  | .createLock _ _ pc => pc.work
  | .releaseLock _ _ pc => pc.work
  | .createComment _ _ pc => pc.work
  | .createTransfer _ pc => pc.work

theorem work_start (transfer : TransferRow) :
    (TransferExecutor.start transfer).work ≤ 8 := by
  unfold TransferExecutor.start
  split <;> simp [ProcessorPc.work, ExecutePc.work]

theorem work_execute (s : Shared) (i : Pid) (transfer : TransferRow) (fromAccountId : Uuid)
    (c : Choice) (pc : ExecutePc) :
    (TransferExecutor.next s i transfer fromAccountId c pc).2.2.work < pc.work := by
  cases pc with
  | lockRows accountId rest rowById =>
    simp only [TransferExecutor.next]
    split
    · simp only [ProcessorPc.work, ExecutePc.work]
      omega
    · cases rest <;> simp [TransferExecutor.lockRest, ProcessorPc.work, ExecutePc.work]
  | readLocks rowById =>
    simp only [TransferExecutor.next]
    split <;> simp [ProcessorPc.work, ExecutePc.work]
  | credit readAt ws =>
    simp only [TransferExecutor.next]
    split <;> simp [ProcessorPc.work, ExecutePc.work]
  | complete readAt ws =>
    simp only [TransferExecutor.next]
    split <;> simp [ProcessorPc.work, ExecutePc.work]
  | _ => simp [TransferExecutor.next, ProcessorPc.work, ExecutePc.work]

/-- A statement leaves less work. -/
theorem work_next {s : Shared} {i : Pid} {p : Proc} {c : Choice} {m : Move}
    (h : p.next deps s i c = some m) : m.next.work < p.work := by
  cases p with
  | idle => cases h
  | processor job pc =>
    obtain rfl := Option.some.inj h
    cases pc with
    | select transferId =>
      simp only [ProcessorPc.next]
      split
      · simp [Proc.work, ProcessorPc.work]
      · split
        · simp [Proc.work, ProcessorPc.work]
        · next row _ _ => exact Nat.lt_succ_of_le (work_start row)
    | executing transfer fromAccountId pc => exact work_execute s i transfer fromAccountId c pc
    | acknowledge outcome =>
      simp only [ProcessorPc.next]
      split <;> simp [Proc.work, ProcessorPc.work]
  | createAccount customerId deposit pc =>
    cases pc <;> simp only [Proc.next, CreateAccountPc.next] at h <;>
      grind [Proc.work, CreateAccountPc.work]
  | createLock accountId reason pc =>
    obtain rfl := Option.some.inj h
    cases pc <;> simp only [CreateLockPc.next] <;> (try split) <;>
      simp [Proc.work, CreateLockPc.work]
  | releaseLock accountId lockId pc =>
    obtain rfl := Option.some.inj h
    cases pc <;> simp only [ReleaseLockPc.next] <;> (try split) <;>
      simp [Proc.work, ReleaseLockPc.work]
  | createComment accountId body pc =>
    obtain rfl := Option.some.inj h
    cases pc <;> simp only [CreateCommentPc.next] <;> (try split) <;>
      simp [Proc.work, CreateCommentPc.work]
  | createTransfer input pc =>
    cases pc <;> simp only [Proc.next, TransferService.next, TransferService.respond] at h <;>
      grind [Proc.work, CreateTransferPc.work]

/-- Only calls in progress go on: none begins, fails or is given up. -/
def onwards : Guard := fun _ _ a =>
  match a with
  | .next _ => True
  | _ => False

instance (c : State) (i : Pid) (a : Label) : Decidable (onwards c i a) :=
  match a with
  | .next _ => .isTrue trivial
  | .start _ | .deliver _ | .abort | .crash | .queue _ => .isFalse id

theorem consumes_onwards : (system deps).Consumes onwards Proc.work := by
  intro c i a s l hok hstep
  obtain ⟨m, s₁, hact, -, -, rfl⟩ := step_eq_some.mp hstep
  generalize c.locals i = p at hact
  cases acts_of_act hact with
  | next hm => exact work_next hm
  | _ => cases hok

/-- A call has at most nine statements. -/
theorem work_le {s : Shared} {i : Pid} {p : Proc} (hp : p.Holding deps s i) : p.work ≤ 9 := by
  cases p with
  | processor job pc =>
    cases pc with
    | executing transfer fromAccountId pc =>
      cases pc with
      | lockRows accountId rest rowById =>
        obtain ⟨-, -, ⟨-, rfl, -⟩ | ⟨-, rfl, -⟩⟩ := hp <;>
          simp [Proc.work, ProcessorPc.work, ExecutePc.work]
      | _ => simp [Proc.work, ProcessorPc.work, ExecutePc.work]
    | _ => simp [Proc.work, ProcessorPc.work]
  | idle => exact Nat.zero_le _
  | createAccount customerId deposit pc => cases pc <;> simp [Proc.work, CreateAccountPc.work]
  | createLock accountId reason pc => cases pc <;> simp [Proc.work, CreateLockPc.work]
  | releaseLock accountId lockId pc => cases pc <;> simp [Proc.work, ReleaseLockPc.work]
  | createComment accountId body pc => cases pc <;> simp [Proc.work, CreateCommentPc.work]
  | createTransfer input pc => cases pc <;> simp [Proc.work, CreateTransferPc.work]

/-! ## Numbers that are drawn -/

/-- A transfer has the id or the sequence number that was drawn for a new one. -/
def Db.Taken (db : Db) (row : TransferRow) : Prop :=
  ∃ x ∈ db.transfers.rows, x.id = row.id ∨ x.seq = row.seq

/-- A process is at an insert whose id or sequence number is taken, or no id is left to draw. -/
def Proc.DrawsTaken (s : Shared) : Proc → Prop
  | .createAccount _ _ .insertAccount => ∀ id, s.unusedAccountId id = false
  | .createAccount _ _ (.commit _ ws) => ∃ row, .insertTransfer row ∈ ws ∧ s.db.Taken row
  | .createLock _ _ (.commit lock) => (s.db.accountLocks.find? lock.id).isSome = true
  | .createComment _ _ (.commit comment) => (s.db.accountComments.find? comment.id).isSome = true
  | .createTransfer _ .insert => ∀ id, (s.db.transfers.find? id).isSome = true
  | .createTransfer _ (.commit row) => s.db.Taken row
  | _ => False

/-- What a process has found free when it locked it: the id of a new account, or the key of a new
transfer. -/
def Proc.Free (db : Db) : Proc → Prop
  | .createAccount _ deposit (.insertDeposit account) =>
    db.accounts.find? account.id = none ∧ 0 < deposit.cents
  | .createAccount _ _ (.commit account _) => db.accounts.find? account.id = none
  | .createTransfer input (.referenceFrom _) | .createTransfer input (.referenceTo _)
  | .createTransfer input (.commit _) =>
    ∀ x ∈ db.transfers.rows, x.idempotencyKey ≠ some input.idempotencyKey
  | _ => True

namespace Change

variable {s : Shared} {i : Pid} {p : Proc} {a : Label} {db : Db} {es : List Event}

/-- A new account has an id that the process has locked. -/
theorem account_free (h : Change deps s i p a db es) {id : Uuid}
    (hfree : s.db.accounts.find? id = none) : db.accounts.find? id = none ∨ s.LockedBy i id := by
  cases h with
  | @moved _ transfer fromAccountId _ _ _ source destination _ _ _ _ hlocked _ _ _ _ _ =>
    left
    rw [← Option.not_isSome_iff_eq_none, Table.isSome_find?_put, Table.isSome_find?_put,
      Option.not_isSome_iff_eq_none]
    exact hfree
  | opened hlocked _ hinstall =>
    obtain ⟨t, ht, hcase⟩ := install_openingWrites hinstall
    have haccounts : db.accounts = t := by
      rcases hcase with ⟨_, rfl⟩ | ⟨_, u, _, rfl⟩ <;> rfl
    rw [haccounts, Table.find?_insert? ht]
    split
    · next heq =>
      subst heq
      exact .inr hlocked
    · exact .inl hfree
  | inserted _ hwrite =>
    obtain ⟨_, t, _, rfl⟩ := write_insertTransfer hwrite
    exact .inl hfree
  | quiet _ | rejected _ _ _ _ | locked _ _ _ _ | released _ _ | commented => exact .inl hfree

/-- A new transfer has a key that the process has locked. -/
theorem key_free (h : Change deps s i p a db es) {key : String}
    (hfree : ∀ x ∈ s.db.transfers.rows, x.idempotencyKey ≠ some key) :
    (∀ x ∈ db.transfers.rows, x.idempotencyKey ≠ some key) ∨
      s.locks.Holds i (.idempotencyKey key) .forUpdate := by
  have put {x y : TransferRow} (hx : x ∈ s.db.transfers.rows) (hsame : x.SameRequest y) :
      ∀ z ∈ (s.db.transfers.put y).rows, z.idempotencyKey ≠ some key := by
    intro z hz
    rcases Table.mem_put hz with hz | rfl
    · exact hfree z hz
    · rw [← hsame.idempotencyKey_eq]
      exact hfree x hx
  cases h with
  | moved _ _ _ _ hrow _ hc =>
    subst hc
    exact .inl (put (Table.mem_of_find? hrow) (TransferRow.sameRequest_complete _ _))
  | rejected _ _ hrow _ =>
    exact .inl (put (Table.mem_of_find? hrow) (TransferRow.sameRequest_fail _ _ _))
  | opened _ _ hinstall =>
    left
    obtain ⟨t, _, ⟨_, rfl⟩ | ⟨_, u, hu, rfl⟩⟩ := install_openingWrites hinstall
    · exact hfree
    · intro x hx
      rcases (Table.mem_insert? hu).mp hx with hx | rfl
      · exact hfree x hx
      · intro hkey
        cases hkey
  | @inserted input c hne c' _ hlocked hwrite =>
    obtain ⟨_, t, ht, rfl⟩ := write_insertTransfer hwrite
    by_cases hkey : input.idempotencyKey = key
    · exact .inr (hkey ▸ hlocked)
    · refine .inl fun x hx => ?_
      rcases (Table.mem_insert? ht).mp hx with hx | rfl
      · exact hfree x hx
      · exact fun heq => hkey (Option.some.inj heq)
  | quiet _ | locked _ _ _ _ | released _ _ | commented => exact .inl hfree

end Change

/-- What is free stays free while other processes take their steps: they would have to lock it. -/
theorem Proc.Free.stable {s : Shared} {i j : Pid} {p q : Proc} {a : Label} {db : Db}
    {es : List Event} (hfree : p.Free s.db) (hp : p.Holding deps s i)
    (h : Change deps s j q a db es) (hij : i ≠ j) : p.Free db := by
  have account {id : Uuid} (hlocked : s.LockedBy i id) (hnone : s.db.accounts.find? id = none) :
      db.accounts.find? id = none :=
    (h.account_free hnone).resolve_right fun hj => hij (hlocked.exclusive hj)
  have key {key : String} (hlocked : s.locks.Holds i (.idempotencyKey key) .forUpdate)
      (hnone : ∀ x ∈ s.db.transfers.rows, x.idempotencyKey ≠ some key) :
      ∀ x ∈ db.transfers.rows, x.idempotencyKey ≠ some key :=
    (h.key_free hnone).resolve_right fun hj => hij (hlocked.exclusive hj)
  cases p with
  | createAccount customerId deposit pc =>
    cases pc with
    | insertDeposit row => exact ⟨account hp.1 hfree.1, hfree.2⟩
    | commit row ws => exact account hp.1 hfree
    | _ => trivial
  | createTransfer input pc =>
    cases pc with
    | referenceFrom row => exact key hp.1 hfree
    | referenceTo row => exact key hp.1 hfree
    | commit row => exact key hp.1 hfree
    | _ => trivial
  | _ => trivial

theorem free_createAccount {s s₁ : Shared} {i : Pid} {customerId : Uuid}
    {deposit : NonNegativeCents} {pc : CreateAccountPc} {c : Choice} {m : Move}
    (hp : (Proc.createAccount customerId deposit pc).Free s.db)
    (hm : pc.next s customerId deposit c = some m) (happ : s.apply i m.effect = some s₁) :
    m.next.Free s₁.db := by
  cases pc with
  | selectCustomer =>
    simp only [CreateAccountPc.next] at hm
    split at hm <;> cases hm <;> trivial
  | insertAccount =>
    simp only [CreateAccountPc.next, Option.ite_none_right_eq_some, Option.some.injEq] at hm
    obtain ⟨hunused, rfl⟩ := hm
    have hnone : s.db.accounts.find? c.uuid = none := by
      simp only [Shared.unusedAccountId, Bool.and_eq_true, Option.isNone_iff_eq_none] at hunused
      exact hunused.1
    rw [apply_db happ rfl]
    by_cases h : 0 < deposit.cents
    · simp only [if_pos h]
      exact ⟨hnone, h⟩
    · simp only [if_neg h]
      exact hnone
  | insertDeposit account =>
    simp only [CreateAccountPc.next, Option.dite_none_right_eq_some, Option.some.injEq] at hm
    obtain ⟨_, rfl⟩ := hm
    rw [apply_db happ rfl]
    exact hp.1
  | commit account ws =>
    obtain rfl := Option.some.inj hm
    trivial

theorem free_createTransfer {s s₁ : Shared} {i : Pid} {input : CreateTransferInput}
    {pc : CreateTransferPc} {c : Choice} {m : Move} (hp : (Proc.createTransfer input pc).Free s.db)
    (hm : TransferService.next deps s i input c pc = some m)
    (happ : s.apply i m.effect = some s₁) : m.next.Free s₁.db := by
  cases pc with
  | insert =>
    simp only [TransferService.next] at hm
    split at hm
    · cases hm
      trivial
    · next hnone =>
      split at hm
      · split at hm
        · cases hm
          have hfree : ∀ x ∈ s.db.transfers.rows,
              x.idempotencyKey ≠ some input.idempotencyKey := by
            simpa [Db.transferByKey] using hnone
          rw [apply_db happ rfl]
          exact hfree
        · cases hm
      · cases hm
        trivial
  | referenceFrom row | referenceTo row =>
    obtain rfl := Option.some.inj hm
    rw [apply_db happ rfl]
    exact hp
  | assertAccountsExist =>
    simp only [TransferService.next] at hm
    split at hm <;> cases hm <;> trivial
  | commit row =>
    obtain rfl := Option.some.inj hm
    trivial
  | enqueue row created =>
    simp only [TransferService.next] at hm
    split at hm <;> cases hm <;> trivial
  | replay =>
    simp only [TransferService.next] at hm
    split at hm
    · cases hm
      trivial
    · split at hm
      · cases hm
        trivial
      · split at hm <;> cases hm <;> trivial

/-- A statement brings its process to what it has found free. -/
theorem free_act {s s₁ : Shared} {i : Pid} {p : Proc} {a : Label} {m : Move} (hp : p.Free s.db)
    (hm : Acts deps s i p a m) (happ : s.apply i m.effect = some s₁) : m.next.Free s₁.db := by
  cases hm with
  | @next p c m hm =>
    cases p with
    | idle => cases hm
    | processor job pc =>
      obtain rfl := Option.some.inj hm
      cases pc <;> simp only [ProcessorPc.next] <;> (repeat' split) <;> trivial
    | createAccount customerId deposit pc => exact free_createAccount hp hm happ
    | createLock accountId reason pc =>
      obtain rfl := Option.some.inj hm
      cases pc <;> simp only [CreateLockPc.next] <;> (try split) <;> trivial
    | releaseLock accountId lockId pc =>
      obtain rfl := Option.some.inj hm
      cases pc <;> simp only [ReleaseLockPc.next] <;> (try split) <;> trivial
    | createComment accountId body pc =>
      obtain rfl := Option.some.inj hm
      cases pc <;> simp only [CreateCommentPc.next] <;> (try split) <;> trivial
    | createTransfer input pc => exact free_createTransfer hp hm happ
  | @start op m hm =>
    cases op <;> simp only [Operation.begin] at hm <;> grind [Proc.Free]
  | abort => cases p <;> trivial
  | deliver _ | queue | crash => trivial

/-- In every run, what processes have found free is free. -/
theorem free {ok : Guard} {db : Db} {c : State} (h : Reaches deps ok db c) (i : Pid) :
    (c.locals i).Free c.shared.db := by
  refine h.invariant (Reaches deps ok db) (fun c => ∀ i, (c.locals i).Free c.shared.db)
    (fun _ hc => hc) (fun _ => trivial) ?_ i
  intro c j a c' hc hinv _ hmove i
  obtain ⟨s, p, hstep, rfl⟩ := Interleaving.move_eq_some.mp hmove
  by_cases hij : i = j
  · subst hij
    obtain ⟨m, s₁, hact, happ, rfl, rfl⟩ := step_eq_some.mp hstep
    simpa using free_act (hinv i) (acts_of_act hact) happ
  · obtain ⟨es, -, hchange⟩ := step_change (holding hc j) hstep
    simpa [Function.update_of_ne hij] using (hinv i).stable (holding hc i) hchange hij

/-! ## Going on -/

/-- The process waits for a row lock that others hold. -/
def Proc.Waits (s : Shared) (i : Pid) (p : Proc) : Prop :=
  ∃ row mode, p.request = some (row, mode) ∧ s.locks.available i row mode = false

/-- The process can carry out its next statement. -/
def Proc.GoesOn (deps : Dependencies) (s : Shared) (i : Pid) (p : Proc) : Prop :=
  ∃ c m s₁, p.next deps s i c = some m ∧ s.apply i m.effect = some s₁

/-- The effects that at most wait for a lock. -/
def Effect.waitsOnly : Effect → Bool
  | .quiet | .lock _ _ | .rollback | .enqueue _ _ | .settle _ _ => true
  | _ => false

theorem waits_or_goesOn {s : Shared} {i : Pid} {p : Proc} (c : Choice)
    (h : (p.next deps s i c).any (fun m => m.effect.waitsOnly) = true) :
    p.Waits s i ∨ p.GoesOn deps s i := by
  obtain ⟨m, hm, he⟩ := (Option.any_eq_true _ _).mp h
  by_cases happ : s.apply i m.effect = none
  · left
    cases heffect : m.effect with
    | lock row mode =>
      refine ⟨row, mode, request_of_waiting hm heffect happ, ?_⟩
      by_contra havailable
      obtain ⟨t, ht, -⟩ := LockTable.acquire?_of_available (Bool.not_eq_false _ ▸ havailable)
      rw [heffect, Shared.apply, ht] at happ
      cases happ
    | quiet | rollback | enqueue _ _ | settle _ _ =>
      rw [heffect] at happ
      cases happ
    | _ =>
      rw [heffect] at he
      cases he
  · obtain ⟨s₁, hs₁⟩ := Option.ne_none_iff_exists'.mp happ
    exact .inr ⟨c, m, s₁, hm, hs₁⟩

theorem goesOn_of_install {s : Shared} {i : Pid} {p : Proc} {c : Choice} {m : Move} {ws : List Write}
    (hm : p.next deps s i c = some m) (heffect : m.effect = .commit ws)
    (hinstall : (s.db.install ws).isSome = true) : p.GoesOn deps s i := by
  obtain ⟨db, hdb⟩ := Option.isSome_iff_exists.mp hinstall
  exact ⟨c, m, _, hm, by rw [heffect, Shared.apply, hdb]; rfl⟩

/-- An update outside a transaction waits for its row. -/
theorem waits_or_goesOn_of_autocommit {s : Shared} {i : Pid} {p : Proc} {c : Choice} {m : Move}
    {row : RowRef} {ws : List Write} (hm : p.next deps s i c = some m)
    (heffect : m.effect = .autocommit row ws) (hrequest : p.request = some (row, .forUpdate))
    (hinstall : (s.db.install ws).isSome = true) : p.Waits s i ∨ p.GoesOn deps s i := by
  obtain ⟨db, hdb⟩ := Option.isSome_iff_exists.mp hinstall
  by_cases havailable : s.locks.available i row .forUpdate = true
  · exact .inr ⟨c, m, _, hm, by rw [heffect, Shared.apply, if_pos havailable, hdb]; rfl⟩
  · exact .inl ⟨row, .forUpdate, hrequest, Bool.not_eq_true _ ▸ havailable⟩

/-- The insert of a transfer succeeds unless its id, its sequence number or its key is taken. -/
theorem insertTransfer_or {db : Db} {row : TransferRow}
    (hkey : ∀ x ∈ db.transfers.rows, row.idempotencyKey ≠ none →
      x.idempotencyKey ≠ row.idempotencyKey) :
    db.Taken row ∨ ∃ t, db.write (.insertTransfer row) = some { db with transfers := t } := by
  by_cases htaken : db.Taken row
  · exact .inl htaken
  · simp only [Db.Taken, not_exists, not_and, not_or] at htaken
    have hfree : db.transfers.find? row.id = none :=
      Table.find?_eq_none.mpr fun x hx => (htaken x hx).1
    obtain ⟨t, ht⟩ := Option.isSome_iff_exists.mp (Table.isSome_insert? hfree)
    have hcollides : ¬ db.transfers.rows.any row.collides = true := by
      rw [List.any_eq_true]
      rintro ⟨x, hx, hclash⟩
      simp only [TransferRow.collides, Bool.or_eq_true, Bool.and_eq_true, decide_eq_true_eq,
        Option.isSome_iff_ne_none] at hclash
      rcases hclash with ⟨hsome, heq⟩ | hseq
      · exact hkey x hx hsome heq.symm
      · exact (htaken x hx).2 hseq.symm
    exact .inr ⟨t, by rw [Db.write, if_neg hcollides, ht]; rfl⟩

/-- What a statement draws: the clock, an id and a sequence number. -/
def drawing (id : Uuid) : Choice := ⟨0, id, 0⟩

theorem can_execute {s : Shared} {i : Pid} {job : Option String} {transfer : TransferRow}
    {fromAccountId : Uuid} {pc : ExecutePc} (hpc : pc.Holding s i transfer fromAccountId) :
    (Proc.processor job (.executing transfer fromAccountId pc)).Waits s i ∨
      (Proc.processor job (.executing transfer fromAccountId pc)).GoesOn deps s i := by
  have hm : (Proc.processor job (.executing transfer fromAccountId pc)).next deps s i
      (drawing ⟨0⟩) = some ((ProcessorPc.executing transfer fromAccountId pc).next s i job
        (drawing ⟨0⟩)) := rfl
  cases pc with
  | commit readAt ws completed =>
    obtain ⟨source, destination, -, -, rfl, -⟩ := hpc
    exact .inr (goesOn_of_install hm rfl (by simp [accountVersions, Db.write]))
  | markFailed err =>
    refine waits_or_goesOn_of_autocommit hm rfl rfl ?_
    split <;> simp [Db.write]
  | lockRows accountId rest rowById =>
    refine waits_or_goesOn (drawing ⟨0⟩) ?_
    rw [hm, Option.any_some]
    simp only [ProcessorPc.next, TransferExecutor.next]
    split <;> rfl
  | readLocks rowById =>
    refine waits_or_goesOn (drawing ⟨0⟩) ?_
    rw [hm, Option.any_some]
    simp only [ProcessorPc.next, TransferExecutor.next]
    split <;> rfl
  | debit readAt => exact waits_or_goesOn (drawing ⟨0⟩) rfl
  | credit readAt ws =>
    refine waits_or_goesOn (drawing ⟨0⟩) ?_
    rw [hm, Option.any_some]
    simp only [ProcessorPc.next, TransferExecutor.next]
    split <;> rfl
  | complete readAt ws =>
    refine waits_or_goesOn (drawing ⟨0⟩) ?_
    rw [hm, Option.any_some]
    simp only [ProcessorPc.next, TransferExecutor.next]
    split <;> rfl

theorem can_createAccount {s : Shared} {i : Pid} {customerId : Uuid} {deposit : NonNegativeCents}
    {pc : CreateAccountPc} (hp : (Proc.createAccount customerId deposit pc).Holding deps s i)
    (hfree : (Proc.createAccount customerId deposit pc).Free s.db) :
    (Proc.createAccount customerId deposit pc).DrawsTaken s ∨
      (Proc.createAccount customerId deposit pc).Waits s i ∨
        (Proc.createAccount customerId deposit pc).GoesOn deps s i := by
  cases pc with
  | selectCustomer =>
    refine .inr (waits_or_goesOn (drawing ⟨0⟩) ?_)
    simp only [Proc.next, CreateAccountPc.next]
    split <;> rfl
  | insertAccount =>
    by_cases hleft : ∃ id, s.unusedAccountId id = true
    · obtain ⟨id, hid⟩ := hleft
      refine .inr (waits_or_goesOn (drawing id) ?_)
      simp only [Proc.next, CreateAccountPc.next, drawing, hid, if_true]
      rfl
    · exact .inl fun id => Bool.not_eq_true _ ▸ fun hid => hleft ⟨id, hid⟩
  | insertDeposit account =>
    refine .inr (waits_or_goesOn (drawing ⟨0⟩) ?_)
    simp only [Proc.next, CreateAccountPc.next, dif_pos hfree.2]
    rfl
  | commit account ws =>
    obtain ⟨-, -, c, rfl⟩ := hp
    obtain ⟨t, ht⟩ := Option.isSome_iff_exists.mp
      (Table.isSome_insert? (t := s.db.accounts) (r := account) hfree)
    have goesOn (ws : List Write) (hws : (s.db.install ws).isSome = true) :
        (Proc.createAccount customerId deposit (.commit account ws)).GoesOn deps s i :=
      goesOn_of_install (c := drawing ⟨0⟩) rfl rfl hws
    unfold openingWrites
    split
    · next hpos =>
      have hnokey : ∀ x ∈ ({ s.db with accounts := t } : Db).transfers.rows,
          (depositRow account ⟨deposit.cents, hpos, deposit.safe⟩ c).idempotencyKey ≠ none →
            x.idempotencyKey ≠
              (depositRow account ⟨deposit.cents, hpos, deposit.safe⟩ c).idempotencyKey :=
        fun _ _ hkey => absurd rfl hkey
      rcases insertTransfer_or hnokey with htaken | ⟨u, hu⟩
      · exact .inl ⟨_, List.mem_cons_of_mem _ List.mem_cons_self, htaken⟩
      · have haccount : s.db.write (.insertAccount account) = some { s.db with accounts := t } := by
          rw [Db.write, ht, Option.map_some]
        refine .inr (.inr (goesOn _ ?_))
        rw [Db.install_cons, haccount, Option.bind_some, Db.install_cons, hu]
        rfl
    · exact .inr (.inr (goesOn _ (by simp [Db.write, ht])))

theorem can_createTransfer {s : Shared} {i : Pid} {input : CreateTransferInput}
    {pc : CreateTransferPc} (hp : (Proc.createTransfer input pc).Holding deps s i)
    (hfree : (Proc.createTransfer input pc).Free s.db) :
    (Proc.createTransfer input pc).DrawsTaken s ∨ (Proc.createTransfer input pc).Waits s i ∨
      (Proc.createTransfer input pc).GoesOn deps s i := by
  cases pc with
  | assertAccountsExist =>
    refine .inr (waits_or_goesOn (drawing ⟨0⟩) ?_)
    simp only [Proc.next, TransferService.next]
    split <;> rfl
  | insert =>
    by_cases hkey : (s.db.transferByKey input.idempotencyKey).isSome = true
    · refine .inr (waits_or_goesOn (drawing ⟨0⟩) ?_)
      rw [Proc.next, TransferService.next, if_pos hkey]
      rfl
    · by_cases hne : input.fromAccountId ≠ input.toAccountId
      · by_cases hleft : ∃ id, (s.db.transfers.find? id).isNone = true
        · obtain ⟨id, hid⟩ := hleft
          refine .inr (waits_or_goesOn (drawing id) ?_)
          rw [Proc.next, TransferService.next, if_neg hkey, dif_pos hne]
          simp only [drawing, hid, if_true]
          rfl
        · refine .inl fun id => ?_
          by_contra hnone
          exact hleft ⟨id, by simpa using hnone⟩
      · refine .inr (waits_or_goesOn (drawing ⟨0⟩) ?_)
        rw [Proc.next, TransferService.next, if_neg hkey, dif_neg hne]
        rfl
  | referenceFrom row => exact .inr (waits_or_goesOn (drawing ⟨0⟩) rfl)
  | referenceTo row => exact .inr (waits_or_goesOn (drawing ⟨0⟩) rfl)
  | commit row =>
    obtain ⟨-, c, hne, rfl⟩ := hp
    have hkey : ∀ x ∈ s.db.transfers.rows,
        (TransferService.pendingRow deps input c hne).idempotencyKey ≠ none →
          x.idempotencyKey ≠ (TransferService.pendingRow deps input c hne).idempotencyKey :=
      fun x hx _ => hfree x hx
    rcases insertTransfer_or hkey with htaken | ⟨t, ht⟩
    · exact .inl htaken
    · exact .inr (.inr (goesOn_of_install (c := drawing ⟨0⟩) rfl rfl (by simp [ht])))
  | enqueue row created =>
    refine .inr (waits_or_goesOn (drawing ⟨0⟩) ?_)
    simp only [Proc.next, TransferService.next]
    split <;> rfl
  | replay =>
    refine .inr (waits_or_goesOn (drawing ⟨0⟩) ?_)
    simp only [Proc.next, TransferService.next]
    split
    · rfl
    · split
      · rfl
      · split <;> rfl

/-- A busy process goes on, waits for a row lock, or has drawn a taken number. -/
theorem can_move {s : Shared} {i : Pid} {p : Proc} (hp : p.Holding deps s i)
    (hfree : p.Free s.db) (hbusy : p ≠ .idle) :
    p.DrawsTaken s ∨ p.Waits s i ∨ p.GoesOn deps s i := by
  cases p with
  | idle => exact absurd rfl hbusy
  | processor job pc =>
    right
    cases pc with
    | select transferId =>
      refine waits_or_goesOn (drawing ⟨0⟩) ?_
      simp only [Proc.next, ProcessorPc.next]
      split
      · rfl
      · split <;> rfl
    | executing transfer fromAccountId pc => exact can_execute hp.2.2
    | acknowledge outcome => cases job <;> exact waits_or_goesOn (drawing ⟨0⟩) rfl
  | createAccount customerId deposit pc => exact can_createAccount hp hfree
  | createLock accountId reason pc =>
    cases pc with
    | selectAccount =>
      refine .inr (waits_or_goesOn (drawing ⟨0⟩) ?_)
      simp only [Proc.next, CreateLockPc.next]
      split <;> rfl
    | insertLock => exact .inr (waits_or_goesOn (drawing ⟨0⟩) rfl)
    | commit lock =>
      by_cases htaken : (s.db.accountLocks.find? lock.id).isSome = true
      · exact .inl htaken
      · obtain ⟨t, ht⟩ := Option.isSome_iff_exists.mp (Table.isSome_insert?
          (t := s.db.accountLocks) (r := lock) (Option.not_isSome_iff_eq_none.mp htaken))
        exact .inr (.inr (goesOn_of_install (c := drawing ⟨0⟩) rfl rfl (by simp [Db.write, ht])))
  | releaseLock accountId lockId pc =>
    right
    cases pc with
    | assertAccountExists =>
      refine waits_or_goesOn (drawing ⟨0⟩) ?_
      simp only [Proc.next, ReleaseLockPc.next]
      split <;> rfl
    | update =>
      cases hlock : s.db.releasable accountId lockId with
      | none =>
        refine waits_or_goesOn (drawing ⟨0⟩) ?_
        simp only [Proc.next, ReleaseLockPc.next, hlock]
        rfl
      | some lock =>
        have hm : (Proc.releaseLock accountId lockId .update).next deps s i (drawing ⟨0⟩) =
            some ⟨.autocommit (.lock lockId) [.putLock { lock with releasedAt := some 0 }],
              [.released lockId], .idle⟩ := by
          simp only [Proc.next, ReleaseLockPc.next, hlock]
          rfl
        exact waits_or_goesOn_of_autocommit hm rfl rfl (by simp [Db.write])
    | selectLock =>
      refine waits_or_goesOn (drawing ⟨0⟩) ?_
      simp only [Proc.next, ReleaseLockPc.next]
      split <;> rfl
  | createComment accountId body pc =>
    cases pc with
    | assertAccountExists =>
      refine .inr (waits_or_goesOn (drawing ⟨0⟩) ?_)
      simp only [Proc.next, CreateCommentPc.next]
      split <;> rfl
    | insert => exact .inr (waits_or_goesOn (drawing ⟨0⟩) rfl)
    | commit comment =>
      by_cases htaken : (s.db.accountComments.find? comment.id).isSome = true
      · exact .inl htaken
      · obtain ⟨t, ht⟩ := Option.isSome_iff_exists.mp (Table.isSome_insert?
          (t := s.db.accountComments) (r := comment) (Option.not_isSome_iff_eq_none.mp htaken))
        exact .inr (.inr (goesOn_of_install (c := drawing ⟨0⟩) rfl rfl (by simp [Db.write, ht])))
  | createTransfer input pc => exact can_createTransfer hp hfree

/-! ## All calls -/

/-- Finitely many processes are busy. -/
theorem exists_busy {ok : Guard} {db : Db} {c : State} (h : Reaches deps ok db c) :
    ∃ busy : Finset Pid, ∀ i, i ∈ busy ↔ c.locals i ≠ .idle := by
  induction h with
  | refl => exact ⟨∅, by simp [State.init]⟩
  | @step c c' i a _ _ hmove ih =>
    obtain ⟨busy, hbusy⟩ := ih
    obtain ⟨s, p, -, rfl⟩ := Interleaving.move_eq_some.mp hmove
    refine ⟨{j ∈ insert i busy | Function.update c.locals i p j ≠ .idle}, fun j => ?_⟩
    simp only [Finset.mem_filter, Finset.mem_insert, and_iff_right_iff_imp]
    intro hj
    by_cases hji : j = i
    · exact .inl hji
    · rw [Function.update_of_ne hji] at hj
      exact .inr ((hbusy j).mpr hj)

/-- Where nobody can go on, either all calls have ended or one has drawn a taken number. -/
theorem ended_of_exhausted {inputs : CreateTransferInput → Prop}
    (hsorted : ∀ input, inputs input → input.fromAccountId ≤ input.toAccountId) {db : Db} {c : State}
    (h : Reaches deps (submitting inputs) db c) (hend : (system deps).Exhausted onwards c) :
    (∀ i, c.locals i = .idle) ∨ ∃ i, (c.locals i).DrawsTaken c.shared := by
  obtain ⟨busy, hbusy⟩ := exists_busy h
  rcases busy.eq_empty_or_nonempty with rfl | hnonempty
  · exact .inl fun i => not_not.mp fun hi => Finset.notMem_empty i ((hbusy i).mpr hi)
  · obtain ⟨i, hi, hfirst⟩ :=
      LockTable.exists_not_waiting (not_deadlocked_of_sorted hsorted h) hnonempty
    rcases can_move (holding h i) (free h i) ((hbusy i).mp hi) with htaken | hwaits | hgoes
    · exact .inr ⟨i, htaken⟩
    · -- whoever holds the lock is busy
      obtain ⟨row, mode, hrequest, hunavailable⟩ := hwaits
      have hheld : ¬ c.shared.locks.available i row mode = true := by simp [hunavailable]
      simp only [LockTable.available_iff, not_forall, Bool.not_eq_false] at hheld
      obtain ⟨j, mode', hj, hij, hconflict⟩ := hheld
      have hjbusy : j ∈ busy := by
        rw [hbusy]
        intro hidle
        have hmem := mem_lockSet h j row mode' hj
        rw [hidle] at hmem
        cases hmem
      exact (hfirst j hjbusy ⟨hij, row, mode, mode', hrequest, hj, hconflict⟩).elim
    · obtain ⟨choice, m, s₁, hm, happ⟩ := hgoes
      have hact : (c.locals i).act deps c.shared i (.next choice) = some m := by
        cases hp : c.locals i with
        | idle =>
          rw [hp] at hm
          cases hm
        | _ =>
          rw [hp] at hm
          exact hm
      have hmove : (system deps).move c i (.next choice) =
          some ⟨s₁.record m.events, Function.update c.locals i m.next⟩ :=
        Interleaving.move_eq_some.mpr ⟨_, _, step_eq_some.mpr ⟨m, s₁, hact, happ, rfl, rfl⟩, rfl⟩
      rw [hend i (.next choice) trivial] at hmove
      cases hmove

/-- When all transfers name the smaller account first, the calls in progress end. Any schedule of
them has at most nine statements a call, and some schedule goes on to the end; at the end of each
one, either all calls have ended or the database refuses a number that was drawn. -/
theorem calls_end {inputs : CreateTransferInput → Prop}
    (hsorted : ∀ input, inputs input → input.fromAccountId ≤ input.toAccountId) {db : Db} {c : State}
    (h : Reaches deps (submitting inputs) db c) :
    ∃ busy : Finset Pid, (∀ i, i ∈ busy ↔ c.locals i ≠ .idle) ∧
      (∀ schedule c', (system deps).moves onwards c schedule = some c' →
        schedule.length ≤ 9 * busy.card) ∧
      (∃ c', (system deps).Run onwards c c' ∧ (system deps).Exhausted onwards c') ∧
      ∀ c', (system deps).Run onwards c c' → (system deps).Exhausted onwards c' →
        (∀ i, c'.locals i = .idle) ∨ ∃ i, (c'.locals i).DrawsTaken c'.shared := by
  obtain ⟨busy, hbusy⟩ := exists_busy h
  have hidle : ∀ i ∉ busy, (c.locals i).work = 0 := by
    intro i hi
    rw [not_not.mp (mt (hbusy i).mpr hi)]
    rfl
  refine ⟨busy, hbusy, fun schedule c' hschedule => ?_,
    consumes_onwards.exists_exhausted hidle, fun c' hrun hend => ?_⟩
  · refine (consumes_onwards.length_le hidle hschedule).trans ?_
    rw [mul_comm]
    exact Finset.sum_le_card_nsmul _ _ _ fun i _ => work_le (holding h i)
  · have honwards : (system deps).Run (submitting inputs) c c' :=
      hrun.refine fun c i a _ _ hok _ => by
        cases a with
        | next choice => trivial
        | _ => cases hok
    exact ended_of_exhausted hsorted (h.trans honwards) hend

instance (inputs : CreateTransferInput → Prop) [DecidablePred inputs] (c : State) (i : Pid)
    (a : Label) : Decidable (submitting inputs c i a) :=
  match a with
  | .start (.createTransfer input) => inferInstanceAs (Decidable (inputs input))
  | .start (.processJob _) | .start (.execute _) | .start (.createAccount _ _)
  | .start (.createLock _ _) | .start (.releaseLock _ _) | .start (.createComment _ _)
  | .deliver _ | .next _ | .abort | .crash | .queue _ => .isTrue trivial

/-- A transfer names the smaller account first. -/
abbrev CreateTransferInput.Sorted (input : CreateTransferInput) : Prop :=
  input.fromAccountId ≤ input.toAccountId

/-- Two transfers between the same accounts are under way. -/
def twoTransfers : List (Pid × Label) :=
  openAccounts ++ [(1, .start (.createTransfer (sampleInput "first"))), (1, .next (chosen 5)),
    (1, .next (chosen 5)), (2, .start (.createTransfer (sampleInput "second"))),
    (2, .next (chosen 6))]

theorem calls_end_two : ∃ c c' : State,
    Reaches sampleDeps (submitting CreateTransferInput.Sorted) (Db.seeded sampleCustomers) c ∧
      c.locals 1 ≠ .idle ∧ c.locals 2 ≠ .idle ∧ (system sampleDeps).Run onwards c c' ∧
      ((∀ i, c'.locals i = .idle) ∨ ∃ i, (c'.locals i).DrawsTaken c'.shared) := by
  have hmoves : ((system sampleDeps).moves (submitting CreateTransferInput.Sorted)
      (State.init (Db.seeded sampleCustomers)) twoTransfers).map (fun c =>
        (decide (c.locals 1 ≠ .idle), decide (c.locals 2 ≠ .idle))) = some (true, true) := by
    decide
  obtain ⟨c, hc, hbusy⟩ := Option.map_eq_some_iff.mp hmoves
  simp only [Prod.mk.injEq, decide_eq_true_eq] at hbusy
  have hreach := Interleaving.Run.of_moves .refl hc
  have hsorted : ∀ input : CreateTransferInput, input.Sorted →
      input.fromAccountId ≤ input.toAccountId := fun _ h => h
  obtain ⟨busy, -, -, ⟨c', hrun, hend⟩, hended⟩ := calls_end hsorted hreach
  exact ⟨c, c', hreach, hbusy.1, hbusy.2, hrun, hended c' hrun hend⟩

end BankPlatform.Bank
