import BankPlatform.Bank.System

/-!
# What a step can do

The row locks and the private row versions that a process has at each await (`Proc.Holding`), and
from them every change that a step makes to the committed database (`Change`). All invariants of
the bank are derived from these two and from the guarantee that a step gives to the processes that
hold locks (`Guarantee`).

## Main results

* `step_change` — a step makes one of the listed changes.
* `step_guarantee` — a step leaves alone what other processes have locked.
* `holding` — `Proc.Holding` in every run.
-/

namespace BankPlatform.Bank

open Library

/-! ## Inversion of a step -/

theorem step_eq_some {deps : Dependencies} {s s' : Shared} {i : Pid} {p p' : Proc}
    {a : Label} :
    (system deps).step s i p a = some (s', p') ↔ ∃ m s₁, p.act deps s i a = some m ∧
      s.apply i m.effect = some s₁ ∧ s' = s₁.record m.events ∧ p' = m.next := by
  simp only [system, Shared.perform, Option.bind_eq_some_iff, Option.map_eq_some_iff,
    Prod.mk.injEq]
  constructor
  · rintro ⟨m, hm, s₁, hs, rfl, rfl⟩
    exact ⟨m, s₁, hm, hs, rfl, rfl⟩
  · rintro ⟨m, s₁, hm, hs, rfl, rfl⟩
    exact ⟨m, hm, s₁, hs, rfl, rfl⟩

/-- The ways in which a process comes to a statement. -/
inductive Acts (deps : Dependencies) (s : Shared) (i : Pid) : Proc → Label → Move → Prop
  | next {p c m} : p.next deps s i c = some m → Acts deps s i p (.next c) m
  | start {op m} : op.begin s = some m → Acts deps s i .idle (.start op) m
  | deliver {job : Job} : s.queue.find? job.id = some job →
      Acts deps s i .idle (.deliver job.id)
        ⟨.take job.id, [], .processor (some job.id) (.select job.transferId)⟩
  | queue {e} : Acts deps s i .idle (.queue e) ⟨.react e, [], .idle⟩
  | abort {p} : Acts deps s i p .abort p.abort
  | crash {p} : Acts deps s i p .crash ⟨.rollback, [], .idle⟩

theorem acts_of_act {deps : Dependencies} {s : Shared} {i : Pid} {p : Proc} {a : Label}
    {m : Move} (h : p.act deps s i a = some m) : Acts deps s i p a m := by
  cases a with
  | next c => exact .next (by cases p <;> simpa [Proc.act] using h)
  | abort =>
    obtain rfl : p.abort = m := by cases p <;> simpa [Proc.act] using h
    exact .abort
  | crash =>
    obtain rfl : ⟨.rollback, [], .idle⟩ = m := by cases p <;> simpa [Proc.act] using h
    exact .crash
  | start op =>
    cases p with
    | idle => exact .start h
    | _ => simp [Proc.act] at h
  | deliver jobId =>
    cases p with
    | idle =>
      simp only [Proc.act, Option.map_eq_some_iff] at h
      obtain ⟨job, hjob, rfl⟩ := h
      obtain rfl : job.id = jobId := Table.key_of_find? hjob
      exact .deliver hjob
    | _ => simp [Proc.act] at h
  | queue e =>
    cases p with
    | idle =>
      obtain rfl : ⟨.react e, [], .idle⟩ = m := by simpa [Proc.act] using h
      exact .queue
    | _ => simp [Proc.act] at h

/-! ## What a process holds -/

namespace Shared

/-- Process `i` holds the row lock of an account. -/
def LockedBy (s : Shared) (i : Pid) (accountId : Uuid) : Prop :=
  s.locks.Holds i (.account accountId) .forUpdate

end Shared

/-- Both account rows of a run of `execute`, found and locked. -/
structure BothLocked (s : Shared) (i : Pid) (transfer : TransferRow) (fromAccountId : Uuid)
    (source destination : AccountRow) : Prop where
  source_locked : s.LockedBy i fromAccountId
  destination_locked : s.LockedBy i transfer.toAccountId
  source_row : s.db.accounts.find? fromAccountId = some source
  destination_row : s.db.accounts.find? transfer.toAccountId = some destination

/-- The uncommitted account versions of a run that has debited and credited. -/
def accountVersions (transfer : TransferRow) (source destination : AccountRow) : List Write :=
  [.putAccount (source.add (-transfer.amountCents.cents)),
    .putAccount (destination.add transfer.amountCents.cents)]

/-- What a run of `execute` holds at each await. -/
def ExecutePc.Holding (s : Shared) (i : Pid) (transfer : TransferRow) (fromAccountId : Uuid) :
    ExecutePc → Prop
  | .lockRows accountId rest rowById =>
    let order := lockOrder fromAccountId transfer.toAccountId
    (accountId = order.1 ∧ rest = [order.2] ∧ rowById = []) ∨
      (accountId = order.2 ∧ rest = [] ∧ s.LockedBy i order.1 ∧
        ∃ row, s.db.accounts.find? order.1 = some row ∧ rowById = [(order.1, row.balanceNumber)])
  | .readLocks rowById => ∃ source destination,
      BothLocked s i transfer fromAccountId source destination ∧
        rowById.lookup fromAccountId = some source.balanceNumber
  | .debit _ => ∃ source destination,
      BothLocked s i transfer fromAccountId source destination ∧
        transfer.amountCents.cents ≤ source.balanceCents
  | .credit _ ws => ∃ source destination,
      BothLocked s i transfer fromAccountId source destination ∧
        transfer.amountCents.cents ≤ source.balanceCents ∧
        ws = [.putAccount (source.add (-transfer.amountCents.cents))]
  | .complete _ ws => ∃ source destination,
      BothLocked s i transfer fromAccountId source destination ∧
        transfer.amountCents.cents ≤ source.balanceCents ∧
        ws = accountVersions transfer source destination
  | .commit _ ws completed => ∃ source destination,
      BothLocked s i transfer fromAccountId source destination ∧
        transfer.amountCents.cents ≤ source.balanceCents ∧
        ws = accountVersions transfer source destination ∧
        s.locks.Holds i (.transfer transfer.id) .forUpdate ∧
        ∃ row now, s.db.transfers.find? transfer.id = some row ∧ completed = row.complete now
  | .markFailed _ => True

/-- The row that `AccountService.create` inserts besides the account. -/
def openingWrites (account : AccountRow) (deposit : NonNegativeCents) (c : Choice) : List Write :=
  if h : 0 < deposit.cents then
    [.insertAccount account, .insertTransfer (depositRow account ⟨deposit.cents, h, deposit.safe⟩ c)]
  else [.insertAccount account]

/-- What a process holds at each await. -/
def Proc.Holding (deps : Dependencies) (s : Shared) (i : Pid) : Proc → Prop
  | .processor _ (.executing transfer fromAccountId pc) =>
    transfer.fromAccountId = some fromAccountId ∧ s.db.stores transfer ∧
      pc.Holding s i transfer fromAccountId
  | .createAccount _ deposit (.insertDeposit account) =>
    s.LockedBy i account.id ∧ account.balanceCents = deposit.cents
  | .createAccount _ deposit (.commit account ws) =>
    s.LockedBy i account.id ∧ account.balanceCents = deposit.cents ∧
      ∃ c, ws = openingWrites account deposit c
  | .createLock accountId _ .insertLock => s.LockedBy i accountId
  | .createLock accountId _ (.commit lock) =>
    s.LockedBy i accountId ∧ lock.accountId = accountId ∧ lock.releasedAt = none
  | .createTransfer input (.referenceFrom row) | .createTransfer input (.referenceTo row)
  | .createTransfer input (.commit row) =>
    s.locks.Holds i (.idempotencyKey input.idempotencyKey) .forUpdate ∧
      ∃ c h, row = TransferService.pendingRow deps input c h
  | _ => True

/-! ## The changes of a step -/

/-- Events that come with no change of the database. -/
def Event.silent : Event → Bool
  | .called _ | .responded _ _ | .locksRead _ _ | .threw _ => true
  | _ => false

/-- What a step of process `i` commits, and what it records. -/
inductive Change (deps : Dependencies) (s : Shared) (i : Pid) :
    Proc → Label → Db → List Event → Prop
  | quiet {p a es} : (∀ e ∈ es, e.silent) → Change deps s i p a s.db es
  | moved {job transfer fromAccountId readAt ws completed source destination row now c} :
      transfer.fromAccountId = some fromAccountId →
      BothLocked s i transfer fromAccountId source destination →
      (transfer.amountCents.cents : ℤ) ≤ source.balanceCents →
      s.locks.Holds i (.transfer transfer.id) .forUpdate →
      s.db.transfers.find? transfer.id = some row → row.SameRequest transfer →
      completed = row.complete now →
      Change deps s i
        (.processor job (.executing transfer fromAccountId (.commit readAt ws completed)))
        (.next c)
        { s.db with
          accounts := (s.db.accounts.put (source.add (-transfer.amountCents.cents))).put
            (destination.add transfer.amountCents.cents)
          transfers := s.db.transfers.put completed }
        [.moved transfer fromAccountId readAt]
  | rejected {job transfer fromAccountId err row now c} :
      transfer.fromAccountId = some fromAccountId →
      s.locks.available i (.transfer transfer.id) .forUpdate →
      s.db.transfers.find? transfer.id = some row → row.SameRequest transfer →
      Change deps s i (.processor job (.executing transfer fromAccountId (.markFailed err)))
        (.next c)
        { s.db with transfers := s.db.transfers.put (row.fail err.code now) }
        [.rejected transfer.id err.code]
  | opened {customerId ws c c' db'} {account : AccountRow} {deposit : NonNegativeCents} :
      s.LockedBy i account.id → account.balanceCents = deposit.cents →
      s.db.install (openingWrites account deposit c) = some db' →
      Change deps s i (.createAccount customerId deposit (.commit account ws)) (.next c') db'
        [.opened account]
  | inserted {input c h c' db'} :
      s.locks.Holds i (.idempotencyKey input.idempotencyKey) .forUpdate →
      s.db.write (.insertTransfer (TransferService.pendingRow deps input c h)) = some db' →
      Change deps s i
        (.createTransfer input (.commit (TransferService.pendingRow deps input c h))) (.next c')
        db'
        [.inserted i (TransferService.pendingRow deps input c h)]
  | locked {accountId reason lock t c} :
      s.LockedBy i accountId → lock.accountId = accountId → lock.releasedAt = none →
      s.db.accountLocks.insert? lock = some t →
      Change deps s i (.createLock accountId reason (.commit lock)) (.next c)
        { s.db with accountLocks := t } [.locked lock]
  | released {accountId lockId pc c} {lock : LockRow} {now} :
      s.db.accountLocks.find? lockId = some lock → lock.releasedAt = none →
      Change deps s i (.releaseLock accountId lockId pc) (.next c)
        { s.db with accountLocks := s.db.accountLocks.put { lock with releasedAt := some now } }
        [.released lockId]
  | commented {accountId body pc t c} :
      Change deps s i (.createComment accountId body pc) (.next c)
        { s.db with accountComments := t } []

/-- The effects that leave the committed database alone. -/
def Effect.private : Effect → Bool
  | .commit _ | .autocommit _ _ => false
  | _ => true

theorem apply_log {s s₁ : Shared} {i : Pid} {e : Effect} (h : s.apply i e = some s₁) :
    s₁.log = s.log := by
  cases e <;> simp only [Shared.apply, Option.map_eq_some_iff, Option.some.injEq,
    Option.ite_none_right_eq_some] at h <;> grind

theorem apply_db {s s₁ : Shared} {i : Pid} {e : Effect} (h : s.apply i e = some s₁)
    (he : e.private) : s₁.db = s.db := by
  cases e <;> simp only [Shared.apply, Option.map_eq_some_iff, Option.some.injEq,
    Option.ite_none_right_eq_some] at h <;> grind [Effect.private]

/-- A statement that commits nothing and records silent events only. -/
def Move.quiet (m : Move) : Bool := m.effect.private && m.events.all Event.silent

theorem change_of_quiet {deps : Dependencies} {s s₁ : Shared} {i : Pid} {p : Proc}
    {a : Label} {m : Move} (hm : m.quiet) (h : s.apply i m.effect = some s₁) :
    Change deps s i p a s₁.db m.events := by
  simp only [Move.quiet, Bool.and_eq_true, List.all_eq_true] at hm
  rw [apply_db h hm.1]
  exact .quiet hm.2

theorem quiet_start {s : Shared} {op : Operation} {m : Move} (h : op.begin s = some m) :
    m.quiet := by
  cases op <;> simp only [Operation.begin, Option.ite_none_right_eq_some, Option.some.injEq] at h <;>
    grind [Move.quiet, Effect.private, Event.silent]

theorem quiet_abort (p : Proc) : p.abort.quiet := by
  cases p <;> rfl

theorem mem_stores {db : Db} {transfer : TransferRow} (h : db.stores transfer) :
    ∃ row, db.transfers.find? transfer.id = some row ∧ row.SameRequest transfer := by
  simpa only [Db.stores, Option.any_eq_true, decide_eq_true_eq] using h

theorem change_execute {deps : Dependencies} {s s₁ : Shared} {i : Pid} {job : Option String}
    {transfer : TransferRow} {fromAccountId : Uuid} {pc : ExecutePc} {c : Choice}
    (hfrom : transfer.fromAccountId = some fromAccountId) (hstored : s.db.stores transfer)
    (hpc : pc.Holding s i transfer fromAccountId)
    (happ : s.apply i (TransferExecutor.next s i transfer fromAccountId c pc).1 = some s₁) :
    Change deps s i (.processor job (.executing transfer fromAccountId pc)) (.next c) s₁.db
      (TransferExecutor.next s i transfer fromAccountId c pc).2.1 := by
  obtain ⟨stored, hfind, hsame⟩ := mem_stores hstored
  cases pc with
  | lockRows accountId rest rowById =>
    refine change_of_quiet (m := ⟨_, _, .idle⟩) ?_ happ
    simp only [TransferExecutor.next]
    split <;> rfl
  | readLocks rowById =>
    refine change_of_quiet (m := ⟨_, _, .idle⟩) ?_ happ
    simp only [TransferExecutor.next]
    split <;> rfl
  | debit readAt => exact change_of_quiet (m := ⟨_, _, .idle⟩) rfl happ
  | credit readAt ws =>
    refine change_of_quiet (m := ⟨_, _, .idle⟩) ?_ happ
    simp only [TransferExecutor.next]
    split <;> rfl
  | complete readAt ws =>
    refine change_of_quiet (m := ⟨_, _, .idle⟩) ?_ happ
    simp only [TransferExecutor.next]
    split <;> rfl
  | commit readAt ws completed =>
    obtain ⟨source, destination, hboth, hfunds, rfl, hlock, row, now, hrow, rfl⟩ := hpc
    obtain rfl : stored = row := by simpa [hfind] using hrow
    simp only [TransferExecutor.next, Shared.apply, accountVersions, List.cons_append,
      List.nil_append, Db.install_cons, Db.install_nil, Db.write, Option.bind_some,
      Option.map_some, Option.some.injEq] at happ
    subst happ
    exact .moved hfrom hboth hfunds hlock hfind hsame rfl
  | markFailed err =>
    simp only [TransferExecutor.next, hfind, Shared.apply, Db.install_cons, Db.install_nil,
      Db.write, Option.bind_some, Option.map_some, Option.ite_none_right_eq_some,
      Option.some.injEq] at happ
    obtain ⟨havail, rfl⟩ := happ
    exact .rejected hfrom havail hfind hsame

theorem change_createAccount {deps : Dependencies} {s s₁ : Shared} {i : Pid}
    {customerId : Uuid} {deposit : NonNegativeCents} {pc : CreateAccountPc} {c : Choice} {m : Move}
    (hp : (Proc.createAccount customerId deposit pc).Holding deps s i)
    (hm : pc.next s customerId deposit c = some m) (happ : s.apply i m.effect = some s₁) :
    Change deps s i (.createAccount customerId deposit pc) (.next c) s₁.db m.events := by
  cases pc with
  | commit account ws =>
    obtain ⟨hlock, hbalance, c', rfl⟩ := hp
    obtain rfl := Option.some.inj hm
    obtain ⟨db', hdb, rfl⟩ := Option.map_eq_some_iff.mp happ
    exact .opened hlock hbalance hdb
  | _ =>
    refine change_of_quiet ?_ happ
    simp only [CreateAccountPc.next] at hm
    grind [Move.quiet, Effect.private, Event.silent]

theorem change_createTransfer {deps : Dependencies} {s s₁ : Shared} {i : Pid}
    {input : CreateTransferInput} {pc : CreateTransferPc} {c : Choice} {m : Move}
    (hp : (Proc.createTransfer input pc).Holding deps s i)
    (hm : TransferService.next deps s i input c pc = some m)
    (happ : s.apply i m.effect = some s₁) :
    Change deps s i (.createTransfer input pc) (.next c) s₁.db m.events := by
  cases pc with
  | commit row =>
    obtain ⟨hlock, c', h, rfl⟩ := hp
    obtain rfl := Option.some.inj hm
    obtain ⟨db', hdb, rfl⟩ := Option.map_eq_some_iff.mp happ
    refine .inserted hlock ?_
    simpa [Db.install] using hdb
  | _ =>
    refine change_of_quiet ?_ happ
    simp only [TransferService.next, TransferService.respond] at hm
    grind [Move.quiet, Effect.private, Event.silent]

theorem change_next {deps : Dependencies} {s s₁ : Shared} {i : Pid} {p : Proc} {c : Choice}
    {m : Move} (hp : p.Holding deps s i) (hm : p.next deps s i c = some m)
    (happ : s.apply i m.effect = some s₁) : Change deps s i p (.next c) s₁.db m.events := by
  cases p with
  | idle => simp [Proc.next] at hm
  | processor job pc =>
    obtain rfl := Option.some.inj hm
    cases pc with
    | select transferId =>
      refine change_of_quiet ?_ happ
      simp only [ProcessorPc.next]
      split
      · rfl
      · split <;> rfl
    | executing transfer fromAccountId pc => exact change_execute hp.1 hp.2.1 hp.2.2 happ
    | acknowledge outcome =>
      refine change_of_quiet ?_ happ
      simp only [ProcessorPc.next]
      split <;> rfl
  | createAccount customerId deposit pc => exact change_createAccount hp hm happ
  | createLock accountId reason pc =>
    obtain rfl := Option.some.inj hm
    cases pc with
    | selectAccount =>
      refine change_of_quiet ?_ happ
      simp only [CreateLockPc.next]
      split <;> rfl
    | insertLock => exact change_of_quiet rfl happ
    | commit lock =>
      obtain ⟨hlock, haccount, hactive⟩ := hp
      obtain ⟨db', hdb, rfl⟩ := Option.map_eq_some_iff.mp happ
      obtain ⟨t, ht, rfl⟩ : ∃ t, s.db.accountLocks.insert? lock = some t ∧
          { s.db with accountLocks := t } = db' := by
        simpa [Db.install, Db.write] using hdb
      exact .locked hlock haccount hactive ht
  | releaseLock accountId lockId pc =>
    obtain rfl := Option.some.inj hm
    cases pc with
    | assertAccountExists =>
      refine change_of_quiet ?_ happ
      simp only [ReleaseLockPc.next]
      split <;> rfl
    | update =>
      simp only [ReleaseLockPc.next] at happ ⊢
      cases hl : s.db.releasable accountId lockId with
      | none =>
        rw [hl] at happ
        exact change_of_quiet rfl happ
      | some lock =>
        rw [hl] at happ
        simp only [Db.releasable, Option.filter_eq_some_iff, Bool.and_eq_true,
          Option.isNone_iff_eq_none] at hl
        simp only [Shared.apply, Db.install_cons, Db.install_nil, Db.write, Option.bind_some,
          Option.map_some, Option.ite_none_right_eq_some, Option.some.injEq] at happ
        obtain ⟨_, rfl⟩ := happ
        exact .released hl.1 hl.2.2
    | selectLock =>
      refine change_of_quiet ?_ happ
      simp only [ReleaseLockPc.next]
      split <;> rfl
  | createComment accountId body pc =>
    obtain rfl := Option.some.inj hm
    cases pc with
    | assertAccountExists =>
      refine change_of_quiet ?_ happ
      simp only [CreateCommentPc.next]
      split <;> rfl
    | insert => exact change_of_quiet rfl happ
    | commit comment =>
      obtain ⟨db', hdb, rfl⟩ := Option.map_eq_some_iff.mp happ
      obtain ⟨t, _, rfl⟩ : ∃ t, s.db.accountComments.insert? comment = some t ∧
          { s.db with accountComments := t } = db' := by
        simpa [Db.install, Db.write] using hdb
      exact .commented
  | createTransfer input pc => exact change_createTransfer hp hm happ

theorem change_act {deps : Dependencies} {s s₁ : Shared} {i : Pid} {p : Proc} {a : Label}
    {m : Move} (hp : p.Holding deps s i) (h : Acts deps s i p a m)
    (happ : s.apply i m.effect = some s₁) : Change deps s i p a s₁.db m.events := by
  cases h with
  | next hm => exact change_next hp hm happ
  | start hm => exact change_of_quiet (quiet_start hm) happ
  | deliver _ => exact change_of_quiet rfl happ
  | queue => exact change_of_quiet rfl happ
  | abort => exact change_of_quiet (quiet_abort p) happ
  | crash => exact change_of_quiet rfl happ

/-- A step records some events and makes the change that goes with them. -/
theorem step_change {deps : Dependencies} {s s' : Shared} {i : Pid} {p p' : Proc} {a : Label}
    (hp : p.Holding deps s i) (h : (system deps).step s i p a = some (s', p')) :
    ∃ es, s'.log = s.log ++ es ∧ Change deps s i p a s'.db es := by
  obtain ⟨m, s₁, hact, happ, rfl, rfl⟩ := step_eq_some.mp h
  have hchange := change_act hp (acts_of_act hact) happ
  exact ⟨m.events, by simp [apply_log happ], hchange⟩

/-- How a run comes to an await of `execute`: from the await before it, or at its start, on a row
that it has just read as pending or that a caller passed. -/
inductive Arrives (s : Shared) (i : Pid) (job : Option String) (transfer : TransferRow)
    (fromAccountId : Uuid) (pc : ExecutePc) : Proc → Label → Move → Prop
  | next {c pc₀ m} :
      TransferExecutor.next s i transfer fromAccountId c pc₀ =
        (m.effect, m.events, .executing transfer fromAccountId pc) →
      Arrives s i job transfer fromAccountId pc
        (.processor job (.executing transfer fromAccountId pc₀)) (.next c) m
  | selected {c m} : s.db.transfers.find? transfer.id = some transfer →
      transfer.status = .pending → TransferExecutor.start transfer =
        .executing transfer fromAccountId pc → m.effect = .quiet → m.events = [] →
      Arrives s i job transfer fromAccountId pc (.processor job (.select transfer.id)) (.next c) m
  | called {m} : TransferExecutor.start transfer = .executing transfer fromAccountId pc →
      m.effect = .quiet → m.events = [] → job = none →
      Arrives s i job transfer fromAccountId pc .idle (.start (.execute transfer)) m

theorem start_executing {transfer transfer' : TransferRow} {fromAccountId : Uuid} {pc : ExecutePc}
    (h : TransferExecutor.start transfer = .executing transfer' fromAccountId pc) :
    transfer = transfer' := by
  unfold TransferExecutor.start at h
  split at h <;> cases h
  rfl

theorem next_executing {s : Shared} {i : Pid} {transfer transfer' : TransferRow}
    {fromAccountId fromAccountId' : Uuid} {c : Choice} {pc₀ pc : ExecutePc}
    (h : (TransferExecutor.next s i transfer fromAccountId c pc₀).2.2 =
      .executing transfer' fromAccountId' pc) :
    transfer = transfer' ∧ fromAccountId = fromAccountId' := by
  cases pc₀ <;> simp only [TransferExecutor.next] at h <;> grind

/-- Two moments of one call. -/
def Proc.SameCall : Proc → Proc → Prop
  | .processor job _, .processor job' _ => job = job'
  | .createAccount customerId deposit _, .createAccount customerId' deposit' _ =>
    customerId = customerId' ∧ deposit = deposit'
  | .createLock accountId reason _, .createLock accountId' reason' _ =>
    accountId = accountId' ∧ reason = reason'
  | .releaseLock accountId lockId _, .releaseLock accountId' lockId' _ =>
    accountId = accountId' ∧ lockId = lockId'
  | .createComment accountId body _, .createComment accountId' body' _ =>
    accountId = accountId' ∧ body = body'
  | .createTransfer input _, .createTransfer input' _ => input = input'
  | _, _ => False

/-- A statement that does not end its call leaves the process in it. -/
theorem sameCall_of_next {deps : Dependencies} {s : Shared} {i : Pid} {p q : Proc} {c : Choice}
    {m : Move} (hm : p.next deps s i c = some m) (hnext : m.next = q) (hq : q ≠ .idle) :
    p.SameCall q := by
  subst hnext
  cases p with
  | idle => simp [Proc.next] at hm
  | processor job pc =>
    obtain rfl := Option.some.inj hm
    cases pc <;> simp only [ProcessorPc.next] at hq ⊢ <;> grind [Proc.SameCall]
  | createAccount customerId deposit pc =>
    cases pc <;> simp only [Proc.next, CreateAccountPc.next] at hm <;> grind [Proc.SameCall]
  | createTransfer input pc =>
    cases pc <;> simp only [Proc.next, TransferService.next, TransferService.respond] at hm <;>
      grind [Proc.SameCall]
  | createLock accountId reason pc =>
    cases pc <;> simp only [Proc.next, CreateLockPc.next] at hm <;> grind [Proc.SameCall]
  | releaseLock accountId lockId pc =>
    cases pc <;> simp only [Proc.next, ReleaseLockPc.next] at hm <;> grind [Proc.SameCall]
  | createComment accountId body pc =>
    cases pc <;> simp only [Proc.next, CreateCommentPc.next] at hm <;> grind [Proc.SameCall]

/-- The calls that neither submit nor execute a transfer. -/
def Proc.isAside : Proc → Bool
  | .createAccount _ _ _ | .createLock _ _ _ | .releaseLock _ _ _ | .createComment _ _ _ => true
  | _ => false

/-- They answer no submission and leave the queue alone. -/
theorem next_aside {deps : Dependencies} {s : Shared} {i : Pid} {p : Proc} {c : Choice}
    {m : Move} (hp : p.isAside) (hm : p.next deps s i c = some m) :
    (∀ input result, .responded input result ∉ m.events) ∧
      (∀ jobId transferId, m.effect ≠ .enqueue jobId transferId) ∧
        ∀ jobId outcome, m.effect ≠ .settle jobId outcome := by
  cases p with
  | createAccount customerId deposit pc =>
    cases pc <;> simp only [Proc.next, CreateAccountPc.next] at hm <;> grind
  | createLock accountId reason pc =>
    cases pc <;> simp only [Proc.next, CreateLockPc.next] at hm <;> grind
  | releaseLock accountId lockId pc =>
    cases pc <;> simp only [Proc.next, ReleaseLockPc.next] at hm <;> grind
  | createComment accountId body pc =>
    cases pc <;> simp only [Proc.next, CreateCommentPc.next] at hm <;> grind
  | idle | processor _ _ | createTransfer _ _ => cases hp

theorem acts_executing {deps : Dependencies} {s : Shared} {i : Pid} {p : Proc} {a : Label}
    {m : Move} {job : Option String} {transfer : TransferRow} {fromAccountId : Uuid}
    {pc : ExecutePc} (h : Acts deps s i p a m)
    (hnext : m.next = .processor job (.executing transfer fromAccountId pc)) :
    Arrives s i job transfer fromAccountId pc p a m := by
  cases h with
  | @next p c m hm =>
    cases p with
    | processor job' pc' =>
      obtain rfl := Option.some.inj hm
      cases pc' with
      | select transferId =>
        simp only [ProcessorPc.next] at hnext ⊢
        split at hnext
        · cases hnext
        · next row hrow =>
          split at hnext
          · cases hnext
          · next hstatus =>
            obtain ⟨rfl, hstart⟩ := Proc.processor.inj hnext
            obtain rfl := start_executing hstart
            obtain rfl : row.id = transferId := Table.key_of_find? hrow
            rw [if_neg hstatus]
            exact .selected hrow (not_not.mp hstatus) hstart rfl rfl
      | executing transfer' fromAccountId' pc₀ =>
        obtain ⟨rfl, hpc⟩ := Proc.processor.inj hnext
        obtain ⟨rfl, rfl⟩ := next_executing hpc
        exact .next (Prod.ext rfl (Prod.ext rfl hpc))
      | acknowledge outcome =>
        simp only [ProcessorPc.next] at hnext
        split at hnext <;> cases hnext
    | _ => exact (sameCall_of_next hm hnext (by simp)).elim
  | @start op m hm =>
    cases op with
    | execute row =>
      simp only [Operation.begin, Option.ite_none_right_eq_some, Option.some.injEq] at hm
      obtain ⟨_, rfl⟩ := hm
      obtain ⟨hjob, hstart⟩ := Proc.processor.inj hnext
      obtain rfl := start_executing hstart
      exact .called hstart rfl rfl hjob.symm
    | createTransfer input =>
      simp only [Operation.begin] at hm
      split at hm <;> cases hm <;> cases hnext
    | processJob transferId =>
      cases hm
      cases hnext
    | _ => cases hm; cases hnext
  | deliver _ => cases hnext
  | queue => cases hnext
  | abort => cases p <;> cases hnext
  | crash => cases hnext

/-- The statements of `execute` before its commit leave the committed database alone. -/
theorem Arrives.private {s : Shared} {i : Pid} {job : Option String} {transfer : TransferRow}
    {fromAccountId : Uuid} {pc : ExecutePc} {p : Proc} {a : Label} {m : Move}
    (h : Arrives s i job transfer fromAccountId pc p a m) : m.effect.private := by
  cases h with
  | @next c pc₀ m hnext =>
    cases pc₀ <;> simp only [TransferExecutor.next] at hnext <;> grind [Effect.private]
  | selected _ _ _ heffect _ => rw [heffect]; rfl
  | called _ heffect _ _ => rw [heffect]; rfl

/-- A call of `TransferService.create` goes on, or starts with two different accounts. -/
theorem createTransfer_of_acts {deps : Dependencies} {s : Shared} {i : Pid} {p : Proc}
    {a : Label} {m : Move} {input : CreateTransferInput} {pc : CreateTransferPc}
    (h : Acts deps s i p a m) (hnext : m.next = .createTransfer input pc) :
    (∃ pc₀, p = .createTransfer input pc₀) ∨
      a = .start (.createTransfer input) ∧ input.fromAccountId ≠ input.toAccountId := by
  cases h with
  | @next p c m hm =>
    cases p with
    | createTransfer input' pc' =>
      obtain rfl : input' = input := sameCall_of_next hm hnext (by simp)
      exact .inl ⟨pc', rfl⟩
    | _ => exact (sameCall_of_next hm hnext (by simp)).elim
  | @start op m hm => cases op <;> simp only [Operation.begin] at hm <;> grind
  | deliver _ => cases hnext
  | queue => cases hnext
  | abort => cases p <;> cases hnext
  | crash => cases hnext

/-! ## What a step leaves to the others -/

/-- What every other process can rely on when process `j` takes a step. -/
structure Guarantee (j : Pid) (s s' : Shared) : Prop where
  locks : ∀ i row m, i ≠ j → (s'.locks.Holds i row m ↔ s.locks.Holds i row m)
  accounts : ∀ id r, s.db.accounts.find? id = some r → ¬ s.LockedBy j id →
    s'.db.accounts.find? id = some r
  transfers : ∀ id r, s.db.transfers.find? id = some r →
    ∃ r', s'.db.transfers.find? id = some r' ∧ r.SameRequest r'
  lockedTransfers : ∀ i id r, i ≠ j → s.locks.Holds i (.transfer id) .forUpdate →
    s.db.transfers.find? id = some r → s'.db.transfers.find? id = some r

theorem apply_locks {s s₁ : Shared} {j : Pid} {e : Effect} (h : s.apply j e = some s₁) {i : Pid}
    (hij : i ≠ j) (row : RowRef) (m : LockMode) :
    s₁.locks.Holds i row m ↔ s.locks.Holds i row m := by
  cases e with
  | lock row' m' =>
    obtain ⟨t, ht, rfl⟩ := Option.map_eq_some_iff.mp h
    rw [LockTable.holds_acquire? ht]
    simp [hij]
  | rollback =>
    obtain rfl := Option.some.inj h
    simp [hij]
  | commit ws =>
    obtain ⟨db, _, rfl⟩ := Option.map_eq_some_iff.mp h
    simp [hij]
  | _ =>
    simp only [Shared.apply, Option.map_eq_some_iff, Option.some.injEq,
      Option.ite_none_right_eq_some] at h
    grind

/-- An opened account comes with its deposit row, unless the deposit is zero. -/
theorem install_openingWrites {db db' : Db} {account : AccountRow} {deposit : NonNegativeCents}
    {c : Choice} (h : db.install (openingWrites account deposit c) = some db') :
    ∃ t, db.accounts.insert? account = some t ∧
      ((deposit.cents = 0 ∧ db' = { db with accounts := t }) ∨
        ∃ (hpos : 0 < deposit.cents) (u : Table TransferRow),
          db.transfers.insert? (depositRow account ⟨deposit.cents, hpos, deposit.safe⟩ c) = some u ∧
            db' = { db with accounts := t, transfers := u }) := by
  unfold openingWrites at h
  split at h
  · next hpos =>
    simp only [Db.install_cons, Db.install_nil, Db.write, Option.bind_eq_some_iff,
      Option.map_eq_some_iff, Option.ite_none_left_eq_some, Option.some.injEq] at h
    obtain ⟨_, ⟨t, ht, rfl⟩, _, ⟨_, u, hu, rfl⟩, rfl⟩ := h
    exact ⟨t, ht, .inr ⟨hpos, u, hu, rfl⟩⟩
  · simp only [Db.install_cons, Db.install_nil, Db.write, Option.bind_eq_some_iff,
      Option.map_eq_some_iff, Option.some.injEq] at h
    obtain ⟨_, ⟨t, ht, rfl⟩, rfl⟩ := h
    exact ⟨t, ht, .inl ⟨by omega, rfl⟩⟩

theorem write_insertTransfer {db db' : Db} {row : TransferRow}
    (h : db.write (.insertTransfer row) = some db') :
    (∀ x ∈ db.transfers.rows, row.collides x = false) ∧
      ∃ t, db.transfers.insert? row = some t ∧ db' = { db with transfers := t } := by
  simp only [Db.write, Option.ite_none_left_eq_some, Option.map_eq_some_iff, List.any_eq_true,
    not_exists, not_and, Bool.not_eq_true] at h
  obtain ⟨hfresh, t, ht, rfl⟩ := h
  exact ⟨hfresh, t, ht, rfl⟩

/-- A row that is not locked by the process that writes its successor is another row. -/
theorem find?_put_version {t : Table TransferRow} {id id' : Uuid} {row x r : TransferRow}
    (hrow : t.find? id' = some x) (hid : row.id = id') (hsame : x.SameRequest row)
    (hr : t.find? id = some r) :
    ∃ r', (t.put row).find? id = some r' ∧ r.SameRequest r' := by
  by_cases h : id' = id
  · subst h
    obtain rfl : x = r := by simpa [hrow] using hr
    exact ⟨row, by simp [Table.find?_put, hid, hrow], hsame⟩
  · exact ⟨r, by rw [Table.find?_put_of_ne (by simpa [hid] using h), hr], .refl r⟩

/-- Every change respects the locks of the other processes. -/
theorem Change.guarantee {deps : Dependencies} {s s' : Shared} {j : Pid} {p : Proc}
    {a : Label} {es : List Event} (h : Change deps s j p a s'.db es)
    (hlocks : ∀ i row m, i ≠ j → (s'.locks.Holds i row m ↔ s.locks.Holds i row m)) :
    Guarantee j s s' := by
  generalize hdb : s'.db = db at h
  cases h with
  | quiet _ =>
    exact ⟨hlocks, fun _ _ hr _ => by rw [hdb, hr], fun _ r hr => ⟨r, by rw [hdb, hr], .refl r⟩,
      fun _ _ _ _ _ hr => by rw [hdb, hr]⟩
  | @moved job transfer fromAccountId readAt ws completed source destination row now c hfrom
      hboth hfunds hlock hrow hsame hc =>
    subst hc
    have hid : row.id = transfer.id := Table.key_of_find? hrow
    refine ⟨hlocks, fun id r hr hfree => ?_, fun id r hr => ?_, fun i id r hij hheld hr => ?_⟩
    · have hs : source.id = fromAccountId := Table.key_of_find? hboth.source_row
      have hd : destination.id = transfer.toAccountId := Table.key_of_find? hboth.destination_row
      have hne : fromAccountId ≠ id := fun h => hfree (h ▸ hboth.source_locked)
      have hne' : transfer.toAccountId ≠ id := fun h => hfree (h ▸ hboth.destination_locked)
      rw [hdb, Table.find?_put_of_ne (by simpa [AccountRow.add, hd] using hne'),
        Table.find?_put_of_ne (by simpa [AccountRow.add, hs] using hne), hr]
    · rw [hdb]
      exact find?_put_version hrow hid (TransferRow.sameRequest_complete row now) hr
    · have hne : transfer.id ≠ id := fun h => hij ((h ▸ hheld).exclusive hlock)
      rw [hdb, Table.find?_put_of_ne (by simpa [hid] using hne), hr]
  | @rejected job transfer fromAccountId err row now c _ havail hrow hsame =>
    have hid : row.id = transfer.id := Table.key_of_find? hrow
    refine ⟨hlocks, fun id r hr _ => by rw [hdb, hr], fun id r hr => ?_,
      fun i id r hij hheld hr => ?_⟩
    · rw [hdb]
      exact find?_put_version hrow hid (TransferRow.sameRequest_fail row _ now) hr
    · have hne : transfer.id ≠ id := by
        rintro rfl
        simpa using LockTable.available_iff.mp havail i _ hheld hij.symm
      rw [hdb, Table.find?_put_of_ne (by simpa [hid] using hne), hr]
  | opened hlock _ hinstall =>
    obtain ⟨t, ht, hcase⟩ := install_openingWrites hinstall
    have htr : ∀ id r, s.db.transfers.find? id = some r → s'.db.transfers.find? id = some r := by
      intro id r hr
      rcases hcase with ⟨_, rfl⟩ | ⟨_, u, hu, rfl⟩
      · rw [hdb, hr]
      · rw [hdb, Table.find?_insert?_of_some hu hr]
    have hacc : s'.db.accounts = t := by
      rcases hcase with ⟨_, rfl⟩ | ⟨_, u, _, rfl⟩ <;> rw [hdb]
    exact ⟨hlocks, fun id r hr _ => by rw [hacc, Table.find?_insert?_of_some ht hr],
      fun id r hr => ⟨r, htr id r hr, .refl r⟩, fun _ id r _ _ hr => htr id r hr⟩
  | inserted _ hwrite =>
    obtain ⟨_, t, ht, rfl⟩ := write_insertTransfer hwrite
    exact ⟨hlocks, fun id r hr _ => by rw [hdb, hr],
      fun id r hr => ⟨r, by rw [hdb, Table.find?_insert?_of_some ht hr], .refl r⟩,
      fun _ id r _ _ hr => by rw [hdb, Table.find?_insert?_of_some ht hr]⟩
  | locked _ _ _ _ | released _ _ | commented =>
    exact ⟨hlocks, fun _ _ hr _ => by rw [hdb, hr], fun _ r hr => ⟨r, by rw [hdb, hr], .refl r⟩,
      fun _ _ _ _ _ hr => by rw [hdb, hr]⟩

/-- No change closes an account. -/
theorem Change.account_stays {deps : Dependencies} {s : Shared} {i : Pid} {p : Proc}
    {a : Label} {db : Db} {es : List Event} (h : Change deps s i p a db es) {id : Uuid}
    (hid : (s.db.accounts.find? id).isSome) : (db.accounts.find? id).isSome := by
  cases h with
  | moved => simpa using hid
  | opened _ _ hinstall =>
    obtain ⟨t, ht, hcase⟩ := install_openingWrites hinstall
    obtain ⟨r, hr⟩ := Option.isSome_iff_exists.mp hid
    have hopened : (t.find? id).isSome := by simp [Table.find?_insert?_of_some ht hr]
    rcases hcase with ⟨_, rfl⟩ | ⟨_, u, _, rfl⟩ <;> exact hopened
  | inserted _ hwrite =>
    obtain ⟨_, t, _, rfl⟩ := write_insertTransfer hwrite
    exact hid
  | _ => exact hid

theorem step_guarantee {deps : Dependencies} {s s' : Shared} {j : Pid} {p p' : Proc}
    {a : Label} (hp : p.Holding deps s j) (h : (system deps).step s j p a = some (s', p')) :
    Guarantee j s s' := by
  obtain ⟨es, _, hchange⟩ := step_change hp h
  obtain ⟨m, s₁, _, happ, rfl, _⟩ := step_eq_some.mp h
  exact hchange.guarantee fun i row m hij => apply_locks happ hij row m

/-! ## The assertions hold in every run -/

/-- Locked rows stay as they are while other processes take their steps. -/
theorem BothLocked.stable {s s' : Shared} {i j : Pid} {transfer : TransferRow}
    {fromAccountId : Uuid} {source destination : AccountRow} (hij : i ≠ j)
    (hg : Guarantee j s s') (h : BothLocked s i transfer fromAccountId source destination) :
    BothLocked s' i transfer fromAccountId source destination := by
  have keep : ∀ id, s.LockedBy i id → ¬ s.LockedBy j id := fun id hi hj => hij (hi.exclusive hj)
  exact
    ⟨(hg.locks _ _ _ hij).mpr h.source_locked, (hg.locks _ _ _ hij).mpr h.destination_locked,
      hg.accounts _ _ h.source_row (keep _ h.source_locked),
      hg.accounts _ _ h.destination_row (keep _ h.destination_locked)⟩

theorem stores_stable {s s' : Shared} {j : Pid} {transfer : TransferRow} (hg : Guarantee j s s')
    (h : s.db.stores transfer) : s'.db.stores transfer := by
  obtain ⟨row, hrow, hsame⟩ := mem_stores h
  obtain ⟨row', hrow', hsame'⟩ := hg.transfers _ _ hrow
  simp [Db.stores, hrow', hsame'.symm.trans hsame]

theorem ExecutePc.Holding.stable {s s' : Shared} {i j : Pid} {transfer : TransferRow}
    {fromAccountId : Uuid} {pc : ExecutePc} (hij : i ≠ j) (hg : Guarantee j s s')
    (h : pc.Holding s i transfer fromAccountId) : pc.Holding s' i transfer fromAccountId := by
  cases pc with
  | lockRows accountId rest rowById =>
    rcases h with h | ⟨ha, hrest, hlock, row, hrow, hmap⟩
    · exact .inl h
    · exact .inr ⟨ha, hrest, (hg.locks _ _ _ hij).mpr hlock, row,
        hg.accounts _ _ hrow fun hj => hij (hlock.exclusive hj), hmap⟩
  | readLocks rowById =>
    obtain ⟨source, destination, hboth, hmap⟩ := h
    exact ⟨source, destination, hboth.stable hij hg, hmap⟩
  | debit readAt =>
    obtain ⟨source, destination, hboth, hfunds⟩ := h
    exact ⟨source, destination, hboth.stable hij hg, hfunds⟩
  | credit readAt ws =>
    obtain ⟨source, destination, hboth, hfunds, hws⟩ := h
    exact ⟨source, destination, hboth.stable hij hg, hfunds, hws⟩
  | complete readAt ws =>
    obtain ⟨source, destination, hboth, hfunds, hws⟩ := h
    exact ⟨source, destination, hboth.stable hij hg, hfunds, hws⟩
  | commit readAt ws completed =>
    obtain ⟨source, destination, hboth, hfunds, hws, hlock, row, now, hrow, hcomp⟩ := h
    exact ⟨source, destination, hboth.stable hij hg, hfunds, hws, (hg.locks _ _ _ hij).mpr hlock,
      row, now, hg.lockedTransfers _ _ _ hij hlock hrow, hcomp⟩
  | markFailed err => trivial

theorem Proc.Holding.stable {deps : Dependencies} {s s' : Shared} {i j : Pid} {p : Proc}
    (hij : i ≠ j) (hg : Guarantee j s s') (h : p.Holding deps s i) : p.Holding deps s' i := by
  have keep : ∀ {row m}, s.locks.Holds i row m → s'.locks.Holds i row m :=
    fun hi => (hg.locks _ _ _ hij).mpr hi
  cases p with
  | processor job pc =>
    cases pc with
    | executing transfer fromAccountId pc =>
      exact ⟨h.1, stores_stable hg h.2.1, h.2.2.stable hij hg⟩
    | _ => trivial
  | createAccount customerId deposit pc =>
    cases pc with
    | insertDeposit account => exact ⟨keep h.1, h.2⟩
    | commit account ws => exact ⟨keep h.1, h.2⟩
    | _ => trivial
  | createLock accountId reason pc =>
    cases pc with
    | insertLock => exact keep h
    | commit lock => exact ⟨keep h.1, h.2⟩
    | _ => trivial
  | createTransfer input pc =>
    cases pc with
    | referenceFrom row => exact ⟨keep h.1, h.2⟩
    | referenceTo row => exact ⟨keep h.1, h.2⟩
    | commit row => exact ⟨keep h.1, h.2⟩
    | _ => trivial
  | _ => trivial

/-- A run that starts to execute a stored row asks for the first lock. -/
theorem holding_start {deps : Dependencies} {s : Shared} {i : Pid} {job : Option String}
    {transfer : TransferRow} (h : s.db.stores transfer) :
    (Proc.processor job (TransferExecutor.start transfer)).Holding deps s i := by
  unfold TransferExecutor.start
  split
  · trivial
  · next fromAccountId hfrom => exact ⟨hfrom, h, .inl ⟨rfl, rfl, rfl⟩⟩

/-- The rows of a transfer in lock order, and the other way round. -/
theorem lockOrder_cases (a b : Uuid) :
    (lockOrder a b = (a, b) ∧ a ≤ b) ∨ (lockOrder a b = (b, a) ∧ b < a) := by
  unfold lockOrder
  split
  · next h => exact .inl ⟨rfl, h⟩
  · next h => exact .inr ⟨rfl, not_le.mp h⟩

/-- The second row lock completes the pair. -/
theorem holding_lockRows_last {s₁ : Shared} {i : Pid} {transfer : TransferRow}
    {fromAccountId : Uuid} {r₁ r₂ : AccountRow} (hfrom : transfer.fromAccountId = some fromAccountId)
    (h₁ : s₁.LockedBy i (lockOrder fromAccountId transfer.toAccountId).1)
    (h₂ : s₁.LockedBy i (lockOrder fromAccountId transfer.toAccountId).2)
    (hr₁ : s₁.db.accounts.find? (lockOrder fromAccountId transfer.toAccountId).1 = some r₁)
    (hr₂ : s₁.db.accounts.find? (lockOrder fromAccountId transfer.toAccountId).2 = some r₂) :
    (ExecutePc.readLocks [((lockOrder fromAccountId transfer.toAccountId).1, r₁.balanceNumber),
      ((lockOrder fromAccountId transfer.toAccountId).2, r₂.balanceNumber)]).Holding s₁ i transfer
        fromAccountId := by
  have hne : fromAccountId ≠ transfer.toAccountId := fun h => transfer.distinct (hfrom.trans (h ▸ rfl))
  rcases lockOrder_cases fromAccountId transfer.toAccountId with ⟨ho, _⟩ | ⟨ho, _⟩
  · rw [ho] at h₁ h₂ hr₁ hr₂ ⊢
    exact ⟨r₁, r₂, ⟨h₁, h₂, hr₁, hr₂⟩, by simp⟩
  · rw [ho] at h₁ h₂ hr₁ hr₂ ⊢
    refine ⟨r₂, r₁, ⟨h₂, h₁, hr₂, hr₁⟩, ?_⟩
    rw [List.lookup_cons, beq_false_of_ne hne]
    simp

/-- The funds check on the number that was read decides about the stored balance. -/
theorem funds_of_verdict {db : Db} {transfer : TransferRow} {fromAccountId : Uuid}
    {rowById : List (Uuid × ℤ)} {source : AccountRow}
    (hmap : rowById.lookup fromAccountId = some source.balanceNumber)
    (h : TransferExecutor.verdict db transfer fromAccountId rowById = none) :
    db.activeLocks fromAccountId transfer.toAccountId = [] ∧
      (transfer.amountCents.cents : ℤ) ≤ source.balanceCents := by
  unfold TransferExecutor.verdict at h
  split at h
  · cases h
  · next hlocks =>
    refine ⟨not_not.mp hlocks, ?_⟩
    rw [hmap] at h
    simp only [ite_eq_right_iff, reduceCtorEq, imp_false, not_lt] at h
    rw [← not_lt] at h ⊢
    exact fun hlt => h ((JsNumber.ofInt_lt_iff transfer.amountCents.safe).mpr hlt)

/-- A statement of `execute` brings the run to what it holds at its next await. -/
theorem holding_execute {deps : Dependencies} {s s₁ : Shared} {i : Pid} {job : Option String}
    {transfer : TransferRow} {fromAccountId : Uuid} {pc : ExecutePc} {c : Choice}
    (hfrom : transfer.fromAccountId = some fromAccountId) (hstored : s.db.stores transfer)
    (hpc : pc.Holding s i transfer fromAccountId)
    (happ : s.apply i (TransferExecutor.next s i transfer fromAccountId c pc).1 = some s₁) :
    (Proc.processor job (TransferExecutor.next s i transfer fromAccountId c pc).2.2).Holding
      deps s₁ i := by
  cases pc with
  | lockRows accountId rest rowById =>
    simp only [TransferExecutor.next] at happ ⊢
    cases hrow : s.db.accounts.find? accountId with
    | none => trivial
    | some row =>
      rw [hrow] at happ
      obtain ⟨t, ht, rfl⟩ := Option.map_eq_some_iff.mp happ
      have hid : row.id = accountId := Table.key_of_find? hrow
      have hlocked : t.Holds i (.account accountId) .forUpdate :=
        (LockTable.holds_acquire? ht _ _ _).mpr (.inl ⟨rfl, rfl, rfl⟩)
      refine ⟨hfrom, hstored, ?_⟩
      rw [hid]
      rcases hpc with ⟨rfl, rfl, rfl⟩ | ⟨rfl, rfl, hlock, row₁, hrow₁, rfl⟩
      · exact .inr ⟨rfl, rfl, hlocked, row, hrow, rfl⟩
      · exact holding_lockRows_last hfrom ((LockTable.holds_acquire? ht _ _ _).mpr (.inr hlock))
          hlocked hrow₁ hrow
  | readLocks rowById =>
    obtain ⟨source, destination, hboth, hmap⟩ := hpc
    simp only [TransferExecutor.next] at happ ⊢
    cases hv : TransferExecutor.verdict s.db transfer fromAccountId rowById with
    | some err =>
      rw [hv] at happ
      obtain rfl := Option.some.inj happ
      exact ⟨hfrom, hstored, trivial⟩
    | none =>
      rw [hv] at happ
      obtain rfl := Option.some.inj happ
      exact ⟨hfrom, hstored, source, destination, hboth, (funds_of_verdict hmap hv).2⟩
  | debit readAt =>
    obtain ⟨source, destination, hboth, hfunds⟩ := hpc
    obtain rfl := Option.some.inj happ
    refine ⟨hfrom, hstored, source, destination, hboth, hfunds, ?_⟩
    simp [TransferExecutor.updateBalance, hboth.source_row]
  | credit readAt ws =>
    obtain ⟨source, destination, hboth, hfunds, rfl⟩ := hpc
    simp only [TransferExecutor.next] at happ ⊢
    split
    · trivial
    · next hover =>
      rw [if_neg hover] at happ
      obtain rfl := Option.some.inj happ
      refine ⟨hfrom, hstored, source, destination, hboth, hfunds, ?_⟩
      simp [TransferExecutor.updateBalance, hboth.destination_row, accountVersions]
  | complete readAt ws =>
    obtain ⟨source, destination, hboth, hfunds, rfl⟩ := hpc
    obtain ⟨row, hrow, _⟩ := mem_stores hstored
    simp only [TransferExecutor.next, hrow] at happ ⊢
    obtain ⟨t, ht, rfl⟩ := Option.map_eq_some_iff.mp happ
    have keep : ∀ {ref}, s.locks.Holds i ref .forUpdate → t.Holds i ref .forUpdate :=
      fun h => (LockTable.holds_acquire? ht _ _ _).mpr (.inr h)
    exact ⟨hfrom, hstored, source, destination,
      ⟨keep hboth.source_locked, keep hboth.destination_locked, hboth.source_row,
        hboth.destination_row⟩,
      hfunds, rfl, (LockTable.holds_acquire? ht _ _ _).mpr (.inl ⟨rfl, rfl, rfl⟩), row, c.now, hrow,
      rfl⟩
  | commit readAt ws completed => trivial
  | markFailed err => trivial

/-- A lock that was granted is held, besides all that was held before. -/
theorem holds_of_lock {s s₁ : Shared} {i : Pid} {row : RowRef} {mode : LockMode}
    (h : s.apply i (.lock row mode) = some s₁) : s₁.locks.Holds i row mode ∧
      ∀ {row' mode'}, s.locks.Holds i row' mode' → s₁.locks.Holds i row' mode' := by
  obtain ⟨t, ht, rfl⟩ := Option.map_eq_some_iff.mp h
  exact ⟨(LockTable.holds_acquire? ht _ _ _).mpr (.inl ⟨rfl, rfl, rfl⟩),
    fun h => (LockTable.holds_acquire? ht _ _ _).mpr (.inr h)⟩

theorem holding_createAccount {deps : Dependencies} {s s₁ : Shared} {i : Pid}
    {customerId : Uuid} {deposit : NonNegativeCents} {pc : CreateAccountPc} {c : Choice} {m : Move}
    (hp : (Proc.createAccount customerId deposit pc).Holding deps s i)
    (hm : pc.next s customerId deposit c = some m) (happ : s.apply i m.effect = some s₁) :
    m.next.Holding deps s₁ i := by
  cases pc with
  | selectCustomer =>
    simp only [CreateAccountPc.next] at hm
    split at hm <;> cases hm <;> trivial
  | insertAccount =>
    simp only [CreateAccountPc.next, Option.ite_none_right_eq_some, Option.some.injEq] at hm
    obtain ⟨_, rfl⟩ := hm
    have hheld := (holds_of_lock happ).1
    by_cases h : 0 < deposit.cents
    · simp only [if_pos h]
      exact ⟨hheld, rfl⟩
    · simp only [if_neg h]
      exact ⟨hheld, rfl, c, by simp [openingWrites, h]⟩
  | insertDeposit account =>
    simp only [CreateAccountPc.next, Option.dite_none_right_eq_some, Option.some.injEq] at hm
    obtain ⟨h, rfl⟩ := hm
    exact ⟨(holds_of_lock happ).2 hp.1, hp.2, c, by simp [openingWrites, h]⟩
  | commit account ws =>
    obtain rfl := Option.some.inj hm
    trivial

theorem holding_createTransfer {deps : Dependencies} {s s₁ : Shared} {i : Pid}
    {input : CreateTransferInput} {pc : CreateTransferPc} {c : Choice} {m : Move}
    (hp : (Proc.createTransfer input pc).Holding deps s i)
    (hm : TransferService.next deps s i input c pc = some m)
    (happ : s.apply i m.effect = some s₁) : m.next.Holding deps s₁ i := by
  cases pc with
  | insert =>
    simp only [TransferService.next] at hm
    split at hm
    · cases hm
      trivial
    · split at hm
      · split at hm
        · cases hm
          exact ⟨(holds_of_lock happ).1, c, _, rfl⟩
        · cases hm
      · cases hm
        trivial
  | referenceFrom row | referenceTo row =>
    obtain rfl := Option.some.inj hm
    exact ⟨(holds_of_lock happ).2 hp.1, hp.2⟩
  | assertAccountsExist =>
    simp only [TransferService.next] at hm
    split at hm <;> cases hm <;> trivial
  | commit row =>
    obtain rfl := Option.some.inj hm
    trivial
  | enqueue row created =>
    simp only [TransferService.next] at hm
    split at hm <;> cases hm <;> trivial
  | replay =>
    simp only [TransferService.next] at hm
    split at hm
    · cases hm
      trivial
    · split at hm
      · cases hm
        trivial
      · split at hm <;> cases hm <;> trivial

/-- A statement brings its process to what it holds at its next await. -/
theorem holding_next {deps : Dependencies} {s s₁ : Shared} {i : Pid} {p : Proc} {c : Choice}
    {m : Move} (hp : p.Holding deps s i) (hm : p.next deps s i c = some m)
    (happ : s.apply i m.effect = some s₁) : m.next.Holding deps s₁ i := by
  cases p with
  | idle => simp [Proc.next] at hm
  | processor job pc =>
    obtain rfl := Option.some.inj hm
    cases pc with
    | select transferId =>
      simp only [ProcessorPc.next] at happ ⊢
      split
      · trivial
      · next row hrow =>
        split
        · trivial
        · next hstatus =>
          rw [hrow] at happ
          simp only [if_neg hstatus] at happ
          obtain rfl := Option.some.inj happ
          obtain rfl : row.id = transferId := Table.key_of_find? hrow
          exact holding_start (by simp [Db.stores, hrow, TransferRow.SameRequest.refl])
    | executing transfer fromAccountId pc => exact holding_execute hp.1 hp.2.1 hp.2.2 happ
    | acknowledge outcome =>
      simp only [ProcessorPc.next]
      split <;> trivial
  | createAccount customerId deposit pc => exact holding_createAccount hp hm happ
  | createLock accountId reason pc =>
    obtain rfl := Option.some.inj hm
    cases pc with
    | selectAccount =>
      simp only [CreateLockPc.next] at happ ⊢
      split
      · trivial
      · next hrow =>
        rw [hrow] at happ
        exact (holds_of_lock happ).1
    | insertLock => exact ⟨(holds_of_lock happ).2 hp, rfl, rfl⟩
    | commit lock => trivial
  | releaseLock accountId lockId pc =>
    obtain rfl := Option.some.inj hm
    cases pc <;> simp only [ReleaseLockPc.next] <;> (try split) <;> trivial
  | createComment accountId body pc =>
    obtain rfl := Option.some.inj hm
    cases pc <;> simp only [CreateCommentPc.next] <;> (try split) <;> trivial
  | createTransfer input pc => exact holding_createTransfer hp hm happ

theorem holding_act {deps : Dependencies} {s s₁ : Shared} {i : Pid} {p : Proc} {a : Label}
    {m : Move} (hp : p.Holding deps s i) (hm : Acts deps s i p a m)
    (happ : s.apply i m.effect = some s₁) : m.next.Holding deps s₁ i := by
  cases hm with
  | next hm => exact holding_next hp hm happ
  | @start op _ hm =>
    cases op with
    | execute transfer =>
      simp only [Operation.begin, Option.ite_none_right_eq_some, Option.some.injEq] at hm
      obtain ⟨hstored, rfl⟩ := hm
      obtain rfl := Option.some.inj happ
      exact holding_start hstored
    | createTransfer input =>
      simp only [Operation.begin] at hm
      split at hm <;> cases hm <;> trivial
    | _ => cases hm; trivial
  | deliver _ => trivial
  | queue => trivial
  | abort => cases p <;> trivial
  | crash => trivial

@[simp] theorem lockedBy_record (s : Shared) (es : List Event) (i : Pid) (accountId : Uuid) :
    (s.record es).LockedBy i accountId ↔ s.LockedBy i accountId := Iff.rfl

@[simp] theorem bothLocked_record (s : Shared) (es : List Event) (i : Pid)
    (transfer : TransferRow) (fromAccountId : Uuid) (source destination : AccountRow) :
    BothLocked (s.record es) i transfer fromAccountId source destination ↔
      BothLocked s i transfer fromAccountId source destination :=
  ⟨fun ⟨h1, h2, h3, h4⟩ => ⟨h1, h2, h3, h4⟩, fun ⟨h1, h2, h3, h4⟩ => ⟨h1, h2, h3, h4⟩⟩

/-- What a process holds does not depend on the history. -/
theorem Proc.Holding.record {deps : Dependencies} {s : Shared} {i : Pid} {p : Proc}
    (h : p.Holding deps s i) (es : List Event) : p.Holding deps (s.record es) i := by
  cases p with
  | processor job pc =>
    cases pc with
    | executing transfer fromAccountId pc =>
      refine ⟨h.1, h.2.1, ?_⟩
      have := h.2.2
      cases pc with
      | markFailed err => trivial
      | _ => simpa [ExecutePc.Holding] using this
    | _ => trivial
  | createAccount customerId deposit pc => cases pc <;> exact h
  | createLock accountId reason pc => cases pc <;> exact h
  | createTransfer input pc => cases pc <;> exact h
  | _ => trivial

/-- `Proc.Holding` as local assertions of the interleaving. -/
def holdingProof (deps : Dependencies) (ok : Guard) :
    Interleaving.RelyGuarantee (system deps) ok (fun _ => True) where
  inv _ := True
  asserts i s p := p.Holding deps s i
  guarantee := Guarantee
  own c i a s p _ _ hall _ hstep := by
    refine ⟨trivial, ?_, step_guarantee (hall i) hstep⟩
    obtain ⟨m, s₁, hact, happ, rfl, rfl⟩ := step_eq_some.mp hstep
    exact (holding_act (hall i) (acts_of_act hact) happ).record m.events
  stable i j s s' p hij _ hg hp := hp.stable hij hg

/-- In every run each process holds what its program counter says. -/
theorem holding {deps : Dependencies} {ok : Guard} {db : Db} {c : State}
    (h : Reaches deps ok db c) (i : Pid) : (c.locals i).Holding deps c.shared i :=
  ((holdingProof deps ok).sound h (fun _ _ => trivial) trivial fun _ => trivial).2 i

/-- Every step of a run makes one of the listed changes. -/
theorem move_change {deps : Dependencies} {ok : Guard} {db : Db} {c c' : State} {i : Pid}
    {a : Label} (h : Reaches deps ok db c) (hmove : (system deps).move c i a = some c') :
    ∃ es, c'.shared.log = c.shared.log ++ es ∧
      Change deps c.shared i (c.locals i) a c'.shared.db es := by
  obtain ⟨s, p, hstep, rfl⟩ := Interleaving.move_eq_some.mp hmove
  exact step_change (holding h i) hstep

end BankPlatform.Bank
