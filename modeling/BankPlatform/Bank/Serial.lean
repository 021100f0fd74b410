import BankPlatform.Library.Serial
import BankPlatform.Bank.Locking

/-!
# Transactions are serializable

Under READ COMMITTED each statement of a transaction reads the database that is committed at its
time. What a transaction of the bank has read cannot change before it ends: the account rows and
the transfer row are locked, an account lock is only created under the lock of its account row, and
customers and accounts are never deleted. So the whole transaction can be replayed at its end.

## Main definitions

* `Proc.origin` — where the open transaction of a process began.
* `Proc.Checked` — what a transaction has read and still relies on.
* `outcomes` — a history without the times at which `account_locks` was read.

## Main results

* `serializable` — behind every run there is one in which the transactions do not overlap.
-/

namespace BankPlatform.Bank

open Library

/-! ## Transactions -/

/-- The transaction of `execute` begins with the first row lock; the `failed` update is not part
of it. -/
def ExecutePc.origin (transfer : TransferRow) (fromAccountId : Uuid) : ExecutePc → ExecutePc
  | .markFailed err => .markFailed err
  | _ =>
    let order := lockOrder fromAccountId transfer.toAccountId
    .lockRows order.1 [order.2] []

/-- Where the open transaction of a process began. A process that has none is there. -/
def Proc.origin : Proc → Proc
  | .processor job (.executing transfer fromAccountId pc) =>
    .processor job (.executing transfer fromAccountId (pc.origin transfer fromAccountId))
  | .createAccount customerId deposit _ => .createAccount customerId deposit .selectCustomer
  | .createLock accountId reason _ => .createLock accountId reason .selectAccount
  | .createComment accountId body (.commit _) => .createComment accountId body .insert
  | .createTransfer input (.referenceFrom _) | .createTransfer input (.referenceTo _)
  | .createTransfer input (.commit _) => .createTransfer input .insert
  | p => p

theorem ExecutePc.origin_origin (transfer : TransferRow) (fromAccountId : Uuid) (pc : ExecutePc) :
    (pc.origin transfer fromAccountId).origin transfer fromAccountId =
      pc.origin transfer fromAccountId := by
  cases pc <;> rfl

theorem Proc.origin_origin (p : Proc) : p.origin.origin = p.origin := by
  cases p with
  | processor job pc =>
    cases pc with
    | executing transfer fromAccountId pc =>
      simp only [Proc.origin, ExecutePc.origin_origin]
    | _ => rfl
  | createComment accountId body pc => cases pc <;> rfl
  | createTransfer input pc => cases pc <;> rfl
  | _ => rfl

/-- An event without the time at which `account_locks` was read. -/
def Event.outcome? : Event → Option Event
  | .locksRead _ _ => none
  | .moved transfer fromAccountId _ => some (.moved transfer fromAccountId 0)
  | e => some e

/-- A history without the times at which `account_locks` was read. -/
def outcomes (log : List Event) : List Event := log.filterMap Event.outcome?

@[simp] theorem outcomes_append (log es : List Event) :
    outcomes (log ++ es) = outcomes log ++ outcomes es := List.filterMap_append

/-! ## What a transaction has read -/

/-- No account lock is active, and behind the debit the credit fits its column. -/
def ExecutePc.Checked (db : Db) (transfer : TransferRow) (fromAccountId : Uuid) :
    ExecutePc → Prop
  | .debit _ | .credit _ _ => db.activeLocks fromAccountId transfer.toAccountId = []
  | .complete _ _ | .commit _ _ _ => db.activeLocks fromAccountId transfer.toAccountId = [] ∧
      TransferExecutor.overflows db transfer.toAccountId transfer.amountCents.cents = false
  | _ => True

/-- What the open transaction of a process has read and still relies on, and that the rows it is
going to insert are those of its call. -/
def Proc.Checked (db : Db) : Proc → Prop
  | .processor _ (.executing transfer fromAccountId pc) => pc.Checked db transfer fromAccountId
  | .createAccount customerId _ .insertAccount => (db.customers.find? customerId).isSome
  | .createAccount customerId _ (.insertDeposit account)
  | .createAccount customerId _ (.commit account _) =>
    (db.customers.find? customerId).isSome ∧ account.customerId = customerId
  | .createLock accountId _ .insertLock => (db.accounts.find? accountId).isSome
  | .createLock accountId reason (.commit lock) =>
    (db.accounts.find? accountId).isSome ∧ lock.reason = reason
  | .createComment accountId body (.commit comment) =>
    comment.accountId = accountId ∧ comment.body = body
  | _ => True

/-- What a step leaves to the transactions of the others. -/
structure SerialGuarantee (j : Pid) (s s' : Shared) : Prop extends Guarantee j s s' where
  customers : s'.db.customers = s.db.customers
  accounts_stay : ∀ {id}, (s.db.accounts.find? id).isSome → (s'.db.accounts.find? id).isSome
  /-- An account lock that becomes active is created under the lock of its account row. -/
  locks_active : ∀ l ∈ s'.db.accountLocks.rows, l.releasedAt = none →
    s.LockedBy j l.accountId ∨ l ∈ s.db.accountLocks.rows

theorem Change.customers {deps : Dependencies} {s : Shared} {i : Pid} {p : Proc} {a : Label}
    {db : Db} {es : List Event} (h : Change deps s i p a db es) :
    db.customers = s.db.customers := by
  cases h with
  | opened _ _ hinstall =>
    obtain ⟨t, _, ⟨_, rfl⟩ | ⟨_, u, _, rfl⟩⟩ := install_openingWrites hinstall <;> rfl
  | inserted _ hwrite =>
    obtain ⟨_, t, _, rfl⟩ := write_insertTransfer hwrite
    rfl
  | _ => rfl

theorem Change.locks_active {deps : Dependencies} {s : Shared} {i : Pid} {p : Proc}
    {a : Label} {db : Db} {es : List Event} (h : Change deps s i p a db es) {l : LockRow}
    (hl : l ∈ db.accountLocks.rows) (hactive : l.releasedAt = none) :
    s.LockedBy i l.accountId ∨ l ∈ s.db.accountLocks.rows := by
  cases h with
  | opened _ _ hinstall =>
    obtain ⟨t, _, ⟨_, rfl⟩ | ⟨_, u, _, rfl⟩⟩ := install_openingWrites hinstall <;> exact .inr hl
  | inserted _ hwrite =>
    obtain ⟨_, t, _, rfl⟩ := write_insertTransfer hwrite
    exact .inr hl
  | locked hlock haccount _ ht =>
    rcases (Table.mem_insert? ht).mp hl with hl | rfl
    · exact .inr hl
    · exact .inl (haccount ▸ hlock)
  | released _ _ =>
    rcases Table.mem_put hl with hl | rfl
    · exact .inr hl
    · cases hactive
  | _ => exact .inr hl

/-- No lock becomes active on accounts that are locked by another process. -/
theorem SerialGuarantee.activeLocks {s s' : Shared} {i j : Pid} {a b : Uuid} (hij : i ≠ j)
    (hg : SerialGuarantee j s s') (ha : s.LockedBy i a) (hb : s.LockedBy i b)
    (h : s.db.activeLocks a b = []) : s'.db.activeLocks a b = [] := by
  simp only [Db.activeLocks, List.filter_eq_nil_iff, Bool.and_eq_true, Bool.or_eq_true,
    decide_eq_true_eq, Option.isNone_iff_eq_none, not_and] at h ⊢
  intro l hl hon hactive
  rcases hg.locks_active l hl hactive with hj | hold
  · rcases hon with hon | hon
    · exact hij (ha.exclusive (hon ▸ hj))
    · exact hij (hb.exclusive (hon ▸ hj))
  · exact h l hold hon hactive

theorem overflows_eq {db : Db} {accountId : Uuid} {row : AccountRow}
    (h : db.accounts.find? accountId = some row) (cents : ℤ) :
    TransferExecutor.overflows db accountId cents =
      decide (maxBigint < row.balanceCents + cents) := by
  simp only [TransferExecutor.overflows, h]

theorem ExecutePc.Checked.stable {s s' : Shared} {i j : Pid} {transfer : TransferRow}
    {fromAccountId : Uuid} {pc : ExecutePc} (hij : i ≠ j) (hg : SerialGuarantee j s s')
    (hpc : pc.Holding s i transfer fromAccountId) (h : pc.Checked s.db transfer fromAccountId) :
    pc.Checked s'.db transfer fromAccountId := by
  cases pc with
  | debit | credit =>
    obtain ⟨source, destination, hboth, _⟩ := hpc
    exact hg.activeLocks hij hboth.source_locked hboth.destination_locked h
  | complete | commit =>
    obtain ⟨source, destination, hboth, _⟩ := hpc
    refine ⟨hg.activeLocks hij hboth.source_locked hboth.destination_locked h.1, ?_⟩
    rw [overflows_eq (hboth.stable hij hg.toGuarantee).destination_row,
      ← overflows_eq hboth.destination_row]
    exact h.2
  | _ => trivial

/-- The steps of the others leave what a transaction has read. -/
theorem Proc.Checked.stable {deps : Dependencies} {s s' : Shared} {i j : Pid} {p : Proc}
    (hij : i ≠ j) (hg : SerialGuarantee j s s') (hp : p.Holding deps s i)
    (h : p.Checked s.db) : p.Checked s'.db := by
  cases p with
  | processor job pc =>
    cases pc with
    | executing transfer fromAccountId pc => exact ExecutePc.Checked.stable hij hg hp.2.2 h
    | _ => trivial
  | createAccount customerId deposit pc =>
    cases pc <;> simp only [Proc.Checked, hg.customers] at h ⊢ <;> exact h
  | createLock accountId reason pc =>
    cases pc with
    | selectAccount => trivial
    | insertLock => exact hg.accounts_stay h
    | commit lock => exact ⟨hg.accounts_stay h.1, h.2⟩
  | createComment accountId body pc => cases pc <;> exact h
  | _ => trivial

theorem checked_execute {s s₁ : Shared} {i : Pid} {job : Option String} {transfer : TransferRow}
    {fromAccountId : Uuid} {pc : ExecutePc} {c : Choice}
    (hpc : pc.Holding s i transfer fromAccountId) (h : pc.Checked s.db transfer fromAccountId)
    (happ : s.apply i (TransferExecutor.next s i transfer fromAccountId c pc).1 = some s₁) :
    (Proc.processor job (TransferExecutor.next s i transfer fromAccountId c pc).2.2).Checked
      s₁.db := by
  cases pc with
  | lockRows accountId rest rowById =>
    simp only [TransferExecutor.next]
    split
    · trivial
    · cases rest <;> trivial
  | readLocks rowById =>
    obtain ⟨source, destination, hboth, hmap⟩ := hpc
    simp only [TransferExecutor.next] at happ ⊢
    cases hv : TransferExecutor.verdict s.db transfer fromAccountId rowById with
    | some err => trivial
    | none =>
      rw [hv] at happ
      obtain rfl := Option.some.inj happ
      exact (funds_of_verdict hmap hv).1
  | debit readAt =>
    obtain rfl := Option.some.inj happ
    exact h
  | credit readAt ws =>
    simp only [TransferExecutor.next] at happ ⊢
    split
    · trivial
    · next hroom =>
      rw [if_neg hroom] at happ
      obtain rfl := Option.some.inj happ
      exact ⟨h, by simpa using hroom⟩
  | complete readAt ws =>
    simp only [TransferExecutor.next] at happ ⊢
    split
    · trivial
    · next row hrow =>
      rw [hrow] at happ
      obtain ⟨t, _, rfl⟩ := Option.map_eq_some_iff.mp happ
      exact h
  | commit | markFailed => trivial

/-- A statement brings its process to what its transaction has read. -/
theorem checked_next {deps : Dependencies} {s s₁ : Shared} {i : Pid} {p : Proc} {c : Choice}
    {m : Move} (hp : p.Holding deps s i) (h : p.Checked s.db)
    (hm : p.next deps s i c = some m) (happ : s.apply i m.effect = some s₁) :
    m.next.Checked s₁.db := by
  cases p with
  | idle => simp [Proc.next] at hm
  | processor job pc =>
    obtain rfl := Option.some.inj hm
    cases pc with
    | select transferId =>
      simp only [ProcessorPc.next, TransferExecutor.start]
      split
      · trivial
      · split
        · trivial
        · split <;> trivial
    | executing transfer fromAccountId pc => exact checked_execute hp.2.2 h happ
    | acknowledge outcome =>
      simp only [ProcessorPc.next]
      split <;> trivial
  | createAccount customerId deposit pc =>
    cases pc with
    | selectCustomer =>
      simp only [Proc.next, CreateAccountPc.next] at hm
      split at hm
      · cases hm
        trivial
      · next hrow =>
        cases hm
        obtain rfl := Option.some.inj happ
        exact Option.isSome_of_eq_some hrow
    | insertAccount =>
      simp only [Proc.next, CreateAccountPc.next, Option.ite_none_right_eq_some,
        Option.some.injEq] at hm
      obtain ⟨_, rfl⟩ := hm
      obtain ⟨t, _, rfl⟩ := Option.map_eq_some_iff.mp happ
      dsimp only
      split <;> exact ⟨h, rfl⟩
    | insertDeposit account =>
      simp only [Proc.next, CreateAccountPc.next, Option.dite_none_right_eq_some,
        Option.some.injEq] at hm
      obtain ⟨_, rfl⟩ := hm
      obtain ⟨t, _, rfl⟩ := Option.map_eq_some_iff.mp happ
      exact h
    | commit account ws =>
      obtain rfl := Option.some.inj hm
      trivial
  | createLock accountId reason pc =>
    obtain rfl := Option.some.inj hm
    cases pc with
    | selectAccount =>
      simp only [CreateLockPc.next] at happ ⊢
      split
      · trivial
      · next hrow =>
        rw [hrow] at happ
        obtain ⟨t, _, rfl⟩ := Option.map_eq_some_iff.mp happ
        exact Option.isSome_of_eq_some hrow
    | insertLock =>
      obtain ⟨t, _, rfl⟩ := Option.map_eq_some_iff.mp happ
      exact ⟨h, rfl⟩
    | commit lock => trivial
  | releaseLock accountId lockId pc =>
    obtain rfl := Option.some.inj hm
    cases pc <;> simp only [ReleaseLockPc.next] <;> (try split) <;> trivial
  | createComment accountId body pc =>
    obtain rfl := Option.some.inj hm
    cases pc with
    | assertAccountExists =>
      simp only [CreateCommentPc.next]
      split <;> trivial
    | insert => exact ⟨rfl, rfl⟩
    | commit comment => trivial
  | createTransfer input pc =>
    cases pc <;> simp only [Proc.next, TransferService.next, TransferService.respond] at hm <;>
      grind [Proc.Checked]

theorem checked_act {deps : Dependencies} {s s₁ : Shared} {i : Pid} {p : Proc} {a : Label}
    {m : Move} (hp : p.Holding deps s i) (h : p.Checked s.db) (hm : Acts deps s i p a m)
    (happ : s.apply i m.effect = some s₁) : m.next.Checked s₁.db := by
  cases hm with
  | next hm => exact checked_next hp h hm happ
  | @start op _ hm =>
    cases op with
    | execute transfer =>
      simp only [Operation.begin, Option.ite_none_right_eq_some, Option.some.injEq] at hm
      obtain ⟨_, rfl⟩ := hm
      simp only [TransferExecutor.start]
      split <;> trivial
    | createTransfer input =>
      simp only [Operation.begin] at hm
      split at hm <;> cases hm <;> trivial
    | _ => cases hm; trivial
  | deliver _ => trivial
  | queue => trivial
  | abort => cases p <;> trivial
  | crash => trivial

/-- `Proc.Holding` and `Proc.Checked` as local assertions of the interleaving. -/
def serialProof (deps : Dependencies) (ok : Guard) :
    Interleaving.RelyGuarantee (system deps) ok
      fun c => ∀ i, (c.locals i).Holding deps c.shared i where
  inv _ := True
  asserts i s p := p.Holding deps s i ∧ p.Checked s.db
  guarantee := SerialGuarantee
  own c i a s p hknown _ hall hok hstep := by
    obtain ⟨es, _, hchange⟩ := step_change (hknown i) hstep
    obtain ⟨_, hholding, hg⟩ :=
      (holdingProof deps ok).own c i a s p trivial trivial hknown hok hstep
    refine ⟨trivial, ⟨hholding, ?_⟩, ⟨hg, hchange.customers, hchange.account_stays,
      fun l hl => hchange.locks_active hl⟩⟩
    obtain ⟨m, s₁, hact, happ, rfl, rfl⟩ := step_eq_some.mp hstep
    have hchecked := checked_act (hall i).1 (hall i).2 (acts_of_act hact) happ
    exact hchecked
  stable i j s s' p hij _ hg hp :=
    ⟨hp.1.stable hij hg.toGuarantee, hp.2.stable hij hg hp.1⟩

theorem checked {deps : Dependencies} {ok : Guard} {db : Db} {c : State}
    (h : Reaches deps ok db c) (i : Pid) : (c.locals i).Checked c.shared.db :=
  (((serialProof deps ok).sound h (fun _ hc => holding hc) trivial
    fun _ => ⟨trivial, trivial⟩).2 i).2

/-! ## Replaying a transaction -/

/-- A state of the serial run shows the same as a state of the run. -/
structure Same (s t : Shared) : Prop where
  db : t.db = s.db
  queue : t.queue = s.queue
  unlocked : t.locks.held = []
  log : outcomes t.log = outcomes s.log

/-- Process `i` replays its transaction. -/
structure Replaying (i : Pid) (s t : Shared) : Prop where
  db : t.db = s.db
  queue : t.queue = s.queue
  locks : ∀ e ∈ t.locks.held, e.pid = i
  log : outcomes t.log = outcomes s.log

/-- Steps of process `i` alone. -/
abbrev Replay (deps : Dependencies) (i : Pid) : Shared × Proc → Shared × Proc → Prop :=
  (system deps).Alone (fun _ _ => True) i

theorem Same.replaying {s t : Shared} (h : Same s t) (i : Pid) : Replaying i s t :=
  ⟨h.db, h.queue, by simp [h.unlocked], h.log⟩

theorem Same.record {s t : Shared} (h : Same s t) {es es' : List Event}
    (hes : outcomes es' = outcomes es) : Same (s.record es) (t.record es') :=
  ⟨h.db, h.queue, h.unlocked, by simp [h.log, hes]⟩

/-- What does not wait for a lock takes effect in the serial run too. -/
theorem Same.apply {s s₁ t : Shared} {i : Pid} {e : Effect} (h : Same s t)
    (happ : s.apply i e = some s₁) (he : ∀ row mode, e ≠ .lock row mode) :
    ∃ t₁, t.apply i e = some t₁ ∧ Same s₁ t₁ := by
  obtain ⟨hdb, hqueue, hlocks, hlog⟩ := h
  cases e with
  | quiet =>
    obtain rfl := Option.some.inj happ
    exact ⟨t, rfl, hdb, hqueue, hlocks, hlog⟩
  | lock row mode => exact absurd rfl (he row mode)
  | rollback =>
    obtain rfl := Option.some.inj happ
    exact ⟨_, rfl, hdb, hqueue, by simp [LockTable.release, hlocks], hlog⟩
  | commit ws =>
    obtain ⟨db, hinstall, rfl⟩ := Option.map_eq_some_iff.mp happ
    exact ⟨_, Option.map_eq_some_iff.mpr ⟨db, hdb ▸ hinstall, rfl⟩, rfl, hqueue,
      by simp [LockTable.release, hlocks], hlog⟩
  | autocommit row ws =>
    obtain ⟨_, happ⟩ := Option.ite_none_right_eq_some.mp happ
    obtain ⟨db, hinstall, rfl⟩ := Option.map_eq_some_iff.mp happ
    have havail : t.locks.available i row .forUpdate := by simp [LockTable.available, hlocks]
    refine ⟨{ t with db }, ?_, rfl, hqueue, hlocks, hlog⟩
    rw [Shared.apply, if_pos havail, hdb, hinstall, Option.map_some]
  | enqueue jobId transferId =>
    obtain rfl := Option.some.inj happ
    exact ⟨_, rfl, hdb, congrArg (·.add jobId transferId) hqueue, hlocks, hlog⟩
  | take jobId =>
    obtain ⟨queue, htake, rfl⟩ := Option.map_eq_some_iff.mp happ
    exact ⟨_, Option.map_eq_some_iff.mpr ⟨queue, hqueue ▸ htake, rfl⟩, hdb, rfl, hlocks, hlog⟩
  | settle jobId outcome =>
    obtain rfl := Option.some.inj happ
    exact ⟨_, rfl, hdb, congrArg (·.settle i jobId outcome) hqueue, hlocks, hlog⟩
  | react e =>
    obtain ⟨queue, hreact, rfl⟩ := Option.map_eq_some_iff.mp happ
    exact ⟨_, Option.map_eq_some_iff.mpr ⟨queue, hqueue ▸ hreact, rfl⟩, hdb, rfl, hlocks, hlog⟩

/-- The end of a transaction takes effect behind its replay too, and drops all locks that the replay
took. -/
theorem Replaying.apply {s s₁ t : Shared} {i : Pid} {e : Effect} (h : Replaying i s t)
    (he : e = .rollback ∨ ∃ ws, e = .commit ws) (happ : s.apply i e = some s₁) :
    ∃ t₁, t.apply i e = some t₁ ∧ Same s₁ t₁ := by
  rcases he with rfl | ⟨ws, rfl⟩
  · obtain rfl := Option.some.inj happ
    exact ⟨_, rfl, h.db, h.queue, by simpa [LockTable.release] using h.locks, h.log⟩
  · obtain ⟨db, hinstall, rfl⟩ := Option.map_eq_some_iff.mp happ
    exact ⟨_, Option.map_eq_some_iff.mpr ⟨db, h.db ▸ hinstall, rfl⟩, rfl, h.queue,
      by simpa [LockTable.release] using h.locks, h.log⟩

section Steps

variable {deps : Dependencies} {s t t₁ : Shared} {i : Pid} {p q : Proc} {c : Choice}
  {es : List Event}

theorem replay_act {a : Label} {m : Move} (hm : p.act deps t i a = some m)
    (happ : t.apply i m.effect = some t₁) :
    Replay deps i (t, p) (t₁.record m.events, m.next) :=
  .single ⟨a, trivial, step_eq_some.mpr ⟨m, t₁, hm, happ, rfl, rfl⟩⟩

theorem act_next (p : Proc) (s : Shared) (c : Choice) :
    p.act deps s i (.next c) = p.next deps s i c := by
  cases p <;> rfl

theorem replay_next {m : Move} (hm : p.next deps t i c = some m)
    (happ : t.apply i m.effect = some t₁) :
    Replay deps i (t, p) (t₁.record m.events, m.next) :=
  replay_act ((act_next p t c).trans hm) happ

/-- A statement that only reads. -/
theorem Replaying.read (h : Replaying i s t) (hm : p.next deps t i c = some ⟨.quiet, es, q⟩)
    (hes : outcomes es = []) : ∃ t', Replay deps i (t, p) (t', q) ∧ Replaying i s t' :=
  ⟨t.record es, replay_next hm rfl, h.db, h.queue, h.locks, by simp [h.log, hes]⟩

/-- A statement that takes a row lock. No other process has one. -/
theorem Replaying.lock (h : Replaying i s t) {row : RowRef} {mode : LockMode}
    (hm : p.next deps t i c = some ⟨.lock row mode, [], q⟩) :
    ∃ t', Replay deps i (t, p) (t', q) ∧ Replaying i s t' := by
  have havail : t.locks.available i row mode :=
    LockTable.available_iff.mpr fun j m hj hij => absurd (h.locks _ hj).symm hij
  obtain ⟨locks, hlocks, hheld⟩ := LockTable.acquire?_of_available havail
  refine ⟨_, replay_next hm (Option.map_eq_some_iff.mpr ⟨locks, hlocks, rfl⟩), h.db, h.queue,
    fun e he => ?_, by simp [h.log]⟩
  have he : e ∈ locks.held := he
  rw [hheld, List.mem_cons] at he
  rcases he with rfl | he
  · rfl
  · exact h.locks e he

end Steps

/-! ## Replaying a run of `execute` -/

/-- The checks pass when no lock is active and the stored balance covers the amount. -/
theorem verdict_of_funds {db : Db} {transfer : TransferRow} {fromAccountId : Uuid}
    {rowById : List (Uuid × ℤ)} {source : AccountRow}
    (hmap : rowById.lookup fromAccountId = some source.balanceNumber)
    (hlocks : db.activeLocks fromAccountId transfer.toAccountId = [])
    (hfunds : transfer.amountCents.cents ≤ source.balanceCents) :
    TransferExecutor.verdict db transfer fromAccountId rowById = none := by
  unfold TransferExecutor.verdict
  rw [if_neg (not_not.mpr hlocks), hmap]
  refine if_neg fun hlt => ?_
  exact absurd ((JsNumber.ofInt_lt_iff transfer.amountCents.safe).mp hlt) (not_lt.mpr hfunds)

/-- The checks look at one number of the map only. -/
theorem verdict_congr {db : Db} {transfer : TransferRow} {fromAccountId : Uuid}
    {rowById rowById' : List (Uuid × ℤ)}
    (h : rowById'.lookup fromAccountId = rowById.lookup fromAccountId) :
    TransferExecutor.verdict db transfer fromAccountId rowById' =
      TransferExecutor.verdict db transfer fromAccountId rowById := by
  simp only [TransferExecutor.verdict, h]

section Execute

variable {deps : Dependencies} {s t : Shared} {i : Pid} {job : Option String}
  {transfer : TransferRow} {fromAccountId : Uuid} {source destination : AccountRow}

/-- A state of a run of `execute`. -/
abbrev executing (job : Option String) (transfer : TransferRow) (fromAccountId : Uuid)
    (pc : ExecutePc) : Proc :=
  .processor job (.executing transfer fromAccountId pc)

/-- Replay a run of `execute` on two accounts up to one of its awaits. -/
def Replays (deps : Dependencies) (i : Pid) (s t : Shared) (job : Option String)
    (transfer : TransferRow) (fromAccountId : Uuid) (pc : ExecutePc) : Prop :=
  ∃ t', Replay deps i
      (t, executing job transfer fromAccountId (pc.origin transfer fromAccountId))
      (t', executing job transfer fromAccountId pc) ∧
    Replaying i s t'

variable (deps i job) (c : Choice)

variable {c} in
theorem next_eq_executing {pc pc' : ExecutePc} {e : Effect} {es : List Event}
    (h : TransferExecutor.next t i transfer fromAccountId c pc =
      (e, es, .executing transfer fromAccountId pc')) :
    (executing job transfer fromAccountId pc).next deps t i c =
      some ⟨e, es, executing job transfer fromAccountId pc'⟩ := by
  simp only [Proc.next, ProcessorPc.next, h]

include c

/-- The first row lock. -/
theorem replays_lockRows (h : Same s t) {row : AccountRow}
    (hrow : s.db.accounts.find? (lockOrder fromAccountId transfer.toAccountId).1 = some row) :
    Replays deps i s t job transfer fromAccountId
      (.lockRows (lockOrder fromAccountId transfer.toAccountId).2 []
        [((lockOrder fromAccountId transfer.toAccountId).1, row.balanceNumber)]) := by
  have hid : row.id = (lockOrder fromAccountId transfer.toAccountId).1 := Table.key_of_find? hrow
  have hnext : TransferExecutor.next t i transfer fromAccountId c
      (.lockRows (lockOrder fromAccountId transfer.toAccountId).1
        [(lockOrder fromAccountId transfer.toAccountId).2] []) =
      (.lock (.account (lockOrder fromAccountId transfer.toAccountId).1) .forUpdate, [],
        .executing transfer fromAccountId
          (.lockRows (lockOrder fromAccountId transfer.toAccountId).2 []
            [((lockOrder fromAccountId transfer.toAccountId).1, row.balanceNumber)])) := by
    simp only [TransferExecutor.next, h.db, hrow, hid, TransferExecutor.lockRest, List.nil_append]
  exact (h.replaying i).lock (next_eq_executing deps i job hnext)

variable (h : Same s t) (hfrom : transfer.fromAccountId = some fromAccountId)
  (hsource : s.db.accounts.find? fromAccountId = some source)
  (hdestination : s.db.accounts.find? transfer.toAccountId = some destination)

include h hfrom hsource hdestination

/-- Both row locks. -/
theorem replays_readLocks : ∃ rowById,
    rowById.lookup fromAccountId = some source.balanceNumber ∧
      Replays deps i s t job transfer fromAccountId (.readLocks rowById) := by
  have hne : fromAccountId ≠ transfer.toAccountId :=
    fun h => transfer.distinct (hfrom.trans (h ▸ rfl))
  obtain ⟨r₁, r₂, hr₁, hr₂, hlookup⟩ : ∃ r₁ r₂,
      s.db.accounts.find? (lockOrder fromAccountId transfer.toAccountId).1 = some r₁ ∧
      s.db.accounts.find? (lockOrder fromAccountId transfer.toAccountId).2 = some r₂ ∧
      [((lockOrder fromAccountId transfer.toAccountId).1, r₁.balanceNumber),
        ((lockOrder fromAccountId transfer.toAccountId).2, r₂.balanceNumber)].lookup
          fromAccountId = some source.balanceNumber := by
    rcases lockOrder_cases fromAccountId transfer.toAccountId with ⟨ho, _⟩ | ⟨ho, _⟩
    · rw [ho]
      exact ⟨source, destination, hsource, hdestination, by simp⟩
    · rw [ho]
      refine ⟨destination, source, hdestination, hsource, ?_⟩
      rw [List.lookup_cons, beq_false_of_ne hne]
      simp
  have hid : r₂.id = (lockOrder fromAccountId transfer.toAccountId).2 := Table.key_of_find? hr₂
  obtain ⟨t₁, hreplay₁, h₁⟩ := replays_lockRows deps i job c h hr₁
  have hnext : TransferExecutor.next t₁ i transfer fromAccountId c
      (.lockRows (lockOrder fromAccountId transfer.toAccountId).2 []
        [((lockOrder fromAccountId transfer.toAccountId).1, r₁.balanceNumber)]) =
      (.lock (.account (lockOrder fromAccountId transfer.toAccountId).2) .forUpdate, [],
        .executing transfer fromAccountId (.readLocks
          [((lockOrder fromAccountId transfer.toAccountId).1, r₁.balanceNumber),
            ((lockOrder fromAccountId transfer.toAccountId).2, r₂.balanceNumber)])) := by
    simp only [TransferExecutor.next, h₁.db, hr₂, hid, TransferExecutor.lockRest, List.cons_append,
      List.nil_append]
  obtain ⟨t₂, hreplay₂, h₂⟩ := h₁.lock (next_eq_executing deps i job hnext)
  exact ⟨_, hlookup, t₂, hreplay₁.trans hreplay₂, h₂⟩

variable (hlocks : s.db.activeLocks fromAccountId transfer.toAccountId = [])
  (hfunds : transfer.amountCents.cents ≤ source.balanceCents)

include hlocks hfunds

/-- The lock check, the funds check and the debit. -/
theorem replays_credit : ∃ readAt, Replays deps i s t job transfer fromAccountId
    (.credit readAt [.putAccount (source.add (-transfer.amountCents.cents))]) := by
  obtain ⟨rowById, hmap, t₁, hreplay₁, h₁⟩ :=
    replays_readLocks deps i job c h hfrom hsource hdestination
  have hchecks : TransferExecutor.next t₁ i transfer fromAccountId c (.readLocks rowById) =
      (.quiet, [.locksRead i transfer],
        .executing transfer fromAccountId (.debit t₁.log.length)) := by
    simp only [TransferExecutor.next, h₁.db, verdict_of_funds hmap hlocks hfunds]
  obtain ⟨t₂, hreplay₂, h₂⟩ := h₁.read (next_eq_executing deps i job hchecks) rfl
  have hdebit : TransferExecutor.next t₂ i transfer fromAccountId c (.debit t₁.log.length) =
      (.quiet, [], .executing transfer fromAccountId (.credit t₁.log.length
        [.putAccount (source.add (-transfer.amountCents.cents))])) := by
    simp only [TransferExecutor.next, TransferExecutor.updateBalance, h₂.db, hsource]
  obtain ⟨t₃, hreplay₃, h₃⟩ := h₂.read (next_eq_executing deps i job hdebit) rfl
  exact ⟨_, t₃, (hreplay₁.trans hreplay₂).trans hreplay₃, h₃⟩

/-- The credit and the update of the transfer row. -/
theorem replays_commit
    (hroom : TransferExecutor.overflows s.db transfer.toAccountId transfer.amountCents.cents =
      false)
    {row : TransferRow} (hrow : s.db.transfers.find? transfer.id = some row) :
    ∃ readAt, Replays deps i s t job transfer fromAccountId
      (.commit readAt (accountVersions transfer source destination) (row.complete c.now)) := by
  obtain ⟨readAt, t₁, hreplay₁, h₁⟩ :=
    replays_credit deps i job c h hfrom hsource hdestination hlocks hfunds
  have hcredit : TransferExecutor.next t₁ i transfer fromAccountId c
      (.credit readAt [.putAccount (source.add (-transfer.amountCents.cents))]) =
      (.quiet, [], .executing transfer fromAccountId
        (.complete readAt (accountVersions transfer source destination))) := by
    simp [TransferExecutor.next, TransferExecutor.updateBalance, h₁.db, hdestination, hroom,
      accountVersions]
  obtain ⟨t₂, hreplay₂, h₂⟩ := h₁.read (next_eq_executing deps i job hcredit) rfl
  have hcomplete : TransferExecutor.next t₂ i transfer fromAccountId c
      (.complete readAt (accountVersions transfer source destination)) =
      (.lock (.transfer transfer.id) .forUpdate, [], .executing transfer fromAccountId
        (.commit readAt (accountVersions transfer source destination) (row.complete c.now))) := by
    simp only [TransferExecutor.next, h₂.db, hrow]
  obtain ⟨t₃, hreplay₃, h₃⟩ := h₂.lock (next_eq_executing deps i job hcomplete)
  exact ⟨_, t₃, (hreplay₁.trans hreplay₂).trans hreplay₃, h₃⟩

end Execute

/-! ## Replaying an insert -/

section Insert

variable (deps : Dependencies) {s t : Shared} (i : Pid) {c : Choice}

/-- The statements of `AccountService.create` before its commit. -/
theorem Same.replay_createAccount (h : Same s t) {db : Db} {customerId : Uuid}
    {deposit : NonNegativeCents} {account : AccountRow}
    (hcustomer : (s.db.customers.find? customerId).isSome)
    (hid : account.customerId = customerId) (hbalance : account.balanceCents = deposit.cents)
    (hinstall : s.db.install (openingWrites account deposit c) = some db) :
    ∃ t', Replay deps i (t, .createAccount customerId deposit .selectCustomer)
        (t', .createAccount customerId deposit
          (.commit account (openingWrites account deposit c))) ∧
      Replaying i s t' := by
  obtain ⟨customer, hcustomer⟩ := Option.isSome_iff_exists.mp hcustomer
  obtain ⟨accounts, haccounts, _⟩ := install_openingWrites hinstall
  have hnew : s.db.accounts.find? account.id = none := (Table.insert?_eq_some haccounts).1
  have hselect : (Proc.createAccount customerId deposit .selectCustomer).next deps t i c =
      some ⟨.quiet, [], .createAccount customerId deposit .insertAccount⟩ := by
    simp only [Proc.next, CreateAccountPc.next, h.db, hcustomer]
  have hreplay₁ := replay_next hselect rfl
  -- the id of the account is still unused, and no other process holds a lock
  have hunused : (t.record []).unusedAccountId account.id := by
    simp [Shared.unusedAccountId, h.db, hnew, h.unlocked]
  have haccount : (⟨account.id, customerId, deposit.cents⟩ : AccountRow) = account := by
    rw [← hid, ← hbalance]
  have hinsert : (Proc.createAccount customerId deposit .insertAccount).next deps
      (t.record []) i ⟨c.now, account.id, c.seq⟩ =
        some ⟨.lock (.account account.id) .forUpdate, [], .createAccount customerId deposit
          (if 0 < deposit.cents then .insertDeposit account
            else .commit account [.insertAccount account])⟩ := by
    simp only [Proc.next, CreateAccountPc.next, hunused, if_true, haccount]
  have hreplaying : Replaying i s (t.record []) :=
    ⟨h.db, h.queue, (h.replaying i).locks, by simp [h.log]⟩
  obtain ⟨t₂, hreplay₂, h₂⟩ := hreplaying.lock hinsert
  by_cases hpos : 0 < deposit.cents
  · rw [if_pos hpos] at hreplay₂
    have hdeposit : (Proc.createAccount customerId deposit (.insertDeposit account)).next deps
        t₂ i c = some ⟨.lock (.account account.id) .forKeyShare, [],
          .createAccount customerId deposit
            (.commit account (openingWrites account deposit c))⟩ := by
      simp only [Proc.next, CreateAccountPc.next, openingWrites, dif_pos hpos]
    obtain ⟨t₃, hreplay₃, h₃⟩ := h₂.lock hdeposit
    exact ⟨t₃, (hreplay₁.trans hreplay₂).trans hreplay₃, h₃⟩
  · rw [if_neg hpos] at hreplay₂
    rw [openingWrites, dif_neg hpos]
    exact ⟨t₂, hreplay₁.trans hreplay₂, h₂⟩

/-- The statements of `LockService.create` before its commit. -/
theorem Same.replay_createLock (h : Same s t) {accountId : Uuid} {reason : String} {lock : LockRow}
    (haccount : (s.db.accounts.find? accountId).isSome) (hon : lock.accountId = accountId)
    (hreason : lock.reason = reason) (hactive : lock.releasedAt = none) :
    ∃ t', Replay deps i (t, .createLock accountId reason .selectAccount)
        (t', .createLock accountId reason (.commit lock)) ∧ Replaying i s t' := by
  obtain ⟨account, haccount⟩ := Option.isSome_iff_exists.mp haccount
  have hselect : (Proc.createLock accountId reason .selectAccount).next deps t i
      ⟨lock.createdAt, lock.id, 0⟩ = some ⟨.lock (.account accountId) .forUpdate, [],
        .createLock accountId reason .insertLock⟩ := by
    simp only [Proc.next, CreateLockPc.next, h.db, haccount]
  obtain ⟨t₁, hreplay₁, h₁⟩ := (h.replaying i).lock hselect
  have hinsert : (Proc.createLock accountId reason .insertLock).next deps t₁ i
      ⟨lock.createdAt, lock.id, 0⟩ = some ⟨.lock (.account accountId) .forKeyShare, [],
        .createLock accountId reason (.commit lock)⟩ := by
    simp only [Proc.next, CreateLockPc.next, ← hon, ← hreason, ← hactive]
  obtain ⟨t₂, hreplay₂, h₂⟩ := h₁.lock hinsert
  exact ⟨t₂, hreplay₁.trans hreplay₂, h₂⟩

/-- The foreign-key lock of `CommentService.create`. -/
theorem Same.replay_createComment (h : Same s t) {accountId : Uuid} {body : String}
    {comment : CommentRow} (hon : comment.accountId = accountId) (hbody : comment.body = body) :
    ∃ t', Replay deps i (t, .createComment accountId body .insert)
        (t', .createComment accountId body (.commit comment)) ∧ Replaying i s t' := by
  have hinsert : (Proc.createComment accountId body .insert).next deps t i
      ⟨comment.createdAt, comment.id, 0⟩ = some ⟨.lock (.account accountId) .forKeyShare, [],
        .createComment accountId body (.commit comment)⟩ := by
    simp only [Proc.next, CreateCommentPc.next, ← hon, ← hbody]
  exact (h.replaying i).lock hinsert

/-- The insert of a pending transfer up to its commit. -/
theorem Same.replay_createTransfer (h : Same s t) {db : Db} {input : CreateTransferInput}
    {hne : input.fromAccountId ≠ input.toAccountId}
    (hwrite : s.db.write (.insertTransfer (TransferService.pendingRow deps input c hne)) =
      some db) :
    ∃ t', Replay deps i (t, .createTransfer input .insert)
        (t', .createTransfer input (.commit (TransferService.pendingRow deps input c hne))) ∧
      Replaying i s t' := by
  obtain ⟨hfresh, transfers, htransfers, _⟩ := write_insertTransfer hwrite
  have hid : s.db.transfers.find? c.uuid = none := (Table.insert?_eq_some htransfers).1
  have hkey : s.db.transferByKey input.idempotencyKey = none := by
    refine List.find?_eq_none.mpr fun row hrow hsame => ?_
    have := hfresh row hrow
    simp [TransferRow.collides, TransferService.pendingRow, of_decide_eq_true hsame] at this
  have hinsert : (Proc.createTransfer input .insert).next deps t i c =
      some ⟨.lock (.idempotencyKey input.idempotencyKey) .forUpdate, [],
        .createTransfer input
          (.referenceFrom (TransferService.pendingRow deps input c hne))⟩ := by
    simp [Proc.next, TransferService.next, h.db, hkey, hid, hne]
  obtain ⟨t₁, hreplay₁, h₁⟩ := (h.replaying i).lock hinsert
  have hfrom : (Proc.createTransfer input
      (.referenceFrom (TransferService.pendingRow deps input c hne))).next deps t₁ i c =
      some ⟨.lock (.account input.fromAccountId) .forKeyShare, [], .createTransfer input
        (.referenceTo (TransferService.pendingRow deps input c hne))⟩ := rfl
  obtain ⟨t₂, hreplay₂, h₂⟩ := h₁.lock hfrom
  have hto : (Proc.createTransfer input
      (.referenceTo (TransferService.pendingRow deps input c hne))).next deps t₂ i c =
      some ⟨.lock (.account input.toAccountId) .forKeyShare, [], .createTransfer input
        (.commit (TransferService.pendingRow deps input c hne))⟩ := rfl
  obtain ⟨t₃, hreplay₃, h₃⟩ := h₂.lock hto
  exact ⟨t₃, (hreplay₁.trans hreplay₂).trans hreplay₃, h₃⟩

end Insert

/-! ## Every step is replayed -/

/-- Behind a step from `p` to `q` the serial run goes from the origin of `p` to that of `q`. -/
def Follows (deps : Dependencies) (i : Pid) (s t : Shared) (p q : Proc) : Prop :=
  ∃ t', Replay deps i (t, p.origin) (t', q.origin) ∧ Same s t'

section Follow

variable {deps : Dependencies} {s s₁ t : Shared} {i : Pid} {p : Proc} {c : Choice}

/-- A statement outside a transaction is taken as it is. -/
theorem follows_act {a : Label} {m : Move} (h : Same s t)
    (hm : p.origin.act deps t i a = some m) (happ : s.apply i m.effect = some s₁)
    (he : ∀ row mode, m.effect ≠ .lock row mode) (hnext : m.next.origin = m.next) :
    Follows deps i (s₁.record m.events) t p m.next := by
  obtain ⟨t₁, happ', h₁⟩ := h.apply happ he
  refine ⟨t₁.record m.events, ?_, h₁.record rfl⟩
  rw [hnext]
  exact replay_act hm happ'

/-- A statement inside a transaction is put off. -/
theorem follows_later {m : Move} (h : Same s t) (happ : s.apply i m.effect = some s₁)
    (he : m.effect = .quiet ∨ ∃ row mode, m.effect = .lock row mode)
    (hes : outcomes m.events = []) (hnext : m.next.origin = p.origin) :
    Follows deps i (s₁.record m.events) t p m.next := by
  refine ⟨t, ?_, ?_⟩
  · rw [hnext]
    exact .refl
  · rcases he with he | ⟨row, mode, he⟩ <;> rw [he] at happ
    · obtain rfl := Option.some.inj happ
      exact ⟨h.db, h.queue, h.unlocked, by simp [h.log, hes]⟩
    · obtain ⟨locks, _, rfl⟩ := Option.map_eq_some_iff.mp happ
      exact ⟨h.db, h.queue, h.unlocked, by simp [h.log, hes]⟩

/-- The end of a transaction is taken behind the replay of what came before. -/
theorem follows_end {u : Shared} {p₀ q : Proc} {e : Effect} {es es' : List Event}
    (he : e = .rollback ∨ ∃ ws, e = .commit ws)
    (hreplay : Replay deps i (t, p.origin) (u, p₀)) (hu : Replaying i s u)
    (hm : p₀.next deps u i c = some ⟨e, es', q⟩) (happ : s.apply i e = some s₁)
    (hes : outcomes es' = outcomes es) (hnext : q.origin = q) :
    Follows deps i (s₁.record es) t p q := by
  obtain ⟨u₁, happ', h₁⟩ := hu.apply he happ
  refine ⟨_, ?_, h₁.record hes⟩
  rw [hnext]
  exact hreplay.trans (replay_next hm happ')

/-- A statement of `execute` is replayed. -/
theorem follows_execute {job : Option String} {transfer : TransferRow} {fromAccountId : Uuid}
    {pc : ExecutePc} (hfrom : transfer.fromAccountId = some fromAccountId)
    (hstored : s.db.stores transfer) (hpc : pc.Holding s i transfer fromAccountId)
    (hchecked : pc.Checked s.db transfer fromAccountId)
    (happ : s.apply i (TransferExecutor.next s i transfer fromAccountId c pc).1 = some s₁)
    (h : Same s t) :
    Follows deps i (s₁.record (TransferExecutor.next s i transfer fromAccountId c pc).2.1) t
      (executing job transfer fromAccountId pc)
      (.processor job (TransferExecutor.next s i transfer fromAccountId c pc).2.2) := by
  cases pc with
  | lockRows accountId rest rowById =>
    simp only [TransferExecutor.next] at happ ⊢
    cases hrow : s.db.accounts.find? accountId with
    | none =>
      rw [hrow] at happ
      obtain ⟨u, hreplay, hu⟩ : Replays deps i s t job transfer fromAccountId
          (.lockRows accountId rest rowById) := by
        rcases hpc with ⟨rfl, rfl, rfl⟩ | ⟨rfl, rfl, _, row, hfirst, rfl⟩
        · exact ⟨t, .refl, h.replaying i⟩
        · exact replays_lockRows deps i job c h hfirst
      refine follows_end (c := c) (.inl rfl) hreplay hu ?_ happ rfl rfl
      simp only [Proc.next, ProcessorPc.next, TransferExecutor.next, hu.db, hrow]
    | some row =>
      rw [hrow] at happ
      refine follows_later (m := ⟨_, [], _⟩) h happ (.inr ⟨_, _, rfl⟩) rfl ?_
      cases rest <;> rfl
  | readLocks rowById =>
    obtain ⟨source, destination, hboth, hmap⟩ := hpc
    simp only [TransferExecutor.next] at happ ⊢
    cases hv : TransferExecutor.verdict s.db transfer fromAccountId rowById with
    | none =>
      rw [hv] at happ
      exact follows_later (m := ⟨_, [.locksRead i transfer], _⟩) h happ (.inl rfl) rfl rfl
    | some err =>
      rw [hv] at happ
      obtain ⟨rowById', hmap', u, hreplay, hu⟩ := replays_readLocks deps i job c h hfrom
        hboth.source_row hboth.destination_row
      have hv' := (verdict_congr (hmap'.trans hmap.symm)).trans hv
      have hnext : (executing job transfer fromAccountId (.readLocks rowById')).next deps u i c =
          some ⟨.rollback, [.locksRead i transfer],
            executing job transfer fromAccountId (.markFailed err)⟩ := by
        simp only [Proc.next, ProcessorPc.next, TransferExecutor.next, hu.db, hv']
      exact follows_end (.inl rfl) hreplay hu hnext happ rfl rfl
  | debit readAt => exact follows_later (m := ⟨_, [], _⟩) h happ (.inl rfl) rfl rfl
  | credit readAt ws =>
    obtain ⟨source, destination, hboth, hfunds, rfl⟩ := hpc
    simp only [TransferExecutor.next] at happ ⊢
    split
    · next hover =>
      rw [if_pos hover] at happ
      obtain ⟨readAt', u, hreplay, hu⟩ := replays_credit deps i job c h hfrom hboth.source_row
        hboth.destination_row hchecked hfunds
      refine follows_end (c := c) (.inl rfl) hreplay hu ?_ happ rfl rfl
      simp only [Proc.next, ProcessorPc.next, TransferExecutor.next, hu.db, hover, if_true]
    · next hover =>
      rw [if_neg hover] at happ
      exact follows_later (m := ⟨_, [], _⟩) h happ (.inl rfl) rfl rfl
  | complete readAt ws =>
    obtain ⟨row, hrow, _⟩ := mem_stores hstored
    simp only [TransferExecutor.next, hrow] at happ ⊢
    exact follows_later (m := ⟨_, [], _⟩) h happ (.inr ⟨_, _, rfl⟩) rfl rfl
  | commit readAt ws completed =>
    obtain ⟨source, destination, hboth, hfunds, rfl, _, row, now, hrow, rfl⟩ := hpc
    obtain ⟨hlocks, hroom⟩ := hchecked
    obtain ⟨readAt', u, hreplay, hu⟩ := replays_commit deps i job ⟨now, c.uuid, c.seq⟩ h hfrom
      hboth.source_row hboth.destination_row hlocks hfunds hroom hrow
    exact follows_end (c := c) (.inr ⟨_, rfl⟩) hreplay hu rfl happ rfl rfl
  | markFailed err =>
    refine follows_act (a := .next c) (m := ⟨_, [.rejected transfer.id err.code], _⟩) h ?_ happ
      (by simp [TransferExecutor.next]) rfl
    simp only [Proc.origin, ExecutePc.origin, Proc.act, Proc.next, ProcessorPc.next,
      TransferExecutor.next, h.db]

theorem origin_start (job : Option String) (transfer : TransferRow) :
    (Proc.processor job (TransferExecutor.start transfer)).origin =
      .processor job (TransferExecutor.start transfer) := by
  unfold TransferExecutor.start
  split <;> rfl

/-- A statement is replayed. -/
theorem follows_next {m : Move} (hp : p.Holding deps s i) (hchecked : p.Checked s.db)
    (hm : p.next deps s i c = some m) (happ : s.apply i m.effect = some s₁) (h : Same s t) :
    Follows deps i (s₁.record m.events) t p m.next := by
  -- outside a transaction the statement itself is taken
  have direct : p.origin = p → p.next deps t i c = some m →
      (∀ row mode, m.effect ≠ .lock row mode) → m.next.origin = m.next →
        Follows deps i (s₁.record m.events) t p m.next := by
    intro horigin hm' he hnext
    refine follows_act (a := .next c) h ?_ happ he hnext
    rw [horigin, act_next, hm']
  cases p with
  | idle => simp [Proc.next] at hm
  | processor job pc =>
    cases pc with
    | select transferId =>
      refine direct rfl ?_ ?_ ?_ <;> obtain rfl := Option.some.inj hm
      · simp only [Proc.next, ProcessorPc.next, h.db]
      · intro row mode
        simp only [ProcessorPc.next]
        grind
      · simp only [ProcessorPc.next]
        split
        · rfl
        · split
          · rfl
          · exact origin_start _ _
    | executing transfer fromAccountId pc =>
      obtain rfl := Option.some.inj hm
      exact follows_execute hp.1 hp.2.1 hp.2.2 hchecked happ h
    | acknowledge outcome =>
      refine direct rfl hm ?_ ?_ <;> obtain rfl := Option.some.inj hm <;>
        cases job <;> simp [ProcessorPc.next, Proc.origin]
  | createAccount customerId deposit pc =>
    cases pc with
    | selectCustomer =>
      simp only [Proc.next, CreateAccountPc.next] at hm
      split at hm
      · next hrow =>
        refine direct rfl ?_ ?_ ?_
        · simpa only [Proc.next, CreateAccountPc.next, h.db, hrow] using hm
        · cases hm
          simp
        · cases hm
          rfl
      · cases hm
        exact follows_later h happ (.inl rfl) rfl rfl
    | insertAccount =>
      simp only [Proc.next, CreateAccountPc.next, Option.ite_none_right_eq_some,
        Option.some.injEq] at hm
      obtain ⟨_, rfl⟩ := hm
      refine follows_later h happ (.inr ⟨_, _, rfl⟩) rfl ?_
      dsimp only
      split <;> rfl
    | insertDeposit account =>
      simp only [Proc.next, CreateAccountPc.next, Option.dite_none_right_eq_some,
        Option.some.injEq] at hm
      obtain ⟨_, rfl⟩ := hm
      exact follows_later h happ (.inr ⟨_, _, rfl⟩) rfl rfl
    | commit account ws =>
      obtain ⟨_, hbalance, c', rfl⟩ := hp
      obtain rfl := Option.some.inj hm
      obtain ⟨db, hinstall, _⟩ := Option.map_eq_some_iff.mp happ
      obtain ⟨u, hreplay, hu⟩ := h.replay_createAccount deps i hchecked.1
        hchecked.2 hbalance hinstall
      exact follows_end (c := c) (.inr ⟨_, rfl⟩) hreplay hu rfl happ rfl rfl
  | createLock accountId reason pc =>
    cases pc with
    | selectAccount =>
      obtain rfl := Option.some.inj hm
      simp only [CreateLockPc.next] at happ ⊢
      cases hrow : s.db.accounts.find? accountId with
      | none =>
        rw [hrow] at happ
        have hnext : (Proc.createLock accountId reason .selectAccount).next deps t i c =
            some ⟨.rollback, [.threw (accountNotFound accountId)], .idle⟩ := by
          simp only [Proc.next, CreateLockPc.next, h.db, hrow]
        exact follows_end (.inl rfl) .refl (h.replaying i) hnext happ rfl rfl
      | some row =>
        rw [hrow] at happ
        exact follows_later (m := ⟨_, [], _⟩) h happ (.inr ⟨_, _, rfl⟩) rfl rfl
    | insertLock =>
      obtain rfl := Option.some.inj hm
      exact follows_later h happ (.inr ⟨_, _, rfl⟩) rfl rfl
    | commit lock =>
      obtain ⟨_, hon, hactive⟩ := hp
      obtain rfl := Option.some.inj hm
      obtain ⟨u, hreplay, hu⟩ := h.replay_createLock deps i hchecked.1 hon
        hchecked.2 hactive
      exact follows_end (c := c) (.inr ⟨_, rfl⟩) hreplay hu rfl happ rfl rfl
  | releaseLock accountId lockId pc =>
    have hm' : (Proc.releaseLock accountId lockId pc).next deps t i c = some m := by
      rw [← hm]
      cases pc <;> simp only [Proc.next, ReleaseLockPc.next, h.db]
    obtain rfl := Option.some.inj hm
    refine direct rfl hm' ?_ ?_ <;> cases pc <;> simp only [ReleaseLockPc.next] <;> split <;>
      simp [Proc.origin]
  | createComment accountId body pc =>
    cases pc with
    | assertAccountExists =>
      have hm' : (Proc.createComment accountId body .assertAccountExists).next deps t i c =
          some m := by
        rw [← hm]
        simp only [Proc.next, CreateCommentPc.next, h.db]
      obtain rfl := Option.some.inj hm
      refine direct rfl hm' ?_ ?_ <;> simp only [CreateCommentPc.next] <;> split <;>
        simp [Proc.origin]
    | insert =>
      obtain rfl := Option.some.inj hm
      exact follows_later h happ (.inr ⟨_, _, rfl⟩) rfl rfl
    | commit comment =>
      obtain rfl := Option.some.inj hm
      obtain ⟨u, hreplay, hu⟩ := h.replay_createComment deps i hchecked.1
        hchecked.2
      exact follows_end (c := c) (.inr ⟨_, rfl⟩) hreplay hu rfl happ rfl rfl
  | createTransfer input pc =>
    have hm' : (∀ row, pc ≠ .commit row) →
        (Proc.createTransfer input pc).next deps t i c = some m := by
      intro _
      rw [← hm]
      cases pc <;> simp only [Proc.next, TransferService.next, h.db]
    cases pc with
    | insert =>
      have hm' := hm' (by simp)
      simp only [Proc.next, TransferService.next, TransferService.respond] at hm
      split at hm
      · refine direct rfl hm' ?_ ?_ <;> cases hm <;> simp [Proc.origin]
      · split at hm
        · split at hm
          · cases hm
            exact follows_later h happ (.inr ⟨_, _, rfl⟩) rfl rfl
          · cases hm
        · refine direct rfl hm' ?_ ?_ <;> cases hm <;> simp [Proc.origin]
    | referenceFrom row | referenceTo row =>
      obtain rfl := Option.some.inj hm
      exact follows_later h happ (.inr ⟨_, _, rfl⟩) rfl rfl
    | commit row =>
      obtain ⟨_, c', hne, rfl⟩ := hp
      obtain rfl := Option.some.inj hm
      obtain ⟨db, hinstall, _⟩ := Option.map_eq_some_iff.mp happ
      obtain ⟨u, hreplay, hu⟩ := h.replay_createTransfer deps i (by
        simpa [Db.install] using hinstall)
      exact follows_end (c := c) (.inr ⟨_, rfl⟩) hreplay hu rfl happ rfl rfl
    | assertAccountsExist | enqueue _ _ | replay =>
      have hm' := hm' (by simp)
      simp only [Proc.next, TransferService.next, TransferService.respond] at hm
      refine direct rfl hm' ?_ ?_ <;> grind [Proc.origin]

/-- Every step is replayed. -/
theorem follows {a : Label} {m : Move} (hp : p.Holding deps s i) (hchecked : p.Checked s.db)
    (hm : Acts deps s i p a m) (happ : s.apply i m.effect = some s₁) (h : Same s t) :
    Follows deps i (s₁.record m.events) t p m.next := by
  cases hm with
  | next hm => exact follows_next hp hchecked hm happ h
  | @start op m hm =>
    have hbegin : op.begin t = some m := by
      rw [← hm]
      cases op <;> simp only [Operation.begin, h.db]
    refine follows_act (a := .start op) h hbegin happ ?_ ?_ <;> cases op <;>
      simp only [Operation.begin] at hm <;> grind [Proc.origin, origin_start]
  | @deliver job hjob =>
    refine follows_act (a := .deliver job.id) h ?_ happ (by simp) rfl
    simp only [Proc.origin, Proc.act, h.queue, hjob, Option.map_some]
  | @queue e => exact follows_act (a := .queue e) h rfl happ (by simp) rfl
  | @abort p =>
    refine follows_act (a := .abort) h ?_ happ ?_ ?_
    · cases p with
      | processor job pc => cases pc <;> rfl
      | createComment accountId body pc => cases pc <;> rfl
      | createTransfer input pc => cases pc <;> rfl
      | _ => rfl
    · cases p <;> simp [Proc.abort]
    · cases p <;> rfl
  | @crash p =>
    refine follows_act (a := .crash) h ?_ happ (by simp) rfl
    cases p.origin <;> rfl

end Follow

/-- The transactions of the bank. -/
def transactions (deps : Dependencies) (ok : Guard) :
    Interleaving.Serializes (system deps) ok
      fun c => ∀ i, (c.locals i).Holding deps c.shared i ∧ (c.locals i).Checked c.shared.db where
  origin := Proc.origin
  origin_origin := Proc.origin_origin
  same := Same
  replay c i a s p t hknown _ hstep h := by
    obtain ⟨m, s₁, hact, happ, rfl, rfl⟩ := step_eq_some.mp hstep
    exact follows (hknown i).1 (hknown i).2 (acts_of_act hact) happ h

/-- The guard that lets a process take a step only while no other one is inside a transaction. -/
abbrev oneTransaction : Guard := Interleaving.serial Proc.origin

/-- Transactions are serializable: behind every run, whatever statements interleave, fail or are
cut off by a crash, there is a run in which no two transactions overlap. It reaches the same
database and queue, calls start, answer and commit in the same order, and each process is where its
open transaction, if there is one, began. -/
theorem serializable (deps : Dependencies) (db : Db) (c : State)
    (h : Reaches deps Interleaving.anyStep db c) :
    ∃ d, Reaches deps oneTransaction db d ∧ d.shared.db = c.shared.db ∧
      d.shared.queue = c.shared.queue ∧ outcomes d.shared.log = outcomes c.shared.log ∧
      ∀ i, d.locals i = (c.locals i).origin := by
  obtain ⟨t, hrun, hsame⟩ := (transactions deps Interleaving.anyStep).sound h
    (fun _ hc i => ⟨holding hc i, checked hc i⟩) ⟨rfl, rfl, rfl, rfl⟩ fun _ => rfl
  exact ⟨_, hrun, hsame.db, hsame.queue, hsame.log, fun _ => rfl⟩

/-- A transfer of 50 from account 1 to account 2, while another process opens account 5. -/
def overlappingRun : List (Pid × Label) :=
  openAccounts ++ [(0, .start (.createTransfer (sampleInput "key")))] ++
    List.replicate 6 (0, .next (chosen 3)) ++
    [(0, .start (.processJob ⟨3⟩)), (1, .start (.createAccount ⟨9⟩ noCents))] ++
    List.replicate 3 (0, .next (chosen 3)) ++ List.replicate 2 (1, .next (chosen 5)) ++
    List.replicate 4 (0, .next (chosen 3)) ++ [(1, .next (chosen 5)), (0, .next (chosen 3))]

theorem serializable_overlapping : ∃ d,
    Reaches sampleDeps oneTransaction (Db.seeded sampleCustomers) d ∧
      d.shared.db.accounts.rows.map AccountRow.balanceCents = [10, 50, 0] := by
  have hrun : ((system sampleDeps).moves Interleaving.anyStep
      (State.init (Db.seeded sampleCustomers)) overlappingRun).map
        (fun c => c.shared.db.accounts.rows.map AccountRow.balanceCents) =
        some [10, 50, 0] := by decide
  obtain ⟨c, hc, hbalances⟩ := Option.map_eq_some_iff.mp hrun
  obtain ⟨d, hreach, hdb, _⟩ :=
    serializable sampleDeps (Db.seeded sampleCustomers) c (.of_moves .refl hc)
  exact ⟨d, hreach, hdb ▸ hbalances⟩

end BankPlatform.Bank
