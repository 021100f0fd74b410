import BankPlatform.Bank.Locking

/-!
# Deadlocks

A run of `execute` takes its two account rows in the order of their ids, but the insert of a
transfer takes its foreign-key locks in the order in which the request names the accounts. When
the source comes after the destination, an insert and a run of `execute` can wait for each other.

## Main definitions

* `Proc.lockSet` — the rows that a process can have locked at each await.
* `Proc.request` — the row lock that its next statement asks for.
* `submitting` — the calls of `TransferService.create` are restricted to some inputs.

## Main results

* `deadlock_free_iff` — no account locks are waited for in a cycle, in any run, if and only if no
  submitted transfer has its source after its destination.
-/

namespace BankPlatform.Bank

open Library

/-- The rows that a process can have locked at each await. -/
def Proc.lockSet : Proc → List RowRef
  | .processor _ (.executing transfer fromAccountId pc) =>
    match pc with
    | .lockRows _ _ rowById => rowById.map fun e => .account e.1
    | .markFailed _ => []
    | .commit _ _ _ =>
      [.account fromAccountId, .account transfer.toAccountId, .transfer transfer.id]
    | _ => [.account fromAccountId, .account transfer.toAccountId]
  | .createAccount _ _ (.insertDeposit account) | .createAccount _ _ (.commit account _) =>
    [.account account.id]
  | .createLock accountId _ .insertLock | .createLock accountId _ (.commit _) =>
    [.account accountId]
  | .createComment accountId _ (.commit _) => [.account accountId]
  | .createTransfer input (.referenceFrom _) => [.idempotencyKey input.idempotencyKey]
  | .createTransfer input (.referenceTo _) =>
    [.idempotencyKey input.idempotencyKey, .account input.fromAccountId]
  | .createTransfer input (.commit _) =>
    [.idempotencyKey input.idempotencyKey, .account input.fromAccountId,
      .account input.toAccountId]
  | _ => []

/-- The row lock that the next statement of a process asks for. -/
def Proc.request : Proc → Option (RowRef × LockMode)
  | .processor _ (.executing transfer _ pc) =>
    match pc with
    | .lockRows accountId _ _ => some (.account accountId, .forUpdate)
    | .complete _ _ | .markFailed _ => some (.transfer transfer.id, .forUpdate)
    | _ => none
  | .createAccount _ _ (.insertDeposit account) => some (.account account.id, .forKeyShare)
  | .createLock accountId _ .selectAccount => some (.account accountId, .forUpdate)
  | .createLock accountId _ .insertLock => some (.account accountId, .forKeyShare)
  | .releaseLock _ lockId .update => some (.lock lockId, .forUpdate)
  | .createComment accountId _ .insert => some (.account accountId, .forKeyShare)
  | .createTransfer input .insert => some (.idempotencyKey input.idempotencyKey, .forUpdate)
  | .createTransfer input (.referenceFrom _) => some (.account input.fromAccountId, .forKeyShare)
  | .createTransfer input (.referenceTo _) => some (.account input.toAccountId, .forKeyShare)
  | _ => none

/-- The locks that a statement leaves the process with lie in its next lock set. -/
def Move.covers (m : Move) (held : List RowRef) : Prop :=
  match m.effect with
  | .lock row _ => row :: held ⊆ m.next.lockSet
  | .rollback | .commit _ => True
  | _ => held ⊆ m.next.lockSet

/-- The accounts of a transfer in lock order. -/
theorem mem_lockOrder {a b : Uuid} :
    (RowRef.account (lockOrder a b).1 = .account a ∧ RowRef.account (lockOrder a b).2 = .account b) ∨
      (RowRef.account (lockOrder a b).1 = .account b ∧
        RowRef.account (lockOrder a b).2 = .account a) := by
  rcases lockOrder_cases a b with ⟨h, _⟩ | ⟨h, _⟩ <;> simp [h]

theorem covers_execute {s : Shared} {i : Pid} {job : Option String} {transfer : TransferRow}
    {fromAccountId : Uuid} {pc : ExecutePc} {c : Choice}
    (hpc : pc.Holding s i transfer fromAccountId) :
    Move.covers ((ProcessorPc.executing transfer fromAccountId pc).next s i job c)
      (Proc.processor job (.executing transfer fromAccountId pc)).lockSet := by
  cases pc with
  | lockRows accountId rest rowById =>
    simp only [ProcessorPc.next, TransferExecutor.next]
    split
    · trivial
    · next row hrow =>
      have hid : row.id = accountId := Table.key_of_find? hrow
      rcases hpc with ⟨rfl, rfl, rfl⟩ | ⟨rfl, rfl, _, row₁, hrow₁, rfl⟩
      · simp [Move.covers, Proc.lockSet, TransferExecutor.lockRest, hid]
      · rcases mem_lockOrder (a := fromAccountId) (b := transfer.toAccountId) with
          ⟨h₁, h₂⟩ | ⟨h₁, h₂⟩ <;>
        simp [Move.covers, Proc.lockSet, TransferExecutor.lockRest, h₁, h₂]
  | readLocks rowById =>
    simp only [ProcessorPc.next, TransferExecutor.next]
    split <;> simp [Move.covers, Proc.lockSet]
  | credit readAt ws =>
    simp only [ProcessorPc.next, TransferExecutor.next]
    split <;> simp [Move.covers, Proc.lockSet]
  | complete readAt ws =>
    simp only [ProcessorPc.next, TransferExecutor.next]
    split <;> simp [Move.covers, Proc.lockSet]
  | _ => simp [Move.covers, Proc.lockSet, ProcessorPc.next, TransferExecutor.next]

theorem covers_act {deps : Dependencies} {s : Shared} {i : Pid} {p : Proc} {a : Label}
    {m : Move} (hp : p.Holding deps s i) (h : Acts deps s i p a m) : m.covers p.lockSet := by
  cases h with
  | @next p c m hm =>
    cases p with
    | idle => simp [Proc.next] at hm
    | processor job pc =>
      obtain rfl := Option.some.inj hm
      cases pc with
      | select transferId =>
        simp only [ProcessorPc.next]
        split
        · simp [Move.covers, Proc.lockSet]
        · split <;> simp [Move.covers, Proc.lockSet]
      | executing transfer fromAccountId pc => exact covers_execute hp.2.2
      | acknowledge outcome =>
        simp only [ProcessorPc.next]
        split <;> simp [Move.covers, Proc.lockSet]
    | createAccount customerId deposit pc =>
      cases pc <;> simp only [Proc.next, CreateAccountPc.next] at hm <;>
        grind [Move.covers, Proc.lockSet]
    | createLock accountId reason pc =>
      obtain rfl := Option.some.inj hm
      cases pc <;> simp only [CreateLockPc.next] <;> (try split) <;>
        simp [Move.covers, Proc.lockSet]
    | releaseLock accountId lockId pc =>
      obtain rfl := Option.some.inj hm
      cases pc <;> simp only [ReleaseLockPc.next] <;> (try split) <;>
        simp [Move.covers, Proc.lockSet]
    | createComment accountId body pc =>
      obtain rfl := Option.some.inj hm
      cases pc <;> simp only [CreateCommentPc.next] <;> (try split) <;>
        simp [Move.covers, Proc.lockSet]
    | createTransfer input pc =>
      cases pc <;> simp only [Proc.next, TransferService.next, TransferService.respond] at hm <;>
        grind [Move.covers, Proc.lockSet]
  | @start op m hm =>
    cases op <;> simp only [Operation.begin] at hm <;> grind [Move.covers, Proc.lockSet]
  | deliver _ => simp [Move.covers, Proc.lockSet]
  | queue => simp [Move.covers, Proc.lockSet]
  | abort => cases p <;> trivial
  | crash => trivial

theorem apply_locks_eq {s s₁ : Shared} {i : Pid} {e : Effect} (h : s.apply i e = some s₁)
    (hlock : ∀ row mode, e ≠ .lock row mode) (hrollback : e ≠ .rollback)
    (hcommit : ∀ ws, e ≠ .commit ws) : s₁.locks = s.locks := by
  cases e <;> simp only [Shared.apply, Option.map_eq_some_iff, Option.some.injEq,
    Option.ite_none_right_eq_some] at h <;> grind

/-- Whatever a process holds lies in its lock set. -/
theorem mem_lockSet {deps : Dependencies} {ok : Guard} {db : Db} {c : State}
    (h : Reaches deps ok db c) (i : Pid) (row : RowRef) (m : LockMode)
    (hheld : c.shared.locks.Holds i row m) : row ∈ (c.locals i).lockSet := by
  refine h.invariant (Reaches deps ok db)
    (fun c => ∀ i row m, c.shared.locks.Holds i row m → row ∈ (c.locals i).lockSet)
    (fun _ hc => hc) (by simp [State.init]) ?_ i row m hheld
  intro c i a c' hc hinv _ hmove j row m hheld
  obtain ⟨s, p, hstep, rfl⟩ := Interleaving.move_eq_some.mp hmove
  obtain ⟨mv, s₁, hact, happ, rfl, rfl⟩ := step_eq_some.mp hstep
  by_cases hji : j = i
  · subst hji
    have hcovers := covers_act (holding hc j) (acts_of_act hact)
    simp only [Function.update_self, Shared.record_locks] at hheld ⊢
    unfold Move.covers at hcovers
    split at hcovers
    · next ref mode heffect =>
      rw [heffect] at happ
      obtain ⟨t, ht, rfl⟩ := Option.map_eq_some_iff.mp happ
      rcases (LockTable.holds_acquire? ht _ _ _).mp hheld with ⟨_, rfl, _⟩ | hheld
      · exact hcovers List.mem_cons_self
      · exact hcovers (List.mem_cons_of_mem _ (hinv j row m hheld))
    · next heffect =>
      rw [heffect] at happ
      obtain rfl := Option.some.inj happ
      simp at hheld
    · next ws heffect =>
      rw [heffect] at happ
      obtain ⟨db', _, rfl⟩ := Option.map_eq_some_iff.mp happ
      simp at hheld
    · next hlock hrollback hcommit =>
      have hlocks : s₁.locks = c.shared.locks := apply_locks_eq happ hlock hrollback hcommit
      exact hcovers (hinv j row m (hlocks ▸ hheld))
  · simp only [Function.update_of_ne hji]
    exact hinv j row m ((apply_locks happ hji row m).mp hheld)

/-- A process that waits for a row lock asks for it in its request. -/
theorem request_of_waiting {deps : Dependencies} {s : Shared} {i : Pid} {p : Proc} {c : Choice}
    {m : Move} {row : RowRef} {mode : LockMode} (hm : p.next deps s i c = some m)
    (heffect : m.effect = .lock row mode) (hwait : s.apply i m.effect = none) :
    p.request = some (row, mode) := by
  cases p with
  | idle => simp [Proc.next] at hm
  | processor job pc =>
    obtain rfl := Option.some.inj hm
    cases pc with
    | select transferId =>
      simp only [ProcessorPc.next] at heffect
      split at heffect
      · cases heffect
      · split at heffect <;> cases heffect
    | executing transfer fromAccountId pc =>
      cases pc <;> simp only [ProcessorPc.next, TransferExecutor.next] at heffect <;>
        grind [Proc.request]
    | acknowledge outcome =>
      simp only [ProcessorPc.next] at heffect
      split at heffect <;> cases heffect
  | createAccount customerId deposit pc =>
    cases pc with
    | insertAccount =>
      -- nobody waits for a row that does not exist yet
      simp only [Proc.next, CreateAccountPc.next, Option.ite_none_right_eq_some,
        Option.some.injEq] at hm
      obtain ⟨hunused, rfl⟩ := hm
      simp only [Shared.unusedAccountId, Bool.and_eq_true, List.all_eq_true, decide_eq_true_eq]
        at hunused
      have havailable : s.locks.available i (.account c.uuid) .forUpdate := by
        rw [LockTable.available_iff]
        exact fun j m' hj _ => absurd rfl (hunused.2 _ hj)
      simp [Shared.apply, LockTable.acquire?, havailable] at hwait
    | _ =>
      simp only [Proc.next, CreateAccountPc.next] at hm
      grind [Proc.request]
  | createLock accountId reason pc =>
    obtain rfl := Option.some.inj hm
    cases pc <;> simp only [CreateLockPc.next] at heffect <;> grind [Proc.request]
  | releaseLock accountId lockId pc =>
    obtain rfl := Option.some.inj hm
    cases pc <;> simp only [ReleaseLockPc.next] at heffect <;> grind [Proc.request]
  | createComment accountId body pc =>
    obtain rfl := Option.some.inj hm
    cases pc <;> simp only [CreateCommentPc.next] at heffect <;> grind [Proc.request]
  | createTransfer input pc =>
    cases pc <;> simp only [Proc.next, TransferService.next, TransferService.respond] at hm <;>
      grind [Proc.request]

/-! ## Sorted transfers -/

/-- The calls of `TransferService.create` that a run makes are restricted to some inputs. -/
def submitting (inputs : CreateTransferInput → Prop) : Guard := fun _ _ a =>
  match a with
  | .start (.createTransfer input) => inputs input
  | _ => True

/-- A transfer is inserted only for an input that was submitted, with two accounts. -/
theorem inputs_of_createTransfer {deps : Dependencies} {inputs : CreateTransferInput → Prop}
    {db : Db} {c : State} (h : Reaches deps (submitting inputs) db c) {i : Pid}
    {input : CreateTransferInput} {pc : CreateTransferPc}
    (hp : c.locals i = .createTransfer input pc) :
    inputs input ∧ input.fromAccountId ≠ input.toAccountId := by
  refine h.invariant (fun _ => True) (fun c => ∀ i input pc, c.locals i = .createTransfer input pc →
    inputs input ∧ input.fromAccountId ≠ input.toAccountId) (fun _ _ => trivial)
    (by simp [State.init]) ?_ i input pc hp
  intro c i a c' _ hinv hok hmove j input pc hj
  obtain ⟨s, p, hstep, rfl⟩ := Interleaving.move_eq_some.mp hmove
  obtain ⟨m, s₁, hact, _, rfl, rfl⟩ := step_eq_some.mp hstep
  by_cases hji : j = i
  · subst hji
    simp only [Function.update_self] at hj
    rcases createTransfer_of_acts (acts_of_act hact) hj with ⟨pc₀, hp₀⟩ | ⟨rfl, hne⟩
    · exact hinv j input pc₀ hp₀
    · exact ⟨hok, hne⟩
  · simp only [Function.update_of_ne hji] at hj
    exact hinv j input pc hj

/-- The order in which rows are locked: an idempotency key, then accounts by id, then a transfer
or an account lock. -/
def RowRef.rank : RowRef → ℕ
  | .idempotencyKey _ => 0
  | .account id => id.value + 1
  | .transfer _ | .lock _ => 2 ^ 128 + 1

theorem rank_account_lt {a b : Uuid} : (RowRef.account a).rank < (RowRef.account b).rank ↔ a < b := by
  simp only [RowRef.rank, Nat.add_lt_add_iff_right]
  exact Iff.rfl

theorem rank_account_lt_transfer (a id : Uuid) :
    (RowRef.account a).rank < (RowRef.transfer id).rank := by
  have := a.value.isLt
  simp only [RowRef.rank]
  omega

/-- A process asks for a row above all rows that it holds, or for one that it holds already. -/
theorem request_ordered {deps : Dependencies} {s : Shared} {i : Pid} {p : Proc}
    (hp : p.Holding deps s i)
    (hsorted : ∀ input pc, p = .createTransfer input pc → input.fromAccountId < input.toAccountId)
    {row row' : RowRef} {m : LockMode} (hrequest : p.request = some (row, m))
    (hrow' : row' ∈ p.lockSet) : row'.rank < row.rank ∨ s.locks.Holds i row .forUpdate := by
  cases p with
  | processor job pc =>
    cases pc with
    | executing transfer fromAccountId pc =>
      cases pc with
      | lockRows accountId rest rowById =>
        obtain ⟨rfl, _⟩ : RowRef.account accountId = row ∧ LockMode.forUpdate = m := by
          simpa [Proc.request] using hrequest
        obtain ⟨hfrom, _, ⟨rfl, rfl, rfl⟩ | ⟨rfl, rfl, _, row₁, _, rfl⟩⟩ := hp
        · simp [Proc.lockSet] at hrow'
        · obtain rfl : row' = .account (lockOrder fromAccountId transfer.toAccountId).1 := by
            simpa [Proc.lockSet] using hrow'
          have hne : fromAccountId ≠ transfer.toAccountId :=
            fun h => transfer.distinct (hfrom.trans (h ▸ rfl))
          left
          rw [rank_account_lt]
          rcases lockOrder_cases fromAccountId transfer.toAccountId with ⟨h, hle⟩ | ⟨h, hlt⟩
          · rw [h]
            exact lt_of_le_of_ne hle hne
          · rw [h]
            exact hlt
      | complete readAt ws =>
        obtain ⟨rfl, _⟩ : RowRef.transfer transfer.id = row ∧ LockMode.forUpdate = m := by
          simpa [Proc.request] using hrequest
        simp only [Proc.lockSet, List.mem_cons, List.not_mem_nil, or_false] at hrow'
        left
        rcases hrow' with rfl | rfl <;> exact rank_account_lt_transfer _ _
      | markFailed err => simp [Proc.lockSet] at hrow'
      | _ => simp [Proc.request] at hrequest
    | _ => simp [Proc.request] at hrequest
  | createAccount customerId deposit pc =>
    cases pc with
    | insertDeposit account =>
      obtain ⟨rfl, _⟩ : RowRef.account account.id = row ∧ LockMode.forKeyShare = m := by
        simpa [Proc.request] using hrequest
      exact .inr hp.1
    | _ => simp [Proc.request] at hrequest
  | createLock accountId reason pc =>
    cases pc with
    | insertLock =>
      obtain ⟨rfl, _⟩ : RowRef.account accountId = row ∧ LockMode.forKeyShare = m := by
        simpa [Proc.request] using hrequest
      exact .inr hp
    | selectAccount => simp [Proc.lockSet] at hrow'
    | commit lock => simp [Proc.request] at hrequest
  | createTransfer input pc =>
    cases pc with
    | referenceFrom _ =>
      obtain ⟨rfl, _⟩ : RowRef.account input.fromAccountId = row ∧ LockMode.forKeyShare = m := by
        simpa [Proc.request] using hrequest
      obtain rfl : row' = .idempotencyKey input.idempotencyKey := by simpa [Proc.lockSet] using hrow'
      exact .inl (by simp [RowRef.rank])
    | referenceTo _ =>
      obtain ⟨rfl, _⟩ : RowRef.account input.toAccountId = row ∧ LockMode.forKeyShare = m := by
        simpa [Proc.request] using hrequest
      simp only [Proc.lockSet, List.mem_cons, List.not_mem_nil, or_false] at hrow'
      left
      rcases hrow' with rfl | rfl
      · simp [RowRef.rank]
      · exact rank_account_lt.mpr (hsorted input _ rfl)
    | insert => simp [Proc.lockSet] at hrow'
    | _ => simp [Proc.request] at hrequest
  | releaseLock accountId lockId pc => cases pc <;> simp [Proc.lockSet] at hrow'
  | createComment accountId body pc =>
    cases pc <;> first | simp [Proc.lockSet] at hrow'; done | simp [Proc.request] at hrequest
  | idle => simp [Proc.lockSet] at hrow'

/-- When every submitted transfer names the smaller account first, no locks of any kind are waited
for in a cycle. -/
theorem not_deadlocked_of_sorted {deps : Dependencies} {inputs : CreateTransferInput → Prop}
    (hsorted : ∀ input, inputs input → input.fromAccountId ≤ input.toAccountId) {db : Db} {c : State}
    (h : Reaches deps (submitting inputs) db c) :
    ¬ c.shared.locks.Deadlocked fun i => (c.locals i).request := by
  refine LockTable.not_deadlocked_of_ordered RowRef.rank fun i row m hrequest row' m' hheld => ?_
  refine request_ordered (holding h i) (fun input pc hp => ?_) hrequest (mem_lockSet h i row' m' hheld)
  obtain ⟨hinput, hne⟩ := inputs_of_createTransfer h hp
  exact lt_of_le_of_ne (hsorted input hinput) hne

/-! ## Deadlocks on account rows -/

/-- The account row lock that the next statement of a process asks for. -/
def Proc.accountRequest (p : Proc) : Option (RowRef × LockMode) :=
  p.request.filter fun r =>
    match r.1 with
    | .account _ => true
    | _ => false

/-- The wait-for graph over account row locks has a cycle. -/
def AccountDeadlock (c : State) : Prop :=
  c.shared.locks.Deadlocked fun i => (c.locals i).accountRequest

/-- An admitted step that waits for nobody extends a run. -/
theorem reaches_next {deps : Dependencies} {ok : Guard} {db : Db} {c : State} {i : Pid}
    {a : Label} {m : Move} (h : Reaches deps ok db c) (hok : ok c i a)
    (hact : (c.locals i).act deps c.shared i a = some m) {held : List (Held Pid RowRef)}
    (heffect : (m.effect = .quiet ∧ held = c.shared.locks.held) ∨
      ∃ row mode, m.effect = .lock row mode ∧ c.shared.locks.available i row mode ∧
        held = ⟨i, row, mode⟩ :: c.shared.locks.held) :
    ∃ c', Reaches deps ok db c' ∧ c'.shared.db = c.shared.db ∧
      c'.locals = Function.update c.locals i m.next ∧ c'.shared.locks.held = held := by
  have run : ∀ s₁, c.shared.apply i m.effect = some s₁ →
      Reaches deps ok db ⟨s₁.record m.events, Function.update c.locals i m.next⟩ := by
    intro s₁ happ
    refine h.step hok (Interleaving.move_eq_some.mpr ⟨_, _, ?_, rfl⟩)
    exact step_eq_some.mpr ⟨m, s₁, hact, happ, rfl, rfl⟩
  rcases heffect with ⟨hquiet, rfl⟩ | ⟨row, mode, hlock, havailable, rfl⟩
  · exact ⟨_, run c.shared (by rw [hquiet]; rfl), rfl, rfl, rfl⟩
  · obtain ⟨t, ht, hheld⟩ := LockTable.acquire?_of_available havailable
    have happ : c.shared.apply i m.effect = some { c.shared with locks := t } := by
      simp [hlock, Shared.apply, ht]
    exact ⟨_, run _ happ, rfl, rfl, hheld⟩

/-- A pending transfer between the accounts of an input, stored under another key. -/
def storedTransfer (input : CreateTransferInput) (h : input.fromAccountId ≠ input.toAccountId) :
    TransferRow where
  id := ⟨0⟩
  seq := 0
  idempotencyKey := some (input.idempotencyKey ++ "'")
  requestHash := none
  fromAccountId := some input.fromAccountId
  toAccountId := input.toAccountId
  amountCents := input.amountCents
  status := .pending
  failureReason := none
  createdAt := 0
  completedAt := none
  distinct := TransferService.distinct_accounts h

/-- A bank with the accounts of an input and a pending transfer between them. -/
def storedDb (input : CreateTransferInput) (h : input.fromAccountId ≠ input.toAccountId) : Db where
  customers := .empty
  accounts := ⟨[⟨input.fromAccountId, ⟨0⟩, 0⟩, ⟨input.toAccountId, ⟨0⟩, 0⟩], by simpa using h⟩
  transfers := ⟨[storedTransfer input h], by simp⟩
  accountLocks := .empty
  accountComments := .empty

section StoredDb

variable (input : CreateTransferInput) (h : input.fromAccountId ≠ input.toAccountId)

theorem storedDb_source : (storedDb input h).accounts.find? input.fromAccountId =
    some ⟨input.fromAccountId, ⟨0⟩, 0⟩ := by
  simp [storedDb, Table.find?]

theorem storedDb_destination : (storedDb input h).accounts.find? input.toAccountId =
    some ⟨input.toAccountId, ⟨0⟩, 0⟩ := by
  simp [storedDb, Table.find?, h]

theorem storedDb_transfer :
    (storedDb input h).transfers.find? ⟨0⟩ = some (storedTransfer input h) := by
  simp [storedDb, storedTransfer, Table.find?]

theorem storedDb_fresh : (storedDb input h).transfers.find? ⟨1⟩ = none := by
  simp [storedDb, storedTransfer, Table.find?]

theorem storedDb_key : (storedDb input h).transferByKey input.idempotencyKey = none := by
  have hne : input.idempotencyKey ++ "'" ≠ input.idempotencyKey := by
    intro heq
    have := congrArg String.length heq
    simp at this
  simp [storedDb, storedTransfer, Db.transferByKey, hne]

end StoredDb

/-- A submitted transfer with its source after its destination can deadlock with a run of
`execute` between the same accounts. -/
theorem deadlock_of_reversed (deps : Dependencies) (inputs : CreateTransferInput → Prop)
    (input : CreateTransferInput) (hinput : inputs input)
    (hlt : input.toAccountId < input.fromAccountId) :
    ∃ db c, Reaches deps (submitting inputs) db c ∧ AccountDeadlock c := by
  have hne : input.fromAccountId ≠ input.toAccountId := hlt.ne'
  let choice : Choice := ⟨0, ⟨1⟩, 1⟩
  let row := TransferService.pendingRow deps input choice hne
  let transfer := storedTransfer input hne
  have h₀ : Reaches deps (submitting inputs) (storedDb input hne)
      (State.init (storedDb input hne)) := .refl
  -- the first process locks the source row and is about to ask for the destination row
  obtain ⟨c₁, h₁, hdb₁, hp₁, hl₁⟩ := reaches_next (i := 0) (a := .start (.createTransfer input))
    (m := ⟨.quiet, [.called input], .createTransfer input .assertAccountsExist⟩) h₀ hinput
    (by simp [State.init, Proc.act, Operation.begin, hne]) (.inl ⟨rfl, rfl⟩)
  obtain ⟨c₂, h₂, hdb₂, hp₂, hl₂⟩ := reaches_next (i := 0) (a := .next choice)
    (m := ⟨.quiet, [], .createTransfer input .insert⟩) h₁ trivial
    (by simp [hp₁, hdb₁, State.init, Proc.act, Proc.next, TransferService.next,
      TransferService.assertAccountsExist, storedDb_source, storedDb_destination])
    (.inl ⟨rfl, rfl⟩)
  obtain ⟨c₃, h₃, hdb₃, hp₃, hl₃⟩ := reaches_next (i := 0) (a := .next choice)
    (m := ⟨.lock (.idempotencyKey input.idempotencyKey) .forUpdate, [],
      .createTransfer input (.referenceFrom row)⟩) h₂ trivial
    (by simp [hp₂, hdb₂, hdb₁, State.init, Proc.act, Proc.next, TransferService.next,
      storedDb_key, storedDb_fresh, hne, choice, row])
    (.inr ⟨_, _, rfl, by simp [LockTable.available, hl₂, hl₁, State.init, LockTable.empty], rfl⟩)
  obtain ⟨c₄, h₄, hdb₄, hp₄, hl₄⟩ := reaches_next (i := 0) (a := .next choice)
    (m := ⟨.lock (.account input.fromAccountId) .forKeyShare, [],
      .createTransfer input (.referenceTo row)⟩) h₃ trivial
    (by simp [hp₃, Proc.act, Proc.next, TransferService.next])
    (.inr ⟨_, _, rfl, by simp [LockTable.available, hl₃, hl₂, hl₁, State.init, LockTable.empty],
      rfl⟩)
  -- the second process locks the destination row and is about to ask for the source row
  obtain ⟨c₅, h₅, hdb₅, hp₅, hl₅⟩ := reaches_next (i := 1) (a := .start (.processJob ⟨0⟩))
    (m := ⟨.quiet, [], .processor none (.select ⟨0⟩)⟩) h₄ trivial
    (by simp [hp₄, hp₃, hp₂, hp₁, State.init, Proc.act, Operation.begin]) (.inl ⟨rfl, rfl⟩)
  obtain ⟨c₆, h₆, hdb₆, hp₆, hl₆⟩ := reaches_next (i := 1) (a := .next choice)
    (m := ⟨.quiet, [], .processor none (.executing transfer input.fromAccountId
      (.lockRows input.toAccountId [input.fromAccountId] []))⟩) h₅ trivial
    (by simp [hp₅, hdb₅, hdb₄, hdb₃, hdb₂, hdb₁, State.init, Proc.act, Proc.next, ProcessorPc.next,
      storedDb_transfer, storedTransfer, TransferExecutor.start, lockOrder, hlt.not_ge, transfer])
    (.inl ⟨rfl, rfl⟩)
  obtain ⟨c₇, h₇, hdb₇, hp₇, hl₇⟩ := reaches_next (i := 1) (a := .next choice)
    (m := ⟨.lock (.account input.toAccountId) .forUpdate, [], .processor none
      (.executing transfer input.fromAccountId
        (.lockRows input.fromAccountId [] [(input.toAccountId, 0)]))⟩) h₆ trivial
    (by simp [hp₆, hdb₆, hdb₅, hdb₄, hdb₃, hdb₂, hdb₁, State.init, Proc.act, Proc.next,
      ProcessorPc.next, TransferExecutor.next, TransferExecutor.lockRest, storedDb_destination,
      AccountRow.balanceNumber, JsNumber.ofInt, JsNumber.ofNat])
    (.inr ⟨_, _, rfl, by
      simp [LockTable.available, hl₆, hl₅, hl₄, hl₃, hl₂, hl₁, State.init, LockTable.empty, hne],
      rfl⟩)
  have hfirst : c₇.locals 0 = .createTransfer input (.referenceTo row) := by
    simp [hp₇, hp₆, hp₅, hp₄]
  have hsecond : c₇.locals 1 = .processor none (.executing transfer input.fromAccountId
      (.lockRows input.fromAccountId [] [(input.toAccountId, 0)])) := by
    simp [hp₇]
  refine ⟨_, c₇, h₇, 0, .tail (b := 1) (.single ?_) ?_⟩
  · refine ⟨zero_ne_one, .account input.toAccountId, .forKeyShare, .forUpdate, ?_, ?_, rfl⟩
    · simp [hfirst, Proc.accountRequest, Proc.request]
    · simp [LockTable.Holds, hl₇]
  · refine ⟨one_ne_zero, .account input.fromAccountId, .forUpdate, .forKeyShare, ?_, ?_, rfl⟩
    · simp [hsecond, Proc.accountRequest, Proc.request]
    · simp [LockTable.Holds, hl₇, hl₆, hl₅, hl₄]

/-- The account rows are free of deadlocks, in every bank and every run, exactly when no submitted
transfer has its source after its destination. -/
theorem deadlock_free_iff (deps : Dependencies) (inputs : CreateTransferInput → Prop) :
    (∀ db c, Reaches deps (submitting inputs) db c → ¬ AccountDeadlock c) ↔
      ∀ input, inputs input → input.fromAccountId ≤ input.toAccountId := by
  constructor
  · intro hfree input hinput
    by_contra hlt
    obtain ⟨db, c, hreach, hdeadlock⟩ :=
      deadlock_of_reversed deps inputs input hinput (not_le.mp hlt)
    exact hfree db c hreach hdeadlock
  · intro hsorted db c hreach hdeadlock
    refine not_deadlocked_of_sorted hsorted hreach (hdeadlock.mono fun i x hx => ?_)
    exact (Option.filter_eq_some_iff.mp hx).1

/-- A transfer from the second account to the first is submitted while another one between them is
executed. -/
theorem insert_deadlocks_with_execute : ¬ ∀ (db : Db) (c : State),
    Reaches sampleDeps Interleaving.anyStep db c → ¬ AccountDeadlock c := by
  intro hclaim
  let input : CreateTransferInput := ⟨"key", ⟨2⟩, ⟨1⟩, fiftyCents⟩
  obtain ⟨db, c, hreach, hdeadlock⟩ :=
    deadlock_of_reversed sampleDeps (fun _ => True) input trivial (by decide)
  exact hclaim db c hreach.any hdeadlock

end BankPlatform.Bank
