import BankPlatform.Bank.Locking

/-!
# Duplicate delivery of a transfer

A job is delivered at least once, so several runs of the processor can execute one transfer. Each
reads the row without a lock and neither update of the row checks its status again, hence two runs
that both read `pending` move the money twice, and a run that is rejected late overwrites the
outcome of one that completed. Both defects disappear when every update of the row still finds it
pending.

## Main definitions

* `completesPending`, `writesPending` — the guards under which the updates find a pending row.
* `Event.moves` — the history records that a transfer moved its amount.

## Main results

* `moves_at_most_once` — a transfer moves its amount at most once.
* `terminal_absorbing_truthful` — terminal states stay and tell what happened.
* `balance_history` — balances are what the history says.
-/

namespace BankPlatform.Bank

open Library

/-- The stored row of a transfer is still pending. -/
def Db.isPending (db : Db) (transferId : Uuid) : Bool :=
  (db.transfers.find? transferId).any fun row => row.status = .pending

/-- The update to `completed` finds the row pending. -/
def completesPending : Guard := fun c i a =>
  (match c.locals i, a with
    | .processor _ (.executing transfer _ (.complete _ _)), .next _ =>
      c.shared.db.isPending transfer.id
    | _, _ => true) = true

/-- The update to `failed` finds the row pending. -/
def failsPending : Guard := fun c i a =>
  (match c.locals i, a with
    | .processor _ (.executing transfer _ (.markFailed _)), .next _ =>
      c.shared.db.isPending transfer.id
    | _, _ => true) = true

/-- Both updates find the row pending. -/
def writesPending : Guard := fun c i a => completesPending c i a ∧ failsPending c i a

instance (c : State) (i : Pid) (a : Label) : Decidable (completesPending c i a) :=
  inferInstanceAs (Decidable (_ = true))

instance (c : State) (i : Pid) (a : Label) : Decidable (failsPending c i a) :=
  inferInstanceAs (Decidable (_ = true))

instance (c : State) (i : Pid) (a : Label) : Decidable (writesPending c i a) :=
  inferInstanceAs (Decidable (_ ∧ _))

namespace Event

/-- The transfer moved its amount. -/
def moves (transferId : Uuid) : Event → Bool
  | .moved transfer _ _ => transfer.id = transferId
  | _ => false

/-- The transfer debited the account. -/
def debits (transferId accountId : Uuid) : Event → Bool
  | .moved transfer fromAccountId _ => transfer.id = transferId && fromAccountId = accountId
  | _ => false

/-- The transfer credited the account. -/
def credits (transferId accountId : Uuid) : Event → Bool
  | .moved transfer _ _ => transfer.id = transferId && transfer.toAccountId = accountId
  | _ => false

/-- What the event adds to the balance of an account that exists already. -/
def netCents (accountId : Uuid) : Event → ℤ
  | .moved transfer fromAccountId _ =>
    (if transfer.toAccountId = accountId then (transfer.amountCents.cents : ℤ) else 0) -
      if fromAccountId = accountId then (transfer.amountCents.cents : ℤ) else 0
  | _ => 0

theorem netCents_silent {e : Event} (h : e.silent) (accountId : Uuid) : e.netCents accountId = 0 := by
  cases e <;> simp_all [silent, netCents]

theorem moves_silent {e : Event} (h : e.silent) (transferId : Uuid) :
    e.moves transferId = false := by
  cases e <;> simp_all [silent, moves]

end Event

/-- How often the transfer moved its amount. -/
def timesMoved (log : List Event) (transferId : Uuid) : ℕ := log.countP (Event.moves transferId)

/-! ## The history accounts for the balances -/

/-- The account rows after a transfer. -/
theorem find?_accounts_moved {s : Shared} {i : Pid} {transfer : TransferRow} {fromAccountId : Uuid}
    {source destination : AccountRow} (hfrom : transfer.fromAccountId = some fromAccountId)
    (h : BothLocked s i transfer fromAccountId source destination) (readAt : ℕ) (id : Uuid) :
    ((s.db.accounts.put (source.add (-transfer.amountCents.cents))).put
        (destination.add transfer.amountCents.cents)).find? id =
      (s.db.accounts.find? id).map fun r =>
        r.add ((Event.moved transfer fromAccountId readAt).netCents id) := by
  have hs : source.id = fromAccountId := Table.key_of_find? h.source_row
  have hd : destination.id = transfer.toAccountId := Table.key_of_find? h.destination_row
  have hne : fromAccountId ≠ transfer.toAccountId :=
    fun h => transfer.distinct (hfrom.trans (h ▸ rfl))
  simp only [Table.find?_put, key_accountRow, AccountRow.add, hs, hd, Event.netCents]
  by_cases hto : transfer.toAccountId = id
  · subst hto
    simp [h.destination_row, hne, hd]
  · by_cases hsrc : fromAccountId = id
    · subst hsrc
      simp [h.source_row, hto, hs]
    · cases s.db.accounts.find? id <;> simp [hto, hsrc]

/-- Every committed balance is the initial one plus what the history moved. -/
theorem balance_history {deps : Dependencies} {ok : Guard} {db : Db} {c : State}
    (h : Reaches deps ok db c) {id : Uuid} {r₀ : AccountRow}
    (hr₀ : db.accounts.find? id = some r₀) :
    c.shared.db.accounts.find? id =
      some (r₀.add (c.shared.log.map (Event.netCents id)).sum) := by
  refine h.invariant (Reaches deps ok db)
    (fun c => c.shared.db.accounts.find? id =
      some (r₀.add (c.shared.log.map (Event.netCents id)).sum))
    (fun _ hc => hc) (by simpa [State.init, AccountRow.add] using hr₀) ?_
  intro c i a c' hc hinv _ hmove
  obtain ⟨es, hlog, hchange⟩ := move_change hc hmove
  rw [hlog, List.map_append, List.sum_append]
  generalize c'.shared.db = db', c.locals i = p at hchange ⊢
  cases hchange with
  | quiet hes =>
    have : (es.map (Event.netCents id)).sum = 0 :=
      List.sum_eq_zero fun x hx => by
        obtain ⟨e, he, rfl⟩ := List.mem_map.mp hx
        exact Event.netCents_silent (hes e he) id
    rw [this, add_zero, hinv]
  | @moved job transfer fromAccountId readAt ws completed source destination row now ch hfrom
      hboth =>
    rw [find?_accounts_moved hfrom hboth readAt, hinv]
    simp [AccountRow.add, add_assoc]
  | opened _ _ hinstall =>
    obtain ⟨t, ht, hcase⟩ := install_openingWrites hinstall
    have hkeep : t.find? id = some (r₀.add (c.shared.log.map (Event.netCents id)).sum) :=
      Table.find?_insert?_of_some ht hinv
    rcases hcase with ⟨_, rfl⟩ | ⟨_, u, _, rfl⟩ <;> simpa [Event.netCents] using hkeep
  | inserted _ hwrite =>
    obtain ⟨_, t, _, rfl⟩ := write_insertTransfer hwrite
    simpa [Event.netCents] using hinv
  | rejected _ _ _ _ | locked _ _ _ _ | released _ _ | commented =>
    simpa [Event.netCents] using hinv

/-! ## A pending row is written once -/

theorem isPending_iff {db : Db} {transferId : Uuid} :
    db.isPending transferId ↔
      ∃ row, db.transfers.find? transferId = some row ∧ row.status = .pending := by
  simp only [Db.isPending, Option.any_eq_true, decide_eq_true_eq]

/-- The stored row of a transfer has left the pending state. -/
def Db.isSettled (db : Db) (transferId : Uuid) : Bool :=
  (db.transfers.find? transferId).any fun row => row.status ≠ .pending

theorem isSettled_iff {db : Db} {transferId : Uuid} :
    db.isSettled transferId ↔
      ∃ row, db.transfers.find? transferId = some row ∧ row.status ≠ .pending := by
  simp only [Db.isSettled, Option.any_eq_true, decide_eq_true_eq]

theorem not_isSettled_of_isPending {db : Db} {transferId : Uuid} (h : db.isPending transferId) :
    ¬ db.isSettled transferId := by
  obtain ⟨row, hrow, hstatus⟩ := isPending_iff.mp h
  rintro hs
  obtain ⟨row', hrow', hstatus'⟩ := isSettled_iff.mp hs
  obtain rfl : row = row' := by simpa [hrow] using hrow'
  exact hstatus' hstatus

/-- What a step does to the stored row of one transfer, and whether it moves its amount. -/
inductive RowStep (s : Shared) (i : Pid) (p : Proc) (a : Label) (db : Db) (es : List Event)
    (id : Uuid) : Prop
  | same : db.transfers.find? id = s.db.transfers.find? id → es.countP (Event.moves id) = 0 →
      RowStep s i p a db es id
  | inserted {row : TransferRow} : s.db.transfers.find? id = none →
      db.transfers.find? id = some row →
      row.status = .pending ∨ row.fromAccountId = none ∧ row.status = .completed →
      es.countP (Event.moves id) = 0 → RowStep s i p a db es id
  | completed {job transfer fromAccountId readAt ws completed c row now} : transfer.id = id →
      p = .processor job (.executing transfer fromAccountId (.commit readAt ws completed)) →
      a = .next c → es = [.moved transfer fromAccountId readAt] →
      transfer.fromAccountId = some fromAccountId →
      s.db.transfers.find? id = some row → row.SameRequest transfer →
      db.transfers.find? id = some (row.complete now) → RowStep s i p a db es id
  | failed {job transfer fromAccountId err c row now} : transfer.id = id →
      p = .processor job (.executing transfer fromAccountId (.markFailed err)) →
      a = .next c → es = [.rejected id err.code] → s.db.transfers.find? id = some row →
      row.SameRequest transfer → db.transfers.find? id = some (row.fail err.code now) →
      RowStep s i p a db es id

theorem RowStep.insert {s : Shared} {i : Pid} {p : Proc} {a : Label} {db : Db} {es : List Event}
    {row : TransferRow} (ht : s.db.transfers.insert? row = some db.transfers)
    (hstatus : row.status = .pending ∨ row.fromAccountId = none ∧ row.status = .completed)
    (hes : ∀ id, es.countP (Event.moves id) = 0) (id : Uuid) : RowStep s i p a db es id := by
  have hfind := Table.find?_insert? ht id
  by_cases hid : row.id = id
  · subst hid
    exact .inserted (Table.insert?_eq_some ht).1 (by simpa using hfind) hstatus (hes _)
  · exact .same (by simpa [hid] using hfind) (hes id)

theorem Change.rowStep {deps : Dependencies} {s : Shared} {i : Pid} {p : Proc} {a : Label}
    {db : Db} {es : List Event} (h : Change deps s i p a db es) (id : Uuid) :
    RowStep s i p a db es id := by
  cases h with
  | quiet hes =>
    refine .same rfl (List.countP_eq_zero.mpr fun e he => ?_)
    simp [Event.moves_silent (hes e he)]
  | @moved job transfer fromAccountId readAt ws completed source destination row now c hfrom _ _ _
      hrow hsame hc =>
    subst hc
    have hkey : row.id = transfer.id := Table.key_of_find? hrow
    by_cases hid : transfer.id = id
    · subst hid
      have hput : (s.db.transfers.put (row.complete now)).find? transfer.id =
          some (row.complete now) := by simp [Table.find?_put, hkey, hrow]
      exact .completed rfl rfl rfl rfl hfrom hrow hsame hput
    · exact .same (Table.find?_put_of_ne (by simpa [hkey] using hid)) (by simp [Event.moves, hid])
  | @rejected job transfer fromAccountId err row now c hfrom _ hrow hsame =>
    have hkey : row.id = transfer.id := Table.key_of_find? hrow
    by_cases hid : transfer.id = id
    · subst hid
      have hput : (s.db.transfers.put (row.fail err.code now)).find? transfer.id =
          some (row.fail err.code now) := by simp [Table.find?_put, hkey, hrow]
      exact .failed rfl rfl rfl rfl hrow hsame hput
    · exact .same (Table.find?_put_of_ne (by simpa [hkey] using hid)) (by simp [Event.moves])
  | opened _ _ hinstall =>
    obtain ⟨t, _, hcase⟩ := install_openingWrites hinstall
    rcases hcase with ⟨_, rfl⟩ | ⟨_, u, hu, rfl⟩
    · exact .same rfl (by simp [Event.moves])
    · exact .insert hu (.inr ⟨rfl, rfl⟩) (by simp [Event.moves]) id
  | inserted _ hwrite =>
    obtain ⟨_, t, ht, rfl⟩ := write_insertTransfer hwrite
    exact .insert ht (.inl rfl) (by simp [Event.moves]) id
  | locked _ _ _ _ | released _ _ | commented => exact .same rfl (by simp [Event.moves])

/-- No change makes a settled row pending again. -/
theorem RowStep.isSettled {s : Shared} {i : Pid} {p : Proc} {a : Label} {db : Db} {es : List Event}
    {id : Uuid} (h : RowStep s i p a db es id) (hs : s.db.isSettled id) : db.isSettled id := by
  cases h with
  | same hdb _ => rwa [Db.isSettled, hdb]
  | inserted hnone _ _ _ =>
    obtain ⟨_, hrow, _⟩ := isSettled_iff.mp hs
    simp [hnone] at hrow
  | completed _ _ _ _ _ _ _ hdb => simp [Db.isSettled, hdb]
  | failed _ _ _ _ _ _ hdb => simp [Db.isSettled, hdb]

/-- The transfer has not moved its amount, or moved it once and is not pending any more. -/
def MovedOnce (s : Shared) (transferId : Uuid) : Prop :=
  timesMoved s.log transferId = 0 ∨ timesMoved s.log transferId = 1 ∧ s.db.isSettled transferId

/-- A run about to commit has updated a pending row. -/
def Proc.CommitsPending (s : Shared) : Proc → Prop
  | .processor _ (.executing transfer _ (.commit _ _ _)) => s.db.isPending transfer.id
  | _ => True

theorem MovedOnce.step {s s' : Shared} {i : Pid} {p : Proc} {a : Label} {es : List Event}
    {id : Uuid} (hlog : s'.log = s.log ++ es) (h : RowStep s i p a s'.db es id)
    (hp : p.CommitsPending s) (hs : MovedOnce s id) : MovedOnce s' id := by
  have keep : es.countP (Event.moves id) = 0 → MovedOnce s' id := by
    intro hzero
    rw [MovedOnce, timesMoved, hlog, List.countP_append, hzero]
    rcases hs with hs | ⟨hs, hsettled⟩
    · exact .inl hs
    · exact .inr ⟨hs, h.isSettled hsettled⟩
  cases h with
  | same _ hzero => exact keep hzero
  | inserted _ _ _ hzero => exact keep hzero
  | failed _ _ _ hes => exact keep (by simp [hes, Event.moves])
  | completed hid hproc _ hes _ hrow _ hdb =>
    subst hid hproc
    rcases hs with hs | ⟨_, hsettled⟩
    · refine .inr ⟨?_, by simp [Db.isSettled, hdb]⟩
      rw [timesMoved] at hs
      simp [timesMoved, hlog, hes, hs, Event.moves]
    · exact absurd hsettled (not_isSettled_of_isPending hp)

theorem commitsPending_stable {deps : Dependencies} {s s' : Shared} {i j : Pid} {p : Proc}
    (hij : i ≠ j) (hg : Guarantee j s s') (hp : p.Holding deps s i)
    (h : p.CommitsPending s) : p.CommitsPending s' := by
  unfold Proc.CommitsPending at h ⊢
  split at h
  · obtain ⟨_, _, _, _, _, _, _, hlock, row, _, hrow, _⟩ := hp
    rw [isPending_iff] at h ⊢
    obtain ⟨x, hx, hstatus⟩ := h
    exact ⟨x, hg.lockedTransfers _ _ _ hij hlock hx, hstatus⟩
  · trivial

/-- A run comes to its commit from the update to `completed` only. -/
theorem arrives_commit {s : Shared} {i : Pid} {job : Option String} {transfer : TransferRow}
    {fromAccountId : Uuid} {readAt : ℕ} {ws : List Write} {completed : TransferRow} {p : Proc}
    {a : Label} {m : Move}
    (h : Arrives s i job transfer fromAccountId (.commit readAt ws completed) p a m) :
    ∃ c, a = .next c ∧
      p = .processor job (.executing transfer fromAccountId (.complete readAt ws)) := by
  cases h with
  | @next c pc₀ m hnext =>
    cases pc₀ <;> simp only [TransferExecutor.next, TransferExecutor.lockRest] at hnext <;> grind
  | selected _ _ hstart _ _ =>
    unfold TransferExecutor.start at hstart
    split at hstart <;> cases hstart
  | called hstart _ _ _ =>
    unfold TransferExecutor.start at hstart
    split at hstart <;> cases hstart

/-- A run that the guard lets through to its commit has found its row pending. -/
theorem commitsPending_own {deps : Dependencies} {c : State} {s : Shared} {i : Pid} {p : Proc}
    {a : Label} (hok : completesPending c i a)
    (hstep : (system deps).step c.shared i (c.locals i) a = some (s, p)) :
    p.CommitsPending s := by
  obtain ⟨m, s₁, hact, happ, rfl, rfl⟩ := step_eq_some.mp hstep
  unfold Proc.CommitsPending
  split
  · next job transfer fromAccountId readAt ws completed hnext =>
    have harrives := acts_executing (acts_of_act hact) hnext
    obtain ⟨ch, rfl, hp⟩ := arrives_commit harrives
    have hpending : c.shared.db.isPending transfer.id := by simpa [completesPending, hp] using hok
    rwa [Shared.record_db, apply_db happ harrives.private]
  · trivial

/-- `MovedOnce` as an invariant of the guarded interleaving. -/
def movedOnceProof (deps : Dependencies) :
    Interleaving.RelyGuarantee (system deps) completesPending
      fun c => ∀ i, (c.locals i).Holding deps c.shared i where
  inv s := ∀ id, MovedOnce s id
  asserts i s p := p.Holding deps s i ∧ p.CommitsPending s
  guarantee := Guarantee
  own c i a s p hknown hinv hall hok hstep := by
    obtain ⟨es, hlog, hchange⟩ := step_change (hknown i) hstep
    obtain ⟨_, hholding, hg⟩ :=
      (holdingProof deps completesPending).own c i a s p trivial trivial hknown hok hstep
    exact ⟨fun id => (hinv id).step hlog (hchange.rowStep id) (hall i).2,
      ⟨hholding, commitsPending_own hok hstep⟩, hg⟩
  stable i j s s' p hij _ hg hp := ⟨hp.1.stable hij hg, commitsPending_stable hij hg hp.1 hp.2⟩

theorem movedOnce {deps : Dependencies} {db : Db} {c : State}
    (h : Reaches deps completesPending db c) (id : Uuid) : MovedOnce c.shared id :=
  ((movedOnceProof deps).sound h (fun _ hc => holding hc) (fun _ => .inl rfl)
    fun _ => ⟨trivial, trivial⟩).1 id

theorem timesMoved_le_one {deps : Dependencies} {db : Db} {c : State}
    (h : Reaches deps completesPending db c) (id : Uuid) : timesMoved c.shared.log id ≤ 1 := by
  rcases movedOnce h id with h | ⟨h, _⟩ <;> omega

theorem commitsPending {deps : Dependencies} {db : Db} {c : State}
    (h : Reaches deps completesPending db c) (i : Pid) :
    (c.locals i).CommitsPending c.shared :=
  (((movedOnceProof deps).sound h (fun _ hc => holding hc) (fun _ => .inl rfl)
    fun _ => ⟨trivial, trivial⟩).2 i).2

theorem Event.debits_moves {transferId accountId : Uuid} {e : Event}
    (h : e.debits transferId accountId) : e.moves transferId := by
  cases e <;> simp_all [Event.debits, Event.moves]

theorem Event.credits_moves {transferId accountId : Uuid} {e : Event}
    (h : e.credits transferId accountId) : e.moves transferId := by
  cases e <;> simp_all [Event.credits, Event.moves]

/-- While every update to `completed` finds its row pending, a transfer debits its source and
credits its destination at most once, and the balances are what these debits and credits say. -/
theorem moves_at_most_once (deps : Dependencies) (db : Db)
    (transferId fromAccountId toAccountId : Uuid) (c : State)
    (h : Reaches deps completesPending db c) :
    c.shared.log.countP (Event.debits transferId fromAccountId) ≤ 1 ∧
      c.shared.log.countP (Event.credits transferId toAccountId) ≤ 1 ∧
      ∀ id r, db.accounts.find? id = some r → c.shared.db.accounts.find? id =
        some (r.add (c.shared.log.map (Event.netCents id)).sum) := by
  have hmoved := timesMoved_le_one h transferId
  refine ⟨?_, ?_, fun id r hr => balance_history h hr⟩
  · exact (List.countP_mono_left fun _ _ he => Event.debits_moves he).trans hmoved
  · exact (List.countP_mono_left fun _ _ he => Event.credits_moves he).trans hmoved

/-- Runs of the processor on one transfer and nothing else. -/
def processorRunsOn (transferId : Uuid) : Guard := fun _ _ a =>
  (match a with
    | .start op => decide (op = .processJob transferId)
    | .next _ => true
    | _ => false) = true

instance (transferId : Uuid) (c : State) (i : Pid) (a : Label) :
    Decidable (processorRunsOn transferId c i a) :=
  inferInstanceAs (Decidable (_ = true))

section Race

/-- A pending transfer of 50 between two accounts, the first of which holds 100. -/
def raceTransfer : TransferRow where
  id := ⟨3⟩
  seq := 1
  idempotencyKey := some "key"
  requestHash := some "hash"
  fromAccountId := some ⟨1⟩
  toAccountId := ⟨2⟩
  amountCents := fiftyCents
  status := .pending
  failureReason := none
  createdAt := 0
  completedAt := none
  distinct := by decide

def raceDb : Db where
  customers := sampleCustomers
  accounts := ⟨[⟨⟨1⟩, ⟨9⟩, 100⟩, ⟨⟨2⟩, ⟨9⟩, 0⟩], by decide⟩
  transfers := ⟨[raceTransfer], by decide⟩
  accountLocks := .empty
  accountComments := .empty

def raceChoice : Choice := ⟨0, ⟨7⟩, 0⟩

/-- Two workers read the pending row, then the first and after it the second executes it. -/
def raceScript : List (Pid × Label) :=
  [(0, .start (.processJob ⟨3⟩)), (1, .start (.processJob ⟨3⟩)), (0, .next raceChoice),
    (1, .next raceChoice)] ++
  List.replicate 8 (0, .next raceChoice) ++ List.replicate 8 (1, .next raceChoice)

/-- Two overlapping runs move the amount twice. -/
theorem duplicate_delivery_moves_twice :
    ¬ ∀ (db : Db) (transfer : TransferRow) (source : Uuid) (c : State),
      db.transfers.find? transfer.id = some transfer → transfer.status = .pending →
      transfer.fromAccountId = some source → Reaches sampleDeps (processorRunsOn transfer.id) db c →
      c.shared.log.countP (Event.debits transfer.id source) ≤ 1 ∧
        c.shared.log.countP (Event.credits transfer.id transfer.toAccountId) ≤ 1 := by
  intro hclaim
  have hrun : ((system sampleDeps).moves (processorRunsOn ⟨3⟩) (State.init raceDb) raceScript).map
      (fun c => (c.shared.log.countP (Event.debits ⟨3⟩ ⟨1⟩),
        c.shared.db.accounts.rows.map AccountRow.balanceCents)) = some (2, [0, 100]) := by decide
  obtain ⟨c, hc, hlog⟩ := Option.map_eq_some_iff.mp hrun
  have := (hclaim raceDb raceTransfer ⟨1⟩ c (by decide) rfl rfl (.of_moves .refl hc)).1
  have htwice : c.shared.log.countP (Event.debits raceTransfer.id ⟨1⟩) = 2 :=
    (Prod.mk.inj hlog).1
  omega

/-- The transfer is delivered again after its first run. -/
theorem moves_at_most_once_redelivered : ∃ c, Reaches sampleDeps completesPending raceDb c ∧
    timesMoved c.shared.log ⟨3⟩ = 1 ∧ c.shared.log.countP (Event.debits ⟨3⟩ ⟨1⟩) ≤ 1 ∧
      c.shared.log.countP (Event.credits ⟨3⟩ ⟨2⟩) ≤ 1 := by
  have hrun : ((system sampleDeps).moves completesPending (State.init raceDb)
      ([(0, .start (.processJob ⟨3⟩))] ++ List.replicate 9 (0, .next raceChoice) ++
        [(1, .start (.processJob ⟨3⟩)), (1, .next raceChoice)])).map (fun c =>
          timesMoved c.shared.log ⟨3⟩) = some 1 := by decide
  obtain ⟨c, hc, hmoved⟩ := Option.map_eq_some_iff.mp hrun
  have hreach : Reaches sampleDeps completesPending raceDb c := .of_moves .refl hc
  obtain ⟨hdebits, hcredits, _⟩ := moves_at_most_once sampleDeps raceDb ⟨3⟩ ⟨1⟩ ⟨2⟩ c hreach
  exact ⟨c, hreach, hmoved, hdebits, hcredits⟩

end Race

/-! ## Terminal states -/

theorem completesPending_of_writesPending {deps : Dependencies} {db : Db} {c : State}
    (h : Reaches deps writesPending db c) : Reaches deps completesPending db c :=
  h.refine fun _ _ _ _ _ hok _ => hok.1

/-- Under the guard a step leaves every settled row as it is. -/
theorem settled_row_stays {deps : Dependencies} {db : Db} {c c' : State} {i : Pid} {a : Label}
    (h : Reaches deps writesPending db c) (hok : writesPending c i a)
    (hmove : (system deps).move c i a = some c') {id : Uuid} {row : TransferRow}
    (hrow : c.shared.db.transfers.find? id = some row) (hstatus : row.status ≠ .pending) :
    c'.shared.db.transfers.find? id = some row := by
  obtain ⟨es, _, hchange⟩ := move_change h hmove
  have hcommit := commitsPending (completesPending_of_writesPending h) i
  have hsettled : ¬ c.shared.db.isPending id := fun hp =>
    not_isSettled_of_isPending hp (isSettled_iff.mpr ⟨row, hrow, hstatus⟩)
  cases hchange.rowStep id with
  | same hdb _ => rw [hdb, hrow]
  | inserted hnone => simp [hnone] at hrow
  | completed hid hp =>
    rw [hp] at hcommit
    exact absurd (hid ▸ hcommit) hsettled
  | failed hid hp ha =>
    have : c.shared.db.isPending id := by simpa [failsPending, hp, ha, hid] using hok.2
    exact absurd this hsettled

/-- The event moves the amount of the row from its source to its destination. -/
def Event.executes (row : TransferRow) : Event → Bool
  | .moved transfer fromAccountId _ =>
    transfer.SameRequest row && row.fromAccountId = some fromAccountId
  | _ => false

/-- The number of executions that the stored row of a transfer stands for. -/
def Db.executions (db : Db) (transferId : Uuid) : ℕ :=
  match db.transfers.find? transferId with
  | some row => if row.fromAccountId ≠ none ∧ row.status = .completed then 1 else 0
  | none => 0

/-- The stored rows tell how often each transfer moved its amount. -/
theorem timesMoved_eq_executions {deps : Dependencies} {customers : Table CustomerRow}
    {c : State} (h : Reaches deps writesPending (Db.seeded customers) c) (id : Uuid) :
    timesMoved c.shared.log id = c.shared.db.executions id := by
  refine h.invariant (Reaches deps writesPending (Db.seeded customers))
    (fun c => timesMoved c.shared.log id = c.shared.db.executions id) (fun _ hc => hc) rfl ?_
  intro c i a c' hc hinv hok hmove
  obtain ⟨es, hlog, hchange⟩ := move_change hc hmove
  have hcommit := commitsPending (completesPending_of_writesPending hc) i
  rw [timesMoved, hlog, List.countP_append]
  rw [timesMoved] at hinv
  cases hchange.rowStep id with
  | same hdb hzero => rw [hinv, hzero, Db.executions, Db.executions, hdb, add_zero]
  | inserted hnone hrow hstatus hzero =>
    rw [hinv, hzero]
    rcases hstatus with hstatus | ⟨hfrom, _⟩
    · simp [Db.executions, hnone, hrow, hstatus]
    · simp [Db.executions, hnone, hrow, hfrom]
  | @completed _ transfer _ _ _ _ _ row now hid hp _ hes hfrom hrow hsame hdb =>
    subst hid
    rw [hp] at hcommit
    obtain ⟨x, hx, hstatus⟩ := isPending_iff.mp hcommit
    obtain rfl : row = x := by simpa [hrow] using hx
    have hsource : (row.complete now).fromAccountId ≠ none := by
      rw [← (TransferRow.sameRequest_complete row now).fromAccountId_eq, hsame.fromAccountId_eq,
        hfrom]
      simp
    rw [hinv, hes]
    simp [Db.executions, hrow, hdb, hstatus, hsource, Event.moves]
  | @failed _ transfer _ _ _ row _ hid hp ha hes hrow _ hdb =>
    have hpending : c.shared.db.isPending id := by simpa [failsPending, hp, ha, hid] using hok.2
    obtain ⟨x, hx, hstatus⟩ := isPending_iff.mp hpending
    obtain rfl : row = x := by simpa [hrow] using hx
    rw [hinv, hes]
    simp [Db.executions, hrow, hdb, hstatus, Event.moves]

theorem RowStep.sameRequest {s : Shared} {i : Pid} {p : Proc} {a : Label} {db : Db}
    {es : List Event} {id : Uuid} {row : TransferRow} (h : RowStep s i p a db es id)
    (hrow : s.db.transfers.find? id = some row) :
    ∃ row', db.transfers.find? id = some row' ∧ row.SameRequest row' := by
  cases h with
  | same hdb _ => exact ⟨row, hdb ▸ hrow, .refl row⟩
  | inserted hnone => simp [hnone] at hrow
  | completed _ _ _ _ _ hx _ hdb =>
    obtain rfl : row = _ := by simpa [hrow] using hx
    exact ⟨_, hdb, TransferRow.sameRequest_complete row _⟩
  | failed _ _ _ _ hx _ hdb =>
    obtain rfl : row = _ := by simpa [hrow] using hx
    exact ⟨_, hdb, TransferRow.sameRequest_fail row _ _⟩

theorem Event.executes_of_sameRequest {e : Event} {row row' : TransferRow} (h : e.executes row)
    (hsame : row.SameRequest row') : e.executes row' := by
  cases e with
  | moved transfer fromAccountId readAt =>
    simp only [executes, Bool.and_eq_true, decide_eq_true_eq] at h ⊢
    exact ⟨h.1.trans hsame, hsame.fromAccountId_eq ▸ h.2⟩
  | _ => simp [executes] at h

/-- Whatever moved an amount did so for the request that is stored. -/
theorem moved_executes {deps : Dependencies} {ok : Guard} {db : Db} {c : State}
    (h : Reaches deps ok db c) {id : Uuid} :
    ∀ e ∈ c.shared.log, e.moves id →
      ∃ row, c.shared.db.transfers.find? id = some row ∧ e.executes row := by
  refine h.invariant (Reaches deps ok db) (fun c => ∀ e ∈ c.shared.log, e.moves id →
    ∃ row, c.shared.db.transfers.find? id = some row ∧ e.executes row) (fun _ hc => hc)
    (by simp [State.init]) ?_
  intro c i a c' hc hinv _ hmove e he hmoves
  obtain ⟨es, hlog, hchange⟩ := move_change hc hmove
  have hrow := hchange.rowStep id
  rw [hlog, List.mem_append] at he
  rcases he with he | he
  · obtain ⟨row, hfind, hexec⟩ := hinv e he hmoves
    obtain ⟨row', hfind', hsame⟩ := hrow.sameRequest hfind
    exact ⟨row', hfind', Event.executes_of_sameRequest hexec hsame⟩
  · have hpos : es.countP (Event.moves id) ≠ 0 :=
      (List.countP_pos_iff.mpr ⟨e, he, hmoves⟩).ne'
    cases hrow with
    | same _ hzero => exact absurd hzero hpos
    | inserted _ _ _ hzero => exact absurd hzero hpos
    | failed _ _ _ hes => exact absurd (by simp [hes, Event.moves]) hpos
    | completed _ _ _ hes hfrom _ hsame hdb =>
      obtain rfl : e = _ := by simpa [hes] using he
      refine ⟨_, hdb, ?_⟩
      simp only [Event.executes, Bool.and_eq_true, decide_eq_true_eq]
      exact ⟨hsame.symm, hsame.fromAccountId_eq.trans hfrom⟩

/-- The events that moved the amount of a transfer are the executions of its stored row. -/
theorem countP_executes {deps : Dependencies} {ok : Guard} {db : Db} {c : State}
    (h : Reaches deps ok db c) {id : Uuid} {row : TransferRow}
    (hrow : c.shared.db.transfers.find? id = some row) :
    c.shared.log.countP (Event.executes row) = timesMoved c.shared.log id := by
  refine List.countP_congr fun e he => ⟨fun hexec => ?_, fun hmoves => ?_⟩
  · cases e with
    | moved transfer fromAccountId readAt =>
      simp only [Event.executes, Bool.and_eq_true, decide_eq_true_eq] at hexec
      have : row.id = id := Table.key_of_find? hrow
      simpa [Event.moves] using hexec.1.id_eq.trans this
    | _ => simp [Event.executes] at hexec
  · obtain ⟨x, hx, hexec⟩ := moved_executes h e he hmoves
    obtain rfl : row = x := by simpa [hrow] using hx
    exact hexec

/-- While every update of a transfer row finds the row pending, a terminal row never changes
again, and a row with a source is completed if and only if its amount was moved exactly once, and
failed only if it was not moved. -/
theorem terminal_absorbing_truthful (deps : Dependencies) (customers : Table CustomerRow)
    (c c' : State) (id : Uuid) (row : TransferRow)
    (h : Reaches deps writesPending (Db.seeded customers) c)
    (h' : (system deps).Run writesPending c c')
    (hrow : c.shared.db.transfers.find? id = some row) :
    (row.status ≠ .pending → c'.shared.db.transfers.find? id = some row) ∧
      (row.fromAccountId ≠ none →
        (row.status = .completed ↔ c.shared.log.countP (Event.executes row) = 1) ∧
        (row.status ≠ .completed → timesMoved c.shared.log id = 0)) := by
  have hexecutions := timesMoved_eq_executions h id
  refine ⟨fun hstatus => ?_, fun hfrom => ?_⟩
  · exact h'.invariant (Reaches deps writesPending (Db.seeded customers))
      (fun d => d.shared.db.transfers.find? id = some row) (fun _ hd => h.trans hd) hrow
      fun _ _ _ _ hd hinv hok hmove => settled_row_stays hd hok hmove hinv hstatus
  · rw [countP_executes h hrow, hexecutions]
    by_cases hstatus : row.status = .completed
    · simp [Db.executions, hrow, hfrom, hstatus]
    · simp [Db.executions, hrow, hstatus]

/-- Calls of the services and deliveries of jobs, but no direct call of `execute`. -/
def noDirectExecute : Guard := fun _ _ a =>
  (match a with
    | .start (.execute _) => false
    | _ => true) = true

instance (c : State) (i : Pid) (a : Label) : Decidable (noDirectExecute c i a) :=
  inferInstanceAs (Decidable (_ = true))

section LateRejection

/-- Two accounts, the first with 60, and a pending transfer of 50 that two workers have read. -/
def latePrepare : List (Pid × Label) :=
  openAccounts ++ [(0, .start (.createTransfer (sampleInput "key")))] ++
  List.replicate 6 (0, .next (chosen 3)) ++
  [(0, .start (.processJob ⟨3⟩)), (1, .start (.processJob ⟨3⟩)), (0, .next (chosen 3)),
    (1, .next (chosen 3))]

/-- The first worker completes the transfer. -/
def lateFirst : List (Pid × Label) := List.replicate 8 (0, .next (chosen 3))

/-- The second worker finds too little money left and marks the transfer failed. -/
def lateSecond : List (Pid × Label) := List.replicate 5 (1, .next (chosen 3))

/-- A completed transfer turns failed, although its amount has been moved. -/
theorem late_rejection_overwrites :
    ¬ ∀ (customers : Table CustomerRow) (c c' : State) (id' : Uuid) (row : TransferRow),
      Reaches sampleDeps noDirectExecute (Db.seeded customers) c →
      (system sampleDeps).Run noDirectExecute c c' →
      c.shared.db.transfers.find? id' = some row →
      (row.status ≠ .pending → ∃ row', c'.shared.db.transfers.find? id' = some row' ∧
        row'.status = row.status ∧ row'.failureReason = row.failureReason) ∧
        ((∀ i, c.locals i = .idle) → row.fromAccountId ≠ none →
          (row.status = .completed ↔ c.shared.log.countP (Event.executes row) = 1) ∧
          (row.status ≠ .completed → timesMoved c.shared.log id' = 0)) := by
  intro hclaim
  have hrun : (((system sampleDeps).moves noDirectExecute (State.init (Db.seeded sampleCustomers))
      (latePrepare ++ lateFirst)).bind fun c =>
        ((system sampleDeps).moves noDirectExecute c lateSecond).map fun c' =>
          ((c.shared.db.transfers.find? ⟨3⟩).map TransferRow.status,
            (c'.shared.db.transfers.find? ⟨3⟩).map TransferRow.status)) =
      some (some .completed, some .failed) := by decide
  obtain ⟨c, hc, hrest⟩ := Option.bind_eq_some_iff.mp hrun
  obtain ⟨c', hc', hstatus⟩ := Option.map_eq_some_iff.mp hrest
  obtain ⟨hbefore, hafter⟩ := Prod.mk.inj hstatus
  obtain ⟨row, hrow, hcompleted⟩ := Option.map_eq_some_iff.mp hbefore
  have habsorbing := (hclaim sampleCustomers c c' ⟨3⟩ row (.of_moves .refl hc) (.of_moves .refl hc')
    hrow).1
  obtain ⟨row', hrow', hsame, _⟩ := habsorbing (by simp [hcompleted])
  simp [hrow', hsame, hcompleted] at hafter

/-- The second worker stops before it marks the completed transfer failed. -/
theorem terminal_absorbing_truthful_late : ∃ (c c' : State) (row : TransferRow),
    Reaches sampleDeps writesPending (Db.seeded sampleCustomers) c ∧ row.status = .completed ∧
      c'.shared.db.transfers.find? ⟨3⟩ = some row ∧
      c.shared.log.countP (Event.executes row) = 1 := by
  have hrun : (((system sampleDeps).moves writesPending (State.init (Db.seeded sampleCustomers))
      (latePrepare ++ lateFirst)).bind fun c =>
        ((system sampleDeps).moves writesPending c (lateSecond.take 3)).map fun _ =>
          (c.shared.db.transfers.find? ⟨3⟩).map fun row => (row.fromAccountId, row.status)) =
      some (some (some ⟨1⟩, .completed)) := by decide
  obtain ⟨c, hc, hrest⟩ := Option.bind_eq_some_iff.mp hrun
  obtain ⟨c', hc', hfound⟩ := Option.map_eq_some_iff.mp hrest
  obtain ⟨row, hrow, hfields⟩ := Option.map_eq_some_iff.mp hfound
  obtain ⟨hfrom, hstatus⟩ := Prod.mk.inj hfields
  have hreach : Reaches sampleDeps writesPending (Db.seeded sampleCustomers) c := .of_moves .refl hc
  obtain ⟨hstays, htruth⟩ := terminal_absorbing_truthful sampleDeps sampleCustomers c c' ⟨3⟩ row
    hreach (.of_moves .refl hc') hrow
  exact ⟨c, c', row, hreach, hstatus, hstays (by simp [hstatus]),
    (htruth (by simp [hfrom])).1.mp hstatus⟩

end LateRejection

end BankPlatform.Bank
