import BankPlatform.Bank.Delivery

/-!
# The ledger with one worker

With a single worker the runs of the processor follow each other, and each of them may die at any
await and be delivered again. Then a run in flight executes a row that is still pending, so the
guard of the duplicate-delivery results holds by itself, and every balance is what the completed
rows credit less what they debit.

## Main definitions

* `oneWorker` — a run of the processor starts only when no other is in flight.
* `Db.creditedCents`, `Db.debitedCents` — the completed transfers into and out of an account.
* `Db.Ledger` — the ledger equation of every account.

## Main results

* `reaches_ledger` — the equation under the guard of the duplicate-delivery results.
* `ledger_of_one_worker` — the equation and the truth of every row with one worker.
-/

namespace BankPlatform.Bank

open Library

/-! ## The ledger equation -/

namespace TransferRow

/-- What a row credits to an account. -/
def creditCents (accountId : Uuid) (r : TransferRow) : ℤ :=
  if r.status = .completed ∧ r.toAccountId = accountId then r.amountCents.cents else 0

/-- What a row debits from an account. -/
def debitCents (accountId : Uuid) (r : TransferRow) : ℤ :=
  if r.status = .completed ∧ r.fromAccountId = some accountId then r.amountCents.cents else 0

/-- What a row adds to an account. -/
def ledgerCents (accountId : Uuid) (r : TransferRow) : ℤ :=
  r.creditCents accountId - r.debitCents accountId

theorem ledgerCents_of_not_completed {r : TransferRow} (h : r.status ≠ .completed)
    (accountId : Uuid) : r.ledgerCents accountId = 0 := by
  simp [ledgerCents, creditCents, debitCents, h]

end TransferRow

namespace Db

/-- The completed transfers into an account. -/
def creditedCents (db : Db) (accountId : Uuid) : ℤ :=
  db.transfers.total (TransferRow.creditCents accountId)

/-- The completed transfers out of an account. -/
def debitedCents (db : Db) (accountId : Uuid) : ℤ :=
  db.transfers.total (TransferRow.debitCents accountId)

/-- Completed transfers stay between existing accounts, and each balance is what they leave. -/
structure Ledger (db : Db) : Prop where
  references : ∀ row ∈ db.transfers.rows, row.status = .completed →
    ∀ id, row.ledgerCents id ≠ 0 → (db.accounts.find? id).isSome
  balance : ∀ id r, db.accounts.find? id = some r →
    r.balanceCents = db.transfers.total (TransferRow.ledgerCents id)

theorem total_ledgerCents (db : Db) (accountId : Uuid) :
    db.transfers.total (TransferRow.ledgerCents accountId) =
      db.creditedCents accountId - db.debitedCents accountId := by
  simp only [creditedCents, debitedCents, Table.total]
  induction db.transfers.rows with
  | nil => rfl
  | cons r l ih =>
    simp only [List.map_cons, List.sum_cons, ih, TransferRow.ledgerCents]
    ring

end Db

theorem ledger_seeded (customers : Table CustomerRow) : (Db.seeded customers).Ledger :=
  ⟨by simp [Db.seeded, Table.empty], by simp [Db.seeded]⟩

/-- A row that is not completed does not count. -/
theorem total_ledgerCents_put {t : Table TransferRow} {row x : TransferRow}
    (hrow : t.find? x.id = some row) (hpending : row.status ≠ .completed) (id : Uuid) :
    (t.put x).total (TransferRow.ledgerCents id) =
      t.total (TransferRow.ledgerCents id) + x.ledgerCents id := by
  rw [Table.total_put hrow, TransferRow.ledgerCents_of_not_completed hpending]
  ring

/-- A completed row counts as the event that moved its amount. -/
theorem ledgerCents_complete {row transfer : TransferRow} {fromAccountId : Uuid}
    (hfrom : transfer.fromAccountId = some fromAccountId) (hsame : row.SameRequest transfer)
    (now : Date) (readAt : ℕ) (id : Uuid) : (row.complete now).ledgerCents id =
      (Event.moved transfer fromAccountId readAt).netCents id := by
  have hto : (row.complete now).toAccountId = transfer.toAccountId := hsame.toAccountId_eq
  have hsource : (row.complete now).fromAccountId = some fromAccountId :=
    hsame.fromAccountId_eq.trans hfrom
  have hamount : (row.complete now).amountCents = transfer.amountCents := hsame.amountCents_eq
  simp [TransferRow.ledgerCents, TransferRow.creditCents, TransferRow.debitCents, hto, hsource,
    hamount, Event.netCents]

/-- What a completed row adds to the other accounts is nothing. -/
theorem netCents_moved_eq_zero {transfer : TransferRow} {fromAccountId id : Uuid} {readAt : ℕ}
    (hto : transfer.toAccountId ≠ id) (hfrom : fromAccountId ≠ id) :
    (Event.moved transfer fromAccountId readAt).netCents id = 0 := by
  simp [Event.netCents, hto, hfrom]

/-- A new row that is not completed leaves the ledger alone. -/
theorem Db.Ledger.insert {db : Db} {row : TransferRow} {t : Table TransferRow} (h : db.Ledger)
    (ht : db.transfers.insert? row = some t) (hstatus : row.status ≠ .completed) :
    ({ db with transfers := t } : Db).Ledger := by
  refine ⟨fun x hx hcompleted => ?_, fun id r hr => ?_⟩
  · rcases (Table.mem_insert? ht).mp hx with hx | rfl
    · exact h.references x hx hcompleted
    · exact absurd hcompleted hstatus
  · rw [Table.total_insert? ht, TransferRow.ledgerCents_of_not_completed hstatus, add_zero]
    exact h.balance id r hr

/-- A pending row that is marked failed leaves the ledger alone. -/
theorem Db.Ledger.fail {db : Db} {row : TransferRow} (h : db.Ledger)
    (hrow : db.transfers.find? row.id = some row) (hpending : row.status = .pending)
    (reason : ErrorCode) (now : Date) :
    ({ db with transfers := db.transfers.put (row.fail reason now) } : Db).Ledger := by
  refine ⟨fun x hx hcompleted => ?_, fun id r hr => ?_⟩
  · rcases Table.mem_put hx with hx | rfl
    · exact h.references x hx hcompleted
    · simp at hcompleted
  · rw [total_ledgerCents_put (by simpa using hrow) (by simp [hpending]),
      TransferRow.ledgerCents_of_not_completed (by simp), add_zero]
    exact h.balance id r hr

/-- A pending row that is executed moves its amount in the ledger and in the balances. -/
theorem Db.Ledger.move {s : Shared} {i : Pid} {transfer row : TransferRow} {fromAccountId : Uuid}
    {source destination : AccountRow} (h : s.db.Ledger)
    (hfrom : transfer.fromAccountId = some fromAccountId)
    (hboth : BothLocked s i transfer fromAccountId source destination)
    (hrow : s.db.transfers.find? transfer.id = some row) (hsame : row.SameRequest transfer)
    (hpending : row.status = .pending) (now : Date) :
    ({ s.db with
      accounts := (s.db.accounts.put (source.add (-transfer.amountCents.cents))).put
        (destination.add transfer.amountCents.cents)
      transfers := s.db.transfers.put (row.complete now) } : Db).Ledger := by
  have hfind := find?_accounts_moved hfrom hboth 0
  have hkey : row.id = transfer.id := Table.key_of_find? hrow
  refine ⟨fun x hx hcompleted id hne => ?_, fun id r hr => ?_⟩
  · rw [hfind, Option.isSome_map]
    rcases Table.mem_put hx with hx | rfl
    · exact h.references x hx hcompleted id hne
    · rw [ledgerCents_complete hfrom hsame now 0] at hne
      by_cases hto : transfer.toAccountId = id
      · simp [← hto, hboth.destination_row]
      · by_cases hsource : fromAccountId = id
        · simp [← hsource, hboth.source_row]
        · exact absurd (netCents_moved_eq_zero hto hsource) hne
  · rw [hfind] at hr
    obtain ⟨r₀, hr₀, rfl⟩ := Option.map_eq_some_iff.mp hr
    rw [total_ledgerCents_put (by simpa [hkey] using hrow) (by simp [hpending]),
      ledgerCents_complete hfrom hsame now 0, ← h.balance id r₀ hr₀]
    rfl

/-- An account opens with what its deposit credits. -/
theorem Db.Ledger.opening {db db' : Db} {account : AccountRow} {deposit : NonNegativeCents}
    {c : Choice} (h : db.Ledger) (hbalance : account.balanceCents = deposit.cents)
    (hinstall : db.install (openingWrites account deposit c) = some db') : db'.Ledger := by
  obtain ⟨t, ht, hcase⟩ := install_openingWrites hinstall
  have hnew : db.accounts.find? account.id = none := (Table.insert?_eq_some ht).1
  have hkeep : ∀ {id}, (db.accounts.find? id).isSome → (t.find? id).isSome := by
    intro id hid
    obtain ⟨r, hr⟩ := Option.isSome_iff_exists.mp hid
    simp [Table.find?_insert?_of_some ht hr]
  -- no completed row refers to the account before it exists
  have hzero : db.transfers.total (TransferRow.ledgerCents account.id) = 0 := by
    refine List.sum_eq_zero fun x hx => ?_
    obtain ⟨row, hrow, rfl⟩ := List.mem_map.mp hx
    by_contra hne
    have hcompleted : row.status = .completed := by
      by_contra hstatus
      exact hne (TransferRow.ledgerCents_of_not_completed hstatus _)
    simpa [hnew] using h.references row hrow hcompleted account.id hne
  rcases hcase with ⟨hdeposit, rfl⟩ | ⟨hpos, u, hu, rfl⟩
  · refine ⟨fun x hx hcompleted id hne => hkeep (h.references x hx hcompleted id hne),
      fun id r hr => ?_⟩
    rw [Table.find?_insert? ht] at hr
    split at hr
    · next hid =>
      obtain rfl := Option.some.inj hr
      rw [← hid]
      exact (hbalance.trans (by simp [hdeposit])).trans hzero.symm
    · exact h.balance id r hr
  · have hledger : ∀ id, (depositRow account ⟨deposit.cents, hpos, deposit.safe⟩ c).ledgerCents id =
        if account.id = id then (deposit.cents : ℤ) else 0 := by
      intro id
      simp [TransferRow.ledgerCents, TransferRow.creditCents, TransferRow.debitCents, depositRow]
    refine ⟨fun x hx hcompleted id hne => ?_, fun id r hr => ?_⟩
    · rcases (Table.mem_insert? hu).mp hx with hx | rfl
      · exact hkeep (h.references x hx hcompleted id hne)
      · rw [hledger] at hne
        have hid : account.id = id := by simpa using (ite_ne_right_iff.mp hne).1
        simp [Table.find?_insert? ht, hid]
    · rw [Table.total_insert? hu, hledger]
      rw [Table.find?_insert? ht] at hr
      split at hr
      · next hid =>
        obtain rfl := Option.some.inj hr
        have hid : account.id = id := hid
        rw [if_pos hid, ← hid, hzero, hbalance, zero_add]
      · next hid =>
        have hid : account.id ≠ id := hid
        rw [if_neg hid, add_zero]
        exact h.balance id r hr

/-- While every update of a transfer row finds the row pending, the ledger equation holds. -/
theorem reaches_ledger {deps : Dependencies} {customers : Table CustomerRow} {c : State}
    (h : Reaches deps writesPending (Db.seeded customers) c) : c.shared.db.Ledger := by
  refine h.invariant (Reaches deps writesPending (Db.seeded customers))
    (fun c => c.shared.db.Ledger) (fun _ hc => hc) (ledger_seeded customers) ?_
  intro c i a c' hc hinv hok hmove
  obtain ⟨es, _, hchange⟩ := move_change hc hmove
  have hcommit := commitsPending (completesPending_of_writesPending hc) i
  have hfails := hok.2
  unfold failsPending at hfails
  generalize c.locals i = p, c'.shared.db = db' at hchange hcommit hfails ⊢
  cases hchange with
  | quiet _ => exact hinv
  | moved hfrom hboth _ _ hrow hsame hc =>
    subst hc
    obtain ⟨x, hx, hpending⟩ := isPending_iff.mp hcommit
    obtain rfl := Option.some.inj (hrow.symm.trans hx)
    exact hinv.move hfrom hboth hrow hsame hpending _
  | @rejected job transfer _ _ row now _ _ _ hrow _ =>
    obtain ⟨x, hx, hpending⟩ := isPending_iff.mp hfails
    obtain rfl := Option.some.inj (hrow.symm.trans hx)
    have hkey : row.id = transfer.id := Table.key_of_find? hrow
    exact hinv.fail (hkey ▸ hrow) hpending _ now
  | opened _ hbalance hinstall => exact hinv.opening hbalance hinstall
  | inserted _ hwrite =>
    obtain ⟨_, t, ht, rfl⟩ := write_insertTransfer hwrite
    exact hinv.insert ht (by simp [TransferService.pendingRow])
  | locked _ _ _ _ | released _ _ | commented => exact ⟨hinv.references, hinv.balance⟩

/-! ## One worker -/

/-- A run of the processor is in flight. -/
def Proc.isProcessor : Proc → Bool
  | .processor _ _ => true
  | _ => false

theorem isProcessor_iff {p : Proc} : p.isProcessor ↔ ∃ job pc, p = .processor job pc := by
  cases p <;> simp [Proc.isProcessor]

/-- A run of the processor starts only when no other is in flight, and no caller executes a row
that it read earlier. -/
def oneWorker : Guard := fun c _ a =>
  match a with
  | .start (.processJob _) | .deliver _ => ∀ j, (c.locals j).isProcessor = false
  | .start (.execute _) => False
  | _ => True

/-- The run executes a row that is still pending. -/
def Proc.ExecutesPending (s : Shared) : Proc → Prop
  | .processor _ (.executing transfer _ _) => s.db.isPending transfer.id
  | _ => True

/-- At most one run is in flight, and the row it executes is pending. -/
structure OneRun (c : State) : Prop where
  single : ∀ i j, (c.locals i).isProcessor → (c.locals j).isProcessor → i = j
  pending : ∀ i, (c.locals i).ExecutesPending c.shared

/-- Only a run of the processor takes a row out of the pending state. -/
theorem RowStep.isPending {s : Shared} {i : Pid} {p : Proc} {a : Label} {db : Db} {es : List Event}
    {id : Uuid} (h : RowStep s i p a db es id) (hp : p.isProcessor = false)
    (hpending : s.db.isPending id) : db.isPending id := by
  cases h with
  | same hdb _ => rwa [Db.isPending, hdb]
  | inserted hnone => simp [Db.isPending, hnone] at hpending
  | completed _ hproc => simp [hproc, Proc.isProcessor] at hp
  | failed _ hproc => simp [hproc, Proc.isProcessor] at hp

/-- A process turns into a run of the processor at the start of the run only. -/
theorem isProcessor_of_acts {deps : Dependencies} {s : Shared} {i : Pid} {p : Proc} {a : Label}
    {m : Move} (h : Acts deps s i p a m) (hnext : m.next.isProcessor) :
    p.isProcessor ∨ (∃ transferId, a = .start (.processJob transferId)) ∨
      (∃ transfer, a = .start (.execute transfer)) ∨ ∃ jobId, a = .deliver jobId := by
  cases h with
  | @next p c m hm =>
    refine .inl ?_
    obtain ⟨job, pc, hproc⟩ := isProcessor_iff.mp hnext
    have hsame := sameCall_of_next hm hproc (by simp)
    cases p with
    | processor job' pc' => rfl
    | _ => exact hsame.elim
  | @start op m hm =>
    cases op with
    | processJob transferId => exact .inr (.inl ⟨transferId, rfl⟩)
    | execute transfer => exact .inr (.inr (.inl ⟨transfer, rfl⟩))
    | createTransfer input =>
      simp only [Operation.begin] at hm
      split at hm <;> cases hm <;> cases hnext
    | _ => cases hm; cases hnext
  | deliver _ => exact .inr (.inr (.inr ⟨_, rfl⟩))
  | queue => cases hnext
  | abort => cases p <;> first | exact .inl rfl | cases hnext
  | crash => cases hnext

/-- A step of a run leaves it with a pending row, unless the run is over. -/
theorem executesPending_own {deps : Dependencies} {c : State} {s₁ : Shared} {i : Pid}
    {a : Label} {m : Move} (h : (c.locals i).ExecutesPending c.shared) (hok : oneWorker c i a)
    (hacts : Acts deps c.shared i (c.locals i) a m)
    (happ : c.shared.apply i m.effect = some s₁) :
    m.next.ExecutesPending (s₁.record m.events) := by
  unfold Proc.ExecutesPending
  split
  · next job transfer fromAccountId pc hnext =>
    have harrives := acts_executing hacts hnext
    rw [Shared.record_db, apply_db happ harrives.private]
    generalize c.locals i = p at h harrives
    cases harrives with
    | next _ => exact h
    | selected hrow hstatus _ _ _ => exact isPending_iff.mpr ⟨transfer, hrow, hstatus⟩
    | called _ _ _ _ => exact hok.elim
  · trivial

theorem OneRun.step {deps : Dependencies} {db : Db} {c c' : State} {i : Pid} {a : Label}
    (hc : Reaches deps oneWorker db c) (h : OneRun c) (hok : oneWorker c i a)
    (hmove : (system deps).move c i a = some c') : OneRun c' := by
  obtain ⟨es, _, hchange⟩ := move_change hc hmove
  obtain ⟨s, p, hstep, rfl⟩ := Interleaving.move_eq_some.mp hmove
  obtain ⟨m, s₁, hact, happ, rfl, rfl⟩ := step_eq_some.mp hstep
  have hacts := acts_of_act hact
  -- a step that is or becomes a run of the processor finds no other run in flight
  have hothers : (c.locals i).isProcessor ∨ m.next.isProcessor → ∀ j, j ≠ i →
      (c.locals j).isProcessor = false := by
    intro hrun j hj
    by_contra hrunning
    have hj' : (c.locals j).isProcessor := by simpa using hrunning
    rcases hrun with hrun | hrun
    · exact hj (h.single j i hj' hrun)
    · rcases isProcessor_of_acts hacts hrun with hi | ⟨_, rfl⟩ | ⟨_, rfl⟩ | ⟨_, rfl⟩
      · exact hj (h.single j i hj' hi)
      · simp [hok j] at hj'
      · exact hok
      · simp [hok j] at hj'
  refine ⟨fun j k hj hk => ?_, fun j => ?_⟩
  · simp only [Function.update_apply] at hj hk
    split at hj <;> split at hk
    · next hji hki => rw [hji, hki]
    · next _ hki => simp [hothers (.inr hj) k hki] at hk
    · next hji _ => simp [hothers (.inr hk) j hji] at hj
    · exact h.single j k hj hk
  · simp only [Function.update_apply]
    split
    · next hji => exact executesPending_own (h.pending i) hok hacts happ
    · next hji =>
      have hpending := h.pending j
      unfold Proc.ExecutesPending at hpending ⊢
      split
      · next job transfer fromAccountId pc hlocal =>
        rw [hlocal] at hpending
        have hidle : (c.locals i).isProcessor = false := by
          by_contra hrun
          have hj : (c.locals j).isProcessor := by simp [hlocal, Proc.isProcessor]
          exact hji (h.single j i hj (by simpa using hrun))
        exact (hchange.rowStep transfer.id).isPending hidle hpending
      · trivial

theorem oneRun {deps : Dependencies} {db : Db} {c : State}
    (h : Reaches deps oneWorker db c) : OneRun c :=
  h.invariant (Reaches deps oneWorker db) OneRun (fun _ hc => hc)
    ⟨fun _ _ hi => by simp [State.init, Proc.isProcessor] at hi, fun _ => trivial⟩
    fun _ _ _ _ hc hinv hok hmove => hinv.step hc hok hmove

/-- With one worker every update of a transfer row finds the row pending. -/
theorem writesPending_of_oneWorker {deps : Dependencies} {db : Db} {c : State}
    (h : Reaches deps oneWorker db c) : Reaches deps writesPending db c := by
  refine h.refine fun c i a _ hc _ _ => ?_
  have hpending := (oneRun hc).pending i
  unfold writesPending completesPending failsPending
  generalize c.locals i = p at hpending ⊢
  constructor <;> split <;> first | exact hpending | rfl

/-- With one worker, whatever crashes, aborts and redeliveries happen, every balance is the sum of
the completed transfers into the account minus the sum of those out of it, and each transfer with
a source moved its amount once if it is completed and not at all otherwise. -/
theorem ledger_of_one_worker (deps : Dependencies) (customers : Table CustomerRow) (c : State)
    (h : Reaches deps oneWorker (Db.seeded customers) c) :
    (∀ r ∈ c.shared.db.accounts.rows,
      r.balanceCents = c.shared.db.creditedCents r.id - c.shared.db.debitedCents r.id) ∧
    ∀ row ∈ c.shared.db.transfers.rows, row.fromAccountId ≠ none →
      (row.status = .completed ∧ c.shared.log.countP (Event.executes row) = 1) ∨
        (row.status ≠ .completed ∧ timesMoved c.shared.log row.id = 0) := by
  have hguard := writesPending_of_oneWorker h
  refine ⟨fun r hr => ?_, fun row hrow hfrom => ?_⟩
  · rw [← Db.total_ledgerCents]
    exact (reaches_ledger hguard).balance r.id r (Table.find?_key hr)
  · have hfind : c.shared.db.transfers.find? row.id = some row := Table.find?_key hrow
    have hexecutions := timesMoved_eq_executions hguard row.id
    by_cases hstatus : row.status = .completed
    · refine .inl ⟨hstatus, ?_⟩
      rw [countP_executes hguard hfind, hexecutions]
      simp [Db.executions, hfind, hfrom, hstatus]
    · refine .inr ⟨hstatus, ?_⟩
      rw [hexecutions]
      simp [Db.executions, hfind, hstatus]

/-- The first process makes all calls and executes no row that it read earlier. -/
def singleProcess : Guard := fun _ i a =>
  (match a with
    | .start (.execute _) => false
    | _ => decide (i = 0)) = true

instance (c : State) (i : Pid) (a : Label) : Decidable (singleProcess c i a) :=
  inferInstanceAs (Decidable (_ = true))

theorem oneWorker_of_singleProcess {deps : Dependencies} {db : Db} {c : State}
    (h : Reaches deps singleProcess db c) : Reaches deps oneWorker db c := by
  have hzero : ∀ {c : State} {i : Pid} {a : Label}, singleProcess c i a → i = 0 := by
    intro c i a hok
    unfold singleProcess at hok
    split at hok
    · cases hok
    · simpa using hok
  have hothers : ∀ c, Reaches deps singleProcess db c → ∀ j, j ≠ 0 → c.locals j = .idle :=
    fun c hc => hc.invariant (fun _ => True) (fun c => ∀ j, j ≠ 0 → c.locals j = .idle)
      (fun _ _ => trivial) (fun _ _ => rfl) fun c i a c' _ hinv hok hmove j hj => by
        obtain ⟨s, p, _, rfl⟩ := Interleaving.move_eq_some.mp hmove
        simpa [hzero hok, Function.update_of_ne hj] using hinv j hj
  refine h.refine fun c i a c' hc hok hmove => ?_
  obtain ⟨s, p, hstep, _⟩ := Interleaving.move_eq_some.mp hmove
  obtain ⟨m, s₁, hact, _⟩ := step_eq_some.mp hstep
  have hidle : c.locals i = .idle → ∀ j, (c.locals j).isProcessor = false := by
    intro hi j
    by_cases hj : j = i
    · rw [hj, hi]
      rfl
    · rw [hothers c hc j (hzero hok ▸ hj)]
      rfl
  generalize c.locals i = p at hact hidle
  cases acts_of_act hact with
  | @start op _ _ =>
    cases op with
    | processJob transferId => exact hidle rfl
    | execute transfer => simp [singleProcess] at hok
    | _ => trivial
  | deliver _ => exact hidle rfl
  | next _ | queue | abort | crash => trivial

/-- A job whose run crashed after its debit is delivered again. -/
theorem ledger_of_one_worker_redelivered : ∃ c : State,
    c.shared.db.accounts.rows.map AccountRow.balanceCents = [10, 50] ∧
      ∀ r ∈ c.shared.db.accounts.rows,
        r.balanceCents = c.shared.db.creditedCents r.id - c.shared.db.debitedCents r.id := by
  have hrun : ((system sampleDeps).moves singleProcess (State.init (Db.seeded sampleCustomers))
      (latePrepare.take 16 ++ [(0, .deliver "key")] ++ List.replicate 5 (0, .next (chosen 3)) ++
        [(0, .crash), (0, .queue (.stalled "key")), (0, .deliver "key")] ++
          List.replicate 9 (0, .next (chosen 3)))).map (fun c =>
        c.shared.db.accounts.rows.map AccountRow.balanceCents) = some [10, 50] := by decide
  obtain ⟨c, hc, hbalance⟩ := Option.map_eq_some_iff.mp hrun
  exact ⟨c, hbalance, (ledger_of_one_worker sampleDeps sampleCustomers c
    (oneWorker_of_singleProcess (.of_moves .refl hc))).1⟩

end BankPlatform.Bank
