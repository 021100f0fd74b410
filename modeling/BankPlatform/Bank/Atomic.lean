import BankPlatform.Bank.Conservation
import BankPlatform.Bank.Execute
import BankPlatform.Bank.Serial

/-!
# A transfer that is executed among others

The two models of `TransferExecutor.execute` agree. However its statements interleave with those of
other processes, its transaction does at its last statement what the callback of `db.transaction`
does alone at that moment, and does nothing before; the update behind a rejection is that of
`markFailed`.

## Main definitions

* `EndsAs` — what the transaction of a run does when it ends.

## Main results

* `reaches_balancesFit` — the balances fit in every run.
* `execute_atomic` — the transaction of a run takes effect at once.
-/

namespace BankPlatform.Bank

open Library

/-! ## Balances fit their column -/

theorem Change.balancesFit {deps : Dependencies} {s : Shared} {i : Pid} {p : Proc} {a : Label}
    {db : Db} {es : List Event} (h : Change deps s i p a db es)
    (hp : p.Holding deps s i) (hchecked : p.Checked s.db) (hfit : s.db.BalancesFit) :
    db.BalancesFit := by
  cases h with
  | @moved job transfer fromAccountId readAt ws completed source destination row now c hfrom
      hboth hfunds _ _ _ _ =>
    have hsource := hfit source (Table.mem_of_find? hboth.source_row)
    have hdestination := hfit destination (Table.mem_of_find? hboth.destination_row)
    have hroom : destination.balanceCents + transfer.amountCents.cents ≤ maxBigint := by
      have hover := hchecked.2
      rw [overflows_eq hboth.destination_row] at hover
      simpa using hover
    intro r hr
    rcases Table.mem_put hr with hr | rfl
    · rcases Table.mem_put hr with hr | rfl
      · exact hfit r hr
      · rw [add_balanceCents]
        omega
    · rw [add_balanceCents]
      omega
  | @opened customerId ws c c' db' account deposit hlock hbalance hinstall =>
    obtain ⟨t, ht, hcase⟩ := install_openingWrites hinstall
    have hsafe := deposit.safe
    have hfits : ∀ r ∈ t.rows, 0 ≤ r.balanceCents ∧ r.balanceCents ≤ maxBigint := by
      intro r hr
      rcases (Table.mem_insert? ht).mp hr with hr | rfl
      · exact hfit r hr
      · have hmax : (JsNumber.maxSafeInteger : ℤ) ≤ maxBigint := by decide
        omega
    rcases hcase with ⟨_, rfl⟩ | ⟨_, u, _, rfl⟩ <;> exact hfits
  | inserted _ hwrite =>
    obtain ⟨_, t, _, rfl⟩ := write_insertTransfer hwrite
    exact hfit
  | _ => exact hfit

/-- In every run all balances are those that the column and its check allow. -/
theorem reaches_balancesFit {deps : Dependencies} {ok : Guard} {db : Db}
    (hdb : db.BalancesFit) {c : State} (h : Reaches deps ok db c) : c.shared.db.BalancesFit := by
  refine h.invariant (Reaches deps ok db) (fun c => c.shared.db.BalancesFit) (fun _ hc => hc) hdb
    fun c i a c' hc hfit _ hmove => ?_
  obtain ⟨es, _, hchange⟩ := move_change hc hmove
  exact hchange.balancesFit (holding hc i) (checked hc i) hfit

/-! ## The transaction alone -/

namespace TransferExecutor

theorem throws_selectAccount {db : Db} {accountId : Uuid}
    (hrow : db.accounts.find? accountId = none) (rowById : List (Uuid × ℤ)) :
    Session.Throws (selectAccount rowById accountId) db (.app (accountNotFound accountId)) db := by
  refine Session.throws_bind.mpr (.inr ⟨_, db, Session.does_query _ _ _, ?_⟩)
  rw [hrow]
  rfl

/-- Both accounts are looked for in lock order; the call throws at the first that is not there. -/
theorem throws_move_accountNotFound {db : Db} {transfer : TransferRow} {fromAccountId : Uuid}
    {accountId : Uuid} {rest : List Uuid} {rowById : List (Uuid × ℤ)} {s : Shared} {i : Pid}
    (hpc : (ExecutePc.lockRows accountId rest rowById).Holding s i transfer fromAccountId)
    (hdb : s.db = db) (hrow : db.accounts.find? accountId = none) (now : Date) :
    Session.Throws (move transfer fromAccountId now) db (.app (accountNotFound accountId)) db := by
  refine Session.throws_bind.mpr (.inl ?_)
  subst hdb
  rcases hpc with ⟨rfl, rfl, rfl⟩ | ⟨rfl, rfl, _, row, hfirst, rfl⟩
  · exact Session.throws_bind.mpr (.inl (throws_selectAccount hrow []))
  · refine Session.throws_bind.mpr (.inr ⟨_, _, does_selectAccount hfirst [], ?_⟩)
    exact Session.throws_bind.mpr (.inl (throws_selectAccount hrow _))

/-- A rejection is an `UnprocessableError`. -/
theorem unprocessable_of_verdict {db : Db} {transfer : TransferRow} {fromAccountId : Uuid}
    {rowById : List (Uuid × ℤ)} {err : AppError}
    (h : verdict db transfer fromAccountId rowById = some err) :
    (Thrown.app err).unprocessable? = some err := by
  unfold verdict at h
  split at h
  · cases h
    rfl
  · split at h
    · cases h
      rfl
    · split at h <;> cases h
      rfl

section Alone

variable {db : Db} {transfer : TransferRow} {source destination : AccountRow}
  (hfrom : transfer.fromAccountId = some source.id)
  (hsource : db.accounts.find? source.id = some source)
  (hdestination : db.accounts.find? transfer.toAccountId = some destination)
  (hfit : db.BalancesFit) (hfunds : transfer.amountCents.cents ≤ source.balanceCents)

include hfrom hsource hdestination hfit hfunds

/-- The debit, and what the credit then finds. -/
theorem debit_eq : ∃ debited,
    db.addToBalance source.id (-transfer.amountCents.cents) = .ok debited ∧
      debited = { db with
        accounts := db.accounts.put (source.add (-transfer.amountCents.cents)) } ∧
      debited.accounts.find? transfer.toAccountId = some destination := by
  have hsourceFits := hfit source (Table.mem_of_find? hsource)
  have hne : source.id ≠ transfer.toAccountId :=
    fun h => transfer.distinct (hfrom.trans (h ▸ rfl))
  refine ⟨_, addToBalance_eq hsource (by omega) (by omega), rfl, ?_⟩
  change (db.accounts.put _).find? _ = _
  rw [Table.find?_put_of_ne (by exact hne), hdestination]

variable (hlocks : db.activeLocks source.id transfer.toAccountId = [])

include hlocks

/-- Without room for the credit the transaction throws at it. -/
theorem throws_move_overflow
    (hover : overflows db transfer.toAccountId transfer.amountCents.cents) (now : Date) :
    ∃ db', Session.Throws (move transfer source.id now) db (.error "bigint out of range") db' := by
  obtain ⟨rowById, hlookup, hselect⟩ := does_selectAccounts hfrom hsource hdestination
  obtain ⟨debited, hdebit, _, hfind⟩ :=
    debit_eq hfrom hsource hdestination hfit hfunds
  have hcredit : debited.addToBalance transfer.toAccountId transfer.amountCents.cents =
      .error (.error "bigint out of range") := by
    rw [overflows_eq hdestination, decide_eq_true_eq] at hover
    unfold Db.addToBalance
    rw [hfind]
    exact if_pos hover
  refine ⟨debited, Session.throws_bind.mpr (.inr ⟨rowById, db, hselect, ?_⟩)⟩
  refine Session.throws_bind.mpr (.inr ⟨_, db, Session.does_query _ _ _, ?_⟩)
  rw [verdict_of_funds hlookup hlocks hfunds]
  refine Session.throws_bind.mpr (.inr ⟨(), debited, Session.does_execute.mpr hdebit, ?_⟩)
  exact Session.throws_bind.mpr (.inl (Session.throws_execute hcredit))

/-- With room for it the transaction installs the versions that a run of the system commits. -/
theorem does_move (hroom : overflows db transfer.toAccountId transfer.amountCents.cents = false)
    {row : TransferRow} (hrow : db.transfers.find? transfer.id = some row) (now : Date) :
    Session.Does (move transfer source.id now) db (row.complete now) { db with
      accounts := (db.accounts.put (source.add (-transfer.amountCents.cents))).put
        (destination.add transfer.amountCents.cents)
      transfers := db.transfers.put (row.complete now) } := by
  obtain ⟨rowById, _, hdoes, hlookup⟩ := does_checks hfrom hsource hdestination now
  obtain ⟨debited, hdebit, rfl, hfind⟩ :=
    debit_eq hfrom hsource hdestination hfit hfunds
  have hfits := hfit destination (Table.mem_of_find? hdestination)
  have hid : destination.id = transfer.toAccountId := Table.key_of_find? hdestination
  rw [overflows_eq hdestination, decide_eq_false_iff_not, not_lt] at hroom
  rw [← hid] at hfind hdoes
  have hcredit := addToBalance_eq hfind
    (show 0 ≤ destination.balanceCents + (transfer.amountCents.cents : ℤ) by omega) hroom
  have hmove := hdoes _ _ (verdict_of_funds hlookup hlocks hfunds) hdebit hcredit row hrow
  simpa only [Table.update, hrow] using hmove

end Alone

end TransferExecutor

/-! ## The transaction among others -/

/-- The transaction of a run of `execute` ends: how the run goes on, and what the callback of
`db.transaction` does alone from `db` to `db'`. -/
inductive EndsAs (transfer : TransferRow) (fromAccountId : Uuid) (now : Date) (db db' : Db) :
    ProcessorPc → Prop
  | returned {row} :
      Session.Does (TransferExecutor.move transfer fromAccountId now) db row db' →
      EndsAs transfer fromAccountId now db db' (.acknowledge .returned)
  | rejected {err copy} : (Thrown.app err).unprocessable? = some err →
      Session.Throws (TransferExecutor.move transfer fromAccountId now) db (.app err) copy →
      db' = db →
      EndsAs transfer fromAccountId now db db' (.executing transfer fromAccountId (.markFailed err))
  | threw {thrown copy} : thrown.unprocessable? = none →
      Session.Throws (TransferExecutor.move transfer fromAccountId now) db thrown copy →
      db' = db →
      EndsAs transfer fromAccountId now db db' (.acknowledge (.threw thrown))

section Among

variable {s s₁ : Shared} {i : Pid} {transfer : TransferRow} {fromAccountId : Uuid} {c : Choice}

/-- A statement goes on with the transaction and leaves the database alone, or it ends the
transaction. -/
theorem atomic_next {pc : ExecutePc} (hfrom : transfer.fromAccountId = some fromAccountId)
    (hstored : s.db.stores transfer) (hpc : pc.Holding s i transfer fromAccountId)
    (hchecked : pc.Checked s.db transfer fromAccountId) (hfit : s.db.BalancesFit)
    (hmark : ∀ err, pc ≠ .markFailed err)
    (happ : s.apply i (TransferExecutor.next s i transfer fromAccountId c pc).1 = some s₁) :
    (s₁.db = s.db ∧ ∃ pc', (TransferExecutor.next s i transfer fromAccountId c pc).2.2 =
        .executing transfer fromAccountId pc' ∧ ∀ err, pc' ≠ .markFailed err) ∨
      ∃ now, EndsAs transfer fromAccountId now s.db s₁.db
        (TransferExecutor.next s i transfer fromAccountId c pc).2.2 := by
  cases pc with
  | lockRows accountId rest rowById =>
    simp only [TransferExecutor.next] at happ ⊢
    cases hrow : s.db.accounts.find? accountId with
    | none =>
      rw [hrow] at happ
      obtain rfl := Option.some.inj happ
      exact .inr ⟨c.now, .threw rfl
        (TransferExecutor.throws_move_accountNotFound hpc rfl hrow c.now) rfl⟩
    | some row =>
      rw [hrow] at happ
      obtain ⟨t, _, rfl⟩ := Option.map_eq_some_iff.mp happ
      refine .inl ⟨rfl, _, rfl, ?_⟩
      cases rest <;> simp [TransferExecutor.lockRest]
  | readLocks rowById =>
    obtain ⟨source, destination, hboth, hmap⟩ := hpc
    obtain rfl : source.id = fromAccountId := Table.key_of_find? hboth.source_row
    simp only [TransferExecutor.next] at happ ⊢
    cases hv : TransferExecutor.verdict s.db transfer source.id rowById with
    | none =>
      rw [hv] at happ
      obtain rfl := Option.some.inj happ
      exact .inl ⟨rfl, _, rfl, by simp⟩
    | some err =>
      rw [hv] at happ
      obtain rfl := Option.some.inj happ
      obtain ⟨rowById', hthrows, _, hmap'⟩ :=
        does_checks hfrom hboth.source_row hboth.destination_row c.now
      have hthrows' := hthrows err ((verdict_congr (hmap'.trans hmap.symm)).trans hv)
      exact .inr ⟨c.now, .rejected (TransferExecutor.unprocessable_of_verdict hv) hthrows' rfl⟩
  | debit readAt =>
    obtain rfl := Option.some.inj happ
    exact .inl ⟨rfl, _, rfl, by simp⟩
  | credit readAt ws =>
    obtain ⟨source, destination, hboth, hfunds, rfl⟩ := hpc
    obtain rfl : source.id = fromAccountId := Table.key_of_find? hboth.source_row
    simp only [TransferExecutor.next] at happ ⊢
    split
    · next hover =>
      rw [if_pos hover] at happ
      obtain rfl := Option.some.inj happ
      obtain ⟨copy, hthrows⟩ := TransferExecutor.throws_move_overflow hfrom hboth.source_row
        hboth.destination_row hfit hfunds hchecked hover c.now
      exact .inr ⟨c.now, .threw rfl hthrows rfl⟩
    · next hover =>
      rw [if_neg hover] at happ
      obtain rfl := Option.some.inj happ
      exact .inl ⟨rfl, _, rfl, by simp⟩
  | complete readAt ws =>
    obtain ⟨row, hrow, _⟩ := mem_stores hstored
    simp only [TransferExecutor.next, hrow] at happ ⊢
    obtain ⟨t, _, rfl⟩ := Option.map_eq_some_iff.mp happ
    exact .inl ⟨rfl, _, rfl, by simp⟩
  | commit readAt ws completed =>
    obtain ⟨source, destination, hboth, hfunds, rfl, _, row, now, hrow, rfl⟩ := hpc
    obtain rfl : source.id = fromAccountId := Table.key_of_find? hboth.source_row
    simp only [TransferExecutor.next, Shared.apply, accountVersions, List.cons_append,
      List.nil_append, Db.install_cons, Db.install_nil, Db.write, Option.bind_some,
      Option.map_some, Option.some.injEq] at happ
    subst happ
    exact .inr ⟨now, .returned (TransferExecutor.does_move hfrom hboth.source_row
      hboth.destination_row hfit hfunds hchecked.1 hchecked.2 hrow now)⟩
  | markFailed err => exact absurd rfl (hmark err)

/-- The update behind a rejection is that of the call alone. -/
theorem atomic_markFailed {err : AppError} (hstored : s.db.stores transfer)
    (herr : (Thrown.app err).unprocessable? = some err)
    (happ : s.apply i
      (TransferExecutor.next s i transfer fromAccountId c (.markFailed err)).1 = some s₁) :
    Session.Does (TransferExecutor.markFailed transfer.id (.app err) c.now) s.db () s₁.db := by
  obtain ⟨row, hrow, _⟩ := mem_stores hstored
  simp only [TransferExecutor.next, hrow, Shared.apply, Db.install_cons, Db.install_nil, Db.write,
    Option.bind_some, Option.map_some, Option.ite_none_right_eq_some, Option.some.injEq] at happ
  obtain ⟨_, rfl⟩ := happ
  have hmark := does_markFailed transfer.id (.app err) c.now s.db
  rw [herr] at hmark
  simpa only [Table.update, hrow] using hmark

end Among

/-- A run comes to the update behind a rejection from the checks that rejected it. -/
theorem Arrives.unprocessable {s : Shared} {i : Pid} {job : Option String} {transfer : TransferRow}
    {fromAccountId : Uuid} {err : AppError} {p : Proc} {a : Label} {m : Move}
    (h : Arrives s i job transfer fromAccountId (.markFailed err) p a m) :
    (Thrown.app err).unprocessable? = some err := by
  have hstart : TransferExecutor.start transfer =
      .executing transfer fromAccountId (.markFailed err) → False := by
    intro hstart
    unfold TransferExecutor.start at hstart
    split at hstart <;> cases hstart
  cases h with
  | @next c pc₀ m hnext =>
    cases pc₀ with
    | readLocks rowById =>
      simp only [TransferExecutor.next] at hnext
      cases hv : TransferExecutor.verdict s.db transfer fromAccountId rowById with
      | none => simp [hv] at hnext
      | some err' =>
        obtain rfl : err' = err := by simpa [hv] using congrArg (·.2.2) hnext
        exact TransferExecutor.unprocessable_of_verdict hv
    | _ => simp only [TransferExecutor.next, TransferExecutor.lockRest] at hnext; grind
  | selected _ _ h _ _ => exact (hstart h).elim
  | called h _ _ _ => exact (hstart h).elim

theorem unprocessable_of_markFailed {deps : Dependencies} {ok : Guard} {db : Db} {c : State}
    (h : Reaches deps ok db c) {i : Pid} {job : Option String} {transfer : TransferRow}
    {fromAccountId : Uuid} {err : AppError}
    (hlocal : c.locals i = .processor job (.executing transfer fromAccountId (.markFailed err))) :
    (Thrown.app err).unprocessable? = some err := by
  revert i job transfer fromAccountId err
  refine h.invariant (fun _ => True) (fun c => ∀ {i job transfer fromAccountId err},
    c.locals i = .processor job (.executing transfer fromAccountId (.markFailed err)) →
      (Thrown.app err).unprocessable? = some err) (fun _ _ => trivial) (by simp [State.init]) ?_
  intro c j a c' _ hinv _ hmove i job transfer fromAccountId err hlocal
  obtain ⟨s, p, hstep, rfl⟩ := Interleaving.move_eq_some.mp hmove
  obtain ⟨m, s₁, hact, _, rfl, rfl⟩ := step_eq_some.mp hstep
  have hlocal : Function.update c.locals j m.next i = _ := hlocal
  by_cases hij : i = j
  · subst hij
    rw [Function.update_self] at hlocal
    exact (acts_executing (acts_of_act hact) hlocal).unprocessable
  · rw [Function.update_of_ne hij] at hlocal
    exact hinv hlocal

/-- In every run, whatever the other processes do between its statements, a run of `execute` leaves
the database alone until its transaction ends; then it does what the callback of `db.transaction`
does alone on the database of that moment. The update behind a rejection is that of `markFailed`. -/
theorem execute_atomic (deps : Dependencies) (db : Db) (hdb : db.BalancesFit) (c c' : State)
    (i : Pid) (choice : Choice) (job : Option String) (transfer : TransferRow)
    (fromAccountId : Uuid) (pc : ExecutePc) (h : Reaches deps Interleaving.anyStep db c)
    (hlocal : c.locals i = .processor job (.executing transfer fromAccountId pc))
    (hmove : (system deps).move c i (.next choice) = some c') :
    ∃ q, c'.locals i = .processor job q ∧
      ((∀ err, pc ≠ .markFailed err) →
        (c'.shared.db = c.shared.db ∧
          ∃ pc', q = .executing transfer fromAccountId pc' ∧ ∀ err, pc' ≠ .markFailed err) ∨
        ∃ now, EndsAs transfer fromAccountId now c.shared.db c'.shared.db q) ∧
      ∀ err, pc = .markFailed err → q = .acknowledge .returned ∧
        Session.Does (TransferExecutor.markFailed transfer.id (.app err) choice.now) c.shared.db ()
          c'.shared.db := by
  obtain ⟨s, p, hstep, rfl⟩ := Interleaving.move_eq_some.mp hmove
  obtain ⟨m, s₁, hact, happ, rfl, rfl⟩ := step_eq_some.mp hstep
  have hholding := holding h i
  have hchecked := checked h i
  rw [hlocal] at hholding hchecked hact
  rw [act_next] at hact
  obtain rfl := Option.some.inj hact
  obtain ⟨hfrom, hstored, hpc⟩ := hholding
  have happ : c.shared.apply i
    (TransferExecutor.next c.shared i transfer fromAccountId choice pc).1 = some s₁ := happ
  refine ⟨_, Function.update_self _ _ _, fun hmark => ?_, fun err herr => ?_⟩
  · have hnext := atomic_next hfrom hstored hpc hchecked (reaches_balancesFit hdb h) hmark happ
    exact hnext
  · subst herr
    have hmarked := atomic_markFailed hstored (unprocessable_of_markFailed h hlocal) happ
    exact ⟨rfl, hmarked⟩

/-- The commit of a transfer during whose transaction another account was opened. -/
theorem execute_atomic_overlapping : ∃ (c c' : State) (q : ProcessorPc) (now : Date),
    c'.shared.db.accounts.rows.map AccountRow.balanceCents = [10, 50, 0] ∧
      EndsAs sampleTransfer ⟨1⟩ now c.shared.db c'.shared.db q := by
  have hrun : (((system sampleDeps).moves Interleaving.anyStep
      (State.init (Db.seeded sampleCustomers)) overlappingRun.dropLast).bind fun c =>
        ((system sampleDeps).move c 0 (.next (chosen 3))).map fun c' =>
          (c.locals 0, c.shared.db.accounts.rows.map AccountRow.balanceCents,
            c'.shared.db.accounts.rows.map AccountRow.balanceCents)) =
      some (.processor none (.executing sampleTransfer ⟨1⟩
        (.commit 5 (accountVersions sampleTransfer ⟨⟨1⟩, ⟨9⟩, 60⟩ ⟨⟨2⟩, ⟨9⟩, 0⟩)
          (sampleTransfer.complete 0))), [60, 0, 0], [10, 50, 0]) := by decide
  obtain ⟨c, hc, hrest⟩ := Option.bind_eq_some_iff.mp hrun
  obtain ⟨c', hmove, hstates⟩ := Option.map_eq_some_iff.mp hrest
  simp only [Prod.mk.injEq] at hstates
  obtain ⟨hlocal, hbefore, hafter⟩ := hstates
  obtain ⟨q, _, hends, _⟩ := execute_atomic sampleDeps (Db.seeded sampleCustomers)
    (by simp [Db.BalancesFit, Db.seeded, Table.empty]) c c' 0 (chosen 3) none sampleTransfer ⟨1⟩ _
    (.of_moves .refl hc) hlocal hmove
  rcases hends (by simp) with ⟨hdb, _⟩ | ⟨now, hends⟩
  · rw [hdb, hbefore] at hafter
    exact absurd hafter (by decide)
  · exact ⟨c, c', q, now, hafter, hends⟩

end BankPlatform.Bank
