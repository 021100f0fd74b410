import BankPlatform.Bank.Locking

/-!
# Conservation of money

No interleaving of service calls creates or destroys money, and none overdraws an account. The row
locks alone carry the argument: a run of `execute` that has passed its funds check holds both
account rows, so the versions it commits are computed from the balances that its commit replaces.

## Main definitions

* `Db.Balanced` — non-negative balances that add up to the opening deposits.

## Main results

* `reaches_balanced` — the database is balanced in every reachable state.
-/

namespace BankPlatform.Bank

open Library

namespace Db

/-- The money in all accounts. -/
def totalBalanceCents (db : Db) : ℤ := db.accounts.total AccountRow.balanceCents

end Db

/-- What a transfer row counts as an opening deposit. -/
def TransferRow.depositCents (r : TransferRow) : ℤ :=
  if r.fromAccountId = none ∧ r.status = .completed then r.amountCents.cents else 0

/-- Balances are non-negative and add up to the completed opening deposits. -/
structure Db.Balanced (db : Db) : Prop where
  nonneg : ∀ r ∈ db.accounts.rows, 0 ≤ r.balanceCents
  total : db.totalBalanceCents = db.transfers.total TransferRow.depositCents

theorem balanced_seeded (customers : Table CustomerRow) : (Db.seeded customers).Balanced :=
  ⟨by simp [Db.seeded, Table.empty], rfl⟩

theorem TransferRow.depositCents_of_source {r : TransferRow} {a : Uuid}
    (h : r.fromAccountId = some a) : r.depositCents = 0 := by
  simp [depositCents, h]

@[simp] theorem add_balanceCents (r : AccountRow) (cents : ℤ) :
    (r.add cents).balanceCents = r.balanceCents + cents := rfl

@[simp] theorem add_id (r : AccountRow) (cents : ℤ) : (r.add cents).id = r.id := rfl

/-- Replacing a row that has a source account leaves the opening deposits alone. -/
theorem total_depositCents_put {t : Table TransferRow} {row x : TransferRow} {a : Uuid}
    (hrow : t.find? x.id = some row) (hfrom : row.fromAccountId = some a)
    (hsame : row.SameRequest x) :
    (t.put x).total TransferRow.depositCents = t.total TransferRow.depositCents := by
  rw [Table.total_put hrow, TransferRow.depositCents_of_source hfrom,
    TransferRow.depositCents_of_source (hsame.fromAccountId_eq.symm.trans hfrom)]
  ring

/-- A transfer debits what it credits. -/
theorem total_balance_moved {s : Shared} {i : Pid} {transfer : TransferRow} {fromAccountId : Uuid}
    {source destination : AccountRow} (hfrom : transfer.fromAccountId = some fromAccountId)
    (h : BothLocked s i transfer fromAccountId source destination) (cents : ℤ) :
    ((s.db.accounts.put (source.add (-cents))).put (destination.add cents)).total
      AccountRow.balanceCents = s.db.totalBalanceCents := by
  have hs : source.id = fromAccountId := Table.key_of_find? h.source_row
  have hd : destination.id = transfer.toAccountId := Table.key_of_find? h.destination_row
  have hne : source.id ≠ destination.id := by
    rw [hs, hd]
    exact fun h => transfer.distinct (hfrom.trans (h ▸ rfl))
  have hsource : s.db.accounts.find? (Keyed.key (source.add (-cents))) = some source := by
    simpa [hs] using h.source_row
  have hdest : (s.db.accounts.put (source.add (-cents))).find?
      (Keyed.key (destination.add cents)) = some destination := by
    rw [Table.find?_put_of_ne (by simpa using hne)]
    simpa [hd] using h.destination_row
  rw [Table.total_put hdest, Table.total_put hsource]
  simp only [add_balanceCents, Db.totalBalanceCents]
  ring

/-- Every change of the database keeps it balanced. -/
theorem Change.balanced {deps : Dependencies} {s : Shared} {i : Pid} {p : Proc} {a : Label}
    {db : Db} {es : List Event} (h : Change deps s i p a db es) (hb : s.db.Balanced) :
    db.Balanced := by
  cases h with
  | quiet _ => exact hb
  | @moved job transfer fromAccountId readAt ws completed source destination row now c hfrom
      hboth hfunds hlock hrow hsame hc =>
    subst hc
    have hid : transfer.id = (row.complete now).id := (Table.key_of_find? hrow).symm
    refine ⟨fun r hr => ?_, ?_⟩
    · rcases Table.mem_put hr with hr | rfl
      · rcases Table.mem_put hr with hr | rfl
        · exact hb.nonneg r hr
        · rw [add_balanceCents]
          omega
      · have := hb.nonneg destination (Table.mem_of_find? hboth.destination_row)
        rw [add_balanceCents]
        omega
    · change Table.total _ _ = _
      rw [total_balance_moved hfrom hboth, hb.total,
        total_depositCents_put (hid ▸ hrow)
          (hsame.fromAccountId_eq.trans hfrom) (TransferRow.sameRequest_complete row now)]
  | @rejected job transfer fromAccountId err row now c hfrom havail hrow hsame =>
    have hid : transfer.id = (row.fail err.code now).id := (Table.key_of_find? hrow).symm
    refine ⟨hb.nonneg, ?_⟩
    rw [total_depositCents_put (hid ▸ hrow)
      (hsame.fromAccountId_eq.trans hfrom) (TransferRow.sameRequest_fail row err.code now)]
    exact hb.total
  | @opened customerId ws c c' db' account deposit hlock hbalance hinstall =>
    obtain ⟨t, ht, hcase⟩ := install_openingWrites hinstall
    have hnonneg : ∀ r ∈ t.rows, 0 ≤ r.balanceCents := by
      intro r hr
      rcases (Table.mem_insert? ht).mp hr with hr | rfl
      · exact hb.nonneg r hr
      · omega
    have htotal : t.total AccountRow.balanceCents = s.db.totalBalanceCents + deposit.cents := by
      rw [Table.total_insert? ht, hbalance, Db.totalBalanceCents]
    rcases hcase with ⟨hzero, rfl⟩ | ⟨hpos, u, hu, rfl⟩
    · refine ⟨hnonneg, ?_⟩
      rw [Db.totalBalanceCents, htotal, hb.total, hzero]
      simp
    · refine ⟨hnonneg, ?_⟩
      rw [Db.totalBalanceCents, htotal, hb.total, Table.total_insert? hu]
      simp [TransferRow.depositCents, depositRow]
  | inserted _ hwrite =>
    obtain ⟨_, t, ht, rfl⟩ := write_insertTransfer hwrite
    refine ⟨hb.nonneg, ?_⟩
    rw [Table.total_insert? ht, TransferRow.depositCents_of_source rfl, add_zero]
    exact hb.total
  | locked _ _ _ _ | released _ _ | commented => exact ⟨hb.nonneg, hb.total⟩

theorem reaches_balanced_of {deps : Dependencies} {ok : Guard} {db : Db} (hdb : db.Balanced)
    {c : State} (h : Reaches deps ok db c) : c.shared.db.Balanced :=
  h.invariant (Reaches deps ok db) (fun c => c.shared.db.Balanced)
    (fun _ hc => hc) hdb fun _ _ _ _ hc hb _ hmove =>
      let ⟨_, _, hchange⟩ := move_change hc hmove
      hchange.balanced hb

/-- Under every interleaving of calls, aborts and crashes the committed balances are non-negative
and their sum is the sum of the opening deposits. -/
theorem reaches_balanced (deps : Dependencies) (customers : Table CustomerRow) (c : State)
    (h : Reaches deps Interleaving.anyStep (Db.seeded customers) c) :
    (∀ r ∈ c.shared.db.accounts.rows, 0 ≤ r.balanceCents) ∧
      c.shared.db.totalBalanceCents = c.shared.db.transfers.total TransferRow.depositCents :=
  let hb := reaches_balanced_of (balanced_seeded customers) h
  ⟨hb.nonneg, hb.total⟩

/-- A customer opens an account with 60 and an empty one, and 50 are moved. -/
theorem reaches_balanced_transfer : ∃ c,
    (system sampleDeps).moves Interleaving.anyStep (State.init (Db.seeded sampleCustomers))
      (openAccounts ++ executed (sampleInput "key")) = some c ∧
    c.shared.db.accounts.rows.map AccountRow.balanceCents = [10, 50] ∧
    (∀ r ∈ c.shared.db.accounts.rows, 0 ≤ r.balanceCents) ∧
      c.shared.db.totalBalanceCents = c.shared.db.transfers.total TransferRow.depositCents := by
  have hrun : ((system sampleDeps).moves Interleaving.anyStep
      (State.init (Db.seeded sampleCustomers)) (openAccounts ++ executed (sampleInput "key"))).map
        (fun c => c.shared.db.accounts.rows.map AccountRow.balanceCents) = some [10, 50] := by decide
  obtain ⟨c, hc, hbalance⟩ := Option.map_eq_some_iff.mp hrun
  exact ⟨c, hc, hbalance, reaches_balanced sampleDeps _ c (.of_moves .refl hc)⟩

end BankPlatform.Bank
