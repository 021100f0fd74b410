import BankPlatform.Bank.Conservation
import BankPlatform.Bank.Delivery

/-!
# Balances as numbers

The request schemas bound every deposit and every amount, not what they add up to. As long as every
credit leaves its account within the exact integers, each balance reads back as it is stored and the
next credit fits the column; the first credit that does not, ends this.

## Main definitions

* `Db.Exact` — the balances read back exactly, and have room for a credit.
* `creditsFit` — the runs whose credits stay within the exact integers.

## Main results

* `balances_exact_iff` — the balances stay exact as long as the credits fit, and no longer.
-/

namespace BankPlatform.Bank

open Library

/-- Every balance is at most `Number.MAX_SAFE_INTEGER`; so it reads back as it is stored, and no
credit that the schemas admit overflows it. -/
structure Db.Exact (db : Db) : Prop where
  bounded : ∀ r ∈ db.accounts.rows, r.balanceCents ≤ JsNumber.maxSafeInteger
  read : ∀ r ∈ db.accounts.rows, r.balanceNumber = r.balanceCents
  room : ∀ accountId (amountCents : PositiveCents),
    TransferExecutor.overflows db accountId amountCents.cents = false

theorem exact_iff {db : Db} (hnonneg : ∀ r ∈ db.accounts.rows, 0 ≤ r.balanceCents) :
    db.Exact ↔ ∀ r ∈ db.accounts.rows, r.balanceCents ≤ JsNumber.maxSafeInteger := by
  refine ⟨Db.Exact.bounded, fun hbounded => ⟨hbounded, fun r hr => ?_, fun accountId amount => ?_⟩⟩
  · obtain ⟨n, hn⟩ := Int.eq_ofNat_of_zero_le (hnonneg r hr)
    have hle := hbounded r hr
    rw [AccountRow.balanceNumber, hn, JsNumber.ofInt_natCast, JsNumber.ofNat_of_le]
    rw [hn] at hle
    have hmax : JsNumber.maxSafeInteger ≤ 2 ^ 53 := by decide
    omega
  · unfold TransferExecutor.overflows
    cases hrow : db.accounts.find? accountId with
    | none => rfl
    | some row =>
      have hle := hbounded row (Table.mem_of_find? hrow)
      have hamount := amount.safe
      have hmax : 2 * (JsNumber.maxSafeInteger : ℤ) ≤ maxBigint := by decide
      simp only [decide_eq_false_iff_not, not_lt]
      omega

/-- A commit of `execute` leaves its destination within the exact integers. -/
def creditsFit : Guard := fun c i a =>
  (match c.locals i, a with
    | .processor _ (.executing transfer _ (.commit _ _ _)), .next _ =>
      (c.shared.db.accounts.find? transfer.toAccountId).all fun row =>
        decide (row.balanceCents + (transfer.amountCents.cents : ℤ) ≤
          (JsNumber.maxSafeInteger : ℤ))
    | _, _ => true) = true

instance (c : State) (i : Pid) (a : Label) : Decidable (creditsFit c i a) :=
  inferInstanceAs (Decidable (_ = true))

/-- Every balance is at most `Number.MAX_SAFE_INTEGER`. -/
def Db.Bounded (db : Db) : Prop :=
  ∀ r ∈ db.accounts.rows, r.balanceCents ≤ JsNumber.maxSafeInteger

/-- A step that records only silent events is no commit of `execute`. -/
theorem creditsFit_of_silent {deps : Dependencies} {c c' : State} {i : Pid} {a : Label}
    {es : List Event} (hmove : (system deps).move c i a = some c')
    (hlog : c'.shared.log = c.shared.log ++ es) (hes : ∀ e ∈ es, e.silent) : creditsFit c i a := by
  obtain ⟨s, p, hstep, rfl⟩ := Interleaving.move_eq_some.mp hmove
  obtain ⟨m, s₁, hact, happ, rfl, rfl⟩ := step_eq_some.mp hstep
  have hevents : m.events = es := by simpa [apply_log happ] using hlog
  unfold creditsFit
  split
  · next job transfer fromAccountId readAt ws completed ch hlocal =>
    rw [hlocal] at hact
    obtain rfl := Option.some.inj hact
    have hsilent := hes (.moved transfer fromAccountId readAt)
      (by rw [← hevents]; exact List.mem_singleton_self _)
    cases hsilent
  · rfl

/-- The accounts behind a transfer. -/
theorem bounded_moved_iff {s : Shared} {i : Pid} {transfer : TransferRow} {fromAccountId : Uuid}
    {source destination : AccountRow}
    (hboth : BothLocked s i transfer fromAccountId source destination) (hbounded : s.db.Bounded) :
    (∀ r ∈ ((s.db.accounts.put (source.add (-transfer.amountCents.cents))).put
        (destination.add transfer.amountCents.cents)).rows,
      r.balanceCents ≤ JsNumber.maxSafeInteger) ↔
      destination.balanceCents + transfer.amountCents.cents ≤ (JsNumber.maxSafeInteger : ℤ) := by
  have hid : destination.id = transfer.toAccountId := Table.key_of_find? hboth.destination_row
  constructor
  · intro hall
    have hthere : ((s.db.accounts.put (source.add (-transfer.amountCents.cents))).find?
        destination.id).isSome = true := by
      rw [Table.isSome_find?_put, hid, hboth.destination_row]
      rfl
    obtain ⟨row, hrow⟩ := Option.isSome_iff_exists.mp hthere
    refine hall (destination.add transfer.amountCents.cents)
      (Table.mem_of_find? (k := destination.id) ?_)
    rw [Table.find?_put, if_pos (by exact rfl), hrow]
    rfl
  · intro hfits r hr
    rcases Table.mem_put hr with hr | rfl
    · rcases Table.mem_put hr with hr | rfl
      · exact hbounded r hr
      · have hsource := hbounded source (Table.mem_of_find? hboth.source_row)
        rw [add_balanceCents]
        omega
    · exact hfits

/-- The accounts stay bounded in a step exactly if it is not a commit that credits too much. -/
theorem bounded_step_iff {deps : Dependencies} {ok : Guard} {db : Db} {c c' : State} {i : Pid}
    {a : Label} (h : Reaches deps ok db c) (hmove : (system deps).move c i a = some c')
    (hbounded : c.shared.db.Bounded) : c'.shared.db.Bounded ↔ creditsFit c i a := by
  obtain ⟨es, hlog, hchange⟩ := move_change h hmove
  have hsilent := creditsFit_of_silent hmove hlog
  unfold creditsFit at hsilent ⊢
  generalize c'.shared.db = db', c.locals i = p at hchange hsilent ⊢
  cases hchange with
  | quiet hes => exact iff_of_true hbounded (hsilent hes)
  | @moved job transfer fromAccountId readAt ws completed source destination row now ch hfrom hboth =>
    change Db.Bounded _ ↔ (c.shared.db.accounts.find? transfer.toAccountId).all _ = true
    rw [hboth.destination_row, Option.all_some, decide_eq_true_iff]
    exact bounded_moved_iff hboth hbounded
  | @opened customerId ws ch ch' db' account deposit _ hbalance hinstall =>
    refine iff_of_true ?_ rfl
    obtain ⟨t, ht, hcase⟩ := install_openingWrites hinstall
    have hrows : ∀ r ∈ t.rows, r.balanceCents ≤ JsNumber.maxSafeInteger := by
      intro r hr
      rcases (Table.mem_insert? ht).mp hr with hr | rfl
      · exact hbounded r hr
      · have hsafe := deposit.safe
        omega
    rcases hcase with ⟨_, rfl⟩ | ⟨_, u, _, rfl⟩ <;> exact hrows
  | inserted _ hwrite =>
    obtain ⟨_, t, _, rfl⟩ := write_insertTransfer hwrite
    exact iff_of_true hbounded rfl
  | rejected _ _ _ _ | locked _ _ _ _ | released _ _ | commented => exact iff_of_true hbounded rfl

/-- In every run whose credits fit the balances are exact, and stay so in the next step exactly if
its credit fits. -/
theorem balances_exact_iff (deps : Dependencies) (customers : Table CustomerRow) (c : State)
    (h : Reaches deps creditsFit (Db.seeded customers) c) :
    c.shared.db.Exact ∧ ∀ i a c', (system deps).move c i a = some c' →
      (c'.shared.db.Exact ↔ creditsFit c i a) := by
  have hbounded : c.shared.db.Bounded := by
    refine h.invariant (Reaches deps creditsFit (Db.seeded customers))
      (fun c => c.shared.db.Bounded) (fun _ hc => hc) ?_ ?_
    · intro r hr
      cases hr
    · exact fun c i a c' hc hb hok hmove => (bounded_step_iff hc hmove hb).mpr hok
  have hbalanced := reaches_balanced_of (balanced_seeded customers) h.any
  refine ⟨(exact_iff hbalanced.nonneg).mpr hbounded, fun i a c' hmove => ?_⟩
  have hbalanced' := reaches_balanced_of (balanced_seeded customers) (h.any.step trivial hmove)
  exact (exact_iff hbalanced'.nonneg).trans (bounded_step_iff h hmove hbounded)

theorem balances_exact_transfer : ∃ c,
    Reaches sampleDeps creditsFit (Db.seeded sampleCustomers) c ∧
    c.shared.db.accounts.rows.map AccountRow.balanceCents = [10, 50] ∧ c.shared.db.Exact ∧
    ∀ i a c', (system sampleDeps).move c i a = some c' →
      (c'.shared.db.Exact ↔ creditsFit c i a) := by
  have hrun : ((system sampleDeps).moves creditsFit (State.init (Db.seeded sampleCustomers))
      (openAccounts ++ executed (sampleInput "key"))).map
        (fun c => c.shared.db.accounts.rows.map AccountRow.balanceCents) = some [10, 50] := by decide
  obtain ⟨c, hc, hbalances⟩ := Option.map_eq_some_iff.mp hrun
  have hreach : Reaches sampleDeps creditsFit (Db.seeded sampleCustomers) c := .of_moves .refl hc
  exact ⟨c, hreach, hbalances, balances_exact_iff sampleDeps sampleCustomers c hreach⟩

/-- Two accounts are opened with as much money as a deposit can bring, and two cents move from one
to the other. -/
def largeDeposits : List (Pid × Label) :=
  let deposit : NonNegativeCents := ⟨JsNumber.maxSafeInteger, le_refl _⟩
  [(0, .start (.createAccount ⟨9⟩ deposit)), (0, .next (chosen 1)), (0, .next (chosen 1)),
    (0, .next (chosen 4)), (0, .next (chosen 1)), (0, .start (.createAccount ⟨9⟩ deposit)),
    (0, .next (chosen 2)), (0, .next (chosen 2)), (0, .next (chosen 5)), (0, .next (chosen 2))] ++
  executed ⟨"key", ⟨1⟩, ⟨2⟩, ⟨2, by decide, by decide⟩⟩

/-- The second account then has more than `Number.MAX_SAFE_INTEGER`, and an even number is read. -/
theorem balance_grows_inexact : ¬ ∀ (customers : Table CustomerRow) (c : State),
    Reaches sampleDeps Interleaving.anyStep (Db.seeded customers) c → c.shared.db.Exact := by
  intro hclaim
  have hrun : ((system sampleDeps).moves Interleaving.anyStep
      (State.init (Db.seeded sampleCustomers)) largeDeposits).map (fun c =>
        c.shared.db.accounts.rows.map fun r => (r.balanceCents, r.balanceNumber)) =
      some [(2 ^ 53 - 3, 2 ^ 53 - 3), (2 ^ 53 + 1, 2 ^ 53)] := by decide
  obtain ⟨c, hc, hbalances⟩ := Option.map_eq_some_iff.mp hrun
  have hexact := hclaim sampleCustomers c (.of_moves .refl hc)
  obtain ⟨r, hr, hread⟩ := List.mem_map.mp (hbalances ▸
    (List.mem_cons_of_mem _ (List.mem_singleton_self _)) :
    (2 ^ 53 + 1, 2 ^ 53) ∈ c.shared.db.accounts.rows.map fun r => (r.balanceCents, r.balanceNumber))
  obtain ⟨hbalance, hnumber⟩ := Prod.mk.inj hread
  have hsame := hexact.read r hr
  rw [hbalance, hnumber] at hsame
  omega

end BankPlatform.Bank
