import BankPlatform.Bank.Delivery
import BankPlatform.Library.JsNumber
import BankPlatform.Library.Keyset
import Mathlib.Data.List.Pairwise

/-!
# The history of an account

`getHistory` of `apps/app-apis/src/modules/accounts/service.ts`, with `toTransferDto` of
`packages/shared/src/transfers/dto.ts`: the transfers of an account in pages, newest first, while
others go on inserting and updating transfers. The column `seq` is read as a number.

## Main definitions

* `AccountService.getHistory` — one page, `ReadsHistory` — page after page to the end.
* `Db.Continues` — a later state of the database.

## Main results

* `history_complete` — the pages show every transfer once and come to an end, as long as the
  numbers are exact.
-/

namespace BankPlatform.Bank

open Library

inductive TransferType where
  | deposit
  | transfer
  deriving DecidableEq, Repr

structure TransferDto where
  id : Uuid
  type : TransferType
  fromAccountId : Option Uuid
  toAccountId : Uuid
  amountCents : PositiveCents
  status : TransferStatus
  failureReason : Option ErrorCode
  idempotencyKey : Option String
  createdAt : Date
  completedAt : Option Date
  deriving DecidableEq

def toTransferDto (row : TransferRow) : TransferDto where
  id := row.id
  type := if row.fromAccountId = none then .deposit else .transfer
  fromAccountId := row.fromAccountId
  toAccountId := row.toAccountId
  amountCents := row.amountCents
  status := row.status
  failureReason := row.failureReason
  idempotencyKey := row.idempotencyKey
  createdAt := row.createdAt
  completedAt := row.completedAt

structure TransferHistory where
  items : List TransferDto
  nextCursor : Option ℕ
  deriving DecidableEq

/-- The account is the source or the destination. -/
def TransferRow.concerns (accountId : Uuid) (r : TransferRow) : Bool :=
  r.fromAccountId = some accountId || r.toAccountId = accountId

/-- `seq` in JavaScript: the number nearest to the `bigint`. -/
def TransferRow.seqNumber (r : TransferRow) : ℕ := JsNumber.ofNat r.seq

namespace AccountService

def getById (db : Db) (accountId : Uuid) : Except AppError AccountRow :=
  match db.accounts.find? accountId with
  | none => .error (accountNotFound accountId)
  | some account => .ok account

/-- The transfers of an account below a cursor, ordered by falling `seq`. -/
def selectHistory (db : Db) (accountId : Uuid) (cursor : Option ℕ) : List TransferRow :=
  (db.transfers.rows.filter fun r =>
    r.concerns accountId && cursor.all fun cursor => decide (r.seq < cursor)).insertionSort
      fun r r' => r'.seq ≤ r.seq

/-- The first statement sees the database `found`, the second one `db`. -/
def getHistory (found db : Db) (accountId : Uuid) (limit : ℕ) (cursor : Option ℕ) :
    Except AppError TransferHistory := do
  let _ ← getById found accountId
  let rows := (selectHistory db accountId cursor).take (limit + 1)
  let page := rows.take limit
  let nextCursor := if limit < rows.length then page.getLast?.map TransferRow.seqNumber else none
  return ⟨page.map toTransferDto, nextCursor⟩

end AccountService

/-- A call of `getHistory`, with the states of the database that its statements see. -/
structure HistoryCall where
  limit : ℕ
  found : Db
  db : Db

/-- Calls that pass each `nextCursor` on until it is null, and all their items. -/
inductive ReadsHistory (accountId : Uuid) : Option ℕ → List HistoryCall → List TransferDto → Prop
  | last {cursor call items} :
    AccountService.getHistory call.found call.db accountId call.limit cursor =
      .ok ⟨items, none⟩ → ReadsHistory accountId cursor [call] items
  | more {cursor call calls items next rest} :
    AccountService.getHistory call.found call.db accountId call.limit cursor =
      .ok ⟨items, some next⟩ → ReadsHistory accountId (some next) calls rest →
    ReadsHistory accountId cursor (call :: calls) (items ++ rest)

/-- Later, transfers have been inserted and updated: those of before are there, as the same
requests with the same `seq`. -/
def Db.Continues (db db' : Db) : Prop :=
  ∀ r ∈ db.transfers.rows, ∃ r' ∈ db'.transfers.rows, r.SameRequest r'

theorem Db.Continues.of_subset {db db' : Db} (h : db.transfers.rows ⊆ db'.transfers.rows) :
    db.Continues db' :=
  fun r hr => ⟨r, h hr, .refl r⟩

theorem Db.Continues.refl (db : Db) : db.Continues db := .of_subset (List.Subset.refl _)

theorem Db.Continues.trans {db db' db'' : Db} (h : db.Continues db') (h' : db'.Continues db'') :
    db.Continues db'' := by
  intro r hr
  obtain ⟨r', hr', hsame⟩ := h r hr
  obtain ⟨r'', hr'', hsame'⟩ := h' r' hr'
  exact ⟨r'', hr'', hsame.trans hsame'⟩

theorem TransferRow.SameRequest.seq_eq {r r' : TransferRow} (h : r.SameRequest r') :
    r.seq = r'.seq :=
  (congrArg TransferRow.seq h :)

theorem TransferRow.SameRequest.concerns_eq {r r' : TransferRow} (h : r.SameRequest r')
    (accountId : Uuid) : r.concerns accountId = r'.concerns accountId := by
  rw [concerns, concerns, h.fromAccountId_eq, h.toAccountId_eq]

/-- Whatever runs in between, the database continues. -/
theorem reaches_continues {deps : Dependencies} {ok : Guard} {db : Db} {c c' : State}
    (h : Reaches deps ok db c) (h' : (system deps).Run ok c c') :
    c.shared.db.Continues c'.shared.db := by
  refine h'.invariant (Reaches deps ok db) (fun d => c.shared.db.Continues d.shared.db)
    (fun _ hd => h.trans hd) (.refl _) ?_
  intro d i a d' hd hcontinues _ hmove
  obtain ⟨es, _, hchange⟩ := move_change hd hmove
  refine hcontinues.trans fun r hr => ?_
  have hfind : d.shared.db.transfers.find? r.id = some r := Table.find?_key hr
  cases hchange.rowStep r.id with
  | same hsame _ => exact ⟨r, Table.mem_of_find? (hsame.trans hfind), .refl r⟩
  | inserted hnone _ _ _ =>
    rw [hfind] at hnone
    cases hnone
  | @completed _ _ _ _ _ _ _ row now _ _ _ _ _ hrow _ hdb =>
    obtain rfl := Option.some.inj (hfind.symm.trans hrow)
    exact ⟨_, Table.mem_of_find? hdb, TransferRow.sameRequest_complete r now⟩
  | @failed _ _ _ err _ row now _ _ _ _ hrow _ hdb =>
    obtain rfl := Option.some.inj (hfind.symm.trans hrow)
    exact ⟨_, Table.mem_of_find? hdb, TransferRow.sameRequest_fail r err.code now⟩

/-! ## The pages as a keyset pagination -/

/-- The transfers of an account. -/
def Db.transfersOf (db : Db) (accountId : Uuid) : List TransferRow :=
  db.transfers.rows.filter (TransferRow.concerns accountId)

/-- A page of the transfers of an account. -/
def historyPage (db : Db) (accountId : Uuid) (limit : ℕ) (cursor : Option ℕ) :
    Keyset.Page TransferRow ℕ :=
  Keyset.page TransferRow.seq TransferRow.seqNumber limit cursor (db.transfersOf accountId)

theorem selectHistory_eq (db : Db) (accountId : Uuid) (cursor : Option ℕ) :
    AccountService.selectHistory db accountId cursor =
      Keyset.rowsBelow TransferRow.seq cursor (db.transfersOf accountId) := by
  rw [AccountService.selectHistory, Keyset.rowsBelow, Db.transfersOf, List.filter_filter]
  congr 1
  exact List.filter_congr fun r _ => Bool.and_comm _ _

theorem getHistory_eq_ok {found db : Db} {accountId : Uuid} {limit : ℕ} {cursor : Option ℕ}
    {history : TransferHistory} :
    AccountService.getHistory found db accountId limit cursor = .ok history ↔
      (found.accounts.find? accountId).isSome = true ∧
        history.items = (historyPage db accountId limit cursor).items.map toTransferDto ∧
        history.nextCursor = (historyPage db accountId limit cursor).next := by
  unfold AccountService.getHistory AccountService.getById
  rw [selectHistory_eq]
  cases found.accounts.find? accountId with
  | none =>
    constructor
    · intro h
      cases h
    · rintro ⟨h, _⟩
      cases h
  | some account =>
    change Except.ok _ = Except.ok _ ↔ _
    rw [Except.ok.injEq]
    constructor
    · rintro rfl
      exact ⟨rfl, rfl, rfl⟩
    · rintro ⟨_, hitems, hnext⟩
      cases history
      dsimp only at hitems hnext
      rw [hitems, hnext]
      rfl

/-- The items of a history are those of the pages of a keyset pagination. -/
theorem ReadsHistory.reads {accountId : Uuid} {cursor : Option ℕ} {calls : List HistoryCall}
    {items : List TransferDto} (h : ReadsHistory accountId cursor calls items) :
    ∃ rows, items = rows.map toTransferDto ∧
      Keyset.Reads TransferRow.seq TransferRow.seqNumber cursor
        (calls.map fun call => (call.limit, call.db.transfersOf accountId)) rows := by
  induction h with
  | last h =>
    obtain ⟨-, rfl, hnext⟩ := getHistory_eq_ok.mp h
    exact ⟨_, rfl, .last hnext.symm⟩
  | more h _ ih =>
    obtain ⟨-, rfl, hnext⟩ := getHistory_eq_ok.mp h
    obtain ⟨rows, rfl, hreads⟩ := ih
    exact ⟨_, (List.map_append).symm, .more hnext.symm hreads⟩

/-- What a call is given: a positive limit and a table with unique `seq`, of which those of the
account are exact as numbers. -/
structure HistoryCall.Regular (accountId : Uuid) (call : HistoryCall) : Prop where
  limit : 0 < call.limit
  unique : (call.db.transfers.rows.map TransferRow.seq).Nodup
  exact : ∀ r ∈ call.db.transfers.rows, r.concerns accountId = true → r.seqNumber = r.seq

theorem HistoryCall.Regular.keyset {accountId : Uuid} {call : HistoryCall}
    (h : call.Regular accountId) :
    Keyset.Regular TransferRow.seq TransferRow.seqNumber
      (call.limit, call.db.transfersOf accountId) where
  limit := h.limit
  nodup := (List.filter_sublist.map _).nodup h.unique
  exact r hr := h.exact r (List.mem_filter.mp hr).1 (List.mem_filter.mp hr).2

/-- The states of the database in the order in which the calls see them. -/
def statesSeen (calls : List HistoryCall) : List Db :=
  calls.flatMap fun call => [call.found, call.db]

/-- A transfer keeps its `seq`. -/
theorem Db.Continues.seq_eq {db db' : Db} (h : db.Continues db') {r r' : TransferRow}
    (hr : r ∈ db.transfers.rows) (hr' : r' ∈ db'.transfers.rows) (hid : r.id = r'.id) :
    r.seq = r'.seq := by
  obtain ⟨x, hx, hsame⟩ := h r hr
  have hkey : x = r' := by
    apply Option.some.inj
    rw [← Table.find?_key hx, ← Table.find?_key hr']
    exact congrArg db'.transfers.find? (hsame.id_eq.symm.trans hid)
  rw [hsame.seq_eq, hkey]

theorem mem_statesSeen {calls : List HistoryCall} {call : HistoryCall} (h : call ∈ calls) :
    call.db ∈ statesSeen calls :=
  List.mem_flatMap.mpr ⟨call, h, List.mem_cons_of_mem _ List.mem_cons_self⟩

/-- The pages show the transfers of the account in falling order, each once, and all those that
were there before the first page. -/
theorem ReadsHistory.complete {accountId : Uuid} {calls : List HistoryCall} {items : List TransferDto}
    (h : ReadsHistory accountId none calls items)
    (hcalls : ∀ call ∈ calls, call.Regular accountId) {before : Db}
    (hstates : (before :: statesSeen calls).IsChain Db.Continues) :
    ∃ rows : List TransferRow, items = rows.map toTransferDto ∧
      (rows.Pairwise fun r r' => r'.seq < r.seq) ∧
      (items.map TransferDto.id).Nodup ∧
      (∀ r ∈ rows, r.concerns accountId = true ∧ ∃ call ∈ calls, r ∈ call.db.transfers.rows) ∧
      ∀ r ∈ before.transfers.rows, r.concerns accountId = true →
        ∃ item ∈ items, item.id = r.id := by
  obtain ⟨rows, rfl, hreads⟩ := h.reads
  have hregular : ∀ page ∈ calls.map fun call => (call.limit, call.db.transfersOf accountId),
      Keyset.Regular TransferRow.seq TransferRow.seqNumber page := by
    intro page hpage
    obtain ⟨call, hcall, rfl⟩ := List.mem_map.mp hpage
    exact (hcalls call hcall).keyset
  have hfalling := (hreads.decreasing hregular).1
  have hshown : ∀ r ∈ rows, r.concerns accountId = true ∧
      ∃ call ∈ calls, r ∈ call.db.transfers.rows := by
    intro r hr
    obtain ⟨page, hpage, hmem⟩ := hreads.mem hr
    obtain ⟨call, hcall, rfl⟩ := List.mem_map.mp hpage
    obtain ⟨hrow, hconcerns⟩ := List.mem_filter.mp hmem
    exact ⟨hconcerns, call, hcall, hrow⟩
  have htrans : IsTrans Db Db.Continues := ⟨fun _ _ _ => Db.Continues.trans⟩
  have hpairwise := List.isChain_iff_pairwise.mp hstates
  refine ⟨rows, rfl, hfalling, ?_, hshown, fun r hr hconcerns => ?_⟩
  · -- a transfer on two pages would have two numbers
    have hlinear : (statesSeen calls).Pairwise
        fun db db' => db.Continues db' ∨ db'.Continues db :=
      (List.pairwise_cons.mp hpairwise).2.imp .inl
    have hsymm : Std.Symm fun db db' : Db => db.Continues db' ∨ db'.Continues db :=
      ⟨fun _ _ => Or.symm⟩
    rw [List.map_map, List.Nodup, List.pairwise_map]
    refine hfalling.imp_of_mem fun {r r'} hr hr' hlt hid => ?_
    obtain ⟨-, call, hcall, hrow⟩ := hshown r hr
    obtain ⟨-, call', hcall', hrow'⟩ := hshown r' hr'
    have hseq : r.seq = r'.seq := by
      rcases hlinear.forall_of_forall (fun db _ => .inl (.refl db)) (mem_statesSeen hcall)
        (mem_statesSeen hcall') with hcontinues | hcontinues
      · exact hcontinues.seq_eq hrow hrow' hid
      · exact (hcontinues.seq_eq hrow' hrow hid.symm).symm
    omega
  · have hthere : ∀ page ∈ calls.map fun call => (call.limit, call.db.transfersOf accountId),
        ∃ x ∈ page.2, x.seq = r.seq := by
      intro page hpage
      obtain ⟨call, hcall, rfl⟩ := List.mem_map.mp hpage
      obtain ⟨x, hx, hsame⟩ := (List.pairwise_cons.mp hpairwise).1 _ (mem_statesSeen hcall) r hr
      rw [hsame.concerns_eq] at hconcerns
      exact ⟨x, List.mem_filter.mpr ⟨hx, hconcerns⟩, hsame.seq_eq.symm⟩
    obtain ⟨x, hx, hseq⟩ := hreads.complete hregular hthere fun k hk => by cases hk
    obtain ⟨-, call, hcall, hrow⟩ := hshown x hx
    obtain ⟨r', hr', hsame⟩ := (List.pairwise_cons.mp hpairwise).1 _ (mem_statesSeen hcall) r hr
    -- the number is unique in the table that shows it
    have hxr : x = r' := List.inj_on_of_nodup_map (hcalls call hcall).unique hrow hr'
      (hseq.trans hsame.seq_eq)
    exact ⟨_, List.mem_map_of_mem hx, (congrArg TransferRow.id hxr).trans hsame.id_eq.symm⟩

/-- The items of the pages of a keyset pagination are a history. -/
theorem exists_readsHistory_of_reads {db : Db} {accountId : Uuid}
    (haccount : (db.accounts.find? accountId).isSome = true) {cursor : Option ℕ}
    {pages : List (ℕ × List TransferRow)} {rows : List TransferRow}
    (h : Keyset.Reads TransferRow.seq TransferRow.seqNumber cursor pages rows)
    (hpages : ∀ page ∈ pages, page.2 = db.transfersOf accountId) :
    ReadsHistory accountId cursor (pages.map fun page => ⟨page.1, db, db⟩)
      (rows.map toTransferDto) := by
  induction h with
  | last h =>
    obtain rfl := hpages _ List.mem_cons_self
    exact .last (getHistory_eq_ok.mpr ⟨haccount, rfl, h.symm⟩)
  | more h _ ih =>
    obtain rfl := hpages _ List.mem_cons_self
    rw [List.map_append]
    exact .more (getHistory_eq_ok.mpr ⟨haccount, rfl, h.symm⟩)
      (ih fun page hpage => hpages page (List.mem_cons_of_mem _ hpage))

/-- The pages of a fixed table come to an end, whatever their limits are. -/
theorem exists_readsHistory {db : Db} {accountId : Uuid}
    (haccount : (db.accounts.find? accountId).isSome = true)
    (hexact : ∀ r ∈ db.transfers.rows, r.concerns accountId = true → r.seqNumber = r.seq)
    {limits : ℕ → ℕ} (hlimits : ∀ i, 0 < limits i) :
    ∃ count items,
      ReadsHistory accountId none ((List.range count).map fun i => ⟨limits i, db, db⟩) items := by
  have hnamed : ∀ r ∈ db.transfersOf accountId, r.seqNumber = r.seq :=
    fun r hr => hexact r (List.mem_filter.mp hr).1 (List.mem_filter.mp hr).2
  obtain ⟨count, rows, hreads⟩ := Keyset.exists_reads hnamed limits hlimits none
  have hhistory := exists_readsHistory_of_reads haccount hreads fun page hpage => by
    obtain ⟨i, -, rfl⟩ := List.mem_map.mp hpage
    rfl
  rw [List.map_map] at hhistory
  exact ⟨count, _, hhistory⟩

/-- The pages show the transfers of the account in falling order, each once, and all those that
were there before the first page; over a fixed table they come to an end. -/
theorem history_complete (accountId : Uuid) :
    (∀ (calls : List HistoryCall) (items : List TransferDto) (before : Db),
      ReadsHistory accountId none calls items → (∀ call ∈ calls, call.Regular accountId) →
      (before :: statesSeen calls).IsChain Db.Continues →
      ∃ rows : List TransferRow, items = rows.map toTransferDto ∧
        (rows.Pairwise fun r r' => r'.seq < r.seq) ∧
        (items.map TransferDto.id).Nodup ∧
        (∀ r ∈ rows, r.concerns accountId = true ∧ ∃ call ∈ calls, r ∈ call.db.transfers.rows) ∧
        ∀ r ∈ before.transfers.rows, r.concerns accountId = true →
          ∃ item ∈ items, item.id = r.id) ∧
    ∀ (db : Db) (limits : ℕ → ℕ), (db.accounts.find? accountId).isSome = true →
      (∀ r ∈ db.transfers.rows, r.concerns accountId = true → r.seqNumber = r.seq) →
      (∀ i, 0 < limits i) →
      ∃ count items,
        ReadsHistory accountId none ((List.range count).map fun i => ⟨limits i, db, db⟩) items := by
  constructor
  · intro calls items before h hcalls hstates
    exact h.complete hcalls hstates
  · intro db limits haccount hexact hlimits
    exact exists_readsHistory haccount hexact hlimits

/-- A deposit of one cent. -/
def depositOf (id accountId : Uuid) (seq : ℕ) : TransferRow where
  id := id
  seq := seq
  idempotencyKey := none
  requestHash := none
  fromAccountId := none
  toAccountId := accountId
  amountCents := ⟨1, by decide, by decide⟩
  status := .completed
  failureReason := none
  createdAt := 0
  completedAt := some 0
  distinct := by simp

/-- A bank with one account and some deposits to it. -/
def depositsDb (deposits : Table TransferRow) : Db where
  customers := .empty
  accounts := ⟨[⟨⟨1⟩, ⟨1⟩, deposits.rows.length⟩], List.nodup_singleton _⟩
  transfers := deposits
  accountLocks := .empty
  accountComments := .empty

/-- Behind the exact numbers a cursor is rounded, and the transfer that it falls on is skipped. -/
theorem rounded_cursor_skips :
    ∃ db items, (db.transfers.rows.map TransferRow.seq).Nodup ∧
      ReadsHistory ⟨1⟩ none ((List.range 2).map fun _ => ⟨1, db, db⟩) items ∧
      ∃ r ∈ db.transfers.rows, r.concerns ⟨1⟩ = true ∧ ∀ item ∈ items, item.id ≠ r.id := by
  let deposits : Table TransferRow := ⟨[depositOf ⟨1⟩ ⟨1⟩ 1, depositOf ⟨2⟩ ⟨1⟩ (2 ^ 53),
    depositOf ⟨3⟩ ⟨1⟩ (2 ^ 53 + 1)], by decide⟩
  refine ⟨depositsDb deposits, [toTransferDto (depositOf ⟨3⟩ ⟨1⟩ (2 ^ 53 + 1))] ++
    [toTransferDto (depositOf ⟨1⟩ ⟨1⟩ 1)], by decide, ?_, depositOf ⟨2⟩ ⟨1⟩ (2 ^ 53),
    List.mem_cons_of_mem _ List.mem_cons_self, by decide, by decide⟩
  have hfirst : AccountService.getHistory (depositsDb deposits) (depositsDb deposits) ⟨1⟩ 1 none =
      .ok ⟨[toTransferDto (depositOf ⟨3⟩ ⟨1⟩ (2 ^ 53 + 1))], some (2 ^ 53)⟩ := rfl
  exact .more hfirst (.last rfl)

/-- A deposit comes in between two pages, behind others that are shown already. -/
theorem history_complete_deposits :
    ∃ calls items, (calls.map HistoryCall.limit) = [1, 2, 1] ∧
      items.map TransferDto.id = [⟨3⟩, ⟨4⟩, ⟨2⟩, ⟨1⟩] ∧ ReadsHistory ⟨1⟩ none calls items ∧
      (items.map TransferDto.id).Nodup := by
  let deposits : Table TransferRow :=
    ⟨[depositOf ⟨1⟩ ⟨1⟩ 1, depositOf ⟨2⟩ ⟨1⟩ 2, depositOf ⟨3⟩ ⟨1⟩ 4], by decide⟩
  let later : Table TransferRow := ⟨deposits.rows ++ [depositOf ⟨4⟩ ⟨1⟩ 3], by decide⟩
  let calls : List HistoryCall := [⟨1, depositsDb deposits, depositsDb deposits⟩,
    ⟨2, depositsDb deposits, depositsDb later⟩, ⟨1, depositsDb later, depositsDb later⟩]
  have hreads : ReadsHistory ⟨1⟩ none calls
      ([toTransferDto (depositOf ⟨3⟩ ⟨1⟩ 4)] ++ ([toTransferDto (depositOf ⟨4⟩ ⟨1⟩ 3),
        toTransferDto (depositOf ⟨2⟩ ⟨1⟩ 2)] ++ [toTransferDto (depositOf ⟨1⟩ ⟨1⟩ 1)])) := by
    have hfirst : AccountService.getHistory (depositsDb deposits) (depositsDb deposits) ⟨1⟩ 1
        none = .ok ⟨[toTransferDto (depositOf ⟨3⟩ ⟨1⟩ 4)], some 4⟩ := rfl
    have hsecond : AccountService.getHistory (depositsDb deposits) (depositsDb later) ⟨1⟩ 2
        (some 4) = .ok ⟨[toTransferDto (depositOf ⟨4⟩ ⟨1⟩ 3),
          toTransferDto (depositOf ⟨2⟩ ⟨1⟩ 2)], some 2⟩ := rfl
    exact .more hfirst (.more hsecond (.last rfl))
  have hregular : ∀ call ∈ calls, call.Regular ⟨1⟩ := by
    simp only [calls, List.forall_mem_cons, List.not_mem_nil, false_imp_iff, implies_true, and_true]
    refine ⟨⟨?_, ?_, ?_⟩, ⟨?_, ?_, ?_⟩, ⟨?_, ?_, ?_⟩⟩ <;> decide
  have hcontinues : (depositsDb deposits).Continues (depositsDb later) :=
    .of_subset (List.subset_append_left _ _)
  have hstates : (depositsDb deposits :: statesSeen calls).IsChain Db.Continues := by
    simp [statesSeen, calls, hcontinues, Db.Continues.refl]
  obtain ⟨rows, -, -, hnodup, -⟩ := (history_complete ⟨1⟩).1 _ _ _ hreads hregular hstates
  exact ⟨calls, _, rfl, rfl, hreads, hnodup⟩

end BankPlatform.Bank
