import BankPlatform.Library.History
import BankPlatform.Bank.Locking

/-!
# Account locks and transfers

A lock is created under the lock of its account row, which a run of `execute` holds from before it
reads `account_locks` until it commits. So no lock appears between that read and the commit, and
the locks that were there had been released when the read found none of them active.

## Main definitions

* `FrozenUntil` — the locks of two accounts in a history had been released at some time of it.
* `FreezesAt` — what had been recorded when a transfer committed.

## Main results

* `lock_freezes` — a transfer commits before the creation of a lock on its accounts, or reads
  `account_locks` after the release.
-/

namespace BankPlatform.Bank

open Library

/-- Every lock on one of the two accounts that the history created had been released among the
first `readAt` events, after which `account_locks` was read. -/
structure FrozenUntil (log : List Event) (transfer : TransferRow) (fromAccountId : Uuid)
    (readAt : ℕ) : Prop where
  read : ∃ i, log[readAt]? = some (.locksRead i transfer)
  released : ∀ lock, .locked lock ∈ log →
    lock.accountId = fromAccountId ∨ lock.accountId = transfer.toAccountId →
      .released lock.id ∈ log.take readAt

/-- What had been recorded when a transfer committed. -/
def FreezesAt (before : List Event) : Event → Prop
  | .moved transfer fromAccountId readAt => FrozenUntil before transfer fromAccountId readAt
  | _ => True

theorem FrozenUntil.append {log es : List Event} {transfer : TransferRow} {fromAccountId : Uuid}
    {readAt : ℕ} (h : FrozenUntil log transfer fromAccountId readAt)
    (hes : ∀ lock, .locked lock ∈ es →
      lock.accountId ≠ fromAccountId ∧ lock.accountId ≠ transfer.toAccountId) :
    FrozenUntil (log ++ es) transfer fromAccountId readAt := by
  obtain ⟨i, hread⟩ := h.read
  have hlt : readAt < log.length := (List.getElem?_eq_some_iff.mp hread).1
  refine ⟨⟨i, by rw [List.getElem?_append_left hlt, hread]⟩, fun lock hlock hon => ?_⟩
  rw [List.take_append_of_le_length hlt.le]
  rcases List.mem_append.mp hlock with hlock | hlock
  · exact h.released lock hlock hon
  · obtain ⟨hfrom, hto⟩ := hes lock hlock
    rcases hon with hon | hon
    · exact absurd hon hfrom
    · exact absurd hon hto

/-! ## The lock table and the history -/

/-- The history created every stored lock, stores every lock it created, and released those that
are not active any more. -/
structure LocksRecorded (s : Shared) : Prop where
  created : ∀ l ∈ s.db.accountLocks.rows,
    ∃ lock, .locked lock ∈ s.log ∧ lock.id = l.id ∧ lock.accountId = l.accountId
  stored : ∀ lock, .locked lock ∈ s.log → ∃ l, s.db.accountLocks.find? lock.id = some l ∧
    l.accountId = lock.accountId ∧ (l.releasedAt.isSome → .released lock.id ∈ s.log)

/-- The lock events of a step, and the lock rows that come with them. -/
theorem Change.locks {deps : Dependencies} {s s' : Shared} {i : Pid} {p : Proc} {a : Label}
    {es : List Event} (h : Change deps s i p a s'.db es) (hlog : s'.log = s.log ++ es)
    (hs : LocksRecorded s) :
    LocksRecorded s' ∧ ∀ lock, .locked lock ∈ es → s.LockedBy i lock.accountId := by
  have keep : s'.db.accountLocks = s.db.accountLocks → (∀ lock, .locked lock ∉ es) →
      LocksRecorded s' ∧ ∀ lock, .locked lock ∈ es → s.LockedBy i lock.accountId := by
    intro hdb hes
    refine ⟨⟨fun l hl => ?_, fun lock hlock => ?_⟩, fun lock hlock => absurd hlock (hes lock)⟩
    · obtain ⟨lock, hlock, hid, haccount⟩ := hs.created l (hdb ▸ hl)
      exact ⟨lock, hlog ▸ List.mem_append_left es hlock, hid, haccount⟩
    · rw [hlog, List.mem_append, or_iff_left (hes lock)] at hlock
      obtain ⟨l, hl, haccount, hreleased⟩ := hs.stored lock hlock
      exact ⟨l, hdb ▸ hl, haccount,
        fun hrel => hlog ▸ List.mem_append_left es (hreleased hrel)⟩
  generalize hdb : s'.db = db at h
  cases h with
  | quiet hes => exact keep (by rw [hdb]) fun lock hlock => by simpa [Event.silent] using hes _ hlock
  | moved => exact keep (by rw [hdb]) (by simp)
  | rejected => exact keep (by rw [hdb]) (by simp)
  | opened _ _ hinstall =>
    obtain ⟨t, _, hcase⟩ := install_openingWrites hinstall
    refine keep ?_ (by simp)
    rcases hcase with ⟨_, rfl⟩ | ⟨_, u, _, rfl⟩ <;> rw [hdb]
  | inserted _ hwrite =>
    obtain ⟨_, t, _, rfl⟩ := write_insertTransfer hwrite
    exact keep (by rw [hdb]) (by simp)
  | commented => exact keep (by rw [hdb]) (by simp)
  | @locked accountId reason lock t _ hlock haccount hactive ht =>
    have hdb' : s'.db.accountLocks = t := by rw [hdb]
    refine ⟨⟨fun l hl => ?_, fun x hx => ?_⟩, fun x hx => ?_⟩
    · rw [hdb', Table.mem_insert? ht] at hl
      rcases hl with hl | rfl
      · obtain ⟨x, hx, hid, hon⟩ := hs.created l hl
        exact ⟨x, hlog ▸ List.mem_append_left _ hx, hid, hon⟩
      · exact ⟨l, by simp [hlog], rfl, rfl⟩
    · rw [hlog, List.mem_append, List.mem_singleton] at hx
      rcases hx with hx | hx
      · obtain ⟨l, hl, hon, hreleased⟩ := hs.stored x hx
        exact ⟨l, by rw [hdb', Table.find?_insert?_of_some ht hl], hon,
          fun hrel => hlog ▸ List.mem_append_left _ (hreleased hrel)⟩
      · obtain rfl : x = lock := by simpa using hx
        exact ⟨x, by rw [hdb', Table.find?_insert? ht]; simp, rfl, by simp [hactive]⟩
    · obtain rfl : x = lock := by simpa using hx
      exact haccount ▸ hlock
  | @released accountId lockId _ _ lock now hfind hactive =>
    have hid : lock.id = lockId := Table.key_of_find? hfind
    have hdb' : s'.db.accountLocks = s.db.accountLocks.put { lock with releasedAt := some now } := by
      rw [hdb]
    refine ⟨⟨fun l hl => ?_, fun x hx => ?_⟩, by simp⟩
    · rw [hdb'] at hl
      have hsource : ∃ l₀ ∈ s.db.accountLocks.rows, l₀.id = l.id ∧ l₀.accountId = l.accountId := by
        rcases Table.mem_put hl with hl | rfl
        · exact ⟨l, hl, rfl, rfl⟩
        · exact ⟨lock, Table.mem_of_find? hfind, rfl, rfl⟩
      obtain ⟨l₀, hl₀, hid₀, hon₀⟩ := hsource
      obtain ⟨x, hx, hxid, hxon⟩ := hs.created l₀ hl₀
      exact ⟨x, hlog ▸ List.mem_append_left _ hx, hxid.trans hid₀, hxon.trans hon₀⟩
    · rw [hlog, List.mem_append, List.mem_singleton] at hx
      have hx : .locked x ∈ s.log := hx.resolve_right (by simp)
      obtain ⟨l, hl, hon, hreleased⟩ := hs.stored x hx
      rw [hdb', Table.find?_put, key_lockRow, hid]
      by_cases hsame : lockId = x.id
      · subst hsame
        obtain rfl := Option.some.inj (hfind.symm.trans hl)
        exact ⟨{ lock with releasedAt := some now }, by simp [hl, hid], hon, fun _ => by simp [hlog]⟩
      · exact ⟨l, by rw [if_neg hsame, hl], hon,
          fun hrel => hlog ▸ List.mem_append_left _ (hreleased hrel)⟩

/-- An empty answer of the lock check means that all locks created so far had been released. -/
theorem frozenUntil_of_activeLocks {s : Shared} {transfer : TransferRow} {fromAccountId : Uuid}
    {i : Pid} (hs : LocksRecorded s)
    (h : s.db.activeLocks fromAccountId transfer.toAccountId = []) :
    FrozenUntil (s.log ++ [.locksRead i transfer]) transfer fromAccountId s.log.length := by
  refine ⟨⟨i, by simp⟩, fun lock hlock hon => ?_⟩
  have hlock : .locked lock ∈ s.log := by simpa using hlock
  obtain ⟨l, hl, haccount, hreleased⟩ := hs.stored lock hlock
  rw [List.take_left']
  · refine hreleased ?_
    rw [Db.activeLocks, List.filter_eq_nil_iff] at h
    have := h l (Table.mem_of_find? hl)
    rw [haccount] at this
    by_contra hactive
    exact this (by simp [hon, Option.not_isSome_iff_eq_none.mp hactive])
  · rfl

/-! ## From the lock check to the commit -/

/-- When a run read `account_locks`, once it has passed the checks that follow. -/
def ExecutePc.readAt? : ExecutePc → Option ℕ
  | .debit readAt | .credit readAt _ | .complete readAt _ | .commit readAt _ _ => some readAt
  | _ => none

/-- The run has seen every lock on its accounts released. -/
def Proc.SeesReleased (s : Shared) : Proc → Prop
  | .processor _ (.executing transfer fromAccountId pc) =>
    ∀ readAt, pc.readAt? = some readAt → FrozenUntil s.log transfer fromAccountId readAt
  | _ => True

/-- A run passes the lock check, or keeps what it saw there. -/
theorem Arrives.readAt {s : Shared} {i : Pid} {job : Option String} {transfer : TransferRow}
    {fromAccountId : Uuid} {pc : ExecutePc} {p : Proc} {a : Label} {m : Move} {readAt : ℕ}
    (h : Arrives s i job transfer fromAccountId pc p a m) (hpc : pc.readAt? = some readAt) :
    ∃ pc₀, p = .processor job (.executing transfer fromAccountId pc₀) ∧
      ((pc₀.readAt? = some readAt ∧ m.events = []) ∨
        ∃ rowById, pc₀ = .readLocks rowById ∧ readAt = s.log.length ∧
          TransferExecutor.verdict s.db transfer fromAccountId rowById = none ∧
          m.events = [.locksRead i transfer]) := by
  have hstart : TransferExecutor.start transfer = .executing transfer fromAccountId pc → False := by
    intro hstart
    unfold TransferExecutor.start at hstart
    split at hstart <;> cases hstart
    cases hpc
  cases h with
  | @next c pc₀ m hnext =>
    refine ⟨pc₀, rfl, ?_⟩
    cases pc₀ <;> simp only [TransferExecutor.next, TransferExecutor.lockRest] at hnext <;>
      grind [ExecutePc.readAt?]
  | selected _ _ h _ _ => exact (hstart h).elim
  | called h _ _ _ => exact (hstart h).elim

/-- A step brings its process to what it has seen at its next await. -/
theorem seesReleased_own {deps : Dependencies} {s s₁ : Shared} {i : Pid} {p : Proc}
    {a : Label} {m : Move} (hholding : p.Holding deps s i) (hs : LocksRecorded s)
    (hp : p.SeesReleased s) (hacts : Acts deps s i p a m) (happ : s.apply i m.effect = some s₁) :
    m.next.SeesReleased (s₁.record m.events) := by
  unfold Proc.SeesReleased
  split
  · next job transfer fromAccountId pc hnext =>
    intro readAt hread
    rw [Shared.record_log, apply_log happ]
    obtain ⟨pc₀, rfl, ⟨hread₀, hes⟩ | ⟨rowById, rfl, rfl, hverdict, hes⟩⟩ :=
      (acts_executing hacts hnext).readAt hread
    · rw [hes]
      simpa using hp readAt hread₀
    · rw [hes]
      obtain ⟨_, _, source, _, _, hmap⟩ := hholding
      exact frozenUntil_of_activeLocks hs (funds_of_verdict hmap hverdict).1
  · trivial

/-- What a step guarantees to the runs that have passed their lock check. -/
structure LockGuarantee (j : Pid) (s s' : Shared) : Prop extends Guarantee j s s' where
  log : ∃ es, s'.log = s.log ++ es ∧ ∀ lock, .locked lock ∈ es → s.LockedBy j lock.accountId

theorem seesReleased_stable {deps : Dependencies} {s s' : Shared} {i j : Pid} {p : Proc}
    (hij : i ≠ j) (hg : LockGuarantee j s s') (hholding : p.Holding deps s i)
    (hp : p.SeesReleased s) : p.SeesReleased s' := by
  obtain ⟨es, hlog, hes⟩ := hg.log
  unfold Proc.SeesReleased at hp ⊢
  split
  · next job transfer fromAccountId pc =>
    intro readAt hread
    have hlocked : s.LockedBy i fromAccountId ∧ s.LockedBy i transfer.toAccountId := by
      obtain ⟨_, _, hpc⟩ := hholding
      cases pc with
      | debit | credit | complete | commit =>
        obtain ⟨source, destination, hboth, _⟩ := hpc
        exact ⟨hboth.source_locked, hboth.destination_locked⟩
      | _ => cases hread
    rw [hlog]
    refine (hp readAt hread).append fun lock hlock => ⟨fun hon => ?_, fun hon => ?_⟩
    · exact hij (hlocked.1.exclusive (hon ▸ hes lock hlock))
    · exact hij (hlocked.2.exclusive (hon ▸ hes lock hlock))
  · trivial

/-- The commit of a run is recorded after what the run has seen. -/
theorem freezes_step {deps : Dependencies} {s : Shared} {i : Pid} {p : Proc} {a : Label}
    {db : Db} {es : List Event} (h : Change deps s i p a db es) (hp : p.SeesReleased s)
    (hs : Recorded FreezesAt s.log) : Recorded FreezesAt (s.log ++ es) := by
  have other : (∀ e ∈ es, ∀ before, FreezesAt before e) → Recorded FreezesAt (s.log ++ es) :=
    fun hes => hs.append fun before e after hsplit => hes e (by simp [hsplit]) _
  cases h with
  | quiet hes =>
    refine other fun e he before => ?_
    have := hes e he
    cases e <;> trivial
  | moved => exact hs.snoc (hp _ rfl)
  | _ => exact other (by simp [FreezesAt])

/-- The lock discipline as an invariant of the interleaving. -/
def freezeProof (deps : Dependencies) (ok : Guard) :
    Interleaving.RelyGuarantee (system deps) ok
      fun c => ∀ i, (c.locals i).Holding deps c.shared i where
  inv s := LocksRecorded s ∧ Recorded FreezesAt s.log
  asserts i s p := p.Holding deps s i ∧ p.SeesReleased s
  guarantee := LockGuarantee
  own c i a s p hknown hinv hall hok hstep := by
    obtain ⟨es, hlog, hchange⟩ := step_change (hknown i) hstep
    obtain ⟨_, hholding, hg⟩ :=
      (holdingProof deps ok).own c i a s p trivial trivial hknown hok hstep
    obtain ⟨hlocks, hes⟩ := hchange.locks hlog hinv.1
    refine ⟨⟨hlocks, hlog ▸ freezes_step hchange (hall i).2 hinv.2⟩, ⟨hholding, ?_⟩,
      ⟨hg, es, hlog, hes⟩⟩
    obtain ⟨m, s₁, hact, happ, rfl, rfl⟩ := step_eq_some.mp hstep
    exact seesReleased_own (hknown i) hinv.1 (hall i).2 (acts_of_act hact) happ
  stable i j s s' p hij _ hg hp :=
    ⟨hp.1.stable hij hg.toGuarantee, seesReleased_stable hij hg hp.1 hp.2⟩

/-- In every history, a transfer that commits has read `account_locks` before, and each lock that
had been created on its accounts by the time it commits had been released by the time it read;
the history creates every lock of the database. -/
theorem lock_freezes (deps : Dependencies) (customers : Table CustomerRow) (c : State)
    (h : Reaches deps Interleaving.anyStep (Db.seeded customers) c) :
    (∀ before transfer fromAccountId readAt after,
      c.shared.log = before ++ .moved transfer fromAccountId readAt :: after →
        (∃ i, before[readAt]? = some (.locksRead i transfer)) ∧
        ∀ lock, .locked lock ∈ c.shared.log →
          lock.accountId = fromAccountId ∨ lock.accountId = transfer.toAccountId →
            (.locked lock ∉ before ∧ .locked lock ∈ after) ∨
              .released lock.id ∈ before.take readAt) ∧
    ∀ l ∈ c.shared.db.accountLocks.rows,
      ∃ lock, .locked lock ∈ c.shared.log ∧ lock.id = l.id ∧ lock.accountId = l.accountId := by
  have hempty : LocksRecorded (State.init (Db.seeded customers)).shared :=
    ⟨by simp [State.init, Db.seeded, Table.empty], by simp [State.init]⟩
  obtain ⟨hlocks, hrecorded⟩ := ((freezeProof deps Interleaving.anyStep).sound h
    (fun _ hc => holding hc) ⟨hempty, .nil⟩ fun _ => ⟨trivial, trivial⟩).1
  refine ⟨fun before transfer fromAccountId readAt after hlog => ?_, hlocks.created⟩
  have hfrozen : FrozenUntil before transfer fromAccountId readAt := hrecorded.of_split hlog
  refine ⟨hfrozen.read, fun lock hlock hon => ?_⟩
  by_cases hbefore : .locked lock ∈ before
  · exact .inr (hfrozen.released lock hbefore hon)
  · refine .inl ⟨hbefore, ?_⟩
    simpa [hlog, hbefore] using hlock

/-- Two accounts, a lock on the first that is created and released, a transfer between them, and a
second lock on the first. -/
def freezeScript : List (Pid × Label) :=
  let lock (id : Fin (2 ^ 128)) : List (Pid × Label) :=
    (0, .start (.createLock ⟨1⟩ "reason")) :: List.replicate 3 (0, .next (chosen id))
  openAccounts ++ [(0, .start (.createTransfer (sampleInput "key")))] ++
  List.replicate 6 (0, .next (chosen 3)) ++ lock 11 ++
  [(0, .start (.releaseLock ⟨1⟩ ⟨11⟩)), (0, .next (chosen 0)), (0, .next (chosen 0)),
    (0, .start (.processJob ⟨3⟩))] ++
  List.replicate 9 (0, .next (chosen 0)) ++ lock 12

theorem lock_freezes_between : ∃ (c : State) (before after : List Event) (transfer : TransferRow)
    (readAt : ℕ) (lock : LockRow), c.shared.log = before ++ .moved transfer ⟨1⟩ readAt :: after ∧
      .locked lock ∈ before ∧ .released lock.id ∈ before.take readAt := by
  let movedFrom (e : Event) : Bool :=
    match e with
    | .moved _ fromAccountId _ => fromAccountId = ⟨1⟩
    | _ => false
  let lockedOn (e : Event) : Bool :=
    match e with
    | .locked lock => lock.accountId = ⟨1⟩
    | _ => false
  have hrun : ((system sampleDeps).moves Interleaving.anyStep
      (State.init (Db.seeded sampleCustomers)) freezeScript).map (fun c =>
        ((c.shared.log.drop 8).head?.any movedFrom, (c.shared.log.take 8).any lockedOn)) =
      some (true, true) := by decide
  obtain ⟨c, hc, hevents⟩ := Option.map_eq_some_iff.mp hrun
  obtain ⟨hmoved, hlocked⟩ := Prod.mk.inj hevents
  obtain ⟨e, he, hfrom⟩ : ∃ e, (c.shared.log.drop 8).head? = some e ∧ movedFrom e := by
    simpa only [Option.any_eq_true] using hmoved
  obtain ⟨x, hx, hon⟩ := List.any_eq_true.mp hlocked
  obtain ⟨after, hafter⟩ := List.head?_eq_some_iff.mp he
  cases e with
  | moved transfer fromAccountId readAt =>
    obtain rfl : fromAccountId = ⟨1⟩ := by simpa [movedFrom] using hfrom
    have hlog : c.shared.log = c.shared.log.take 8 ++ .moved transfer ⟨1⟩ readAt :: after := by
      rw [← hafter, List.take_append_drop]
    cases x with
    | locked lock =>
      have hon : lock.accountId = ⟨1⟩ := by simpa [lockedOn] using hon
      have hreleased := ((lock_freezes sampleDeps _ c (.of_moves .refl hc)).1 _ _ _ _ _ hlog).2 lock
        (List.mem_of_mem_take hx) (.inl hon)
      exact ⟨c, _, after, transfer, readAt, lock, hlog, hx,
        hreleased.resolve_left fun h => h.1 hx⟩
    | _ => cases hon
  | _ => cases hfrom

end BankPlatform.Bank
