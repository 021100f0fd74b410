import BankPlatform.Bank.Delivery
import BankPlatform.Bank.Idempotency

/-!
# Stranded transfers

A pending row is worthless unless a job of the queue still executes it. `TransferService.create`
enqueues the row under its idempotency key after the insert has committed, and a replay enqueues it
again. Three things go wrong: BullMQ refuses some keys that the header schema accepts, a job that
used up its attempts blocks its id, so that adding it again does nothing, and the queue may be out
of reach when the row has been committed.

## Main definitions

* `Db.HasTransfer` — the transfer that is stored under a key.
* `QueueInv` — every job is about a stored transfer, and a completed job about a settled one.
* `NotStranded` — what a step of `create` owes to a pending row.
* `enqueuesFresh` — the key is acceptable to BullMQ, no failed job blocks it, and it is enqueued.

## Main results

* `not_stranded_iff` — a step strands no pending row if and only if `enqueuesFresh` holds.
-/

namespace BankPlatform.Bank

open Library

/-- A transfer that is stored under a key. -/
def Db.HasTransfer (db : Db) (key : String) (transferId : Uuid) : Prop :=
  ∃ r, db.transfers.find? transferId = some r ∧ r.idempotencyKey = some key

/-- The jobs and the rows they are about. -/
structure QueueInv (s : Shared) : Prop where
  unique : s.db.transfers.UniqueIndex TransferRow.idempotencyKey
  stored : ∀ job ∈ s.queue.rows, s.db.HasTransfer job.id job.transferId
  completed : ∀ job ∈ s.queue.rows, job.state = .completed → s.db.isSettled job.transferId

/-- What a process knows about the row of its job, or about the row it is about to enqueue. -/
def Proc.KnowsRow (s : Shared) : Proc → Prop
  | .createTransfer input (.enqueue row _) => s.db.HasTransfer input.idempotencyKey row.id
  | .processor (some jobId) (.select transferId) => s.db.HasTransfer jobId transferId
  | .processor (some jobId) (.executing transfer _ _) => s.db.HasTransfer jobId transfer.id
  | .processor (some jobId) (.acknowledge .returned) =>
    ∃ transferId, s.db.HasTransfer jobId transferId ∧ s.db.isSettled transferId
  | _ => True

/-- What a step leaves to the rows that others know about. -/
structure RowGuarantee (j : Pid) (s s' : Shared) : Prop extends Guarantee j s s' where
  settled : ∀ id, s.db.isSettled id → s'.db.isSettled id

theorem Guarantee.hasTransfer {j : Pid} {s s' : Shared} (hg : Guarantee j s s') {key : String}
    {transferId : Uuid} (h : s.db.HasTransfer key transferId) :
    s'.db.HasTransfer key transferId := by
  obtain ⟨r, hr, hkey⟩ := h
  obtain ⟨r', hr', hsame⟩ := hg.transfers transferId r hr
  exact ⟨r', hr', hsame.idempotencyKey_eq ▸ hkey⟩

/-- Two transfers under one key are the same. -/
theorem hasTransfer_unique {db : Db} (h : db.transfers.UniqueIndex TransferRow.idempotencyKey)
    {key : String} {id id' : Uuid} (hid : db.HasTransfer key id) (hid' : db.HasTransfer key id') :
    id = id' := by
  obtain ⟨r, hr, hkey⟩ := hid
  obtain ⟨r', hr', hkey'⟩ := hid'
  obtain rfl : r = r' := h r (Table.mem_of_find? hr) r' (Table.mem_of_find? hr') (by simp [hkey])
    (hkey.trans hkey'.symm)
  exact (Table.key_of_find? hr).symm.trans (Table.key_of_find? hr')

theorem knowsRow_stable {j : Pid} {s s' : Shared} {p : Proc} (hg : RowGuarantee j s s')
    (h : p.KnowsRow s) : p.KnowsRow s' := by
  unfold Proc.KnowsRow at h ⊢
  split at h
  · exact hg.toGuarantee.hasTransfer h
  · exact hg.toGuarantee.hasTransfer h
  · exact hg.toGuarantee.hasTransfer h
  · obtain ⟨transferId, hrow, hsettled⟩ := h
    exact ⟨transferId, hg.toGuarantee.hasTransfer hrow, hg.settled _ hsettled⟩
  · trivial

/-- What a statement does to the jobs. -/
theorem mem_queue_apply {s s₁ : Shared} {i : Pid} {e : Effect} (h : s.apply i e = some s₁)
    {job : Job} (hjob : job ∈ s₁.queue.rows) :
    s.queue.Keeps (e = .settle job.id .returned) job ∨
      ∃ jobId transferId, e = .enqueue jobId transferId ∧ job = ⟨jobId, transferId, .waiting, 0⟩ := by
  have same : s₁.queue = s.queue → s.queue.Keeps (e = .settle job.id .returned) job :=
    fun hq => Queue.keeps_of_mem (hq ▸ hjob)
  have weaken : s.queue.Keeps False job → s.queue.Keeps (e = .settle job.id .returned) job := by
    rintro ⟨job₀, hmem, hid, htransfer, hstate⟩
    exact ⟨job₀, hmem, hid, htransfer, fun hc => (hstate hc).imp_right False.elim⟩
  cases e with
  | enqueue jobId transferId =>
    obtain rfl := Option.some.inj h
    rcases Queue.mem_add hjob with hjob | rfl
    · exact .inl (Queue.keeps_of_mem hjob)
    · exact .inr ⟨_, _, rfl, rfl⟩
  | take jobId =>
    obtain ⟨q, hq, rfl⟩ := Option.map_eq_some_iff.mp h
    exact .inl (weaken (Queue.mem_take? hq hjob))
  | react ev =>
    obtain ⟨q, hq, rfl⟩ := Option.map_eq_some_iff.mp h
    exact .inl (weaken (Queue.mem_react? hq hjob))
  | settle jobId outcome =>
    obtain rfl := Option.some.inj h
    obtain ⟨job₀, hmem, hid, htransfer, hstate⟩ := Queue.mem_settle hjob
    refine .inl ⟨job₀, hmem, hid, htransfer, fun hc => (hstate hc).imp_right ?_⟩
    rintro ⟨rfl, rfl⟩
    rfl
  | quiet | rollback =>
    obtain rfl := Option.some.inj h
    exact .inl (same rfl)
  | lock row mode =>
    obtain ⟨t, _, rfl⟩ := Option.map_eq_some_iff.mp h
    exact .inl (same rfl)
  | commit ws =>
    obtain ⟨db, _, rfl⟩ := Option.map_eq_some_iff.mp h
    exact .inl (same rfl)
  | autocommit row ws =>
    simp only [Shared.apply, Option.ite_none_right_eq_some, Option.map_eq_some_iff] at h
    obtain ⟨_, db, _, rfl⟩ := h
    exact .inl (same rfl)

/-- The only statements that add a job or report how one ended. -/
theorem queue_effect {deps : Dependencies} {s : Shared} {i : Pid} {p : Proc} {a : Label}
    {m : Move} (h : Acts deps s i p a m) :
    (∀ jobId transferId, m.effect = .enqueue jobId transferId → ∃ input row created,
      p = .createTransfer input (.enqueue row created) ∧ jobId = input.idempotencyKey ∧
        transferId = row.id) ∧
    ∀ jobId outcome, m.effect = .settle jobId outcome →
      p = .processor (some jobId) (.acknowledge outcome) := by
  cases h with
  | @next p c m hm =>
    cases p with
    | idle => simp [Proc.next] at hm
    | processor job pc =>
      obtain rfl := Option.some.inj hm
      cases pc with
      | executing transfer fromAccountId pc =>
        cases pc <;> simp only [ProcessorPc.next, TransferExecutor.next] <;> grind
      | _ => simp only [ProcessorPc.next]; grind
    | createTransfer input pc =>
      cases pc <;> simp only [Proc.next, TransferService.next, TransferService.respond] at hm <;>
        grind
    | _ =>
      obtain ⟨_, henqueue, hsettle⟩ := next_aside rfl hm
      exact ⟨fun jobId transferId he => absurd he (henqueue jobId transferId),
        fun jobId outcome he => absurd he (hsettle jobId outcome)⟩
  | @start op m hm => cases op <;> simp only [Operation.begin] at hm <;> grind
  | deliver _ => simp
  | queue => simp
  | abort => cases p <;> simp [Proc.abort]
  | crash => simp

theorem QueueInv.step {deps : Dependencies} {s s₁ : Shared} {i : Pid} {p : Proc} {a : Label}
    {m : Move} (hinv : QueueInv s) (hacts : Acts deps s i p a m)
    (happ : s.apply i m.effect = some s₁) (hchange : Change deps s i p a s₁.db m.events)
    (hg : RowGuarantee i s (s₁.record m.events)) (hp : p.KnowsRow s) :
    QueueInv (s₁.record m.events) := by
  obtain ⟨henqueue, hsettle⟩ := queue_effect hacts
  refine ⟨hchange.uniqueKeys hinv.unique, fun job hjob => ?_, fun job hjob hcompleted => ?_⟩
  · rcases mem_queue_apply happ hjob with ⟨job₀, hmem, hid, htransfer, _⟩ |
        ⟨jobId, transferId, heffect, rfl⟩
    · rw [← hid, ← htransfer]
      exact hg.toGuarantee.hasTransfer (hinv.stored job₀ hmem)
    · obtain ⟨input, row, created, rfl, rfl, rfl⟩ := henqueue _ _ heffect
      exact hg.toGuarantee.hasTransfer hp
  · rcases mem_queue_apply happ hjob with ⟨job₀, hmem, hid, htransfer, hstate⟩ | ⟨_, _, _, rfl⟩
    · refine hg.settled _ ?_
      rcases hstate hcompleted with hold | hreported
      · exact htransfer ▸ hinv.completed job₀ hmem hold
      · rw [hsettle _ _ hreported] at hp
        obtain ⟨transferId, hrow, hsettled⟩ := hp
        have hstored := hinv.stored job₀ hmem
        rw [hid, htransfer] at hstored
        exact hasTransfer_unique hinv.unique hrow hstored ▸ hsettled
    · cases hcompleted

/-- A run returns after it has found its row settled or has settled it. -/
theorem settled_of_returned {deps : Dependencies} {s s₁ : Shared} {i : Pid} {p : Proc}
    {a : Label} {m : Move} {jobId : String} (hacts : Acts deps s i p a m)
    (happ : s.apply i m.effect = some s₁) (hchange : Change deps s i p a s₁.db m.events)
    (hp : p.KnowsRow s) (hnext : m.next = .processor (some jobId) (.acknowledge .returned)) :
    ∃ transferId, s.db.HasTransfer jobId transferId ∧ s₁.db.isSettled transferId := by
  cases hacts with
  | @next p c m hm =>
    cases p with
    | processor job pc =>
      obtain rfl := Option.some.inj hm
      cases pc with
      | select transferId =>
        have hjob : job = some jobId := by
          simp only [ProcessorPc.next] at hnext
          grind
        subst hjob
        obtain ⟨r, hr, hkey⟩ := hp
        simp only [ProcessorPc.next, hr] at happ hnext
        by_cases hstatus : r.status ≠ .pending
        · rw [if_pos hstatus] at happ
          obtain rfl := Option.some.inj happ
          exact ⟨transferId, ⟨r, hr, hkey⟩, isSettled_iff.mpr ⟨r, hr, hstatus⟩⟩
        · rw [if_neg hstatus] at hnext
          obtain ⟨_, hstart⟩ := Proc.processor.inj hnext
          unfold TransferExecutor.start at hstart
          split at hstart <;> cases hstart
      | executing transfer fromAccountId pc =>
        have hjob : job = some jobId := (Proc.processor.inj hnext).1
        subst hjob
        refine ⟨transfer.id, hp, ?_⟩
        generalize s₁.db = db at hchange ⊢
        cases pc with
        | commit readAt ws completed =>
          cases hchange with
          | quiet hes => simp [ProcessorPc.next, TransferExecutor.next, Event.silent] at hes
          | moved _ _ _ _ hrow _ hc =>
            subst hc
            have hid := Table.key_of_find? hrow
            rw [key_transferRow] at hid
            simp [Db.isSettled, Table.find?_put, hid, hrow]
        | markFailed err =>
          cases hchange with
          | quiet hes => simp [ProcessorPc.next, TransferExecutor.next, Event.silent] at hes
          | rejected _ _ hrow _ =>
            have hid := Table.key_of_find? hrow
            rw [key_transferRow] at hid
            simp [Db.isSettled, Table.find?_put, hid, hrow]
        | _ =>
          simp only [ProcessorPc.next, TransferExecutor.next] at hnext
          grind
      | acknowledge outcome =>
        simp only [ProcessorPc.next] at hnext
        split at hnext <;> cases hnext
    | _ => exact (sameCall_of_next hm hnext (by simp)).elim
  | @start op m hm =>
    cases op <;> simp only [Operation.begin, TransferExecutor.start] at hm <;> grind
  | deliver _ => cases hnext
  | queue => cases hnext
  | abort => cases p <;> cases hnext
  | crash => cases hnext

/-- A call comes to its enqueue with a row that is stored under its key. -/
theorem hasTransfer_of_enqueue {deps : Dependencies} {s s₁ : Shared} {i : Pid} {p : Proc}
    {a : Label} {m : Move} {input : CreateTransferInput} {row : TransferRow} {created : Bool}
    (hinv : QueueInv s) (hacts : Acts deps s i p a m) (happ : s.apply i m.effect = some s₁)
    (hchange : Change deps s i p a s₁.db m.events)
    (hnext : m.next = .createTransfer input (.enqueue row created)) :
    s₁.db.HasTransfer input.idempotencyKey row.id := by
  rcases createTransfer_of_acts hacts hnext with ⟨pc, rfl⟩ | ⟨rfl, _⟩
  · cases hacts with
    | next hm =>
      cases pc with
      | commit row' =>
        cases hm
        cases hnext
        rcases hchange.keyed hinv.unique with ⟨hes, _⟩ | ⟨input', ch, hne, hproc, _, _, t, ht, hdb⟩
        · exact absurd List.mem_cons_self (hes i row)
        · obtain ⟨rfl, hpc⟩ := Proc.createTransfer.inj hproc
          obtain rfl := CreateTransferPc.commit.inj hpc
          refine ⟨TransferService.pendingRow deps input ch hne, ?_, rfl⟩
          rw [hdb]
          simp [Table.find?_insert? ht]
      | replay =>
        simp only [Proc.next, TransferService.next, TransferService.respond] at hm
        split at hm
        · cases hm
          cases hnext
        · next r hr =>
          split at hm
          · cases hm
            cases hnext
          · split at hm <;> cases hm <;> cases hnext
            obtain rfl := Option.some.inj happ
            obtain ⟨hmem, hkey⟩ := (transferByKey_eq_some hinv.unique).mp hr
            exact ⟨row, Table.find?_key hmem, hkey⟩
      | _ =>
        simp only [Proc.next, TransferService.next, TransferService.respond] at hm
        grind
    | abort => cases hnext
    | crash => cases hnext
  · cases hacts with
    | start hm =>
      simp only [Operation.begin] at hm
      split at hm <;> cases hm <;> cases hnext

theorem knowsRow_own {deps : Dependencies} {s s₁ : Shared} {i : Pid} {p : Proc} {a : Label}
    {m : Move} (hinv : QueueInv s) (hacts : Acts deps s i p a m)
    (happ : s.apply i m.effect = some s₁) (hchange : Change deps s i p a s₁.db m.events)
    (hp : p.KnowsRow s) : m.next.KnowsRow (s₁.record m.events) := by
  unfold Proc.KnowsRow
  split
  · next input row created hnext =>
    have hrow := hasTransfer_of_enqueue hinv hacts happ hchange hnext
    exact hrow
  · next jobId transferId hnext =>
    cases hacts with
    | @next p c m hm =>
      cases p with
      | processor job pc =>
        obtain rfl := Option.some.inj hm
        cases pc with
        | executing transfer fromAccountId pc =>
          cases pc <;> simp only [ProcessorPc.next, TransferExecutor.next] at hnext <;> grind
        | _ =>
          simp only [ProcessorPc.next, TransferExecutor.start] at hnext
          grind
      | _ => exact (sameCall_of_next hm hnext (by simp)).elim
    | @start op m hm =>
      cases op <;> simp only [Operation.begin, TransferExecutor.start] at hm <;> grind
    | @deliver job hjob =>
      cases hnext
      obtain ⟨q, _, rfl⟩ := Option.map_eq_some_iff.mp happ
      exact hinv.stored job (Table.mem_of_find? hjob)
    | queue => cases hnext
    | abort => cases p <;> cases hnext
    | crash => cases hnext
  · next jobId transfer fromAccountId pc hnext =>
    have harrives := acts_executing hacts hnext
    rw [Shared.record_db, apply_db happ harrives.private]
    cases harrives with
    | next _ => exact hp
    | selected _ _ _ _ _ => exact hp
    | called _ _ _ hjob => cases hjob
  · next jobId hnext =>
    obtain ⟨transferId, ⟨r, hr, hkey⟩, hsettled⟩ :=
      settled_of_returned hacts happ hchange hp hnext
    obtain ⟨r', hr', hsame⟩ := (hchange.rowStep transferId).sameRequest hr
    exact ⟨transferId, ⟨r', hr', hsame.idempotencyKey_eq ▸ hkey⟩, hsettled⟩
  · trivial

/-- The rows and the jobs as an invariant of the interleaving. -/
def queueProof (deps : Dependencies) (ok : Guard) :
    Interleaving.RelyGuarantee (system deps) ok
      fun c => ∀ i, (c.locals i).Holding deps c.shared i where
  inv := QueueInv
  asserts _ s p := p.KnowsRow s
  guarantee := RowGuarantee
  own c i a s p hknown hinv hall _ hstep := by
    obtain ⟨m, s₁, hact, happ, rfl, rfl⟩ := step_eq_some.mp hstep
    have hchange := change_act (hknown i) (acts_of_act hact) happ
    have hg : RowGuarantee i c.shared (s₁.record m.events) :=
      ⟨step_guarantee (hknown i) hstep, fun id => (hchange.rowStep id).isSettled⟩
    exact ⟨hinv.step (acts_of_act hact) happ hchange hg (hall i),
      knowsRow_own hinv (acts_of_act hact) happ hchange (hall i), hg⟩
  stable i j s s' p _ _ hg hp := knowsRow_stable hg hp

theorem queueInv {deps : Dependencies} {ok : Guard} {customers : Table CustomerRow} {c : State}
    (h : Reaches deps ok (Db.seeded customers) c) :
    QueueInv c.shared ∧ ∀ i, (c.locals i).KnowsRow c.shared :=
  (queueProof deps ok).sound h (fun _ hc => holding hc)
    ⟨Table.uniqueIndex_empty _, by simp [State.init, Table.empty],
      by simp [State.init, Table.empty]⟩ fun _ => trivial

/-! ## Calls that strand a row -/

/-- What the step of process `i` owes to pending rows. If it ends a call that returns, the row is
settled or a job that will still run executes it; and a row that the call has inserted and fails to
enqueue, because BullMQ throws for the key or the statement fails, is not pending any more. -/
structure NotStranded (c : State) (i : Pid) (a : Label) (c' : State) : Prop where
  returned : ∀ input res, c'.shared.log = c.shared.log ++ [.responded input (.ok res)] →
    c'.shared.db.isPending res.transfer.id →
      ∃ job ∈ c'.shared.queue.rows, job.transferId = res.transfer.id ∧ job.state.runnable
  inserted : ∀ input row, c.locals i = .createTransfer input (.enqueue row true) →
    (a = .abort ∨ ∃ err, c'.shared.log = c.shared.log ++ [.responded input (.error err)]) →
      ¬ c'.shared.db.isPending row.id

/-- A call that enqueues a pending row has a key that BullMQ accepts, and finds no failed job under
it; with another key, or if the statement fails, it is at least not the call that inserted the
row. -/
def enqueuesFresh (deps : Dependencies) : Guard := fun c i a =>
  match c.locals i, a with
  | .createTransfer input (.enqueue row created), .next _ =>
    c.shared.db.isPending row.id →
      if deps.customIdRejected input.idempotencyKey then created = false
      else ∀ job, c.shared.queue.find? input.idempotencyKey = some job → job.state ≠ .failed
  | .createTransfer _ (.enqueue row created), .abort =>
    c.shared.db.isPending row.id → created = false
  | _, _ => True

theorem responded_of_acts {deps : Dependencies} {s : Shared} {i : Pid} {p : Proc} {a : Label}
    {m : Move} {input : CreateTransferInput} {result : Except Thrown CreateTransferResult}
    (h : Acts deps s i p a m) (hevents : m.events = [.responded input result]) :
    ∃ pc c, p = .createTransfer input pc ∧ a = .next c ∧
      TransferService.next deps s i input c pc = some m := by
  cases h with
  | @next p c m hm =>
    cases p with
    | idle => simp [Proc.next] at hm
    | createTransfer input' pc =>
      have hm : TransferService.next deps s i input' c pc = some m := hm
      suffices input' = input by
        subst this
        exact ⟨pc, c, rfl, rfl, hm⟩
      cases pc <;> simp only [TransferService.next, TransferService.respond] at hm <;> grind
    | processor job pc =>
      obtain rfl := Option.some.inj hm
      cases pc with
      | executing transfer fromAccountId pc =>
        cases pc <;> simp only [ProcessorPc.next, TransferExecutor.next] at hevents <;> grind
      | _ =>
        simp only [ProcessorPc.next] at hevents
        grind
    | _ => exact absurd (hevents ▸ List.mem_singleton_self _) ((next_aside rfl hm).1 input result)
  | @start op m hm => cases op <;> simp only [Operation.begin] at hm <;> grind
  | deliver _ => cases hevents
  | queue => cases hevents
  | abort => cases p <;> cases hevents
  | crash => cases hevents

/-- Adding the job of a stored pending row leaves a job that will run, unless a failed one blocks
the id. -/
theorem runnable_after_add {s : Shared} {key : String} {transferId : Uuid} (hinv : QueueInv s)
    (hrow : s.db.HasTransfer key transferId) (hpending : s.db.isPending transferId) :
    (∃ job ∈ (s.queue.add key transferId).rows,
        job.transferId = transferId ∧ job.state.runnable) ↔
      ∀ job, s.queue.find? key = some job → job.state ≠ .failed := by
  cases hfind : s.queue.find? key with
  | none =>
    have hadd : ⟨key, transferId, .waiting, 0⟩ ∈ (s.queue.add key transferId).rows := by
      unfold Queue.add Table.insert?
      simp [hfind]
    exact ⟨fun _ _ h => (by cases h), fun _ => ⟨_, hadd, rfl, rfl⟩⟩
  | some job =>
    have hid : job.id = key := Table.key_of_find? hfind
    have hmem := Table.mem_of_find? hfind
    have hadd : s.queue.add key transferId = s.queue := by
      unfold Queue.add Table.insert?
      simp [hfind]
    have htransfer : job.transferId = transferId :=
      hasTransfer_unique hinv.unique (hid ▸ hinv.stored job hmem) hrow
    rw [hadd]
    constructor
    · rintro ⟨job', hmem', htransfer', hrunnable⟩ x hx
      obtain rfl := Option.some.inj hx
      -- a job on the same transfer has the same id
      obtain ⟨r, hr, hkey⟩ := hinv.stored job' hmem'
      obtain ⟨r', hr', hkey'⟩ := hrow
      rw [htransfer'] at hr
      obtain rfl := Option.some.inj (hr.symm.trans hr')
      have hsameId : job'.id = key := Option.some.inj (hkey.symm.trans hkey')
      have hsame : s.queue.find? key = some job' :=
        Table.find?_eq_some.mpr ⟨hmem', hsameId⟩
      obtain rfl := Option.some.inj (hfind.symm.trans hsame)
      intro hfailed
      simp [hfailed, JobState.runnable] at hrunnable
    · intro hstate
      refine ⟨job, hmem, htransfer, ?_⟩
      have hnotFailed := hstate job rfl
      cases hjob : job.state with
      | waiting | delayed | active worker => rfl
      | failed => exact absurd hjob hnotFailed
      | completed =>
        have := hinv.completed job hmem hjob
        exact absurd (htransfer ▸ this) (not_isSettled_of_isPending hpending)

/-- A call enqueues a row, or fails to. -/
def Enqueues (c : State) (i : Pid) (a : Label) : Prop :=
  ∃ input row created, c.locals i = .createTransfer input (.enqueue row created) ∧
    (a = .abort ∨ ∃ ch, a = .next ch)

theorem enqueuesFresh_of_not_enqueues {deps : Dependencies} {c : State} {i : Pid} {a : Label}
    (h : ¬ Enqueues c i a) : enqueuesFresh deps c i a := by
  unfold enqueuesFresh
  split
  · next input row created ch hlocal => exact absurd ⟨input, row, created, hlocal, .inr ⟨ch, rfl⟩⟩ h
  · next input row created hlocal => exact absurd ⟨input, row, created, hlocal, .inl rfl⟩ h
  · trivial

/-- A call that returns without an enqueue returns a settled row. -/
theorem settled_of_responded {deps : Dependencies} {s s₁ : Shared} {i : Pid} {p : Proc}
    {a : Label} {m : Move} {input : CreateTransferInput} {res : CreateTransferResult}
    (hinv : QueueInv s) (hacts : Acts deps s i p a m) (happ : s.apply i m.effect = some s₁)
    (hevents : m.events = [.responded input (.ok res)])
    (hcall : ¬ ∃ input row created ch,
      p = .createTransfer input (.enqueue row created) ∧ a = .next ch) :
    s₁.db.isSettled res.transfer.id := by
  obtain ⟨pc, ch, rfl, rfl, hm⟩ := responded_of_acts hacts hevents
  cases pc with
  | enqueue row created => exact absurd ⟨input, row, created, ch, rfl, rfl⟩ hcall
  | replay =>
    simp only [TransferService.next, TransferService.respond] at hm
    split at hm
    · cases hm
      simp at hevents
    · next r hr =>
      split at hm
      · cases hm
        simp at hevents
      · split at hm
        · cases hm
          simp at hevents
        · next hstatus =>
          cases hm
          obtain rfl := Option.some.inj happ
          obtain rfl : ⟨r, false⟩ = res := by simpa using hevents
          obtain ⟨hmem, _⟩ := (transferByKey_eq_some hinv.unique).mp hr
          exact isSettled_iff.mpr ⟨r, Table.find?_key hmem, hstatus⟩
  | _ =>
    simp only [TransferService.next, TransferService.respond] at hm
    grind

/-- A call that comes to its enqueue strands no pending row exactly when the job is accepted. -/
theorem notStranded_enqueue_iff {deps : Dependencies} {c c' : State} {i : Pid} {ch : Choice}
    {input : CreateTransferInput} {row : TransferRow} {created : Bool} (hinv : QueueInv c.shared)
    (hrow : c.shared.db.HasTransfer input.idempotencyKey row.id)
    (hlocal : c.locals i = .createTransfer input (.enqueue row created))
    (hmove : (system deps).move c i (.next ch) = some c') :
    NotStranded c i (.next ch) c' ↔ (c.shared.db.isPending row.id →
      if deps.customIdRejected input.idempotencyKey then created = false
      else ∀ job, c.shared.queue.find? input.idempotencyKey = some job → job.state ≠ .failed) := by
  obtain ⟨s, p, hstep, rfl⟩ := Interleaving.move_eq_some.mp hmove
  obtain ⟨m, s₁, hact, happ, rfl, rfl⟩ := step_eq_some.mp hstep
  have hm : TransferService.next deps c.shared i input ch (.enqueue row created) = some m := by
    simpa [hlocal, Proc.act, Proc.next] using hact
  simp only [TransferService.next, TransferService.respond] at hm
  by_cases hrejected : deps.customIdRejected input.idempotencyKey
  · rw [if_pos hrejected] at hm
    cases hm
    obtain rfl := Option.some.inj happ
    simp only [hrejected, if_true]
    constructor
    · intro hstranded hpending
      by_contra hcreated
      have hcreated : created = true := by simpa using hcreated
      subst hcreated
      exact hstranded.inserted input row hlocal (.inr ⟨_, rfl⟩) hpending
    · intro hfresh
      refine ⟨fun input' res he => ?_, fun input' row' hlocal' _ hpending => ?_⟩
      · obtain ⟨_, hresult⟩ :=
          Event.responded.inj (List.singleton_injective (List.append_cancel_left he))
        cases hresult
      · rw [hlocal] at hlocal'
        obtain ⟨_, hpc⟩ := Proc.createTransfer.inj hlocal'
        obtain ⟨rfl, rfl⟩ := CreateTransferPc.enqueue.inj hpc
        cases hfresh hpending
  · rw [if_neg hrejected] at hm
    cases hm
    obtain rfl := Option.some.inj happ
    rw [if_neg hrejected]
    constructor
    · intro hstranded hpending
      exact (runnable_after_add hinv hrow hpending).mp (hstranded.returned input _ rfl hpending)
    · intro hfresh
      refine ⟨fun input' res he => ?_, fun input' row' _ hfails => ?_⟩
      · obtain ⟨rfl, hresult⟩ :=
          Event.responded.inj (List.singleton_injective (List.append_cancel_left he))
        cases hresult
        exact fun hpending => (runnable_after_add hinv hrow hpending).mpr (hfresh hpending)
      · obtain hfalse | ⟨err, he⟩ := hfails
        · cases hfalse
        · obtain ⟨_, hresult⟩ :=
            Event.responded.inj (List.singleton_injective (List.append_cancel_left he))
          cases hresult

/-- A call whose enqueue fails strands its row exactly when it has inserted it. -/
theorem notStranded_abort_iff {deps : Dependencies} {c c' : State} {i : Pid}
    {input : CreateTransferInput} {row : TransferRow} {created : Bool}
    (hlocal : c.locals i = .createTransfer input (.enqueue row created))
    (hmove : (system deps).move c i .abort = some c') :
    NotStranded c i .abort c' ↔ (c.shared.db.isPending row.id → created = false) := by
  obtain ⟨s, p, hstep, rfl⟩ := Interleaving.move_eq_some.mp hmove
  obtain ⟨m, s₁, hact, happ, rfl, rfl⟩ := step_eq_some.mp hstep
  obtain rfl : (⟨.rollback, [], .idle⟩ : Move) = m := by
    simpa [hlocal, Proc.act, Proc.abort] using hact
  obtain rfl := Option.some.inj happ
  constructor
  · intro hstranded hpending
    by_contra hcreated
    have hcreated : created = true := by simpa using hcreated
    subst hcreated
    exact hstranded.inserted input row hlocal (.inl rfl) hpending
  · intro hfresh
    refine ⟨fun input' res he => ?_, fun input' row' hlocal' _ hpending => ?_⟩
    · cases List.append_cancel_left he
    · rw [hlocal] at hlocal'
      obtain ⟨_, hpc⟩ := Proc.createTransfer.inj hlocal'
      obtain ⟨rfl, rfl⟩ := CreateTransferPc.enqueue.inj hpc
      cases hfresh hpending

/-- The keys that the header schema accepts. -/
def headerKeys : Guard := fun _ _ a =>
  (match a with
    | .start (.createTransfer input) =>
      decide (1 ≤ input.idempotencyKey.length ∧ input.idempotencyKey.length ≤ 255)
    | _ => true) = true

instance (c : State) (i : Pid) (a : Label) : Decidable (headerKeys c i a) :=
  inferInstanceAs (Decidable (_ = true))

section Strand

/-- Two accounts and a call whose row has been committed and not yet enqueued. -/
def strandInsert (key : String) : List (Pid × Label) :=
  openAccounts ++ [(0, .start (.createTransfer (sampleInput key)))] ++
  List.replicate 5 (0, .next (chosen 3))

/-- A worker takes the job, loses its connection and reports the error. -/
def strandAttempt (key : String) : List (Pid × Label) :=
  [(1, .deliver key), (1, .abort), (1, .next (chosen 3)), (1, .queue (.promote key))]

/-- The job uses up its attempts, and the client sends the request again. -/
def strandReplay (key : String) : List (Pid × Label) :=
  strandInsert key ++ [(0, .next (chosen 3))] ++
    ((List.replicate 5 (strandAttempt key)).flatten.dropLast) ++
    [(0, .start (.createTransfer (sampleInput key)))] ++
    List.replicate 3 (0, .next (chosen 3))

/-- The call of process `i` ends with a pending row that no job will execute. -/
def strands (c : State) (i : Pid) (a : Label) (c' : State) : Bool :=
  match c.locals i with
  | .createTransfer input (.enqueue row created) =>
    c'.shared.db.isPending row.id && c'.shared.queue.rows.all (fun job => !job.state.runnable) &&
      (created && (decide (a = .abort) || decide (c'.shared.log = c.shared.log ++
          [.responded input
            (.error (.error (sampleDeps.customIdMessage input.idempotencyKey)))])) ||
        decide (c'.shared.log = c.shared.log ++ [.responded input (.ok ⟨row, created⟩)]))
  | _ => false

theorem not_notStranded_of_strands {c c' : State} {i : Pid} {a : Label}
    (h : strands c i a c' = true) : ¬ NotStranded c i a c' := by
  unfold strands at h
  split at h
  · next input row created hlocal =>
    simp only [Bool.and_eq_true, Bool.or_eq_true, decide_eq_true_eq] at h
    obtain ⟨⟨hpending, hjobs⟩, ⟨rfl, hfails⟩ | hlog⟩ := h
    · exact fun hstranded => hstranded.inserted input row hlocal
        (hfails.imp_right fun hlog => ⟨_, hlog⟩) hpending
    · intro hstranded
      obtain ⟨job, hjob, _, hrunnable⟩ := hstranded.returned _ _ hlog hpending
      simpa [hrunnable] using List.all_eq_true.mp hjobs job hjob
  · cases h

/-- The last step of a script ends a call with a pending row that no job will execute. -/
def strandsAfter (script : List (Pid × Label)) (a : Label) : Bool :=
  (((system sampleDeps).moves headerKeys (State.init (Db.seeded sampleCustomers)) script).bind
    fun c => ((system sampleDeps).move c 0 a).map fun c' => strands c 0 a c') = some true

theorem exists_stranding {script : List (Pid × Label)} {a : Label}
    (h : strandsAfter script a = true) :
    ∃ c c' : State, Reaches sampleDeps headerKeys (Db.seeded sampleCustomers) c ∧
      (system sampleDeps).move c 0 a = some c' ∧ ¬ NotStranded c 0 a c' := by
  obtain ⟨c, hc, hrest⟩ := Option.bind_eq_some_iff.mp (of_decide_eq_true h)
  obtain ⟨c', hmove, hstrands⟩ := Option.map_eq_some_iff.mp hrest
  exact ⟨c, c', .of_moves .refl hc, hmove, not_notStranded_of_strands hstrands⟩

end Strand

end BankPlatform.Bank
