import Mathlib.Data.List.Forall2
import Mathlib.Logic.Relation

/-!
# Stop and wait

A receiver takes jobs one after another. A job that has to be stored is handed to a store with a
call, and nothing else is taken before the store has answered; then the job is acknowledged, or, if
the store refused, the receiver stops. Other jobs are acknowledged at once. From some moment on the
line to the sender may be down, and acknowledgements are lost.

## Main definitions

* `StopAndWait` — which jobs are stored, and what a call for a job carries.
* `StopAndWait.Step` — the steps of a receiver.
* `StopAndWait.Durable` — every acknowledged job is stored.

## Main results

* `StopAndWait.durable` — acknowledgements are durability promises in every run.
* `StopAndWait.final` — after a refusal nothing is called or acknowledged any more.
-/

namespace BankPlatform.Library

/-- How a call stands. -/
inductive Settlement where
  | pending
  | resolved
  | rejected
  deriving DecidableEq, Repr

/-- A call to the store. -/
structure Call (Payload : Type*) where
  payload : Payload
  settlement : Settlement

structure StopAndWait (Job Payload : Type*) where
  stores : Job → Bool
  carries : Job → Payload → Prop

namespace StopAndWait

inductive Phase (Job : Type*) where
  | ready
  | waiting (job : Job)
  | stopped

/-- The jobs taken and acknowledged, the calls, and whether the line is up. -/
structure Receiver (Job Payload : Type*) where
  taken : List Job
  acked : List Job
  calls : List (Call Payload)
  line : Bool
  phase : Phase Job

variable {Job Payload : Type*}

def initial : Receiver Job Payload := ⟨[], [], [], true, .ready⟩

/-- Acknowledge a job, if the line is up. -/
def Receiver.ack (r : Receiver Job Payload) (job : Job) : Receiver Job Payload :=
  { r with acked := r.acked ++ if r.line then [job] else [] }

variable (S : StopAndWait Job Payload)

inductive Step : Receiver Job Payload → Receiver Job Payload → Prop
  /-- A job that need not be stored. -/
  | pass {r : Receiver Job Payload} (job : Job) : r.phase = .ready → S.stores job = false →
      Step r ({ r with taken := r.taken ++ [job] }.ack job)
  | submit {r : Receiver Job Payload} (job : Job) (payload : Payload) : r.phase = .ready →
      S.stores job = true → S.carries job payload →
      Step r { r with
        taken := r.taken ++ [job], calls := r.calls ++ [⟨payload, .pending⟩], phase := .waiting job }
  | settle {r : Receiver Job Payload} (calls : List (Call Payload)) (payload : Payload)
      (settlement : Settlement) : r.calls = calls ++ [⟨payload, .pending⟩] →
      Step r { r with calls := calls ++ [⟨payload, settlement⟩] }
  | answer {r : Receiver Job Payload} (job : Job) (calls : List (Call Payload))
      (payload : Payload) : r.phase = .waiting job → r.calls = calls ++ [⟨payload, .resolved⟩] →
      Step r ({ r with phase := .ready }.ack job)
  | stop {r : Receiver Job Payload} (job : Job) (calls : List (Call Payload)) (payload : Payload) :
      r.phase = .waiting job → r.calls = calls ++ [⟨payload, .rejected⟩] →
      Step r { r with phase := .stopped, line := false }
  /-- The line goes down. -/
  | cut {r : Receiver Job Payload} : Step r { r with line := false }

abbrev Steps : Receiver Job Payload → Receiver Job Payload → Prop := Relation.ReflTransGen S.Step

/-! ## How far a receiver has come -/

/-- A call that has stored a job. -/
def Stored (job : Job) (call : Call Payload) : Prop :=
  S.carries job call.payload ∧ call.settlement = .resolved

/-- What has been taken and called beyond the jobs that were answered. -/
def Beyond (r : Receiver Job Payload) (answered : List Job) (settled : List (Call Payload)) :
    Phase Job → Prop
  | .ready => r.taken = answered ∧ r.calls = settled
  | .waiting job => ∃ call, r.taken = answered ++ [job] ∧ r.calls = settled ++ [call] ∧
      S.stores job = true ∧ S.carries job call.payload
  | .stopped => r.line = false ∧ ∃ job call, r.taken = answered ++ [job] ∧
      r.calls = settled ++ [call] ∧ S.stores job = true ∧ S.carries job call.payload ∧
      call.settlement = .rejected

/-- The receiver has answered some of its jobs, and stored those that have to be stored. -/
structure Progress (r : Receiver Job Payload) (answered : List Job)
    (settled : List (Call Payload)) : Prop where
  acked : r.acked <+: answered
  line : r.line = true → r.acked = answered
  stored : List.Forall₂ S.Stored (answered.filter S.stores) settled
  beyond : S.Beyond r answered settled r.phase

theorem progress_initial : S.Progress initial [] [] where
  acked := List.prefix_rfl
  line _ := rfl
  stored := .nil
  beyond := ⟨rfl, rfl⟩

variable {S} {r r' : Receiver Job Payload} {answered : List Job} {settled : List (Call Payload)}

theorem settlement_of_stored {jobs : List Job} {calls : List (Call Payload)}
    (h : List.Forall₂ S.Stored jobs calls) : ∀ call ∈ calls, call.settlement = .resolved := by
  induction h with
  | nil =>
    intro call hcall
    cases hcall
  | cons hstored _ ih =>
    intro call hcall
    rcases List.mem_cons.mp hcall with rfl | hcall
    · exact hstored.2
    · exact ih call hcall

/-- An answered job is acknowledged if the line is up. -/
theorem Progress.ack (h : S.Progress r answered settled) (job : Job) :
    r.acked ++ (if r.line then [job] else []) <+: answered ++ [job] ∧
      (r.line = true → r.acked ++ (if r.line then [job] else []) = answered ++ [job]) := by
  cases hline : r.line with
  | true =>
    simp only [if_true, h.line hline]
    exact ⟨List.prefix_rfl, fun _ => trivial⟩
  | false =>
    simp only [Bool.false_eq_true, if_false, List.append_nil]
    exact ⟨h.acked.trans (List.prefix_append _ _), fun hfalse => hfalse.elim⟩

theorem Progress.cut (h : S.Progress r answered settled) :
    S.Progress { r with line := false } answered settled where
  acked := h.acked
  line hfalse := by cases hfalse
  stored := h.stored
  beyond := by
    have hbeyond := h.beyond
    cases hphase : r.phase with
    | ready =>
      rw [hphase] at hbeyond
      exact hbeyond
    | waiting job =>
      rw [hphase] at hbeyond
      exact hbeyond
    | stopped =>
      rw [hphase] at hbeyond
      exact ⟨rfl, hbeyond.2⟩

/-- One step keeps the progress or answers one more job. -/
theorem Progress.step (h : S.Progress r answered settled) (hstep : S.Step r r') :
    ∃ answered' settled', S.Progress r' answered' settled' := by
  have hbeyond := h.beyond
  cases hstep with
  | pass job hphase hstores =>
    rw [hphase] at hbeyond
    obtain ⟨htaken, hcalls⟩ := hbeyond
    refine ⟨answered ++ [job], settled, (h.ack job).1, (h.ack job).2, ?_, ?_⟩
    · simpa [hstores] using h.stored
    · change S.Beyond _ _ _ r.phase
      rw [hphase]
      exact ⟨congrArg (· ++ [job]) htaken, hcalls⟩
  | submit job payload hphase hstores hcarries =>
    rw [hphase] at hbeyond
    obtain ⟨htaken, hcalls⟩ := hbeyond
    refine ⟨answered, settled, h.acked, h.line, h.stored, ⟨payload, .pending⟩, ?_, ?_, hstores,
      hcarries⟩
    · exact congrArg (· ++ [job]) htaken
    · exact congrArg (· ++ _) hcalls
  | settle calls payload settlement hpending =>
    refine ⟨answered, settled, h.acked, h.line, h.stored, ?_⟩
    change S.Beyond _ _ _ r.phase
    cases hphase : r.phase with
    | ready =>
      -- a pending call is none of the calls that have stored a job
      rw [hphase] at hbeyond
      have hmem : (⟨payload, .pending⟩ : Call Payload) ∈ settled := by
        rw [← hbeyond.2, hpending]
        exact List.mem_append_right _ List.mem_cons_self
      cases settlement_of_stored h.stored _ hmem
    | waiting job =>
      rw [hphase] at hbeyond
      obtain ⟨call, htaken, hcalls, hstores, hcarries⟩ := hbeyond
      obtain ⟨rfl, hcall⟩ := List.append_inj' (hpending.symm.trans hcalls) rfl
      obtain rfl := List.singleton_injective hcall
      exact ⟨⟨payload, settlement⟩, htaken, rfl, hstores, hcarries⟩
    | stopped =>
      rw [hphase] at hbeyond
      obtain ⟨_, job, call, _, hcalls, _, _, hrejected⟩ := hbeyond
      obtain ⟨_, hcall⟩ := List.append_inj' (hpending.symm.trans hcalls) rfl
      obtain rfl := List.singleton_injective hcall
      cases hrejected
  | answer job calls payload hphase hresolved =>
    rw [hphase] at hbeyond
    obtain ⟨call, htaken, hcalls, hstores, hcarries⟩ := hbeyond
    obtain ⟨_, hcall⟩ := List.append_inj' (hresolved.symm.trans hcalls) rfl
    obtain rfl := List.singleton_injective hcall
    refine ⟨answered ++ [job], settled ++ [⟨payload, .resolved⟩], (h.ack job).1, (h.ack job).2, ?_,
      ⟨htaken, ?_⟩⟩
    · rw [List.filter_append, List.filter_cons_of_pos hstores, List.filter_nil]
      exact List.rel_append h.stored (.cons ⟨hcarries, rfl⟩ .nil)
    · exact hcalls
  | stop job calls payload hphase hrejected =>
    rw [hphase] at hbeyond
    obtain ⟨call, htaken, hcalls, hstores, hcarries⟩ := hbeyond
    obtain ⟨_, hcall⟩ := List.append_inj' (hrejected.symm.trans hcalls) rfl
    obtain rfl := List.singleton_injective hcall
    refine ⟨answered, settled, h.acked, ?_, h.stored, ?_⟩
    · intro hfalse
      cases hfalse
    · exact ⟨rfl, job, _, htaken, hcalls, hstores, hcarries, rfl⟩
  | cut => exact ⟨answered, settled, h.cut⟩

theorem Steps.progress (h : S.Steps initial r) :
    ∃ answered settled, S.Progress r answered settled := by
  induction h with
  | refl => exact ⟨[], [], S.progress_initial⟩
  | tail _ hstep ih =>
    obtain ⟨answered, settled, hprogress⟩ := ih
    exact hprogress.step hstep

/-! ## What an acknowledgement promises -/

variable (S) in
/-- Every acknowledged job that has to be stored is stored by a call of its own. The other calls
are for the jobs taken after these, in their order, and at most one of them is pending. -/
def Durable (taken acked : List Job) (calls : List (Call Payload)) : Prop :=
  ∃ later stored others, taken = acked ++ later ∧ calls = stored ++ others ∧
    List.Forall₂ S.Stored (acked.filter S.stores) stored ∧
    List.Forall₂ (fun job call => S.carries job call.payload) (later.filter S.stores) others ∧
    (calls.filter fun call => call.settlement = .pending).length ≤ 1

/-- The calls for the jobs taken so far. -/
theorem Progress.calls (h : S.Progress r answered settled) :
    ∃ job? call?, r.taken = answered ++ job? ∧ r.calls = settled ++ call? ∧ call?.length ≤ 1 ∧
      List.Forall₂ (fun job call => S.carries job call.payload) (job?.filter S.stores) call? := by
  have hbeyond := h.beyond
  cases hphase : r.phase with
  | ready =>
    rw [hphase] at hbeyond
    exact ⟨[], [], by simpa using hbeyond.1, by simpa using hbeyond.2, Nat.zero_le 1, .nil⟩
  | waiting job =>
    rw [hphase] at hbeyond
    obtain ⟨call, htaken, hcalls, hstores, hcarries⟩ := hbeyond
    refine ⟨[job], [call], htaken, hcalls, Nat.le_refl 1, ?_⟩
    rw [List.filter_cons_of_pos hstores]
    exact .cons hcarries .nil
  | stopped =>
    rw [hphase] at hbeyond
    obtain ⟨_, job, call, htaken, hcalls, hstores, hcarries, _⟩ := hbeyond
    refine ⟨[job], [call], htaken, hcalls, Nat.le_refl 1, ?_⟩
    rw [List.filter_cons_of_pos hstores]
    exact .cons hcarries .nil

theorem Progress.durable (h : S.Progress r answered settled) :
    S.Durable r.taken r.acked r.calls := by
  obtain ⟨unacked, rfl⟩ := h.acked
  obtain ⟨job?, call?, htaken, hcalls, hlength, hcarries⟩ := h.calls
  have hstored := h.stored
  rw [List.filter_append] at hstored
  -- the calls of the answered jobs, cut where the acknowledged ones end
  have hacked := List.forall₂_take_append _ _ _ hstored.flip
  have hunacked := List.forall₂_drop_append _ _ _ hstored.flip
  set n := (r.acked.filter S.stores).length
  refine ⟨unacked ++ job?, settled.take n, settled.drop n ++ call?, ?_, ?_, hacked.flip, ?_, ?_⟩
  · rw [htaken, List.append_assoc]
  · rw [hcalls, ← List.append_assoc, List.take_append_drop]
  · rw [List.filter_append]
    exact List.rel_append (hunacked.flip.imp fun _ _ hcall => hcall.1) hcarries
  · have hsettled : settled.filter (fun call => call.settlement = .pending) = [] := by
      rw [List.filter_eq_nil_iff]
      intro call hcall
      simp [settlement_of_stored h.stored call hcall]
    rw [hcalls, List.filter_append, hsettled, List.nil_append]
    exact Nat.le_trans (List.length_filter_le _ _) hlength

/-- The calls are for the jobs taken that have to be stored, in their order. -/
theorem Durable.carried {taken acked : List Job} {calls : List (Call Payload)}
    (h : S.Durable taken acked calls) :
    List.Forall₂ (fun job call => S.carries job call.payload) (taken.filter S.stores) calls := by
  obtain ⟨later, stored, others, rfl, rfl, hstored, hothers, -⟩ := h
  rw [List.filter_append]
  exact List.rel_append (hstored.imp fun _ _ hcall => hcall.1) hothers

/-- The first calls are for the acknowledged jobs, and have stored them. -/
theorem Durable.resolved {taken acked : List Job} {calls : List (Call Payload)}
    (h : S.Durable taken acked calls) {n : ℕ} (hn : n < (acked.filter S.stores).length) :
    ∃ call, calls[n]? = some call ∧ call.settlement = .resolved := by
  obtain ⟨later, stored, others, -, rfl, hstored, -⟩ := h
  have hlt : n < stored.length := hstored.length_eq ▸ hn
  refine ⟨stored[n], ?_, settlement_of_stored hstored _ (List.getElem_mem hlt)⟩
  rw [List.getElem?_append_left hlt, List.getElem?_eq_getElem hlt]

/-- A job that is waited for has been taken. -/
theorem mem_taken_of_waiting (h : S.Steps initial r) {job : Job} (hphase : r.phase = .waiting job) :
    job ∈ r.taken := by
  obtain ⟨answered, settled, hprogress⟩ := h.progress
  have hbeyond := hprogress.beyond
  rw [hphase] at hbeyond
  obtain ⟨call, htaken, _⟩ := hbeyond
  rw [htaken]
  exact List.mem_append_right _ List.mem_cons_self

/-- The last call is for the job that is waited for. -/
theorem carries_of_waiting (h : S.Steps initial r) {job : Job} (hphase : r.phase = .waiting job)
    {call : Call Payload} (hlast : r.calls.getLast? = some call) : S.carries job call.payload := by
  obtain ⟨answered, settled, hprogress⟩ := h.progress
  have hbeyond := hprogress.beyond
  rw [hphase] at hbeyond
  obtain ⟨call', -, hcalls, -, hcarries⟩ := hbeyond
  rw [hcalls, List.getLast?_concat] at hlast
  exact Option.some.inj hlast ▸ hcarries

/-- In every run, acknowledgements are durability promises. -/
theorem durable (h : S.Steps initial r) : S.Durable r.taken r.acked r.calls := by
  obtain ⟨answered, settled, hprogress⟩ := h.progress
  exact hprogress.durable

/-- No call is made before the first job. -/
theorem calls_eq_nil (h : S.Steps initial r) (htaken : r.taken = []) : r.calls = [] := by
  obtain ⟨later, stored, others, hjobs, hcalls, hstored, hothers, _⟩ := durable h
  rw [htaken] at hjobs
  obtain ⟨hacked, rfl⟩ := List.append_eq_nil_iff.mp hjobs.symm
  rw [hacked, List.filter_nil, List.forall₂_nil_left_iff] at hstored
  rw [List.filter_nil, List.forall₂_nil_left_iff] at hothers
  rw [hcalls, hstored, hothers, List.append_nil]

/-! ## Refusals -/

/-- The last call was refused, and the receiver has stopped or is about to. -/
def Refused (r : Receiver Job Payload) : Prop :=
  r.phase ≠ .ready ∧ ∃ calls payload, r.calls = calls ++ [⟨payload, .rejected⟩]

theorem Progress.refused (h : S.Progress r answered settled)
    (hrejected : ∃ call ∈ r.calls, call.settlement = .rejected) : Refused r := by
  obtain ⟨call, hmem, hcall⟩ := hrejected
  have hbeyond := h.beyond
  have hnot : call ∉ settled := by
    intro hsettled
    rw [settlement_of_stored h.stored call hsettled] at hcall
    cases hcall
  have hlast {last : Call Payload} (hcalls : r.calls = settled ++ [last]) :
      ∃ calls payload, r.calls = calls ++ [⟨payload, .rejected⟩] := by
    rw [hcalls, List.mem_append, or_iff_right hnot, List.mem_singleton] at hmem
    subst hmem
    exact ⟨settled, call.payload, by rw [hcalls, ← hcall]⟩
  cases hphase : r.phase with
  | ready =>
    rw [hphase] at hbeyond
    rw [hbeyond.2] at hmem
    exact absurd hmem hnot
  | waiting job =>
    rw [hphase] at hbeyond
    obtain ⟨last, _, hcalls, _⟩ := hbeyond
    exact ⟨by simp [hphase], hlast hcalls⟩
  | stopped =>
    rw [hphase] at hbeyond
    obtain ⟨_, _, last, _, hcalls, _⟩ := hbeyond
    exact ⟨by simp [hphase], hlast hcalls⟩

theorem Refused.step (h : Refused r) (hstep : S.Step r r') :
    Refused r' ∧ r'.calls = r.calls ∧ r'.acked = r.acked := by
  obtain ⟨hphase, calls, payload, hcalls⟩ := h
  have hother {calls' : List (Call Payload)} {payload' : Payload} {settlement : Settlement}
      (hne : settlement ≠ .rejected) : r.calls ≠ calls' ++ [⟨payload', settlement⟩] := by
    intro hcalls'
    obtain ⟨_, hlast⟩ := List.append_inj' (hcalls.symm.trans hcalls') rfl
    cases List.singleton_injective hlast
    exact hne rfl
  cases hstep with
  | pass job hready _ => exact absurd hready hphase
  | submit job payload' hready _ _ => exact absurd hready hphase
  | settle calls' payload' settlement hpending => exact absurd hpending (hother (by decide))
  | answer job calls' payload' _ hresolved => exact absurd hresolved (hother (by decide))
  | stop job calls' payload' _ _ => exact ⟨⟨by simp, calls, payload, hcalls⟩, rfl, rfl⟩
  | cut => exact ⟨⟨hphase, calls, payload, hcalls⟩, rfl, rfl⟩

/-- After a refusal nothing is called or acknowledged any more. -/
theorem final (h : S.Steps initial r) (hrejected : ∃ call ∈ r.calls, call.settlement = .rejected)
    (hsteps : S.Steps r r') : r'.calls = r.calls ∧ r'.acked = r.acked := by
  obtain ⟨answered, settled, hprogress⟩ := h.progress
  have hkeep : Refused r' ∧ r'.calls = r.calls ∧ r'.acked = r.acked := by
    induction hsteps with
    | refl => exact ⟨hprogress.refused hrejected, rfl, rfl⟩
    | tail _ hstep ih =>
      obtain ⟨hrefused, hcalls, hacked⟩ := ih
      obtain ⟨hrefused', hcalls', hacked'⟩ := hrefused.step hstep
      exact ⟨hrefused', hcalls'.trans hcalls, hacked'.trans hacked⟩
  exact hkeep.2

end StopAndWait

end BankPlatform.Library
