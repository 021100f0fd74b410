import BankPlatform.Library.Table
import BankPlatform.Bank.Values

/-!
# The transfers queue

The BullMQ queue of `packages/queue/src/transfers.ts`: one job per job id, in one of the job
states. A job that throws is retried until its attempts are used up; finished jobs are evicted at
some later time (`removeOnComplete`, `removeOnFail`).
-/

namespace BankPlatform.Bank

open Library

/-- A process: a request handler or a worker. -/
abbrev Pid := ℕ

inductive JobState where
  | waiting
  | delayed
  | active (worker : Pid)
  | completed
  | failed
  deriving DecidableEq, Repr

/-- The states from which a job is still going to run. -/
def JobState.runnable : JobState → Bool
  | .waiting | .delayed | .active _ => true
  | .completed | .failed => false

structure Job where
  id : String
  transferId : Uuid
  state : JobState
  attemptsMade : ℕ
  deriving DecidableEq

instance : Keyed Job String := ⟨Job.id⟩

@[simp] theorem key_job (j : Job) : Keyed.key j = j.id := rfl

/-- `attempts` of `createTransfersQueue`. -/
def maxAttempts : ℕ := 5

/-- How a processor run ends for BullMQ. -/
inductive Outcome where
  | returned
  | threw (err : Thrown)
  deriving DecidableEq

/-- What the service takes from elsewhere: the SHA-256 digest of `node:crypto`, for which custom
job ids `queue.add` of BullMQ throws, and with which message. -/
structure Dependencies where
  sha256 : String → String
  customIdRejected : String → Bool
  customIdMessage : String → String

/-- What is documented of `queue.add`: integer literals are refused, and so are colons except
between three parts. -/
structure Dependencies.Documented (deps : Dependencies) : Prop where
  integers : ∀ n ≤ JsNumber.maxSafeInteger, deps.customIdRejected (toString n) = true
  colons : ∀ jobId : String, ':' ∈ jobId.toList → jobId.toList.count ':' ≠ 2 →
    deps.customIdRejected jobId = true

abbrev Queue := Table Job

namespace Queue

/-- `queue.add('execute', { transferId }, { jobId })`: a job id that exists is left alone. -/
def add (q : Queue) (jobId : String) (transferId : Uuid) : Queue :=
  match q.insert? ⟨jobId, transferId, .waiting, 0⟩ with
  | some q' => q'
  | none => q

/-- A worker takes a waiting job. -/
def take? (q : Queue) (worker : Pid) (jobId : String) : Option Queue :=
  match q.find? jobId with
  | some job =>
    if job.state = .waiting then some (q.put { job with state := .active worker }) else none
  | none => none

/-- The worker reports how the job ended; only the worker that holds the job is heard. -/
def settle (q : Queue) (worker : Pid) (jobId : String) (outcome : Outcome) : Queue :=
  match q.find? jobId with
  | some job =>
    if job.state = .active worker then
      match outcome with
      | .returned => q.put { job with state := .completed }
      | .threw _ =>
        let attemptsMade := job.attemptsMade + 1
        q.put
          { job with attemptsMade, state := if attemptsMade < maxAttempts then .delayed else .failed }
    else q
  | none => q

end Queue

/-- What BullMQ does on its own: a backoff ends, the job of a silent worker is given back or has
stalled too often, a finished job is evicted. -/
inductive QueueEvent where
  | promote (jobId : String)
  | stalled (jobId : String)
  | stalledOut (jobId : String)
  | evict (jobId : String)
  deriving DecidableEq

/-- The state that BullMQ moves a job to on its own, where the event applies to it. -/
def QueueEvent.target : QueueEvent → JobState → Option JobState
  | .promote _, .delayed => some .waiting
  | .stalled _, .active _ => some .waiting
  | .stalledOut _, .active _ => some .failed
  | _, _ => none

def QueueEvent.jobId : QueueEvent → String
  | .promote jobId | .stalled jobId | .stalledOut jobId | .evict jobId => jobId

def Queue.react? (q : Queue) (e : QueueEvent) : Option Queue :=
  match q.find? e.jobId with
  | some job =>
    match e with
    | .evict _ => if job.state.runnable then none else some (q.erase job.id)
    | e => (e.target job.state).map fun state => q.put { job with state }
  | none => none

/-! ## Jobs over a step -/

/-- The job was in the queue before, and has only become completed if `completes` says so. -/
def Queue.Keeps (q : Queue) (completes : Prop) (job : Job) : Prop :=
  ∃ job₀ ∈ q.rows, job₀.id = job.id ∧ job₀.transferId = job.transferId ∧
    (job.state = .completed → job₀.state = .completed ∨ completes)

namespace Queue

theorem keeps_of_mem {q : Queue} {completes : Prop} {job : Job} (h : job ∈ q.rows) :
    q.Keeps completes job :=
  ⟨job, h, rfl, rfl, .inl⟩

/-- A job that changes its state. -/
theorem keeps_put {q : Queue} {completes : Prop} {job job' x : Job}
    (hx : x ∈ (q.put job').rows) (h : job ∈ q.rows) (hid : job.id = job'.id)
    (htransfer : job.transferId = job'.transferId)
    (hstate : job'.state = .completed → completes) : q.Keeps completes x := by
  rcases Table.mem_put hx with hx | rfl
  · exact keeps_of_mem hx
  · exact ⟨job, h, hid, htransfer, fun hc => .inr (hstate hc)⟩

theorem mem_add {q : Queue} {jobId : String} {transferId : Uuid} {job : Job}
    (h : job ∈ (q.add jobId transferId).rows) :
    job ∈ q.rows ∨ job = ⟨jobId, transferId, .waiting, 0⟩ := by
  unfold add at h
  split at h
  · next q' hq' => exact (Table.mem_insert? hq').mp h
  · exact .inl h

theorem mem_take? {q q' : Queue} {worker : Pid} {jobId : String} {job : Job}
    (h : q.take? worker jobId = some q') (hjob : job ∈ q'.rows) : q.Keeps False job := by
  unfold take? at h
  split at h
  · next job₀ hfind =>
    split at h <;> cases h
    exact keeps_put hjob (Table.mem_of_find? hfind) rfl rfl (by simp)
  · cases h

theorem mem_settle {q : Queue} {worker : Pid} {jobId : String} {outcome : Outcome} {job : Job}
    (h : job ∈ (q.settle worker jobId outcome).rows) :
    q.Keeps (outcome = .returned ∧ job.id = jobId) job := by
  unfold settle at h
  split at h
  · next job₀ hfind =>
    have hid : job₀.id = jobId := Table.key_of_find? hfind
    split at h
    · cases outcome with
      | returned =>
        rcases Table.mem_put h with h | rfl
        · exact keeps_of_mem h
        · exact ⟨job₀, Table.mem_of_find? hfind, rfl, rfl, fun _ => .inr ⟨rfl, hid⟩⟩
      | threw err =>
        refine keeps_put h (Table.mem_of_find? hfind) rfl rfl fun hc => ?_
        dsimp only at hc
        split at hc <;> cases hc
    · exact keeps_of_mem h
  · exact keeps_of_mem h

theorem mem_react? {q q' : Queue} {e : QueueEvent} {job : Job} (h : q.react? e = some q')
    (hjob : job ∈ q'.rows) : q.Keeps False job := by
  unfold react? at h
  split at h
  · next job₀ hfind =>
    cases e with
    | evict jobId =>
      simp only [Option.ite_none_left_eq_some, Option.some.injEq] at h
      obtain ⟨_, rfl⟩ := h
      exact keeps_of_mem (List.mem_of_mem_filter hjob)
    | _ =>
      obtain ⟨state, hstate, rfl⟩ := Option.map_eq_some_iff.mp h
      refine keeps_put hjob (Table.mem_of_find? hfind) rfl rfl fun hc => ?_
      rw [show state = JobState.completed from hc] at hstate
      unfold QueueEvent.target at hstate
      grind
  · cases h

end Queue

end BankPlatform.Bank
