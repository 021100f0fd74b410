import BankPlatform.Library.Interleaving
import BankPlatform.Telemetry.Writers

/-!
# Committed offsets

`eachBatch` of `createTelemetryConsumer` in `packages/events/src/client.ts`, with what the client
makes of its end: when `eachBatch` returns, the last offset of the batch is committed, and with it
every message of the batch; when it throws, the batch comes again.

## Main definitions

* `consumer` — the partitions of one consumer.
* `DealtWith` — a message was handled or dead-lettered.

## Main results

* `committed_dealtWith` — committed messages have been dealt with, unless the loop gives up a batch.
-/

namespace BankPlatform.Telemetry

open Library Teltonika

/-! ## Batches -/

def telemetryBackfillTopic : String := "vehicle.telemetry.backfill"

def telemetryDlqTopic : String := "vehicle.telemetry.dlq"

structure KafkaMessage where
  key : Option Bytes
  value : Body
  offset : String

structure KafkaBatch where
  topic : String
  partition : ℕ
  messages : List KafkaMessage

structure Dlq where
  topic : Option String

structure TelemetryConsumerOptions where
  groupId : String
  backfillTopic : Option String
  /-- Without it, undecodable messages are logged and dropped. -/
  dlq : Option Dlq

/-- A message for the dead-letter topic, with its headers. -/
structure DeadLetter where
  topic : String
  key : Option Bytes
  value : Body
  rejectionReason : String
  sourceTopic : String
  sourceOffset : String
  consumerGroup : String

structure TelemetryBatchContext where
  topic : String
  partition : ℕ
  freshness : Freshness

/-- A call of the handler, for the decodable messages of a batch. -/
structure HandlerCall where
  batch : KafkaBatch
  events : List TelemetryEvent
  context : TelemetryBatchContext

variable (wording : Wording) (options : TelemetryConsumerOptions)

/-- What `deadLetter` sends. -/
def deadLetter (message : KafkaMessage) (source reason : String) : DeadLetter where
  topic := (options.dlq.bind Dlq.topic).getD telemetryDlqTopic
  key := message.key
  value := message.value
  rejectionReason := reason
  sourceTopic := source
  sourceOffset := message.offset
  consumerGroup := options.groupId

def batchContext (batch : KafkaBatch) : TelemetryBatchContext where
  topic := batch.topic
  partition := batch.partition
  freshness :=
    if batch.topic = options.backfillTopic.getD telemetryBackfillTopic then .backfill else .live

/-! ## `eachBatch` -/

/-- Where `eachBatch` stands. -/
inductive Delivery where
  /-- No batch is delivered. -/
  | idle
  /-- Before the next of these messages, with the events so far. -/
  | looping (batch : KafkaBatch) (messages : List KafkaMessage) (events : List TelemetryEvent)
  /-- It awaits `deadLetter` for a message. -/
  | rejecting (batch : KafkaBatch) (message : KafkaMessage) (reason : String)
      (messages : List KafkaMessage) (events : List TelemetryEvent)
  /-- It awaits the handler. -/
  | handling (batch : KafkaBatch) (events : List TelemetryEvent)

/-- The sends and calls that have resolved, and the messages whose offsets are committed. -/
structure ConsumerLog where
  deadLettered : List DeadLetter
  handled : List HandlerCall
  committed : List KafkaMessage

inductive ConsumerLabel where
  | deliver (batch : KafkaBatch)
  /-- `eachBatch` goes on; `isRunning()` and `isStale()` say this if they are asked. -/
  | proceed (isRunning isStale : Bool)
  /-- What is awaited resolves or rejects. -/
  | settle (resolved : Bool)

/-- `eachBatch` has returned: the last offset of the batch is committed. -/
def ConsumerLog.commit (log : ConsumerLog) (batch : KafkaBatch) : ConsumerLog :=
  { log with committed := log.committed ++ batch.messages }

/-- From one message to the next, or to the handler. -/
def proceedBatch (log : ConsumerLog) (batch : KafkaBatch) (events : List TelemetryEvent)
    (isRunning isStale : Bool) : List KafkaMessage → ConsumerLog × Delivery
  | [] => if events.length = 0 then (log.commit batch, .idle) else (log, .handling batch events)
  | message :: messages =>
    if !isRunning || isStale then (log.commit batch, .idle)
    else
      match decodeTelemetryEvent wording message.value with
      | .ok event => (log, .looping batch messages (events ++ [event]))
      | .rejected reason =>
        match options.dlq with
        | none => (log, .looping batch messages events)
        | some _ => (log, .rejecting batch message reason messages events)

/-- A step of `eachBatch`; where an awaited promise rejects, it throws. -/
def consumerStep (log : ConsumerLog) (delivery : Delivery) :
    ConsumerLabel → Option (ConsumerLog × Delivery)
  | .deliver batch =>
    match delivery with
    | .idle => some (log, .looping batch batch.messages [])
    | _ => none
  | .proceed isRunning isStale =>
    match delivery with
    | .looping batch messages events =>
      some (proceedBatch wording options log batch events isRunning isStale messages)
    | _ => none
  | .settle resolved =>
    match delivery with
    | .rejecting batch message reason messages events =>
      if resolved then
        some ({ log with
          deadLettered := log.deadLettered ++ [deadLetter options message batch.topic reason] },
          .looping batch messages events)
      else some (log, .idle)
    | .handling batch events =>
      if resolved then
        some (ConsumerLog.commit { log with
          handled := log.handled ++ [⟨batch, events, batchContext options batch⟩] } batch, .idle)
      else some (log, .idle)
    | _ => none

/-- The partitions that a consumer is assigned. -/
def consumer (Partition : Type) : Interleaving Partition ConsumerLog Delivery ConsumerLabel where
  step log _ delivery label := consumerStep wording options log delivery label

def subscribed (Partition : Type) : Config Partition ConsumerLog Delivery :=
  ⟨⟨[], [], []⟩, fun _ => .idle⟩

/-! ## Messages that are dealt with -/

variable {wording options} {log log' : ConsumerLog}

/-- An undecodable message is in the dead-letter topic, if there is one. -/
def DeadLettered (options : TelemetryConsumerOptions) (log : ConsumerLog) (message : KafkaMessage)
    (reason : String) : Prop :=
  options.dlq = none ∨ ∃ source, deadLetter options message source reason ∈ log.deadLettered

/-- The handler got the event of the message and resolved, or the message is dead-lettered. -/
def DealtWith (wording : Wording) (options : TelemetryConsumerOptions) (log : ConsumerLog)
    (message : KafkaMessage) : Prop :=
  match decodeTelemetryEvent wording message.value with
  | .ok event => ∃ call ∈ log.handled, message ∈ call.batch.messages ∧ event ∈ call.events
  | .rejected reason => DeadLettered options log message reason

/-- What has resolved stays so. -/
structure Grows (log log' : ConsumerLog) : Prop where
  deadLettered : log.deadLettered ⊆ log'.deadLettered
  handled : log.handled ⊆ log'.handled

theorem Grows.refl (log : ConsumerLog) : Grows log log := ⟨List.Subset.refl _, List.Subset.refl _⟩

theorem DeadLettered.mono {message : KafkaMessage} {reason : String}
    (h : DeadLettered options log message reason) (hgrows : Grows log log') :
    DeadLettered options log' message reason := by
  obtain hnone | ⟨source, hmem⟩ := h
  · exact .inl hnone
  · exact .inr ⟨source, hgrows.deadLettered hmem⟩

theorem DealtWith.mono {message : KafkaMessage} (h : DealtWith wording options log message)
    (hgrows : Grows log log') : DealtWith wording options log' message := by
  unfold DealtWith at h ⊢
  split at h
  · obtain ⟨call, hcall, hin⟩ := h
    exact ⟨call, hgrows.handled hcall, hin⟩
  · exact h.mono hgrows

/-- The events of some messages are collected, and the others are dead-lettered. -/
def Collected (wording : Wording) (options : TelemetryConsumerOptions) (log : ConsumerLog)
    (messages : List KafkaMessage) (events : List TelemetryEvent) : Prop :=
  ∀ message ∈ messages,
    match decodeTelemetryEvent wording message.value with
    | .ok event => event ∈ events
    | .rejected reason => DeadLettered options log message reason

theorem Collected.mono {messages : List KafkaMessage} {events events' : List TelemetryEvent}
    (h : Collected wording options log messages events) (hgrows : Grows log log')
    (hevents : events ⊆ events') : Collected wording options log' messages events' := by
  intro message hmessage
  have hcollected := h message hmessage
  split at hcollected
  · exact hevents hcollected
  · exact hcollected.mono hgrows

theorem Collected.concat {messages : List KafkaMessage} {events : List TelemetryEvent}
    {message : KafkaMessage} (h : Collected wording options log messages events)
    (hlast : match decodeTelemetryEvent wording message.value with
      | .ok event => event ∈ events
      | .rejected reason => DeadLettered options log message reason) :
    Collected wording options log (messages ++ [message]) events := by
  intro other hother
  rcases List.mem_append.mp hother with hother | hother
  · exact h other hother
  · rw [List.mem_singleton.mp hother]
    exact hlast

/-- Without events there was nothing to decode. -/
theorem Collected.dealtWith_of_nil {messages : List KafkaMessage}
    (h : Collected wording options log messages []) :
    ∀ message ∈ messages, DealtWith wording options log message := by
  intro message hmessage
  have hcollected := h message hmessage
  unfold DealtWith
  split at hcollected
  · cases hcollected
  · exact hcollected

/-- What `eachBatch` has done so far. -/
def Pending (wording : Wording) (options : TelemetryConsumerOptions) (log : ConsumerLog) :
    Delivery → Prop
  | .idle => True
  | .looping batch messages events =>
    ∃ done, batch.messages = done ++ messages ∧ Collected wording options log done events
  | .rejecting batch message reason messages events =>
    ∃ done, batch.messages = done ++ message :: messages ∧
      Collected wording options log done events ∧
      decodeTelemetryEvent wording message.value = .rejected reason
  | .handling batch events => Collected wording options log batch.messages events

theorem Pending.mono {delivery : Delivery} (h : Pending wording options log delivery)
    (hgrows : Grows log log') : Pending wording options log' delivery := by
  cases delivery with
  | idle => trivial
  | looping batch messages events =>
    obtain ⟨done, hdone, hcollected⟩ := h
    exact ⟨done, hdone, hcollected.mono hgrows (List.Subset.refl _)⟩
  | rejecting batch message reason messages events =>
    obtain ⟨done, hdone, hcollected, hrejected⟩ := h
    exact ⟨done, hdone, hcollected.mono hgrows (List.Subset.refl _), hrejected⟩
  | handling batch events => exact Collected.mono h hgrows (List.Subset.refl _)

/-! ## Runs -/

variable {Partition : Type}

/-- The loop asks whether it may go on. -/
def Delivery.asks : Delivery → Bool
  | .looping _ (_ :: _) _ => true
  | _ => false

/-- Whenever the loop asks, the consumer is running and the batch is not stale. -/
def undisturbed : Interleaving.Guard Partition ConsumerLog Delivery ConsumerLabel :=
  fun c i label => (c.locals i).asks = true → ∀ isRunning isStale,
    label = .proceed isRunning isStale → isRunning = true ∧ isStale = false

/-- Every committed message has been dealt with. -/
def CommitsDealtWith (wording : Wording) (options : TelemetryConsumerOptions)
    (log : ConsumerLog) : Prop :=
  ∀ message ∈ log.committed, DealtWith wording options log message

theorem CommitsDealtWith.grow (h : CommitsDealtWith wording options log) (hgrows : Grows log log')
    (hcommitted : log'.committed = log.committed) : CommitsDealtWith wording options log' := by
  intro message hmessage
  rw [hcommitted] at hmessage
  exact (h message hmessage).mono hgrows

theorem CommitsDealtWith.commit (h : CommitsDealtWith wording options log) {batch : KafkaBatch}
    (hbatch : ∀ message ∈ batch.messages, DealtWith wording options log message) :
    CommitsDealtWith wording options (log.commit batch) := by
  have hgrows : Grows log (log.commit batch) := ⟨List.Subset.refl _, List.Subset.refl _⟩
  intro message hmessage
  rcases List.mem_append.mp hmessage with hmessage | hmessage
  · exact (h message hmessage).mono hgrows
  · exact (hbatch message hmessage).mono hgrows

/-- Going on in an undisturbed loop. -/
theorem proceedBatch_pending {batch : KafkaBatch} {messages : List KafkaMessage}
    {events : List TelemetryEvent} {isRunning isStale : Bool} {delivery : Delivery}
    (hinv : CommitsDealtWith wording options log)
    (hpending : Pending wording options log (.looping batch messages events))
    (hgoes : messages ≠ [] → isRunning = true ∧ isStale = false)
    (h : proceedBatch wording options log batch events isRunning isStale messages =
      (log', delivery)) :
    CommitsDealtWith wording options log' ∧ Pending wording options log' delivery ∧
      Grows log log' := by
  obtain ⟨done, hdone, hcollected⟩ := hpending
  cases messages with
  | nil =>
    rw [List.append_nil] at hdone
    rw [← hdone] at hcollected
    by_cases hnone : events.length = 0
    · rw [proceedBatch, if_pos hnone] at h
      cases h
      rw [List.length_eq_zero_iff.mp hnone] at hcollected
      exact ⟨hinv.commit hcollected.dealtWith_of_nil, trivial,
        ⟨List.Subset.refl _, List.Subset.refl _⟩⟩
    · rw [proceedBatch, if_neg hnone] at h
      cases h
      exact ⟨hinv, hcollected, .refl log⟩
  | cons message messages =>
    obtain ⟨rfl, rfl⟩ := hgoes (List.cons_ne_nil _ _)
    have hsplit : batch.messages = (done ++ [message]) ++ messages := by
      rw [hdone, List.append_assoc, List.singleton_append]
    unfold proceedBatch at h
    simp only [Bool.not_true, Bool.or_self, Bool.false_eq_true, if_false] at h
    split at h
    · next event hdecode =>
      cases h
      refine ⟨hinv, ⟨done ++ [message], hsplit, ?_⟩, .refl log⟩
      refine (hcollected.mono (.refl log) (List.subset_append_left _ _)).concat ?_
      rw [hdecode]
      exact List.mem_append_right _ List.mem_cons_self
    · next reason hdecode =>
      split at h
      · next hdlq =>
        cases h
        refine ⟨hinv, ⟨done ++ [message], hsplit, hcollected.concat ?_⟩, .refl log⟩
        rw [hdecode]
        exact .inl hdlq
      · cases h
        exact ⟨hinv, ⟨done, hdone, hcollected, hdecode⟩, .refl log⟩

/-- A dead letter that has arrived. -/
theorem settle_rejecting {batch : KafkaBatch} {message : KafkaMessage} {reason : String}
    {messages : List KafkaMessage} {events : List TelemetryEvent}
    (hinv : CommitsDealtWith wording options log)
    (hpending : Pending wording options log (.rejecting batch message reason messages events))
    (hlog : log' = { log with
      deadLettered := log.deadLettered ++ [deadLetter options message batch.topic reason] }) :
    CommitsDealtWith wording options log' ∧
      Pending wording options log' (.looping batch messages events) ∧ Grows log log' := by
  obtain ⟨done, hdone, hcollected, hdecode⟩ := hpending
  have hgrows : Grows log log' := by
    rw [hlog]
    exact ⟨List.subset_append_left _ _, List.Subset.refl _⟩
  refine ⟨hinv.grow hgrows (by rw [hlog]), ⟨done ++ [message], ?_, ?_⟩, hgrows⟩
  · rw [hdone, List.append_assoc, List.singleton_append]
  · refine (hcollected.mono hgrows (List.Subset.refl _)).concat ?_
    rw [hdecode]
    refine .inr ⟨batch.topic, ?_⟩
    rw [hlog]
    exact List.mem_append_right _ List.mem_cons_self

/-- A handler call that has resolved. -/
theorem settle_handling {batch : KafkaBatch} {events : List TelemetryEvent}
    (hinv : CommitsDealtWith wording options log)
    (hcollected : Collected wording options log batch.messages events)
    (hlog : log' = { log with
      handled := log.handled ++ [⟨batch, events, batchContext options batch⟩] }) :
    CommitsDealtWith wording options (log'.commit batch) ∧ Grows log (log'.commit batch) := by
  have hgrows : Grows log log' := by
    rw [hlog]
    exact ⟨List.Subset.refl _, List.subset_append_left _ _⟩
  refine ⟨(hinv.grow hgrows (by rw [hlog])).commit fun message hmessage => ?_,
    ⟨hgrows.deadLettered, hgrows.handled⟩⟩
  have hmessage' := hcollected.mono hgrows (List.Subset.refl _) message hmessage
  unfold DealtWith
  split at hmessage'
  · refine ⟨⟨batch, events, batchContext options batch⟩, ?_, hmessage, hmessage'⟩
    rw [hlog]
    exact List.mem_append_right _ List.mem_cons_self
  · exact hmessage'

/-- A step in an undisturbed run. -/
theorem consumerStep_pending {delivery delivery' : Delivery} {label : ConsumerLabel}
    (hinv : CommitsDealtWith wording options log)
    (hpending : Pending wording options log delivery)
    (hgoes : delivery.asks = true → ∀ isRunning isStale, label = .proceed isRunning isStale →
      isRunning = true ∧ isStale = false)
    (h : consumerStep wording options log delivery label = some (log', delivery')) :
    CommitsDealtWith wording options log' ∧ Pending wording options log' delivery' ∧
      Grows log log' := by
  unfold consumerStep at h
  cases label with
  | deliver batch =>
    cases delivery with
    | idle =>
      cases h
      exact ⟨hinv, ⟨[], rfl, fun message hmessage => by cases hmessage⟩, .refl log⟩
    | looping => cases h
    | rejecting => cases h
    | handling => cases h
  | proceed isRunning isStale =>
    cases delivery with
    | looping batch messages events =>
      refine proceedBatch_pending hinv hpending (fun hne => ?_) (Option.some.inj h)
      cases messages with
      | nil => exact absurd rfl hne
      | cons message messages => exact hgoes rfl _ _ rfl
    | idle => cases h
    | rejecting => cases h
    | handling => cases h
  | settle resolved =>
    cases delivery with
    | rejecting batch message reason messages events =>
      cases resolved with
      | true =>
        cases h
        exact settle_rejecting hinv hpending rfl
      | false =>
        cases h
        exact ⟨hinv, trivial, .refl log⟩
    | handling batch events =>
      cases resolved with
      | true =>
        cases h
        obtain ⟨hcommits, hgrows⟩ := settle_handling hinv hpending rfl
        exact ⟨hcommits, trivial, hgrows⟩
      | false =>
        cases h
        exact ⟨hinv, trivial, .refl log⟩
    | idle => cases h
    | looping => cases h

variable (wording options) [DecidableEq Partition]

/-- Every partition keeps its own account; the others only add to the log. -/
def undisturbedReasoning : Interleaving.RelyGuarantee (consumer wording options Partition)
    undisturbed (fun _ => True) where
  inv := CommitsDealtWith wording options
  asserts _ := Pending wording options
  guarantee _ := Grows
  own _ i _ _ _ _ hinv hasserts hgoes hstep := consumerStep_pending hinv (hasserts i) hgoes hstep
  stable _ _ _ _ _ _ _ hgrows hpending := hpending.mono hgrows

/-- In an undisturbed run every committed message has been dealt with. Where the loop asks, and
hears that the consumer has stopped or the batch is stale, the offsets of the batch are committed
all the same, with the messages that have not been dealt with. -/
theorem committed_dealtWith :
    (∀ c, (consumer wording options Partition).Run undisturbed (subscribed Partition) c →
      CommitsDealtWith wording options c.shared) ∧
    ∀ c c' i isRunning isStale batch message messages events,
      c.locals i = .looping batch (message :: messages) events →
      (isRunning = false ∨ isStale = true) →
      (∃ message ∈ batch.messages, ¬ DealtWith wording options c.shared message) →
      (consumer wording options Partition).move c i (.proceed isRunning isStale) = some c' →
      ¬ CommitsDealtWith wording options c'.shared := by
  constructor
  · intro c hrun
    refine ((undisturbedReasoning wording options).sound hrun (fun _ _ => trivial) ?_ ?_).1
    · intro message hmessage
      cases hmessage
    · exact fun _ => trivial
  · rintro c c' i isRunning isStale batch message messages events hlocal hstop
      ⟨other, hother, hundone⟩ hmove hcommits
    obtain ⟨log', delivery', hstep, rfl⟩ := Interleaving.move_eq_some.mp hmove
    have hgivesUp : (!isRunning || isStale) = true := by
      rcases hstop with rfl | rfl
      · rfl
      · exact Bool.or_true _
    have hlog : log' = c.shared.commit batch := by
      have hgiven : consumerStep wording options c.shared (c.locals i)
          (.proceed isRunning isStale) = some (c.shared.commit batch, .idle) := by
        simp only [consumerStep, hlocal, proceedBatch, hgivesUp, if_true]
      exact (Prod.mk.inj (Option.some.inj (hstep.symm.trans hgiven))).1
    have hdealt := hcommits other (by rw [hlog]; exact List.mem_append_right _ hother)
    rw [hlog] at hdealt
    exact hundone hdealt

/-! ## A batch that is given up -/

/-- A consumer with a dead-letter topic. -/
def withDlq : TelemetryConsumerOptions := ⟨"telemetry.fuel-writer", none, some ⟨none⟩⟩

def poisonMessage : KafkaMessage := ⟨none, .malformed "Unexpected end of JSON input", "7"⟩

def quietRecord : AvlRecord := decodedRecord ⟨1700000000000, none, none, none, none, none⟩

def quietEvent : TelemetryEvent :=
  builtEvent "356307042441013" .codec8 1700000000500 quietRecord 0

/-- A message of the ingest server. -/
def goodMessage : KafkaMessage := ⟨none, .json quietEvent.toJson, "8"⟩

theorem decode_goodMessage :
    ∃ event, decodeTelemetryEvent (fun _ _ => "invalid") goodMessage.value = .ok event := by
  have hwire : quietRecord.OnWire :=
    { timestampMs := ⟨1700000000000, by decide, by decide⟩
      priority := by decide
      altitudeM := by decide
      angleDeg := by decide
      satellites := by decide
      speedKph := by decide
      valid := by decide
      eventIoId := by decide }
  have hdeliverable : Deliverable quietRecord := by
    refine ⟨by decide, ?_, ?_⟩
    · intro hvalid
      cases hvalid
    · intro avlId _ value hvalue
      cases hvalue
  exact (readBack_builtEvent _ (by decide) .codec8 ⟨by decide, by decide⟩ hwire 0).accepted.mpr
    hdeliverable

/-- The event of a message that can be decoded is collected. -/
theorem consumerStep_collects {wording : Wording} {options : TelemetryConsumerOptions}
    {log : ConsumerLog} {batch : KafkaBatch} {message : KafkaMessage}
    {messages : List KafkaMessage} {events : List TelemetryEvent} {event : TelemetryEvent}
    (h : decodeTelemetryEvent wording message.value = .ok event) :
    consumerStep wording options log (.looping batch (message :: messages) events)
      (.proceed true false) = some (log, .looping batch messages (events ++ [event])) := by
  simp [consumerStep, proceedBatch, h]

/-- The first message is dead-lettered, and the handler gets the event of the second one. -/
theorem committed_dealtWith_mixed :
    ∃ c event, (consumer (fun _ _ => "invalid") withDlq Unit).Run undisturbed (subscribed Unit) c ∧
      c.shared.committed = [poisonMessage, goodMessage] ∧ c.shared.deadLettered.length = 1 ∧
      decodeTelemetryEvent (fun _ _ => "invalid") goodMessage.value = .ok event ∧
      c.shared.handled.map HandlerCall.events = [[event]] ∧
      CommitsDealtWith (fun _ _ => "invalid") withDlq c.shared := by
  obtain ⟨event, hdecode⟩ := decode_goodMessage
  generalize goodMessage = message at hdecode ⊢
  have hdelivered : (consumer (fun _ _ => "invalid") withDlq Unit).Run undisturbed
      (subscribed Unit) _ :=
    .step (i := ()) (a := .deliver ⟨"vehicle.telemetry.live", 0, [poisonMessage, message]⟩) .refl
      (fun hasks => by cases hasks) rfl
  have hrejected := hdelivered.step (i := ()) (a := .proceed true false)
    (fun _ _ _ hlabel => by cases hlabel; exact ⟨rfl, rfl⟩) rfl
  have hlettered := hrejected.step (i := ()) (a := .settle true) (fun hasks => by cases hasks) rfl
  obtain ⟨⟨log, locals⟩, hrun, hsent, hhandled, hcommits, hlocal⟩ : ∃ c,
      (consumer (fun _ _ => "invalid") withDlq Unit).Run undisturbed (subscribed Unit) c ∧
        c.shared.deadLettered.length = 1 ∧ c.shared.handled = [] ∧ c.shared.committed = [] ∧
        c.locals () = .looping ⟨"vehicle.telemetry.live", 0, [poisonMessage, message]⟩ [message] [] :=
    ⟨_, hlettered, rfl, rfl, rfl, rfl⟩
  have hcollected := hrun.step (i := ()) (a := .proceed true false)
    (fun _ _ _ hlabel => by cases hlabel; exact ⟨rfl, rfl⟩) (Interleaving.move_eq_some.mpr
      ⟨_, _, (congrArg (consumerStep _ withDlq log · _) hlocal).trans
        (consumerStep_collects hdecode), rfl⟩)
  have hcalled := hcollected.step (i := ()) (a := .proceed true false)
    (fun hasks => by cases hasks) rfl
  have hcommitted := hcalled.step (i := ()) (a := .settle true) (fun hasks => by cases hasks) rfl
  refine ⟨_, event, hcommitted, ?_, hsent, hdecode, ?_, (committed_dealtWith _ _).1 _ hcommitted⟩
  · exact congrArg (· ++ [poisonMessage, message]) hcommits
  · change (log.handled ++ [_]).map HandlerCall.events = _
    rw [hhandled]
    rfl

/-- The consumer is stopped while the first message is dead-lettered; the second one is committed
and never handled. -/
theorem stopped_batch_loses : ¬ ∀ (wording : Wording) (options : TelemetryConsumerOptions)
    (c : Config Unit ConsumerLog Delivery),
    (consumer wording options Unit).Run Interleaving.anyStep (subscribed Unit) c →
      CommitsDealtWith wording options c.shared := by
  intro h
  obtain ⟨event, hdecode⟩ := decode_goodMessage
  generalize goodMessage = message at hdecode
  have hmoves : (consumer (fun _ _ => "invalid") withDlq Unit).moves Interleaving.anyStep
      (subscribed Unit)
      [((), .deliver ⟨"vehicle.telemetry.live", 0, [poisonMessage, message]⟩),
        ((), .proceed true false), ((), .settle true), ((), .proceed false false)] = some _ := rfl
  have hdealt := h _ _ _ (.of_moves .refl hmoves) message
    (List.mem_cons_of_mem _ List.mem_cons_self)
  unfold DealtWith at hdealt
  rw [hdecode] at hdealt
  obtain ⟨call, hcall, _⟩ := hdealt
  cases hcall

end BankPlatform.Telemetry
