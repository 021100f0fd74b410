import BankPlatform.Library.NumberValue
import BankPlatform.Telemetry.Consumer
import BankPlatform.Telemetry.Ingest

/-!
# Publishing

`classifyFreshness` and `publishTelemetry` of `packages/events/src/client.ts`: the records of a
packet go out in one request, split between the live and the backfill topic.

## Main definitions

* `publishTelemetry` — the requests that are sent.

## Main results

* `publish_exact` — every event is sent once, under its topic and in order, and as many messages as
  are acknowledged to the device.
-/

namespace BankPlatform.Telemetry

open Library Teltonika

def telemetryLiveTopic : String := "vehicle.telemetry.live"

def DEFAULT_BACKFILL_THRESHOLD_MS : NumberValue := .ofNat (5 * 60 * 1000)

structure PublishOptions where
  liveTopic : Option String
  backfillTopic : Option String
  backfillThresholdMs : Option NumberValue

/-- A message for the producer; the text of the value is identified with what it denotes. -/
structure ProducerMessage where
  key : String
  value : Json

structure TopicMessages where
  topic : String
  messages : List ProducerMessage

/-- `Date.parse(event.receivedAt) - Date.parse(event.recordedAt)`. -/
def lagMs (event : TelemetryEvent) : NumberValue := do
  let receivedAt ← JsDate.parse event.receivedAt
  let recordedAt ← JsDate.parse event.recordedAt
  NumberValue.ofRat (receivedAt - recordedAt : ℤ)

/-- A device clock that is ahead gives a negative lag, which counts as live. -/
def classifyFreshness (event : TelemetryEvent) (thresholdMs : NumberValue) : Freshness :=
  if thresholdMs.less (lagMs event) then .backfill else .live

/-- The requests to the broker: one, even when a packet straddles both topics, or none. -/
def publishTelemetry (events : List TelemetryEvent) (options : PublishOptions) :
    List (List TopicMessages) :=
  if events.length = 0 then []
  else
    let liveTopic := options.liveTopic.getD telemetryLiveTopic
    let backfillTopic := options.backfillTopic.getD telemetryBackfillTopic
    let thresholdMs := options.backfillThresholdMs.getD DEFAULT_BACKFILL_THRESHOLD_MS
    let byTopic := events.foldl
      (fun (byTopic : JsMap String TopicMessages) event =>
        let topic := if classifyFreshness event thresholdMs = .backfill then backfillTopic
          else liveTopic
        let batch := (byTopic.get? topic).getD ⟨topic, []⟩
        byTopic.set topic
          { batch with messages := batch.messages ++ [⟨event.imei, event.toJson⟩] })
      Table.empty
    [byTopic.rows.map Prod.snd]

/-! ## One request -/

namespace PublishOptions

variable (options : PublishOptions)

/-- The topics and the threshold that are used. -/
def live : String := options.liveTopic.getD telemetryLiveTopic

def backfill : String := options.backfillTopic.getD telemetryBackfillTopic

def threshold : NumberValue := options.backfillThresholdMs.getD DEFAULT_BACKFILL_THRESHOLD_MS

/-- The topic of an event. -/
def topicOf (event : TelemetryEvent) : String :=
  if classifyFreshness event options.threshold = .backfill then options.backfill else options.live

end PublishOptions

/-- The message of an event. -/
def messageOf (event : TelemetryEvent) : ProducerMessage := ⟨event.imei, event.toJson⟩

/-- The batches of some events by their topics. -/
def batches (events : List TelemetryEvent) (options : PublishOptions) :
    JsMap String TopicMessages :=
  events.foldl (JsMap.collect options.topicOf (⟨·, []⟩) fun batch event =>
    { batch with messages := batch.messages ++ [messageOf event] }) Table.empty

/-- The events of a topic. -/
def eventsUnder (events : List TelemetryEvent) (options : PublishOptions) (topic : String) :
    List TelemetryEvent :=
  events.filter fun event => options.topicOf event = topic

theorem publishTelemetry_eq {events : List TelemetryEvent} (h : events ≠ [])
    (options : PublishOptions) :
    publishTelemetry events options = [(batches events options).rows.map Prod.snd] :=
  if_neg fun hlength => h (List.length_eq_zero_iff.mp hlength)

variable {events : List TelemetryEvent} {options : PublishOptions}

theorem mem_batches {topic : String} {batch : TopicMessages} :
    (topic, batch) ∈ (batches events options).rows ↔ eventsUnder events options topic ≠ [] ∧
      batch = ⟨topic, (eventsUnder events options topic).map messageOf⟩ := by
  have hmessages : ∀ (group : List TelemetryEvent) (batch : TopicMessages),
      group.foldl (fun batch event =>
          { batch with messages := batch.messages ++ [messageOf event] }) batch =
        { batch with messages := batch.messages ++ group.map messageOf } := by
    intro group
    induction group with
    | nil => simp
    | cons event group ih =>
      intro batch
      rw [List.foldl_cons, ih]
      simp
  rw [batches, JsMap.mem_rows_collect, hmessages, List.nil_append]
  rfl

/-- The batches under their keys have these as their topics. -/
theorem topics_batches : ((batches events options).rows.map Prod.snd).map TopicMessages.topic =
    (batches events options).rows.map Prod.fst := by
  rw [List.map_map]
  refine List.map_congr_left fun entry hentry => ?_
  obtain ⟨-, hbatch⟩ := mem_batches.mp hentry
  exact congrArg TopicMessages.topic hbatch

/-- Nothing is lost, and nothing is sent twice. -/
theorem messages_batches :
    (((batches events options).rows.map Prod.snd).flatMap TopicMessages.messages).Perm
      (events.map messageOf) := by
  have hgroups : ((batches events options).rows.map Prod.snd).flatMap TopicMessages.messages =
      (((batches events options).rows.map Prod.fst).flatMap
        (eventsUnder events options)).map messageOf := by
    rw [List.flatMap_map, List.flatMap_map, List.map_flatMap]
    refine List.flatMap_congr fun entry hentry => ?_
    obtain ⟨-, hbatch⟩ := mem_batches.mp hentry
    exact congrArg TopicMessages.messages hbatch
  have hall : events.filter (fun event =>
      options.topicOf event ∈ (batches events options).rows.map Prod.fst) = events := by
    refine List.filter_eq_self.mpr fun event hevent => decide_eq_true ?_
    have hunder : event ∈ eventsUnder events options (options.topicOf event) :=
      List.mem_filter.mpr ⟨hevent, decide_eq_true rfl⟩
    exact List.mem_map_of_mem (mem_batches.mpr ⟨List.ne_nil_of_mem hunder, rfl⟩)
  rw [hgroups]
  have hperm := flatMap_filter_perm options.topicOf _ (batches events options).nodup events
  rw [show (batches events options).rows.map Keyed.key = (batches events options).rows.map Prod.fst
    from rfl, hall] at hperm
  exact hperm.map messageOf

/-- The server received the event more than the threshold after the device recorded it. -/
def Late (thresholdMs : NumberValue) (event : TelemetryEvent) : Prop :=
  ∃ receivedAt ∈ JsDate.parse event.receivedAt, ∃ recordedAt ∈ JsDate.parse event.recordedAt,
    thresholdMs.less (.ofRat (receivedAt - recordedAt : ℤ)) = true

instance (thresholdMs : NumberValue) : DecidablePred (Late thresholdMs) := fun _ =>
  inferInstanceAs (Decidable (∃ _ ∈ _, ∃ _ ∈ _, _))

theorem less_lagMs {thresholdMs : NumberValue} {event : TelemetryEvent} :
    thresholdMs.less (lagMs event) = true ↔ Late thresholdMs event := by
  unfold Late lagMs
  cases JsDate.parse event.receivedAt with
  | none => simp [NumberValue.less]
  | some receivedAt =>
    cases JsDate.parse event.recordedAt with
    | none => simp [NumberValue.less]
    | some recordedAt => simp

/-- Late events go to the backfill topic. -/
theorem topicOf_eq (options : PublishOptions) (event : TelemetryEvent) : options.topicOf event =
    if Late options.threshold event then options.backfill else options.live := by
  unfold PublishOptions.topicOf classifyFreshness
  simp only [less_lagMs]
  by_cases h : Late options.threshold event <;> simp [h]

/-- What a request for some events is. -/
structure SendsExactly (wording : Wording) (events : List TelemetryEvent) (options : PublishOptions)
    (request : List TopicMessages) : Prop where
  topics : (request.map TopicMessages.topic).Nodup
  named : ∀ batch ∈ request, batch.topic = options.live ∨ batch.topic = options.backfill
  once : (request.flatMap TopicMessages.messages).Perm (events.map messageOf)
  ordered : ∀ batch ∈ request, batch.messages.Sublist (events.map messageOf)
  readBack : ∀ event ∈ events, (messageOf event).key = event.imei ∧
    decodeTelemetryEvent wording (.json (messageOf event).value) = .ok event
  late : options.live ≠ options.backfill → ∀ batch ∈ request, batch.topic = options.backfill →
    batch.messages = (events.filter fun event => Late options.threshold event).map messageOf
  timely : options.live ≠ options.backfill → ∀ batch ∈ request, batch.topic = options.live →
    batch.messages = (events.filter fun event => ¬ Late options.threshold event).map messageOf

theorem sendsExactly_batches (wording : Wording) (hdecodable : ∀ event ∈ events, Decodable event) :
    SendsExactly wording events options ((batches events options).rows.map Prod.snd) where
  topics := by
    rw [topics_batches]
    exact (batches events options).nodup
  named batch hbatch := by
    obtain ⟨⟨topic, _⟩, hentry, rfl⟩ := List.mem_map.mp hbatch
    obtain ⟨hunder, rfl⟩ := mem_batches.mp hentry
    obtain ⟨event, hevent⟩ := List.exists_mem_of_ne_nil _ hunder
    obtain rfl := of_decide_eq_true (List.mem_filter.mp hevent).2
    unfold PublishOptions.topicOf
    split
    · exact .inr rfl
    · exact .inl rfl
  once := messages_batches
  ordered batch hbatch := by
    obtain ⟨⟨topic, _⟩, hentry, rfl⟩ := List.mem_map.mp hbatch
    obtain ⟨-, rfl⟩ := mem_batches.mp hentry
    exact List.filter_sublist.map messageOf
  readBack event hevent := ⟨rfl, (decode_toJson _ _ _).mpr ⟨hdecodable event hevent, rfl⟩⟩
  late hnames batch hbatch hbackfill := by
    obtain ⟨⟨topic, _⟩, hentry, rfl⟩ := List.mem_map.mp hbatch
    obtain ⟨-, rfl⟩ := mem_batches.mp hentry
    obtain rfl : topic = options.backfill := hbackfill
    refine congrArg (List.map messageOf) (List.filter_congr fun event _ => ?_)
    rw [topicOf_eq]
    by_cases hlate : Late options.threshold event <;> simp [hlate, hnames]
  timely hnames batch hbatch hlive := by
    obtain ⟨⟨topic, _⟩, hentry, rfl⟩ := List.mem_map.mp hbatch
    obtain ⟨-, rfl⟩ := mem_batches.mp hentry
    obtain rfl : topic = options.live := hlive
    refine congrArg (List.map messageOf) (List.filter_congr fun event _ => ?_)
    rw [topicOf_eq]
    by_cases hlate : Late options.threshold event <;> simp [hlate, hnames.symm]

/-- The messages that are sent. -/
def sentMessages (requests : List (List TopicMessages)) : List ProducerMessage :=
  requests.flatten.flatMap TopicMessages.messages

theorem length_sentMessages (events : List TelemetryEvent) (options : PublishOptions) :
    (sentMessages (publishTelemetry events options)).length = events.length := by
  by_cases h : events = []
  · subst h
    rfl
  · rw [publishTelemetry_eq h, sentMessages, List.flatten_singleton, messages_batches.length_eq,
      List.length_map]

/-- Publishing loses, duplicates and reorders nothing; and when it has resolved, as many records are
acknowledged to the device as messages were sent. -/
theorem publish_exact (wording : Wording) (options : PublishOptions) :
    publishTelemetry [] options = [] ∧
    (∀ events : List TelemetryEvent, events ≠ [] → (∀ event ∈ events, Decodable event) →
      ∃ request, publishTelemetry events options = [request] ∧
        SendsExactly wording events options request) ∧
    ∀ (Pid : Type) [DecidableEq Pid] (c : Config Pid Bool Connection) (i : Pid) (packet : AvlPacket)
      (rest : List FramerEvent) (events : List TelemetryEvent) (now : JsDate),
      (ingest Pid).Run Interleaving.anyStep (listening Pid) c →
      (c.locals i).handler = .publishing packet rest →
      (c.locals i).calls.getLast? = some ⟨events, .resolved⟩ →
      ∃ l', (c.locals i).proceed now = some (.ok l') ∧
        l'.recordAcks = (c.locals i).recordAcks ++
          if (c.locals i).destroyed || (c.locals i).ended then []
          else [(sentMessages (publishTelemetry events options)).length] := by
  refine ⟨rfl, fun events hne hdecodable => ?_, ?_⟩
  · exact ⟨_, publishTelemetry_eq hne options, sendsExactly_batches wording hdecodable⟩
  · intro Pid _ c i packet rest events now hrun hhandler hlast
    obtain ⟨r, hsteps, hserves⟩ := serves_run hrun i serves_accepted
    have hphase := hserves.phase
    rw [hhandler] at hphase
    have hcall : r.calls.getLast? = some ⟨events, .resolved⟩ := by rw [hserves.calls, hlast]
    have hcarries := StopAndWait.carries_of_waiting hserves.steps hphase hcall
    have hlength := hserves.records_lt hhandler
    refine ⟨((c.locals i).write (BigEndian.encode 4 packet.records.length)).goOn rest, ?_, ?_⟩
    · rw [Connection.proceed, hhandler]
      simp only [hlast, Option.bind_some, Connection.published, buildRecordAck_eq_ok hlength]
      rfl
    · rw [length_sentMessages, hcarries.1, ackCount_eq]
      exact recordAcks_recordAck _ hlength

/-- A record from the flash buffer of the device. -/
def backlogRecord : EncodableRecord := { bareRecord with timestampMs := 1600000000000 }

/-- A frame whose data field is lost, and one with an old and a new record. -/
def straddlingReports : List Transmission :=
  let records := [backlogRecord, bareRecord]
  [bareTransmission (List.replicate 33 0),
    ⟨.codec8, records, dataFieldBytes .codec8 records, crc16ibm (dataFieldBytes .codec8 records)⟩]

/-- The packet goes out to both topics, and both of its records are acknowledged. -/
theorem publish_exact_straddling : ∃ c events request l',
    (ingest Unit).Run Interleaving.anyStep (listening Unit) c ∧
      (c.locals ()).calls = [⟨events, .resolved⟩] ∧
      publishTelemetry events ⟨none, none, none⟩ = [request] ∧
      request.map TopicMessages.topic = ["vehicle.telemetry.backfill", "vehicle.telemetry.live"] ∧
      SendsExactly (fun _ _ => "invalid") events ⟨none, none, none⟩ request ∧
      (c.locals ()).proceed (some 0) = some (.ok l') ∧ l'.recordAcks = [0, 2] := by
  have hmoves : ((ingest Unit).moves Interleaving.anyStep (listening Unit)
      [((), .data (sentBytes ([0, 15] ++ fromAscii "356307042441013") straddlingReports)),
        ((), .proceed 0), ((), .proceed 0), ((), .proceed 1700000000500),
        ((), .settle .resolved)]).map (fun c =>
          let l := c.locals ()
          let events := l.calls.flatMap Call.payload
          decide (l.calls.map Call.settlement = [.resolved] ∧ l.handler.packet?.isSome = true ∧
            (∀ event ∈ events, Decodable event) ∧ events.length = 2 ∧
            (publishTelemetry events ⟨none, none, none⟩).map (·.map TopicMessages.topic) =
              [["vehicle.telemetry.backfill", "vehicle.telemetry.live"]] ∧
            l.recordAcks = [0] ∧ (l.destroyed || l.ended) = false)) = some true := by
    decide +kernel
  obtain ⟨c, hc, hall⟩ := Option.map_eq_some_iff.mp hmoves
  obtain ⟨hsettlement, hpublishing, hdecodable, hlength, htopics, hacks, hline⟩ :=
    of_decide_eq_true hall
  have hrun := Interleaving.Run.of_moves .refl hc
  obtain ⟨⟨events, settlement⟩, hcalls, hresolved⟩ := List.map_eq_singleton_iff.mp hsettlement
  obtain rfl : settlement = .resolved := hresolved
  obtain ⟨packet, rest, hhandler⟩ :
      ∃ packet rest, (c.locals ()).handler = .publishing packet rest := by
    cases hhandler : (c.locals ()).handler with
    | publishing packet rest => exact ⟨packet, rest, rfl⟩
    | idle => simp [hhandler, DataHandler.packet?] at hpublishing
    | handling rest => simp [hhandler, DataHandler.packet?] at hpublishing
  simp only [hcalls, List.flatMap_singleton] at hdecodable hlength htopics
  obtain ⟨-, hsent, hacknowledged⟩ := publish_exact (fun _ _ => "invalid") ⟨none, none, none⟩
  obtain ⟨request, hrequest, hexact⟩ := hsent events (by rintro rfl; cases hlength) hdecodable
  obtain ⟨l', hproceed, hcount⟩ := hacknowledged Unit c () packet rest events (some 0) hrun hhandler
    (by rw [hcalls]; rfl)
  rw [hrequest, List.map_singleton, List.cons.injEq] at htopics
  rw [hline, hacks, length_sentMessages, hlength] at hcount
  exact ⟨c, events, request, l', hrun, hcalls, hrequest, htopics.1, hexact, hproceed, hcount⟩

end BankPlatform.Telemetry
