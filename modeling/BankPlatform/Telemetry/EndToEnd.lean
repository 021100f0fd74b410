import BankPlatform.Telemetry.Convergence
import BankPlatform.Telemetry.Publish
import BankPlatform.Telemetry.Uplink

/-!
# From the device to the database

The uplink puts batches into the broker through `publishTelemetry`, and the writers take from there
what they can decode. Together they turn the first records of a device into the rows of its
positions: one row for each time at which it had a fix.

## Main definitions

* `Brokered` — what the partitions hold of the batches that were published.
* `ReportOf` — an event that was made of a record.
* `ShowsPosition` — a row shows the position of a record.

## Main results

* `logged_iff` — a message is an event of a published batch that meets the schema.
* `reported` — the batches of a device report its first records, all deleted ones among them.
* `positions_stored` — which rows there are when everything is handled.
-/

namespace BankPlatform.Telemetry

open Library Teltonika

/-! ## Messages -/

/-- The topic of a partition. -/
def PublishOptions.topicName (options : PublishOptions) : Freshness → String
  | .live => options.live
  | .backfill => options.backfill

/-- A partition holds what it was assigned of the messages of its topic, and consumers see the events
that they can decode. -/
def Brokered (wording : Wording) (options : PublishOptions) (partitioner : String → ℕ)
    (published : List (List TelemetryEvent)) (log : Partition → List TelemetryEvent) : Prop :=
  ∀ p event, event ∈ log p ↔ ∃ events ∈ published, ∃ request ∈ publishTelemetry events options,
    ∃ batch ∈ request, batch.topic = options.topicName p.freshness ∧
      ∃ message ∈ batch.messages, partitioner message.key = p.number ∧
        decodeTelemetryEvent wording (.json message.value) = .ok event

/-- A request has the messages of its events, each under the topic of its event. -/
theorem mem_request {events : List TelemetryEvent} {options : PublishOptions} {topic : String}
    {message : ProducerMessage} :
    (∃ request ∈ publishTelemetry events options, ∃ batch ∈ request, batch.topic = topic ∧
      message ∈ batch.messages) ↔
      ∃ event ∈ events, options.topicOf event = topic ∧ message = messageOf event := by
  constructor
  · rintro ⟨request, hrequest, batch, hbatch, rfl, hmessage⟩
    by_cases hnone : events = []
    · subst hnone
      cases hrequest
    · rw [publishTelemetry_eq hnone, List.mem_singleton] at hrequest
      subst hrequest
      obtain ⟨⟨topic, _⟩, hentry, rfl⟩ := List.mem_map.mp hbatch
      obtain ⟨-, rfl⟩ := mem_batches.mp hentry
      obtain ⟨event, hunder, rfl⟩ := List.mem_map.mp hmessage
      obtain ⟨hevent, htopic⟩ := List.mem_filter.mp hunder
      exact ⟨event, hevent, of_decide_eq_true htopic, rfl⟩
  · rintro ⟨event, hevent, rfl, rfl⟩
    have hunder : event ∈ eventsUnder events options (options.topicOf event) :=
      List.mem_filter.mpr ⟨hevent, decide_eq_true rfl⟩
    have hentry := mem_batches.mpr ⟨List.ne_nil_of_mem hunder, rfl⟩
    rw [publishTelemetry_eq (List.ne_nil_of_mem hevent)]
    exact ⟨_, List.mem_singleton_self _, _, List.mem_map.mpr ⟨_, hentry, rfl⟩, rfl,
      List.mem_map_of_mem hunder⟩

/-- An event of a partition is a published one that belongs there and meets the schema. -/
theorem partition_iff {wording : Wording} {options : PublishOptions} (partitioner : String → ℕ)
    {published : List (List TelemetryEvent)} {p : Partition} {event : TelemetryEvent} :
    (∃ events ∈ published, ∃ request ∈ publishTelemetry events options, ∃ batch ∈ request,
      batch.topic = options.topicName p.freshness ∧ ∃ message ∈ batch.messages,
        partitioner message.key = p.number ∧
          decodeTelemetryEvent wording (.json message.value) = .ok event) ↔
      ∃ events ∈ published, event ∈ events ∧ Decodable event ∧
        options.topicOf event = options.topicName p.freshness ∧
        partitioner event.imei = p.number := by
  refine exists_congr fun events => and_congr_right fun _ => ?_
  constructor
  · rintro ⟨request, hrequest, batch, hbatch, htopic, message, hmessage, hnumber, hdecode⟩
    obtain ⟨event', hevent, htopic', rfl⟩ :=
      mem_request.mp ⟨request, hrequest, batch, hbatch, htopic, hmessage⟩
    obtain ⟨hdecodable, rfl⟩ := (decode_toJson _ _ _).mp hdecode
    exact ⟨hevent, hdecodable, htopic', hnumber⟩
  · rintro ⟨hevent, hdecodable, htopic, hnumber⟩
    obtain ⟨request, hrequest, batch, hbatch, htopic', hmessage⟩ :=
      mem_request.mpr ⟨event, hevent, htopic, rfl⟩
    exact ⟨request, hrequest, batch, hbatch, htopic', _, hmessage, hnumber,
      (decode_toJson _ _ _).mpr ⟨hdecodable, rfl⟩⟩

/-- A message is an event of a published batch that meets the schema. -/
theorem logged_iff {wording : Wording} {options : PublishOptions} {partitioner : String → ℕ}
    {published : List (List TelemetryEvent)} {log : Partition → List TelemetryEvent}
    (h : Brokered wording options partitioner published log) (event : TelemetryEvent) :
    Logged log event ↔ ∃ events ∈ published, event ∈ events ∧ Decodable event := by
  constructor
  · rintro ⟨p, hp⟩
    obtain ⟨events, hevents, hevent, hdecodable, -⟩ :=
      (partition_iff partitioner).mp ((h p event).mp hp)
    exact ⟨events, hevents, hevent, hdecodable⟩
  · rintro ⟨events, hevents, hevent, hdecodable⟩
    obtain ⟨freshness, htopic⟩ : ∃ freshness,
        options.topicOf event = options.topicName freshness := by
      unfold PublishOptions.topicOf
      split
      · exact ⟨.backfill, rfl⟩
      · exact ⟨.live, rfl⟩
    exact ⟨⟨freshness, partitioner event.imei⟩, (h _ event).mpr ((partition_iff partitioner).mpr
      ⟨events, hevents, hevent, hdecodable, htopic, rfl⟩)⟩

/-! ## Records and their events -/

/-- An event that the server made of a record. -/
def ReportOf (imei : String) (record : EncodableRecord) (event : TelemetryEvent) : Prop :=
  ∃ (codec : CodecId) (receivedAt : ℤ) (index : ℕ), record.Fits codec.extended ∧
    event = builtEvent imei codec receivedAt (decodedRecord record) index

/-- What reports records has an event of each, in their order. -/
theorem Reports.forall₂ {imei : String} {records : List EncodableRecord}
    {events : List TelemetryEvent} (h : Reports imei records events) :
    List.Forall₂ (ReportOf imei) records events := by
  obtain ⟨codec, receivedAt, hfits, hbuild⟩ := h
  obtain ⟨hok, herror⟩ :=
    buildTelemetryEvents_eq_ok imei codec receivedAt (records.map decodedRecord)
  by_cases hdates : ∀ record ∈ records.map decodedRecord, record.timestampMs ≤ JsDate.maxTime
  · obtain rfl := Except.ok.inj ((hok hdates).symm.trans hbuild)
    clear hok herror hbuild hdates
    generalize 0 = i
    induction records generalizing i with
    | nil => exact .nil
    | cons record records ih =>
      obtain ⟨hrecord, hrecords⟩ := List.forall_mem_cons.mp hfits
      exact .cons ⟨codec, receivedAt, i, hrecord, rfl⟩ (ih hrecords (i + 1))
  · obtain ⟨err, herr⟩ := herror hdates
    rw [herr] at hbuild
    cases hbuild

/-- What was encoded is within the widths of the wire. -/
theorem onWire_decodedRecord {extended : Bool} {record : EncodableRecord}
    (h : record.Fits extended) : (decodedRecord record).OnWire :=
  ensures_readRecord extended _ _ _ (reads_record h [] [])

/-- A record with a fix. -/
def Positioned (record : EncodableRecord) : Prop := 0 < (record.gps.getD noFix).satellites

/-- A row shows the position of a record. -/
structure ShowsPosition {Id : Type} (r : VehicleLocation Id) (record : EncodableRecord) : Prop where
  recordedAt : r.recordedAt = some record.timestampMs
  latitude : r.latitude = degrees (record.gps.getD noFix).latitude
  longitude : r.longitude = degrees (record.gps.getD noFix).longitude
  altitudeM : r.altitudeM = (record.gps.getD noFix).altitudeM
  angleDeg : r.angleDeg = (record.gps.getD noFix).angleDeg
  satellites : r.satellites = (record.gps.getD noFix).satellites
  speedKph : r.speedKph = (record.gps.getD noFix).speedKph

namespace ReportOf

variable {imei : String} {record : EncodableRecord} {event : TelemetryEvent}

theorem imei_eq (h : ReportOf imei record event) : event.imei = imei := by
  obtain ⟨codec, receivedAt, index, -, rfl⟩ := h
  rfl

theorem gps (h : ReportOf imei record event) : event.gps.isSome = true ↔ Positioned record := by
  obtain ⟨codec, receivedAt, index, hfits, rfl⟩ := h
  rw [Positioned, ← (decoded_decodedRecord hfits).valid]
  change (normalizeRecord imei (decodedRecord record) (some receivedAt)).gps.isSome = true ↔ _
  unfold normalizeRecord
  split <;> simp [*]

theorem decodable (h : ReportOf imei record event) (himei : isValidImei imei = true) :
    Decodable event ↔ (JsDate.parse event.receivedAt).isSome = true ∧
      Deliverable (decodedRecord record) := by
  obtain ⟨codec, receivedAt, index, hfits, rfl⟩ := h
  rw [decodable_builtEvent himei codec receivedAt (onWire_decodedRecord hfits)]
  exact and_congr_left fun _ => (isSome_parse_toISOString receivedAt).symm

/-- The time of the event is that of the record. -/
theorem recordedAt (h : ReportOf imei record event)
    (hdeliverable : Deliverable (decodedRecord record)) :
    JsDate.parse event.recordedAt = some record.timestampMs := by
  obtain ⟨codec, receivedAt, index, hfits, rfl⟩ := h
  have htime := hdeliverable.timestampMs
  rw [← (decoded_decodedRecord hfits).timestampMs]
  change JsDate.parse (String.ofList (IsoDate.toISOString _)) = _
  rw [JsDate.parse, String.toList_ofList, IsoDate.parse?_toISOString, if_pos]
  omega

/-- The position in the event is that of the record. -/
theorem gps_eq (h : ReportOf imei record event) {gps : NormalizedGps}
    (hgps : event.gps = some gps) :
    gps.latitude = degrees (record.gps.getD noFix).latitude ∧
      gps.longitude = degrees (record.gps.getD noFix).longitude ∧
      gps.altitudeM = (record.gps.getD noFix).altitudeM ∧
      gps.angleDeg = (record.gps.getD noFix).angleDeg ∧
      gps.satellites = (record.gps.getD noFix).satellites ∧
      gps.speedKph = (record.gps.getD noFix).speedKph := by
  obtain ⟨codec, receivedAt, index, hfits, rfl⟩ := h
  have hdecoded := decoded_decodedRecord hfits
  change (normalizeRecord imei (decodedRecord record) (some receivedAt)).gps = some gps at hgps
  unfold normalizeRecord at hgps
  split at hgps
  · cases hgps
    exact ⟨congrArg degrees hdecoded.latitude, congrArg degrees hdecoded.longitude,
      hdecoded.altitudeM, hdecoded.angleDeg, hdecoded.satellites, hdecoded.speedKph⟩
  · cases hgps

theorem showsPosition {Id : Type} {r : VehicleLocation Id} (h : ReportOf imei record event)
    (hdeliverable : Deliverable (decodedRecord record)) {gps : NormalizedGps}
    (hgps : event.gps = some gps) (hr : ShowsGps r event gps) : ShowsPosition r record := by
  obtain ⟨hlatitude, hlongitude, haltitude, hangle, hsatellites, hspeed⟩ := h.gps_eq hgps
  exact
    { recordedAt := hr.recordedAt.trans (h.recordedAt hdeliverable)
      latitude := hr.latitude.trans hlatitude
      longitude := hr.longitude.trans hlongitude
      altitudeM := hr.altitudeM.trans haltitude
      angleDeg := hr.angleDeg.trans hangle
      satellites := hr.satellites.trans hsatellites
      speedKph := hr.speedKph.trans hspeed }

/-- The table of positions takes what was reported, whatever the levels of the tank. -/
theorem fits_locations (h : ReportOf imei record event) (hdecodable : Decodable event)
    (hdates : Dated event) : Writer.locations.Fits event := by
  obtain ⟨codec, receivedAt, index, hfits, rfl⟩ := h
  have hwire := onWire_decodedRecord hfits
  intro gps hgps
  obtain ⟨haltitude, hangle, hsatellites, hspeed⟩ := builtEvent_gps hgps
  have haltitude' := hwire.altitudeM
  have hangle' := hwire.angleDeg
  have hsatellites' := hwire.satellites
  have hspeed' := hwire.speedKph
  exact inOrder_locationColumns hdates (hdecodable.gps gps hgps) (by omega) (by omega) (by omega)
    (by omega)

end ReportOf

theorem exists_mem_of_forall₂ {α β : Type} {R : α → β → Prop} {as : List α} {bs : List β}
    (h : List.Forall₂ R as bs) : ∀ a ∈ as, ∃ b ∈ bs, R a b := by
  induction h with
  | nil => simp
  | cons hfirst _ ih =>
    refine List.forall_mem_cons.mpr ⟨⟨_, List.mem_cons_self, hfirst⟩, fun a ha => ?_⟩
    obtain ⟨b, hb, hR⟩ := ih a ha
    exact ⟨b, List.mem_cons_of_mem _ hb, hR⟩

/-! ## All the way -/

variable {Pid Uid Id Process : Type} {imei : String}

/-- The batches of a device report its first records, all that it has deleted among them. -/
theorem reported [DecidableEq Uid] (himei : isValidImei imei = true)
    {u : Config Uid (Uplink Uid) Channel}
    (h : (uplink Uid imei).Run noticesDamage (unused Uid) u) :
    ∃ n, u.shared.device.deleted ≤ n ∧ n ≤ u.shared.device.recorded.length ∧
      (∀ events ∈ u.shared.log, ∀ event ∈ events,
        ∃ record ∈ u.shared.device.recorded.take n, ReportOf imei record event) ∧
      ∀ record ∈ u.shared.device.recorded.take n,
        ∃ events ∈ u.shared.log, ∃ event ∈ events, ReportOf imei record event := by
  obtain ⟨shipments, hlinked⟩ := linked_run himei h
  have hdelivered := Outbox.delivered hlinked.steps
  obtain ⟨n, hdeleted, hlength, hshipped⟩ := hdelivered.shipped_iff
  have hcarried (x : Shipment (List TelemetryEvent)) (hx : x ∈ shipments) :
      List.Forall₂ (ReportOf imei) (Outbox.stretch u.shared.device.recorded x) x.batch :=
    (hdelivered.carried x hx).2.forall₂
  rw [← hlinked.broker]
  refine ⟨n, hdeleted, hlength, fun events hevents event hevent => ?_, fun record hrecord => ?_⟩
  · obtain ⟨x, hx, rfl⟩ := List.mem_map.mp hevents
    obtain ⟨record, hrecord, hreport⟩ := exists_mem_of_forall₂ (hcarried x hx).flip event hevent
    exact ⟨record, (hshipped record).mp ⟨x, hx, hrecord⟩, hreport⟩
  · obtain ⟨x, hx, hrecord⟩ := (hshipped record).mpr hrecord
    obtain ⟨event, hevent, hreport⟩ := exists_mem_of_forall₂ (hcarried x hx) record hrecord
    exact ⟨x.batch, List.mem_map_of_mem hx, event, hevent, hreport⟩

/-- The broker has what the server published for this device, and nothing else with its IMEI. -/
structure Carried (imei : String) (log : List (List TelemetryEvent))
    (published : List (List TelemetryEvent)) : Prop where
  sent : ∀ events ∈ log, events ∈ published
  own : ∀ events ∈ published, ∀ event ∈ events, event.imei = imei → events ∈ log

/-- An event of the record was published that meets the schema. -/
def PublishedAs (imei : String) (batches : List (List TelemetryEvent)) (record : EncodableRecord) :
    Prop :=
  ∃ events ∈ batches, ∃ event ∈ events, ReportOf imei record event ∧ Decodable event

variable [DecidableEq Uid] [DecidableEq Pid] [DecidableEq Id] [DecidableEq Process] [FreshIds Id]
  {wording : Wording} {options : PublishOptions} {partitioner : String → ℕ}
  {published : List (List TelemetryEvent)} {log : Partition → List TelemetryEvent}

/-- The messages with the IMEI of a device are the events of its first records that meet the
schema. -/
theorem logged_reports {first : List EncodableRecord} {batches : List (List TelemetryEvent)}
    (himei : isValidImei imei = true)
    (hevents : ∀ events ∈ batches, ∀ event ∈ events, ∃ record ∈ first, ReportOf imei record event)
    (hcarried : Carried imei batches published)
    (hbroker : Brokered wording options partitioner published log) :
    (∀ event, Logged log event → event.imei = imei →
      ∃ record ∈ first, Deliverable (decodedRecord record) ∧ ReportOf imei record event) ∧
    ∀ record, PublishedAs imei batches record → Deliverable (decodedRecord record) ∧
      ∃ event, Logged log event ∧ ReportOf imei record event := by
  constructor
  · intro event hlogged hown
    obtain ⟨events, hmem, hevent, hdecodable⟩ := (logged_iff hbroker event).mp hlogged
    obtain ⟨record, hrecord, hreport⟩ :=
      hevents events (hcarried.own events hmem event hevent hown) event hevent
    exact ⟨record, hrecord, ((hreport.decodable himei).mp hdecodable).2, hreport⟩
  · rintro record ⟨events, hmem, event, hevent, hreport, hdecodable⟩
    exact ⟨((hreport.decodable himei).mp hdecodable).2, event, (logged_iff hbroker event).mpr
      ⟨events, hcarried.sent events hmem, hevent, hdecodable⟩, hreport⟩

/-- From the device to the database. The rows of the device's vehicle show positions of its first
records, and the device has deleted no others. Once the writer of positions has handled every
message, there is one row for each time at which such a record had a fix and was published as an
event that meets the schema; which it is if the record is deliverable and the clock of the server
shows a year of four digits. Whatever else the tables refuse, of this device or of others, costs no
more than the calls in which it is. -/
theorem positions_stored (himei : isValidImei imei = true) {u : Config Uid (Uplink Uid) Channel}
    (huplink : (uplink Uid imei).Run noticesDamage (unused Uid) u)
    (hcarried : Carried imei u.shared.log published)
    (hbroker : Brokered wording options partitioner published log)
    {host : Pid → Process} {writer : Pid → Writer}
    {w₀ w : Config Pid (Platform Process Id) (Option (WriterCall Id))} (h₀ : Started w₀)
    (h : (writers host writer).Run (admits host log) w₀ w) :
    ∃ n, u.shared.device.deleted ≤ n ∧ n ≤ u.shared.device.recorded.length ∧
      (∀ r ∈ w.shared.db.vehicleLocations.rows, w.shared.db.vehicleOf? imei = some r.vehicleId →
        ∃ record ∈ u.shared.device.recorded.take n, Positioned record ∧ ShowsPosition r record) ∧
      (AllHandled log w.shared .locations → ∀ record ∈ u.shared.device.recorded.take n,
        Positioned record → PublishedAs imei u.shared.log record →
          ∃! r, r ∈ w.shared.db.vehicleLocations.rows ∧
            w.shared.db.vehicleOf? imei = some r.vehicleId ∧
            r.recordedAt = some record.timestampMs) ∧
      ∀ record ∈ u.shared.device.recorded.take n, ∃ events ∈ u.shared.log, ∃ event ∈ events,
        ReportOf imei record event ∧ (Decodable event ↔
          (JsDate.parse event.receivedAt).isSome = true ∧ Deliverable (decodedRecord record)) := by
  obtain ⟨n, hdeleted, hlength, hevents, hrecords⟩ := reported himei huplink
  obtain ⟨hown, hsent⟩ := logged_reports himei hevents hcarried hbroker
  have hlog : Acceptable (fun _ => True) log :=
    { imei := fun p event hevent => by
        obtain ⟨_, _, _, hdecodable⟩ := (logged_iff hbroker event).mp ⟨p, hevent⟩
        exact imeiDigits_of_decodable hdecodable
      fits := fun _ => .inl trivial }
  have hconverge := (h₀.sound hlog h).1.locationsConverge
  refine ⟨n, hdeleted, hlength, fun r hr hvehicle => ?_,
    fun hall record hrecord hfix hpublished => ?_, fun record hrecord => ?_⟩
  · obtain ⟨event, hlogged, hid, gps, hgps, hshows⟩ := hconverge.derived r hr
    -- no two devices share a vehicle
    have hsame : event.imei = imei :=
      vehicleOf_inj (w := World.start w.shared.db) hid hvehicle
    obtain ⟨record, hrecord, hdeliverable, hreport⟩ := hown event hlogged hsame
    have hfix : Positioned record := hreport.gps.mp (Option.isSome_of_mem hgps)
    exact ⟨record, hrecord, hfix, hreport.showsPosition hdeliverable hgps hshows⟩
  · obtain ⟨hdeliverable, event, hlogged, hreport⟩ := hsent record hpublished
    have hgps := hreport.gps.mpr hfix
    obtain ⟨id, hid⟩ := Option.isSome_iff_exists.mp (hconverge.registered hall event hlogged hgps)
    have hkey : ∃ r ∈ w.shared.db.vehicleLocations.rows,
        Keyed.key r = (id, (some record.timestampMs : JsDate)) := by
      rw [hconverge.keys hall, ← hreport.recordedAt hdeliverable]
      exact ⟨event, hlogged, hgps, id, hid, rfl⟩
    obtain ⟨r, hr, hkey⟩ := hkey
    obtain ⟨hvehicle, htime⟩ := Prod.ext_iff.mp hkey
    rw [hreport.imei_eq] at hid
    refine ⟨r, ⟨hr, hid.trans (congrArg some hvehicle.symm), htime⟩, fun r' ⟨hr', hid', htime'⟩ => ?_⟩
    refine List.inj_on_of_nodup_map hconverge.nodup hr' hr (Prod.ext ?_ (htime'.trans htime.symm))
    exact (Option.some.inj (hid.symm.trans hid')).symm.trans hvehicle.symm
  · obtain ⟨events, hmem, event, hevent, hreport⟩ := hrecords record hrecord
    exact ⟨events, hmem, event, hevent, hreport, hreport.decodable himei⟩

deriving instance DecidableEq for EncodableGps, EncodableIo, EncodableIoVariable, EncodableRecord

/-- A record with a fix, and with a level of the tank that its column refuses. -/
def fixRecord : EncodableRecord :=
  { bareRecord with
    gps := some ⟨250000000, 550000000, 12, 90, 9, 40⟩
    io := some [⟨89, 101, .one⟩] }

/-- The record is sent and stored. -/
def fixRun : List UplinkLabel :=
  let sent : Transmission := ⟨.codec8, [fixRecord], dataFieldBytes .codec8 [fixRecord],
    crc16ibm (dataFieldBytes .codec8 [fixRecord])⟩
  [.record fixRecord, .connect, .ingest (.data ([0, 15] ++ fromAscii "356307042441013")),
    .ingest (.proceed 1700000000500), .ingest (.proceed 1700000000500), .reply,
    .report .codec8 1 sent.dataField sent.crc, .ingest (.data sent.bytes),
    .ingest (.proceed 1700000000500), .store 0, .ingest (.settle .resolved),
    .ingest (.proceed 1700000000500), .reply]

/-- Everything is in one partition. -/
def onePartition (events : List TelemetryEvent) : Partition → List TelemetryEvent
  | ⟨.live, 0⟩ => events
  | _ => []

theorem brokered_onePartition (wording : Wording) {options : PublishOptions}
    (hnames : options.live ≠ options.backfill) {published : List (List TelemetryEvent)}
    (h : ∀ event ∈ published.flatten, Decodable event ∧ options.topicOf event = options.live) :
    Brokered wording options (fun _ => 0) published (onePartition published.flatten) := by
  intro p event
  refine Iff.trans ?_ (partition_iff fun _ => 0).symm
  obtain ⟨freshness, number⟩ := p
  constructor
  · intro hmem
    unfold onePartition at hmem
    split at hmem
    · next heq =>
      cases heq
      obtain ⟨events, hevents, hevent⟩ := List.mem_flatten.mp hmem
      exact ⟨events, hevents, hevent, (h event hmem).1, (h event hmem).2, rfl⟩
    · cases hmem
  · rintro ⟨events, hevents, hevent, -, htopic, rfl⟩
    have hmem := List.mem_flatten.mpr ⟨events, hevents, hevent⟩
    rw [(h event hmem).2] at htopic
    cases freshness with
    | live => exact hmem
    | backfill => exact (hnames htopic).elim

theorem positions_stored_fix : ∃ (u : Config Unit (Uplink Unit) Channel)
    (w : Config Writer (Platform Unit ℕ) (Option (WriterCall ℕ))),
    (uplink Unit "356307042441013").Run noticesDamage (unused Unit) u ∧
      (writers (fun _ => ()) id).Run
        (admits (fun _ => ()) (onePartition u.shared.log.flatten)) idle w ∧
      u.shared.device.deleted = 1 ∧ ¬ FuelFits (decodedRecord fixRecord) ∧
      ∃ r ∈ w.shared.db.vehicleLocations.rows, ShowsPosition r fixRecord := by
  have himei : isValidImei "356307042441013" = true := by decide
  let options : PublishOptions := ⟨none, none, none⟩
  have hmoves : ((uplink Unit "356307042441013").moves noticesDamage (unused Unit)
      (fixRun.map ((), ·))).map
      (fun u => (u.shared.device.deleted, u.shared.device.recorded,
        u.shared.log.flatten.all fun event =>
          options.topicOf event = options.live && decide (Decodable event ∧ Dated event))) =
      some (1, [fixRecord], true) := by
    decide +kernel
  obtain ⟨u, hu, hall⟩ := Option.map_eq_some_iff.mp hmoves
  simp only [Prod.mk.injEq, List.all_eq_true, Bool.and_eq_true, decide_eq_true_eq] at hall
  obtain ⟨hdeleted, hrecorded, hevents⟩ := hall
  have huplink := Interleaving.Run.of_moves .refl hu
  have hlive : ∀ event ∈ u.shared.log.flatten, Decodable event ∧
      options.topicOf event = options.live :=
    fun event hevent => ⟨(hevents event hevent).2.1, (hevents event hevent).1⟩
  have hbroker := brokered_onePartition (fun _ _ => "invalid")
    (by decide : options.live ≠ options.backfill) hlive
  have hcarried : Carried "356307042441013" u.shared.log u.shared.log :=
    ⟨fun _ => id, fun _ hmem _ _ _ => hmem⟩
  have hlog : ∀ p, ∀ event ∈ onePartition u.shared.log.flatten p,
      event ∈ u.shared.log.flatten := by
    intro p event hevent
    unfold onePartition at hevent
    split at hevent
    · exact hevent
    · cases hevent
  obtain ⟨_, -, -, hreported, -⟩ := reported himei huplink
  have hacceptable : Acceptable (· = .fuel) (onePartition u.shared.log.flatten) :=
    { imei := fun p event hevent =>
        imeiDigits_of_decodable (hevents event (hlog p event hevent)).2.1
      fits := fun writer => by
        cases writer with
        | fuel => exact .inl rfl
        | locations =>
          refine .inr fun p event hevent => ?_
          have hmem := hlog p event hevent
          obtain ⟨events, hevents', hevent'⟩ := List.mem_flatten.mp hmem
          obtain ⟨record, -, hreport⟩ := hreported events hevents' event hevent'
          obtain ⟨-, hdecodable, hdates⟩ := hevents event hmem
          exact hreport.fits_locations hdecodable hdates }
  -- the one batch is delivered to the writer of positions
  have hstart : (writers (fun _ => ()) id).Run
      (admits (fun _ => ()) (onePartition u.shared.log.flatten)) idle idle := .refl
  obtain ⟨w, hw, -, hresolved⟩ := deliver_resolves hacceptable started_idle hstart
    (i := .locations) rfl (by decide)
    (List.infix_refl (onePartition u.shared.log.flatten ⟨.live, 0⟩))
  obtain ⟨n, hn, -, hshown, hcomplete, hpublished⟩ :=
    positions_stored himei huplink hcarried hbroker started_idle hw
  have hhandled : AllHandled (onePartition u.shared.log.flatten) w.shared .locations := by
    rintro event ⟨p, hevent⟩
    exact ⟨(.locations, u.shared.log.flatten),
      hresolved ▸ List.mem_append_right _ List.mem_cons_self, rfl, hlog p event hevent⟩
  have hfirst : fixRecord ∈ u.shared.device.recorded.take n := by
    rw [hdeleted] at hn
    rw [hrecorded, List.take_of_length_le hn]
    exact List.mem_cons_self
  obtain ⟨events, hmem, event, hevent, hreport, -⟩ := hpublished fixRecord hfirst
  have hdecodable := (hevents event (List.mem_flatten.mpr ⟨events, hmem, hevent⟩)).2.1
  obtain ⟨r, ⟨hr, hvehicle, -⟩, -⟩ := hcomplete hhandled fixRecord hfirst
    (by decide : (0 : ℤ) < 9) ⟨events, hmem, event, hevent, hreport, hdecodable⟩
  obtain ⟨record, hrecord, -, hshows⟩ := hshown r hr hvehicle
  rw [hrecorded] at hrecord
  obtain rfl := List.mem_singleton.mp (List.mem_of_mem_take hrecord)
  have hfuel : ¬ FuelFits (decodedRecord fixRecord) := fun hfits =>
    absurd (hfits.pct (.canPct, AVL_ID.fuelLevelCanPct) (by decide) 101 (by decide)) (by decide)
  exact ⟨u, w, huplink, hw, hdeleted, hfuel, r, hr, hshows⟩

end BankPlatform.Telemetry
