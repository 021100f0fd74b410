import BankPlatform.Library.Numeral
import BankPlatform.Telemetry.Event
import BankPlatform.Teltonika.Bounds
import BankPlatform.Teltonika.Framer
import BankPlatform.Teltonika.RoundTrip

/-!
# Building events

`buildTelemetryEvents` of `packages/events/src/build.ts`, and how its events fare with the schema
of the consumers.

## Main definitions

* `buildTelemetryEvents` — the events of one packet.
* `Deliverable` — a record whose event is read back.

## Main results

* `buildTelemetryEvents_eq_ok` — events are built if every time stamp is within the range of `Date`.
* `decode_build_iff` — which events are read back, and that nothing is lost then.
-/

namespace BankPlatform.Telemetry

open Library Teltonika

/-- The position in the packet disambiguates two records sharing a timestamp. -/
def dedupKey (imei : String) (record : AvlRecord) (index : ℕ) : String :=
  imei ++ ":" ++ toString record.timestampMs ++ ":" ++ toString index

/-- The transport envelope of a payload. -/
def envelope (payload : TelemetryPayload) (codec : CodecId)
    (dedupKey recordedAt receivedAt : String) : TelemetryEvent where
  schemaVersion := TELEMETRY_SCHEMA_VERSION
  dedupKey
  imei := payload.imei
  codec
  recordedAt
  receivedAt
  priority := payload.priority
  eventIoId := payload.eventIoId
  gps := payload.gps
  ignition := payload.ignition
  movement := payload.movement
  fuel := payload.fuel
  externalVoltageMv := payload.externalVoltageMv
  batteryVoltageMv := payload.batteryVoltageMv
  odometerM := payload.odometerM
  rawIo := payload.rawIo
  rawIoVariable := payload.rawIoVariable

/-- The event of the record at a position of the packet. -/
def buildTelemetryEvent (imei : String) (codec : CodecId) (receivedAt : JsDate)
    (record : AvlRecord) (index : ℕ) : Except DateError TelemetryEvent := do
  let payload := normalizeRecord imei record receivedAt
  return envelope payload codec (dedupKey imei record index) (← payload.recordedAt.toISOString)
    (← payload.receivedAt.toISOString)

/-- The events of one decoded packet. -/
def buildTelemetryEvents (imei : String) (codec : CodecId) (records : List AvlRecord)
    (receivedAt : JsDate) : Except DateError (List TelemetryEvent) :=
  records.zipIdx.mapM fun r => buildTelemetryEvent imei codec receivedAt r.1 r.2

/-! ## When events are built -/

theorem ofTime_of_le {record : AvlRecord} (h : record.timestampMs ≤ JsDate.maxTime) :
    JsDate.ofTime record.timestampMs = some (record.timestampMs : ℤ) := by
  rw [JsDate.ofTime, if_pos]
  simpa using h

theorem ofTime_of_lt {record : AvlRecord} (h : JsDate.maxTime < record.timestampMs) :
    JsDate.ofTime record.timestampMs = none := by
  rw [JsDate.ofTime, if_neg]
  simpa using h

/-- The event of a record whose time stamp is within the range of `Date`. -/
def builtEvent (imei : String) (codec : CodecId) (receivedAt : ℤ) (record : AvlRecord)
    (index : ℕ) : TelemetryEvent :=
  envelope (normalizeRecord imei record (some receivedAt)) codec (dedupKey imei record index)
    (String.ofList (IsoDate.toISOString record.timestampMs))
    (String.ofList (IsoDate.toISOString receivedAt))

theorem buildTelemetryEvent_eq_ok (imei : String) (codec : CodecId) (receivedAt : ℤ)
    {record : AvlRecord} (index : ℕ) (h : record.timestampMs ≤ JsDate.maxTime) :
    buildTelemetryEvent imei codec (some receivedAt) record index =
      .ok (builtEvent imei codec receivedAt record index) := by
  have hrecorded : (normalizeRecord imei record (some receivedAt)).recordedAt =
      some (record.timestampMs : ℤ) := ofTime_of_le h
  simp only [buildTelemetryEvent, hrecorded]
  rfl

/-- A time stamp beyond the range of `Date` makes the builder throw. -/
theorem buildTelemetryEvent_throws (imei : String) (codec : CodecId) (receivedAt : JsDate)
    {record : AvlRecord} (index : ℕ) (h : JsDate.maxTime < record.timestampMs) :
    buildTelemetryEvent imei codec receivedAt record index = .error ⟨"Invalid time value"⟩ := by
  have hrecorded : (normalizeRecord imei record receivedAt).recordedAt = none := ofTime_of_lt h
  simp only [buildTelemetryEvent, hrecorded]
  rfl

theorem mapM_zipIdx_eq_ok {α β ε : Type} {f : α × ℕ → Except ε β} {g : α → ℕ → β} (as : List α)
    (i : ℕ) (h : ∀ a ∈ as, ∀ index, f (a, index) = .ok (g a index)) :
    (as.zipIdx i).mapM f = .ok ((as.zipIdx i).map fun r => g r.1 r.2) := by
  induction as generalizing i with
  | nil => rfl
  | cons a as ih =>
    rw [List.zipIdx_cons, List.mapM_cons, h a List.mem_cons_self i, ok_bind,
      ih (i + 1) fun b hb => h b (List.mem_cons_of_mem _ hb)]
    rfl

theorem mapM_zipIdx_error {α β ε : Type} {f : α × ℕ → Except ε β} (as : List α) (i : ℕ)
    (h : ∃ a ∈ as, ∀ index, ∃ e, f (a, index) = .error e) :
    ∃ e, (as.zipIdx i).mapM f = .error e := by
  induction as generalizing i with
  | nil =>
    obtain ⟨a, ha, _⟩ := h
    cases ha
  | cons a as ih =>
    rw [List.zipIdx_cons, List.mapM_cons]
    cases hfirst : f (a, i) with
    | error e => exact ⟨e, rfl⟩
    | ok b =>
      obtain ⟨c, hc, hthrows⟩ := h
      rcases List.mem_cons.mp hc with rfl | hc
      · obtain ⟨e, he⟩ := hthrows i
        rw [he] at hfirst
        cases hfirst
      · obtain ⟨e, he⟩ := ih (i + 1) ⟨c, hc, hthrows⟩
        exact ⟨e, by rw [ok_bind, he]; rfl⟩

/-- Events are built exactly if every time stamp is within the range of `Date`. -/
theorem buildTelemetryEvents_eq_ok (imei : String) (codec : CodecId) (receivedAt : ℤ)
    (records : List AvlRecord) :
    ((∀ record ∈ records, record.timestampMs ≤ JsDate.maxTime) →
      buildTelemetryEvents imei codec records (some receivedAt) =
        .ok (records.zipIdx.map fun r => builtEvent imei codec receivedAt r.1 r.2)) ∧
    ((¬ ∀ record ∈ records, record.timestampMs ≤ JsDate.maxTime) →
      ∃ err, buildTelemetryEvents imei codec records (some receivedAt) = .error err) := by
  constructor
  · intro h
    exact mapM_zipIdx_eq_ok records 0 fun record hrecord index =>
      buildTelemetryEvent_eq_ok imei codec receivedAt index (h record hrecord)
  · intro h
    push Not at h
    obtain ⟨record, hrecord, hlate⟩ := h
    exact mapM_zipIdx_error records 0
      ⟨record, hrecord, fun index => ⟨_, buildTelemetryEvent_throws imei codec _ index hlate⟩⟩

/-! ## When they are read back -/

/-- A date whose ISO text has a year of four digits. -/
def FourDigitYear (t : ℤ) : Prop := -62167219200000 ≤ t ∧ t < 253402300800000

/-- A record whose event meets the schema. -/
structure Deliverable (record : AvlRecord) : Prop where
  timestampMs : record.timestampMs < 253402300800000
  gps : record.gps.valid = true →
    (-900000000 ≤ record.gps.latitude ∧ record.gps.latitude ≤ 900000000) ∧
    (-1800000000 ≤ record.gps.longitude ∧ record.gps.longitude ≤ 1800000000)
  elements : ∀ avlId ∈ [AVL_ID.externalVoltage, AVL_ID.batteryVoltage, AVL_ID.totalOdometer],
    ∀ value ∈ ioValue record.io avlId, value ≤ 2 ^ 53 - 1

/-- A dictionary of texts spells a map. -/
def Spells {V : Type} (value? : String → Option V) (texts : JsMap String String)
    (m : JsMap ℕ V) : Prop :=
  texts.rows.map (fun p => (Numeral.decimal? p.1, value? p.2)) =
    m.rows.map fun e => (some e.1, some e.2)

theorem spells_toRecord {V : Type} {value? : String → Option V} {text : V → String}
    (h : ∀ value, value? (text value) = some value) (m : JsMap ℕ V) :
    Spells value? (toRecord text m) m := by
  rw [Spells, rows_toRecord, List.map_map]
  refine List.map_congr_left fun e _ => ?_
  simp only [Function.comp, Numeral.decimal?_toString, h]

theorem isSome_parse_toISOString (t : ℤ) :
    (JsDate.parse (String.ofList (IsoDate.toISOString t))).isSome ↔ FourDigitYear t := by
  rw [JsDate.parse, String.toList_ofList, IsoDate.parse?_toISOString, FourDigitYear]
  split <;> simp [*]

/-- The integers of the wire are safe. -/
theorem safe_onWire {record : AvlRecord} (h : record.OnWire) :
    Safe record.priority ∧ Safe record.eventIoId ∧ Safe record.gps.altitudeM ∧
      Safe record.gps.angleDeg ∧ Safe record.gps.satellites ∧ Safe record.gps.speedKph := by
  have hpriority := h.priority
  have hevent := h.eventIoId
  have haltitude := h.altitudeM
  have hangle := h.angleDeg
  have hsatellites := h.satellites
  have hspeed := h.speedKph
  have hmax : JsNumber.maxSafeInteger + 1 = 2 ^ 53 := by decide
  simp only [Safe, Int.natAbs_natCast]
  omega

/-- Which numbers of the schema are safe integers. -/
theorem safe_readNumber (io : JsMap ℕ ℕ) (avlId : ℕ) :
    (∀ z ∈ readNumber io avlId, Safe z) ↔ ∀ value ∈ ioValue io avlId, value ≤ 2 ^ 53 - 1 := by
  have hmax : JsNumber.maxSafeInteger = 2 ^ 53 - 1 := by decide
  rw [← hmax]
  exact natAbs_readNumber io avlId

theorem deliverable_of_decodable {imei : String} {codec : CodecId} {receivedAt : ℤ}
    {record : AvlRecord} {index : ℕ}
    (h : Decodable (builtEvent imei codec receivedAt record index)) : Deliverable record where
  timestampMs := by
    have hrecorded := (isSome_parse_toISOString _).mp h.recordedAt
    unfold FourDigitYear at hrecorded
    omega
  gps hvalid := by
    have hgps := h.gps _ (if_pos hvalid)
    exact ⟨(latitude_range _).mp hgps.latitude, (longitude_range _).mp hgps.longitude⟩
  elements avlId hmem := by
    simp only [List.mem_cons, List.not_mem_nil, or_false] at hmem
    obtain rfl | rfl | rfl := hmem
    · exact (safe_readNumber _ _).mp h.externalVoltageMv
    · exact (safe_readNumber _ _).mp h.batteryVoltageMv
    · exact (safe_readNumber _ _).mp h.odometerM

theorem Deliverable.decodableGps {record : AvlRecord} (h : Deliverable record)
    (hwire : record.OnWire) (imei : String) (receivedAt : Option ℤ) :
    ∀ gps ∈ (normalizeRecord imei record receivedAt).gps, DecodableGps gps := by
  obtain ⟨_, _, haltitude, hangle, hsatellites, hspeed⟩ := safe_onWire hwire
  intro gps hgps
  simp only [normalizeRecord, Option.mem_def] at hgps
  split at hgps
  · next hvalid =>
    obtain ⟨hlatitude, hlongitude⟩ := h.gps hvalid
    cases hgps
    exact
      { latitude := (latitude_range _).mpr hlatitude
        longitude := (longitude_range _).mpr hlongitude
        altitudeM := haltitude
        angleDeg := hangle
        satellites := ⟨hsatellites, Int.natCast_nonneg _⟩
        speedKph := ⟨hspeed, Int.natCast_nonneg _⟩ }
  · cases hgps

/-- Every reading has a level in percent or in litres. -/
theorem readFuel_measured {io : JsMap ℕ ℕ} :
    ∀ reading ∈ readFuel io, reading.pct ≠ none ∨ reading.liters ≠ none := by
  intro reading hreading
  obtain ⟨p, _, z, _, rfl⟩ | ⟨z, _, rfl⟩ := mem_readFuel.mp hreading
  · exact .inl (Option.some_ne_none _)
  · exact .inr (Option.some_ne_none _)

theorem Deliverable.decodable {record : AvlRecord} (h : Deliverable record) (hwire : record.OnWire)
    {imei : String} (himei : isValidImei imei = true) (codec : CodecId) {receivedAt : ℤ}
    (hreceived : FourDigitYear receivedAt) (index : ℕ) :
    Decodable (builtEvent imei codec receivedAt record index) := by
  obtain ⟨hpriority, hevent, _⟩ := safe_onWire hwire
  have himei' : imei.length = 15 ∧ imei.toList.all Char.isDigit = true := by
    rw [isValidImei, Bool.and_eq_true, decide_eq_true_eq] at himei
    exact himei
  have htimestamp := h.timestampMs
  exact
    { schemaVersion := rfl
      dedupKey := by
        simp only [builtEvent, envelope, dedupKey, String.length_append]
        omega
      imei := himei'
      recordedAt := (isSome_parse_toISOString _).mpr ⟨by omega, by omega⟩
      receivedAt := (isSome_parse_toISOString _).mpr hreceived
      priority := ⟨hpriority, Int.natCast_nonneg _⟩
      eventIoId := ⟨hevent, Int.natCast_nonneg _⟩
      gps := h.decodableGps hwire imei (some receivedAt)
      fuel := readFuel_measured
      externalVoltageMv := (safe_readNumber record.io _).mpr (h.elements _ (by simp))
      batteryVoltageMv := (safe_readNumber record.io _).mpr (h.elements _ (by simp))
      odometerM := (safe_readNumber record.io _).mpr (h.elements _ (by simp)) }

/-- Which events meet the schema. -/
theorem decodable_builtEvent {imei : String} (himei : isValidImei imei = true) (codec : CodecId)
    (receivedAt : ℤ) {record : AvlRecord} (hwire : record.OnWire) (index : ℕ) :
    Decodable (builtEvent imei codec receivedAt record index) ↔
      FourDigitYear receivedAt ∧ Deliverable record := by
  constructor
  · intro h
    exact ⟨(isSome_parse_toISOString _).mp h.receivedAt, deliverable_of_decodable h⟩
  · rintro ⟨hreceived, h⟩
    exact h.decodable hwire himei codec hreceived index

/-- What becomes of the event of a record: it is read back exactly if the record is deliverable,
and then it is the event that was written and spells all elements of the record. -/
structure ReadBack (wording : Wording) (record : AvlRecord) (event : TelemetryEvent) : Prop where
  accepted : (∃ decoded, decodeTelemetryEvent wording (.json event.toJson) = .ok decoded) ↔
    Deliverable record
  lossless : ∀ decoded, decodeTelemetryEvent wording (.json event.toJson) = .ok decoded →
    decoded = event ∧ Spells Numeral.decimal? decoded.rawIo record.io ∧
      Spells Numeral.hex? decoded.rawIoVariable record.ioVariable

theorem readBack_builtEvent (wording : Wording) {imei : String} (himei : isValidImei imei = true)
    (codec : CodecId) {receivedAt : ℤ} (hreceived : FourDigitYear receivedAt) {record : AvlRecord}
    (hwire : record.OnWire) (index : ℕ) :
    ReadBack wording record (builtEvent imei codec receivedAt record index) where
  accepted := by
    have hdecodable := decodable_builtEvent himei codec receivedAt hwire index
    constructor
    · rintro ⟨decoded, hdecoded⟩
      exact (hdecodable.mp ((decode_toJson _ _ _).mp hdecoded).1).2
    · intro hdeliverable
      exact ⟨_, (decode_toJson _ _ _).mpr ⟨hdecodable.mpr ⟨hreceived, hdeliverable⟩, rfl⟩⟩
  lossless := by
    intro decoded hdecoded
    obtain ⟨_, rfl⟩ := (decode_toJson _ _ _).mp hdecoded
    exact ⟨rfl, spells_toRecord Numeral.decimal?_toString _, spells_toRecord Numeral.hex?_hex _⟩

/-- The events of a packet are read back exactly for the deliverable records, without loss. -/
theorem decode_build_iff (wording : Wording) {imei : String} (himei : isValidImei imei = true)
    (codec : CodecId) {receivedAt : ℤ} (hreceived : FourDigitYear receivedAt) {frame : Bytes}
    {packetCodec : CodecId} {records : List AvlRecord}
    (hparse : parseAvlPacket frame = .ok (.crcOk packetCodec records))
    (hdates : ∀ record ∈ records, record.timestampMs ≤ JsDate.maxTime) :
    ∃ events, buildTelemetryEvents imei codec records (some receivedAt) = .ok events ∧
      List.Forall₂ (ReadBack wording) records events := by
  refine ⟨_, (buildTelemetryEvents_eq_ok imei codec receivedAt records).1 hdates, ?_⟩
  have hwire := parseAvlPacket_onWire hparse
  generalize 0 = i
  clear hparse hdates
  induction records generalizing i with
  | nil => exact .nil
  | cons record records ih =>
    have hrecord := readBack_builtEvent wording himei codec hreceived
      (hwire record List.mem_cons_self) i
    exact .cons hrecord (ih (fun r hr => hwire r (List.mem_cons_of_mem _ hr)) (i + 1))

/-- A record with elements of every width. -/
theorem decode_build_sample : ∃ events,
    buildTelemetryEvents "356307042441013" .codec8e [decodedRecord sampleRecord]
      (some 1700000000500) = .ok events ∧
    List.Forall₂ (ReadBack fun _ _ => "invalid") [decodedRecord sampleRecord] events := by
  have hfits : ∀ record ∈ [sampleRecord], record.Fits CodecId.codec8e.extended := by
    intro record hrecord
    obtain rfl := List.mem_singleton.mp hrecord
    constructor <;> decide
  have hparse : parseAvlPacket (frameBytes (dataFieldBytes .codec8e [sampleRecord])) =
      .ok (.crcOk .codec8e [decodedRecord sampleRecord]) :=
    parse_dataFieldBytes (by decide) hfits (by decide)
  refine decode_build_iff _ (by decide) .codec8e ⟨by decide, by decide⟩ hparse ?_
  intro record hrecord
  obtain rfl := List.mem_singleton.mp hrecord
  decide

end BankPlatform.Telemetry
