import BankPlatform.Telemetry.EngineCalls

/-!
# Which events the writers can store

A message that the schema accepts may still be refused by the tables. A refused row makes the insert
of its whole batch fail, and the batch is delivered again.

## Main definitions

* `FuelFits` — a record whose fuel elements fit the columns of `vehicle_fuel_readings`.
* `Delivered` — an event that ingest made of a record and that the consumers decoded.

## Main results

* `writers_store_iff` — the three writers store a batch exactly if the fuel elements of all its
  records fit.
-/

namespace BankPlatform.Telemetry

open Library Teltonika

variable {Id : Type}

/-! ## The shape of the writers -/

theorem flatMap_rows {R : Type} {rowsOf : JsMap String Id → TelemetryEvent → List R} {P : R → Prop}
    {ids : JsMap String Id} {events : List TelemetryEvent} :
    (∀ r ∈ events.flatMap (rowsOf ids), P r) ↔
      ∀ event ∈ events, ∀ r ∈ rowsOf ids event, P r := by
  simp only [List.mem_flatMap, forall_exists_index, and_imp]
  exact ⟨fun h event hevent r hr => h r event hevent hr,
    fun h r event hevent hr => h event hevent r hr⟩

variable [FreshIds Id]

/-- A writer succeeds exactly if its insert does. -/
theorem writeRows_does_iff {R : Type} (wanted : TelemetryEvent → Bool)
    (rowsOf : JsMap String Id → TelemetryEvent → List R) (label : Statement)
    (insert : List R → TelemetryDb Id → Except DbError (TelemetryDb Id))
    {events : List TelemetryEvent} (himeis : ∀ event ∈ events, imeiDigits event.imei = true)
    (hempty : ∀ db, ∃ db', insert [] db = .ok db') {w : World Id} (hw : RegistryAgrees w) :
    ∃ ids t, Resolved w ((events.filter wanted).map TelemetryEvent.imei) ids t ∧
      ((∃ w', Session.Does (writeRows wanted rowsOf label insert events) w () w') ↔
        ∃ db, insert ((events.filter wanted).flatMap (rowsOf ids)) t.db = .ok db) := by
  obtain ⟨ids, t, hdoes, hresolved⟩ := does_resolveAll (imeiDigits_wanted himeis wanted) hw
  refine ⟨ids, t, hresolved, ?_⟩
  unfold writeRows
  dsimp only
  by_cases hnone : (events.filter wanted).isEmpty
  · rw [if_pos hnone, List.isEmpty_iff.mp hnone]
    exact ⟨fun _ => hempty t.db, fun _ => ⟨w, rfl⟩⟩
  · rw [if_neg hnone]
    by_cases hrows : ((events.filter wanted).flatMap (rowsOf ids)).isEmpty
    · refine ⟨fun _ => ?_, fun _ => ⟨t, hdoes.bind ?_⟩⟩
      · rw [List.isEmpty_iff.mp hrows]
        exact hempty t.db
      · rw [if_pos hrows]
        rfl
    · constructor
      · rintro ⟨w', hall⟩
        obtain ⟨ids', t', hids, hwrite⟩ := Session.does_bind.mp hall
        obtain ⟨rfl, rfl⟩ := hdoes.unique hids
        rw [if_neg hrows] at hwrite
        obtain ⟨db, hdb, _⟩ := does_write.mp hwrite
        exact ⟨db, hdb⟩
      · rintro ⟨db, hdb⟩
        refine ⟨{ t with db }, hdoes.bind ?_⟩
        rw [if_neg hrows]
        exact does_write.mpr ⟨db, hdb, rfl⟩

section

variable [DecidableEq Id]

/-- What is demanded of the row of a fuel reading. -/
def fuelColumns (event : TelemetryEvent) (reading : FuelReading) : Checks :=
  (fuelRow () event reading).columns

/-- The fuel writer stores a batch exactly if every reading fits its columns. -/
theorem fuelHandler_does_iff {events : List TelemetryEvent}
    (himeis : ∀ event ∈ events, imeiDigits event.imei = true) {w : World Id}
    (hw : RegistryAgrees w) :
    (∃ w', Session.Does (fuelHandler events) w () w') ↔
      ∀ event ∈ events, ∀ reading ∈ event.fuel, InOrder (fuelColumns event reading) := by
  obtain ⟨ids, t, hresolved, hdoes⟩ := writeRows_does_iff (fun event => 0 < event.fuel.length)
    fuelRows .insertFuelReadings insertFuelReadings himeis (fun db => ⟨_, rfl⟩) hw
  set relevant := events.filter fun event => 0 < event.fuel.length with hrelevant
  have hrows : ∀ event ∈ relevant, ∃ id, (vehicleReference t.db id).1 = true ∧
      fuelRows ids event = event.fuel.map (fuelRow id event) := by
    intro event hevent
    obtain ⟨id, hid, hvehicle⟩ := resolved_find? hresolved hevent
    exact ⟨id, hvehicle, by rw [fuelRows, hid]⟩
  refine hdoes.trans ((insertRows_of_references ?_).trans ?_)
  · rw [flatMap_rows]
    intro event hevent r hr
    obtain ⟨id, hvehicle, heq⟩ := hrows event hevent
    rw [heq] at hr
    obtain ⟨reading, _, rfl⟩ := List.mem_map.mp hr
    exact hvehicle
  · rw [flatMap_rows]
    constructor
    · intro h event hevent reading hreading
      have hmem : event ∈ relevant :=
        List.mem_filter.mpr ⟨hevent, decide_eq_true (List.length_pos_of_mem hreading)⟩
      obtain ⟨id, _, heq⟩ := hrows event hmem
      exact h event hmem (fuelRow id event reading) (heq ▸ List.mem_map_of_mem hreading)
    · intro h event hevent r hr
      obtain ⟨id, _, heq⟩ := hrows event hevent
      rw [heq] at hr
      obtain ⟨reading, hreading, rfl⟩ := List.mem_map.mp hr
      exact h event (List.mem_of_mem_filter hevent) reading hreading

/-- What is demanded of the row of a position. -/
def locationColumns (event : TelemetryEvent) (gps : NormalizedGps) : Checks :=
  (locationRow () event gps).columns

/-- The position writer stores a batch if every position fits its columns. -/
theorem locationsHandler_does {events : List TelemetryEvent}
    (himeis : ∀ event ∈ events, imeiDigits event.imei = true) {w : World Id}
    (hw : RegistryAgrees w)
    (h : ∀ event ∈ events, ∀ gps ∈ event.gps, InOrder (locationColumns event gps)) :
    ∃ w', Session.Does (locationsHandler events) w () w' := by
  obtain ⟨ids, t, hresolved, hdoes⟩ := writeRows_does_iff (fun event => event.gps.isSome)
    locationRows .insertLocations insertLocations himeis (fun db => ⟨_, rfl⟩) hw
  have hrows : ∀ event ∈ events.filter fun event => event.gps.isSome, ∀ r ∈ locationRows ids event,
      (vehicleReference t.db r.vehicleId).1 = true ∧ InOrder r.columns := by
    intro event hevent r hr
    obtain ⟨id, hid, hvehicle⟩ := resolved_find? hresolved hevent
    rw [locationRows, hid] at hr
    obtain ⟨gps, hgps, rfl⟩ := Option.map_eq_some_iff.mp (Option.mem_toList.mp hr)
    exact ⟨hvehicle, h event (List.mem_of_mem_filter hevent) gps hgps⟩
  refine hdoes.mpr ((insertRows_of_references ?_).mpr ?_)
  · rw [flatMap_rows]
    exact fun event hevent r hr => (hrows event hevent r hr).1
  · rw [flatMap_rows]
    exact fun event hevent r hr => (hrows event hevent r hr).2

end

/-! ## From records to rows -/

/-- A record whose fuel elements fit the columns of their rows. -/
structure FuelFits (record : AvlRecord) : Prop where
  pct : ∀ p ∈ pctSources, ∀ value ∈ ioValue record.io p.2, value ≤ 100
  liters : ∀ value ∈ ioValue record.io AVL_ID.fuelLevelCanLiters, value ≤ 9999999

/-- An event that ingest made of a record of a packet, and that the consumers decoded. The clock of
the server is not set before the year 1. -/
structure Delivered (wording : Wording) (record : AvlRecord) (event : TelemetryEvent) : Prop where
  produced : ∃ imei codec receivedAt frame packetCodec records events,
    isValidImei imei = true ∧ yearOne ≤ receivedAt ∧
      parseAvlPacket frame = .ok (.crcOk packetCodec records) ∧
      buildTelemetryEvents imei codec records (some receivedAt) = .ok events ∧
      (record, event) ∈ records.zip events
  decoded : decodeTelemetryEvent wording (.json event.toJson) = .ok event

/-- The events of a packet are those of its records. -/
theorem mem_zip_builtEvents {imei : String} {codec : CodecId} {receivedAt : ℤ}
    {records : List AvlRecord} {events : List TelemetryEvent}
    (h : buildTelemetryEvents imei codec records (some receivedAt) = .ok events)
    {record : AvlRecord} {event : TelemetryEvent} (hmem : (record, event) ∈ records.zip events) :
    record ∈ records ∧ ∃ index, event = builtEvent imei codec receivedAt record index := by
  obtain ⟨hok, herror⟩ := buildTelemetryEvents_eq_ok imei codec receivedAt records
  by_cases hdates : ∀ record ∈ records, record.timestampMs ≤ JsDate.maxTime
  · obtain rfl := Except.ok.inj ((hok hdates).symm.trans h)
    clear hok herror hdates h
    revert hmem
    generalize 0 = i
    induction records generalizing i with
    | nil => intro hmem; cases hmem
    | cons first records ih =>
      intro hmem
      rw [List.zipIdx_cons, List.map_cons, List.zip_cons_cons] at hmem
      rcases List.mem_cons.mp hmem with heq | hmem
      · cases heq
        exact ⟨List.mem_cons_self, i, rfl⟩
      · obtain ⟨hrecord, hevent⟩ := ih (i + 1) hmem
        exact ⟨List.mem_cons_of_mem _ hrecord, hevent⟩
  · obtain ⟨err, herr⟩ := herror hdates
    rw [herr] at h
    cases h

/-- The columns take the time stamps of an event that meets the schema, unless the clock of the
server showed the year 0. -/
theorem dated_builtEvent {imei : String} {codec : CodecId} {receivedAt : ℤ} {record : AvlRecord}
    {index : ℕ} (h : Decodable (builtEvent imei codec receivedAt record index))
    (hclock : yearOne ≤ receivedAt) : Dated (builtEvent imei codec receivedAt record index) := by
  have hparse : ∀ t u, u ∈ JsDate.parse (String.ofList (IsoDate.toISOString t)) → u = t := by
    intro t u hu
    rw [JsDate.parse, String.toList_ofList, IsoDate.parse?_toISOString] at hu
    exact (Option.some.inj (Option.ite_none_right_eq_some.mp hu).2).symm
  refine (dated_iff h).mpr ⟨fun u hu => ?_, fun u hu => ?_⟩
  · rw [hparse record.timestampMs u hu, yearOne]
    omega
  · rw [hparse receivedAt u hu]
    exact hclock

/-- An integer in a column of type `integer`. -/
theorem inOrder_integer {column : String} {z : ℤ} (h : z.natAbs ≤ 2 ^ 16) :
    (integerColumn column z).1 = true := by
  have hlow : (-(2 ^ 31) : ℚ) ≤ z := by exact_mod_cast (by omega : (-(2 ^ 31) : ℤ) ≤ z)
  have hhigh : (z : ℚ) < 2 ^ 31 := by exact_mod_cast (by omega : z < (2 ^ 31 : ℤ))
  simp [integerColumn, hlow, hhigh]

/-- The columns of the levels are what is left to check behind the time stamps. -/
theorem inOrder_fuelColumns {event : TelemetryEvent} (hdates : Dated event)
    (reading : FuelReading) :
    InOrder (fuelColumns event reading) ↔
      (∀ pct ∈ reading.pct, (integerColumn "level_pct" pct).1 = true ∧ 0 ≤ pct ∧ pct ≤ 100) ∧
      (∀ liters ∈ reading.liters,
        (numericColumn "level_liters" (JsNumber.toFixed 2 liters)).1 = true) ∧
      (reading.pct.isSome ∨ reading.liters.isSome) := by
  have hsplit : fuelColumns event reading =
      dateColumns event ++ nullable reading.pct (integerColumn "level_pct") ++
        nullable (reading.liters.map (JsNumber.toFixed 2)) (numericColumn "level_liters") ++
        [(reading.pct.isSome || (reading.liters.map (JsNumber.toFixed 2)).isSome,
            .checkViolation "vehicle_fuel_readings_has_a_value"),
          (reading.pct.all fun pct => decide (0 ≤ pct) && decide (pct ≤ 100),
            .checkViolation "vehicle_fuel_readings_pct_in_range")] := rfl
  unfold Dated InOrder at hdates
  unfold InOrder
  rw [hsplit, List.append_assoc, List.append_assoc, List.forall_mem_append, and_iff_right hdates]
  simp only [List.forall_mem_append, List.forall_mem_cons, List.not_mem_nil, false_imp_iff,
    implies_true, and_true, nullable]
  clear hdates hsplit
  cases reading.pct <;> cases reading.liters <;> simp
  tauto

/-- The row of a percentage is in order exactly if the percentage is at most 100. -/
theorem inOrder_pctReading {event : TelemetryEvent} (hdates : Dated event)
    (source : FuelSource) (n : ℕ) :
    InOrder (fuelColumns event (pctReading source n)) ↔ n ≤ 100 := by
  rw [inOrder_fuelColumns hdates]
  have hcast : ((n : ℤ) : ℚ) ≤ 100 ↔ n ≤ 100 := by
    rw [Int.cast_natCast]
    exact_mod_cast Iff.rfl
  constructor
  · rintro ⟨hpct, _, _⟩
    exact hcast.mp (hpct _ rfl).2.2
  · intro h
    refine ⟨fun pct hpct => ?_, ?_, .inl rfl⟩
    · obtain rfl := Option.some.inj hpct
      exact ⟨inOrder_integer (by omega), by positivity, hcast.mpr h⟩
    · intro liters hliters
      cases hliters

/-- Tenths of a litre that are less than a million litres, also when they are rounded to
hundredths. -/
theorem liters_lt_iff (n : ℕ) :
    JsNumber.scale n FUEL_LITERS_SCALE * 10 ^ 2 + 1 / 2 < ((10 ^ 8 : ℕ) : ℚ) ↔ n ≤ 9999999 := by
  have hlast : JsNumber.ofInt (9999999 * 3602879701896397) * 200 < 199999999 * 2 ^ 55 := by decide
  have hnext : 199999999 * 2 ^ 55 ≤ JsNumber.ofInt (10000000 * 3602879701896397) * 200 := by decide
  have hbelow : JsNumber.scale 9999999 FUEL_LITERS_SCALE < 199999999 / 200 := by
    rw [JsNumber.scale, div_lt_div_iff₀ (by positivity) (by norm_num)]
    exact_mod_cast hlast
  have habove : (199999999 / 200 : ℚ) ≤ JsNumber.scale (9999999 + 1) FUEL_LITERS_SCALE := by
    rw [JsNumber.scale, div_le_div_iff₀ (by norm_num) (by positivity)]
    exact_mod_cast hnext
  have hscale := JsNumber.scale_lt_iff hbelow habove n
  constructor
  · intro h
    have : JsNumber.scale n FUEL_LITERS_SCALE < 199999999 / 200 := by
      norm_num at h ⊢
      linarith
    exact_mod_cast hscale.mp this
  · intro h
    have := hscale.mpr (by exact_mod_cast h)
    norm_num
    linarith

/-- The row of a volume is in order exactly if it has at most six digits before the point. -/
theorem inOrder_litersReading {event : TelemetryEvent} (hdates : Dated event)
    (n : ℕ) : InOrder (fuelColumns event (litersReading n)) ↔ n ≤ 9999999 := by
  rw [inOrder_fuelColumns hdates]
  have hfits : (numericColumn "level_liters"
      (JsNumber.toFixed 2 (JsNumber.scale n FUEL_LITERS_SCALE))).1 = true ↔ n ≤ 9999999 := by
    rw [numericColumn, decide_eq_true_iff,
      JsNumber.toFixed_natAbs_lt (JsNumber.scale_nonneg (Int.natCast_nonneg n) _)]
    exact liters_lt_iff n
  constructor
  · exact fun h => hfits.mp (h.2.1 _ rfl)
  · intro h
    refine ⟨?_, fun liters hliters => ?_, .inr rfl⟩
    · intro pct hpct
      cases hpct
    · obtain rfl := Option.some.inj hliters
      exact hfits.mpr h

theorem natCast_readNumber {io : JsMap ℕ ℕ} {avlId bound : ℕ}
    (hbound : bound ≤ JsNumber.maxSafeInteger) {P : ℤ → Prop}
    (hP : ∀ n : ℕ, P n ↔ n ≤ bound) :
    (∀ z ∈ readNumber io avlId, P z) ↔ ∀ value ∈ ioValue io avlId, value ≤ bound := by
  unfold readNumber
  cases ioValue io avlId with
  | none => simp
  | some value =>
    simp only [Option.map_some, Option.mem_some_iff, forall_eq', hP]
    exact JsNumber.ofNat_le_iff hbound

/-- The rows of a record's fuel readings are in order exactly if its fuel elements fit. -/
theorem inOrder_readFuel {event : TelemetryEvent} (hdates : Dated event)
    {record : AvlRecord} :
    (∀ reading ∈ readFuel record.io, InOrder (fuelColumns event reading)) ↔ FuelFits record := by
  have hpct (p : FuelSource × ℕ) :
      (∀ z ∈ readNumber record.io p.2, InOrder (fuelColumns event (pctReading p.1 z))) ↔
        ∀ value ∈ ioValue record.io p.2, value ≤ 100 :=
    natCast_readNumber (by decide) (inOrder_pctReading hdates p.1)
  have hliters : (∀ z ∈ readNumber record.io AVL_ID.fuelLevelCanLiters,
      InOrder (fuelColumns event (litersReading z))) ↔
        ∀ value ∈ ioValue record.io AVL_ID.fuelLevelCanLiters, value ≤ 9999999 :=
    natCast_readNumber (by decide) (inOrder_litersReading hdates)
  constructor
  · intro h
    refine ⟨fun p hp => (hpct p).mp fun z hz => ?_, hliters.mp fun z hz => ?_⟩
    · exact h _ (mem_readFuel.mpr (.inl ⟨p, hp, z, hz, rfl⟩))
    · exact h _ (mem_readFuel.mpr (.inr ⟨z, hz, rfl⟩))
  · intro h reading hreading
    obtain ⟨p, hp, z, hz, rfl⟩ | ⟨z, hz, rfl⟩ := mem_readFuel.mp hreading
    · exact (hpct p).mpr (h.pct p hp) z hz
    · exact hliters.mpr h.liters z hz

/-- A position in range, with numbers of the wire, fits its columns. -/
theorem inOrder_locationColumns {event : TelemetryEvent} (hdates : Dated event)
    {gps : NormalizedGps} (hgps : DecodableGps gps) (haltitude : gps.altitudeM.natAbs ≤ 2 ^ 16)
    (hangle : gps.angleDeg.natAbs ≤ 2 ^ 16) (hsatellites : gps.satellites.natAbs < 2 ^ 8)
    (hspeed : gps.speedKph.natAbs ≤ 2 ^ 16) : InOrder (locationColumns event gps) := by
  have hsplit : locationColumns event gps = dateColumns event ++
      [integerColumn "altitude_m" gps.altitudeM, integerColumn "angle_deg" gps.angleDeg,
        smallintColumn "satellites" gps.satellites, integerColumn "speed_kph" gps.speedKph,
        (decide (-90 ≤ gps.latitude) && decide (gps.latitude ≤ 90) &&
          (decide (-180 ≤ gps.longitude) && decide (gps.longitude ≤ 180)),
          .checkViolation "vehicle_locations_coordinates_in_range")] := rfl
  have hsmall : (smallintColumn "satellites" gps.satellites).1 = true := by
    simp only [smallintColumn, Bool.and_eq_true, decide_eq_true_eq]
    omega
  unfold Dated InOrder at hdates
  unfold InOrder
  rw [hsplit, List.forall_mem_append, and_iff_right hdates]
  simp only [List.forall_mem_cons, List.not_mem_nil, false_imp_iff, implies_true, and_true]
  refine ⟨inOrder_integer haltitude, inOrder_integer hangle, hsmall, inOrder_integer hspeed, ?_⟩
  simp only [Bool.and_eq_true, decide_eq_true_eq]
  exact ⟨hgps.latitude, hgps.longitude⟩

/-- The position of a record, as far as it is in the event. -/
theorem builtEvent_gps {imei : String} {codec : CodecId} {receivedAt : ℤ} {record : AvlRecord}
    {index : ℕ} {gps : NormalizedGps}
    (h : gps ∈ (builtEvent imei codec receivedAt record index).gps) :
    gps.altitudeM = record.gps.altitudeM ∧ gps.angleDeg = record.gps.angleDeg ∧
      gps.satellites = record.gps.satellites ∧ gps.speedKph = record.gps.speedKph := by
  have hgps : gps ∈ (normalizeRecord imei record (some receivedAt)).gps := h
  simp only [normalizeRecord, Option.mem_def] at hgps
  split at hgps
  · cases hgps
    exact ⟨rfl, rfl, rfl, rfl⟩
  · cases hgps

/-- What a delivered event is, and what the writers demand of it. -/
structure Stored (record : AvlRecord) (event : TelemetryEvent) : Prop where
  imei : imeiDigits event.imei = true
  dates : Dated event
  locations : ∀ gps ∈ event.gps, InOrder (locationColumns event gps)
  fuel : (∀ reading ∈ event.fuel, InOrder (fuelColumns event reading)) ↔ FuelFits record

theorem Delivered.stored {wording : Wording} {record : AvlRecord} {event : TelemetryEvent}
    (h : Delivered wording record event) : Stored record event := by
  obtain ⟨imei, codec, receivedAt, frame, packetCodec, records, events, himei, hclock, hparse,
    hbuild, hmem⟩ := h.produced
  obtain ⟨hrecord, index, rfl⟩ := mem_zip_builtEvents hbuild hmem
  have hwire := parseAvlPacket_onWire hparse record hrecord
  have hdecodable := ((decode_toJson _ _ _).mp h.decoded).1
  have hdates := dated_builtEvent hdecodable hclock
  have hlocations : ∀ gps ∈ (builtEvent imei codec receivedAt record index).gps,
      InOrder (locationColumns (builtEvent imei codec receivedAt record index) gps) := by
    intro gps hgps
    obtain ⟨haltitude, hangle, hsatellites, hspeed⟩ := builtEvent_gps hgps
    have haltitude' := hwire.altitudeM
    have hangle' := hwire.angleDeg
    have hsatellites' := hwire.satellites
    have hspeed' := hwire.speedKph
    exact inOrder_locationColumns hdates (hdecodable.gps gps hgps) (by omega) (by omega) (by omega)
      (by omega)
  exact
    { imei := himei
      dates := hdates
      locations := hlocations
      fuel := inOrder_readFuel hdates }

section

variable [DecidableEq Id]

/-- The writers store a batch. -/
def WritersStore (newest : NewestFirst Id) (freshness : Freshness) (events : List TelemetryEvent)
    (w : World Id) : Prop :=
  (∃ w', Session.Does (fuelHandler events) w () w') ∧
  (∃ w', Session.Does (locationsHandler events) w () w') ∧
  ∃ w', Session.Does (engineHandler newest events freshness) w () w'

/-- The writers store a batch of delivered events exactly if the fuel elements of all records fit:
one that does not makes the insert fail, now and whenever the batch is delivered again. -/
theorem writersStore_iff (wording : Wording) (newest : NewestFirst Id) (freshness : Freshness)
    (batch : List (AvlRecord × TelemetryEvent))
    (hbatch : ∀ b ∈ batch, Delivered wording b.1 b.2) {w : World Id} (hw : RegistryAgrees w) :
    WritersStore newest freshness (batch.map Prod.snd) w ↔ ∀ b ∈ batch, FuelFits b.1 := by
  have hstored : ∀ b ∈ batch, Stored b.1 b.2 := fun b hb => (hbatch b hb).stored
  have himeis : ∀ event ∈ batch.map Prod.snd, imeiDigits event.imei = true :=
    List.forall_mem_map.mpr fun b hb => (hstored b hb).imei
  have hfuel : (∀ event ∈ batch.map Prod.snd, ∀ reading ∈ event.fuel,
      InOrder (fuelColumns event reading)) ↔ ∀ b ∈ batch, FuelFits b.1 := by
    rw [List.forall_mem_map]
    exact forall₂_congr fun b hb => (hstored b hb).fuel
  rw [WritersStore, fuelHandler_does_iff himeis hw, hfuel]
  refine and_iff_left ⟨?_, ?_⟩
  · exact locationsHandler_does himeis hw
      (List.forall_mem_map.mpr fun b hb => (hstored b hb).locations)
  · exact engineHandler_does newest himeis freshness hw
      (List.forall_mem_map.mpr fun b hb => (hstored b hb).dates)

end

/-- The event of an encoded record. -/
def encodedEvent (record : EncodableRecord) : TelemetryEvent :=
  builtEvent "356307042441013" .codec8 1700000000500 (decodedRecord record) 0

/-- The event of an encoded record is delivered if its record is deliverable. -/
theorem delivered_encodedEvent (wording : Wording) {record : EncodableRecord}
    (hfits : record.Fits false)
    (hsize : (dataFieldBytes .codec8 [record]).length < 2 ^ 32)
    (h : Deliverable (decodedRecord record)) :
    Delivered wording (decodedRecord record) (encodedEvent record) := by
  have hrecords : ∀ r ∈ [record], r.Fits CodecId.codec8.extended := by
    intro r hr
    obtain rfl := List.mem_singleton.mp hr
    exact hfits
  have hparse : parseAvlPacket (frameBytes (dataFieldBytes .codec8 [record])) =
      .ok (.crcOk .codec8 [decodedRecord record]) := parse_dataFieldBytes (by simp) hrecords hsize
  have hdates : ∀ r ∈ [decodedRecord record], r.timestampMs ≤ JsDate.maxTime := by
    intro r hr
    obtain rfl := List.mem_singleton.mp hr
    have htime := h.timestampMs
    have hmax : JsDate.maxTime = 8640000000000000 := rfl
    omega
  refine ⟨⟨"356307042441013", .codec8, 1700000000500, _, .codec8, _, [encodedEvent record],
    by decide, by decide, hparse, ?_, List.mem_singleton.mpr rfl⟩, ?_⟩
  · exact (buildTelemetryEvents_eq_ok _ _ _ _).1 hdates
  · refine (decode_toJson _ _ _).mpr ⟨?_, rfl⟩
    exact (decodable_builtEvent (by decide) _ _
      (parseAvlPacket_onWire hparse _ List.mem_cons_self) _).mpr ⟨⟨by decide, by decide⟩, h⟩

/-- A record whose CAN adapter reports a percentage. -/
def pctRecord (pct : ℤ) : EncodableRecord :=
  ⟨1700000000000, none, none, none, some [⟨89, pct, .one⟩], none⟩

theorem deliverable_pctRecord (pct : ℤ) : Deliverable (decodedRecord (pctRecord pct)) where
  timestampMs := (by decide : 1700000000000 < 253402300800000)
  gps h := by cases h
  elements avlId hmem value hvalue := by
    simp only [List.mem_cons, List.not_mem_nil, or_false] at hmem
    obtain rfl | rfl | rfl := hmem <;> cases hvalue

/-- The writers store a percentage of 50. -/
theorem writersStore_half : WritersStore NewestFirst.stored .live [encodedEvent (pctRecord 50)]
    (World.start (TelemetryDb.empty : TelemetryDb ℕ)) := by
  refine (writersStore_iff (fun _ _ => "invalid") NewestFirst.stored .live
    [(decodedRecord (pctRecord 50), encodedEvent (pctRecord 50))] ?_ (.start _)).mpr ?_
  · intro b hb
    obtain rfl := List.mem_singleton.mp hb
    exact delivered_encodedEvent _ (by constructor <;> decide) (by decide)
      (deliverable_pctRecord 50)
  · intro b hb
    obtain rfl := List.mem_singleton.mp hb
    exact ⟨by decide, by decide⟩

/-- A percentage of 101 is delivered, and the fuel writer refuses it. -/
theorem writers_refuse : ¬ ∀ (wording : Wording) (newest : NewestFirst ℕ) (freshness : Freshness)
    (batch : List (AvlRecord × TelemetryEvent)), (∀ b ∈ batch, Delivered wording b.1 b.2) →
      ∀ w : World ℕ, RegistryAgrees w →
        WritersStore newest freshness (batch.map Prod.snd) w := by
  intro hclaim
  have hdelivered : Delivered (fun _ _ => "invalid") (decodedRecord (pctRecord 101))
      (encodedEvent (pctRecord 101)) :=
    delivered_encodedEvent _ (by constructor <;> decide) (by decide) (deliverable_pctRecord 101)
  have hstore := hclaim _ NewestFirst.stored .live
    [(decodedRecord (pctRecord 101), encodedEvent (pctRecord 101))]
    (by simpa using hdelivered) (World.start TelemetryDb.empty) (.start _)
  have hstored := hdelivered.stored
  have hfuel := (fuelHandler_does_iff (by simpa using hstored.imei) (.start _)).mp hstore.1
  have hfits := hstored.fuel.mp (hfuel _ (by simp))
  have hpct := hfits.pct (.canPct, AVL_ID.fuelLevelCanPct) (by decide) 101 (by decide)
  omega

end BankPlatform.Telemetry
