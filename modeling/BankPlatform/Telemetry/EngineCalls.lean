import BankPlatform.Telemetry.Engine

/-!
# Calls of the engine handler

What a call of the engine handler does to what is known and stored of the inputs of all devices, also
when one of its statements fails.

## Main definitions

* `StopsAt` — at which events a failing call stopped.

## Main results

* `watches_of_does` — a call without a failure; `does_engineHandler` — when there is one.
* `fails_engineHandler` — a call in which a statement fails.
-/

namespace BankPlatform.Telemetry

open Library Teltonika

variable {Id : Type} [DecidableEq Id]

/-! ## A call -/

/-- Of the events that the consumers decode, the columns take those whose years are not 0. -/
theorem dated_iff {event : TelemetryEvent} (h : Decodable event) :
    Dated event ↔ (∀ t ∈ JsDate.parse event.recordedAt, yearOne ≤ t) ∧
      ∀ t ∈ JsDate.parse event.receivedAt, yearOne ≤ t := by
  have htimestamp : ∀ (column : String) (s : String), (JsDate.parse s).isSome = true →
      ((timestampColumn column (JsDate.parse s)).1 = true ↔
        ∀ t ∈ JsDate.parse s, yearOne ≤ t) := by
    intro column s hs
    obtain ⟨time, htime⟩ := Option.isSome_iff_exists.mp hs
    have hbounds := IsoDate.parse?_bounds htime
    rw [htime]
    simp only [timestampColumn, Option.any_some, Bool.and_eq_true, decide_eq_true_eq,
      Option.mem_some_iff, forall_eq']
    omega
  rw [← htimestamp "recorded_at" _ h.recordedAt, ← htimestamp "received_at" _ h.receivedAt]
  simp [Dated, InOrder, dateColumns]

theorem imeiDigits_of_decodable {event : TelemetryEvent} (h : Decodable event) :
    imeiDigits event.imei = true := by
  rw [imeiDigits, Bool.and_eq_true, decide_eq_true_iff]
  exact h.imei

/-- Every vehicle of some events is resolved. -/
def ResolvesEvents (ids : JsMap String Id) (t : World Id) (events : List TelemetryEvent) : Prop :=
  ∀ event ∈ events, ∃ v, ids.find? event.imei = some (event.imei, v) ∧
    vehicleOf t event.imei = some v

namespace ResolvesEvents

variable {ids : JsMap String Id} {t : World Id} {events : List TelemetryEvent}

omit [DecidableEq Id] in
theorem subset {events' : List TelemetryEvent} (h : ResolvesEvents ids t events)
    (hsubset : ∀ event ∈ events', event ∈ events) : ResolvesEvents ids t events' :=
  fun event hevent => h event (hsubset event hevent)

omit [DecidableEq Id] in
theorem isSome_vehicleOf (h : ResolvesEvents ids t events) :
    ∀ event ∈ events, (vehicleOf t event.imei).isSome = true := by
  intro event hevent
  obtain ⟨v, _, hv⟩ := h event hevent
  rw [hv]
  rfl

end ResolvesEvents

theorem does_look (newest : NewestFirst Id) (isLive : Bool) {ids : JsMap String Id} {t : World Id}
    {events : List TelemetryEvent} (h : ResolvesEvents ids t events) :
    ∃ rows u, Session.Does (events.foldlM (engineRows newest ids isLive) []) t rows u ∧
      Looked newest isLive t events rows u := by
  refine Session.Does.foldlM (J := Looked newest isLive t) events ?_ (.refl newest isLive t)
  intro done event hevent rows u hlooked
  obtain ⟨v, hids, hv⟩ := h event hevent
  obtain ⟨rows', u', hdoes, _, hlooked'⟩ := does_engineRows hlooked hids hv
  exact ⟨rows', u', hdoes, hlooked'⟩

/-- A failing loop stops at the first event of a vehicle whose state is not cached. -/
theorem fails_look {newest : NewestFirst Id} {isLive : Bool} {ids : JsMap String Id}
    {t u : World Id} {events : List TelemetryEvent} (h : ResolvesEvents ids t events)
    {label : Statement} {landed : Bool}
    (hfails : Session.Fails (events.foldlM (engineRows newest ids isLive) []) t label landed u) :
    label = .selectTransition ∧ ∃ before event after rows, events = before ++ event :: after ∧
      Looked newest isLive t before rows u ∧ (∀ event' ∈ before, event'.imei ≠ event.imei) ∧
      ∀ v, vehicleOf t event.imei = some v → t.engineStates.find? v = none := by
  obtain ⟨before, event, after, rows', u', hsplit, hbefore, hevent⟩ := Session.fails_foldlM hfails
  obtain ⟨rows, u₁, hdoes, hlooked⟩ := does_look newest isLive
    (h.subset fun event' hevent' => hsplit ▸ List.mem_append_left _ hevent')
  obtain ⟨rfl, rfl⟩ := hdoes.unique hbefore
  obtain ⟨v, hv, hvehicle⟩ := h event (by simp [hsplit])
  obtain ⟨rfl, rfl, hunloaded⟩ := fails_engineRows hv hevent
  have hnot := (hlooked.cached v).not.mp (by rw [hunloaded]; simp)
  rw [not_or] at hnot
  refine ⟨rfl, before, event, after, rows', hsplit, hlooked, ?_, ?_⟩
  · intro event' hevent' himei
    exact hnot.2 ⟨event', hevent', by rw [himei, hvehicle]⟩
  · intro v' hv'
    obtain rfl := Option.some.inj (hvehicle.symm.trans hv')
    rw [← Option.not_isSome_iff_eq_none]
    exact hnot.1

omit [DecidableEq Id] in
theorem Resolved.resolvesEvents {w t : World Id} {events : List TelemetryEvent}
    {ids : JsMap String Id} (h : Resolved w (events.map TelemetryEvent.imei) ids t) :
    ResolvesEvents ids t events := by
  intro event hevent
  obtain ⟨v, hids, hv⟩ := h.resolves event.imei (List.mem_map_of_mem hevent)
  exact ⟨v, hids, by rw [vehicleOf, hv, Option.map_some]⟩

/-- The insert of the rows of a batch, if it is accepted. -/
theorem insertEngineEvents_eq {newest : NewestFirst Id} {isLive : Bool} {t u : World Id}
    {events : List TelemetryEvent} {rows : List (VehicleEngineEvent Id)}
    (h : Looked newest isLive t events rows u) {db : TelemetryDb Id}
    (hinsert : insertEngineEvents rows u.db = .ok db) :
    db = { u.db with vehicleEngineEvents := rows.foldl insertIfFree t.db.vehicleEngineEvents } := by
  unfold insertEngineEvents at hinsert
  cases hrows : insertRows (fun r => r.columns ++ [vehicleReference u.db r.vehicleId]) rows
    u.db.vehicleEngineEvents with
  | error err =>
    rw [hrows] at hinsert
    cases hinsert
  | ok table =>
    rw [hrows] at hinsert
    cases hinsert
    rw [eq_insertAll_of_insertRows hrows, h.db]

/-- It is accepted if all events are dated. -/
theorem insertEngineEvents_accepts {newest : NewestFirst Id} {isLive : Bool} {t u : World Id}
    {events : List TelemetryEvent} {rows : List (VehicleEngineEvent Id)}
    (h : Looked newest isLive t events rows u) (hdates : ∀ event ∈ events, Dated event) :
    ∃ db, insertEngineEvents rows u.db = .ok db := by
  have href : ∀ r ∈ rows, (vehicleReference u.db r.vehicleId).1 = true := by
    intro r hr
    obtain ⟨event, _, hv, _⟩ := h.rows r hr
    obtain ⟨row, hrow, hid⟩ := Option.map_eq_some_iff.mp hv
    rw [← h.db] at hrow
    exact List.any_eq_true.mpr ⟨row, Table.mem_of_find? hrow, decide_eq_true hid⟩
  have hcolumns : ∀ r ∈ rows, InOrder r.columns := by
    intro r hr
    obtain ⟨event, hevent, _, hcolumns⟩ := h.rows r hr
    rw [hcolumns]
    exact hdates event hevent
  exact (insertRows_of_references href).mpr hcolumns

/-- What is left behind by a call whose vehicles were resolved in `t`. -/
structure CalledFrom (w t w' : World Id) : Prop where
  registers : Registers w t
  agrees : RegistryAgrees t
  vehicles : w'.db.vehicles = t.db.vehicles
  registry : w'.registry = t.registry
  states : ∀ v, (w'.engineStates.find? v).isSome = true →
    (t.engineStates.find? v).isSome = true ∨ ∃ imei, vehicleOf t imei = some v

omit [DecidableEq Id] in
theorem Registers.sameEngine {w t : World Id} (h : Registers w t) : SameEngine w t :=
  ⟨h.vehicles, h.vehicleEngineEvents⟩

/-- Once the vehicles are resolved, the loop and the insert change no more than this. -/
theorem Resolved.calledFrom {newest : NewestFirst Id} {isLive : Bool} {w t u w' : World Id}
    {imeis : List String} {ids : JsMap String Id} (h : Resolved w imeis ids t)
    {done : List TelemetryEvent} {rows : List (VehicleEngineEvent Id)}
    (hlooked : Looked newest isLive t done rows u) (hvehicles : w'.db.vehicles = u.db.vehicles)
    (hregistry : w'.registry = u.registry) (hstates : w'.engineStates = u.engineStates) :
    CalledFrom w t w' where
  registers := h.registers
  agrees := h.agrees
  vehicles := by rw [hvehicles, hlooked.db]
  registry := hregistry.trans hlooked.registry
  states v hv := by
    rw [hstates] at hv
    rcases (hlooked.cached v).mp hv with hold | ⟨event, _, himei⟩
    · exact .inl hold
    · exact .inr ⟨event.imei, himei⟩

theorem CalledFrom.vehicleOf_eq {w t w' : World Id} (h : CalledFrom w t w') (imei : String) :
    vehicleOf w' imei = vehicleOf t imei := by
  rw [vehicleOf, h.vehicles, vehicleOf]

/-- What was done since the vehicles were resolved was done since the start of the call. -/
theorem CalledFrom.watches {newest : NewestFirst Id} {isLive : Bool}
    {seen written : List TelemetryEvent} {w t w' : World Id} (h : CalledFrom w t w')
    (hw : EngineReady w) (hwatches : Watches newest isLive seen written t w') :
    EngineReady w' ∧ Watches newest isLive seen written w w' := by
  have hsame := h.registers.sameEngine
  have hknown := hsame.known_eq hw h.registers.engineStates newest
  have hstored := hsame.stored_eq hw
  obtain ⟨rows, htable, hrows, htold⟩ := hwatches.table
  rw [hsame.table] at htable
  refine ⟨⟨?_, ?_, ?_⟩, ?_, ?_, ?_, rows, htable, hrows, ?_⟩
  · intro e he
    rw [h.registry] at he
    rw [h.vehicles]
    exact h.agrees e he
  · intro r hr
    rw [htable] at hr
    rcases mem_insertAll hr with hold | hnew
    · obtain ⟨imei, himei⟩ := hw.rows r hold
      exact ⟨imei, by rw [h.vehicleOf_eq, hsame.vehicleOf_eq himei]⟩
    · exact hrows r hnew
  · intro v hv
    rcases h.states v hv with hold | ⟨imei, himei⟩
    · rw [h.registers.engineStates] at hold
      obtain ⟨imei, himei⟩ := hw.states v hold
      exact ⟨imei, by rw [h.vehicleOf_eq, hsame.vehicleOf_eq himei]⟩
    · exact ⟨imei, by rw [h.vehicleOf_eq, himei]⟩
  · exact fun imei v hv => hwatches.vehicles imei v (hsame.vehicles imei v hv)
  · intro imei i
    rw [hwatches.known, hknown]
  · intro imei i
    rw [hwatches.stored, hknown, hstored]
  · intro imei v hv i
    rw [htold imei v hv, hknown]

variable [FreshIds Id]

/-- A call succeeds if the columns take the time stamps. -/
theorem engineHandler_does (newest : NewestFirst Id) {events : List TelemetryEvent}
    (himeis : ∀ event ∈ events, imeiDigits event.imei = true) (freshness : Freshness)
    {w : World Id} (hw : RegistryAgrees w) (hdates : ∀ event ∈ events, Dated event) :
    ∃ w', Session.Does (engineHandler newest events freshness) w () w' := by
  unfold engineHandler
  change ∃ w', Session.Does (if (events.filter concernsEngine).isEmpty then _ else _) w () w'
  by_cases hnone : (events.filter concernsEngine).isEmpty
  · exact ⟨w, by rw [if_pos hnone]; rfl⟩
  rw [if_neg hnone]
  obtain ⟨ids, t, hids, hresolved⟩ := does_resolveAll (imeiDigits_wanted himeis concernsEngine) hw
  obtain ⟨rows, u, hloop, hlooked⟩ :=
    does_look newest (freshness = .live) hresolved.resolvesEvents
  by_cases hempty : rows.isEmpty
  · refine ⟨u, hids.bind (hloop.bind ?_)⟩
    rw [if_pos hempty]
    rfl
  · obtain ⟨db, hinsert⟩ := insertEngineEvents_accepts hlooked
      fun event hevent => hdates event (List.mem_of_mem_filter hevent)
    refine ⟨{ u with db }, hids.bind (hloop.bind ?_)⟩
    rw [if_neg hempty]
    exact does_write.mpr ⟨db, hinsert, rfl⟩

/-- How a call ends that succeeds, once the rows are derived. -/
theorem ends_of_does {newest : NewestFirst Id} {events : List TelemetryEvent}
    {freshness : Freshness} {w t u w' : World Id} {ids : JsMap String Id}
    {rows : List (VehicleEngineEvent Id)} (hnone : ¬ (events.filter concernsEngine).isEmpty)
    (hids : Session.Does (resolveAll ((events.filter concernsEngine).map TelemetryEvent.imei)) w
      ids t)
    (hloop : Session.Does ((events.filter concernsEngine).foldlM
      (engineRows newest ids (freshness = .live)) []) t rows u)
    (hdoes : Session.Does (engineHandler newest events freshness) w () w') :
    (rows.isEmpty = true ∧ w' = u) ∨
      ∃ db, insertEngineEvents rows u.db = .ok db ∧ w' = { u with db } := by
  unfold engineHandler at hdoes
  change Session.Does (if (events.filter concernsEngine).isEmpty then _ else _) w () w' at hdoes
  rw [if_neg hnone] at hdoes
  obtain ⟨ids', t', hids', hdoes⟩ := Session.does_bind.mp hdoes
  obtain ⟨rfl, rfl⟩ := hids.unique hids'
  obtain ⟨rows', u', hloop', hdoes⟩ := Session.does_bind.mp hdoes
  obtain ⟨rfl, rfl⟩ := hloop.unique hloop'
  by_cases hempty : rows'.isEmpty
  · rw [if_pos hempty] at hdoes
    exact .inl ⟨hempty, (Session.does_pure.mp hdoes).2⟩
  · rw [if_neg hempty] at hdoes
    exact .inr (does_write.mp hdoes)

/-- What a call has done that succeeded. -/
theorem calledFrom_of_does {newest : NewestFirst Id} {events : List TelemetryEvent}
    (himeis : ∀ event ∈ events, imeiDigits event.imei = true) {freshness : Freshness}
    {w w' : World Id} (hw : RegistryAgrees w)
    (hdoes : Session.Does (engineHandler newest events freshness) w () w') :
    ∃ t, CalledFrom w t w' ∧ Watches newest (freshness = .live) (events.filter concernsEngine)
      (events.filter concernsEngine) t w' := by
  by_cases hnone : (events.filter concernsEngine).isEmpty
  · unfold engineHandler at hdoes
    change Session.Does (if (events.filter concernsEngine).isEmpty then _ else _) w () w' at hdoes
    rw [if_pos hnone] at hdoes
    obtain ⟨-, rfl⟩ := Session.does_pure.mp hdoes
    refine ⟨w', ⟨.refl w', hw, rfl, rfl, fun v hv => .inl hv⟩, ?_⟩
    rw [List.isEmpty_iff.mp hnone]
    exact (Looked.refl newest _ w').unwritten
  obtain ⟨ids, t, hids, hresolved⟩ := does_resolveAll (imeiDigits_wanted himeis concernsEngine) hw
  have hall := hresolved.resolvesEvents
  obtain ⟨rows, u, hloop, hlooked⟩ := does_look newest (freshness = .live) hall
  have hknown := hall.isSome_vehicleOf
  rcases ends_of_does hnone hids hloop hdoes with ⟨hempty, rfl⟩ | ⟨db, hinsert, rfl⟩
  · refine ⟨t, hresolved.calledFrom hlooked rfl rfl rfl,
      hlooked.watches hknown (by rw [hlooked.db]) rfl ?_⟩
    rw [List.isEmpty_iff.mp hempty, List.foldl_nil, hlooked.db]
  · obtain rfl := insertEngineEvents_eq hlooked hinsert
    have hvehicles : u.db.vehicles = t.db.vehicles := congrArg TelemetryDb.vehicles hlooked.db
    exact ⟨t, hresolved.calledFrom hlooked rfl rfl rfl, hlooked.watches hknown hvehicles rfl rfl⟩

omit [FreshIds Id] in
/-- Only the events that concern the writer have readings. -/
theorem Watches.of_filter {newest : NewestFirst Id} {isLive : Bool}
    {events : List TelemetryEvent} {w w' : World Id}
    (h : Watches newest isLive (events.filter concernsEngine) (events.filter concernsEngine) w w') :
    Watches newest isLive events events w w' where
  vehicles := h.vehicles
  known imei i := by rw [h.known, EngineInput.readings_filter]
  stored imei i := by rw [h.stored, EngineInput.readings_filter]
  table := by
    obtain ⟨rows, htable, hrows, htold⟩ := h.table
    refine ⟨rows, htable, hrows, fun imei v hv i => ?_⟩
    rw [htold imei v hv, EngineInput.readings_filter]

/-- In a call without a failure the detectors read the batch, and what they tell is stored. -/
theorem watches_of_does {newest : NewestFirst Id} {events : List TelemetryEvent}
    (hevents : ∀ event ∈ events, Decodable event) {freshness : Freshness} {w w' : World Id}
    (hw : EngineReady w) (hdoes : Session.Does (engineHandler newest events freshness) w () w') :
    EngineReady w' ∧ Watches newest (freshness = .live) events events w w' := by
  obtain ⟨t, hcalled, hwatches⟩ := calledFrom_of_does
    (fun event hevent => imeiDigits_of_decodable (hevents event hevent)) hw.registry hdoes
  obtain ⟨hready, hwatches⟩ := hcalled.watches hw hwatches
  exact ⟨hready, hwatches.of_filter⟩

/-- A batch of dated events can be handled. -/
theorem does_engineHandler (newest : NewestFirst Id) {events : List TelemetryEvent}
    (hevents : ∀ event ∈ events, Decodable event) (hdates : ∀ event ∈ events, Dated event)
    (freshness : Freshness) {w : World Id} (hw : EngineReady w) :
    ∃ w', Session.Does (engineHandler newest events freshness) w () w' ∧ EngineReady w' := by
  obtain ⟨w', hdoes⟩ := engineHandler_does newest
    (fun event hevent => imeiDigits_of_decodable (hevents event hevent)) freshness hw.registry hdates
  exact ⟨w', hdoes, (watches_of_does hevents hw hdoes).1⟩

/-! ## A failure -/

/-- Where a call stops whose statement `label` fails: the events that were looked at before, and
those whose transitions are stored nevertheless. -/
inductive StopsAt (w : World Id) (events : List TelemetryEvent) :
    Statement → Bool → List TelemetryEvent → List TelemetryEvent → Prop where
  /-- A vehicle is registered: no event was looked at. -/
  | registering {label landed} : label.ofRegistry = true → StopsAt w events label landed [] []
  /-- The state of a vehicle is loaded, at its first event. -/
  | loading {before event after landed} :
      events.filter concernsEngine = before ++ event :: after →
      (∀ event' ∈ before, event'.imei ≠ event.imei) →
      (∀ v, vehicleOf w event.imei = some v → w.engineStates.find? v = none) →
      StopsAt w events .selectTransition landed before []
  /-- The transitions of all events are inserted. -/
  | inserting {landed} :
      StopsAt w events .insertEngineEvents landed (events.filter concernsEngine)
        (if landed then events.filter concernsEngine else [])

/-- A call in which a statement fails: the detectors have read the events before, and nothing was
stored unless the insert took effect; which it could not if it were refused without a failure. -/
theorem fails_engineHandler (newest : NewestFirst Id) {events : List TelemetryEvent}
    (hevents : ∀ event ∈ events, Decodable event) {freshness : Freshness} {w w' : World Id}
    (hw : EngineReady w) {label : Statement} {landed : Bool}
    (hfails : Session.Fails (engineHandler newest events freshness) w label landed w') :
    ∃ seen written, EngineReady w' ∧ Watches newest (freshness = .live) seen written w w' ∧
      ∀ once, Session.Does (engineHandler newest events freshness) w () once →
        StopsAt w events label landed seen written := by
  unfold engineHandler at hfails
  change Session.Fails (if (events.filter concernsEngine).isEmpty then _ else _) w label landed w'
    at hfails
  by_cases hnone : (events.filter concernsEngine).isEmpty
  · rw [if_pos hnone] at hfails
    exact (Session.not_fails_pure hfails).elim
  rw [if_neg hnone] at hfails
  have hdigits := imeiDigits_wanted
    (fun event hevent => imeiDigits_of_decodable (hevents event hevent)) concernsEngine
  rcases Session.fails_bind.mp hfails with hresolve | ⟨ids', t', hresolve, hrest⟩
  · obtain ⟨hagrees, hregisters, hlabel⟩ := fails_resolveAll hdigits hw.registry hresolve
    have hcalled : CalledFrom w w' w' :=
      ⟨hregisters, hagrees, rfl, rfl, fun v hv => .inl hv⟩
    obtain ⟨hready, hwatches⟩ :=
      hcalled.watches hw (Looked.refl newest (freshness = .live) w').unwritten
    exact ⟨[], [], hready, hwatches, fun _ _ => .registering hlabel⟩
  obtain ⟨ids, t, hids, hresolved⟩ := does_resolveAll hdigits hw.registry
  obtain ⟨rfl, rfl⟩ := hids.unique hresolve
  have hall := hresolved.resolvesEvents
  rcases Session.fails_bind.mp hrest with hloop | ⟨rows', u', hloop, hrest⟩
  · obtain ⟨rfl, before, event, after, rows, hsplit, hlooked, hfirst, hunloaded⟩ :=
      fails_look hall hloop
    obtain ⟨hready, hwatches⟩ :=
      (hresolved.calledFrom hlooked rfl rfl rfl).watches hw hlooked.unwritten
    refine ⟨before, [], hready, hwatches, fun _ _ => .loading hsplit hfirst fun v hv => ?_⟩
    rw [← hresolved.registers.engineStates]
    exact hunloaded v (hresolved.registers.vehicleOf_eq hv)
  obtain ⟨rows, u, hdoes, hlooked⟩ := does_look newest (freshness = .live) hall
  obtain ⟨rfl, rfl⟩ := hdoes.unique hloop
  by_cases hempty : rows'.isEmpty
  · rw [if_pos hempty] at hrest
    exact (Session.not_fails_pure hrest).elim
  rw [if_neg hempty] at hrest
  obtain ⟨rfl, ⟨rfl, db, hdb, rfl⟩ | ⟨rfl, hlanded⟩⟩ := fails_write hrest
  · obtain rfl := insertEngineEvents_eq hlooked hdb
    have hvehicles : u'.db.vehicles = t'.db.vehicles := congrArg TelemetryDb.vehicles hlooked.db
    have hcalled : CalledFrom w t' { u' with db := { u'.db with
        vehicleEngineEvents := rows'.foldl insertIfFree t'.db.vehicleEngineEvents } } :=
      hresolved.calledFrom hlooked rfl rfl rfl
    obtain ⟨hready, hwatches⟩ :=
      hcalled.watches hw (hlooked.watches hall.isSome_vehicleOf hvehicles rfl rfl)
    exact ⟨_, _, hready, hwatches, fun _ _ => .inserting⟩
  · obtain ⟨hready, hwatches⟩ :=
      (hresolved.calledFrom hlooked rfl rfl rfl).watches hw hlooked.unwritten
    refine ⟨events.filter concernsEngine, [], hready, hwatches, fun once honce => ?_⟩
    cases landed with
    | false => exact .inserting
    | true =>
      obtain ⟨err, herr⟩ := hlanded rfl
      rcases ends_of_does hnone hids hdoes honce with ⟨hnorows, _⟩ | ⟨db, hinsert, _⟩
      · exact (hempty hnorows).elim
      · rw [hinsert] at herr
        cases herr

end BankPlatform.Telemetry
