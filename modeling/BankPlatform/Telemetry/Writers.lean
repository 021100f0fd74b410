import BankPlatform.Telemetry.Build
import BankPlatform.Telemetry.Vehicles
import Mathlib.Data.List.MinMax

/-!
# The writers

`apps/telemetry-consumers/src/consumers/fuel.ts`, `locations.ts` and `engine.ts`: the handlers that
store fuel levels, positions and the transitions of ignition and movement. Each derives its rows
from a batch of events and inserts them in one statement.

## Main definitions

* `fuelHandler`, `locationsHandler`, `engineHandler` — the handlers.
* `writeRows` — the shape they share.
* `lastTransition`, `transitionsFor` — what the engine handler knows of a vehicle, and what an event
  shows.
-/

namespace BankPlatform.Telemetry

open Library Teltonika

inductive Freshness where
  | live
  | backfill
  deriving DecidableEq, Repr

variable {Id : Type}

/-- The shape of the writers: the events that are wanted, their vehicles, and one insert. -/
def writeRows [FreshIds Id] {R : Type} (wanted : TelemetryEvent → Bool)
    (rowsOf : JsMap String Id → TelemetryEvent → List R) (label : Statement)
    (insert : List R → TelemetryDb Id → Except DbError (TelemetryDb Id))
    (events : List TelemetryEvent) : Handler Id Unit := do
  let relevant := events.filter wanted
  if relevant.isEmpty then return
  let vehicleIds ← resolveAll (relevant.map TelemetryEvent.imei)
  let rows := relevant.flatMap (rowsOf vehicleIds)
  if rows.isEmpty then return
  write label (insert rows)

/-- The IMEIs that are resolved for the events that are wanted. -/
theorem imeiDigits_wanted {events : List TelemetryEvent}
    (h : ∀ event ∈ events, imeiDigits event.imei = true) (wanted : TelemetryEvent → Bool) :
    ∀ imei ∈ (events.filter wanted).map TelemetryEvent.imei, imeiDigits imei = true := by
  intro imei himei
  obtain ⟨event, hevent, rfl⟩ := List.mem_map.mp himei
  exact h event (List.mem_of_mem_filter hevent)

/-- The row of a resolved event refers to a vehicle. -/
theorem resolved_find? [DecidableEq Id] {w t : World Id} {events : List TelemetryEvent}
    {ids : JsMap String Id} (h : Resolved w (events.map TelemetryEvent.imei) ids t)
    {event : TelemetryEvent} (hevent : event ∈ events) :
    ∃ id, ids.find? event.imei = some (event.imei, id) ∧
      (vehicleReference t.db id).1 = true := by
  obtain ⟨id, hid, hvehicle⟩ := h.resolves event.imei (List.mem_map_of_mem hevent)
  exact ⟨id, hid, vehicleReference_resolved hvehicle⟩

/-! ## `fuel.ts` -/

def fuelRow (vehicleId : Id) (event : TelemetryEvent) (reading : FuelReading) :
    VehicleFuelReading Id where
  vehicleId
  recordedAt := JsDate.parse event.recordedAt
  receivedAt := JsDate.parse event.receivedAt
  source := reading.source
  levelPct := reading.pct
  levelLiters := reading.liters.map (JsNumber.toFixed 2)

/-- The rows of an event, one for each sensor. -/
def fuelRows (vehicleIds : JsMap String Id) (event : TelemetryEvent) :
    List (VehicleFuelReading Id) :=
  match vehicleIds.find? event.imei with
  | none => []
  | some e => event.fuel.map (fuelRow e.2 event)

def insertFuelReadings [DecidableEq Id] (rows : List (VehicleFuelReading Id))
    (db : TelemetryDb Id) : Except DbError (TelemetryDb Id) :=
  (insertRows (fun r => r.columns ++ [vehicleReference db r.vehicleId]) rows
    db.vehicleFuelReadings).map fun vehicleFuelReadings => { db with vehicleFuelReadings }

def fuelHandler [DecidableEq Id] [FreshIds Id] : List TelemetryEvent → Handler Id Unit :=
  writeRows (fun event => 0 < event.fuel.length) fuelRows .insertFuelReadings insertFuelReadings

/-! ## `locations.ts` -/

def locationRow (vehicleId : Id) (event : TelemetryEvent) (gps : NormalizedGps) :
    VehicleLocation Id where
  vehicleId
  recordedAt := JsDate.parse event.recordedAt
  receivedAt := JsDate.parse event.receivedAt
  latitude := gps.latitude
  longitude := gps.longitude
  altitudeM := gps.altitudeM
  angleDeg := gps.angleDeg
  satellites := gps.satellites
  speedKph := gps.speedKph

/-- The row of an event; without a fix there is none. -/
def locationRows (vehicleIds : JsMap String Id) (event : TelemetryEvent) :
    List (VehicleLocation Id) :=
  match vehicleIds.find? event.imei with
  | none => []
  | some e => (event.gps.map (locationRow e.2 event)).toList

def insertLocations [DecidableEq Id] (rows : List (VehicleLocation Id))
    (db : TelemetryDb Id) : Except DbError (TelemetryDb Id) :=
  (insertRows (fun r => r.columns ++ [vehicleReference db r.vehicleId]) rows
    db.vehicleLocations).map fun vehicleLocations => { db with vehicleLocations }

def locationsHandler [DecidableEq Id] [FreshIds Id] : List TelemetryEvent → Handler Id Unit :=
  writeRows (fun event => event.gps.isSome) locationRows .insertLocations insertLocations

/-! ## `engine.ts` -/

def IGNITION_EVENTS : List EngineEventType := [.ignitionOn, .ignitionOff]

def MOVEMENT_EVENTS : List EngineEventType := [.movementStart, .movementStop]

/-- How the database picks the first row in the order of falling time stamps: of rows that share the
greatest one it may pick any. -/
structure NewestFirst (Id : Type) where
  pick : List (VehicleEngineEvent Id) → Option (VehicleEngineEvent Id)
  pick_eq_none : ∀ rows, pick rows = none ↔ rows = []
  pick_mem : ∀ rows r, pick rows = some r → r ∈ rows
  pick_newest : ∀ rows r, pick rows = some r →
    ∀ r' ∈ rows, ∀ t ∈ r.recordedAt, ∀ t' ∈ r'.recordedAt, t' ≤ t

/-- The first of the newest rows in the order of the table. -/
def NewestFirst.stored : NewestFirst Id where
  pick := @List.argmax _ ℤ Int.instLinearOrder.toPreorder Int.decLt fun r => r.recordedAt.getD 0
  pick_eq_none rows := List.argmax_eq_none
  pick_mem rows r h := List.argmax_mem h
  pick_newest rows r h r' hr' t ht t' ht' := by
    have := List.le_of_mem_argmax hr' h
    rw [Option.mem_def] at ht ht'
    rwa [ht, ht'] at this

/-- What one input of a record means: whether it shows a transition, and what is known then. -/
def inputTransition (reported known : Option Bool) (deviceReportedChange isLive : Bool)
    (on off : EngineEventType) : List EngineEventType × Option Bool :=
  match reported with
  | none => ([], known)
  | some value =>
    let differsFromKnown := known.isSome && known ≠ some value
    (if deviceReportedChange || (isLive && differsFromKnown) then [if value then on else off]
      else [],
      if isLive then some value else known)

/-- The transitions that a record represents, and the state behind it. -/
def transitionsFor (event : TelemetryEvent) (state : VehicleState) (isLive : Bool) :
    List EngineEventType × VehicleState :=
  let ignition := inputTransition event.ignition state.ignition
    (event.eventIoId = AVL_ID.ignition) isLive .ignitionOn .ignitionOff
  let movement := inputTransition event.movement state.movement
    (event.eventIoId = AVL_ID.movement) isLive .movementStart .movementStop
  (ignition.1 ++ movement.1, ⟨ignition.2, movement.2⟩)

section

variable [DecidableEq Id]

/-- The newest stored transition of one kind. -/
def lastTransition (newest : NewestFirst Id) (vehicleId : Id) (types : List EngineEventType)
    (w : World Id) : Option EngineEventType :=
  (newest.pick (w.db.vehicleEngineEvents.rows.filter fun r =>
    r.vehicleId = vehicleId && types.contains r.eventType)).map VehicleEngineEvent.eventType

def loadState (newest : NewestFirst Id) (vehicleId : Id) : Handler Id VehicleState := do
  match (← Session.get).engineStates.find? vehicleId with
  | some cached => return cached.2
  | none =>
    let latestIgnition ←
      Session.query .selectTransition (lastTransition newest vehicleId IGNITION_EVENTS)
    let latestMovement ←
      Session.query .selectTransition (lastTransition newest vehicleId MOVEMENT_EVENTS)
    let state : VehicleState :=
      { ignition := latestIgnition.map (· = .ignitionOn)
        movement := latestMovement.map (· = .movementStart) }
    Session.modify fun w => { w with engineStates := JsMap.set w.engineStates vehicleId state }
    return state

def insertEngineEvents (rows : List (VehicleEngineEvent Id)) (db : TelemetryDb Id) :
    Except DbError (TelemetryDb Id) :=
  (insertRows (fun r => r.columns ++ [vehicleReference db r.vehicleId]) rows
    db.vehicleEngineEvents).map fun vehicleEngineEvents => { db with vehicleEngineEvents }

/-- The rows of one event, added to those of the events before it. -/
def engineRows (newest : NewestFirst Id) (vehicleIds : JsMap String Id) (isLive : Bool)
    (rows : List (VehicleEngineEvent Id)) (event : TelemetryEvent) :
    Handler Id (List (VehicleEngineEvent Id)) := do
  match vehicleIds.find? event.imei with
  | none => return rows
  | some e =>
    let state ← loadState newest e.2
    let (transitions, state') := transitionsFor event state isLive
    Session.modify fun w => { w with engineStates := JsMap.set w.engineStates e.2 state' }
    return rows ++ transitions.map fun transition =>
      { vehicleId := e.2
        recordedAt := JsDate.parse event.recordedAt
        receivedAt := JsDate.parse event.receivedAt
        eventType := transition }

def engineHandler [FreshIds Id] (newest : NewestFirst Id) (events : List TelemetryEvent)
    (freshness : Freshness) : Handler Id Unit := do
  let relevant := events.filter fun event => event.ignition.isSome || event.movement.isSome
  if relevant.isEmpty then return
  let vehicleIds ← resolveAll (relevant.map TelemetryEvent.imei)
  let isLive := freshness = .live
  let rows ← relevant.foldlM (engineRows newest vehicleIds isLive) []
  if rows.isEmpty then return
  write .insertEngineEvents (insertEngineEvents rows)

end

end BankPlatform.Telemetry
