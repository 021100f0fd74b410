import BankPlatform.Telemetry.Rules
import BankPlatform.Telemetry.Vehicles

/-!
# Alerting

`apps/telemetry-consumers/src/alerting/consumer.ts`: the handler that raises alerts on live readings.
For each vehicle and type of alert it keeps a row that says whether the condition holds and when it
last fired; the alerts themselves are written by statements of their own.

## Main definitions

* `AlertingConfig`, `Clock`, `freshReadings` — the readings that are looked at.
* `shouldFire`, `raise` — the two halves of a round.
* `alertingHandler`, `alertingUpTo` — the handler, and the handler as far as behind some reading.
-/

namespace BankPlatform.Telemetry

open Library

structure AlertingConfig where
  lowFuelPct : ℤ
  speedLimitKph : ℤ
  cooldownMs : ℤ
  /-- Readings older than this never raise an alarm. -/
  maxAgeMs : ℤ
  geofenceRefreshMs : ℤ
  /-- `ALERT_COOLDOWN_MS` is read as a positive number. -/
  cooldownMs_pos : 0 < cooldownMs

/-- The defaults of the environment. -/
def AlertingConfig.defaults : AlertingConfig where
  lowFuelPct := 15
  speedLimitKph := 90
  cooldownMs := 900000
  maxAgeMs := 600000
  geofenceRefreshMs := 60000
  cooldownMs_pos := by norm_num

/-- What `now()` returns while a batch is handled. -/
structure Clock where
  received : ℤ
  checkedCache : ℤ
  loadedCache : ℤ

/-- A fresh event with its device time. -/
structure Reading where
  event : TelemetryEvent
  recordedAt : ℤ

def Reading.imei (r : Reading) : String := r.event.imei

/-- An event without a valid time is never fresh. -/
def freshReading? (config : AlertingConfig) (now : ℤ) (event : TelemetryEvent) : Option Reading :=
  match JsDate.parse event.recordedAt with
  | none => none
  | some recordedAt =>
    if recordedAt ≥ now - config.maxAgeMs then some ⟨event, recordedAt⟩ else none

def freshReadings (config : AlertingConfig) (clock : Clock) (events : List TelemetryEvent) :
    List Reading :=
  events.filterMap (freshReading? config clock.received)

def ALERT_TYPES : List VehicleAlertType := [.lowFuel, .geofenceExit, .speeding]

variable {Id : Type}

/-! ## Geofences -/

/-- The zones with `active = true`. -/
def selectActive (db : TelemetryDb Id) : List Geofence :=
  (db.geofences.filter Prod.snd).map Prod.fst

def loadGeofences (clock : Clock) : Handler Id (List Geofence) := do
  let rows ← Session.query .selectGeofences fun w => selectActive w.db
  Session.modify fun w => { w with geofenceCache := some (rows, clock.loadedCache) }
  return rows

def activeGeofences (config : AlertingConfig) (clock : Clock) : Handler Id (List Geofence) := do
  match (← Session.get).geofenceCache with
  | none => loadGeofences clock
  | some (geofences, loadedAt) =>
    if clock.checkedCache - loadedAt < config.geofenceRefreshMs then return geofences
    else loadGeofences clock

/-! ## Statements -/

/-- `!existing?.active || cooledDown`. -/
def fire (config : AlertingConfig) (recordedAt : ℤ) (existing : Option (VehicleAlertState Id)) :
    Bool :=
  !(existing.any VehicleAlertState.active) ||
    (existing.bind VehicleAlertState.lastFiredAt).any fun last =>
      recordedAt - last ≥ config.cooldownMs

def newAlert (vehicleId : Id) (recordedAt : ℤ) (candidate : AlertCandidate) : VehicleAlert Id where
  vehicleId
  alertType := candidate.alertType
  recordedAt
  details := candidate.details

/-- `values: { vehicleId, alertType, active: true, ... }`. -/
def heldRow (fire : Bool) (vehicleId : Id) (alertType : VehicleAlertType) (recordedAt : ℤ)
    (existing : Option (VehicleAlertState Id)) : VehicleAlertState Id where
  vehicleId
  alertType
  active := true
  lastFiredAt :=
    some (if fire then recordedAt
      else (existing.bind VehicleAlertState.lastFiredAt).getD recordedAt)
  updatedAt := recordedAt

/-- `set: { active: false, updatedAt: at }`. -/
def VehicleAlertState.clear (recordedAt : ℤ) (s : VehicleAlertState Id) : VehicleAlertState Id :=
  { s with active := false, updatedAt := recordedAt }

/-- `set: { active: true, ...(fire ? { lastFiredAt: at } : {}), updatedAt: at }`. -/
def VehicleAlertState.hold (fire : Bool) (recordedAt : ℤ) (s : VehicleAlertState Id) :
    VehicleAlertState Id :=
  { s with
    active := true
    lastFiredAt := if fire then some recordedAt else s.lastFiredAt
    updatedAt := recordedAt }

theorem key_heldRow (fire : Bool) (vehicleId : Id) (alertType : VehicleAlertType) (recordedAt : ℤ)
    (existing : Option (VehicleAlertState Id)) :
    Keyed.key (heldRow fire vehicleId alertType recordedAt existing) = (vehicleId, alertType) := rfl

theorem key_clear (recordedAt : ℤ) (s : VehicleAlertState Id) :
    Keyed.key (s.clear recordedAt) = Keyed.key s := rfl

theorem key_hold (fire : Bool) (recordedAt : ℤ) (s : VehicleAlertState Id) :
    Keyed.key (s.hold fire recordedAt) = Keyed.key s := rfl

section

variable [DecidableEq Id]

def selectAlertState (vehicleId : Id) (alertType : VehicleAlertType) (w : World Id) :
    Option (VehicleAlertState Id) :=
  w.db.vehicleAlertStates.find? (vehicleId, alertType)

/-- `update ... where`. -/
def clearAlertState (vehicleId : Id) (alertType : VehicleAlertType) (recordedAt : ℤ)
    (db : TelemetryDb Id) : Except DbError (TelemetryDb Id) :=
  .ok { db with
    vehicleAlertStates := db.vehicleAlertStates.update (vehicleId, alertType) (.clear recordedAt) }

/-- `insert ... on conflict do update`. -/
def upsertAlertState (values : VehicleAlertState Id) (fire : Bool) (recordedAt : ℤ)
    (db : TelemetryDb Id) : Except DbError (TelemetryDb Id) :=
  if (vehicleReference db values.vehicleId).1 then
    .ok { db with
      vehicleAlertStates := db.vehicleAlertStates.upsert values (.hold fire recordedAt) }
  else .error (vehicleReference db values.vehicleId).2

def insertAlert (row : VehicleAlert Id) (db : TelemetryDb Id) : Except DbError (TelemetryDb Id) :=
  if (vehicleReference db row.vehicleId).1 then
    .ok { db with vehicleAlerts := db.vehicleAlerts ++ [row] }
  else .error (vehicleReference db row.vehicleId).2

/-! ## The handler -/

/-- `shouldFire` for a reading without the condition: an active row is cleared. -/
def clearCondition (position : ℕ) (vehicleId : Id) (alertType : VehicleAlertType)
    (recordedAt : ℤ) (existing : Option (VehicleAlertState Id)) : Handler Id Bool :=
  if existing.any VehicleAlertState.active then do
    write (.clearAlertState position alertType) (clearAlertState vehicleId alertType recordedAt)
    return false
  else return false

/-- `shouldFire` for a reading with the condition. -/
def holdCondition (config : AlertingConfig) (position : ℕ) (vehicleId : Id)
    (alertType : VehicleAlertType) (recordedAt : ℤ) (existing : Option (VehicleAlertState Id)) :
    Handler Id Bool := do
  let fire := fire config recordedAt existing
  write (.upsertAlertState position alertType)
    (upsertAlertState (heldRow fire vehicleId alertType recordedAt existing) fire recordedAt)
  return fire

/-- Records the new state of a condition and answers whether it is worth reporting. -/
def shouldFire (config : AlertingConfig) (position : ℕ) (vehicleId : Id)
    (alertType : VehicleAlertType) (holding : Bool) (recordedAt : ℤ) : Handler Id Bool := do
  let existing ← Session.query (.selectAlertState position alertType)
    (selectAlertState vehicleId alertType)
  if holding then holdCondition config position vehicleId alertType recordedAt existing
  else clearCondition position vehicleId alertType recordedAt existing

def raise (position : ℕ) (vehicleId : Id) (alertType : VehicleAlertType)
    (candidate : Option AlertCandidate) (recordedAt : ℤ) : Handler Id Unit := do
  match candidate with
  | none => return
  | some candidate =>
    write (.insertAlert position alertType) (insertAlert (newAlert vehicleId recordedAt candidate))

variable {D : Type} [LT D] [DecidableLT D] [LE D] [DecidableLE D]

/-- One round for one type of alert. -/
def processType (g : Geodesy D) (config : AlertingConfig) (rules : AlertRuleConfig)
    (position : ℕ) (vehicleId : Id) (r : Reading) (alertType : VehicleAlertType) :
    Handler Id Unit := do
  let candidate := candidateFor g rules alertType r.event
  if ← shouldFire config position vehicleId alertType candidate.isSome r.recordedAt then
    raise position vehicleId alertType candidate r.recordedAt

/-- One round for one reading. Every rule is evaluated, not just the ones that matched. -/
def processReading (g : Geodesy D) (config : AlertingConfig) (rules : AlertRuleConfig)
    (vehicleIds : JsMap String Id) (item : Reading × ℕ) : Handler Id Unit := do
  match vehicleIds.find? item.1.imei with
  | none => return
  | some e => ALERT_TYPES.forM (processType g config rules item.2 e.2 item.1)

variable [FreshIds Id]

/-- What the loop over the readings works with. -/
def prepare (config : AlertingConfig) (clock : Clock) (fresh : List Reading) :
    Handler Id (AlertRuleConfig × JsMap String Id) := do
  let geofences ← activeGeofences config clock
  let vehicleIds ← resolveAll (fresh.map Reading.imei)
  return (⟨config.lowFuelPct, config.speedLimitKph, geofences⟩, vehicleIds)

/-- The handler as far as behind the first `n` fresh readings. -/
def alertingUpTo (g : Geodesy D) (config : AlertingConfig) (n : ℕ) (clock : Clock)
    (events : List TelemetryEvent) : Handler Id Unit := do
  let fresh := freshReadings config clock events
  if fresh.isEmpty then return
  let (rules, vehicleIds) ← prepare config clock fresh
  (fresh.zipIdx.take n).forM (processReading g config rules vehicleIds)

def alertingHandler (g : Geodesy D) (config : AlertingConfig) (clock : Clock)
    (events : List TelemetryEvent) : Handler Id Unit := do
  let fresh := freshReadings config clock events
  if fresh.isEmpty then return
  let (rules, vehicleIds) ← prepare config clock fresh
  fresh.zipIdx.forM (processReading g config rules vehicleIds)

end

end BankPlatform.Telemetry
