import BankPlatform.Library.FirstWins
import BankPlatform.Library.IsoDate
import BankPlatform.Library.Table
import BankPlatform.Teltonika.Normalize

/-!
# The telemetry database

The tables of `packages/db-telemetry/src/schema/telemetry.ts` with their column types, checks and
unique indexes. A reading table is keyed by its natural key: that is the unique index which makes a
replayed insert a no-op. Ids are only compared, so their type is left open.

## Main definitions

* `TelemetryDb` — the tables.
* `insertRows` — `insert ... values ... on conflict do nothing`: all rows, or an error.
-/

namespace BankPlatform.Telemetry

open Library Teltonika

/-- A type of generated ids: a new one is never in use. -/
class FreshIds (Id : Type) where
  newId : List Id → Id
  newId_notMem : ∀ used, newId used ∉ used

/-- Numbers as ids: one more than their sum is new. -/
instance natFreshIds : FreshIds ℕ where
  newId used := used.sum + 1
  newId_notMem used hmem := by
    have := List.le_sum_of_mem hmem
    omega

/-- Why the database refuses a row, and the error of the vehicle registry. -/
inductive DbError where
  | outOfRange (column : String)
  | checkViolation (constraint : String)
  | foreignKeyViolation (column : String)
  | vanished (imei : String)
  deriving DecidableEq, Repr

/-! ## Rows -/

structure Vehicle (Id : Type) where
  id : Id
  imei : String

structure VehicleLocation (Id : Type) where
  vehicleId : Id
  recordedAt : JsDate
  receivedAt : JsDate
  latitude : ℚ
  longitude : ℚ
  altitudeM : ℤ
  angleDeg : ℤ
  satellites : ℤ
  speedKph : ℤ

structure VehicleFuelReading (Id : Type) where
  vehicleId : Id
  recordedAt : JsDate
  receivedAt : JsDate
  source : FuelSource
  levelPct : Option ℚ
  /-- In hundredths, the last digit of `toFixed(2)`. -/
  levelLiters : Option ℤ

inductive EngineEventType where
  | ignitionOn
  | ignitionOff
  | movementStart
  | movementStop
  deriving DecidableEq, Repr

structure VehicleEngineEvent (Id : Type) where
  vehicleId : Id
  recordedAt : JsDate
  receivedAt : JsDate
  eventType : EngineEventType

/-- Circular zones a vehicle is expected to stay inside. -/
structure Geofence where
  id : String
  name : String
  centerLatitude : ℚ
  centerLongitude : ℚ
  radiusM : ℤ
  deriving DecidableEq, Repr

inductive VehicleAlertType where
  | lowFuel
  | geofenceExit
  | speeding
  deriving DecidableEq, Repr

/-- What a rule matched on. -/
inductive AlertDetails where
  | lowFuel (levelPct : ℚ) (thresholdPct : ℤ) (source : FuelSource)
  | speeding (speedKph limitKph : ℤ)
  | geofenceExit (nearestGeofenceId nearestGeofenceName : String) (distanceM radiusM : ℤ)
  deriving DecidableEq, Repr

/-- One row per time a condition started holding. -/
structure VehicleAlert (Id : Type) where
  vehicleId : Id
  alertType : VehicleAlertType
  recordedAt : ℤ
  details : AlertDetails

/-- Whether an alert condition is currently holding for a vehicle. -/
structure VehicleAlertState (Id : Type) where
  vehicleId : Id
  alertType : VehicleAlertType
  active : Bool
  lastFiredAt : Option ℤ
  updatedAt : ℤ

variable {Id : Type}

instance keyedVehicle : Keyed (Vehicle Id) String := ⟨Vehicle.imei⟩

instance keyedLocation : Keyed (VehicleLocation Id) (Id × JsDate) :=
  ⟨fun r => (r.vehicleId, r.recordedAt)⟩

instance keyedFuelReading : Keyed (VehicleFuelReading Id) (Id × JsDate × FuelSource) :=
  ⟨fun r => (r.vehicleId, r.recordedAt, r.source)⟩

instance keyedEngineEvent : Keyed (VehicleEngineEvent Id) (Id × JsDate × EngineEventType) :=
  ⟨fun r => (r.vehicleId, r.recordedAt, r.eventType)⟩

instance keyedAlertState : Keyed (VehicleAlertState Id) (Id × VehicleAlertType) :=
  ⟨fun r => (r.vehicleId, r.alertType)⟩

structure TelemetryDb (Id : Type) where
  vehicles : Table (Vehicle Id)
  /-- The primary key. -/
  vehicleIds : (vehicles.rows.map Vehicle.id).Nodup
  vehicleLocations : Table (VehicleLocation Id)
  vehicleFuelReadings : Table (VehicleFuelReading Id)
  vehicleEngineEvents : Table (VehicleEngineEvent Id)
  /-- With the column `active`. -/
  geofences : List (Geofence × Bool)
  vehicleAlerts : List (VehicleAlert Id)
  vehicleAlertStates : Table (VehicleAlertState Id)

/-- A database without rows. -/
def TelemetryDb.empty : TelemetryDb Id where
  vehicles := Table.empty
  vehicleIds := List.nodup_nil
  vehicleLocations := Table.empty
  vehicleFuelReadings := Table.empty
  vehicleEngineEvents := Table.empty
  geofences := []
  vehicleAlerts := []
  vehicleAlertStates := Table.empty

/-! ## Column types and checks -/

/-- What is demanded of a row, each with the error of a row that does not meet it. -/
abbrev Checks := List (Bool × DbError)

def refusal (checks : Checks) : Option DbError := (checks.find? fun c => !c.1).map Prod.snd

/-- All columns of a row are in order. -/
def InOrder (columns : Checks) : Prop := ∀ c ∈ columns, c.1 = true

theorem refusal_eq_none {checks : Checks} : refusal checks = none ↔ ∀ c ∈ checks, c.1 = true := by
  simp [refusal]

/-- `integer`, given as a JavaScript number. -/
def integerColumn (column : String) (q : ℚ) : Bool × DbError :=
  (q.den = 1 && decide (-(2 ^ 31) ≤ q) && decide (q < 2 ^ 31), .outOfRange column)

def smallintColumn (column : String) (z : ℤ) : Bool × DbError :=
  (decide (-(2 ^ 15) ≤ z) && decide (z < 2 ^ 15), .outOfRange column)

/-- The beginning of the year 1. -/
def yearOne : ℤ := -62135596800000

/-- `timestamp with time zone`, to 294276 AD, given as the ISO text of a date. In this notation there
is no year 0 and none before it. -/
def timestampColumn (column : String) (date : JsDate) : Bool × DbError :=
  (date.any fun t => decide (yearOne ≤ t) && decide (t < 9224318016000000), .outOfRange column)

/-- `numeric(8, 2)`, in hundredths. -/
def numericColumn (column : String) (hundredths : ℤ) : Bool × DbError :=
  (hundredths.natAbs < 10 ^ 8, .outOfRange column)

/-- A column that may be null. -/
def nullable {α : Type} (value : Option α) (column : α → Bool × DbError) : Checks :=
  (value.map column).toList

section

variable [DecidableEq Id]

/-- `references(() => vehicles.id)`. -/
def vehicleReference (db : TelemetryDb Id) (vehicleId : Id) : Bool × DbError :=
  (db.vehicles.rows.any fun v => v.id = vehicleId, .foreignKeyViolation "vehicle_id")

end

/-- What is demanded of the columns of a position. -/
def VehicleLocation.columns (r : VehicleLocation Id) : Checks :=
  [timestampColumn "recorded_at" r.recordedAt,
    timestampColumn "received_at" r.receivedAt,
    integerColumn "altitude_m" r.altitudeM,
    integerColumn "angle_deg" r.angleDeg,
    smallintColumn "satellites" r.satellites,
    integerColumn "speed_kph" r.speedKph,
    (decide (-90 ≤ r.latitude) && decide (r.latitude ≤ 90) &&
      (decide (-180 ≤ r.longitude) && decide (r.longitude ≤ 180)),
      .checkViolation "vehicle_locations_coordinates_in_range")]

def VehicleFuelReading.columns (r : VehicleFuelReading Id) : Checks :=
  [timestampColumn "recorded_at" r.recordedAt, timestampColumn "received_at" r.receivedAt] ++
    nullable r.levelPct (integerColumn "level_pct") ++
    nullable r.levelLiters (numericColumn "level_liters") ++
    [(r.levelPct.isSome || r.levelLiters.isSome,
        .checkViolation "vehicle_fuel_readings_has_a_value"),
      (r.levelPct.all fun pct => decide (0 ≤ pct) && decide (pct ≤ 100),
        .checkViolation "vehicle_fuel_readings_pct_in_range")]

def VehicleEngineEvent.columns (r : VehicleEngineEvent Id) : Checks :=
  [timestampColumn "recorded_at" r.recordedAt, timestampColumn "received_at" r.receivedAt]

/-! ## Inserts -/

section

variable {R K : Type} [Keyed R K] [DecidableEq K]

/-- One row of an insert that skips rows whose key is in use. -/
def insertIfFree (t : Table R) (r : R) : Table R := (t.insert? r).getD t

theorem find?_insertIfFree (t : Table R) (r : R) (k : K) :
    (insertIfFree t r).find? k = (t.find? k).or (if Keyed.key r = k then some r else none) := by
  unfold insertIfFree
  cases h : t.insert? r with
  | some t' =>
    rw [Option.getD_some, Table.find?_insert? h]
    split
    · next heq => rw [← heq, (Table.insert?_eq_some h).1, Option.none_or]
    · rw [Option.or_none]
  | none =>
    rw [Option.getD_none]
    split
    · next heq =>
      cases hk : t.find? k with
      | some x => rfl
      | none => simp [Table.insert?, heq, hk] at h
    · rw [Option.or_none]

/-- Of the rows of a key, the stored one stays, and else the first of the insert is taken. -/
theorem find?_insertAll (rows : List R) (t : Table R) :
    (rows.foldl insertIfFree t).find? = firstWins Keyed.key id t.find? rows := by
  induction rows generalizing t with
  | nil => simp
  | cons r rows ih =>
    rw [List.foldl_cons, ih, ← List.singleton_append, firstWins_append]
    congr 1
    funext k
    rw [find?_insertIfFree, firstWins_cons]
    simp

theorem mem_insertAll {rows : List R} {t : Table R} {r : R}
    (h : r ∈ (rows.foldl insertIfFree t).rows) : r ∈ t.rows ∨ r ∈ rows := by
  have hfind := Table.find?_key h
  rw [find?_insertAll] at hfind
  rcases firstWins_eq_some hfind with hold | ⟨r', hr', _, rfl⟩
  · exact .inl (Table.mem_of_find? hold)
  · exact .inr hr'

/-- A row is added to a list if no row there has its key. -/
def addFree (rows : List R) (r : R) : List R :=
  if rows.any fun x => Keyed.key x = Keyed.key r then rows else rows ++ [r]

theorem rows_insertAll (rows : List R) (t : Table R) :
    (rows.foldl insertIfFree t).rows = rows.foldl addFree t.rows := by
  induction rows generalizing t with
  | nil => rfl
  | cons r rows ih =>
    have hrow : (insertIfFree t r).rows = addFree t.rows r := by
      unfold insertIfFree addFree
      cases hfind : t.find? (Keyed.key r) with
      | some x =>
        have hused : t.rows.any (fun x => Keyed.key x = Keyed.key r) = true :=
          List.any_eq_true.mpr ⟨x, Table.mem_of_find? hfind,
            decide_eq_true (Table.key_of_find? hfind)⟩
        simp [Table.insert?, hfind, hused]
      | none =>
        have hfree : t.rows.any (fun x => Keyed.key x = Keyed.key r) = false := by
          simpa using Table.find?_eq_none.mp hfind
        simp [Table.insert?, hfind, hfree]
    rw [List.foldl_cons, List.foldl_cons, ih, hrow]

/-- Rows that are told apart by their keys are added one kind at a time. -/
theorem filter_foldl_addFree {q : R → Bool}
    (hq : ∀ r r', Keyed.key r = Keyed.key r' → q r = q r') (rows old : List R) :
    (rows.foldl addFree old).filter q = (rows.filter q).foldl addFree (old.filter q) := by
  induction rows generalizing old with
  | nil => rfl
  | cons r rows ih =>
    rw [List.foldl_cons, ih]
    by_cases hr : q r = true
    · rw [List.filter_cons_of_pos hr, List.foldl_cons]
      congr 1
      have hany : (old.filter q).any (fun x => Keyed.key x = Keyed.key r) =
          old.any fun x => Keyed.key x = Keyed.key r := by
        rw [List.any_filter]
        refine List.any_congr rfl fun x => ?_
        by_cases hkey : Keyed.key x = Keyed.key r
        · simp [hkey, hq x r hkey, hr]
        · simp [hkey]
      unfold addFree
      rw [hany]
      split
      · rfl
      · simp [hr]
    · rw [List.filter_cons_of_neg hr]
      congr 1
      unfold addFree
      split
      · rfl
      · simp [hr]

/-- Rows that are told apart from the new ones stay as they are. -/
theorem filter_insertAll {p : R → Bool} {rows : List R} (h : ∀ r ∈ rows, p r = false)
    (t : Table R) : (rows.foldl insertIfFree t).rows.filter p = t.rows.filter p := by
  induction rows generalizing t with
  | nil => rfl
  | cons r rows ih =>
    obtain ⟨hr, hrest⟩ := List.forall_mem_cons.mp h
    rw [List.foldl_cons, ih hrest, insertIfFree]
    cases hinsert : t.insert? r with
    | some t' => simp [(Table.insert?_eq_some hinsert).2, hr]
    | none => rfl

/-- An insert of rows whose keys are in use changes nothing. -/
theorem insertAll_eq_self {rows : List R} {t : Table R}
    (h : ∀ r ∈ rows, (t.find? (Keyed.key r)).isSome = true) : rows.foldl insertIfFree t = t := by
  induction rows with
  | nil => rfl
  | cons r rows ih =>
    obtain ⟨hr, hrest⟩ := List.forall_mem_cons.mp h
    have hself : insertIfFree t r = t := by
      obtain ⟨x, hx⟩ := Option.isSome_iff_exists.mp hr
      simp [insertIfFree, Table.insert?, hx]
    rw [List.foldl_cons, hself, ih hrest]

/-- `insert into t values rows on conflict do nothing`: one refused row refuses all. -/
def insertRows (checks : R → Checks) (rows : List R) (t : Table R) : Except DbError (Table R) :=
  match rows.findSome? fun r => refusal (checks r) with
  | some err => .error err
  | none => .ok (rows.foldl insertIfFree t)

theorem eq_insertAll_of_insertRows {checks : R → Checks} {rows : List R} {t t' : Table R}
    (h : insertRows checks rows t = .ok t') : t' = rows.foldl insertIfFree t := by
  unfold insertRows at h
  split at h
  · cases h
  · cases h
    rfl

theorem insertRows_eq_ok {checks : R → Checks} {rows : List R} {t : Table R} :
    (∃ t', insertRows checks rows t = .ok t') ↔
      ∀ r ∈ rows, ∀ c ∈ checks r, c.1 = true := by
  unfold insertRows
  cases hrefused : rows.findSome? fun r => refusal (checks r) with
  | none =>
    refine ⟨fun _ r hr => ?_, fun _ => ⟨_, rfl⟩⟩
    exact refusal_eq_none.mp (List.findSome?_eq_none_iff.mp hrefused r hr)
  | some err =>
    refine ⟨fun h => ?_, fun h => ?_⟩
    · obtain ⟨t', ht'⟩ := h
      cases ht'
    · obtain ⟨r, hr, herr⟩ := List.exists_of_findSome?_eq_some hrefused
      rw [refusal_eq_none.mpr (h r hr)] at herr
      cases herr

end

section

variable [DecidableEq Id]

/-- An insert of rows that refer to vehicles succeeds exactly if all columns are in order. -/
theorem insertRows_of_references {R K : Type} [Keyed R K] [DecidableEq K] {columns : R → Checks}
    {vehicleId : R → Id} {rows : List R} {db : TelemetryDb Id} {t : Table R}
    {p : Table R → TelemetryDb Id}
    (hvehicles : ∀ r ∈ rows, (vehicleReference db (vehicleId r)).1 = true) :
    (∃ db', (insertRows (fun r => columns r ++ [vehicleReference db (vehicleId r)]) rows t).map
      p = .ok db') ↔ ∀ r ∈ rows, InOrder (columns r) := by
  have hchecks : (∀ r ∈ rows, ∀ c ∈ columns r ++ [vehicleReference db (vehicleId r)], c.1 = true) ↔
      ∀ r ∈ rows, InOrder (columns r) := by
    refine forall₂_congr fun r hr => ?_
    rw [List.forall_mem_append, List.forall_mem_singleton]
    exact and_iff_left (hvehicles r hr)
  rw [← hchecks, ← insertRows_eq_ok (t := t)]
  cases insertRows (fun r => columns r ++ [vehicleReference db (vehicleId r)]) rows t with
  | ok t' => simp [Except.map]
  | error err => simp [Except.map]

end

/-- `/^[0-9]{15}$/`, the check `vehicles_imei_digits`. -/
def imeiDigits (imei : String) : Bool := imei.length = 15 && imei.toList.all Char.isDigit

/-- The row that the database makes for an IMEI. -/
def newVehicle [FreshIds Id] (imei : String) (vehicles : Table (Vehicle Id)) : Vehicle Id :=
  ⟨FreshIds.newId (vehicles.rows.map Vehicle.id), imei⟩

theorem nodup_insert_newVehicle [FreshIds Id] {imei : String} {vehicles vehicles' : Table (Vehicle Id)}
    (hids : (vehicles.rows.map Vehicle.id).Nodup)
    (h : vehicles.insert? (newVehicle imei vehicles) = some vehicles') :
    (vehicles'.rows.map Vehicle.id).Nodup := by
  rw [(Table.insert?_eq_some h).2, List.map_append, List.nodup_append]
  refine ⟨hids, List.nodup_singleton _, ?_⟩
  rintro a ha b hb rfl
  rw [List.mem_singleton.mp hb] at ha
  exact FreshIds.newId_notMem _ ha

/-- `insert into vehicles (imei) values (imei) on conflict do nothing`. -/
def insertVehicle [FreshIds Id] (imei : String) (db : TelemetryDb Id) :
    Except DbError (TelemetryDb Id) :=
  if imeiDigits imei = false then .error (.checkViolation "vehicles_imei_digits")
  else
    match h : db.vehicles.insert? (newVehicle imei db.vehicles) with
    | some vehicles =>
      .ok { db with vehicles, vehicleIds := nodup_insert_newVehicle db.vehicleIds h }
    | none => .ok db

end BankPlatform.Telemetry
