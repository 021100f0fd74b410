import BankPlatform.Library.Numeral
import BankPlatform.Library.IsoDate
import BankPlatform.Teltonika.Avl

/-!
# Normalized records

`packages/teltonika/src/io-map.ts` and `normalizeRecord` of `packages/teltonika/src/normalize.ts`:
one AVL record with the IO elements that the pipeline knows pulled out into named fields.
-/

namespace BankPlatform.Teltonika

open Library

/-- The ids of the IO elements that the pipeline reads. -/
structure AvlIds where
  totalOdometer : ℕ
  fuelLevelObdPct : ℕ
  externalVoltage : ℕ
  batteryVoltage : ℕ
  fuelLevelCanLiters : ℕ
  fuelLevelCanPct : ℕ
  fuelLevelLls1 : ℕ
  fuelLevelLls2 : ℕ
  ignition : ℕ
  movement : ℕ

def AVL_ID : AvlIds where
  totalOdometer := 16
  fuelLevelObdPct := 48
  externalVoltage := 66
  batteryVoltage := 67
  fuelLevelCanLiters := 84
  fuelLevelCanPct := 89
  fuelLevelLls1 := 201
  fuelLevelLls2 := 203
  ignition := 239
  movement := 240

inductive FuelSource where
  | canPct
  | canLiters
  | obdPct
  | lls1
  | lls2
  deriving DecidableEq, Repr

/-- The sources with their names on the wire. -/
def FUEL_SOURCES : List (String × FuelSource) :=
  [("can_pct", .canPct), ("can_liters", .canLiters), ("obd_pct", .obdPct), ("lls1", .lls1),
    ("lls2", .lls2)]

def FuelSource.name : FuelSource → String
  | .canPct => "can_pct"
  | .canLiters => "can_liters"
  | .obdPct => "obd_pct"
  | .lls1 => "lls1"
  | .lls2 => "lls2"

/-- Every source is read back from its name. -/
theorem lookup_fuelSource (source : FuelSource) :
    FUEL_SOURCES.lookup source.name = some source := by
  cases source <;> rfl

/-- The number `1e-7`. -/
def COORDINATE_SCALE : JsNumber.Dyadic := ⟨944473296573929, 73⟩

/-- The number `0.1`. -/
def FUEL_LITERS_SCALE : JsNumber.Dyadic := ⟨3602879701896397, 55⟩

/-- No number of 53 bits is nearer to `1e-7` or to `0.1`. -/
example :
    2 * ((8 * COORDINATE_SCALE.mantissa * 10 ^ 7 : ℤ) - 2 ^ (COORDINATE_SCALE.shift + 3)).natAbs ≤
      10 ^ 7 ∧
    2 * ((2 * FUEL_LITERS_SCALE.mantissa * 10 : ℤ) - 2 ^ (FUEL_LITERS_SCALE.shift + 1)).natAbs ≤
      10 := by
  decide

/-- A coordinate of the wire in degrees: `raw * COORDINATE_SCALE`. -/
def degrees (raw : ℤ) : ℚ := JsNumber.scale raw COORDINATE_SCALE

structure NormalizedGps where
  latitude : ℚ
  longitude : ℚ
  altitudeM : ℤ
  angleDeg : ℤ
  satellites : ℤ
  speedKph : ℤ
  deriving DecidableEq, Repr

structure FuelReading where
  source : FuelSource
  /-- Percent full, when the source reports a percentage. -/
  pct : Option ℚ
  /-- Litres in the tank, when the source reports a volume. -/
  liters : Option ℚ
  deriving DecidableEq, Repr

structure TelemetryPayload where
  imei : String
  /-- Device clock. -/
  recordedAt : JsDate
  /-- Our clock when the packet arrived. -/
  receivedAt : JsDate
  priority : ℤ
  eventIoId : ℤ
  /-- Null when the device had no satellite fix. -/
  gps : Option NormalizedGps
  ignition : Option Bool
  movement : Option Bool
  fuel : List FuelReading
  externalVoltageMv : Option ℤ
  batteryVoltageMv : Option ℤ
  odometerM : Option ℤ
  /-- Every fixed-width IO element as a decimal string, keyed by AVL id. -/
  rawIo : JsMap String String
  /-- Every variable-length IO element as hex, keyed by AVL id. -/
  rawIoVariable : JsMap String String

/-- `io.get(avlId)`. -/
def ioValue (io : JsMap ℕ ℕ) (avlId : ℕ) : Option ℕ := (io.find? avlId).map Prod.snd

/-- `Number(value)` of an element. -/
def readNumber (io : JsMap ℕ ℕ) (avlId : ℕ) : Option ℤ :=
  (ioValue io avlId).map fun value => JsNumber.ofNat value

def readBoolean (io : JsMap ℕ ℕ) (avlId : ℕ) : Option Bool :=
  (ioValue io avlId).map fun value => value ≠ 0

/-- A percentage as the sensor sends it. -/
def pctReading (source : FuelSource) (pct : ℤ) : FuelReading := ⟨source, some pct, none⟩

def litersReading (canLiters : ℤ) : FuelReading :=
  ⟨.canLiters, none, some (JsNumber.scale canLiters FUEL_LITERS_SCALE)⟩

def readFuel (io : JsMap ℕ ℕ) : List FuelReading :=
  ((readNumber io AVL_ID.fuelLevelCanPct).map (pctReading .canPct)).toList ++
  ((readNumber io AVL_ID.fuelLevelCanLiters).map litersReading).toList ++
  ((readNumber io AVL_ID.fuelLevelObdPct).map (pctReading .obdPct)).toList ++
  ((readNumber io AVL_ID.fuelLevelLls1).map (pctReading .lls1)).toList ++
  ((readNumber io AVL_ID.fuelLevelLls2).map (pctReading .lls2)).toList

/-- An object with an entry for each entry of a map: `result[String(key)] = text(value)`. -/
def toRecord {V : Type} (text : V → String) (m : JsMap ℕ V) : JsMap String String :=
  m.rows.foldl (fun result e => JsMap.set result (toString e.1) (text e.2)) Table.empty

def normalizeRecord (imei : String) (record : AvlRecord) (receivedAt : JsDate) :
    TelemetryPayload where
  imei
  recordedAt := .ofTime record.timestampMs
  receivedAt
  priority := record.priority
  eventIoId := record.eventIoId
  gps :=
    if record.gps.valid then
      some
        { latitude := degrees record.gps.latitude
          longitude := degrees record.gps.longitude
          altitudeM := record.gps.altitudeM
          angleDeg := record.gps.angleDeg
          satellites := record.gps.satellites
          speedKph := record.gps.speedKph }
    else none
  ignition := readBoolean record.io AVL_ID.ignition
  movement := readBoolean record.io AVL_ID.movement
  fuel := readFuel record.io
  externalVoltageMv := readNumber record.io AVL_ID.externalVoltage
  batteryVoltageMv := readNumber record.io AVL_ID.batteryVoltage
  odometerM := readNumber record.io AVL_ID.totalOdometer
  rawIo := toRecord (fun value => toString value) record.io
  rawIoVariable := toRecord Numeral.hex record.ioVariable

/-! ## Facts about the parts -/

/-- The keys of a map stay distinct as texts. -/
theorem rows_toRecord {V : Type} (text : V → String) (m : JsMap ℕ V) :
    (toRecord text m).rows = m.rows.map fun e => (toString e.1, text e.2) := by
  have hkeys : (m.rows.map fun e => toString e.1).Nodup := by
    have hmap : (m.rows.map fun e => toString e.1) = (m.rows.map Prod.fst).map toString := by simp
    rw [hmap]
    exact List.Nodup.map Numeral.toString_injective m.nodup
  rw [toRecord, JsMap.rows_foldl_set]
  · simp [Table.empty]
  · simpa [Table.empty] using hkeys

/-- A bound that is the value of some coordinate, and less than that of the next one: a coordinate
is in range exactly when its number on the wire is. -/
theorem degrees_range (bound k : ℕ)
    (hlast : JsNumber.ofInt (k * COORDINATE_SCALE.mantissa) = bound * 2 ^ COORDINATE_SCALE.shift)
    (hnext : (bound * 2 ^ COORDINATE_SCALE.shift : ℤ) <
      JsNumber.ofInt ((k + 1) * COORDINATE_SCALE.mantissa)) (raw : ℤ) :
    (-(bound : ℚ) ≤ degrees raw ∧ degrees raw ≤ bound) ↔ -(k : ℤ) ≤ raw ∧ raw ≤ k := by
  have hbelow : JsNumber.scale k COORDINATE_SCALE ≤ bound := by
    rw [JsNumber.scale, hlast, div_le_iff₀ (by positivity)]
    push_cast
    exact le_rfl
  have habove : (bound : ℚ) < JsNumber.scale (k + 1) COORDINATE_SCALE := by
    rw [JsNumber.scale, lt_div_iff₀ (by positivity)]
    exact_mod_cast hnext
  have hupper := JsNumber.scale_le_iff hbelow habove raw
  have hlower := JsNumber.scale_le_iff hbelow habove (-raw)
  rw [JsNumber.scale_neg] at hlower
  unfold degrees
  constructor
  · rintro ⟨hlow, hhigh⟩
    have := hlower.mp (by linarith)
    exact ⟨by omega, hupper.mp hhigh⟩
  · rintro ⟨hlow, hhigh⟩
    have := hlower.mpr (by omega)
    exact ⟨by linarith, hupper.mpr hhigh⟩

theorem latitude_range (raw : ℤ) :
    (-90 ≤ degrees raw ∧ degrees raw ≤ 90) ↔ -900000000 ≤ raw ∧ raw ≤ 900000000 := by
  have := degrees_range 90 900000000 (by decide) (by decide) raw
  exact_mod_cast this

theorem longitude_range (raw : ℤ) :
    (-180 ≤ degrees raw ∧ degrees raw ≤ 180) ↔ -1800000000 ≤ raw ∧ raw ≤ 1800000000 := by
  have := degrees_range 180 1800000000 (by decide) (by decide) raw
  exact_mod_cast this

/-- The sensors that report a percentage, with the elements that carry it. -/
def pctSources : List (FuelSource × ℕ) :=
  [(.canPct, AVL_ID.fuelLevelCanPct), (.obdPct, AVL_ID.fuelLevelObdPct),
    (.lls1, AVL_ID.fuelLevelLls1), (.lls2, AVL_ID.fuelLevelLls2)]

/-- The fuel readings of a record. -/
theorem mem_readFuel {io : JsMap ℕ ℕ} {reading : FuelReading} :
    reading ∈ readFuel io ↔
      (∃ p ∈ pctSources, ∃ z ∈ readNumber io p.2, reading = pctReading p.1 z) ∨
      ∃ z ∈ readNumber io AVL_ID.fuelLevelCanLiters, reading = litersReading z := by
  simp only [readFuel, pctSources, List.mem_append, Option.mem_toList, Option.map_eq_some_iff,
    List.mem_cons, List.not_mem_nil, or_false, exists_eq_or_imp, exists_eq_left, Option.mem_def,
    eq_comm (a := reading)]
  constructor
  · rintro ((((h | h) | h) | h) | h)
    · exact .inl (.inl h)
    · exact .inr h
    · exact .inl (.inr (.inl h))
    · exact .inl (.inr (.inr (.inl h)))
    · exact .inl (.inr (.inr (.inr h)))
  · rintro ((h | h | h | h) | h)
    · exact .inl (.inl (.inl (.inl h)))
    · exact .inl (.inl (.inr h))
    · exact .inl (.inr h)
    · exact .inr h
    · exact .inl (.inl (.inl (.inr h)))

/-- A number of the wire is a safe integer exactly when the element is. -/
theorem natAbs_readNumber (io : JsMap ℕ ℕ) (avlId : ℕ) :
    (∀ z ∈ readNumber io avlId, z.natAbs ≤ JsNumber.maxSafeInteger) ↔
      ∀ value ∈ ioValue io avlId, value ≤ JsNumber.maxSafeInteger := by
  unfold readNumber
  cases ioValue io avlId with
  | none => simp
  | some value => simpa using JsNumber.ofNat_le_iff le_rfl

end BankPlatform.Teltonika
