import BankPlatform.Library.Json
import BankPlatform.Teltonika.Normalize

/-!
# The wire contract of telemetry events

`packages/events/src/schemas.ts`: the events on Kafka, how they are written, and the schema that
every consumer reads them with. The text of a message is identified with the value that it denotes.

## Main definitions

* `TelemetryEvent`, `TelemetryEvent.toJson` — an event, and what `JSON.stringify` writes.
* `telemetryEventSchema`, `decodeTelemetryEvent` — the schema, and the decoder of message bodies.

## Main results

* `decode_toJson` — an event that was written is read back exactly if it is `Decodable`.
-/

namespace BankPlatform.Telemetry

open Library Library.Schema Teltonika

def TELEMETRY_SCHEMA_VERSION : ℤ := 1

structure TelemetryEvent where
  schemaVersion : ℤ
  /-- Identifies one physical AVL record. -/
  dedupKey : String
  imei : String
  codec : CodecId
  /-- Device clock. -/
  recordedAt : String
  /-- Our clock. -/
  receivedAt : String
  priority : ℤ
  eventIoId : ℤ
  gps : Option NormalizedGps
  ignition : Option Bool
  movement : Option Bool
  fuel : List FuelReading
  externalVoltageMv : Option ℤ
  batteryVoltageMv : Option ℤ
  odometerM : Option ℤ
  rawIo : JsMap String String
  rawIoVariable : JsMap String String

/-! ## Writing -/

/-- The codecs with their names on the wire. -/
def codecs : List (String × CodecId) := [("codec8", .codec8), ("codec8e", .codec8e)]

def codecName : CodecId → String
  | .codec8 => "codec8"
  | .codec8e => "codec8e"

def integer (z : ℤ) : Json := .num z

def gpsProperties (gps : NormalizedGps) : List (String × Option Json) :=
  [("latitude", some (.num gps.latitude)),
    ("longitude", some (.num gps.longitude)),
    ("altitudeM", some (integer gps.altitudeM)),
    ("angleDeg", some (integer gps.angleDeg)),
    ("satellites", some (integer gps.satellites)),
    ("speedKph", some (integer gps.speedKph))]

def fuelReadingProperties (reading : FuelReading) : List (String × Option Json) :=
  [("source", some (.str reading.source.name)),
    ("pct", reading.pct.map .num),
    ("liters", reading.liters.map .num)]

def TelemetryEvent.properties (event : TelemetryEvent) : List (String × Option Json) :=
  [("schemaVersion", some (integer event.schemaVersion)),
    ("dedupKey", some (.str event.dedupKey)),
    ("imei", some (.str event.imei)),
    ("codec", some (.str (codecName event.codec))),
    ("recordedAt", some (.str event.recordedAt)),
    ("receivedAt", some (.str event.receivedAt)),
    ("priority", some (integer event.priority)),
    ("eventIoId", some (integer event.eventIoId)),
    ("gps", some ((event.gps.map fun gps => .object (gpsProperties gps)).getD .null)),
    ("ignition", event.ignition.map .bool),
    ("movement", event.movement.map .bool),
    ("fuel", some (.arr (event.fuel.map fun reading => .object (fuelReadingProperties reading)))),
    ("externalVoltageMv", event.externalVoltageMv.map integer),
    ("batteryVoltageMv", event.batteryVoltageMv.map integer),
    ("odometerM", event.odometerM.map integer),
    ("rawIo", some (.dictionary event.rawIo)),
    ("rawIoVariable", some (.dictionary event.rawIoVariable))]

/-- `JSON.stringify(event)`. -/
def TelemetryEvent.toJson (event : TelemetryEvent) : Json := .object event.properties

/-! ## Reading -/

/-- `z.iso.datetime()`. -/
def isoDatetime : Check String := format "datetime" fun s => (JsDate.parse s).isSome

/-- `/^\d{15}$/`. -/
def imeiFormat : Check String :=
  format "/^\\d{15}$/" fun s => s.length = 15 && s.toList.all Char.isDigit

def hasAValue : Check FuelReading :=
  refinement (fun reading => reading.pct ≠ none || reading.liters ≠ none)
    "a fuel reading must carry a percentage or a volume"

def fuelReadingSchema : Validator FuelReading :=
  refine
    (object fun o =>
      FuelReading.mk <$> field o "source" (enum FUEL_SOURCES)
        <*> field o "pct" (optional (number []))
        <*> field o "liters" (optional (number [])))
    hasAValue

def gpsSchema : Validator NormalizedGps :=
  object fun o =>
    NormalizedGps.mk <$> field o "latitude" (number [minimum (-90), maximum 90])
      <*> field o "longitude" (number [minimum (-180), maximum 180])
      <*> field o "altitudeM" (int [])
      <*> field o "angleDeg" (int [])
      <*> field o "satellites" (int [nonnegative])
      <*> field o "speedKph" (int [nonnegative])

def telemetryEventSchema : Validator TelemetryEvent :=
  object fun o =>
    TelemetryEvent.mk <$> field o "schemaVersion" (literal TELEMETRY_SCHEMA_VERSION)
      <*> field o "dedupKey" (string [minLength 1])
      <*> field o "imei" (string [imeiFormat])
      <*> field o "codec" (enum codecs)
      <*> field o "recordedAt" (string [isoDatetime])
      <*> field o "receivedAt" (string [isoDatetime])
      <*> field o "priority" (int [nonnegative])
      <*> field o "eventIoId" (int [nonnegative])
      <*> field o "gps" (nullable gpsSchema)
      <*> field o "ignition" (optional boolean)
      <*> field o "movement" (optional boolean)
      <*> field o "fuel" (array fuelReadingSchema)
      <*> field o "externalVoltageMv" (optional (int []))
      <*> field o "batteryVoltageMv" (optional (int []))
      <*> field o "odometerM" (optional (int []))
      <*> field o "rawIo" (record (string []))
      <*> field o "rawIoVariable" (record (string []))

/-- The body of a message: there may be none, and a text may be no JSON. -/
inductive Body where
  | null
  | malformed (message : String)
  | json (j : Json)

inductive DecodeResult where
  | ok (event : TelemetryEvent)
  | rejected (reason : String)

def issueText (wording : Wording) (issue : Issue) : String :=
  let path := String.intercalate "." issue.path
  (if path = "" then "(root)" else path) ++ ": " ++ issue.message wording

/-- Decodes the body of a message. Never throws. -/
def decodeTelemetryEvent (wording : Wording) : Body → DecodeResult
  | .null => .rejected "message has no value"
  | .malformed message => .rejected ("invalid JSON: " ++ message)
  | .json j =>
    match telemetryEventSchema (some j) with
    | .valid event => .ok event
    | .invalid issues =>
      .rejected ("schema mismatch: " ++
        String.intercalate "; " (issues.map (issueText wording)))

/-! ## Reading what was written -/

/-- An integer that is read back. -/
def Safe (z : ℤ) : Prop := z.natAbs ≤ JsNumber.maxSafeInteger

structure DecodableGps (gps : NormalizedGps) : Prop where
  latitude : -90 ≤ gps.latitude ∧ gps.latitude ≤ 90
  longitude : -180 ≤ gps.longitude ∧ gps.longitude ≤ 180
  altitudeM : Safe gps.altitudeM
  angleDeg : Safe gps.angleDeg
  satellites : Safe gps.satellites ∧ 0 ≤ gps.satellites
  speedKph : Safe gps.speedKph ∧ 0 ≤ gps.speedKph

/-- The schema accepts the event. -/
structure Decodable (event : TelemetryEvent) : Prop where
  schemaVersion : event.schemaVersion = TELEMETRY_SCHEMA_VERSION
  dedupKey : 1 ≤ event.dedupKey.length
  imei : event.imei.length = 15 ∧ event.imei.toList.all Char.isDigit
  recordedAt : (JsDate.parse event.recordedAt).isSome
  receivedAt : (JsDate.parse event.receivedAt).isSome
  priority : Safe event.priority ∧ 0 ≤ event.priority
  eventIoId : Safe event.eventIoId ∧ 0 ≤ event.eventIoId
  gps : ∀ gps ∈ event.gps, DecodableGps gps
  fuel : ∀ reading ∈ event.fuel, reading.pct ≠ none ∨ reading.liters ≠ none
  externalVoltageMv : ∀ z ∈ event.externalVoltageMv, Safe z
  batteryVoltageMv : ∀ z ∈ event.batteryVoltageMv, Safe z
  odometerM : ∀ z ∈ event.odometerM, Safe z

instance (z : ℤ) : Decidable (Safe z) := inferInstanceAs (Decidable (_ ≤ _))

instance (gps : NormalizedGps) : Decidable (DecodableGps gps) :=
  decidable_of_iff
    ((-90 ≤ gps.latitude ∧ gps.latitude ≤ 90) ∧ (-180 ≤ gps.longitude ∧ gps.longitude ≤ 180) ∧
      Safe gps.altitudeM ∧ Safe gps.angleDeg ∧ (Safe gps.satellites ∧ 0 ≤ gps.satellites) ∧
      Safe gps.speedKph ∧ 0 ≤ gps.speedKph)
    ⟨fun ⟨h₁, h₂, h₃, h₄, h₅, h₆⟩ => ⟨h₁, h₂, h₃, h₄, h₅, h₆⟩,
      fun ⟨h₁, h₂, h₃, h₄, h₅, h₆⟩ => ⟨h₁, h₂, h₃, h₄, h₅, h₆⟩⟩

instance (event : TelemetryEvent) : Decidable (Decodable event) :=
  decidable_of_iff
    (event.schemaVersion = TELEMETRY_SCHEMA_VERSION ∧ 1 ≤ event.dedupKey.length ∧
      (event.imei.length = 15 ∧ event.imei.toList.all Char.isDigit = true) ∧
      (JsDate.parse event.recordedAt).isSome = true ∧
      (JsDate.parse event.receivedAt).isSome = true ∧ (Safe event.priority ∧ 0 ≤ event.priority) ∧
      (Safe event.eventIoId ∧ 0 ≤ event.eventIoId) ∧ (∀ gps ∈ event.gps, DecodableGps gps) ∧
      (∀ reading ∈ event.fuel, reading.pct ≠ none ∨ reading.liters ≠ none) ∧
      (∀ z ∈ event.externalVoltageMv, Safe z) ∧ (∀ z ∈ event.batteryVoltageMv, Safe z) ∧
      ∀ z ∈ event.odometerM, Safe z)
    ⟨fun ⟨h₁, h₂, h₃, h₄, h₅, h₆, h₇, h₈, h₉, h₁₀, h₁₁, h₁₂⟩ =>
        ⟨h₁, h₂, h₃, h₄, h₅, h₆, h₇, h₈, h₉, h₁₀, h₁₁, h₁₂⟩,
      fun ⟨h₁, h₂, h₃, h₄, h₅, h₆, h₇, h₈, h₉, h₁₀, h₁₁, h₁₂⟩ =>
        ⟨h₁, h₂, h₃, h₄, h₅, h₆, h₇, h₈, h₉, h₁₀, h₁₁, h₁₂⟩⟩

open Validated

theorem judges_integer (z : ℤ) : Judges (int [] (some (integer z))) (Safe z) z :=
  (judges_int z []).congr (by simp [Safe])

theorem judges_nonnegative (z : ℤ) :
    Judges (int [nonnegative] (some (integer z))) (Safe z ∧ 0 ≤ z) z :=
  (judges_int z [nonnegative]).congr (by simp [Safe, nonnegative])

theorem judges_anyNumber (q : ℚ) : Judges (number [] (some (.num q))) True q :=
  (judges_number q []).congr (by simp)

theorem judges_between (low high q : ℚ) :
    Judges (number [minimum low, maximum high] (some (.num q))) (low ≤ q ∧ q ≤ high) q :=
  (judges_number q _).congr (by simp [minimum, maximum])

theorem judges_text (s : String) : Judges (string [] (some (.str s))) True s :=
  (judges_string s []).congr (by simp)

theorem judges_enum {α : Type} {options : List (String × α)} {name : String} {a : α}
    (h : options.lookup name = some a) : Judges (enum options (some (.str name))) True a := by
  refine Judges.of_eq ?_
  rw [enum, h]

theorem judges_literal (z z' : ℤ) : Judges (literal z (some (integer z'))) (z' = z) z' where
  accept h := by
    subst h
    simp [literal, integer]
  reject h := ⟨_, if_neg (by exact_mod_cast h)⟩

theorem judges_boolean (b : Bool) : Judges (boolean (some (.bool b))) True b := Judges.of_eq rfl

theorem judges_gps (gps : NormalizedGps) :
    Judges (gpsSchema (some (.object (gpsProperties gps)))) (DecodableGps gps) gps := by
  have hkeys : ((gpsProperties gps).map Prod.fst).Nodup :=
    (by decide : ["latitude", "longitude", "altitudeM", "angleDeg", "satellites",
      "speedKph"].Nodup)
  have hread := (judges_field hkeys "latitude" rfl (judges_between (-90) 90 _)).fmap
      NormalizedGps.mk
    |>.seq (judges_field hkeys "longitude" rfl (judges_between (-180) 180 _))
    |>.seq (judges_field hkeys "altitudeM" rfl (judges_integer _))
    |>.seq (judges_field hkeys "angleDeg" rfl (judges_integer _))
    |>.seq (judges_field hkeys "satellites" rfl (judges_nonnegative _))
    |>.seq (judges_field hkeys "speedKph" rfl (judges_nonnegative _))
  refine hread.congr ⟨?_, ?_⟩
  · rintro ⟨⟨⟨⟨⟨h1, h2⟩, h3⟩, h4⟩, h5⟩, h6⟩
    exact ⟨h1, h2, h3, h4, h5, h6⟩
  · rintro ⟨h1, h2, h3, h4, h5, h6⟩
    exact ⟨⟨⟨⟨⟨h1, h2⟩, h3⟩, h4⟩, h5⟩, h6⟩

theorem judges_fuelReading (reading : FuelReading) :
    Judges (fuelReadingSchema (some (.object (fuelReadingProperties reading))))
      (reading.pct ≠ none ∨ reading.liters ≠ none) reading := by
  have hkeys : ((fuelReadingProperties reading).map Prod.fst).Nodup :=
    (by decide : ["source", "pct", "liters"].Nodup)
  have hsource : Judges (enum FUEL_SOURCES (some (.str reading.source.name))) True reading.source :=
    judges_enum (lookup_fuelSource reading.source)
  have hread := (judges_field hkeys "source" rfl hsource).fmap FuelReading.mk
    |>.seq (judges_field hkeys "pct" rfl (judges_optional judges_anyNumber reading.pct))
    |>.seq (judges_field hkeys "liters" rfl (judges_optional judges_anyNumber reading.liters))
  refine (judges_refine (j := .object (fuelReadingProperties reading)) hread hasAValue).congr ?_
  simp [hasAValue, refinement]

theorem judges_event (event : TelemetryEvent) :
    Judges (telemetryEventSchema (some event.toJson)) (Decodable event) event := by
  have hkeys : (event.properties.map Prod.fst).Nodup :=
    (by decide : ["schemaVersion", "dedupKey", "imei", "codec", "recordedAt", "receivedAt",
      "priority", "eventIoId", "gps", "ignition", "movement", "fuel", "externalVoltageMv",
      "batteryVoltageMv", "odometerM", "rawIo", "rawIoVariable"].Nodup)
  have hcodec : Judges (enum codecs (some (.str (codecName event.codec)))) True event.codec :=
    judges_enum (by cases event.codec <;> rfl)
  have htext (check : Check String) (s : String) :
      Judges (string [check] (some (.str s))) (check.passes s = true) s :=
    (judges_string s [check]).congr (by simp)
  have hread := (judges_field hkeys "schemaVersion" rfl
      (judges_literal TELEMETRY_SCHEMA_VERSION event.schemaVersion)).fmap TelemetryEvent.mk
    |>.seq (judges_field hkeys "dedupKey" rfl (htext (minLength 1) _))
    |>.seq (judges_field hkeys "imei" rfl (htext imeiFormat _))
    |>.seq (judges_field hkeys "codec" rfl hcodec)
    |>.seq (judges_field hkeys "recordedAt" rfl (htext isoDatetime _))
    |>.seq (judges_field hkeys "receivedAt" rfl (htext isoDatetime _))
    |>.seq (judges_field hkeys "priority" rfl (judges_nonnegative _))
    |>.seq (judges_field hkeys "eventIoId" rfl (judges_nonnegative _))
    |>.seq (judges_field hkeys "gps" rfl (judges_nullable judges_gps (by simp [Json.object]) _))
    |>.seq (judges_field hkeys "ignition" rfl (judges_optional judges_boolean _))
    |>.seq (judges_field hkeys "movement" rfl (judges_optional judges_boolean _))
    |>.seq (judges_field hkeys "fuel" rfl (judges_array judges_fuelReading _))
    |>.seq (judges_field hkeys "externalVoltageMv" rfl (judges_optional judges_integer _))
    |>.seq (judges_field hkeys "batteryVoltageMv" rfl (judges_optional judges_integer _))
    |>.seq (judges_field hkeys "odometerM" rfl (judges_optional judges_integer _))
    |>.seq (judges_field hkeys "rawIo" rfl (judges_record (fun s => (judges_text s).accept trivial) _))
    |>.seq (judges_field hkeys "rawIoVariable" rfl
      (judges_record (fun s => (judges_text s).accept trivial) _))
  refine hread.congr ⟨?_, fun h => ?_⟩
  · rintro ⟨⟨⟨⟨⟨⟨⟨⟨⟨⟨⟨⟨⟨⟨⟨⟨hschema, hdedup⟩, himei⟩, -⟩, hrecorded⟩, hreceived⟩, hpriority⟩, hevent⟩,
      hgps⟩, -⟩, -⟩, hfuel⟩, hexternal⟩, hbattery⟩, hodometer⟩, -⟩, -⟩
    exact
      { schemaVersion := hschema
        dedupKey := of_decide_eq_true hdedup
        imei := by simpa [imeiFormat, format] using himei
        recordedAt := hrecorded
        receivedAt := hreceived
        priority := hpriority
        eventIoId := hevent
        gps := hgps
        fuel := hfuel
        externalVoltageMv := hexternal
        batteryVoltageMv := hbattery
        odometerM := hodometer }
  · exact ⟨⟨⟨⟨⟨⟨⟨⟨⟨⟨⟨⟨⟨⟨⟨⟨h.schemaVersion, decide_eq_true h.dedupKey⟩,
      by simpa [imeiFormat, format] using h.imei⟩, trivial⟩, h.recordedAt⟩, h.receivedAt⟩,
      h.priority⟩, h.eventIoId⟩, h.gps⟩, fun _ _ => trivial⟩, fun _ _ => trivial⟩, h.fuel⟩,
      h.externalVoltageMv⟩, h.batteryVoltageMv⟩, h.odometerM⟩, trivial⟩, trivial⟩

/-- An event that was written is read back if it meets the schema, and is rejected otherwise. -/
theorem decode_toJson (wording : Wording) (event event' : TelemetryEvent) :
    decodeTelemetryEvent wording (.json event.toJson) = .ok event' ↔
      Decodable event ∧ event' = event := by
  rw [← (judges_event event).eq_valid_iff, decodeTelemetryEvent]
  cases telemetryEventSchema (some event.toJson) with
  | valid e => simp
  | invalid issues => simp

end BankPlatform.Telemetry
