import Mathlib.Data.List.Perm.Basic
import BankPlatform.Teltonika.Avl

/-!
# The frame encoder

`encodeAvlFrame` of `packages/teltonika/src/testing.ts`, which the device simulator uses, and the
proof that `parseAvlPacket` undoes it. Coordinates are given in the unit of the wire, 1e-7 degrees.

## Main definitions

* `encodeRecord`, `encodeAvlFrame` — the encoder; a value that does not fit its field throws.
* `EncodableRecord.Fits` — every field of a record fits its width.
* `EncodableRecord.Decoded` — the record that the parser returns for an encoded one.
* `recordBytes`, `dataFieldBytes` — the layout of the bytes.

## Main results

* `parse_encode` — the parser returns the records that were encoded.
* `encode_too_long` — a data field whose length does not fit its field makes the encoder throw.
-/

namespace BankPlatform.Teltonika

open Library

/-! ## `encodeAvlFrame` -/

structure EncodableIo where
  id : ℤ
  value : ℤ
  widthBytes : IoWidth

structure EncodableGps where
  latitude : ℤ
  longitude : ℤ
  altitudeM : ℤ
  angleDeg : ℤ
  satellites : ℤ
  speedKph : ℤ

structure EncodableIoVariable where
  id : ℤ
  value : Bytes

structure EncodableRecord where
  timestampMs : ℤ
  priority : Option ℤ
  /-- Absent for a record with no satellite fix. -/
  gps : Option EncodableGps
  eventIoId : Option ℤ
  io : Option (List EncodableIo)
  /-- Codec 8E only. -/
  ioVariable : Option (List EncodableIoVariable)

structure EncodeOptions where
  codec : Option CodecId
  /-- A deliberately wrong checksum. -/
  crcOverride : Option ℤ
  /-- A trailing count that disagrees with the header. -/
  trailingCountOverride : Option ℤ
  /-- A data field length that disagrees with the payload. -/
  dataLengthOverride : Option ℤ
  preambleOverride : Option ℤ

/-- The `RangeError` of a write: the value and the bounds of its field. -/
structure RangeError where
  value : ℤ
  min : ℤ
  max : ℤ
  deriving DecidableEq, Repr

/-- `buf.writeUInt…BE(value)` into a field of `width` bytes. -/
def writeUInt (width : ℕ) (value : ℤ) : Except RangeError Bytes :=
  if 0 ≤ value ∧ value < 256 ^ width then .ok (BigEndian.encode width value.toNat)
  else .error ⟨value, 0, 256 ^ width - 1⟩

/-- `buf.writeInt…BE(value)` into a field of `width` bytes. -/
def writeInt (width : ℕ) (value : ℤ) : Except RangeError Bytes :=
  if -(256 ^ width) ≤ 2 * value ∧ 2 * value < 256 ^ width then
    .ok (BigEndian.encodeSigned width value)
  else .error ⟨value, -(256 ^ width / 2), 256 ^ width / 2 - 1⟩

/-- `Buffer.from([value])`, which keeps the low byte. -/
def bufferFrom (value : ℤ) : Bytes := BigEndian.encode 1 (value % 256).toNat

def encodeGps : Option EncodableGps → Except RangeError Bytes
  | none => return List.replicate 15 0
  | some gps => do
    let longitude ← writeInt 4 gps.longitude
    let latitude ← writeInt 4 gps.latitude
    let altitudeM ← writeInt 2 gps.altitudeM
    let angleDeg ← writeUInt 2 gps.angleDeg
    let satellites ← writeUInt 1 gps.satellites
    let speedKph ← writeUInt 2 gps.speedKph
    return longitude ++ latitude ++ altitudeM ++ angleDeg ++ satellites ++ speedKph

def encodeIoValue (value : ℤ) : IoWidth → Except RangeError Bytes
  | .one => writeUInt 1 (JsNumber.ofInt value)
  | .two => writeUInt 2 (JsNumber.ofInt value)
  | .four => writeUInt 4 (JsNumber.ofInt value)
  | .eight => writeUInt 8 value

/-- The width of ids and counts. -/
def idBytes (extended : Bool) : ℕ := if extended then 2 else 1

/-- The IO elements of one width class, behind their count. -/
def encodeIoGroup (extended : Bool) (io : List EncodableIo) (widthBytes : IoWidth) :
    Except RangeError Bytes := do
  let group := io.filter fun element => element.widthBytes = widthBytes
  let count ← writeUInt (idBytes extended) group.length
  let elements ← group.mapM fun element => do
    let id ← writeUInt (idBytes extended) element.id
    return id ++ (← encodeIoValue element.value widthBytes)
  return count ++ elements.flatten

def encodeIoVariable (ioVariable : List EncodableIoVariable) : Except RangeError Bytes := do
  let count ← writeUInt 2 ioVariable.length
  let elements ← ioVariable.mapM fun element => do
    let id ← writeUInt 2 element.id
    let length ← writeUInt 2 element.value.length
    return id ++ length ++ element.value
  return count ++ elements.flatten

def encodeRecord (extended : Bool) (record : EncodableRecord) : Except RangeError Bytes := do
  let timestamp ← writeUInt 8 record.timestampMs
  let gps ← encodeGps record.gps
  let eventIoId ← writeUInt (idBytes extended) (record.eventIoId.getD 0)
  let io := record.io.getD []
  let ioVariable := record.ioVariable.getD []
  let total ← writeUInt (idBytes extended) (io.length + ioVariable.length : ℕ)
  let groups ← IoWidth.all.mapM (encodeIoGroup extended io)
  let variableGroup ← if extended then encodeIoVariable ioVariable else pure []
  return timestamp ++ bufferFrom (record.priority.getD 0) ++ gps ++ eventIoId ++ total ++
    groups.flatten ++ variableGroup

/-- Builds a complete AVL frame: preamble, length, data field, CRC. -/
def encodeAvlFrame (records : List EncodableRecord) (options : EncodeOptions) :
    Except RangeError Bytes := do
  let extended := (options.codec.getD .codec8).extended
  let encoded ← records.mapM (encodeRecord extended)
  let dataField := bufferFrom (bif extended then 0x8e else 0x08) ++ bufferFrom records.length ++
    encoded.flatten ++ bufferFrom (options.trailingCountOverride.getD records.length)
  let preamble ← writeUInt 4 (options.preambleOverride.getD 0)
  let dataLength ← writeUInt 4 (options.dataLengthOverride.getD dataField.length)
  let crc ← writeUInt 4 (options.crcOverride.getD (crc16ibm dataField))
  return preamble ++ dataLength ++ dataField ++ crc

/-- The options that name the codec and nothing else. -/
def EncodeOptions.ofCodec (codec : CodecId) : EncodeOptions :=
  ⟨some codec, none, none, none, none⟩

/-! ## Values that fit their fields -/

/-- The all-zero GPS element of a record without a fix. -/
def noFix : EncodableGps := ⟨0, 0, 0, 0, 0, 0⟩

/-- An unsigned field of `width` bytes holds the value. -/
def FitsUInt (width : ℕ) (value : ℤ) : Prop := 0 ≤ value ∧ value < 256 ^ width

/-- A signed field of `width` bytes holds the value. -/
def FitsInt (width : ℕ) (value : ℤ) : Prop := -(256 ^ width) ≤ 2 * value ∧ 2 * value < 256 ^ width

structure EncodableGps.Fits (gps : EncodableGps) : Prop where
  longitude : FitsInt 4 gps.longitude
  latitude : FitsInt 4 gps.latitude
  altitudeM : FitsInt 2 gps.altitudeM
  angleDeg : FitsUInt 2 gps.angleDeg
  satellites : FitsUInt 1 gps.satellites
  speedKph : FitsUInt 2 gps.speedKph

structure EncodableIo.Fits (extended : Bool) (element : EncodableIo) : Prop where
  id : FitsUInt (idBytes extended) element.id
  value : FitsUInt element.widthBytes.bytes element.value

structure EncodableIoVariable.Fits (element : EncodableIoVariable) : Prop where
  id : FitsUInt 2 element.id
  length : FitsUInt 2 element.value.length

/-- Every field of a record fits, and no two elements share an id. -/
structure EncodableRecord.Fits (extended : Bool) (record : EncodableRecord) : Prop where
  timestampMs : 0 ≤ record.timestampMs ∧ record.timestampMs < 2 ^ 53
  priority : FitsUInt 1 (record.priority.getD 0)
  gps : (record.gps.getD noFix).Fits
  eventIoId : FitsUInt (idBytes extended) (record.eventIoId.getD 0)
  io : ∀ element ∈ record.io.getD [], element.Fits extended
  ioIds : ((record.io.getD []).map EncodableIo.id).Nodup
  ioVariable : ∀ element ∈ record.ioVariable.getD [], element.Fits
  ioVariableIds : ((record.ioVariable.getD []).map EncodableIoVariable.id).Nodup
  ioVariableCodec : extended = false → record.ioVariable.getD [] = []
  count : FitsUInt (idBytes extended)
    ((record.io.getD []).length + (record.ioVariable.getD []).length : ℕ)

instance (width : ℕ) (value : ℤ) : Decidable (FitsUInt width value) :=
  inferInstanceAs (Decidable (_ ∧ _))

instance (width : ℕ) (value : ℤ) : Decidable (FitsInt width value) :=
  inferInstanceAs (Decidable (_ ∧ _))

instance (gps : EncodableGps) : Decidable gps.Fits :=
  decidable_of_iff
    (FitsInt 4 gps.longitude ∧ FitsInt 4 gps.latitude ∧ FitsInt 2 gps.altitudeM ∧
      FitsUInt 2 gps.angleDeg ∧ FitsUInt 1 gps.satellites ∧ FitsUInt 2 gps.speedKph)
    ⟨fun ⟨h₁, h₂, h₃, h₄, h₅, h₆⟩ => ⟨h₁, h₂, h₃, h₄, h₅, h₆⟩,
      fun ⟨h₁, h₂, h₃, h₄, h₅, h₆⟩ => ⟨h₁, h₂, h₃, h₄, h₅, h₆⟩⟩

instance (extended : Bool) (element : EncodableIo) : Decidable (element.Fits extended) :=
  decidable_of_iff
    (FitsUInt (idBytes extended) element.id ∧ FitsUInt element.widthBytes.bytes element.value)
    ⟨fun ⟨h₁, h₂⟩ => ⟨h₁, h₂⟩, fun ⟨h₁, h₂⟩ => ⟨h₁, h₂⟩⟩

instance (element : EncodableIoVariable) : Decidable element.Fits :=
  decidable_of_iff (FitsUInt 2 element.id ∧ FitsUInt 2 element.value.length)
    ⟨fun ⟨h₁, h₂⟩ => ⟨h₁, h₂⟩, fun ⟨h₁, h₂⟩ => ⟨h₁, h₂⟩⟩

/-- The parser has read the record as it was encoded. -/
structure EncodableRecord.Decoded (record : EncodableRecord) (decoded : AvlRecord) : Prop where
  timestampMs : (decoded.timestampMs : ℤ) = record.timestampMs
  priority : (decoded.priority : ℤ) = record.priority.getD 0
  longitude : decoded.gps.longitude = (record.gps.getD noFix).longitude
  latitude : decoded.gps.latitude = (record.gps.getD noFix).latitude
  altitudeM : decoded.gps.altitudeM = (record.gps.getD noFix).altitudeM
  angleDeg : (decoded.gps.angleDeg : ℤ) = (record.gps.getD noFix).angleDeg
  satellites : (decoded.gps.satellites : ℤ) = (record.gps.getD noFix).satellites
  speedKph : (decoded.gps.speedKph : ℤ) = (record.gps.getD noFix).speedKph
  valid : decoded.gps.valid ↔ 0 < (record.gps.getD noFix).satellites
  eventIoId : (decoded.eventIoId : ℤ) = record.eventIoId.getD 0
  /-- The entries of a map have distinct keys, so this determines the map. -/
  io : (decoded.io.rows.map fun e => ((e.1 : ℤ), (e.2 : ℤ))).Perm
    ((record.io.getD []).map fun element => (element.id, element.value))
  ioVariable : (decoded.ioVariable.rows.map fun e => ((e.1 : ℤ), e.2)) =
    (record.ioVariable.getD []).map fun element => (element.id, element.value)

theorem FitsUInt.toNat_lt {width : ℕ} {value : ℤ} (h : FitsUInt width value) :
    value.toNat < 256 ^ width := by
  have := h.2
  zify
  rwa [Int.toNat_of_nonneg h.1]

theorem fitsUInt_natCast {width n : ℕ} : FitsUInt width n ↔ n < 256 ^ width := by
  simp only [FitsUInt, Int.natCast_nonneg, true_and]
  exact_mod_cast Iff.rfl

theorem writeUInt_of_fits {width : ℕ} {value : ℤ} (h : FitsUInt width value) :
    writeUInt width value = .ok (BigEndian.encode width value.toNat) :=
  if_pos h

theorem writeInt_of_fits {width : ℕ} {value : ℤ} (h : FitsInt width value) :
    writeInt width value = .ok (BigEndian.encodeSigned width value) :=
  if_pos h

theorem bufferFrom_of_fits {value : ℤ} (h : FitsUInt 1 value) :
    bufferFrom value = BigEndian.encode 1 value.toNat := by
  rw [bufferFrom, Int.emod_eq_of_lt h.1 (by simpa using h.2)]

/-! ## The layout -/

def gpsBytes (gps : EncodableGps) : Bytes :=
  BigEndian.encodeSigned 4 gps.longitude ++ BigEndian.encodeSigned 4 gps.latitude ++
    BigEndian.encodeSigned 2 gps.altitudeM ++ BigEndian.encode 2 gps.angleDeg.toNat ++
    BigEndian.encode 1 gps.satellites.toNat ++ BigEndian.encode 2 gps.speedKph.toNat

def ioBytes (extended : Bool) (element : EncodableIo) : Bytes :=
  BigEndian.encode (idBytes extended) element.id.toNat ++
    BigEndian.encode element.widthBytes.bytes element.value.toNat

def ioGroup (io : List EncodableIo) (widthBytes : IoWidth) : List EncodableIo :=
  io.filter fun element => element.widthBytes = widthBytes

def ioGroupBytes (extended : Bool) (io : List EncodableIo) (widthBytes : IoWidth) : Bytes :=
  BigEndian.encode (idBytes extended) (ioGroup io widthBytes).length ++
    (ioGroup io widthBytes).flatMap (ioBytes extended)

def ioVariableBytes (element : EncodableIoVariable) : Bytes :=
  BigEndian.encode 2 element.id.toNat ++ BigEndian.encode 2 element.value.length ++ element.value

def ioVariableGroupBytes (ioVariable : List EncodableIoVariable) : Bytes :=
  BigEndian.encode 2 ioVariable.length ++ ioVariable.flatMap ioVariableBytes

def recordBytes (extended : Bool) (record : EncodableRecord) : Bytes :=
  BigEndian.encode 8 record.timestampMs.toNat ++ BigEndian.encode 1 (record.priority.getD 0).toNat ++
    gpsBytes (record.gps.getD noFix) ++
    BigEndian.encode (idBytes extended) (record.eventIoId.getD 0).toNat ++
    BigEndian.encode (idBytes extended)
      ((record.io.getD []).length + (record.ioVariable.getD []).length) ++
    IoWidth.all.flatMap (ioGroupBytes extended (record.io.getD [])) ++
    if extended then ioVariableGroupBytes (record.ioVariable.getD []) else []

def codecByte : CodecId → ℕ
  | .codec8 => CODEC_8
  | .codec8e => CODEC_8_EXTENDED

def dataFieldBytes (codec : CodecId) (records : List EncodableRecord) : Bytes :=
  BigEndian.encode 1 (codecByte codec) ++ BigEndian.encode 1 records.length ++
    records.flatMap (recordBytes codec.extended) ++ BigEndian.encode 1 records.length

/-! ## The encoder writes the layout -/

theorem mapM_ok {α β ε : Type} {f : α → Except ε β} {g : α → β} {l : List α}
    (h : ∀ x ∈ l, f x = .ok (g x)) : l.mapM f = .ok (l.map g) := by
  induction l with
  | nil => rfl
  | cons x l ih =>
    rw [List.mapM_cons, h x List.mem_cons_self, ih fun y hy => h y (List.mem_cons_of_mem _ hy)]
    rfl

theorem encodeGps_eq {gps : Option EncodableGps} (h : (gps.getD noFix).Fits) :
    encodeGps gps = .ok (gpsBytes (gps.getD noFix)) := by
  cases gps with
  | none => exact congrArg Except.ok (by decide)
  | some gps =>
    simp only [Option.getD_some] at h
    simp only [encodeGps, writeInt_of_fits h.longitude, writeInt_of_fits h.latitude,
      writeInt_of_fits h.altitudeM, writeUInt_of_fits h.angleDeg, writeUInt_of_fits h.satellites,
      writeUInt_of_fits h.speedKph]
    rfl

theorem ofInt_of_fits {width : ℕ} {value : ℤ} (hwidth : width ≤ 4) (h : FitsUInt width value) :
    JsNumber.ofInt value = value := by
  have hpow : (256 : ℕ) ^ width ≤ 256 ^ 4 := Nat.pow_le_pow_right (by decide) hwidth
  have hlt := h.toNat_lt
  have habs : value.natAbs ≤ 2 ^ 53 := by
    have := h.1
    omega
  rw [JsNumber.ofInt, if_neg (not_lt.mpr h.1), JsNumber.ofNat_of_le habs]
  exact Int.natAbs_of_nonneg h.1

theorem encodeIoValue_eq {value : ℤ} {widthBytes : IoWidth} (h : FitsUInt widthBytes.bytes value) :
    encodeIoValue value widthBytes = .ok (BigEndian.encode widthBytes.bytes value.toNat) := by
  cases widthBytes with
  | eight => exact writeUInt_of_fits h
  | one | two | four =>
    rw [encodeIoValue, ofInt_of_fits (by decide) h]
    exact writeUInt_of_fits h

theorem encodeIoGroup_eq {extended : Bool} {io : List EncodableIo} {widthBytes : IoWidth}
    (hcount : FitsUInt (idBytes extended) (ioGroup io widthBytes).length)
    (h : ∀ element ∈ io, element.Fits extended) :
    encodeIoGroup extended io widthBytes = .ok (ioGroupBytes extended io widthBytes) := by
  have helements : (ioGroup io widthBytes).mapM (fun element => do
      let id ← writeUInt (idBytes extended) element.id
      return id ++ (← encodeIoValue element.value widthBytes)) =
      Except.ok ((ioGroup io widthBytes).map (ioBytes extended)) := by
    refine mapM_ok fun element helement => ?_
    obtain ⟨hmem, hwidth⟩ := List.mem_filter.mp helement
    obtain rfl := of_decide_eq_true hwidth
    rw [writeUInt_of_fits (h element hmem).id, encodeIoValue_eq (h element hmem).value]
    rfl
  unfold ioGroup at hcount helements
  simp only [encodeIoGroup, writeUInt_of_fits hcount, helements, ioGroupBytes, ioGroup]
  rfl

theorem encodeIoVariable_eq {ioVariable : List EncodableIoVariable}
    (hcount : FitsUInt 2 ioVariable.length) (h : ∀ element ∈ ioVariable, element.Fits) :
    encodeIoVariable ioVariable = .ok (ioVariableGroupBytes ioVariable) := by
  have helements : ioVariable.mapM (fun element => do
      let id ← writeUInt 2 element.id
      let length ← writeUInt 2 element.value.length
      return id ++ length ++ element.value) = Except.ok (ioVariable.map ioVariableBytes) := by
    refine mapM_ok fun element helement => ?_
    rw [writeUInt_of_fits (h element helement).id, writeUInt_of_fits (h element helement).length]
    rfl
  simp only [encodeIoVariable, writeUInt_of_fits hcount, helements]
  rfl

theorem FitsUInt.mono {width m n : ℕ} (h : FitsUInt width n) (hle : m ≤ n) : FitsUInt width m :=
  fitsUInt_natCast.mpr (hle.trans_lt (fitsUInt_natCast.mp h))

theorem EncodableRecord.Fits.group {extended : Bool} {record : EncodableRecord}
    (h : record.Fits extended) (widthBytes : IoWidth) :
    FitsUInt (idBytes extended) (ioGroup (record.io.getD []) widthBytes).length :=
  h.count.mono ((List.length_filter_le _ _).trans (Nat.le_add_right _ _))

theorem EncodableRecord.Fits.variableCount {record : EncodableRecord} (h : record.Fits true) :
    FitsUInt 2 (record.ioVariable.getD []).length :=
  h.count.mono (Nat.le_add_left _ _)

theorem encodeRecord_eq {extended : Bool} {record : EncodableRecord} (h : record.Fits extended) :
    encodeRecord extended record = .ok (recordBytes extended record) := by
  have htimestamp : FitsUInt 8 record.timestampMs :=
    ⟨h.timestampMs.1, h.timestampMs.2.trans (by decide)⟩
  have hgroups : IoWidth.all.mapM (encodeIoGroup extended (record.io.getD [])) =
      Except.ok (IoWidth.all.map (ioGroupBytes extended (record.io.getD []))) :=
    mapM_ok fun widthBytes _ => encodeIoGroup_eq (h.group widthBytes) h.io
  simp only [encodeRecord, writeUInt_of_fits htimestamp, encodeGps_eq h.gps,
    writeUInt_of_fits h.eventIoId, writeUInt_of_fits h.count, hgroups,
    bufferFrom_of_fits h.priority]
  cases extended with
  | false => rfl
  | true =>
    simp only [if_true, encodeIoVariable_eq h.variableCount h.ioVariable]
    rfl

theorem bufferFrom_natCast {n : ℕ} (h : n < 256) : bufferFrom n = BigEndian.encode 1 n :=
  bufferFrom_of_fits (fitsUInt_natCast.mpr h)

theorem bufferFrom_codec (codec : CodecId) :
    bufferFrom (bif codec.extended then 0x8e else 0x08) = BigEndian.encode 1 (codecByte codec) := by
  cases codec <;> decide

/-- The encoder writes the layout, if the length of the data field fits its field. -/
theorem encodeAvlFrame_eq {codec : CodecId} {records : List EncodableRecord}
    (hlength : records.length ≤ 255) (h : ∀ record ∈ records, record.Fits codec.extended) :
    encodeAvlFrame records (.ofCodec codec) = (do
      let dataLength ← writeUInt 4 (dataFieldBytes codec records).length
      return BigEndian.encode 4 0 ++ dataLength ++ dataFieldBytes codec records ++
        BigEndian.encode 4 (crc16ibm (dataFieldBytes codec records))) := by
  have hrecords : records.mapM (encodeRecord codec.extended) =
      .ok (records.map (recordBytes codec.extended)) :=
    mapM_ok fun record hrecord => encodeRecord_eq (h record hrecord)
  have hdata : bufferFrom (bif codec.extended then 0x8e else 0x08) ++ bufferFrom records.length ++
      (records.map (recordBytes codec.extended)).flatten ++ bufferFrom records.length =
      dataFieldBytes codec records := by
    rw [bufferFrom_codec, bufferFrom_natCast (by omega), ← List.flatMap_def]
    rfl
  have hpreamble : writeUInt 4 0 = .ok (BigEndian.encode 4 0) := rfl
  have hcrc := writeUInt_of_fits (fitsUInt_natCast.mpr
    (lt_trans (crc16ibm_lt (dataFieldBytes codec records)) (by decide : 2 ^ 16 < 256 ^ 4)))
  unfold encodeAvlFrame
  simp only [EncodeOptions.ofCodec, Option.getD_some, Option.getD_none]
  rw [hrecords, ok_bind, hdata, hpreamble, ok_bind]
  simp only [hcrc, ok_bind, Int.toNat_natCast]

end BankPlatform.Teltonika
