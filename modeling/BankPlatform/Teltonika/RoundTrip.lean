import Mathlib.Data.List.Perm.Basic
import BankPlatform.Teltonika.Encode

/-!
# Decoding what was encoded

The parser reads every part of the layout, wherever it stands in the frame, and so returns the
records that were encoded.

## Main results

* `reads_record` — a record is read back, and the cursor stands behind it.
* `parse_encode` — the parser undoes the encoder.
* `encode_throws_too_long` — a data field whose length does not fit its field makes the encoder
  throw.
-/

namespace BankPlatform.Teltonika

open Library Cursor

/-! ## Records -/

theorem readId_eq (extended : Bool) : readId extended = unsigned (idBytes extended) := by
  cases extended <;> rfl

theorem readCount_eq (extended : Bool) : readCount extended = unsigned (idBytes extended) := by
  cases extended <;> rfl

theorem readIoValue_eq (widthBytes : IoWidth) :
    readIoValue widthBytes = unsigned widthBytes.bytes "io value" := by
  cases widthBytes <;> rfl

/-- The GPS element that the parser returns. -/
def decodedGps (gps : EncodableGps) : GpsElement :=
  ⟨gps.longitude, gps.latitude, gps.altitudeM, gps.angleDeg.toNat, gps.satellites.toNat,
    gps.speedKph.toNat, gps.satellites.toNat > 0⟩

theorem reads_gps {gps : EncodableGps} (h : gps.Fits) :
    Reads readGps (gpsBytes gps) (decodedGps gps) := by
  simp only [gpsBytes, List.append_assoc]
  refine (reads_signed h.longitude.1 h.longitude.2 _).bind ?_
  refine (reads_signed h.latitude.1 h.latitude.2 _).bind ?_
  refine (reads_signed h.altitudeM.1 h.altitudeM.2 _).bind ?_
  refine (reads_unsigned h.angleDeg.toNat_lt _).bind ?_
  refine (reads_unsigned h.satellites.toNat_lt _).bind ?_
  exact (reads_unsigned h.speedKph.toNat_lt _).map _

/-- Setting the entry of an element. -/
def setIo (io : JsMap ℕ ℕ) (element : EncodableIo) : JsMap ℕ ℕ :=
  JsMap.set io element.id.toNat element.value.toNat

def setIoVariable (io : JsMap ℕ Bytes) (element : EncodableIoVariable) : JsMap ℕ Bytes :=
  JsMap.set io element.id.toNat element.value

theorem reads_ioGroup {extended : Bool} {io : List EncodableIo} {widthBytes : IoWidth}
    (hcount : FitsUInt (idBytes extended) (ioGroup io widthBytes).length)
    (h : ∀ element ∈ io, element.Fits extended) (m : JsMap ℕ ℕ) :
    Reads (readIoGroup extended widthBytes m) (ioGroupBytes extended io widthBytes)
      ((ioGroup io widthBytes).foldl setIo m) := by
  unfold readIoGroup ioGroupBytes
  rw [readCount_eq, readId_eq, readIoValue_eq]
  refine (reads_unsigned (fitsUInt_natCast.mp hcount) _).bind ?_
  refine Reader.Reads.forTimes _ (fun element helement m => ?_) m
  obtain ⟨hmem, hwidth⟩ := List.mem_filter.mp helement
  obtain rfl := of_decide_eq_true hwidth
  refine (reads_unsigned (h element hmem).id.toNat_lt _).bind ?_
  exact (reads_unsigned (h element hmem).value.toNat_lt _).map _

theorem reads_ioVariable {ioVariable : List EncodableIoVariable}
    (hcount : FitsUInt 2 ioVariable.length) (h : ∀ element ∈ ioVariable, element.Fits) :
    Reads readIoVariable (ioVariableGroupBytes ioVariable)
      (ioVariable.foldl setIoVariable Table.empty) := by
  unfold readIoVariable ioVariableGroupBytes
  rw [readCount_eq]
  refine (reads_unsigned (fitsUInt_natCast.mp hcount) _).bind ?_
  refine Reader.Reads.forTimes _ (fun element helement m => ?_) _
  unfold ioVariableBytes
  rw [List.append_assoc]
  refine (reads_unsigned (h element helement).id.toNat_lt _).bind ?_
  refine (reads_unsigned (fitsUInt_natCast.mp (h element helement).length) _).bind ?_
  exact (reads_bytes element.value _).map _

/-- The record that the parser returns. -/
def decodedRecord (record : EncodableRecord) : AvlRecord where
  timestampMs := record.timestampMs.toNat
  priority := (record.priority.getD 0).toNat
  gps := decodedGps (record.gps.getD noFix)
  eventIoId := (record.eventIoId.getD 0).toNat
  io := IoWidth.all.foldl (fun m widthBytes => (ioGroup (record.io.getD []) widthBytes).foldl setIo m)
    Table.empty
  ioVariable := (record.ioVariable.getD []).foldl setIoVariable Table.empty

theorem reads_record {extended : Bool} {record : EncodableRecord} (h : record.Fits extended) :
    Reads (readRecord extended) (recordBytes extended record) (decodedRecord record) := by
  have htimestamp : record.timestampMs.toNat < 2 ^ 53 := by
    have := h.timestampMs.2
    omega
  unfold readRecord recordBytes
  simp only [List.append_assoc]
  rw [readCount_eq, readId_eq]
  refine (reads_unsigned (lt_trans htimestamp (by decide)) _).bind ?_
  rw [JsNumber.ofNat_of_le htimestamp.le]
  refine (reads_unsigned h.priority.toNat_lt _).bind ?_
  refine (reads_gps h.gps).bind ?_
  refine (reads_unsigned h.eventIoId.toNat_lt _).bind ?_
  refine (reads_unsigned (fitsUInt_natCast.mp h.count) _).bind ?_
  refine (Reader.Reads.foldlM IoWidth.all
    (fun widthBytes _ m => reads_ioGroup (h.group widthBytes) h.io m) _).bind ?_
  cases extended with
  | true => exact (reads_ioVariable h.variableCount h.ioVariable).map _
  | false =>
    have hnone : Reads (pure Table.empty) []
        ((record.ioVariable.getD []).foldl setIoVariable Table.empty) := by
      rw [h.ioVariableCodec rfl]
      exact .pure _
    exact hnone.map _

/-- Grouping by a key in which every element falls into one group loses nothing. -/
theorem flatMap_filter_perm {ι κ : Type} [DecidableEq κ] (key : ι → κ) (keys : List κ)
    (hkeys : keys.Nodup) (l : List ι) :
    (keys.flatMap fun k => l.filter fun x => key x = k).Perm (l.filter fun x => key x ∈ keys) := by
  induction keys with
  | nil => simp
  | cons k keys ih =>
    obtain ⟨hk, hkeys⟩ := List.nodup_cons.mp hkeys
    have hsame : (l.filter fun x => key x ∈ k :: keys).filter (fun x => key x = k) =
        l.filter fun x => key x = k := by
      rw [List.filter_filter]
      refine List.filter_congr fun x _ => ?_
      by_cases hx : key x = k <;> simp [hx]
    have hother : (l.filter fun x => key x ∈ k :: keys).filter (fun x => !decide (key x = k)) =
        l.filter fun x => key x ∈ keys := by
      rw [List.filter_filter]
      refine List.filter_congr fun x _ => ?_
      by_cases hx : key x = k
      · simp [hx, hk]
      · simp [hx]
    have hsplit := List.filter_append_perm (fun x => decide (key x = k))
      (l.filter fun x => key x ∈ k :: keys)
    rw [hsame, hother] at hsplit
    exact ((ih hkeys).append_left _).trans hsplit

theorem ioGroups_perm (io : List EncodableIo) : (IoWidth.all.flatMap (ioGroup io)).Perm io := by
  have hall : io.filter (fun element => element.widthBytes ∈ IoWidth.all) = io := by
    refine List.filter_eq_self.mpr fun element _ => ?_
    cases element.widthBytes <;> rfl
  have := flatMap_filter_perm EncodableIo.widthBytes IoWidth.all (by decide) io
  rwa [hall] at this

/-- Distinct integers that are no negative numbers are distinct naturals. -/
theorem nodup_toNat {ι : Type} {key : ι → ℤ} {l : List ι} (hl : (l.map key).Nodup)
    (hkey : ∀ x ∈ l, 0 ≤ key x) : (l.map fun x => (key x).toNat).Nodup := by
  have : (l.map fun x => (key x).toNat) = (l.map key).map Int.toNat := by simp
  rw [this]
  refine hl.map_on ?_
  intro a ha c hc h
  obtain ⟨x, hx, rfl⟩ := List.mem_map.mp ha
  obtain ⟨y, hy, rfl⟩ := List.mem_map.mp hc
  have := hkey x hx
  have := hkey y hy
  omega

/-- The entries of the decoded map are the encoded elements, group by group. -/
theorem rows_decodedIo {extended : Bool} {io : List EncodableIo}
    (h : ∀ element ∈ io, element.Fits extended) (hids : (io.map EncodableIo.id).Nodup) :
    (IoWidth.all.foldl (fun m widthBytes => (ioGroup io widthBytes).foldl setIo m)
      Table.empty).rows =
      (IoWidth.all.flatMap (ioGroup io)).map fun element =>
        (element.id.toNat, element.value.toNat) := by
  have hnodup : ((IoWidth.all.flatMap (ioGroup io)).map fun element => element.id.toNat).Nodup := by
    rw [((ioGroups_perm io).map _).nodup_iff]
    exact nodup_toNat hids fun element helement => (h element helement).id.1
  rw [← List.foldl_flatMap]
  exact JsMap.rows_foldl_set (m := Table.empty) (by simpa [Table.empty] using hnodup)

theorem rows_decodedIoVariable {ioVariable : List EncodableIoVariable}
    (h : ∀ element ∈ ioVariable, element.Fits)
    (hids : (ioVariable.map EncodableIoVariable.id).Nodup) :
    (ioVariable.foldl setIoVariable Table.empty).rows =
      ioVariable.map fun element => (element.id.toNat, element.value) := by
  have hnodup := nodup_toNat hids fun element helement => (h element helement).id.1
  exact JsMap.rows_foldl_set (m := Table.empty) (by simpa [Table.empty] using hnodup)

theorem decoded_decodedRecord {extended : Bool} {record : EncodableRecord}
    (h : record.Fits extended) : record.Decoded (decodedRecord record) where
  timestampMs := Int.toNat_of_nonneg h.timestampMs.1
  priority := Int.toNat_of_nonneg h.priority.1
  longitude := rfl
  latitude := rfl
  altitudeM := rfl
  angleDeg := Int.toNat_of_nonneg h.gps.angleDeg.1
  satellites := Int.toNat_of_nonneg h.gps.satellites.1
  speedKph := Int.toNat_of_nonneg h.gps.speedKph.1
  valid := by simp [decodedRecord, decodedGps]
  eventIoId := Int.toNat_of_nonneg h.eventIoId.1
  io := by
    rw [decodedRecord, rows_decodedIo h.io h.ioIds, List.map_map]
    refine ((ioGroups_perm _).map _).trans (List.Perm.of_eq (List.map_congr_left ?_))
    intro element helement
    have hfits := h.io element helement
    simp [Int.toNat_of_nonneg hfits.id.1, Int.toNat_of_nonneg hfits.value.1]
  ioVariable := by
    rw [decodedRecord, rows_decodedIoVariable h.ioVariable h.ioVariableIds, List.map_map]
    refine List.map_congr_left fun element helement => ?_
    simp [Int.toNat_of_nonneg (h.ioVariable element helement).id.1]

/-! ## Frames -/

theorem toCodecId_codecByte (codec : CodecId) : toCodecId (codecByte codec) = .ok codec := by
  cases codec <;> rfl

theorem reads_toCodecId (codec : CodecId) :
    Reads (toCodecId (codecByte codec) : Except TeltonikaParseError CodecId) [] codec := by
  intro before after
  rw [toCodecId_codecByte, List.append_nil]
  rfl

theorem reads_dataField {codec : CodecId} {records : List EncodableRecord}
    (hlength : records.length ≤ 255) (h : ∀ record ∈ records, record.Fits codec.extended) :
    Reads readDataField (dataFieldBytes codec records)
      (.crcOk codec (records.map decodedRecord)) := by
  have hcodec : codecByte codec < 256 := by cases codec <;> decide
  unfold readDataField dataFieldBytes
  simp only [List.append_assoc]
  refine (reads_unsigned hcodec _).bind ?_
  rw [← List.nil_append (BigEndian.encode 1 records.length ++ _)]
  refine (reads_toCodecId codec).bind ?_
  refine (reads_unsigned (by omega) _).bind ?_
  have hrecords : ∀ record ∈ records, ∀ decoded : List AvlRecord,
      Reads (do return decoded ++ [← readRecord codec.extended]) (recordBytes codec.extended record)
        (decoded ++ [decodedRecord record]) :=
    fun record hrecord decoded => (reads_record (h record hrecord)).map _
  have hmap : records.foldl (fun decoded record => decoded ++ [decodedRecord record]) [] =
      records.map decodedRecord := by
    rw [List.foldl_append_eq_append, ← List.flatMap_def, ← List.map_eq_flatMap, List.nil_append]
  rw [← hmap]
  refine (Reader.Reads.forTimes records hrecords []).bind ?_
  rw [← List.append_nil (BigEndian.encode 1 records.length)]
  refine (reads_unsigned (by omega) _).bind ?_
  simp only [ne_eq, not_true_eq_false, if_false]
  exact .pure _

theorem reads_readHeader {dataLength : ℕ} (h : dataLength < 2 ^ 32) :
    Reads readHeader (BigEndian.encode 4 0 ++ BigEndian.encode 4 dataLength) dataLength := by
  unfold readHeader
  refine (reads_unsigned (by decide) _).bind ?_
  simp only [ne_eq, not_true_eq_false, if_false]
  exact reads_unsigned h _

/-- The frame of a data field: zero preamble, length, data field, checksum. -/
def frameBytes (dataField : Bytes) : Bytes :=
  BigEndian.encode 4 0 ++ BigEndian.encode 4 dataField.length ++ dataField ++
    BigEndian.encode 4 (crc16ibm dataField)

/-- The parser on a frame: it looks at the data field if the checksum is right. -/
theorem parseAvlPacket_frame {dataField : Bytes} {declaredCrc : ℕ}
    (hlength : dataField.length < 2 ^ 32) (hdeclared : declaredCrc < 2 ^ 32) :
    parseAvlPacket (BigEndian.encode 4 0 ++ BigEndian.encode 4 dataField.length ++ dataField ++
        BigEndian.encode 4 declaredCrc) =
      if declaredCrc ≠ crc16ibm dataField then
        .ok (.crcFailed declaredCrc (crc16ibm dataField))
      else (readDataField.run (ofBuffer dataField)).map Prod.fst := by
  set header := BigEndian.encode 4 0 ++ BigEndian.encode 4 dataField.length with hheader
  set crc := BigEndian.encode 4 declaredCrc with hcrc
  have hheaderLength : header.length = 8 := by simp [hheader]
  have hcrcLength : crc.length = 4 := by simp [hcrc]
  have hread : readHeader.run (ofBuffer (header ++ dataField ++ crc)) =
      .ok (dataField.length, between header (dataField ++ crc)) := by
    rw [List.append_assoc]
    exact reads_readHeader hlength [] (dataField ++ crc)
  have hfits : ¬ (header ++ dataField ++ crc).length <
      header.length + dataField.length + FRAME_CRC_BYTES := by
    simp only [List.length_append, hcrcLength, FRAME_CRC_BYTES]
    omega
  have hdata : ((header ++ dataField ++ crc).drop header.length).take dataField.length =
      dataField := by
    simp
  have hfound : readUInt32BE (header ++ dataField ++ crc) (header.length + dataField.length) =
      declaredCrc := by
    rw [readUInt32BE, ← List.length_append, List.drop_left, ← hcrcLength, List.take_length, hcrc,
      BigEndian.decode_encode hdeclared]
  unfold parseAvlPacket
  rw [hread, ok_bind]
  simp only [between, hdata, hfound]
  rw [if_neg hfits]
  by_cases hright : declaredCrc ≠ crc16ibm dataField
  · rw [if_pos hright, if_pos hright]
    rfl
  · rw [if_neg hright, if_neg hright]
    cases readDataField.run (ofBuffer dataField) <;> rfl

/-- The parser on a frame with a right checksum: it returns what it reads in the data field. -/
theorem parseAvlPacket_frameBytes {dataField : Bytes} (hlength : dataField.length < 2 ^ 32) :
    parseAvlPacket (frameBytes dataField) =
      (readDataField.run (ofBuffer dataField)).map Prod.fst := by
  rw [frameBytes, parseAvlPacket_frame hlength ((crc16ibm_lt dataField).trans (by decide)),
    if_neg (not_not_intro rfl)]

/-- The parser on the frame of some encoded records. -/
theorem parse_dataFieldBytes {codec : CodecId} {records : List EncodableRecord}
    (hlength : records.length ≤ 255) (h : ∀ record ∈ records, record.Fits codec.extended)
    (hsize : (dataFieldBytes codec records).length < 2 ^ 32) :
    parseAvlPacket (frameBytes (dataFieldBytes codec records)) =
      .ok (.crcOk codec (records.map decodedRecord)) := by
  have hread := reads_dataField hlength h [] []
  rw [List.append_nil, between_nil] at hread
  rw [parseAvlPacket_frameBytes hsize, hread]
  rfl

/-- The parser returns the records that were encoded, in their order. -/
theorem parse_encode (codec : CodecId) (records : List EncodableRecord)
    (hlength : records.length ≤ 255) (h : ∀ record ∈ records, record.Fits codec.extended)
    (hsize : (dataFieldBytes codec records).length < 2 ^ 32) :
    ∃ frame decoded, encodeAvlFrame records (.ofCodec codec) = .ok frame ∧
      parseAvlPacket frame = .ok (.crcOk codec decoded) ∧
      List.Forall₂ EncodableRecord.Decoded records decoded := by
  refine ⟨_, records.map decodedRecord, ?_, parse_dataFieldBytes hlength h hsize,
    List.forall₂_map_right_iff.mpr (List.forall₂_same.mpr fun record hrecord =>
      decoded_decodedRecord (h record hrecord))⟩
  rw [encodeAvlFrame_eq hlength h, writeUInt_of_fits (fitsUInt_natCast.mpr hsize), ok_bind,
    Int.toNat_natCast]
  rfl

/-- One element of every width and one of variable length. -/
def sampleRecord : EncodableRecord :=
  ⟨1700000000000, some 1, some ⟨546872740, 252796510, -12, 214, 7, 60⟩, some 239,
    some [⟨239, 1, .one⟩, ⟨16, 4294967295, .four⟩, ⟨66, 12540, .two⟩, ⟨78, 2 ^ 64 - 1, .eight⟩],
    some [⟨256, [1, 2, 3]⟩]⟩

theorem parse_encode_sample : ∃ frame decoded,
    encodeAvlFrame [sampleRecord, ⟨0, none, none, none, none, none⟩] (.ofCodec .codec8e) =
      .ok frame ∧
    parseAvlPacket frame = .ok (.crcOk .codec8e decoded) ∧
    List.Forall₂ EncodableRecord.Decoded [sampleRecord, ⟨0, none, none, none, none, none⟩]
      decoded := by
  refine parse_encode .codec8e _ (by decide) ?_ (by decide)
  simp only [List.forall_mem_cons, List.not_mem_nil, false_imp_iff, implies_true, and_true]
  constructor
  · constructor <;> decide
  · constructor <;> decide

/-! ## Data fields that are too long -/

/-- A data field whose length does not fit its field makes the encoder throw. -/
theorem encode_throws_too_long {codec : CodecId} {records : List EncodableRecord}
    (hlength : records.length ≤ 255) (h : ∀ record ∈ records, record.Fits codec.extended)
    (hsize : 2 ^ 32 ≤ (dataFieldBytes codec records).length) :
    encodeAvlFrame records (.ofCodec codec) =
      .error ⟨(dataFieldBytes codec records).length, 0, 2 ^ 32 - 1⟩ := by
  have hwrite : writeUInt 4 (dataFieldBytes codec records).length =
      .error ⟨(dataFieldBytes codec records).length, 0, 2 ^ 32 - 1⟩ := by
    refine (if_neg fun hfits => ?_).trans rfl
    have := fitsUInt_natCast.mp hfits
    omega
  rw [encodeAvlFrame_eq hlength h, hwrite]
  rfl

/-- An element of `size` bytes. -/
def longElement (size id : ℕ) : EncodableIoVariable := ⟨id, List.replicate size 0⟩

/-- A record of `count` variable elements of `size` bytes each. -/
def longRecord (count size : ℕ) : EncodableRecord where
  timestampMs := 0
  priority := none
  gps := none
  eventIoId := none
  io := none
  ioVariable := some ((List.range count).map (longElement size))

theorem longRecord_fits {count size : ℕ} (hcount : count < 2 ^ 16) (hsize : size < 2 ^ 16) :
    (longRecord count size).Fits true where
  timestampMs := ⟨le_refl (0 : ℤ), (by decide : (0 : ℤ) < 2 ^ 53)⟩
  priority := (by decide : FitsUInt 1 0)
  gps := (by decide : noFix.Fits)
  eventIoId := (by decide : FitsUInt 2 0)
  io := by simp [longRecord]
  ioIds := by simp [longRecord]
  ioVariable element helement := by
    obtain ⟨id, hid, rfl⟩ := List.mem_map.mp helement
    have hid : id < count := List.mem_range.mp hid
    have hlength : (longElement size id).value.length = size := List.length_replicate
    exact ⟨fitsUInt_natCast.mpr (by omega), fitsUInt_natCast.mpr (by omega)⟩
  ioVariableIds := by
    simp only [longRecord, Option.getD_some, List.map_map]
    exact List.nodup_range.map fun _ _ h => Int.natCast_inj.mp h
  ioVariableCodec h := by cases h
  count := by
    have hlength : ((longRecord count size).ioVariable.getD []).length = count := by
      simp [longRecord]
    refine fitsUInt_natCast.mpr ?_
    rw [hlength]
    simpa [longRecord, idBytes] using hcount

theorem length_longRecord (count size : ℕ) :
    count * (4 + size) ≤ (dataFieldBytes .codec8e [longRecord count size]).length := by
  have helement : ∀ id, (ioVariableBytes (longElement size id)).length = 4 + size := by
    intro id
    simp only [ioVariableBytes, longElement, List.length_append, BigEndian.length_encode,
      List.length_replicate]
  have helements : (((List.range count).map (longElement size)).flatMap ioVariableBytes).length =
      count * (4 + size) := by
    simp [List.length_flatMap, Function.comp_def, helement]
  have hvariable : (longRecord count size).ioVariable.getD [] =
      (List.range count).map (longElement size) := rfl
  simp only [dataFieldBytes, List.flatMap_cons, List.flatMap_nil, List.length_append, recordBytes,
    CodecId.extended, if_true, ioVariableGroupBytes, hvariable, helements]
  omega

/-- A record that fits, but whose data field is longer than 4 bytes can say. -/
theorem encode_throws : ¬ ∀ (codec : CodecId) (records : List EncodableRecord),
    records.length ≤ 255 → (∀ record ∈ records, record.Fits codec.extended) →
      ∃ frame, encodeAvlFrame records (.ofCodec codec) = .ok frame := by
  intro hclaim
  have hfits : ∀ record ∈ [longRecord 65535 65535], record.Fits CodecId.codec8e.extended := by
    intro record hrecord
    obtain rfl := List.mem_singleton.mp hrecord
    exact longRecord_fits (by norm_num) (by norm_num)
  obtain ⟨frame, hframe⟩ := hclaim .codec8e [longRecord 65535 65535] (by simp) hfits
  have hlong := length_longRecord 65535 65535
  rw [encode_throws_too_long (by simp) hfits (by omega)] at hframe
  cases hframe

end BankPlatform.Teltonika
