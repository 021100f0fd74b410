import BankPlatform.Library.Recognizer
import BankPlatform.Teltonika.RoundTrip

/-!
# The grammar of data fields

The layout of a data field as a language over bytes, written down without the parser: a codec id, a
count, that many records, and the count again. The total of the IO elements that every record
announces may be any number.

## Main definitions

* `recordWords` — the layouts of one record, `dataFieldWords` — of a whole data field.
* `frame` — the frame that carries a data field with its checksum.

## Main results

* `accepts_readRecord`, `accepts_readDataField` — the parser recognizes the grammar.
* `parse_frame_iff` — which frames are parsed: the bytes behind a data field are not looked at.
-/

namespace BankPlatform.Teltonika

open Library Cursor

/-! ## Words -/

/-- A field of some width. -/
def fieldWords (width : ℕ) : Language UInt8 := {xs | xs.length = width}

/-- The number `n` in some width. -/
def numberWords (width n : ℕ) : Language UInt8 :=
  {xs | xs.length = width ∧ BigEndian.decode xs = n}

/-- A count of some width and that many items. -/
def countedWords (width : ℕ) (item : Language UInt8) : Language UInt8 :=
  Reader.anyOf fun count => numberWords width count * item ^ count

def gpsWords : Language UInt8 :=
  fieldWords 4 * (fieldWords 4 * (fieldWords 2 * (fieldWords 2 * (fieldWords 1 * fieldWords 2))))

/-- The IO elements of one width class. -/
def ioGroupWords (extended : Bool) (widthBytes : IoWidth) : Language UInt8 :=
  countedWords (idBytes extended) (fieldWords (idBytes extended) * fieldWords widthBytes.bytes)

/-- A variable-length IO element: an id, a length and that many bytes. -/
def ioVariableWords : Language UInt8 :=
  fieldWords 2 * Reader.anyOf fun length => numberWords 2 length * fieldWords length

/-- A record: timestamp, priority, position, event id, total, the width classes and, in Codec 8E,
the elements of variable length. -/
def recordWords (extended : Bool) : Language UInt8 :=
  fieldWords 8 * (fieldWords 1 * (gpsWords * (fieldWords (idBytes extended) *
    (fieldWords (idBytes extended) * ((IoWidth.all.map (ioGroupWords extended)).prod *
      if extended then countedWords 2 ioVariableWords else 1)))))

/-- A count, that many records and the count again. -/
def recordsWords (codec : CodecId) : Language UInt8 :=
  Reader.anyOf fun count =>
    numberWords 1 count * (recordWords codec.extended ^ count * numberWords 1 count)

/-- A data field: the codec id and the records. -/
def dataFieldWords (codec : CodecId) : Language UInt8 :=
  numberWords 1 (codecByte codec) * recordsWords codec

/-! ## The encoder writes words -/

theorem encode_mem_fieldWords (width n : ℕ) : BigEndian.encode width n ∈ fieldWords width :=
  BigEndian.length_encode width n

theorem encode_mem_numberWords {width n : ℕ} (h : n < 256 ^ width) :
    BigEndian.encode width n ∈ numberWords width n :=
  ⟨BigEndian.length_encode width n, BigEndian.decode_encode h⟩

theorem flatMap_mem_pow {ι : Type} {L : Language UInt8} {f : ι → Bytes} {l : List ι}
    (h : ∀ x ∈ l, f x ∈ L) : l.flatMap f ∈ L ^ l.length := by
  induction l with
  | nil => exact Language.nil_mem_one
  | cons x l ih =>
    rw [List.flatMap_cons, List.length_cons, pow_succ']
    exact Language.append_mem_mul (h x List.mem_cons_self)
      (ih fun y hy => h y (List.mem_cons_of_mem _ hy))

theorem flatMap_mem_prod {ι : Type} {L : ι → Language UInt8} {f : ι → Bytes} {l : List ι}
    (h : ∀ x ∈ l, f x ∈ L x) : l.flatMap f ∈ (l.map L).prod := by
  induction l with
  | nil => exact Language.nil_mem_one
  | cons x l ih =>
    rw [List.flatMap_cons, List.map_cons, List.prod_cons]
    exact Language.append_mem_mul (h x List.mem_cons_self)
      (ih fun y hy => h y (List.mem_cons_of_mem _ hy))

/-- A count and as many items. -/
theorem counted_mem {ι : Type} {width : ℕ} {item : Language UInt8} {f : ι → Bytes} {l : List ι}
    (hlength : l.length < 256 ^ width) (h : ∀ x ∈ l, f x ∈ item) :
    BigEndian.encode width l.length ++ l.flatMap f ∈ countedWords width item :=
  Reader.mem_anyOf.mpr
    ⟨l.length, Language.append_mem_mul (encode_mem_numberWords hlength) (flatMap_mem_pow h)⟩

theorem gpsBytes_mem (gps : EncodableGps) : gpsBytes gps ∈ gpsWords := by
  simp only [gpsBytes, List.append_assoc]
  have hfield : ∀ width n, BigEndian.encode width n ∈ fieldWords width := encode_mem_fieldWords
  have hsigned : ∀ width z, BigEndian.encodeSigned width z ∈ fieldWords width := fun width z =>
    BigEndian.length_encodeSigned width z
  exact Language.append_mem_mul (hsigned 4 _) (Language.append_mem_mul (hsigned 4 _)
    (Language.append_mem_mul (hsigned 2 _) (Language.append_mem_mul (hfield 2 _)
      (Language.append_mem_mul (hfield 1 _) (hfield 2 _)))))

theorem ioVariableBytes_mem {element : EncodableIoVariable} (h : element.Fits) :
    ioVariableBytes element ∈ ioVariableWords := by
  have hvalue : element.value ∈ fieldWords element.value.length := rfl
  rw [ioVariableBytes, List.append_assoc]
  exact Language.append_mem_mul (encode_mem_fieldWords 2 _) (Reader.mem_anyOf.mpr
    ⟨_, Language.append_mem_mul (encode_mem_numberWords (fitsUInt_natCast.mp h.length)) hvalue⟩)

theorem recordBytes_mem {extended : Bool} {record : EncodableRecord} (h : record.Fits extended) :
    recordBytes extended record ∈ recordWords extended := by
  have hgroups : IoWidth.all.flatMap (ioGroupBytes extended (record.io.getD [])) ∈
      (IoWidth.all.map (ioGroupWords extended)).prod := by
    refine flatMap_mem_prod fun widthBytes _ =>
      counted_mem (fitsUInt_natCast.mp (h.group widthBytes)) fun element hmem => ?_
    obtain rfl : element.widthBytes = widthBytes := by simpa using (List.mem_filter.mp hmem).2
    exact Language.append_mem_mul (encode_mem_fieldWords _ _) (encode_mem_fieldWords _ _)
  have hvariable : (if extended then ioVariableGroupBytes (record.ioVariable.getD []) else []) ∈
      if extended then countedWords 2 ioVariableWords else 1 := by
    cases extended with
    | true =>
      exact counted_mem (fitsUInt_natCast.mp h.variableCount) fun element hmem =>
        ioVariableBytes_mem (h.ioVariable element hmem)
    | false => exact Language.nil_mem_one
  simp only [recordBytes, List.append_assoc]
  have hfield : ∀ width n, BigEndian.encode width n ∈ fieldWords width := encode_mem_fieldWords
  exact Language.append_mem_mul (hfield 8 _) (Language.append_mem_mul (hfield 1 _)
    (Language.append_mem_mul (gpsBytes_mem _) (Language.append_mem_mul (hfield _ _)
      (Language.append_mem_mul (hfield _ _) (Language.append_mem_mul hgroups hvariable)))))

/-- What the encoder writes is in the grammar. -/
theorem dataFieldBytes_mem {codec : CodecId} {records : List EncodableRecord}
    (hlength : records.length ≤ 255) (h : ∀ record ∈ records, record.Fits codec.extended) :
    dataFieldBytes codec records ∈ dataFieldWords codec := by
  have hcount : BigEndian.encode 1 records.length ∈ numberWords 1 records.length :=
    encode_mem_numberWords (by omega)
  have hcodec : BigEndian.encode 1 (codecByte codec) ∈ numberWords 1 (codecByte codec) :=
    encode_mem_numberWords (by cases codec <;> decide)
  simp only [dataFieldBytes, List.append_assoc]
  refine Language.append_mem_mul hcodec (Reader.mem_anyOf.mpr ⟨records.length, ?_⟩)
  exact Language.append_mem_mul hcount (Language.append_mem_mul
    (flatMap_mem_pow fun record hrecord => recordBytes_mem (h record hrecord)) hcount)

/-! ## Fields -/

theorem parses_bytes (length : ℕ) (field : String) :
    Reader.Parses between (bytes length field) fun ys => {xs | xs.length = length ∧ xs = ys} where
  sound before rest ys s h := by
    by_cases hshort : rest.length < length
    · have hremaining : (between before rest).remaining < length := by
        simpa [remaining, between] using hshort
      have herror : (take length field).run (between before rest) = _ := dif_pos hremaining
      obtain ⟨a, t, ha, _⟩ := Reader.run_bind_eq_ok.mp h
      rw [herror] at ha
      cases ha
    · have hlength : (rest.take length).length = length := by
        rw [List.length_take]
        omega
      have hread := reads_bytes (rest.take length) field before (rest.drop length)
      rw [hlength, List.take_append_drop] at hread
      rw [hread] at h
      cases h
      exact ⟨rest.take length, ⟨hlength, rfl⟩, rest.drop length,
        (List.take_append_drop length rest).symm, rfl⟩
  complete ys xs hxs := by
    obtain ⟨rfl, rfl⟩ := hxs
    exact reads_bytes xs field

theorem parses_unsigned (width : ℕ) (field : String) :
    Reader.Parses between (unsigned width field) (numberWords width) where
  sound before rest n s h := by
    obtain ⟨ys, t, hys, hn⟩ := Reader.run_bind_eq_ok.mp h
    obtain ⟨xs, ⟨hlength, rfl⟩, after, rfl, rfl⟩ := (parses_bytes width field).sound _ _ _ _ hys
    cases hn
    exact ⟨xs, ⟨hlength, rfl⟩, after, rfl, rfl⟩
  complete n xs hxs := by
    obtain ⟨rfl, rfl⟩ := hxs
    exact (reads_bytes xs field).map BigEndian.decode

theorem accepts_bytes (length : ℕ) (field : String) :
    Reader.Accepts between (bytes length field) (fieldWords length) where
  sound before rest ys s h := by
    obtain ⟨xs, hxs, after, hrest, hs⟩ := (parses_bytes length field).sound _ _ _ _ h
    exact ⟨xs, hxs.1, after, hrest, hs⟩
  complete xs hxs := ⟨xs, (parses_bytes length field).complete xs xs ⟨hxs, rfl⟩⟩

theorem accepts_unsigned (width : ℕ) (field : String) :
    Reader.Accepts between (unsigned width field) (fieldWords width) :=
  (accepts_bytes width field).map _

theorem accepts_signed (width : ℕ) (field : String) :
    Reader.Accepts between (signed width field) (fieldWords width) :=
  (accepts_bytes width field).map _

theorem accepts_ioValue (widthBytes : IoWidth) :
    Reader.Accepts between (readIoValue widthBytes) (fieldWords widthBytes.bytes) := by
  cases widthBytes <;> exact accepts_unsigned _ _

theorem accepts_readId (extended : Bool) (field : String) :
    Reader.Accepts between (readId extended field) (fieldWords (idBytes extended)) := by
  cases extended <;> exact accepts_unsigned _ _

theorem accepts_readCount (extended : Bool) (field : String) :
    Reader.Accepts between (readCount extended field) (fieldWords (idBytes extended)) := by
  cases extended <;> exact accepts_unsigned _ _

theorem parses_readCount (extended : Bool) (field : String) :
    Reader.Parses between (readCount extended field) (numberWords (idBytes extended)) := by
  cases extended <;> exact parses_unsigned _ _

/-! ## Records -/

theorem accepts_readGps : Reader.Accepts between readGps gpsWords :=
  (accepts_signed 4 _).bind fun _ => (accepts_signed 4 _).bind fun _ =>
    (accepts_signed 2 _).bind fun _ => (accepts_unsigned 2 _).bind fun _ =>
      (accepts_unsigned 1 _).bind fun _ => (accepts_unsigned 2 _).map _

theorem accepts_readIoGroup (extended : Bool) (widthBytes : IoWidth) (io : JsMap ℕ ℕ) :
    Reader.Accepts between (readIoGroup extended widthBytes io)
      (ioGroupWords extended widthBytes) :=
  (parses_readCount extended _).bind fun count => Reader.Accepts.forTimes (fun _ =>
    (accepts_readId extended _).bind fun _ => (accepts_ioValue widthBytes).map _) count io

theorem accepts_readIoVariable :
    Reader.Accepts between readIoVariable (countedWords 2 ioVariableWords) :=
  (parses_readCount true _).bind fun count => Reader.Accepts.forTimes (fun _ =>
    (accepts_unsigned 2 _).bind fun _ => (parses_unsigned 2 _).bind fun length =>
      (accepts_bytes length _).map _) count _

theorem accepts_readRecord (extended : Bool) :
    Reader.Accepts between (readRecord extended) (recordWords extended) := by
  refine (accepts_unsigned 8 _).bind fun _ => (accepts_unsigned 1 _).bind fun _ =>
    accepts_readGps.bind fun _ => (accepts_readId extended _).bind fun _ =>
      (accepts_readCount extended _).bind fun _ =>
        (Reader.Accepts.foldlM (fun io widthBytes => accepts_readIoGroup extended widthBytes io)
          _ _).bind fun _ => ?_
  cases extended with
  | true => exact accepts_readIoVariable.map _
  | false => exact (Reader.Accepts.pure Table.empty).map _

/-! ## Data fields -/

/-- The reader of a data field behind the codec id. -/
def readRecords (codec : CodecId) : Read AvlPacket := do
  let declaredCount ← u8 "record count"
  let records ← Reader.forTimes (fun records => do
    return records ++ [← readRecord codec.extended]) declaredCount []
  let trailingCount ← u8 "trailing record count"
  if trailingCount ≠ declaredCount then
    throw ⟨"record count mismatch: header says " ++ toString declaredCount ++ ", trailer says " ++
      toString trailingCount⟩
  return .crcOk codec records

theorem readDataField_eq :
    readDataField = u8 "codec id" >>= fun byte => liftM (toCodecId byte) >>= readRecords := rfl

theorem accepts_readRecords (codec : CodecId) :
    Reader.Accepts between (readRecords codec) (recordsWords codec) := by
  refine (parses_unsigned 1 _).bind fun count => ?_
  refine (Reader.Accepts.forTimes (fun records => (accepts_readRecord _).map _) count []).bind
    fun records => ?_
  have hcheck := (parses_unsigned 1 "trailing record count").check (M := 1)
    (f := fun trailingCount => do
      if trailingCount ≠ count then
        throw (⟨"record count mismatch: header says " ++ toString count ++ ", trailer says " ++
          toString trailingCount⟩ : TeltonikaParseError)
      return AvlPacket.crcOk codec records) count ?_ ?_
  · rwa [mul_one] at hcheck
  · simp only [ne_eq, not_true_eq_false, if_false]
    exact .pure _
  · intro trailingCount hne
    simp only [ne_eq, hne, not_false_eq_true, if_true]
    exact .throw _

theorem ensures_readRecords (codec : CodecId) :
    Reader.Ensures (readRecords codec) fun packet => ∃ records, packet = .crcOk codec records := by
  refine Reader.Ensures.bind (P := fun _ => True) (fun _ _ _ _ => trivial) fun count _ => ?_
  refine Reader.Ensures.bind (P := fun _ => True) (fun _ _ _ _ => trivial) fun records _ => ?_
  refine Reader.Ensures.bind (P := fun _ => True) (fun _ _ _ _ => trivial) fun trailing _ => ?_
  by_cases h : trailing = count
  · simp only [ne_eq, h, not_true_eq_false, if_false]
    exact .pure ⟨records, rfl⟩
  · simp only [ne_eq, h, not_false_eq_true, if_true]
    intro s packet s' hthrow
    cases hthrow

theorem toCodecId_eq_ok {byte : ℕ} {codec : CodecId} :
    toCodecId byte = .ok codec ↔ byte = codecByte codec := by
  constructor
  · intro h
    unfold toCodecId at h
    split at h
    · next hbyte =>
      cases h
      exact hbyte
    · split at h
      · next hbyte =>
        cases h
        exact hbyte
      · cases h
  · rintro rfl
    exact toCodecId_codecByte codec

/-- The reader of a data field returns records of a codec exactly on the data fields that begin
with a word of its grammar. -/
theorem readDataField_eq_ok (data : Bytes) (codec : CodecId) :
    (∃ records s, readDataField.run (ofBuffer data) = .ok (.crcOk codec records, s)) ↔
      ∃ xs ∈ dataFieldWords codec, xs <+: data := by
  rw [readDataField_eq, ← between_nil]
  constructor
  · rintro ⟨records, s, h⟩
    obtain ⟨byte, t, hbyte, h⟩ := Reader.run_bind_eq_ok.mp h
    obtain ⟨codec', t', hcodec, h⟩ := Reader.run_bind_eq_ok.mp h
    obtain ⟨xs, hxs, after, rfl, rfl⟩ := (parses_unsigned 1 _).sound _ _ _ _ hbyte
    cases hto : toCodecId byte with
    | error err =>
      rw [hto] at hcodec
      cases hcodec
    | ok codec'' =>
      rw [hto] at hcodec
      cases hcodec
      obtain ⟨records', hpacket⟩ := ensures_readRecords _ _ _ _ h
      cases hpacket
      obtain ⟨ys, hys, rest, rfl, _⟩ := (accepts_readRecords codec).sound _ _ _ _ h
      rw [toCodecId_eq_ok.mp hto] at hxs
      exact ⟨xs ++ ys, Language.append_mem_mul hxs hys, rest, by simp⟩
  · rintro ⟨zs, hzs, rest, rfl⟩
    obtain ⟨xs, hxs, ys, hys, rfl⟩ := Language.mem_mul.mp hzs
    obtain ⟨packet, hpacket⟩ := (accepts_readRecords codec).complete ys hys
    obtain ⟨records, rfl⟩ := ensures_readRecords codec _ _ _ (hpacket [] [])
    have hcodec := (reads_toCodecId codec).bind (f := readRecords) hpacket
    rw [List.nil_append] at hcodec
    have hread := ((parses_unsigned 1 "codec id").complete _ xs hxs).bind
      (f := fun byte => liftM (toCodecId byte) >>= readRecords) hcodec
    exact ⟨records, _, hread [] rest⟩

theorem ensures_readDataField :
    Reader.Ensures readDataField fun packet => ∃ codec records, packet = .crcOk codec records := by
  rw [readDataField_eq]
  refine Reader.Ensures.bind (P := fun _ => True) (fun _ _ _ _ => trivial) fun byte _ => ?_
  refine Reader.Ensures.bind (P := fun _ => True) (fun _ _ _ _ => trivial) fun codec _ => ?_
  exact fun s packet s' h => ⟨codec, ensures_readRecords codec s packet s' h⟩

/-! ## Frames -/

/-- A frame with a right checksum is parsed exactly when its data field begins with a word of the
grammar: the bytes behind the trailing count are not looked at. Otherwise the parser throws. -/
theorem parse_frame_iff (data : Bytes) (h : data.length < 2 ^ 32) :
    (∀ codec, (∃ records, parseAvlPacket (frameBytes data) = .ok (.crcOk codec records)) ↔
      ∃ xs ∈ dataFieldWords codec, xs <+: data) ∧
    ((¬ ∃ codec, ∃ xs ∈ dataFieldWords codec, xs <+: data) →
      ∃ err, parseAvlPacket (frameBytes data) = .error err) := by
  rw [parseAvlPacket_frameBytes h]
  cases hread : readDataField.run (ofBuffer data) with
  | error err =>
    refine ⟨fun codec => ⟨?_, fun hwords => ?_⟩, fun _ => ⟨err, rfl⟩⟩
    · rintro ⟨records, hparse⟩
      cases hparse
    · obtain ⟨records, s, hok⟩ := (readDataField_eq_ok data codec).mpr hwords
      rw [hread] at hok
      cases hok
  | ok r =>
    obtain ⟨packet, s⟩ := r
    obtain ⟨codec, records, rfl⟩ := ensures_readDataField _ _ _ hread
    refine ⟨fun codec' => ⟨?_, fun hwords => ?_⟩, fun hnone => ?_⟩
    · rintro ⟨records', hparse⟩
      cases hparse
      exact (readDataField_eq_ok data codec).mp ⟨records, s, hread⟩
    · obtain ⟨records', s', hok⟩ := (readDataField_eq_ok data codec').mpr hwords
      rw [hread] at hok
      cases hok
      exact ⟨records, rfl⟩
    · exact (hnone ⟨codec, (readDataField_eq_ok data codec).mp ⟨records, s, hread⟩⟩).elim

/-- A record with elements of every width, and one byte behind the trailing count. -/
theorem parse_frame_leftover : ∃ records,
    parseAvlPacket (frameBytes (dataFieldBytes .codec8e [sampleRecord] ++ [255])) =
      .ok (.crcOk .codec8e records) := by
  have hfits : sampleRecord.Fits true := by constructor <;> decide
  have hword : dataFieldBytes .codec8e [sampleRecord] ∈ dataFieldWords .codec8e :=
    dataFieldBytes_mem (by decide) (List.forall_mem_singleton.mpr hfits)
  have hlength : (dataFieldBytes .codec8e [sampleRecord] ++ [255]).length < 2 ^ 32 := by decide
  exact ((parse_frame_iff _ hlength).1 .codec8e).mpr ⟨_, hword, [255], rfl⟩

/-- No record, and one byte behind the trailing count. -/
def leftoverData : Bytes := [8, 0, 0, 255]

theorem leftoverData_not_mem (codec : CodecId) : leftoverData ∉ dataFieldWords codec := by
  intro h
  obtain ⟨xs, ⟨hxs, _⟩, ys, hys, hsplit⟩ := Language.mem_mul.mp h
  obtain ⟨count, hcount⟩ := Reader.mem_anyOf.mp hys
  obtain ⟨us, ⟨hus, rfl⟩, vs, hvs, rfl⟩ := Language.mem_mul.mp hcount
  obtain ⟨x, rfl⟩ := List.length_eq_one_iff.mp hxs
  obtain ⟨u, rfl⟩ := List.length_eq_one_iff.mp hus
  simp only [leftoverData, List.cons_append, List.nil_append, List.cons.injEq] at hsplit
  obtain ⟨_, rfl, rfl⟩ := hsplit
  rw [show BigEndian.decode [0] = 0 from rfl, pow_zero, one_mul] at hvs
  exact absurd hvs.1 (by decide)

/-- The parser also accepts data fields that are longer than their word. -/
theorem parse_accepts_leftover : ¬ ∀ data : Bytes, data.length < 2 ^ 32 →
    ((∃ codec records, parseAvlPacket (frameBytes data) = .ok (.crcOk codec records)) ↔
      ∃ codec, data ∈ dataFieldWords codec) := by
  intro hclaim
  have hlength : leftoverData.length < 2 ^ 32 := by decide
  have hword : dataFieldBytes .codec8 [] ∈ dataFieldWords .codec8 :=
    dataFieldBytes_mem (by decide) (by simp)
  obtain ⟨records, s, hread⟩ :=
    (readDataField_eq_ok leftoverData .codec8).mpr ⟨_, hword, [255], rfl⟩
  have hparse : parseAvlPacket (frameBytes leftoverData) = .ok (.crcOk .codec8 records) := by
    rw [parseAvlPacket_frameBytes hlength, hread]
    rfl
  obtain ⟨codec, hmem⟩ := (hclaim leftoverData hlength).mp ⟨.codec8, records, hparse⟩
  exact leftoverData_not_mem codec hmem

end BankPlatform.Teltonika
