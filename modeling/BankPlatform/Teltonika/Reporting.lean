import BankPlatform.Teltonika.Handshake
import BankPlatform.Teltonika.RoundTrip
import BankPlatform.Teltonika.Stream

/-!
# What a device reports

The bytes that a device sends on one connection, as `packages/teltonika/src/testing.ts` builds them:
the frame of its IMEI and then the frames of its packets, of which some are damaged on the way. What
the framer makes of them does not depend on the chunks, and a damaged packet costs no other one.

## Main definitions

* `Transmission` — a packet that was encoded, and its data field and checksum as they arrive.
* `Transmission.Arrives` — the packet that should come out of the framer.

## Main results

* `push_transmission` — one frame, one packet, and the framer is where it was.
* `reports_arrive` — the round trip of everything a device sends on a connection.
-/

namespace BankPlatform.Teltonika

open Library

/-! ## Packets on their way -/

instance (extended : Bool) (record : EncodableRecord) : Decidable (record.Fits extended) :=
  decidable_of_iff
    ((0 ≤ record.timestampMs ∧ record.timestampMs < 2 ^ 53) ∧
      FitsUInt 1 (record.priority.getD 0) ∧ (record.gps.getD noFix).Fits ∧
      FitsUInt (idBytes extended) (record.eventIoId.getD 0) ∧
      (∀ element ∈ record.io.getD [], element.Fits extended) ∧
      ((record.io.getD []).map EncodableIo.id).Nodup ∧
      (∀ element ∈ record.ioVariable.getD [], element.Fits) ∧
      ((record.ioVariable.getD []).map EncodableIoVariable.id).Nodup ∧
      (extended = false → (record.ioVariable.getD []).length = 0) ∧
      FitsUInt (idBytes extended)
        ((record.io.getD []).length + (record.ioVariable.getD []).length : ℕ))
    ⟨fun ⟨h₁, h₂, h₃, h₄, h₅, h₆, h₇, h₈, h₉, h₁₀⟩ =>
        ⟨h₁, h₂, h₃, h₄, h₅, h₆, h₇, h₈, fun h => List.length_eq_zero_iff.mp (h₉ h), h₁₀⟩,
      fun ⟨h₁, h₂, h₃, h₄, h₅, h₆, h₇, h₈, h₉, h₁₀⟩ =>
        ⟨h₁, h₂, h₃, h₄, h₅, h₆, h₇, h₈, fun h => List.length_eq_zero_iff.mpr (h₉ h), h₁₀⟩⟩

/-- A packet that a device sends, with its data field and its checksum as they arrive. -/
structure Transmission where
  codec : CodecId
  records : List EncodableRecord
  dataField : Bytes
  crc : ℕ

namespace Transmission

/-- The frame as it arrives. -/
def bytes (t : Transmission) : Bytes :=
  BigEndian.encode 4 0 ++ BigEndian.encode 4 t.dataField.length ++ t.dataField ++
    BigEndian.encode 4 t.crc

/-- The data field and the checksum arrive as they were sent. -/
def Intact (t : Transmission) : Prop :=
  t.dataField = dataFieldBytes t.codec t.records ∧ t.crc = crc16ibm t.dataField

/-- The records can be encoded, no byte is lost, the frame is within the limit, and the checksum
notices the damage, if there is any. -/
structure Sound (limit : FrameLimit) (t : Transmission) : Prop where
  count : t.records.length ≤ 255
  records : ∀ record ∈ t.records, record.Fits t.codec.extended
  dataField : t.dataField.length = (dataFieldBytes t.codec t.records).length
  size : t.dataField.length < 2 ^ 32
  limit : limit.exceededBy t.bytes.length = false
  crc : t.crc < 2 ^ 32
  noticed : t.crc = crc16ibm t.dataField → t.dataField = dataFieldBytes t.codec t.records

instance (limit : FrameLimit) (t : Transmission) : Decidable (t.Sound limit) :=
  decidable_of_iff
    (t.records.length ≤ 255 ∧ (∀ record ∈ t.records, record.Fits t.codec.extended) ∧
      t.dataField.length = (dataFieldBytes t.codec t.records).length ∧
      t.dataField.length < 2 ^ 32 ∧ limit.exceededBy t.bytes.length = false ∧ t.crc < 2 ^ 32 ∧
      (t.crc = crc16ibm t.dataField → t.dataField = dataFieldBytes t.codec t.records))
    ⟨fun ⟨h₁, h₂, h₃, h₄, h₅, h₆, h₇⟩ => ⟨h₁, h₂, h₃, h₄, h₅, h₆, h₇⟩,
      fun ⟨h₁, h₂, h₃, h₄, h₅, h₆, h₇⟩ => ⟨h₁, h₂, h₃, h₄, h₅, h₆, h₇⟩⟩

/-- The packet that the framer emits. -/
def packet (t : Transmission) : AvlPacket :=
  if t.crc ≠ crc16ibm t.dataField then .crcFailed t.crc (crc16ibm t.dataField)
  else .crcOk t.codec (t.records.map decodedRecord)

/-- A packet is what should arrive: the records that were sent, or the two checksums of a damaged
frame. -/
def Arrives (t : Transmission) : AvlPacket → Prop
  | .crcOk codec records =>
    t.Intact ∧ codec = t.codec ∧ List.Forall₂ EncodableRecord.Decoded t.records records
  | .crcFailed declaredCrc computedCrc =>
    ¬ t.Intact ∧ declaredCrc = t.crc ∧ computedCrc = crc16ibm t.dataField ∧
      declaredCrc ≠ computedCrc

theorem length_bytes (t : Transmission) :
    t.bytes.length = FRAME_HEADER_BYTES + t.dataField.length + FRAME_CRC_BYTES := by
  simp only [bytes, List.length_append, BigEndian.length_encode, FRAME_HEADER_BYTES,
    FRAME_CRC_BYTES]

variable {limit : FrameLimit} {t : Transmission}

theorem Sound.intact_iff (h : t.Sound limit) : t.Intact ↔ t.crc = crc16ibm t.dataField :=
  ⟨fun hintact => hintact.2, fun hcrc => ⟨h.noticed hcrc, hcrc⟩⟩

theorem Sound.arrives (h : t.Sound limit) : t.Arrives t.packet := by
  unfold packet
  split
  · next hcrc => exact ⟨mt h.intact_iff.mp hcrc, rfl, rfl, hcrc⟩
  · next hcrc =>
    refine ⟨h.intact_iff.mpr (not_not.mp hcrc), rfl, ?_⟩
    rw [List.forall₂_map_right_iff, List.forall₂_same]
    exact fun record hrecord => decoded_decodedRecord (h.records record hrecord)

/-- The encoder sends the frame with the data field and the checksum undamaged. -/
theorem Sound.encodeAvlFrame (h : t.Sound limit) :
    encodeAvlFrame t.records (.ofCodec t.codec) =
      .ok (frameBytes (dataFieldBytes t.codec t.records)) := by
  have hsize := h.dataField ▸ h.size
  rw [encodeAvlFrame_eq h.count h.records, writeUInt_of_fits (fitsUInt_natCast.mpr hsize), ok_bind]
  rfl

theorem Sound.parse (h : t.Sound limit) : parseAvlPacket t.bytes = .ok t.packet := by
  rw [bytes, parseAvlPacket_frame h.size h.crc, packet]
  split
  · rfl
  · next hcrc =>
    have hdata := h.noticed (not_not.mp hcrc)
    have hsize := h.dataField ▸ h.size
    rw [hdata, ← parseAvlPacket_frameBytes hsize, parse_dataFieldBytes h.count h.records hsize]

end Transmission

/-! ## The framer on a frame -/

/-- A framer that has read everything and is past the handshake. -/
def streaming (limit : FrameLimit) : TeltonikaFramer := ⟨limit, [], .streaming⟩

variable {limit : FrameLimit}

theorem next_streaming (limit : FrameLimit) : (streaming limit).next = none := rfl

theorem framer_next : framer.next = TeltonikaFramer.next := rfl

theorem accept_streaming (limit : FrameLimit) (chunk : Bytes) :
    framer.accept (streaming limit) chunk = { streaming limit with buffer := chunk } := rfl

/-- A framer that begins with a whole frame takes it. -/
theorem next_transmission {t : Transmission} (h : t.Sound limit) :
    ({ streaming limit with buffer := t.bytes } : TeltonikaFramer).next =
      some (.packet t.packet, streaming limit) := by
  have hpreamble : readUInt32BE t.bytes 0 = 0 := by
    rw [readUInt32BE, List.drop_zero, Transmission.bytes, List.append_assoc, List.append_assoc,
      List.take_left' (BigEndian.length_encode 4 0), BigEndian.decode_encode (by decide)]
  have hlength : readUInt32BE t.bytes 4 = t.dataField.length := by
    rw [readUInt32BE, Transmission.bytes, List.append_assoc, List.append_assoc,
      List.drop_left' (BigEndian.length_encode 4 0),
      List.take_left' (BigEndian.length_encode 4 _), BigEndian.decode_encode h.size]
  have hframe := t.length_bytes
  have hheader : ¬ t.bytes.length < FRAME_HEADER_BYTES := by
    omega
  rw [TeltonikaFramer.next, if_neg (by simp [streaming]), TeltonikaFramer.nextPacket]
  dsimp only
  rw [if_neg hheader, hpreamble, hlength, if_neg (not_not_intro rfl), ← hframe]
  simp only [streaming, h.limit, Bool.false_eq_true, lt_irrefl, if_false, List.take_length, h.parse]
  simp [TeltonikaFramer.consume]

/-- One frame, one packet, and the framer is where it was. -/
theorem push_transmission {t : Transmission} (h : t.Sound limit) :
    framer.push (streaming limit) t.bytes = ([.packet t.packet], streaming limit) := by
  refine Reassembler.push_of_next (by simp [framer, streaming]) ?_ rfl (next_streaming limit)
  rw [accept_streaming, framer_next, next_transmission h]

/-- The frames of a device, one after another. -/
theorem push_transmissions {ts : List Transmission} (h : ∀ t ∈ ts, t.Sound limit) :
    framer.push (streaming limit) (ts.flatMap Transmission.bytes) =
      (ts.map fun t => .packet t.packet, streaming limit) := by
  induction ts with
  | nil => exact framer_lawful.push_nil (.inr (next_streaming limit))
  | cons t ts ih =>
    obtain ⟨ht, hts⟩ := List.forall_mem_cons.mp h
    rw [List.flatMap_cons, framer_lawful.push_append, push_transmission ht, ih hts]
    rfl

/-- A new framer takes the handshake. -/
theorem push_handshake (maxFrameBytes : Option FrameLimit) {digits : Bytes}
    (hlength : digits.length = 15) (hdigits : ∀ b ∈ digits, AsciiDigit b) :
    framer.push (TeltonikaFramer.new maxFrameBytes) (0x00 :: 0x0f :: digits) =
      ([.imei (spelled digits)], streaming (maxFrameBytes.getD DEFAULT_MAX_FRAME_BYTES)) := by
  have hlow : ∀ b ∈ digits, AsciiDigit (b &&& 0x7f) := by
    intro b hb
    rw [(hdigits b hb).and_high]
    exact hdigits b hb
  have hparse := tryParseImeiFrame_digits hlength []
  rw [List.append_nil, if_pos hlow, toAscii_eq_spelled hdigits] at hparse
  refine Reassembler.push_of_next (by simp [framer, TeltonikaFramer.new]) ?_ rfl
    (next_streaming (maxFrameBytes.getD DEFAULT_MAX_FRAME_BYTES))
  have hbuffer : framer.accept (TeltonikaFramer.new maxFrameBytes) (0x00 :: 0x0f :: digits) =
      ⟨maxFrameBytes.getD DEFAULT_MAX_FRAME_BYTES, 0x00 :: 0x0f :: digits, .awaitingImei⟩ := rfl
  have hrest : (0x00 :: 0x0f :: digits : Bytes).drop 17 = [] := by
    rw [List.drop_eq_nil_iff]
    simp [hlength]
  rw [hbuffer, framer_next, TeltonikaFramer.next, if_pos rfl, TeltonikaFramer.nextHandshake, hparse]
  simp only [TeltonikaFramer.consume, hrest]
  rfl

/-! ## Everything a device sends -/

/-- What a device sends on a connection: its handshake and its packets. -/
def sentBytes (handshake : Bytes) (ts : List Transmission) : Bytes :=
  handshake ++ ts.flatMap Transmission.bytes

theorem push_stream (maxFrameBytes : Option FrameLimit) {imei : String}
    (himei : isValidImei imei = true) {ts : List Transmission}
    (h : ∀ t ∈ ts, t.Sound (maxFrameBytes.getD DEFAULT_MAX_FRAME_BYTES)) :
    ∃ handshake, encodeImeiFrame imei = .ok handshake ∧ handshake ≠ [] ∧
      framer.push (TeltonikaFramer.new maxFrameBytes) (sentBytes handshake ts) =
        (.imei imei :: ts.map fun t => .packet t.packet,
          streaming (maxFrameBytes.getD DEFAULT_MAX_FRAME_BYTES)) := by
  obtain ⟨digits, hlength, hdigits, rfl⟩ := exists_spelled himei
  refine ⟨_, encodeImeiFrame_spelled hlength hdigits, List.cons_ne_nil _ _, ?_⟩
  rw [sentBytes, framer_lawful.push_append, push_handshake maxFrameBytes hlength hdigits,
    push_transmissions h]
  rfl

/-- The events of everything that a device sends. -/
theorem framed_sentBytes {imei : String} (himei : isValidImei imei = true) {handshake : Bytes}
    (hencode : encodeImeiFrame imei = .ok handshake) {ts : List Transmission}
    (h : ∀ t ∈ ts, t.Sound DEFAULT_MAX_FRAME_BYTES) :
    framed (sentBytes handshake ts) = .imei imei :: ts.map fun t => .packet t.packet := by
  obtain ⟨handshake', hencode', -, hpush⟩ := push_stream none himei h
  obtain rfl := Except.ok.inj (hencode.symm.trans hencode')
  rw [framed, push_eq, hpush]

/-- The round trip of a connection. The encoder writes the handshake and every frame, and however
the bytes are cut into chunks, the framer emits the IMEI and then one packet for each frame, in
their order: the records of an intact frame, and the checksums of a damaged one. It has no byte
left and is ready for the next frame. -/
theorem reports_arrive (maxFrameBytes : Option FrameLimit) {imei : String}
    (himei : isValidImei imei = true) {ts : List Transmission}
    (h : ∀ t ∈ ts, t.Sound (maxFrameBytes.getD DEFAULT_MAX_FRAME_BYTES)) :
    (∀ t ∈ ts, ∃ frame, encodeAvlFrame t.records (.ofCodec t.codec) = .ok frame ∧
      frame.length = t.bytes.length ∧ (t.Intact → t.bytes = frame)) ∧
    ∃ handshake, encodeImeiFrame imei = .ok handshake ∧
      ∃ packets, List.Forall₂ Transmission.Arrives ts packets ∧
        ∀ chunks, chunks.flatten = sentBytes handshake ts →
          (TeltonikaFramer.new maxFrameBytes).feed chunks =
            (.imei imei :: packets.map .packet,
              streaming (maxFrameBytes.getD DEFAULT_MAX_FRAME_BYTES)) := by
  refine ⟨fun t ht => ⟨_, (h t ht).encodeAvlFrame, ?_, ?_⟩, ?_⟩
  · rw [t.length_bytes, (h t ht).dataField]
    simp only [frameBytes, List.length_append, BigEndian.length_encode, FRAME_HEADER_BYTES,
      FRAME_CRC_BYTES]
  · rintro ⟨hdata, hcrc⟩
    rw [Transmission.bytes, hcrc, hdata, frameBytes]
  · obtain ⟨handshake, hencode, -, hpush⟩ := push_stream maxFrameBytes himei h
    refine ⟨handshake, hencode, ts.map Transmission.packet, ?_, fun chunks hchunks => ?_⟩
    · rw [List.forall₂_map_right_iff, List.forall₂_same]
      exact fun t ht => (h t ht).arrives
    · rw [feed_eq, framer_lawful.feed_eq_push (new_settled maxFrameBytes), hchunks, hpush,
        List.map_map]
      rfl

/-- A record without a fix and without IO elements. -/
def bareRecord : EncodableRecord := ⟨1700000000000, none, none, none, none, none⟩

/-- The frame of the record, with some data field for the right one. -/
def bareTransmission (dataField : Bytes) : Transmission :=
  ⟨.codec8, [bareRecord], dataField, crc16ibm (dataFieldBytes .codec8 [bareRecord])⟩

/-- A frame whose data field is lost, and the same frame again. -/
def resentReports : List Transmission :=
  [bareTransmission (List.replicate 33 0), bareTransmission (dataFieldBytes .codec8 [bareRecord])]

theorem reports_arrive_resent :
    ∃ handshake, encodeImeiFrame "356307042441013" = .ok handshake ∧
      ∃ packets, List.Forall₂ Transmission.Arrives resentReports packets ∧
        ∀ chunks, chunks.flatten = sentBytes handshake resentReports →
          (TeltonikaFramer.new none).feed chunks =
            (.imei "356307042441013" :: packets.map .packet, streaming DEFAULT_MAX_FRAME_BYTES) :=
  (reports_arrive none (by decide) (by decide +kernel : ∀ t ∈ resentReports, t.Sound _)).2

end BankPlatform.Teltonika
