import BankPlatform.Library.Recognizer
import BankPlatform.Teltonika.Avl

/-!
# What a parsed record holds

A packet that was parsed has no more records than its count can say, and every number of a record
fits the field of the wire that it was read from.

## Main results

* `parseAvlPacket_bounds` — the records of a parsed packet are within the widths of the wire.
-/

namespace BankPlatform.Teltonika

open Library Cursor

/-- The numbers of a record fit their fields. -/
structure AvlRecord.OnWire (record : AvlRecord) : Prop where
  timestampMs : ∃ n < 2 ^ 64, record.timestampMs = JsNumber.ofNat n
  priority : record.priority < 2 ^ 8
  altitudeM : record.gps.altitudeM.natAbs ≤ 2 ^ 15
  angleDeg : record.gps.angleDeg < 2 ^ 16
  satellites : record.gps.satellites < 2 ^ 8
  speedKph : record.gps.speedKph < 2 ^ 16
  valid : record.gps.valid = decide (0 < record.gps.satellites)
  eventIoId : record.eventIoId < 2 ^ 16

theorem ensures_bytes (length : ℕ) (field : String) :
    Reader.Ensures (bytes length field) fun bs => bs.length ≤ length := by
  refine Reader.Ensures.bind (P := fun _ => True) (fun _ _ _ _ => trivial) fun start _ => ?_
  intro s bs s' h
  cases h
  exact List.length_take_le _ _

theorem ensures_unsigned (width : ℕ) (field : String) :
    Reader.Ensures (unsigned width field) fun n => n < 256 ^ width := by
  refine (ensures_bytes width field).bind fun bs hlength => .pure ?_
  exact (BigEndian.decode_lt bs).trans_le (Nat.pow_le_pow_right (by decide) hlength)

theorem ensures_signed (width : ℕ) (field : String) :
    Reader.Ensures (signed width field) fun z => 2 * z.natAbs ≤ 256 ^ width := by
  refine (ensures_bytes width field).bind fun bs hlength => .pure ?_
  exact (BigEndian.natAbs_decodeSigned_le bs).trans (Nat.pow_le_pow_right (by decide) hlength)

theorem ensures_readId (extended : Bool) (field : String) :
    Reader.Ensures (readId extended field) fun n => n < 2 ^ 16 := by
  cases extended with
  | true => exact ensures_unsigned 2 field
  | false => exact fun s n s' h => (ensures_unsigned 1 field s n s' h).trans (by decide)

theorem ensures_any {α : Type} (p : Read α) : Reader.Ensures p fun _ => True :=
  fun _ _ _ _ => trivial

theorem ensures_readGps :
    Reader.Ensures readGps fun gps => gps.altitudeM.natAbs ≤ 2 ^ 15 ∧ gps.angleDeg < 2 ^ 16 ∧
      gps.satellites < 2 ^ 8 ∧ gps.speedKph < 2 ^ 16 ∧
      gps.valid = decide (0 < gps.satellites) := by
  refine (ensures_any _).bind fun longitude _ => ?_
  refine (ensures_any _).bind fun latitude _ => ?_
  refine (ensures_signed 2 _).bind fun altitudeM haltitude => ?_
  refine (ensures_unsigned 2 _).bind fun angleDeg hangle => ?_
  refine (ensures_unsigned 1 _).bind fun satellites hsatellites => ?_
  refine (ensures_unsigned 2 _).bind fun speedKph hspeed => .pure ?_
  have haltitude' : altitudeM.natAbs ≤ 2 ^ 15 := by omega
  exact ⟨haltitude', hangle, hsatellites, hspeed, rfl⟩

theorem ensures_readRecord (extended : Bool) :
    Reader.Ensures (readRecord extended) AvlRecord.OnWire := by
  refine (ensures_unsigned 8 _).bind fun timestamp htimestamp => ?_
  refine (ensures_unsigned 1 _).bind fun priority hpriority => ?_
  refine ensures_readGps.bind fun gps hgps => ?_
  refine (ensures_readId extended _).bind fun eventIoId hevent => ?_
  refine (ensures_any _).bind fun total _ => ?_
  refine (ensures_any _).bind fun io _ => ?_
  obtain ⟨haltitude, hangle, hsatellites, hspeed, hvalid⟩ := hgps
  have hrecord (ioVariable : JsMap ℕ Bytes) : AvlRecord.OnWire
      ⟨JsNumber.ofNat timestamp, priority, gps, eventIoId, io, ioVariable⟩ :=
    { timestampMs := ⟨timestamp, htimestamp, rfl⟩
      priority := hpriority
      altitudeM := haltitude
      angleDeg := hangle
      satellites := hsatellites
      speedKph := hspeed
      valid := hvalid
      eventIoId := hevent }
  cases extended with
  | true => exact (ensures_any _).bind fun ioVariable _ => .pure (hrecord ioVariable)
  | false => exact .pure (hrecord Table.empty)

theorem ensures_readDataField_onWire :
    Reader.Ensures readDataField fun packet => ∀ codec records, packet = .crcOk codec records →
      records.length < 2 ^ 8 ∧ ∀ record ∈ records, record.OnWire := by
  refine (ensures_any _).bind fun byte _ => ?_
  refine (ensures_any _).bind fun codec _ => ?_
  refine (ensures_unsigned 1 _).bind fun declaredCount hcount => ?_
  have hrecords : Reader.Ensures
      (Reader.forTimes (fun records => do return records ++ [← readRecord codec.extended])
        declaredCount []) fun records : List AvlRecord =>
          records.length = 0 + declaredCount ∧ ∀ record ∈ records, AvlRecord.OnWire record := by
    refine Reader.Ensures.forTimes_rounds
      (P := fun k (records : List AvlRecord) =>
        records.length = k ∧ ∀ record ∈ records, record.OnWire)
      (fun k records hold => ?_) declaredCount (by simp)
    refine (ensures_readRecord _).bind fun record hrecord => .pure ⟨?_, ?_⟩
    · rw [List.length_append, hold.1, List.length_singleton]
    · intro r hr
      rcases List.mem_append.mp hr with hr | hr
      · exact hold.2 r hr
      · rw [List.mem_singleton.mp hr]
        exact hrecord
  refine hrecords.bind fun records hrecords => ?_
  refine (ensures_any _).bind fun trailingCount _ => ?_
  intro s packet s' h codec' records' hpacket
  split at h
  · cases h
  · cases h
    cases hpacket
    exact ⟨by omega, hrecords.2⟩

/-- A parsed packet has a wrong checksum or comes from the reader of data fields. -/
theorem parseAvlPacket_eq_ok {frame : Bytes} {packet : AvlPacket}
    (h : parseAvlPacket frame = .ok packet) :
    (∃ declaredCrc computedCrc, packet = .crcFailed declaredCrc computedCrc) ∨
      ∃ data s, readDataField.run (ofBuffer data) = .ok (packet, s) := by
  unfold parseAvlPacket at h
  cases hheader : readHeader.run (ofBuffer frame) with
  | error err =>
    rw [hheader, error_bind] at h
    cases h
  | ok r =>
    obtain ⟨dataLength, header⟩ := r
    rw [hheader, ok_bind] at h
    dsimp only at h
    split at h
    · cases h
    · split at h
      · cases h
        exact .inl ⟨_, _, rfl⟩
      · cases hread : readDataField.run
            (ofBuffer ((frame.drop header.offset).take dataLength)) with
        | error err =>
          rw [hread, error_bind] at h
          cases h
        | ok r =>
          rw [hread, ok_bind] at h
          cases h
          exact .inr ⟨_, _, hread⟩

/-- A packet has at most 255 records, and they are within the widths of the wire. -/
theorem parseAvlPacket_bounds {frame : Bytes} {codec : CodecId} {records : List AvlRecord}
    (h : parseAvlPacket frame = .ok (.crcOk codec records)) :
    records.length < 2 ^ 8 ∧ ∀ record ∈ records, record.OnWire := by
  obtain ⟨_, _, hfailed⟩ | ⟨_, _, hread⟩ := parseAvlPacket_eq_ok h
  · cases hfailed
  · exact ensures_readDataField_onWire _ _ _ hread codec records rfl

/-- The records of a parsed packet are within the widths of the wire. -/
theorem parseAvlPacket_onWire {frame : Bytes} {codec : CodecId} {records : List AvlRecord}
    (h : parseAvlPacket frame = .ok (.crcOk codec records)) :
    ∀ record ∈ records, record.OnWire :=
  (parseAvlPacket_bounds h).2

end BankPlatform.Teltonika
