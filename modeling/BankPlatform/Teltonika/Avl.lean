import BankPlatform.Library.JsMap
import BankPlatform.Library.JsNumber
import BankPlatform.Teltonika.Cursor

/-!
# AVL packets

`crc16ibm` of `packages/teltonika/src/crc.ts` and `parseAvlPacket` of `packages/teltonika/src/avl.ts`.
A frame is a zero preamble, a length, a data field of that length and the checksum of the data
field; the data field is a codec id, a record count, the records and the count again. Coordinates
are kept in the unit of the wire, 1e-7 degrees.
-/

namespace BankPlatform.Teltonika

open Library

/-! ## `crc16ibm` -/

/-- One bit of the checksum. -/
def crcBit (crc : BitVec 32) : BitVec 32 :=
  if crc &&& 1 ≠ 0 then (crc >>> 1) ^^^ 0xa001 else crc >>> 1

/-- One byte of the checksum. -/
def crcByte (crc : BitVec 32) (byte : UInt8) : BitVec 32 :=
  crcBit^[8] (crc ^^^ BitVec.ofNat 32 byte.toNat)

/-- CRC-16/IBM: reflected polynomial 0xA001, zero init, no final xor. -/
def crc16ibm (data : Bytes) : ℕ := ((data.foldl crcByte 0) &&& 0xffff).toNat

theorem crc16ibm_lt (data : Bytes) : crc16ibm data < 2 ^ 16 := by
  unfold crc16ibm
  rw [BitVec.toNat_and]
  exact Nat.and_lt_two_pow _ (by decide)

/-! ## Packets -/

def CODEC_8 : ℕ := 0x08

def CODEC_8_EXTENDED : ℕ := 0x8e

/-- Zero preamble (4 bytes) and data field length (4 bytes). -/
def FRAME_HEADER_BYTES : ℕ := 8

/-- The checksum, zero-padded to 4 bytes. -/
def FRAME_CRC_BYTES : ℕ := 4

inductive CodecId where
  | codec8
  | codec8e
  deriving DecidableEq, Repr

/-- `codec === 'codec8e'`. -/
def CodecId.extended : CodecId → Bool
  | .codec8 => false
  | .codec8e => true

structure GpsElement where
  longitude : ℤ
  latitude : ℤ
  altitudeM : ℤ
  angleDeg : ℕ
  satellites : ℕ
  speedKph : ℕ
  /-- False when the device had no fix. -/
  valid : Bool
  deriving DecidableEq, Repr

structure AvlRecord where
  timestampMs : ℕ
  priority : ℕ
  gps : GpsElement
  eventIoId : ℕ
  io : JsMap ℕ ℕ
  ioVariable : JsMap ℕ Bytes

/-- A decoded packet: the checksum was right and the records were read, or it was wrong. -/
inductive AvlPacket where
  | crcOk (codec : CodecId) (records : List AvlRecord)
  | crcFailed (declaredCrc computedCrc : ℕ)

/-- `n.toString(16)`. -/
def toString16 (n : ℕ) : String := String.ofList (Nat.toDigits 16 n)

/-- `s.padStart(2, '0')`. -/
def padStart2 (s : String) : String :=
  String.ofList (List.replicate (2 - s.length) '0') ++ s

def toCodecId (byte : ℕ) : Except TeltonikaParseError CodecId :=
  if byte = CODEC_8 then .ok .codec8
  else if byte = CODEC_8_EXTENDED then .ok .codec8e
  else .error ⟨"unsupported codec id 0x" ++ padStart2 (toString16 byte)⟩

inductive IoWidth where
  | one
  | two
  | four
  | eight
  deriving DecidableEq, Repr

def IoWidth.bytes : IoWidth → ℕ
  | .one => 1
  | .two => 2
  | .four => 4
  | .eight => 8

/-- The width classes in the order of the wire. -/
def IoWidth.all : List IoWidth := [.one, .two, .four, .eight]

open Cursor

def readIoValue : IoWidth → Read ℕ
  | .one => u8 "io value"
  | .two => u16 "io value"
  | .four => u32 "io value"
  | .eight => u64 "io value"

/-- Codec 8E widens every id and count field from one byte to two. -/
def readId (extended : Bool) (field : String) : Read ℕ :=
  if extended then u16 field else u8 field

def readCount (extended : Bool) (field : String) : Read ℕ :=
  if extended then u16 field else u8 field

/-- The IO elements of one width class. -/
def readIoGroup (extended : Bool) (widthBytes : IoWidth) (io : JsMap ℕ ℕ) : Read (JsMap ℕ ℕ) := do
  let count ← readCount extended (toString widthBytes.bytes ++ "-byte io count")
  Reader.forTimes (fun io => do
    let avlId ← readId extended (toString widthBytes.bytes ++ "-byte io id")
    return JsMap.set io avlId (← readIoValue widthBytes)) count io

/-- The variable-length IO elements. -/
def readIoVariable : Read (JsMap ℕ Bytes) := do
  let count ← readCount true "variable io count"
  Reader.forTimes (fun ioVariable => do
    let avlId ← u16 "variable io id"
    let length ← u16 "variable io length"
    return JsMap.set ioVariable avlId (← bytes length "variable io value")) count Table.empty

def readGps : Read GpsElement := do
  let longitude ← i32 "gps longitude"
  let latitude ← i32 "gps latitude"
  let altitudeM ← i16 "gps altitude"
  let angleDeg ← u16 "gps angle"
  let satellites ← u8 "gps satellites"
  let speedKph ← u16 "gps speed"
  return ⟨longitude, latitude, altitudeM, angleDeg, satellites, speedKph, satellites > 0⟩

def readRecord (extended : Bool) : Read AvlRecord := do
  let timestampMs := JsNumber.ofNat (← u64 "record timestamp")
  let priority ← u8 "record priority"
  let gps ← readGps
  let eventIoId ← readId extended "event io id"
  -- the total is redundant with the counts of the width classes, and is not trusted
  let _ ← readCount extended "total io count"
  let io ← IoWidth.all.foldlM (fun io widthBytes => readIoGroup extended widthBytes io) Table.empty
  let ioVariable ← if extended then readIoVariable else pure Table.empty
  return { timestampMs, priority, gps, eventIoId, io, ioVariable }

/-- The records of a data field and the check of the trailing count. -/
def readDataField : Read AvlPacket := do
  let codec ← toCodecId (← u8 "codec id")
  let declaredCount ← u8 "record count"
  let records ← Reader.forTimes (fun records => do
    return records ++ [← readRecord codec.extended]) declaredCount []
  let trailingCount ← u8 "trailing record count"
  if trailingCount ≠ declaredCount then
    throw ⟨"record count mismatch: header says " ++ toString declaredCount ++ ", trailer says " ++
      toString trailingCount⟩
  return .crcOk codec records

/-- `buf.readUInt32BE(start)` inside the buffer. -/
def readUInt32BE (buf : Bytes) (start : ℕ) : ℕ := BigEndian.decode ((buf.drop start).take 4)

/-- Preamble and data field length. -/
def readHeader : Read ℕ := do
  let preamble ← u32 "preamble"
  if preamble ≠ 0 then
    throw ⟨"preamble 0x" ++ toString16 preamble ++ " is not zero"⟩
  u32 "data field length"

/-- Decodes one complete frame: preamble, length, data field, CRC. -/
def parseAvlPacket (frame : Bytes) : Except TeltonikaParseError AvlPacket := do
  let (dataLength, header) ← readHeader.run (ofBuffer frame)
  let dataStart := header.offset
  let crcStart := dataStart + dataLength
  if frame.length < crcStart + FRAME_CRC_BYTES then
    throw ⟨"frame declares a " ++ toString dataLength ++ "-byte data field but only " ++
      toString (frame.length - dataStart) ++ " byte(s) follow the header"⟩
  let dataField := (frame.drop dataStart).take dataLength
  let declaredCrc := readUInt32BE frame crcStart
  let computedCrc := crc16ibm dataField
  if declaredCrc ≠ computedCrc then
    return .crcFailed declaredCrc computedCrc
  return (← readDataField.run (ofBuffer dataField)).1

end BankPlatform.Teltonika
