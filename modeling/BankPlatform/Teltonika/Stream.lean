import BankPlatform.Teltonika.Bounds
import BankPlatform.Teltonika.Encode
import BankPlatform.Teltonika.Framer

/-!
# The events of a stream

What a new framer makes of the bytes of one device, and the replies of `packages/teltonika/src/ack.ts`.

## Main definitions

* `framed` — the events of a stream.
* `Conversation` — the handshake first, then packets, and an error at most at the end.

## Main results

* `framed_initial` — more bytes only add events.
* `conversation_push` — every stream gives a conversation.
-/

namespace BankPlatform.Teltonika

open Library

/-! ## `ack.ts` -/

/-- Handshake reply: 0x01 accepts the device, 0x00 rejects it. -/
def buildImeiAck (accepted : Bool) : Bytes := [if accepted then 0x01 else 0x00]

/-- Data reply: the number of AVL records that are taken responsibility for. -/
def buildRecordAck (recordCount : ℕ) : Except RangeError Bytes := writeUInt 4 recordCount

/-- `buildRecordAck` throws for a count of more than four bytes only. -/
theorem buildRecordAck_eq_ok {recordCount : ℕ} (h : recordCount < 2 ^ 32) :
    buildRecordAck recordCount = .ok (BigEndian.encode 4 recordCount) :=
  writeUInt_of_fits (fitsUInt_natCast.mpr h)

/-! ## Conversations -/

/-- The events of a stream. -/
def framed (stream : Bytes) : List FramerEvent := ((TeltonikaFramer.new none).push stream).1

def FramerEvent.packet? : FramerEvent → Option AvlPacket
  | .packet p => some p
  | _ => none

/-- The packets among some events. -/
def packetsOf (events : List FramerEvent) : List AvlPacket := events.filterMap FramerEvent.packet?

@[simp] theorem packetsOf_nil : packetsOf [] = [] := rfl

@[simp] theorem packetsOf_append (events events' : List FramerEvent) :
    packetsOf (events ++ events') = packetsOf events ++ packetsOf events' :=
  List.filterMap_append

@[simp] theorem packetsOf_packet (packet : AvlPacket) (events : List FramerEvent) :
    packetsOf (.packet packet :: events) = packet :: packetsOf events := rfl

@[simp] theorem packetsOf_imei (imei : String) (events : List FramerEvent) :
    packetsOf (.imei imei :: events) = packetsOf events := rfl

@[simp] theorem packetsOf_error (reason : FramerErrorReason) (detail : String)
    (events : List FramerEvent) : packetsOf (.error reason detail :: events) = packetsOf events := rfl

/-- The checksum of the packet was right. -/
def AvlPacket.crcRight : AvlPacket → Bool
  | .crcOk _ _ => true
  | .crcFailed _ _ => false

def AvlPacket.records : AvlPacket → List AvlRecord
  | .crcOk _ records => records
  | .crcFailed _ _ => []

/-- Packets, and at most one error, at the end. -/
inductive Reports : List FramerEvent → Prop
  | nil : Reports []
  | error (reason : FramerErrorReason) (detail : String) : Reports [.error reason detail]
  | packet {packet : AvlPacket} {events : List FramerEvent} : packet.records.length < 2 ^ 8 →
      Reports events → Reports (.packet packet :: events)

/-- A handshake and what follows it. -/
inductive Conversation : List FramerEvent → Prop
  | nil : Conversation []
  | error (reason : FramerErrorReason) (detail : String) : Conversation [.error reason detail]
  | imei {imei : String} {events : List FramerEvent} : isValidImei imei = true → Reports events →
      Conversation (.imei imei :: events)

theorem Reports.imei_not_mem {events : List FramerEvent} (h : Reports events) (imei : String) :
    .imei imei ∉ events := by
  induction h with
  | nil => simp
  | error reason detail => simp
  | packet _ _ ih => simpa using ih

/-- Nothing comes before the handshake. -/
theorem Conversation.first {done rest : List FramerEvent} {imei : String}
    (h : Conversation (done ++ .imei imei :: rest)) : done = [] ∧ isValidImei imei = true := by
  generalize hevents : done ++ .imei imei :: rest = events at h
  cases h with
  | nil => simp at hevents
  | error reason detail =>
    cases done with
    | nil => cases hevents
    | cons event done => simp at hevents
  | imei hvalid hreports =>
    cases done with
    | nil =>
      cases hevents
      exact ⟨rfl, hvalid⟩
    | cons event done =>
      obtain ⟨_, hrest⟩ := List.cons.inj hevents
      have hmem := List.mem_append_right done (List.mem_cons_self (a := FramerEvent.imei imei)
        (l := rest))
      exact absurd (hrest ▸ hmem) (hreports.imei_not_mem imei)

theorem Conversation.records_lt {events : List FramerEvent} (h : Conversation events) :
    ∀ packet ∈ packetsOf events, packet.records.length < 2 ^ 8 := by
  have hreports {events : List FramerEvent} (h : Reports events) :
      ∀ packet ∈ packetsOf events, packet.records.length < 2 ^ 8 := by
    induction h with
    | nil => simp
    | error reason detail => simp
    | packet hlength _ ih => simpa using ⟨hlength, ih⟩
  cases h with
  | nil => simp
  | error reason detail => simp
  | imei _ h => simpa using hreports h

theorem records_length_lt {frame : Bytes} {packet : AvlPacket}
    (h : parseAvlPacket frame = .ok packet) : packet.records.length < 2 ^ 8 := by
  cases packet with
  | crcOk codec records => exact (parseAvlPacket_bounds h).1
  | crcFailed declaredCrc computedCrc => exact Nat.two_pow_pos 8

theorem reports_drain {f : TeltonikaFramer} (hstate : f.state = .streaming) (rounds : ℕ) :
    Reports (f.drain rounds).1 := by
  induction rounds generalizing f with
  | zero => exact .nil
  | succ rounds ih =>
    unfold TeltonikaFramer.drain
    cases hnext : f.next with
    | none => exact .nil
    | some r =>
      obtain ⟨event, f'⟩ := r
      have hpacket : f.nextPacket = some (event, f') := by
        rw [← hnext, TeltonikaFramer.next, hstate, if_neg (by decide)]
      obtain ⟨reason, detail, rfl, -⟩ | ⟨packet, frameLength, rfl, -, -, hparse, rfl⟩ :=
        TeltonikaFramer.nextPacket_cases hpacket
      · exact .error reason detail
      · exact .packet (records_length_lt hparse) (ih hstate)

/-- Every stream gives a conversation, whatever the limit of a frame is. -/
theorem conversation_push (maxFrameBytes : Option FrameLimit) (stream : Bytes) :
    Conversation ((TeltonikaFramer.new maxFrameBytes).push stream).1 := by
  unfold TeltonikaFramer.push
  rw [if_neg (by simp [TeltonikaFramer.new])]
  dsimp only
  generalize hf : ({ TeltonikaFramer.new maxFrameBytes with
    buffer := (TeltonikaFramer.new maxFrameBytes).buffer ++ stream } : TeltonikaFramer) = f
  have hstate : f.state = .awaitingImei := by
    subst hf
    rfl
  unfold TeltonikaFramer.drain
  cases hnext : f.next with
  | none => exact .nil
  | some r =>
    obtain ⟨event, f'⟩ := r
    have hhandshake : f.nextHandshake = some (event, f') := by
      rw [← hnext, TeltonikaFramer.next, hstate, if_pos rfl]
    obtain ⟨detail, rfl, -⟩ | ⟨imei, rfl, hvalid, -, rfl⟩ :=
      TeltonikaFramer.nextHandshake_cases hhandshake
    · exact .error _ detail
    · exact .imei hvalid (reports_drain rfl _)

theorem conversation_framed (stream : Bytes) : Conversation (framed stream) :=
  conversation_push none stream

/-! ## Chunks -/

/-- More bytes only add events. -/
theorem framed_initial {stream stream' : Bytes} (h : stream <+: stream') :
    framed stream <+: framed stream' := by
  obtain ⟨more, rfl⟩ := h
  unfold framed
  rw [push_eq, push_eq, framer_lawful.push_append]
  exact List.prefix_append _ _

/-- The framer of a connection after the bytes it has received. -/
def framerAfter (stream : Bytes) : TeltonikaFramer := ((TeltonikaFramer.new none).push stream).2

theorem framed_nil : framed [] = [] := by
  unfold framed
  rw [push_eq, framer_lawful.push_nil (new_settled none)]

theorem framerAfter_nil : framerAfter [] = TeltonikaFramer.new none := by
  unfold framerAfter
  rw [push_eq, framer_lawful.push_nil (new_settled none)]

/-- One more chunk. -/
theorem framed_append (stream chunk : Bytes) :
    framed (stream ++ chunk) = framed stream ++ ((framerAfter stream).push chunk).1 ∧
      framerAfter (stream ++ chunk) = ((framerAfter stream).push chunk).2 := by
  unfold framed framerAfter
  simp only [push_eq]
  rw [framer_lawful.push_append]
  exact ⟨rfl, rfl⟩

end BankPlatform.Teltonika
