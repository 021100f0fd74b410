import BankPlatform.Library.Interleaving
import BankPlatform.Library.StopAndWait
import BankPlatform.Telemetry.Build
import BankPlatform.Teltonika.Reporting

/-!
# Ingest

The connections of `createIngestServer` of `apps/telemetry-ingest/src/server.ts`. The handler of a
connection waits for chunks, for `publish`, and between two events of a chunk; a step is what it
does from one of these places to the next. At any of them the socket may be destroyed, by its
timeout, its peer or an error, or ended by `close`.

## Main definitions

* `Connection` — a socket, its framer, and where its handler stands.
* `ingest` — the connections of one process.

## Main results

* `serves_step` — a connection is a receiver that stops and waits.
* `acks_durable` — an acknowledgement is a durability promise.
-/

namespace BankPlatform.Telemetry

open Library Teltonika

/-! ## A connection -/

/-- Where the `data` handler of a connection stands. -/
inductive DataHandler where
  /-- It waits for a chunk. -/
  | idle
  /-- `handleChunk` has come to the next of these events. -/
  | handling (events : List FramerEvent)
  /-- `handlePacket` awaits `publish`, and these events are left. -/
  | publishing (packet : AvlPacket) (events : List FramerEvent)

/-- A socket with what its handler keeps, and what has gone through it. -/
structure Connection where
  framer : TeltonikaFramer
  imei : Option String
  destroyed : Bool
  ended : Bool
  paused : Bool
  handler : DataHandler
  received : Bytes
  /-- The events that the framer has produced. -/
  produced : List FramerEvent
  /-- The calls of `publish`. -/
  calls : List (Call (List TelemetryEvent))
  written : List Bytes

/-- What the handler may throw. -/
inductive Thrown where
  | outOfRange (err : RangeError)
  | invalidDate (err : DateError)

namespace Connection

/-- A new connection. -/
def accepted : Connection where
  framer := TeltonikaFramer.new none
  imei := none
  destroyed := false
  ended := false
  paused := false
  handler := .idle
  received := []
  produced := []
  calls := []
  written := []

/-- `socket.write(bytes)`. Nothing is sent on a destroyed or ended socket. -/
def write (l : Connection) (bytes : Bytes) : Connection :=
  { l with written := l.written ++ if l.destroyed || l.ended then [] else [bytes] }

/-- `socket.destroy()`, by `drop` or from outside. -/
def destroy (l : Connection) : Connection := { l with destroyed := true }

/-- `socket.end()`. -/
def hangUp (l : Connection) : Connection := { l with ended := true }

/-- The loop of `handleChunk` comes to the next event. -/
def goOn (l : Connection) (rest : List FramerEvent) : Connection :=
  { l with handler := .handling rest }

/-- The start of the `data` handler: a paused socket delivers no data. -/
def data (l : Connection) (chunk : Bytes) : Option Connection :=
  if l.paused then none
  else some { l with
    paused := true
    framer := (l.framer.push chunk).2
    handler := .handling (l.framer.push chunk).1
    received := l.received ++ chunk
    produced := l.produced ++ (l.framer.push chunk).1 }

/-- `handleChunk` has settled; `finally` resumes the socket. -/
def finish (l : Connection) : Connection :=
  { l with handler := .idle, paused := l.destroyed && l.paused }

/-- `handlePacket` up to `await options.publish(events)`. -/
def handlePacket (l : Connection) (packet : AvlPacket) (rest : List FramerEvent) (now : JsDate) :
    Except Thrown Connection :=
  -- `!imei`, of a string that may be undefined
  if l.imei.getD "" = "" then .ok (l.destroy.goOn rest)
  else
    match packet with
    | .crcFailed _ _ => do
      let ack ← (buildRecordAck 0).mapError .outOfRange
      return (l.write ack).goOn rest
    | .crcOk codec records => do
      let events ← (buildTelemetryEvents (l.imei.getD "") codec records now).mapError .invalidDate
      return { l with
        calls := l.calls ++ [⟨events, .pending⟩], handler := .publishing packet rest }

/-- `handlePacket` behind `await options.publish(events)`. -/
def published (l : Connection) (packet : AvlPacket) (rest : List FramerEvent) :
    Settlement → Option (Except Thrown Connection)
  | .pending => none
  | .resolved => some do
    let ack ← (buildRecordAck packet.records.length).mapError .outOfRange
    return (l.write ack).goOn rest
  | .rejected => some (.ok (l.destroy.goOn rest))

/-- One round of the loop of `handleChunk`. -/
def handleEvent (l : Connection) (rest : List FramerEvent) (now : JsDate) :
    FramerEvent → Except Thrown Connection
  | .imei imei =>
    .ok (({ l with imei := some imei }.write (buildImeiAck true)).goOn rest)
  | .packet packet => l.handlePacket packet rest now
  | .error reason _ =>
    let l := if reason = .invalidImei then l.write (buildImeiAck false) else l
    .ok (l.destroy.goOn rest)

/-- The handler goes on, if it waits for nothing. -/
def proceed (l : Connection) (now : JsDate) : Option (Except Thrown Connection) :=
  match l.handler with
  | .idle => none
  | .handling [] => some (.ok l.finish)
  | .handling (event :: rest) =>
    if l.destroyed then some (.ok l.finish) else some (l.handleEvent rest now event)
  | .publishing packet rest =>
    l.calls.getLast?.bind fun call => l.published packet rest call.settlement

/-- The promise of the last call of `publish` is settled. -/
def settle (l : Connection) (settlement : Settlement) : Option Connection :=
  match l.calls.getLast? with
  | some ⟨events, .pending⟩ => some { l with calls := l.calls.dropLast ++ [⟨events, settlement⟩] }
  | _ => none

end Connection

inductive IngestLabel where
  | data (chunk : Bytes)
  /-- The handler goes on; the clock shows `now` if it is asked. -/
  | proceed (now : ℤ)
  | settle (settlement : Settlement)
  | destroy
  | hangUp

/-- A step of a connection; `running` says that the process runs. The process has no handler for
unhandled rejections, and ends when `handleChunk` rejects. -/
def ingestStep (running : Bool) (l : Connection) (label : IngestLabel) : Option (Bool × Connection) :=
  if running = false then none
  else
    match label with
    | .data chunk => (l.data chunk).map (true, ·)
    | .proceed now => (l.proceed (some now)).map fun
      | .ok l' => (true, l')
      | .error _ => (false, l.finish)
    | .settle settlement => (l.settle settlement).map (true, ·)
    | .destroy => some (true, l.destroy)
    | .hangUp => some (true, l.hangUp)

/-- The connections of one process. -/
def ingest (Pid : Type) : Interleaving Pid Bool Connection IngestLabel where
  step running _ l label := ingestStep running l label

/-- The process has just started. -/
def listening (Pid : Type) : Config Pid Bool Connection := ⟨true, fun _ => .accepted⟩

/-! ## What a connection promises -/

/-- The count that a packet is acknowledged with. -/
def ackCount : AvlPacket → ℕ
  | .crcOk _ records => records.length
  | .crcFailed _ _ => 0

/-- The counts of the record acknowledgements: they are the replies of four bytes. -/
def Connection.recordAcks (l : Connection) : List ℕ :=
  (l.written.filter fun bytes => bytes.length = 4).map BigEndian.decode

/-- The events are those of the packet. -/
def Carries (packet : AvlPacket) (events : List TelemetryEvent) : Prop :=
  events.length = ackCount packet ∧ ∃ imei codec records receivedAt, packet = .crcOk codec records ∧
    buildTelemetryEvents imei codec records (some receivedAt) = .ok events

/-- Packets with a right checksum are published. -/
def protocol : StopAndWait AvlPacket (List TelemetryEvent) where
  stores := AvlPacket.crcRight
  carries := Carries

/-- A receiver of packets. -/
abbrev PacketReceiver := StopAndWait.Receiver AvlPacket (List TelemetryEvent)

/-! ## Small facts -/

@[simp] theorem recordAcks_write (l : Connection) (bytes : Bytes) :
    (l.write bytes).recordAcks = l.recordAcks ++
      if l.destroyed || l.ended then []
      else if bytes.length = 4 then [BigEndian.decode bytes] else [] := by
  unfold Connection.recordAcks Connection.write
  cases l.destroyed || l.ended with
  | true => simp
  | false => by_cases h : bytes.length = 4 <;> simp [h]

theorem recordAcks_recordAck (l : Connection) {recordCount : ℕ} (h : recordCount < 2 ^ 32) :
    (l.write (BigEndian.encode 4 recordCount)).recordAcks =
      l.recordAcks ++ if l.destroyed || l.ended then [] else [recordCount] := by
  rw [recordAcks_write, BigEndian.length_encode, if_pos rfl, BigEndian.decode_encode h]

theorem recordAcks_imeiAck (l : Connection) (accepted : Bool) :
    (l.write (buildImeiAck accepted)).recordAcks = l.recordAcks := by
  rw [recordAcks_write]
  simp [buildImeiAck]

theorem ackCount_eq (packet : AvlPacket) : ackCount packet = packet.records.length := by
  cases packet <;> rfl

/-- The events that are built for a packet are those of its records. -/
theorem carries_of_build {imei : String} {codec : CodecId} {records : List AvlRecord}
    {receivedAt : ℤ} {events : List TelemetryEvent}
    (h : buildTelemetryEvents imei codec records (some receivedAt) = .ok events) :
    Carries (.crcOk codec records) events ∧ ∀ event ∈ events, event.imei = imei := by
  obtain ⟨hbuilt, hthrows⟩ := buildTelemetryEvents_eq_ok imei codec receivedAt records
  by_cases hdates : ∀ record ∈ records, record.timestampMs ≤ JsDate.maxTime
  · have hevents := hbuilt hdates
    rw [h] at hevents
    cases hevents
    refine ⟨⟨?_, imei, codec, records, receivedAt, rfl, h⟩, fun event hevent => ?_⟩
    · rw [List.length_map, List.length_zipIdx]
      rfl
    · obtain ⟨r, _, rfl⟩ := List.mem_map.mp hevent
      rfl
  · obtain ⟨err, herr⟩ := hthrows hdates
    rw [h] at herr
    cases herr

/-! ## A connection is a receiver -/

/-- The events that are left. -/
def DataHandler.rest : DataHandler → List FramerEvent
  | .idle => []
  | .handling events => events
  | .publishing _ events => events

/-- The packet whose events are published. -/
def DataHandler.packet? : DataHandler → Option AvlPacket
  | .publishing packet _ => some packet
  | _ => none

/-- What the receiver does meanwhile. -/
def DataHandler.Agrees (destroyed : Bool) (phase : StopAndWait.Phase AvlPacket) : DataHandler → Prop
  | .publishing packet _ => phase = .waiting packet
  | _ => destroyed = false → phase = .ready

/-- A connection serves as a receiver: its calls and acknowledgements are those of the receiver,
which has taken the packets of the events handled so far. -/
structure Serves (running : Bool) (l : Connection) (r : PacketReceiver) : Prop where
  steps : protocol.Steps StopAndWait.initial r
  framer : l.framer = framerAfter l.received
  produced : l.produced = framed l.received
  paused : l.handler = .idle ∨ l.paused = true
  calls : r.calls = l.calls
  acked : l.recordAcks = r.acked.map ackCount
  line : r.line = !(l.destroyed || l.ended)
  phase : l.handler.Agrees l.destroyed r.phase
  taken : ∃ done, packetsOf done = r.taken ∧ done <+: l.produced ∧
    (running = true → l.destroyed = false → l.produced = done ++ l.handler.rest)
  device : ∀ call ∈ l.calls, ∀ event ∈ call.payload, l.imei = some event.imei

theorem serves_accepted : Serves true .accepted StopAndWait.initial where
  steps := .refl
  framer := framerAfter_nil.symm
  produced := framed_nil.symm
  paused := .inl rfl
  calls := rfl
  acked := rfl
  line := rfl
  phase _ := rfl
  taken := ⟨[], rfl, List.nil_prefix, fun _ _ => rfl⟩
  device call hcall := by cases hcall

variable {running : Bool} {l l' : Connection} {r : PacketReceiver}

/-- The end of the process changes nothing for the connection. -/
theorem Serves.stopped (h : Serves running l r) : Serves false l r :=
  { h with
    taken := by
      obtain ⟨done, hdone, hinitial, _⟩ := h.taken
      exact ⟨done, hdone, hinitial, fun hfalse => by cases hfalse⟩ }

theorem Serves.destroy (h : Serves running l r) :
    ∃ r', protocol.Steps r r' ∧ Serves running l.destroy r' := by
  have hstep : protocol.Step r { r with line := false } := .cut
  refine ⟨_, .single hstep, { h with
    steps := h.steps.tail hstep
    acked := h.acked
    line := rfl
    phase := ?_
    taken := ?_ }⟩
  · have hphase := h.phase
    change l.handler.Agrees true r.phase
    cases hhandler : l.handler with
    | idle => exact fun hfalse => by cases hfalse
    | handling events => exact fun hfalse => by cases hfalse
    | publishing packet events =>
      rw [hhandler] at hphase
      exact hphase
  · obtain ⟨done, hdone, hinitial, _⟩ := h.taken
    exact ⟨done, hdone, hinitial, fun _ hfalse => by cases hfalse⟩

theorem Serves.hangUp (h : Serves running l r) :
    ∃ r', protocol.Steps r r' ∧ Serves running l.hangUp r' := by
  have hstep : protocol.Step r { r with line := false } := .cut
  refine ⟨_, .single hstep, { h with
    steps := h.steps.tail hstep
    acked := h.acked
    line := ?_ }⟩
  simp [Connection.hangUp]

theorem Serves.data {chunk : Bytes} (h : Serves running l r) (hdata : l.data chunk = some l') :
    Serves running l' r := by
  unfold Connection.data at hdata
  split at hdata
  · cases hdata
  · next hpaused =>
    cases hdata
    obtain ⟨hframed, hframer⟩ := framed_append l.received chunk
    have hidle := h.paused.resolve_right hpaused
    obtain ⟨done, hdone, hinitial, hrest⟩ := h.taken
    refine { h with
      framer := ?_
      produced := ?_
      paused := .inr rfl
      acked := h.acked
      phase := ?_
      taken := ⟨done, hdone, hinitial.trans (List.prefix_append _ _), fun hrunning hopen => ?_⟩ }
    · rw [hframer, h.framer]
    · rw [hframed, h.framer, h.produced]
    · have hphase := h.phase
      rw [hidle] at hphase
      exact hphase
    · have hproduced := hrest hrunning hopen
      rw [hidle, DataHandler.rest, List.append_nil] at hproduced
      exact congrArg (· ++ _) hproduced

/-- The handler ends with the last event, on a destroyed socket, or with the process. -/
theorem Serves.finish (h : Serves running l r) {running' : Bool} {events : List FramerEvent}
    (hhandler : l.handler = .handling events)
    (hend : running' = true → l.destroyed = false → running = true ∧ events = []) :
    Serves running' l.finish r := by
  obtain ⟨done, hdone, hinitial, hrest⟩ := h.taken
  refine { h with
    paused := .inl rfl
    acked := h.acked
    phase := ?_
    taken := ⟨done, hdone, hinitial, fun hrunning hopen => ?_⟩ }
  · have hphase := h.phase
    rw [hhandler] at hphase
    exact hphase
  · obtain ⟨hran, rfl⟩ := hend hrunning hopen
    have hproduced := hrest hran hopen
    rw [hhandler] at hproduced
    exact hproduced

theorem Serves.settle {settlement : Settlement} (h : Serves running l r)
    (hsettle : l.settle settlement = some l') : ∃ r', protocol.Steps r r' ∧ Serves running l' r' := by
  unfold Connection.settle at hsettle
  split at hsettle
  · next events hlast =>
    cases hsettle
    obtain ⟨calls, hcalls⟩ := List.getLast?_eq_some_iff.mp hlast
    have hstep : protocol.Step r { r with calls := calls ++ [⟨events, settlement⟩] } :=
      .settle calls events settlement (h.calls.trans hcalls)
    refine ⟨_, .single hstep, { h with
      steps := h.steps.tail hstep
      calls := ?_
      acked := h.acked
      device := ?_ }⟩
    · simp [hcalls]
    · have hdevice := h.device
      simp only [hcalls, List.forall_mem_append, List.forall_mem_singleton] at hdevice
      simpa [hcalls, or_imp, forall_and] using hdevice
  · cases hsettle

/-- The handshake comes first. -/
theorem Serves.imei {imei : String} {rest : List FramerEvent} (h : Serves true l r)
    (hhandler : l.handler = .handling (.imei imei :: rest)) (hopen : l.destroyed = false) :
    Serves true (({ l with imei := some imei }.write (buildImeiAck true)).goOn rest) r := by
  obtain ⟨done, hdone, _, hrest⟩ := h.taken
  have hproduced := hrest rfl hopen
  rw [hhandler] at hproduced
  have hconversation := conversation_framed l.received
  rw [← h.produced, hproduced] at hconversation
  obtain rfl := hconversation.first.1
  have hcalls := h.calls.symm.trans (StopAndWait.calls_eq_nil h.steps hdone.symm)
  refine { h with
    paused := ?_
    acked := ?_
    phase := ?_
    taken := ⟨[.imei imei], hdone, ?_, fun _ _ => hproduced⟩
    device := ?_ }
  · exact .inr (h.paused.resolve_left (by simp [hhandler]))
  · exact (recordAcks_imeiAck _ true).trans h.acked
  · have hphase := h.phase
    rw [hhandler] at hphase
    exact hphase
  · exact ⟨rest, hproduced.symm⟩
  · intro call hcall
    change call ∈ l.calls at hcall
    rw [hcalls] at hcall
    cases hcall

/-- An error, or a packet before the handshake, drops the connection. -/
theorem Serves.drop {event : FramerEvent} {rest : List FramerEvent} (h : Serves running l r)
    (hhandler : l.handler = .handling (event :: rest)) :
    ∃ r', protocol.Steps r r' ∧ Serves running (l.destroy.goOn rest) r' := by
  obtain ⟨r', hsteps, h'⟩ := h.destroy
  obtain ⟨done, hdone, hinitial, _⟩ := h'.taken
  refine ⟨r', hsteps, { h' with
    paused := .inr (h.paused.resolve_left (by simp [hhandler]))
    acked := h'.acked
    phase := fun hfalse => by cases hfalse
    taken := ⟨done, hdone, hinitial, fun _ hfalse => by cases hfalse⟩ }⟩

/-- A reply to the handshake is no acknowledgement of records. -/
theorem Serves.imeiAck (h : Serves running l r) (accepted : Bool) :
    Serves running (l.write (buildImeiAck accepted)) r :=
  { h with acked := (recordAcks_imeiAck l accepted).trans h.acked }

/-- The acknowledgement of a packet that has been handled. -/
theorem Serves.ack (h : Serves running l r) (packet : AvlPacket) :
    l.recordAcks ++ (if l.destroyed || l.ended then [] else [ackCount packet]) =
      (r.ack packet).acked.map ackCount := by
  rw [StopAndWait.Receiver.ack, List.map_append, h.acked, h.line]
  cases l.destroyed || l.ended <;> rfl

/-- A packet with a wrong checksum is refused. -/
theorem Serves.crcFailed {declaredCrc computedCrc : ℕ} {rest : List FramerEvent}
    (h : Serves true l r)
    (hhandler : l.handler = .handling (.packet (.crcFailed declaredCrc computedCrc) :: rest))
    (hopen : l.destroyed = false) :
    ∃ r', protocol.Steps r r' ∧ Serves true ((l.write (BigEndian.encode 4 0)).goOn rest) r' := by
  have hphase := h.phase
  rw [hhandler] at hphase
  obtain ⟨done, hdone, _, hrest⟩ := h.taken
  have hproduced := hrest rfl hopen
  rw [hhandler] at hproduced
  have hstep := StopAndWait.Step.pass (S := protocol) (.crcFailed declaredCrc computedCrc)
    (hphase hopen) rfl
  refine ⟨_, .single hstep, { h with
    steps := h.steps.tail hstep
    paused := .inr (h.paused.resolve_left (by simp [hhandler]))
    acked := ?_
    phase := hphase
    taken := ⟨done ++ [.packet (.crcFailed declaredCrc computedCrc)], ?_, ?_, fun _ _ => ?_⟩ }⟩
  · have hack := h.ack (.crcFailed declaredCrc computedCrc)
    exact (recordAcks_recordAck l (by decide)).trans hack
  · rw [packetsOf_append, hdone]
    rfl
  · exact ⟨rest, by rw [List.append_assoc]; exact hproduced.symm⟩
  · rw [List.append_assoc]
    exact hproduced

/-- The events of a packet with a right checksum are handed to `publish`. -/
theorem Serves.publish {imei : String} {codec : CodecId} {records : List AvlRecord} {now : ℤ}
    {events : List TelemetryEvent} {rest : List FramerEvent} (h : Serves true l r)
    (hhandler : l.handler = .handling (.packet (.crcOk codec records) :: rest))
    (hopen : l.destroyed = false) (himei : l.imei = some imei)
    (hbuild : buildTelemetryEvents imei codec records (some now) = .ok events) :
    ∃ r', protocol.Steps r r' ∧ Serves true { l with
      calls := l.calls ++ [⟨events, .pending⟩]
      handler := .publishing (.crcOk codec records) rest } r' := by
  obtain ⟨hcarries, hdevice⟩ := carries_of_build hbuild
  have hphase := h.phase
  rw [hhandler] at hphase
  obtain ⟨done, hdone, _, hrest⟩ := h.taken
  have hproduced := hrest rfl hopen
  rw [hhandler] at hproduced
  have hstep := StopAndWait.Step.submit (S := protocol) (.crcOk codec records) events
    (hphase hopen) rfl hcarries
  refine ⟨_, .single hstep, { h with
    steps := h.steps.tail hstep
    paused := .inr (h.paused.resolve_left (by simp [hhandler]))
    calls := congrArg (· ++ _) h.calls
    acked := h.acked
    phase := rfl
    taken := ⟨done ++ [.packet (.crcOk codec records)], ?_, ?_, fun _ _ => ?_⟩
    device := ?_ }⟩
  · rw [packetsOf_append, hdone]
    rfl
  · exact ⟨rest, by rw [List.append_assoc]; exact hproduced.symm⟩
  · rw [List.append_assoc]
    exact hproduced
  · intro call hcall event hevent
    rcases List.mem_append.mp hcall with hcall | hcall
    · exact h.device call hcall event hevent
    · obtain rfl := List.mem_singleton.mp hcall
      rw [hdevice event hevent]
      exact himei

/-- The records of a packet that is published can be counted in an acknowledgement. -/
theorem Serves.records_lt {packet : AvlPacket} {rest : List FramerEvent} (h : Serves running l r)
    (hhandler : l.handler = .publishing packet rest) : packet.records.length < 2 ^ 32 := by
  have hphase := h.phase
  rw [hhandler] at hphase
  obtain ⟨done, hdone, hinitial, -⟩ := h.taken
  have hmem := StopAndWait.mem_taken_of_waiting h.steps hphase
  rw [← hdone] at hmem
  have hpacket := (hinitial.filterMap FramerEvent.packet?).subset hmem
  rw [h.produced] at hpacket
  exact ((conversation_framed _).records_lt packet hpacket).trans (by decide)

/-- A packet that is stored is acknowledged. -/
theorem Serves.resolved {packet : AvlPacket} {rest : List FramerEvent}
    {calls : List (Call (List TelemetryEvent))} {events : List TelemetryEvent}
    (h : Serves running l r) (hhandler : l.handler = .publishing packet rest)
    (hcalls : l.calls = calls ++ [⟨events, .resolved⟩]) :
    buildRecordAck packet.records.length =
        .ok (BigEndian.encode 4 packet.records.length) ∧
      ∃ r', protocol.Steps r r' ∧
        Serves running ((l.write (BigEndian.encode 4 packet.records.length)).goOn rest) r' := by
  have hphase := h.phase
  rw [hhandler] at hphase
  obtain ⟨done, hdone, hinitial, hrest⟩ := h.taken
  have hlength := h.records_lt hhandler
  have hstep := StopAndWait.Step.answer (S := protocol) packet calls events hphase
    (h.calls.trans hcalls)
  refine ⟨buildRecordAck_eq_ok hlength, _, .single hstep, { h with
    steps := h.steps.tail hstep
    paused := .inr (h.paused.resolve_left (by simp [hhandler]))
    acked := ?_
    phase := fun _ => rfl
    taken := ⟨done, hdone, hinitial, fun hrunning hopen => ?_⟩ }⟩
  · have hack := h.ack packet
    rw [ackCount_eq] at hack
    exact (recordAcks_recordAck l hlength).trans hack
  · have hproduced := hrest hrunning hopen
    rw [hhandler] at hproduced
    exact hproduced

/-- A packet that is not stored ends the connection. -/
theorem Serves.rejected {packet : AvlPacket} {rest : List FramerEvent}
    {calls : List (Call (List TelemetryEvent))} {events : List TelemetryEvent}
    (h : Serves running l r) (hhandler : l.handler = .publishing packet rest)
    (hcalls : l.calls = calls ++ [⟨events, .rejected⟩]) :
    ∃ r', protocol.Steps r r' ∧ Serves running (l.destroy.goOn rest) r' := by
  have hphase := h.phase
  rw [hhandler] at hphase
  obtain ⟨done, hdone, hinitial, _⟩ := h.taken
  have hstep := StopAndWait.Step.stop (S := protocol) packet calls events hphase
    (h.calls.trans hcalls)
  refine ⟨_, .single hstep, { h with
    steps := h.steps.tail hstep
    paused := .inr (h.paused.resolve_left (by simp [hhandler]))
    acked := h.acked
    line := rfl
    phase := fun hfalse => by cases hfalse
    taken := ⟨done, hdone, hinitial, fun _ hfalse => by cases hfalse⟩ }⟩

/-! ## Every step -/

/-- A packet with a record beyond the range of `Date` is next. -/
def Overdue (l : Connection) : Prop :=
  l.destroyed = false ∧ ∃ codec records rest,
    l.handler = .handling (.packet (.crcOk codec records) :: rest) ∧
      ¬ ∀ record ∈ records, record.timestampMs ≤ JsDate.maxTime

/-- The receiver goes along with what the handler does, and `handleChunk` rejects at records beyond
the range of `Date` only. -/
def GoesAlong (l : Connection) (r : PacketReceiver) : Except Thrown Connection → Prop
  | .ok l' => ∃ r', protocol.Steps r r' ∧ Serves true l' r'
  | .error _ => Serves false l.finish r ∧ Overdue l

theorem serves_handlePacket {packet : AvlPacket} {rest : List FramerEvent} {now : ℤ}
    (h : Serves true l r) (hhandler : l.handler = .handling (.packet packet :: rest))
    (hopen : l.destroyed = false) : GoesAlong l r (l.handlePacket packet rest (some now)) := by
  unfold Connection.handlePacket
  split
  · exact h.drop hhandler
  · next himei =>
    cases packet with
    | crcFailed declaredCrc computedCrc => exact h.crcFailed hhandler hopen
    | crcOk codec records =>
      have hsome : l.imei = some (l.imei.getD "") := by
        cases hl : l.imei with
        | none => simp [hl] at himei
        | some imei => rfl
      dsimp only
      cases hbuild : buildTelemetryEvents (l.imei.getD "") codec records (some now) with
      | ok events => exact h.publish hhandler hopen hsome hbuild
      | error err =>
        have hfinish : Serves false l.finish r :=
          h.finish hhandler (fun hfalse => by cases hfalse)
        refine ⟨hfinish, hopen, codec, records, rest, hhandler, fun hdates => ?_⟩
        rw [(buildTelemetryEvents_eq_ok _ codec now records).1 hdates] at hbuild
        cases hbuild

theorem serves_handleEvent {event : FramerEvent} {rest : List FramerEvent} {now : ℤ}
    (h : Serves true l r) (hhandler : l.handler = .handling (event :: rest))
    (hopen : l.destroyed = false) : GoesAlong l r (l.handleEvent rest (some now) event) := by
  cases event with
  | imei imei => exact ⟨r, .refl, h.imei hhandler hopen⟩
  | packet packet => exact serves_handlePacket h hhandler hopen
  | error reason detail =>
    unfold Connection.handleEvent
    dsimp only
    split
    · exact (h.imeiAck false).drop hhandler
    · exact h.drop hhandler

theorem serves_published {packet : AvlPacket} {rest : List FramerEvent}
    {call : Call (List TelemetryEvent)} {result : Except Thrown Connection} (h : Serves true l r)
    (hhandler : l.handler = .publishing packet rest) (hlast : l.calls.getLast? = some call)
    (hpublished : l.published packet rest call.settlement = some result) : GoesAlong l r result := by
  obtain ⟨calls, hcalls⟩ := List.getLast?_eq_some_iff.mp hlast
  obtain ⟨events, settlement⟩ := call
  cases settlement with
  | pending => cases hpublished
  | resolved =>
    obtain ⟨hack, hserves⟩ := h.resolved hhandler hcalls
    simp only [Connection.published, hack] at hpublished
    cases hpublished
    exact hserves
  | rejected =>
    cases hpublished
    exact h.rejected hhandler hcalls

theorem serves_proceed {now : ℤ} {result : Except Thrown Connection} (h : Serves true l r)
    (hproceed : l.proceed (some now) = some result) : GoesAlong l r result := by
  unfold Connection.proceed at hproceed
  split at hproceed
  · cases hproceed
  · next hhandler =>
    cases hproceed
    exact ⟨r, .refl, h.finish hhandler fun _ _ => ⟨rfl, rfl⟩⟩
  · next event rest hhandler =>
    split at hproceed
    · next hdestroyed =>
      cases hproceed
      refine ⟨r, .refl, h.finish hhandler fun _ hopen => ?_⟩
      rw [hdestroyed] at hopen
      cases hopen
    · next hopen =>
      cases hproceed
      exact serves_handleEvent h hhandler (by simpa using hopen)
  · next packet rest hhandler =>
    obtain ⟨call, hlast, hpublished⟩ := Option.bind_eq_some_iff.mp hproceed
    exact serves_published h hhandler hlast hpublished

/-- What a step of a connection is: one of the functions above, and the process ends only where
`handleChunk` rejects. -/
theorem ingestStep_eq_some {running' : Bool} {label : IngestLabel}
    (h : ingestStep running l label = some (running', l')) : running = true ∧
      (running' = true ∧ ((∃ chunk, l.data chunk = some l') ∨
          (∃ now : ℤ, l.proceed (some now) = some (.ok l')) ∨
          (∃ settlement, l.settle settlement = some l') ∨ l' = l.destroy ∨ l' = l.hangUp) ∨
        running' = false ∧ l' = l.finish ∧
          ∃ (now : ℤ) (err : Thrown), l.proceed (some now) = some (.error err)) := by
  unfold ingestStep at h
  split at h
  · cases h
  · next hrunning =>
    refine ⟨by simpa using hrunning, ?_⟩
    cases label with
    | data chunk =>
      obtain ⟨d, hd, heq⟩ := Option.map_eq_some_iff.mp h
      cases heq
      exact .inl ⟨rfl, .inl ⟨chunk, hd⟩⟩
    | proceed now =>
      obtain ⟨result, hresult, heq⟩ := Option.map_eq_some_iff.mp h
      cases result with
      | ok d =>
        cases heq
        exact .inl ⟨rfl, .inr (.inl ⟨now, hresult⟩)⟩
      | error err =>
        cases heq
        exact .inr ⟨rfl, rfl, now, err, hresult⟩
    | settle settlement =>
      obtain ⟨d, hd, heq⟩ := Option.map_eq_some_iff.mp h
      cases heq
      exact .inl ⟨rfl, .inr (.inr (.inl ⟨settlement, hd⟩))⟩
    | destroy =>
      cases h
      exact .inl ⟨rfl, .inr (.inr (.inr (.inl rfl)))⟩
    | hangUp =>
      cases h
      exact .inl ⟨rfl, .inr (.inr (.inr (.inr rfl)))⟩

/-- A connection is a receiver that stops and waits: the receiver goes along with every step. -/
theorem serves_step {running' : Bool} {label : IngestLabel} (h : Serves running l r)
    (hstep : ingestStep running l label = some (running', l')) :
    ∃ r', protocol.Steps r r' ∧ Serves running' l' r' := by
  obtain ⟨rfl, ⟨rfl, hdata | hproceed | hsettle | rfl | rfl⟩ | ⟨rfl, rfl, now, err, hthrows⟩⟩ :=
    ingestStep_eq_some hstep
  · obtain ⟨chunk, hdata⟩ := hdata
    exact ⟨r, .refl, h.data hdata⟩
  · obtain ⟨now, hproceed⟩ := hproceed
    exact serves_proceed h hproceed
  · obtain ⟨settlement, hsettle⟩ := hsettle
    exact h.settle hsettle
  · exact h.destroy
  · exact h.hangUp
  · exact ⟨r, .refl, (serves_proceed h hthrows).1⟩

/-! ## Every run -/

variable {Pid : Type} [DecidableEq Pid] {c c' : Config Pid Bool Connection}

/-- The receiver of a connection goes along with every run. -/
theorem serves_run (h : (ingest Pid).Run Interleaving.anyStep c c') (i : Pid)
    (hserves : Serves c.shared (c.locals i) r) :
    ∃ r', protocol.Steps r r' ∧ Serves c'.shared (c'.locals i) r' := by
  have own (running : Bool) (l : Connection) (label : IngestLabel) (running' : Bool)
      (l' : Connection) (r : PacketReceiver) (hserves : Serves running l r)
      (hstep : (ingest Pid).step running i l label = some (running', l')) :
      ∃ r', protocol.Steps r r' ∧ Serves running' l' r' := serves_step hserves hstep
  refine h.simulate own ?_ hserves
  intro running j l label running' l' _ hstep lᵢ r hserves
  obtain ⟨rfl, ⟨rfl, _⟩ | ⟨rfl, _⟩⟩ := ingestStep_eq_some hstep
  · exact hserves
  · exact hserves.stopped

/-- An acknowledgement is a durability promise. In every run, the record acknowledgements of a
connection are for the first of the packets that its framer produced, one each and in their order,
and those with a right checksum are stored by then; at most one call of `publish` is pending, and
after one was rejected nothing more is published or acknowledged. -/
theorem acks_durable (h : (ingest Pid).Run Interleaving.anyStep (listening Pid) c) (i : Pid) :
    (∃ taken acked, taken <+: packetsOf (c.locals i).produced ∧
      (c.locals i).recordAcks = acked.map ackCount ∧
      protocol.Durable taken acked (c.locals i).calls) ∧
    (∀ call ∈ (c.locals i).calls, ∀ event ∈ call.payload, (c.locals i).imei = some event.imei) ∧
    ∀ c', (ingest Pid).Run Interleaving.anyStep c c' →
      (∃ call ∈ (c.locals i).calls, call.settlement = .rejected) →
        (c'.locals i).calls = (c.locals i).calls ∧
          (c'.locals i).recordAcks = (c.locals i).recordAcks := by
  obtain ⟨r, hsteps, hserves⟩ := serves_run h i serves_accepted
  refine ⟨?_, hserves.device, ?_⟩
  · obtain ⟨done, hdone, hinitial, _⟩ := hserves.taken
    refine ⟨r.taken, r.acked, ?_, hserves.acked, ?_⟩
    · rw [← hdone]
      exact hinitial.filterMap FramerEvent.packet?
    · rw [← hserves.calls]
      exact StopAndWait.durable hsteps
  · rintro c' hrun hrejected
    obtain ⟨r', hsteps', hserves'⟩ := serves_run hrun i hserves
    rw [← hserves.calls] at hrejected
    obtain ⟨hcalls, hacked⟩ := StopAndWait.final hsteps hrejected hsteps'
    rw [← hserves.calls, ← hserves'.calls, hserves.acked, hserves'.acked, hcalls, hacked]
    exact ⟨rfl, rfl⟩

/-- A packet with a wrong checksum is refused, and the next one of the same chunk is published,
stored and acknowledged. -/
theorem acks_durable_resent : ∃ c, (ingest Unit).Run Interleaving.anyStep (listening Unit) c ∧
    (c.locals ()).recordAcks = [0, 1] ∧
    (∃ taken acked, taken <+: packetsOf (c.locals ()).produced ∧
      (c.locals ()).recordAcks = acked.map ackCount ∧
      protocol.Durable taken acked (c.locals ()).calls) ∧
    ∀ call ∈ (c.locals ()).calls, ∀ event ∈ call.payload, (c.locals ()).imei = some event.imei := by
  have hmoves : ((ingest Unit).moves Interleaving.anyStep (listening Unit)
      [((), .data (sentBytes ([0, 15] ++ fromAscii "356307042441013") resentReports)),
        ((), .proceed 0), ((), .proceed 0), ((), .proceed 1700000000500),
        ((), .settle .resolved), ((), .proceed 0)]).map (fun c => (c.locals ()).recordAcks) =
      some [0, 1] := by
    decide +kernel
  obtain ⟨c, hc, hacks⟩ := Option.map_eq_some_iff.mp hmoves
  have hrun := Interleaving.Run.of_moves .refl hc
  obtain ⟨hdurable, hdevice, -⟩ := acks_durable hrun ()
  exact ⟨c, hrun, hacks, hdurable, hdevice⟩

end BankPlatform.Telemetry
