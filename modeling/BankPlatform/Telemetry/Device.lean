import BankPlatform.Library.Outbox
import BankPlatform.Telemetry.Ingest
import BankPlatform.Teltonika.Reporting

/-!
# A device and its server

The device of `apps/telemetry-ingest/tests/helpers/fake-device.ts` on the connections of `Ingest`.
The device records positions in its flash buffer, announces its IMEI on a connection, sends a packet
of the oldest records and waits for the reply, and deletes the records that are acknowledged. Its
connections may break at any time, and the handlers of old ones go on; packets may be damaged, and
the broker may store a batch late or more than once.

## Main definitions

* `Device`, `Channel` — the device, and one of its connections with both ends.
* `uplink` — the device with all of its connections.
* `Answers` — what a connection has written to the device.

## Main results

* `answers_step` — the replies of a connection are the handshake's and then acknowledgements.
-/

namespace BankPlatform.Telemetry

open Library Teltonika

/-! ## The device -/

/-- What the device waits for on its connection. -/
inductive Exchange where
  /-- `handshake()` awaits one byte. -/
  | greeting
  | ready
  /-- `sendRecords()` awaits four bytes. -/
  | reporting
  deriving DecidableEq, Repr

/-- A device with its flash buffer; records and connections of the past are remembered. -/
structure Device (Pid : Type) where
  recorded : List EncodableRecord
  /-- How many records it has deleted from the flash buffer. -/
  deleted : ℕ
  /-- The socket in use, until it is destroyed. -/
  socket : Option Pid
  exchange : Exchange
  /-- The bytes of the replies on this socket that `#settle` has taken. -/
  read : ℕ

/-- The records that are still in the flash buffer. -/
def Device.flash {Pid : Type} (d : Device Pid) : List EncodableRecord := d.recorded.drop d.deleted

/-- A connection: the bytes sent by the device, and the server's end of it. -/
structure Channel where
  sent : Bytes
  /-- The packets that the device has sent, with the position of their first record. -/
  transmissions : List (ℕ × Transmission)
  /-- The server's process runs; each connection may be one of another process. -/
  running : Bool
  connection : Connection
  /-- The calls of `publish` whose batch the broker has stored. -/
  stored : List ℕ

/-- A socket that has not connected yet. -/
def Channel.closed : Channel := ⟨[], [], true, .accepted, []⟩

/-- The device, and the batches in the broker in the order of their arrival. -/
structure Uplink (Pid : Type) where
  device : Device Pid
  log : List (List TelemetryEvent)

inductive UplinkLabel where
  | record (record : EncodableRecord)
  | connect
  /-- Sends the oldest `count` records; the data field and the checksum are those that arrive. -/
  | report (codec : CodecId) (count : ℕ) (dataField : Bytes) (crc : ℕ)
  /-- `#settle` takes the bytes that are waited for. -/
  | reply
  | disconnect
  /-- A step of the server's end. -/
  | ingest (label : IngestLabel)
  /-- The broker stores the batch of a call. -/
  | store (call : ℕ)

namespace Channel

/-- Bytes arrive in the order in which they were sent, and `publish` resolves only once the data is
stored. -/
def Permits (l : Channel) : IngestLabel → Prop
  | .data chunk => l.connection.received ++ chunk <+: l.sent
  | .settle .resolved => l.connection.calls.length - 1 ∈ l.stored
  | _ => True

instance (l : Channel) : (label : IngestLabel) → Decidable (l.Permits label)
  | .data _ => inferInstanceAs (Decidable (_ <+: _))
  | .settle .resolved => inferInstanceAs (Decidable (_ ∈ _))
  | .settle .pending | .settle .rejected => .isTrue trivial
  | .proceed _ | .destroy | .hangUp => .isTrue trivial

/-- A step of the server's end. -/
def serve (l : Channel) (label : IngestLabel) : Option Channel :=
  if l.Permits label then
    (ingestStep l.running l.connection label).map fun r =>
      { l with running := r.1, connection := r.2 }
  else none

/-- The replies that the device has not taken yet. -/
def unread (l : Channel) (read : ℕ) : Bytes := l.connection.written.flatten.drop read

end Channel

variable {Pid : Type}

/-- The packet with the oldest records of the device. -/
def Device.transmission (d : Device Pid) (codec : CodecId) (count : ℕ) (dataField : Bytes)
    (crc : ℕ) : Transmission :=
  ⟨codec, d.flash.take count, dataField, crc⟩

/-- `handshake()`: the frame of the IMEI on a new socket. -/
def Device.connect (d : Device Pid) (imei : String) (i : Pid) (l : Channel) :
    Option (Device Pid × Channel) :=
  if l.sent = [] then
    (encodeImeiFrame imei).toOption.map fun handshake =>
      ({ d with socket := some i, exchange := .greeting, read := 0 }, { l with sent := handshake })
  else none

/-- `sendRecords(records)`. -/
def Device.report [DecidableEq Pid] (d : Device Pid) (i : Pid) (l : Channel) (t : Transmission) :
    Option (Device Pid × Channel) :=
  if d.socket = some i ∧ d.exchange = .ready then
    (encodeAvlFrame t.records (.ofCodec t.codec)).toOption.bind fun frame =>
      if frame.length = t.bytes.length then
        some ({ d with exchange := .reporting }, { l with
          sent := l.sent ++ t.bytes, transmissions := l.transmissions ++ [(d.deleted, t)] })
      else none
  else none

/-- The device takes a reply: it goes on after an accepted handshake, and it deletes as many records
as are acknowledged. -/
def Device.reply [DecidableEq Pid] (d : Device Pid) (i : Pid) (l : Channel) : Option (Device Pid) :=
  if d.socket = some i then
    match d.exchange with
    | .ready => none
    | .greeting => (l.unread d.read).head?.map fun accepted =>
      if accepted = 0x01 then { d with exchange := .ready, read := d.read + 1 }
      else { d with socket := none }
    | .reporting =>
      if 4 ≤ (l.unread d.read).length then
        some { d with
          deleted := d.deleted + BigEndian.decode ((l.unread d.read).take 4)
          exchange := .ready
          read := d.read + 4 }
      else none
  else none

/-- One step of the device, the server or the broker, on one connection. -/
def uplinkStep [DecidableEq Pid] (imei : String) (s : Uplink Pid) (i : Pid) (l : Channel) :
    UplinkLabel → Option (Uplink Pid × Channel)
  | .record record =>
    some ({ s with device := { s.device with recorded := s.device.recorded ++ [record] } }, l)
  | .connect => (s.device.connect imei i l).map fun r => ({ s with device := r.1 }, r.2)
  | .report codec count dataField crc =>
    (s.device.report i l (s.device.transmission codec count dataField crc)).map fun r =>
      ({ s with device := r.1 }, r.2)
  | .reply => (s.device.reply i l).map fun d => ({ s with device := d }, l)
  | .disconnect => some ({ s with device := { s.device with socket := none } }, l)
  | .ingest label => (l.serve label).map (s, ·)
  | .store call => l.connection.calls[call]?.map fun c =>
    ({ s with log := s.log ++ [c.payload] }, { l with stored := call :: l.stored })

/-- A device with all of its connections. -/
def uplink (Pid : Type) [DecidableEq Pid] (imei : String) :
    Interleaving Pid (Uplink Pid) Channel UplinkLabel where
  step := uplinkStep imei

/-- The device has recorded nothing, and no socket has connected. -/
def unused (Pid : Type) : Config Pid (Uplink Pid) Channel :=
  ⟨⟨⟨[], 0, none, .ready, 0⟩, []⟩, fun _ => .closed⟩

/-- The packets that are sent fit the wire, and the checksum notices if they are damaged. -/
def noticesDamage : Interleaving.Guard Pid (Uplink Pid) Channel UplinkLabel
  | c, _, .report codec count dataField crc =>
    (c.shared.device.transmission codec count dataField crc).Sound DEFAULT_MAX_FRAME_BYTES
  | _, _, _ => True

instance (c : Config Pid (Uplink Pid) Channel) (i : Pid) :
    (a : UplinkLabel) → Decidable (noticesDamage c i a)
  | .report .. => inferInstanceAs (Decidable (Transmission.Sound _ _))
  | .record _ | .connect | .reply | .disconnect | .ingest _ | .store _ => .isTrue trivial

/-! ## The replies of a connection -/

/-- What a connection has written: the reply to the handshake, if the line was up, and then record
acknowledgements. -/
structure Answers (imei : String) (running : Bool) (l : Connection) : Prop where
  imei : l.imei = none ∨ l.imei = some imei
  silent : l.imei = none → l.written = []
  written : l.written = [] ∨ ∃ acks : List ℕ,
    l.written = buildImeiAck true :: acks.map (BigEndian.encode 4) ∧ ∀ ack ∈ acks, ack < 2 ^ 32
  down : l.written = [] → l.imei ≠ none → (l.destroyed || l.ended) = true
  /-- The handshake has been handled if the IMEI is known. -/
  begun : running = true → l.destroyed = false → l.imei ≠ none →
    l.handler.rest.length < l.produced.length
  publishing : ∀ packet rest, l.handler = .publishing packet rest → l.imei ≠ none

/-- The framer has found the handshake of the device, and packets. -/
def Greets (imei : String) (events : List FramerEvent) : Prop :=
  ∀ event ∈ events, event = .imei imei ∨ ∃ packet, event = .packet packet

variable {imei : String} {running : Bool} {l l' : Connection} {r : PacketReceiver}

theorem answers_accepted : Answers imei true .accepted where
  imei := .inl rfl
  silent _ := rfl
  written := .inl rfl
  down _ h := absurd rfl h
  begun _ _ h := absurd rfl h
  publishing _ _ h := by cases h

theorem Answers.destroy (h : Answers imei running l) : Answers imei running l.destroy :=
  { h with
    down := fun _ _ => rfl
    begun := fun _ hopen => by cases hopen }

theorem Answers.hangUp (h : Answers imei running l) : Answers imei running l.hangUp :=
  { h with down := fun _ _ => by simp [Connection.hangUp] }

/-- The handler goes on to events that are left. -/
theorem Answers.goOn (h : Answers imei running l) {rest : List FramerEvent}
    (hrest : rest.length ≤ l.handler.rest.length) : Answers imei running (l.goOn rest) :=
  { h with
    begun := fun hrunning hopen himei => hrest.trans_lt (h.begun hrunning hopen himei)
    publishing := fun _ _ hfalse => by cases hfalse }

theorem Answers.finish (h : Answers imei running l) {running' : Bool}
    (hrunning : running' = true → running = true) : Answers imei running' l.finish :=
  { h with
    begun := fun hrun hopen himei =>
      (Nat.zero_le _).trans_lt (h.begun (hrunning hrun) hopen himei)
    publishing := fun _ _ hfalse => by cases hfalse }

/-- A record acknowledgement goes behind the replies before it. -/
theorem Answers.write (h : Answers imei running l) (himei : l.imei ≠ none) {ack : ℕ}
    (hack : ack < 2 ^ 32) : Answers imei running (l.write (BigEndian.encode 4 ack)) := by
  have hwritten : (l.write (BigEndian.encode 4 ack)).written =
      l.written ++ if l.destroyed || l.ended then [] else [BigEndian.encode 4 ack] := rfl
  cases hline : l.destroyed || l.ended with
  | true =>
    rw [hline, if_pos rfl, List.append_nil] at hwritten
    exact { h with
      silent := fun hnone => absurd hnone himei
      written := by rw [hwritten]; exact h.written
      down := fun _ _ => hline }
  | false =>
    rw [hline, if_neg Bool.false_ne_true] at hwritten
    have hsome : l.written ≠ [] := by
      intro hnil
      rw [h.down hnil himei] at hline
      cases hline
    obtain ⟨acks, hacks, hlt⟩ := h.written.resolve_left hsome
    exact { h with
      silent := fun hnone => absurd hnone himei
      written := .inr ⟨acks ++ [ack], by rw [hwritten, hacks]; simp, by
        simpa [or_imp, forall_and] using ⟨hlt, hack⟩⟩
      down := fun hnil => by rw [hwritten] at hnil; simp at hnil }

theorem Answers.data {chunk : Bytes} (h : Answers imei running l) (hserves : Serves running l r)
    (hdata : l.data chunk = some l') : Answers imei running l' := by
  unfold Connection.data at hdata
  split at hdata
  · cases hdata
  · next hpaused =>
    cases hdata
    have hidle := hserves.paused.resolve_right hpaused
    refine { h with
      begun := fun hrunning hopen himei => ?_
      publishing := fun _ _ hfalse => by cases hfalse }
    have hbegun := h.begun hrunning hopen himei
    rw [hidle] at hbegun
    simp only [List.length_append, DataHandler.rest] at hbegun ⊢
    omega

theorem Answers.settle {settlement : Settlement} (h : Answers imei running l)
    (hsettle : l.settle settlement = some l') : Answers imei running l' := by
  unfold Connection.settle at hsettle
  split at hsettle
  · cases hsettle
    exact { h with }
  · cases hsettle

/-- The handshake is the first event, and nothing has been written before it. -/
theorem Answers.greet {imei' : String} {rest : List FramerEvent} (h : Answers imei true l)
    (hserves : Serves true l r) (hgreets : Greets imei l.produced)
    (hhandler : l.handler = .handling (.imei imei' :: rest)) (hopen : l.destroyed = false) :
    Answers imei true (({ l with imei := some imei' }.write (buildImeiAck true)).goOn rest) := by
  obtain ⟨done, -, -, hrest⟩ := hserves.taken
  have hproduced := hrest rfl hopen
  rw [hhandler] at hproduced
  have hconversation := conversation_framed l.received
  rw [← hserves.produced, hproduced] at hconversation
  obtain ⟨rfl, -⟩ := hconversation.first
  have hmem : FramerEvent.imei imei' ∈ l.produced := by
    rw [hproduced]
    exact List.mem_cons_self
  obtain rfl : imei' = imei := by
    rcases hgreets _ hmem with heq | ⟨packet, heq⟩
    · exact FramerEvent.imei.inj heq
    · cases heq
  have hnone : l.imei = none := by
    by_contra hsome
    have hbegun := h.begun rfl hopen hsome
    rw [hhandler, hproduced] at hbegun
    exact lt_irrefl _ hbegun
  have hsilent := h.silent hnone
  have hwritten : (({ l with imei := some imei' } : Connection).write (buildImeiAck true)).written =
      if l.destroyed || l.ended then [] else [buildImeiAck true] := by
    simp [Connection.write, hsilent]
  constructor
  · exact .inr rfl
  · intro hfalse
    cases hfalse
  · change (Connection.write _ _).written = [] ∨ _
    rw [Connection.goOn, hwritten]
    split
    · exact .inl rfl
    · exact .inr ⟨[], rfl, by simp⟩
  · intro hnil _
    change (Connection.write _ _).written = [] at hnil
    rw [hwritten] at hnil
    split at hnil
    · next hline => exact hline
    · cases hnil
  · intro _ _ _
    change rest.length < l.produced.length
    rw [hproduced]
    simp [DataHandler.rest]
  · intro _ _ hfalse
    cases hfalse

theorem Answers.handlePacket {packet : AvlPacket} {rest : List FramerEvent} {now : ℤ}
    (h : Answers imei true l) (hhandler : l.handler = .handling (.packet packet :: rest))
    (hhandle : l.handlePacket packet rest (some now) = .ok l') : Answers imei true l' := by
  have hrest : rest.length ≤ l.handler.rest.length := by
    rw [hhandler]
    exact Nat.le_succ _
  unfold Connection.handlePacket at hhandle
  split at hhandle
  · cases hhandle
    exact h.destroy.goOn hrest
  · next hsome =>
    have himei : l.imei ≠ none := by
      intro hnone
      rw [hnone] at hsome
      exact hsome rfl
    cases packet with
    | crcFailed declaredCrc computedCrc =>
      cases hhandle
      exact (h.write himei (by decide)).goOn hrest
    | crcOk codec records =>
      simp only at hhandle
      cases hbuild : buildTelemetryEvents (l.imei.getD "") codec records (some now) with
      | error err =>
        rw [hbuild] at hhandle
        cases hhandle
      | ok events =>
        rw [hbuild] at hhandle
        cases hhandle
        exact { h with
          begun := fun hrunning hopen hknown => hrest.trans_lt (h.begun hrunning hopen hknown)
          publishing := fun _ _ _ => himei }

theorem Answers.handleEvent {event : FramerEvent} {rest : List FramerEvent} {now : ℤ}
    (h : Answers imei true l) (hserves : Serves true l r) (hgreets : Greets imei l.produced)
    (hhandler : l.handler = .handling (event :: rest)) (hopen : l.destroyed = false)
    (hhandle : l.handleEvent rest (some now) event = .ok l') : Answers imei true l' := by
  cases event with
  | imei imei' =>
    cases hhandle
    exact h.greet hserves hgreets hhandler hopen
  | packet packet => exact h.handlePacket hhandler hhandle
  | error reason detail =>
    obtain ⟨done, -, -, hrest⟩ := hserves.taken
    have hproduced := hrest rfl hopen
    rw [hhandler] at hproduced
    have hmem : FramerEvent.error reason detail ∈ l.produced := by
      rw [hproduced]
      exact List.mem_append_right _ List.mem_cons_self
    obtain heq | ⟨packet, heq⟩ := hgreets _ hmem <;> cases heq

theorem Answers.published {packet : AvlPacket} {rest : List FramerEvent} {settlement : Settlement}
    (h : Answers imei true l) (hserves : Serves true l r)
    (hhandler : l.handler = .publishing packet rest)
    (hpublished : l.published packet rest settlement = some (.ok l')) : Answers imei true l' := by
  have hrest : rest.length ≤ l.handler.rest.length := by
    rw [hhandler]
    exact le_rfl
  cases settlement with
  | pending => cases hpublished
  | resolved =>
    have hlength := hserves.records_lt hhandler
    simp only [Connection.published, buildRecordAck_eq_ok hlength] at hpublished
    cases hpublished
    exact (h.write (h.publishing packet rest hhandler) hlength).goOn hrest
  | rejected =>
    cases hpublished
    exact h.destroy.goOn hrest

theorem Answers.proceed {now : ℤ} (h : Answers imei true l) (hserves : Serves true l r)
    (hgreets : Greets imei l.produced) (hproceed : l.proceed (some now) = some (.ok l')) :
    Answers imei true l' := by
  unfold Connection.proceed at hproceed
  split at hproceed
  · cases hproceed
  · cases hproceed
    exact h.finish id
  · next event rest hhandler =>
    split at hproceed
    · cases hproceed
      exact h.finish id
    · next hopen =>
      exact h.handleEvent hserves hgreets hhandler (by simpa using hopen) (Option.some.inj hproceed)
  · next packet rest hhandler =>
    obtain ⟨call, -, hpublished⟩ := Option.bind_eq_some_iff.mp hproceed
    exact h.published hserves hhandler hpublished

/-- The replies of a connection are the handshake's and then acknowledgements. -/
theorem answers_step {running' : Bool} {label : IngestLabel} (h : Answers imei running l)
    (hserves : Serves running l r) (hgreets : Greets imei l.produced)
    (hstep : ingestStep running l label = some (running', l')) : Answers imei running' l' := by
  obtain ⟨rfl, ⟨rfl, hdata | hproceed | hsettle | rfl | rfl⟩ | ⟨rfl, rfl, _⟩⟩ :=
    ingestStep_eq_some hstep
  · obtain ⟨chunk, hdata⟩ := hdata
    exact h.data hserves hdata
  · obtain ⟨now, hproceed⟩ := hproceed
    exact h.proceed hserves hgreets hproceed
  · obtain ⟨settlement, hsettle⟩ := hsettle
    exact h.settle hsettle
  · exact h.destroy
  · exact h.hangUp
  · exact h.finish fun hfalse => by cases hfalse

/-! ## The calls of a connection -/

/-- The handler makes at most one call, which is pending. -/
def CallsMore (l l' : Connection) : Prop :=
  l'.calls = l.calls ∨ ∃ events, l'.calls = l.calls ++ [⟨events, .pending⟩]

theorem callsMore_handlePacket {packet : AvlPacket} {rest : List FramerEvent} {now : JsDate}
    (h : l.handlePacket packet rest now = .ok l') : CallsMore l l' := by
  unfold Connection.handlePacket at h
  split at h
  · cases h
    exact .inl rfl
  · cases packet with
    | crcFailed declaredCrc computedCrc =>
      cases h
      exact .inl rfl
    | crcOk codec records =>
      simp only at h
      cases hbuild : buildTelemetryEvents (l.imei.getD "") codec records now with
      | error err =>
        rw [hbuild] at h
        cases h
      | ok events =>
        rw [hbuild] at h
        cases h
        exact .inr ⟨events, rfl⟩

theorem callsMore_published {packet : AvlPacket} {rest : List FramerEvent} {settlement : Settlement}
    (h : l.published packet rest settlement = some (.ok l')) : CallsMore l l' := by
  cases settlement with
  | pending => cases h
  | resolved =>
    have hack := Option.some.inj h
    cases hbuilt : buildRecordAck packet.records.length with
    | error err =>
      rw [hbuilt] at hack
      cases hack
    | ok ack =>
      rw [hbuilt] at hack
      cases hack
      exact .inl rfl
  | rejected =>
    cases h
    exact .inl rfl

theorem callsMore_proceed {now : JsDate} (h : l.proceed now = some (.ok l')) : CallsMore l l' := by
  unfold Connection.proceed at h
  split at h
  · cases h
  · cases h
    exact .inl rfl
  · next event rest _ =>
    split at h
    · cases h
      exact .inl rfl
    · have hevent := Option.some.inj h
      cases event with
      | imei imei =>
        cases hevent
        exact .inl rfl
      | packet packet => exact callsMore_handlePacket hevent
      | error reason detail =>
        cases hevent
        simp only [CallsMore, Connection.goOn, Connection.destroy]
        split <;> exact .inl rfl
  · obtain ⟨call, -, hpublished⟩ := Option.bind_eq_some_iff.mp h
    exact callsMore_published hpublished

theorem CallsMore.resolved (h : CallsMore l l') {n : ℕ} {call : Call (List TelemetryEvent)}
    (hcall : l'.calls[n]? = some call) (hresolved : call.settlement = .resolved) :
    l.calls[n]? = some call := by
  obtain hsame | ⟨events, hmore⟩ := h
  · rwa [hsame] at hcall
  · rw [hmore] at hcall
    by_cases hn : n < l.calls.length
    · rwa [List.getElem?_append_left hn] at hcall
    · rw [List.getElem?_append_right (not_lt.mp hn), List.getElem?_singleton] at hcall
      split at hcall
      · obtain rfl := Option.some.inj hcall
        cases hresolved
      · cases hcall

/-- A call that is resolved was so before, or it is the last one and is settled in this step. -/
theorem resolved_step {running' : Bool} {label : IngestLabel}
    (hstep : ingestStep running l label = some (running', l')) {n : ℕ}
    {call : Call (List TelemetryEvent)} (hcall : l'.calls[n]? = some call)
    (hresolved : call.settlement = .resolved) :
    l.calls[n]? = some call ∨ label = .settle .resolved ∧ n = l.calls.length - 1 := by
  unfold ingestStep at hstep
  split at hstep
  · cases hstep
  cases label with
  | data chunk =>
    obtain ⟨d, hd, heq⟩ := Option.map_eq_some_iff.mp hstep
    cases heq
    unfold Connection.data at hd
    split at hd
    · cases hd
    · cases hd
      exact .inl hcall
  | proceed now =>
    obtain ⟨result, hresult, heq⟩ := Option.map_eq_some_iff.mp hstep
    cases result with
    | ok d =>
      cases heq
      exact .inl ((callsMore_proceed hresult).resolved hcall hresolved)
    | error err =>
      cases heq
      exact .inl hcall
  | settle settlement =>
    obtain ⟨d, hd, heq⟩ := Option.map_eq_some_iff.mp hstep
    cases heq
    unfold Connection.settle at hd
    split at hd
    · next events hlast =>
      cases hd
      obtain ⟨calls, hcalls⟩ := List.getLast?_eq_some_iff.mp hlast
      simp only [hcalls, List.dropLast_concat] at hcall
      rw [hcalls]
      by_cases hn : n < calls.length
      · rw [List.getElem?_append_left hn] at hcall ⊢
        exact .inl hcall
      · rw [List.getElem?_append_right (not_lt.mp hn), List.getElem?_singleton] at hcall
        split at hcall
        · obtain rfl := Option.some.inj hcall
          refine .inr ⟨congrArg IngestLabel.settle hresolved, ?_⟩
          rw [List.length_append, List.length_singleton]
          omega
        · cases hcall
    · cases hd
  | destroy =>
    cases hstep
    exact .inl hcall
  | hangUp =>
    cases hstep
    exact .inl hcall

end BankPlatform.Telemetry
