import BankPlatform.Telemetry.Uplink
import Mathlib.Data.Set.Finite.Basic

/-!
# How far the flash buffer can be emptied

Whatever has happened on the uplink, a new connection can deliver the oldest records, one packet
each. It comes to an end at a record with a date beyond the range of `Date`: `buildTelemetryEvents`
throws for it, the packet is never answered, and the device never gets past it.

## Main definitions

* `Sendable` — a record that fits a packet.
* `Online` — a connection on which everything is answered.

## Main results

* `Online.deliver` — the next record is stored and deleted.
* `flushed_iff` — the device can delete exactly the records before the first one that has no date.
-/

namespace BankPlatform.Telemetry

open Library Teltonika

/-- The packet with one record, undamaged. -/
def single (codec : CodecId) (record : EncodableRecord) : Transmission :=
  ⟨codec, [record], dataFieldBytes codec [record], crc16ibm (dataFieldBytes codec [record])⟩

/-- The record fits the wire, and a frame of its own. -/
def Sendable (record : EncodableRecord) : Prop :=
  ∃ codec, (single codec record).Sound DEFAULT_MAX_FRAME_BYTES

/-- The date of the record is within the range of `Date`. -/
def HasDate (record : EncodableRecord) : Prop := record.timestampMs ≤ (JsDate.maxTime : ℤ)

/-- The device has had an answer to everything it has sent on the connection. -/
structure Online {Pid : Type} (imei : String) (i : Pid) (x : Uplink Pid × Channel) : Prop where
  socket : x.1.device.socket = some i
  exchange : x.1.device.exchange = .ready
  read : x.1.device.read = x.2.connection.written.flatten.length
  running : x.2.running = true
  handler : x.2.connection.handler = .idle
  paused : x.2.connection.paused = false
  destroyed : x.2.connection.destroyed = false
  ended : x.2.connection.ended = false
  imei : x.2.connection.imei = some imei
  framer : x.2.connection.framer = streaming DEFAULT_MAX_FRAME_BYTES
  received : x.2.connection.received = x.2.sent

/-- The packets that the device sends are sound. -/
def soundReports {Pid : Type} (s : Uplink Pid) : UplinkLabel → Prop
  | .report codec count dataField crc =>
    (s.device.transmission codec count dataField crc).Sound DEFAULT_MAX_FRAME_BYTES
  | _ => True

/-! ## One packet -/

section Connections

variable {l : Connection} {t : Transmission} {packet : AvlPacket} {events : List TelemetryEvent}
  {rest : List FramerEvent}

/-- A whole frame arrives, and nothing else is under way. -/
theorem ingest_data (hpaused : l.paused = false)
    (hframer : l.framer = streaming DEFAULT_MAX_FRAME_BYTES)
    (ht : t.Sound DEFAULT_MAX_FRAME_BYTES) :
    ingestStep true l (.data t.bytes) = some (true, { l with
      paused := true
      handler := .handling [.packet t.packet]
      received := l.received ++ t.bytes
      produced := l.produced ++ [.packet t.packet] }) := by
  have hpush : (streaming DEFAULT_MAX_FRAME_BYTES).push t.bytes =
      ([.packet t.packet], streaming DEFAULT_MAX_FRAME_BYTES) := by
    rw [push_eq, push_transmission ht]
  simp [ingestStep, Connection.data, hpaused, hpush, hframer]

theorem ingest_publish {codec : CodecId} {records : List AvlRecord} {imei : String} {now : ℤ}
    (hhandler : l.handler = .handling (.packet (.crcOk codec records) :: rest))
    (hopen : l.destroyed = false) (himei : l.imei = some imei) (hsome : imei ≠ "")
    (hbuild : buildTelemetryEvents imei codec records (some now) = .ok events) :
    ingestStep true l (.proceed now) = some (true, { l with
      calls := l.calls ++ [⟨events, .pending⟩]
      handler := .publishing (.crcOk codec records) rest }) := by
  simp [ingestStep, Connection.proceed, hhandler, hopen, Connection.handleEvent,
    Connection.handlePacket, himei, hsome, hbuild, Except.mapError, bind, Except.bind, pure,
    Except.pure]

theorem ingest_resolve {calls : List (Call (List TelemetryEvent))}
    (hcalls : l.calls = calls ++ [⟨events, .pending⟩]) :
    ingestStep true l (.settle .resolved) = some (true, { l with
      calls := calls ++ [⟨events, .resolved⟩] }) := by
  simp [ingestStep, Connection.settle, hcalls]

theorem ingest_ack {calls : List (Call (List TelemetryEvent))} (now : ℤ)
    (hcalls : l.calls = calls ++ [⟨events, .resolved⟩])
    (hhandler : l.handler = .publishing packet rest) (hopen : l.destroyed = false)
    (hline : l.ended = false) (hlength : packet.records.length < 2 ^ 32) :
    ingestStep true l (.proceed now) = some (true, { l with
      written := l.written ++ [BigEndian.encode 4 packet.records.length]
      handler := .handling rest }) := by
  have hack := buildRecordAck_eq_ok hlength
  have hwrite : l.write (BigEndian.encode 4 packet.records.length) =
      { l with written := l.written ++ [BigEndian.encode 4 packet.records.length] } := by
    rw [Connection.write, hopen, hline]
    rfl
  have hlast : l.calls.getLast? = some ⟨events, .resolved⟩ := by
    rw [hcalls, List.getLast?_concat]
  rw [ingestStep, if_neg (by decide)]
  simp only [Connection.proceed, hhandler, hlast, Option.bind_some, Connection.published, hack]
  exact congrArg (fun d : Connection => some (true, d.goOn rest)) hwrite

theorem ingest_finish (now : ℤ) (hhandler : l.handler = .handling []) (hopen : l.destroyed = false) :
    ingestStep true l (.proceed now) = some (true, { l with handler := .idle, paused := false }) := by
  simp [ingestStep, Connection.proceed, hhandler, Connection.finish, hopen]

end Connections

theorem serve_eq {l : Channel} {label : IngestLabel} {d : Connection} (hrunning : l.running = true)
    (hpermits : l.Permits label) (hstep : ingestStep true l.connection label = some (true, d)) :
    l.serve label = some { l with connection := d } := by
  rw [Channel.serve, if_pos hpermits, hrunning, hstep, ← hrunning]
  rfl

variable {Pid : Type}

theorem noticesDamage_of_sound (c : Config Pid (Uplink Pid) Channel) (i : Pid) (a : UplinkLabel)
    (h : soundReports c.shared a) : noticesDamage c i a := by
  cases a <;> exact h

variable [DecidableEq Pid] {imei : String}

section Steps

variable {i : Pid} {x : Uplink Pid × Channel} {s : Uplink Pid} {l : Channel}

/-- The server's end goes on. -/
theorem alone_ingest (label : IngestLabel) {d : Connection}
    (h : (uplink Pid imei).Alone soundReports i x (s, l)) (hrunning : l.running = true)
    (hpermits : l.Permits label) (hstep : ingestStep true l.connection label = some (true, d)) :
    (uplink Pid imei).Alone soundReports i x (s, { l with connection := d }) := by
  refine h.tail ⟨.ingest label, trivial, ?_⟩
  change (l.serve label).map (s, ·) = _
  rw [serve_eq hrunning hpermits hstep]
  rfl

theorem alone_store {n : ℕ} {call : Call (List TelemetryEvent)}
    (h : (uplink Pid imei).Alone soundReports i x (s, l))
    (hcall : l.connection.calls[n]? = some call) :
    (uplink Pid imei).Alone soundReports i x
      ({ s with log := s.log ++ [call.payload] }, { l with stored := n :: l.stored }) := by
  refine h.tail ⟨.store n, trivial, ?_⟩
  change l.connection.calls[n]?.map _ = _
  rw [hcall]
  rfl

theorem alone_report {codec : CodecId} {record : EncodableRecord} {rest : List EncodableRecord}
    (h : (uplink Pid imei).Alone soundReports i x (s, l))
    (hflash : s.device.flash = record :: rest) (hsocket : s.device.socket = some i)
    (hready : s.device.exchange = .ready)
    (hsound : (single codec record).Sound DEFAULT_MAX_FRAME_BYTES) :
    (uplink Pid imei).Alone soundReports i x
      ({ s with device := { s.device with exchange := .reporting } }, { l with
        sent := l.sent ++ (single codec record).bytes
        transmissions := l.transmissions ++ [(s.device.deleted, single codec record)] }) := by
  have htransmission : s.device.transmission codec 1 (single codec record).dataField
      (single codec record).crc = single codec record := by
    rw [Device.transmission, hflash]
    rfl
  have hlength : (frameBytes (dataFieldBytes codec [record])).length =
      (single codec record).bytes.length := by
    rw [Transmission.length_bytes]
    simp only [single, frameBytes, List.length_append, BigEndian.length_encode,
      FRAME_HEADER_BYTES, FRAME_CRC_BYTES]
  have hencode : encodeAvlFrame (single codec record).records
      (.ofCodec (single codec record).codec) =
        .ok (frameBytes (dataFieldBytes codec [record])) := hsound.encodeAvlFrame
  refine h.tail ⟨.report codec 1 (single codec record).dataField (single codec record).crc, ?_, ?_⟩
  · change Transmission.Sound _ _
    rwa [htransmission]
  · change (s.device.report i l _).map _ = _
    rw [htransmission, Device.report, if_pos ⟨hsocket, hready⟩, hencode]
    simp only [Except.toOption, Option.bind_some, if_pos hlength]
    rfl

/-- The device deletes as many records as are acknowledged. -/
theorem alone_ack {before : List Bytes} {count : ℕ}
    (h : (uplink Pid imei).Alone soundReports i x (s, l)) (hsocket : s.device.socket = some i)
    (hreporting : s.device.exchange = .reporting) (hread : s.device.read = before.flatten.length)
    (hwritten : l.connection.written = before ++ [BigEndian.encode 4 count])
    (hcount : count < 2 ^ 32) :
    (uplink Pid imei).Alone soundReports i x ({ s with device := { s.device with
      deleted := s.device.deleted + count
      exchange := .ready
      read := s.device.read + 4 } }, l) := by
  have hunread : l.unread s.device.read = BigEndian.encode 4 count := by
    rw [Channel.unread, hwritten, hread, List.flatten_append, List.drop_left]
    simp
  refine h.tail ⟨.reply, trivial, ?_⟩
  change (s.device.reply i l).map _ = _
  rw [Device.reply, if_pos hsocket, hreporting]
  simp only [hunread, BigEndian.length_encode, le_refl, if_true]
  rw [List.take_of_length_le (BigEndian.length_encode 4 count).le, BigEndian.decode_encode hcount]
  rfl

end Steps

theorem timestampMs_le_of_hasDate {record : EncodableRecord} (h : HasDate record) :
    (decodedRecord record).timestampMs ≤ JsDate.maxTime := by
  change record.timestampMs.toNat ≤ JsDate.maxTime
  unfold HasDate at h
  omega

theorem packet_single (codec : CodecId) (record : EncodableRecord) :
    (single codec record).packet = .crcOk codec [decodedRecord record] := by
  have hcrc : (single codec record).crc = crc16ibm (single codec record).dataField := rfl
  rw [Transmission.packet, if_neg (not_not_intro hcrc)]
  rfl

/-- The next record is sent, stored, acknowledged and deleted. -/
theorem Online.deliver {i : Pid} {s : Uplink Pid} {l : Channel} (h : Online imei i (s, l))
    (himei : isValidImei imei = true) {record : EncodableRecord} {rest : List EncodableRecord}
    (hflash : s.device.flash = record :: rest) (hsendable : Sendable record)
    (hdate : HasDate record) :
    ∃ y, (uplink Pid imei).Alone soundReports i (s, l) y ∧ Online imei i y ∧
      y.1.device.recorded = s.device.recorded ∧
      y.1.device.deleted = s.device.deleted + 1 := by
  obtain ⟨codec, hsound⟩ := hsendable
  have hsome : imei ≠ "" := by
    rintro rfl
    simp [isValidImei, IMEI_DIGITS] at himei
  obtain ⟨hbuilt, -⟩ := buildTelemetryEvents_eq_ok imei codec 0 [decodedRecord record]
  have hbuild := hbuilt (by simpa using timestampMs_le_of_hasDate hdate)
  generalize (([decodedRecord record].zipIdx).map fun r => builtEvent imei codec 0 r.1 r.2) =
    events at hbuild
  -- the packet is sent and arrives, and its events are handed to `publish`
  have hstart : (uplink Pid imei).Alone soundReports i (s, l) (s, l) := .refl
  have hsent := alone_report hstart hflash h.socket h.exchange hsound
  have hbytes : l.connection.received ++ (single codec record).bytes <+:
      l.sent ++ (single codec record).bytes := by
    rw [show l.connection.received = l.sent from h.received]
  have harrived := alone_ingest (.data _) hsent h.running hbytes
    (ingest_data h.paused h.framer hsound)
  rw [packet_single] at harrived
  have hpublished := alone_ingest (.proceed 0) harrived h.running trivial
    (ingest_publish rfl h.destroyed h.imei hsome hbuild)
  -- the broker stores them, and the records are acknowledged
  have hlast : (l.connection.calls ++ [⟨events, .pending⟩])[l.connection.calls.length]? =
      some ⟨events, .pending⟩ := by
    simp
  have hstored := alone_store hpublished hlast
  have hdurable : (l.connection.calls ++ [(⟨events, .pending⟩ : Call _)]).length - 1 ∈
      l.connection.calls.length :: l.stored := by
    simp
  have hresolved := alone_ingest (.settle .resolved) hstored h.running hdurable
    (ingest_resolve rfl)
  have hacked := alone_ingest (.proceed 0) hresolved h.running trivial
    (ingest_ack 0 rfl rfl h.destroyed h.ended (by simp [AvlPacket.records]))
  have hfinished := alone_ingest (.proceed 0) hacked h.running trivial
    (ingest_finish 0 rfl h.destroyed)
  have hdeleted := alone_ack hfinished h.socket rfl h.read rfl (by simp [AvlPacket.records])
  refine ⟨_, hdeleted, ?_, rfl, rfl⟩
  have hreceived : l.connection.received = l.sent := h.received
  have hread : s.device.read = l.connection.written.flatten.length := h.read
  exact { h with
    exchange := rfl
    read := by simp [hread]
    handler := rfl
    paused := rfl
    received := by simp [hreceived] }

/-! ## A new connection -/

/-- A device that connects on an unused socket is accepted. -/
theorem alone_connect (himei : isValidImei imei = true) (i : Pid) (s : Uplink Pid) :
    ∃ y, (uplink Pid imei).Alone soundReports i (s, .closed) y ∧ Online imei i y ∧
      y.1.device.recorded = s.device.recorded ∧ y.1.device.deleted = s.device.deleted := by
  have hnil : ∀ t ∈ ([] : List Transmission), t.Sound DEFAULT_MAX_FRAME_BYTES := by simp
  obtain ⟨handshake, hencode, -, hpush⟩ := push_stream none himei hnil
  rw [sentBytes, List.flatMap_nil, List.append_nil, ← push_eq] at hpush
  have hconnect : s.device.connect imei i .closed =
      some ({ s.device with socket := some i, exchange := .greeting, read := 0 },
        { Channel.closed with sent := handshake }) := by
    have hclosed : Channel.closed.sent = [] := rfl
    rw [Device.connect, if_pos hclosed, hencode]
    rfl
  have hconnected : (uplink Pid imei).Alone soundReports i (s, .closed)
      ({ s with device := { s.device with socket := some i, exchange := .greeting, read := 0 } },
        { Channel.closed with sent := handshake }) := by
    refine .single ⟨.connect, trivial, ?_⟩
    simp only [uplink, uplinkStep, hconnect, Option.map_some]
  have hdata : ingestStep true .accepted (.data handshake) = some (true, { Connection.accepted with
      paused := true
      framer := streaming DEFAULT_MAX_FRAME_BYTES
      handler := .handling [.imei imei]
      received := handshake
      produced := [.imei imei] }) := by
    have hframer : Connection.accepted.framer.push handshake =
        ([.imei imei], streaming DEFAULT_MAX_FRAME_BYTES) := hpush
    rw [ingestStep, if_neg (by decide)]
    simp only [Connection.data, hframer]
    rfl
  have harrived := alone_ingest (.data handshake) hconnected rfl List.prefix_rfl hdata
  have hgreeted := alone_ingest (.proceed 0) harrived rfl trivial rfl
  have hfinished := alone_ingest (.proceed 0) hgreeted rfl trivial rfl
  have haccepted := hfinished.tail ⟨.reply, trivial, by
    change (Device.reply _ i _).map _ = _
    rw [Device.reply, if_pos rfl]
    rfl⟩
  exact ⟨_, haccepted, ⟨rfl, rfl, rfl, rfl, rfl, rfl, rfl, rfl, rfl, rfl, rfl⟩, rfl, rfl⟩

/-- As many of the oldest records as have dates are delivered. -/
theorem Online.deliverAll {i : Pid} {s : Uplink Pid} {l : Channel} (h : Online imei i (s, l))
    (himei : isValidImei imei = true) {oldest rest : List EncodableRecord}
    (hflash : s.device.flash = oldest ++ rest)
    (holdest : ∀ record ∈ oldest, Sendable record ∧ HasDate record) :
    ∃ y, (uplink Pid imei).Alone soundReports i (s, l) y ∧
      y.1.device.deleted = s.device.deleted + oldest.length := by
  induction oldest generalizing s l with
  | nil => exact ⟨_, .refl, rfl⟩
  | cons record oldest ih =>
    obtain ⟨⟨hsendable, hdate⟩, holdest⟩ := List.forall_mem_cons.mp holdest
    obtain ⟨⟨s', l'⟩, hrun, honline, hrecorded, hdeleted⟩ := h.deliver himei hflash hsendable hdate
    have hflash' : s'.device.flash = oldest ++ rest := by
      rw [Device.flash, hrecorded, hdeleted, ← List.tail_drop]
      rw [Device.flash] at hflash
      rw [hflash]
      rfl
    obtain ⟨y, hrun', hdeleted'⟩ := ih honline hflash' holdest
    refine ⟨y, hrun.trans hrun', ?_⟩
    rw [hdeleted', hdeleted, List.length_cons]
    omega

/-! ## Sockets -/

/-- A run uses finitely many sockets. -/
theorem finite_used {c : Config Pid (Uplink Pid) Channel}
    (h : (uplink Pid imei).Run noticesDamage (unused Pid) c) :
    {i | c.locals i ≠ .closed}.Finite := by
  refine h.invariant (fun _ => True) (fun c => {i | c.locals i ≠ .closed}.Finite)
    (fun _ _ => trivial) (by simp [unused]) ?_
  intro c i a c' _ hfinite _ hmove
  obtain ⟨s', l', -, rfl⟩ := Interleaving.move_eq_some.mp hmove
  refine (hfinite.insert i).subset fun j hj => ?_
  by_cases hji : j = i
  · exact .inl hji
  · right
    simpa [Function.update_of_ne hji] using hj

/-- A step of a connection forgets no record. -/
theorem recorded_step {i : Pid} {s s' : Uplink Pid} {l l' : Channel} {a : UplinkLabel}
    (h : uplinkStep imei s i l a = some (s', l')) : s.device.recorded <+: s'.device.recorded := by
  cases a with
  | record record =>
    cases h
    exact List.prefix_append _ _
  | connect =>
    obtain ⟨⟨d, l⟩, hconnect, heq⟩ := Option.map_eq_some_iff.mp h
    cases heq
    unfold Device.connect at hconnect
    split at hconnect
    · obtain ⟨handshake, -, heq⟩ := Option.map_eq_some_iff.mp hconnect
      cases heq
      exact List.prefix_rfl
    · cases hconnect
  | report codec count dataField crc =>
    obtain ⟨⟨d, l⟩, hreport, heq⟩ := Option.map_eq_some_iff.mp h
    cases heq
    unfold Device.report at hreport
    split at hreport
    · obtain ⟨frame, -, hframe⟩ := Option.bind_eq_some_iff.mp hreport
      split at hframe
      · cases hframe
        exact List.prefix_rfl
      · cases hframe
    · cases hreport
  | reply =>
    obtain ⟨d, hreply, heq⟩ := Option.map_eq_some_iff.mp h
    cases heq
    unfold Device.reply at hreply
    split at hreply
    · split at hreply
      · cases hreply
      · obtain ⟨accepted, -, rfl⟩ := Option.map_eq_some_iff.mp hreply
        dsimp only
        split <;> exact List.prefix_rfl
      · split at hreply
        · cases hreply
          exact List.prefix_rfl
        · cases hreply
    · cases hreply
  | disconnect =>
    cases h
    exact List.prefix_rfl
  | ingest label =>
    obtain ⟨l, -, heq⟩ := Option.map_eq_some_iff.mp h
    cases heq
    exact List.prefix_rfl
  | store n =>
    obtain ⟨call, -, heq⟩ := Option.map_eq_some_iff.mp h
    cases heq
    exact List.prefix_rfl

theorem recorded_run {c c' : Config Pid (Uplink Pid) Channel}
    (h : (uplink Pid imei).Run noticesDamage c c') :
    c.shared.device.recorded <+: c'.shared.device.recorded := by
  refine h.invariant (fun _ => True)
    (fun c' => c.shared.device.recorded <+: c'.shared.device.recorded) (fun _ _ => trivial)
    List.prefix_rfl ?_
  intro d i a d' _ hinitial _ hmove
  obtain ⟨s', l', hstep, rfl⟩ := Interleaving.move_eq_some.mp hmove
  exact hinitial.trans (recorded_step hstep)

/-- Events are built for records with dates only. -/
theorem hasDate_of_reports {records : List EncodableRecord} {events : List TelemetryEvent}
    (h : Reports imei records events) : ∀ record ∈ records, HasDate record := by
  obtain ⟨codec, receivedAt, -, hbuild⟩ := h
  obtain ⟨-, hthrows⟩ :=
    buildTelemetryEvents_eq_ok imei codec receivedAt (records.map decodedRecord)
  by_contra hlate
  have hlate' : ¬ ∀ record ∈ records.map decodedRecord, record.timestampMs ≤ JsDate.maxTime := by
    refine fun hdates => hlate fun record hrecord => ?_
    have hdate := hdates _ (List.mem_map_of_mem hrecord)
    change record.timestampMs.toNat ≤ JsDate.maxTime at hdate
    unfold HasDate
    omega
  obtain ⟨err, herr⟩ := hthrows hlate'
  rw [hbuild] at herr
  cases herr

/-- Whatever has happened before, the device can get its oldest `n` records stored and deleted if
and only if their dates are all within the range of `Date`. One record beyond it is sent again for
ever, and everything that is recorded later stays in the flash buffer behind it. -/
theorem flushed_iff [Infinite Pid] (himei : isValidImei imei = true)
    {c : Config Pid (Uplink Pid) Channel} (h : (uplink Pid imei).Run noticesDamage (unused Pid) c)
    {n : ℕ} (hn : n ≤ c.shared.device.recorded.length)
    (hsendable : ∀ record ∈ c.shared.device.recorded.take n, Sendable record) :
    (∃ c', (uplink Pid imei).Run noticesDamage c c' ∧ n ≤ c'.shared.device.deleted) ↔
      ∀ record ∈ c.shared.device.recorded.take n, HasDate record := by
  constructor
  · rintro ⟨c', hrun, hdeleted⟩ record hrecord
    obtain ⟨log, hlinked⟩ := linked_run himei (h.trans hrun)
    have hdelivered := Outbox.delivered hlinked.steps
    obtain ⟨p, hrecord⟩ := List.mem_iff_getElem?.mp hrecord
    rw [List.getElem?_take] at hrecord
    obtain ⟨hp, hrecord⟩ := Option.ite_none_right_eq_some.mp hrecord
    obtain ⟨x, hx, hstart, hend⟩ := hdelivered.kept p (hp.trans_le hdeleted)
    -- the record is in a batch, which was built
    refine hasDate_of_reports (hdelivered.carried x hx).2 _ (List.mem_iff_getElem?.mpr
      ⟨p - x.start, ?_⟩)
    obtain ⟨later, hlater⟩ := recorded_run hrun
    rw [Outbox.stretch, List.getElem?_take_of_lt (by omega), List.getElem?_drop,
      Nat.add_sub_cancel' hstart, ← hlater, List.getElem?_append_left, hrecord]
    exact (List.getElem?_eq_some_iff.mp hrecord).1
  · intro hdates
    obtain ⟨i, -, hunused⟩ := Set.infinite_univ.exists_notMem_finite (finite_used h)
    have hclosed : c.locals i = .closed := by
      simpa using hunused
    obtain ⟨⟨s, l⟩, hconnects, honline, hrecorded, hdeleted⟩ := alone_connect himei i c.shared
    have holdest : ∀ record ∈ s.device.flash.take (n - s.device.deleted),
        Sendable record ∧ HasDate record := by
      intro record hrecord
      have hmem : record ∈ c.shared.device.recorded.take n := by
        rw [Device.flash, hrecorded, ← List.drop_take] at hrecord
        exact List.mem_of_mem_drop hrecord
      exact ⟨hsendable record hmem, hdates record hmem⟩
    obtain ⟨y, hdelivers, hdeleted'⟩ :=
      honline.deliverAll himei (List.take_append_drop _ _).symm holdest
    rw [← hclosed] at hconnects
    obtain ⟨c', hrun, hview⟩ := Interleaving.Alone.run (hconnects.trans hdelivers)
      fun c a => noticesDamage_of_sound c i a
    refine ⟨c', hrun, ?_⟩
    obtain rfl := hview
    change c'.shared.device.deleted = _ at hdeleted'
    rw [hdeleted', List.length_take, Device.flash, List.length_drop, hrecorded]
    change s.device.deleted = c.shared.device.deleted at hdeleted
    omega

/-- A record in the year 287396. -/
def lateRecord : EncodableRecord := { bareRecord with timestampMs := 9000000000000000 }

/-- A record that the device never gets rid of. -/
theorem flushed_iff_late : ∃ c, (uplink ℕ "356307042441013").Run noticesDamage (unused ℕ) c ∧
    c.shared.device.recorded = [lateRecord] ∧
    ¬ ∃ c', (uplink ℕ "356307042441013").Run noticesDamage c c' ∧ 1 ≤ c'.shared.device.deleted := by
  have hrun : (uplink ℕ "356307042441013").Run noticesDamage (unused ℕ)
      ⟨{ (unused ℕ).shared with device := { (unused ℕ).shared.device with
        recorded := [lateRecord] } }, Function.update (unused ℕ).locals 0 .closed⟩ :=
    .step .refl (a := .record lateRecord) trivial rfl
  refine ⟨_, hrun, rfl, fun hdeleted => ?_⟩
  have hsendable : ∀ record ∈ [lateRecord].take 1, Sendable record := by
    intro record hrecord
    obtain rfl := List.mem_singleton.mp hrecord
    exact ⟨.codec8, by decide +kernel⟩
  have hdates := (flushed_iff (by decide) hrun le_rfl hsendable).mp hdeleted
  exact absurd (hdates lateRecord List.mem_cons_self) (by unfold HasDate; decide)

end BankPlatform.Telemetry
